import Sley.Check.Graphs
import Sley.Vm.Execute
import Sley.Vm.FloatEquality

/-!
# The judgment of an operation

`judge_extended_operation` of `sley-vm/src/extended.rs`: the type that an operation of the extended
profile has by its opcode, its immediate and the types of its operands, which has to be the type
that the operation declares. An operation that is refused has one of three codes: its opcode is
outside of the profile, its immediate is wrong, or its types are.

An import that a bridge operation names is resolved by its identity; what its row says has to be
exactly what is frozen for that identity.
-/

namespace Sley.Vm.Lower

open Ssmc hiding TypeEnvironment
open TypeCheck (TypeEnvironment TypeDefinition)
open Check (TextKind ascii octetVector pureIndexError textIdentity textKind textRowTypes)
open Scb1 (Bytes)
open Except (ofOption rejectIf)

abbrev Judged := Except LowerErrorCode

def fail {α : Type} (code : LowerErrorCode) : Judged α := .error code

/-- `MAX_TUPLE_ARITY`. -/
def maxTupleArity : Nat := 64

/-! ### What the judgment reads -/

structure ContractDefinition where
  entityId : EntityId
  target : EntityId
  contractKind : ContractKind
  predicate : EntityId
  bindings : List ContractBinding
  resourceLimits : Option ResourceLimits

structure AdapterImport where
  entityId : EntityId
  adapterId : Digest
  abiVersion : UInt32
  requestType : TypeExpr
  responseType : TypeExpr
  failureType : TypeExpr
  effects : List EntityId

/-- Everything the extended judgment reads from the lowering inventory. -/
structure LoweringContext where
  types : TypeEnvironment
  constants : List ConstantDefinition
  globals : List GlobalValueDefinition
  functions : List FunctionGraph
  parameters : List Parameter
  contracts : List ContractDefinition
  adapters : List AdapterImport
  /-- The function whose operations are judged. -/
  function : EntityId

/-! ### Types -/

mutual

/-- `contains_host_handle`. -/
def containsHostHandle : TypeExpr → Bool
  | .adapterHandle _ | .capabilityToken _ => true
  | .tuple items => anyContainsHostHandle items
  | .named _ arguments => anyContainsHostHandle arguments
  | .vector inner | .option inner | .localCell inner => containsHostHandle inner
  | .orderedMap key value => containsHostHandle key || containsHostHandle value
  | .result ok error => containsHostHandle ok || containsHostHandle error
  | .functionRef parameters returned _ =>
    anyContainsHostHandle parameters || containsHostHandle returned
  | _ => false

def anyContainsHostHandle : List TypeExpr → Bool
  | [] => false
  | value :: values => containsHostHandle value || anyContainsHostHandle values

end

/-- A function may not carry an execution-local value out of its execution. -/
def checkResultType (resultType : TypeExpr) : Judged Unit :=
  rejectIf (containsCell resultType || containsHostHandle resultType) .signatureMismatch

def u8Type : TypeExpr := .uInt ⟨8⟩

def u32Type : TypeExpr := .uInt ⟨32⟩

def u64Type : TypeExpr := .uInt ⟨64⟩

/-- The signedness and the width of an integer type. -/
def integerWidth : TypeExpr → Option (Bool × UInt16)
  | .sInt width => if TypeCheck.isEpoch1 width then some (true, width.bits) else none
  | .uInt width => if TypeCheck.isEpoch1 width then some (false, width.bits) else none
  | _ => none

def arithmeticResult (value : TypeExpr) : TypeExpr := .result value (.builtinFailure .arithmetic)

def mapResult (key value : TypeExpr) : TypeExpr :=
  .result (.orderedMap key value) (.builtinFailure .duplicateKey)

def ordered : TypeExpr → Bool
  | .bool | .sInt _ | .uInt _ | .bytes | .text | .f32 | .f64 => true
  | _ => false

/-- A key of a map needs a total order and, like an operand of equality, no float. -/
def mapKeyAdmissible (types : TypeEnvironment) (key : TypeExpr) : Bool :=
  (match types.traits key with
    | .ok traits => traits.totalOrder
    | .error _ => false) && !containsFloat key

def named (definition : EntityId) : TypeExpr := .named definition []

def namedDefinition : TypeExpr → Option EntityId
  | .named definition [] => some definition
  | _ => none

/-- The fields of a non-generic record definition. -/
def recordFields (types : TypeEnvironment) (definition : EntityId) : Judged (List RecordField) :=
  match types.definition definition with
  | .ok { typeParameters := [], form := .record fields, .. } => .ok fields
  | _ => fail .immediateMismatch

/-- The cases of a non-generic variant definition. -/
def variantCases (types : TypeEnvironment) (definition : EntityId) : Judged (List VariantCase) :=
  match types.definition definition with
  | .ok { typeParameters := [], form := .variant cases, .. } => .ok cases
  | _ => fail .immediateMismatch

/-! ### Functions, globals and contracts -/

structure FunctionType where
  parameters : List TypeExpr
  result : TypeExpr
  effects : List EntityId

def functionSignature (context : LoweringContext) (function : EntityId) : Judged FunctionType := do
  let graph ← ofOption .immediateMismatch <|
    (context.functions.find? (·.entityId = function)).filter (·.typeParameters.isEmpty)
  let parameters ← graph.parameters.mapM fun parameter ↦ do
    let found ← ofOption .immediateMismatch <|
      context.parameters.find? (·.entityId = parameter)
    return found.valueType
  return { parameters, result := graph.resultType, effects := graph.effects }

/-- `global_initializer`: a global and its constant, which is of the type that it declares. -/
def globalInitializer (globals : List GlobalValueDefinition) (constants : List ConstantDefinition)
    (global : EntityId) : Option (GlobalValueDefinition × ConstantDefinition) := do
  let definition ← globals.find? (·.entityId = global)
  let constant ← constants.find? (·.entityId = definition.initializer)
  if constant.value.valueType = definition.valueType then some (definition, constant) else none

def contractAssertResult : TypeExpr := .result .unit (.builtinFailure .contractViolation)

def judgeContractAssert (context : LoweringContext) (immediate : Immediate)
    (operands : List TypeExpr) : Judged TypeExpr := do
  let contract ← ofOption .immediateMismatch (entityOf immediate)
  let definition ← ofOption .immediateMismatch <|
    context.contracts.find? (·.entityId = contract)
  rejectIf (definition.contractKind ∉
      [.precondition, .postcondition, .resultPredicate] ∨ definition.resourceLimits.isSome)
    .immediateMismatch
  rejectIf (definition.target ≠ context.function ∨
    definition.predicate = definition.target) .immediateMismatch
  let predicate ← ofOption .immediateMismatch <|
    context.functions.find? (·.entityId = definition.predicate)
  rejectIf (predicate.effects ≠ [] ∨ predicate.contracts ≠ []) .immediateMismatch
  let signature ← functionSignature context definition.predicate
  rejectIf (signature.result ≠ .bool ∨
    definition.bindings.length ≠ signature.parameters.length ∨ operands ≠ signature.parameters)
    .signatureMismatch
  return contractAssertResult

/-! ### Imports -/

/-- One landed bridge entry. -/
inductive BridgeKind
  | bytesToVector
  | vectorToBytes
  | vectorPush
  | rawHash
  | rawHashLarge
  | rawSha256
  | bytesConcat
  | bytesSlice
  | bytesLength
  deriving DecidableEq, Repr

/-- `bridge_entry_id`: the bytes of the frozen identity of a bridge entry. -/
def bridgeEntryId (code : String) : Bytes := textIdentity (ascii code)

/-- The identities, in the order in which they are compared. -/
def bridgeEntry (id : EntityId) : Option BridgeKind :=
  if id.bytes = bridgeEntryId "B2V1" then some .bytesToVector
  else if id.bytes = bridgeEntryId "V2B1" then some .vectorToBytes
  else if isPushIdentity id then some .vectorPush
  else if id.bytes = bridgeEntryId "RHW1" then some .rawHash
  else if id.bytes = bridgeEntryId "RHW2" then some .rawHashLarge
  else if id.bytes = bridgeEntryId "RSH2" then some .rawSha256
  else if id.bytes = bridgeEntryId "BCT1" then some .bytesConcat
  else if id.bytes = bridgeEntryId "BSL1" then some .bytesSlice
  else if id.bytes = bridgeEntryId "BLN1" then some .bytesLength
  else none

/-- The fields that are frozen alike for every bridge entry. -/
def frozenFields (carried : AdapterImport) : Bool :=
  carried.adapterId.bytes = carried.entityId.bytes && carried.abiVersion = 1 &&
    carried.failureType = .builtinFailure .index && carried.effects.isEmpty

/-- `is_push_row`: the response of a push is the vector of its request. -/
def isPushRow (carried : AdapterImport) : Bool :=
  isPushIdentity carried.entityId && frozenFields carried &&
    carried.responseType = .vector carried.requestType

/-- The request and response types of a conversion. -/
def bridgeRowTypes : BridgeKind → Option (TypeExpr × TypeExpr)
  | .bytesToVector => some (.bytes, octetVector)
  | .vectorToBytes => some (octetVector, .bytes)
  | .vectorPush => none
  | .rawHash | .rawHashLarge | .rawSha256 => some (.bytes, .bytes)
  | .bytesConcat => some (.vector .bytes, .bytes)
  | .bytesSlice => some (.tuple [u64Type, u64Type], .bytes)
  | .bytesLength => some (.bytes, u64Type)

def resolveBridgeEntry (adapters : List AdapterImport) (id : EntityId) :
    Option (BridgeKind × AdapterImport) := do
  let carried ← adapters.find? (·.entityId = id)
  let entry ← bridgeEntry carried.entityId
  guard (frozenFields carried)
  match bridgeRowTypes entry with
  | none => guard (isPushRow carried)
  | some (request, response) =>
    guard (carried.requestType = request ∧ carried.responseType = response)
  return (entry, carried)

/-- A row serves a push with exactly its request and response types. -/
def servesPush (scope request : TypeExpr) (carried : AdapterImport) : Bool :=
  isPushRow carried && carried.requestType = request && carried.responseType = scope

/-- `resolve_push_row`: the first row of the undiscriminated identity that serves the use. -/
def resolvePushRow (adapters : List AdapterImport) (scope request : TypeExpr) :
    Option AdapterImport :=
  adapters.find? fun carried ↦
    carried.entityId.bytes = bridgeEntryId "PSH1" && servesPush scope request carried

/-- `resolve_push_use`: a discriminated identity has exactly its own row. -/
def resolvePushUse (adapters : List AdapterImport) (immediate : EntityId)
    (scope request : TypeExpr) : Option AdapterImport :=
  if immediate.bytes = bridgeEntryId "PSH1" then resolvePushRow adapters scope request
  else (adapters.find? (·.entityId = immediate)).filter (servesPush scope request)

def hasPushRow (adapters : List AdapterImport) : Bool := adapters.any isPushRow

def resolveTextEntry (adapters : List AdapterImport) (id : EntityId) :
    Option (TextKind × AdapterImport) := do
  let carried ← adapters.find? (·.entityId = id)
  let kind ← textKind carried.adapterId
  let (_, request, response) := textRowTypes kind
  guard (carried.abiVersion = 1 ∧ carried.failureType = pureIndexError ∧ carried.effects = [] ∧
    carried.requestType = request ∧ carried.responseType = response)
  return (kind, carried)

def judgeTextUse (kind : TextKind) (scope request : TypeExpr) : Option TypeExpr :=
  let (wantScope, wantRequest, response) := textRowTypes kind
  if scope = wantScope ∧ request = wantRequest then some (.result response pureIndexError)
  else none

/-- The operands that a bridge entry takes, and its response. -/
def bridgeUse (carried : AdapterImport) : BridgeKind → TypeExpr × TypeExpr × TypeExpr
  | .vectorPush => (carried.responseType, carried.requestType, carried.responseType)
  | .bytesToVector => (.unit, .bytes, .vector u8Type)
  | .vectorToBytes => (.unit, octetVector, .bytes)
  | .rawHash => (.unit, .bytes, .bytes)
  | .rawHashLarge | .rawSha256 | .bytesConcat => (.unit, carried.requestType, .bytes)
  | .bytesLength => (.unit, .bytes, u64Type)
  | .bytesSlice => (.bytes, carried.requestType, .bytes)

/-- The arm of a vector push. An identity without a row is no operation of the profile. -/
def judgePush (adapters : List AdapterImport) (entry : EntityId) (operands : List TypeExpr) :
    Judged TypeExpr := do
  let approved := if entry.bytes = bridgeEntryId "PSH1" then hasPushRow adapters
    else adapters.any fun carried ↦ carried.entityId = entry && isPushRow carried
  rejectIf (!approved) .opcodeUnsupported
  match operands with
  | [scope, request] => do
    let carried ← ofOption .signatureMismatch (resolvePushUse adapters entry scope request)
    return .result carried.responseType pureIndexError
  | _ => fail .signatureMismatch

/-- The import is resolved before the operands are counted: an unapproved call is unsupported
however well formed it is. -/
def judgeAdapterInvoke (context : LoweringContext) (immediate : Immediate)
    (operands : List TypeExpr) : Judged TypeExpr := do
  let entry ← ofOption .immediateMismatch (entityOf immediate)
  if isPushIdentity entry then judgePush context.adapters entry operands
  else
    match resolveBridgeEntry context.adapters entry, resolveTextEntry context.adapters entry with
    | some (kind, carried), _ =>
      match operands with
      | [scope, request] => do
        let (wantScope, wantRequest, response) := bridgeUse carried kind
        rejectIf (scope ≠ wantScope ∨ request ≠ wantRequest) .signatureMismatch
        return .result response pureIndexError
      | _ => fail .signatureMismatch
    | none, some (kind, _) =>
      match operands with
      | [scope, request] => ofOption .signatureMismatch (judgeTextUse kind scope request)
      | _ => fail .signatureMismatch
    | none, none => fail .opcodeUnsupported

/-! ### The operations -/

/-- `single_declared`. -/
def singleDeclared : List TypeExpr → Judged TypeExpr
  | [value] => .ok value
  | _ => fail .signatureMismatch

/-- An empty map has its type from what is declared. -/
def judgeMapNew (types : TypeEnvironment) (operands declared : List TypeExpr) :
    Judged TypeExpr := do
  rejectIf (operands.length % 2 ≠ 0) .signatureMismatch
  match operands with
  | key :: value :: _ => do
    let aligned := operands.zipIdx.all fun (operand, index) ↦
      operand = if index % 2 = 0 then key else value
    rejectIf (!aligned || !mapKeyAdmissible types key) .signatureMismatch
    return mapResult key value
  | _ => do
    match ← singleDeclared declared with
    | .result (.orderedMap key value) (.builtinFailure .duplicateKey) => do
      rejectIf (!mapKeyAdmissible types key) .signatureMismatch
      return mapResult key value
    | _ => fail .signatureMismatch

/-- The type that an operation derives, one arm for each opcode of the profile. -/
def deriveType (context : LoweringContext) (opcode : Opcode) (immediate : Immediate)
    (operands declared : List TypeExpr) : Judged TypeExpr :=
  match opcode with
  | .constantRef => do
    let id ← ofOption .immediateMismatch (entityOf immediate)
    rejectIf (operands ≠ []) .signatureMismatch
    let constant ← ofOption .immediateMismatch <|
      context.constants.find? (·.entityId = id)
    return constant.value.valueType
  | .tupleNew => do
    immediateNone immediate
    rejectIf (operands.length > maxTupleArity) .signatureMismatch
    return .tuple operands
  | .tupleGet => do
    let index ← ofOption .immediateMismatch (indexOf immediate)
    match operands with
    | [.tuple items] => ofOption .immediateMismatch items[index.toNat]?
    | _ => fail .signatureMismatch
  | .vectorNew => do
    immediateNone immediate
    match operands with
    | [] => do
      match ← singleDeclared declared with
      | .vector element => return .vector element
      | _ => fail .signatureMismatch
    | first :: rest => do
      rejectIf (rest.any (· ≠ first)) .signatureMismatch
      return .vector first
  | .vectorLen => do
    immediateNone immediate
    match operands with
    | [.vector _] => return u64Type
    | _ => fail .signatureMismatch
  | .vectorGet => do
    immediateNone immediate
    match operands with
    | [.vector element, index] => do
      rejectIf (index ≠ u64Type) .signatureMismatch
      return .option element
    | _ => fail .signatureMismatch
  | .vectorSet => do
    immediateNone immediate
    match operands with
    | [.vector element, index, replacement] => do
      rejectIf (index ≠ u64Type ∨ replacement ≠ element) .signatureMismatch
      return .result (.vector element) (.builtinFailure .index)
    | _ => fail .signatureMismatch
  | .intAddChecked | .intSubChecked | .intMulChecked | .intDivChecked | .intRemChecked => do
    immediateNone immediate
    match operands with
    | [left, right] => do
      rejectIf (left ≠ right ∨ integerWidth left = none) .signatureMismatch
      return arithmeticResult left
    | _ => fail .signatureMismatch
  | .intNegChecked => do
    immediateNone immediate
    match operands with
    | [value] => do
      rejectIf ((integerWidth value).map Prod.fst ≠ some true) .signatureMismatch
      return arithmeticResult value
    | _ => fail .signatureMismatch
  | .intShlChecked | .intShrChecked => do
    immediateNone immediate
    match operands with
    | [value, amount] => do
      rejectIf (integerWidth value = none ∨ amount ≠ u32Type) .signatureMismatch
      return arithmeticResult value
    | _ => fail .signatureMismatch
  | .floatAdd | .floatSub | .floatMul | .floatDiv => do
    immediateNone immediate
    match operands with
    | [left, right] => do
      rejectIf (left ≠ right ∨ !isFloat left) .signatureMismatch
      return left
    | _ => fail .signatureMismatch
  | .floatNeg => do
    immediateNone immediate
    match operands with
    | [value] => do
      rejectIf (!isFloat value) .signatureMismatch
      return value
    | _ => fail .signatureMismatch
  | .floatFma => do
    immediateNone immediate
    match operands with
    | [a, b, c] => do
      rejectIf (a ≠ b ∨ b ≠ c ∨ !isFloat a) .signatureMismatch
      return a
    | _ => fail .signatureMismatch
  | .recordNew => do
    let definition ← ofOption .immediateMismatch (entityOf immediate)
    let fields ← recordFields context.types definition
    rejectIf (operands ≠ fields.map (·.valueType)) .signatureMismatch
    return named definition
  | .recordGet => do
    let member ← ofOption .immediateMismatch (memberOf immediate)
    match operands with
    | [value] => do
      let definition ← ofOption .signatureMismatch (namedDefinition value)
      let fields ← recordFields context.types definition
      let field ← ofOption .immediateMismatch (fields.find? (·.memberId = member))
      return field.valueType
    | _ => fail .signatureMismatch
  | .variantNew => do
    let variant ← ofOption .immediateMismatch (variantOf immediate)
    let cases ← variantCases context.types variant.definition
    let case ← ofOption .immediateMismatch (cases.find? (·.memberId = variant.memberId))
    rejectIf (operands ≠ case.payloadType.toList) .signatureMismatch
    return named variant.definition
  | .variantGet => do
    let variant ← ofOption .immediateMismatch (variantOf immediate)
    match operands with
    | [value] => do
      rejectIf (namedDefinition value ≠ some variant.definition) .signatureMismatch
      let cases ← variantCases context.types variant.definition
      let case ← ofOption .immediateMismatch (cases.find? (·.memberId = variant.memberId))
      let payload ← ofOption .immediateMismatch case.payloadType
      return .option payload
    | _ => fail .signatureMismatch
  | .mapNew => do
    immediateNone immediate
    judgeMapNew context.types operands declared
  | .mapGet => do
    immediateNone immediate
    match operands with
    | [.orderedMap key value, probe] => do
      rejectIf (probe ≠ key) .signatureMismatch
      return .option value
    | _ => fail .signatureMismatch
  | .mapContains => do
    immediateNone immediate
    match operands with
    | [.orderedMap key _, probe] => do
      rejectIf (probe ≠ key) .signatureMismatch
      return .bool
    | _ => fail .signatureMismatch
  | .mapRemove => do
    immediateNone immediate
    match operands with
    | [.orderedMap key value, probe] => do
      rejectIf (probe ≠ key) .signatureMismatch
      return .orderedMap key value
    | _ => fail .signatureMismatch
  | .mapInsert => do
    immediateNone immediate
    match operands with
    | [.orderedMap key value, probe, replacement] => do
      rejectIf (probe ≠ key ∨ replacement ≠ value) .signatureMismatch
      return .orderedMap key value
    | _ => fail .signatureMismatch
  | .cellNew => do
    immediateNone immediate
    match operands with
    | [value] => do
      let persistable := match context.types.traits value with
        | .ok traits => traits.persistable
        | .error _ => false
      rejectIf (!persistable) .signatureMismatch
      return .localCell value
    | _ => fail .signatureMismatch
  | .cellGet => do
    immediateNone immediate
    match operands with
    | [.localCell inner] => return inner
    | _ => fail .signatureMismatch
  | .cellSet => do
    immediateNone immediate
    match operands with
    | [.localCell inner, value] => do
      rejectIf (value ≠ inner) .signatureMismatch
      return .unit
    | _ => fail .signatureMismatch
  | .valueHash => do
    immediateNone immediate
    match operands with
    | [value] => do
      rejectIf ((context.types.requireHashable value).isOk = false) .signatureMismatch
      return .bytes
    | _ => fail .signatureMismatch
  | .globalGet => do
    let global ← ofOption .immediateMismatch (entityOf immediate)
    rejectIf (operands ≠ []) .signatureMismatch
    let (definition, _) ← ofOption .immediateMismatch <|
      globalInitializer context.globals context.constants global
    return definition.valueType
  | .functionRef => do
    let reference ← ofOption .immediateMismatch (functionOf immediate)
    rejectIf (reference.typeArguments ≠ []) .immediateMismatch
    rejectIf (operands ≠ []) .signatureMismatch
    let signature ← functionSignature context reference.function
    return .functionRef signature.parameters signature.result signature.effects
  | .contractAssert => judgeContractAssert context immediate operands
  | .callDirect => do
    let reference ← ofOption .immediateMismatch (functionOf immediate)
    rejectIf (reference.typeArguments ≠ []) .immediateMismatch
    let signature ← functionSignature context reference.function
    rejectIf (operands ≠ signature.parameters) .signatureMismatch
    return signature.result
  | .equal | .notEqual => do
    immediateNone immediate
    judgeEqualOperands context.types operands
  | .lessThan | .lessEqual | .greaterThan | .greaterEqual => do
    immediateNone immediate
    match operands with
    | [left, right] => do
      rejectIf (left ≠ right ∨ !ordered left) .signatureMismatch
      return .bool
    | _ => fail .signatureMismatch
  | .boolNot => do
    immediateNone immediate
    rejectIf (operands ≠ [.bool]) .signatureMismatch
    return .bool
  | .boolAnd | .boolOr => do
    immediateNone immediate
    rejectIf (operands ≠ [.bool, .bool]) .signatureMismatch
    return .bool
  | .optionSome => do
    immediateNone immediate
    match operands with
    | [payload] => return .option payload
    | _ => fail .signatureMismatch
  | .optionNone => do
    immediateNone immediate
    rejectIf (operands ≠ []) .signatureMismatch
    match ← singleDeclared declared with
    | .option payload => return .option payload
    | _ => fail .signatureMismatch
  | .resultOk => do
    immediateNone immediate
    match operands with
    | [payload] => do
      match ← singleDeclared declared with
      | .result ok error => do
        rejectIf (payload ≠ ok) .signatureMismatch
        return .result ok error
      | _ => fail .signatureMismatch
    | _ => fail .signatureMismatch
  | .resultErr => do
    immediateNone immediate
    match operands with
    | [payload] => do
      match ← singleDeclared declared with
      | .result ok error => do
        rejectIf (payload ≠ error) .signatureMismatch
        return .result ok error
      | _ => fail .signatureMismatch
    | _ => fail .signatureMismatch
  | .adapterInvoke => judgeAdapterInvoke context immediate operands
  | .testObserve | .effectRequest | .capabilityNarrow => fail .opcodeUnsupported

/-- `judge_extended_operation`: what is derived is exactly what is declared. -/
def judgeExtendedOperation (context : LoweringContext) (opcode : Opcode) (immediate : Immediate)
    (operands declared : List TypeExpr) : Judged TypeExpr := do
  rejectIf (opcode ∉ [.cellGet, .cellSet] ∧ operands.any containsCell) .signatureMismatch
  let derived ← deriveType context opcode immediate operands declared
  rejectIf (declared ≠ [derived]) .signatureMismatch
  return derived

end Sley.Vm.Lower
