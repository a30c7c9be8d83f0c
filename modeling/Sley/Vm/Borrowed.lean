import Sley.Mutate.ConstBridge
import Sley.Ssmc.Equality
import Sley.Ssmc.Opcode
import Sley.Vm.Narrow

/-!
# The reference arms of the extended instructions

What an instruction computes from the values of its operands: the arms of
`execute_extended_instruction_borrowed` (`sley-vm/src/extended.rs`) that build, take apart and
update values. `none` is `ExtendedFault`. The arms that calculate — integers, floats, comparisons,
hashes and host bridges — do not touch the cells and are one function of the source's inventories
(`ExecutionSource.calculate`).
-/

namespace Sley.Vm

open Ssmc
open Scb1 (Bytes)

/-- Most items that a bridge takes or makes. -/
def bridgeMaxItems : Nat := 1048576

/-! ### What execution reads -/

/-- One immutable constant entity body. -/
structure ConstantDefinition where
  entityId : EntityId
  value : ConstValue

/-- The fields of a global value that its read looks at. -/
structure GlobalValueDefinition where
  entityId : EntityId
  valueType : TypeExpr
  initializer : EntityId

/-- The fields of a contract that its assertion looks at. -/
structure ContractDefinition where
  entityId : EntityId
  predicate : EntityId

/-- The fields of an adapter import that a vector push looks at. -/
structure AdapterImport where
  requestType : TypeExpr
  responseType : TypeExpr
  failureType : TypeExpr

/-- Everything execution reads, however the bytecode arrived. -/
structure ExecutionSource where
  /-- `profile.is_extended()`. -/
  extended : Bool
  /-- `types.definition(id)`: the type parameters and the form. -/
  definition : EntityId → Option (List TypeParameterDef × TypeDefForm)
  constants : List ConstantDefinition
  globals : List GlobalValueDefinition
  contracts : List ContractDefinition
  /-- `resolve_push_use(adapters, entry, scope, request)`. -/
  pushUse : EntityId → TypeExpr → TypeExpr → Option AdapterImport
  /-- `bridge_fuel_surcharge_borrowed(adapters, immediate, operands)`. -/
  bridgeElements : Immediate → List ConstValue → Option UInt64
  /-- The arms that calculate. -/
  calculate : Opcode → Immediate → List ConstValue → TypeExpr → Option ConstValue
  /-- `TypeEnvironment::new` bounds the fields of a definition. -/
  fields_le : ∀ {id parameters fields}, definition id = some (parameters, .record fields) →
    fields.length ≤ maxMembers
  /-- The constants are checked against the definitions. -/
  constants_narrow : ∀ constant ∈ constants, Narrow constant.value
  /-- What is calculated has the type of its instruction. -/
  calculate_narrow : ∀ {opcode immediate operands resultType value},
    calculate opcode immediate operands resultType = some value →
    (∀ v ∈ operands, Narrow v) → Narrow value

/-- The fields of a non-generic record definition. -/
def ExecutionSource.recordFields (source : ExecutionSource) (definition : EntityId) :
    Option (List RecordField) :=
  match source.definition definition with
  | some ([], .record fields) => some fields
  | _ => none

/-- `global_initializer`: the constant of a global, of the type that the global declares. -/
def ExecutionSource.globalInitializer (source : ExecutionSource) (global : EntityId) :
    Option ConstantDefinition := do
  let definition ← source.globals.find? (·.entityId = global)
  let constant ← source.constants.find? (·.entityId = definition.initializer)
  if constant.value.valueType = definition.valueType then some constant else none

/-! ### What an instruction names -/

section Immediates

variable (immediate : Immediate)

def entityOf : Option EntityId :=
  match immediate with
  | .entity id => some id
  | _ => none

def indexOf : Option UInt32 :=
  match immediate with
  | .index index => some index
  | _ => none

def memberOf : Option MemberId :=
  match immediate with
  | .field member => some member
  | _ => none

def variantOf : Option VariantImmediate :=
  match immediate with
  | .variant variant => some variant
  | _ => none

def functionOf : Option FunctionRefValue :=
  match immediate with
  | .function function => some function
  | _ => none

/-- The two types of a result type. -/
def resultTypesOf (type : TypeExpr) : Option (TypeExpr × TypeExpr) :=
  match type with
  | .result ok error => some (ok, error)
  | _ => none

end Immediates

/-! ### Maps -/

/-- The canonical bytes of a key: `encode_const_value`. -/
def keyBytes (value : ConstValue) : Option Bytes :=
  (Mutate.encodeAtDepth 0 (fun value ↦ Mutate.ConstEncoding.encode (.value value) 0) value).toOption

/-- The entries with the canonical bytes of their keys. -/
def keyedEntries (entries : List MapEntryConst) : Option (List (Bytes × MapEntryConst)) :=
  entries.mapM fun entry ↦ do return (← keyBytes entry.key, entry)

/-- The entries by the canonical bytes of their keys. -/
def sortedMap (entries : List MapEntryConst) : Option (List MapEntryConst) := do
  let keyed ← keyedEntries entries
  return (keyed.mergeSort fun left right ↦ (compare left.1 right.1).isLE).map Prod.snd

def mapEntries (value : ConstValue) : Option (List MapEntryConst) :=
  match value.data with
  | .map entries => some entries
  | _ => none

def mapValue (resultType : TypeExpr) (entries : List MapEntryConst) : Option ConstValue := do
  return ⟨resultType, .map (← sortedMap entries)⟩

/-- The entries of `map_new`, or nothing when two keys have the same bytes. -/
def newEntries (seen : List Bytes) : List ConstValue → Option (Option (List MapEntryConst))
  | [] => some (some [])
  | [_] => none
  | key :: value :: rest => do
    let bytes ← keyBytes key
    if bytes ∈ seen then return none
    let entries ← newEntries (seen ++ [bytes]) rest
    return entries.map (⟨key, value⟩ :: ·)

/-! ### The arms -/

/-- `Err` of the result type with a built-in failure. -/
def failureValue (resultType error : TypeExpr) (kind : BuiltinFailureKind) (code : UInt16) :
    ConstValue :=
  ⟨resultType, .result (.err ⟨error, .builtinFailure ⟨kind, code⟩⟩)⟩

def boolValue (value : Bool) : ConstValue := ⟨.bool, .bool value⟩

/-- The cells that one run shares. -/
abbrev Cells := List ConstValue

/-- `execute_extended_instruction_borrowed`: the result of an instruction and the cells it leaves. -/
def executeBorrowed (source : ExecutionSource) (opcode : Opcode) (immediate : Immediate)
    (operands : List ConstValue) (resultType : TypeExpr) (cells : Cells) :
    Option (ConstValue × Cells) :=
  let typed (data : ConstData) : ConstValue := ⟨resultType, data⟩
  match opcode, operands with
  | .constantRef, [] => do
    let id ← entityOf immediate
    let constant ← source.constants.find? (·.entityId = id)
    return (constant.value, cells)
  | .recordNew, values => do
    let definition ← entityOf immediate
    let fields ← source.recordFields definition
    if fields.length ≠ values.length then none
    return (typed (.record ⟨definition,
      fields.zipWith (fun field value ↦ ⟨field.memberId, value⟩) values⟩), cells)
  | .recordGet, [⟨_, .record record⟩] => do
    let member ← memberOf immediate
    let field ← record.fields.find? (·.memberId = member)
    return (field.value, cells)
  | .variantNew, values => do
    let variant ← variantOf immediate
    let payload ← match values with
      | [] => some none
      | [value] => some (some value)
      | _ => none
    return (typed (.variant ⟨variant.definition, variant.memberId, payload⟩), cells)
  | .variantGet, [⟨_, .variant found⟩] => do
    let variant ← variantOf immediate
    let payload := if found.memberId = variant.memberId then found.payload else none
    return (typed (.option payload), cells)
  | .mapNew, values => do
    let (ok, error) ← resultTypesOf resultType
    match ← newEntries [] values with
    | none => return (failureValue resultType error .duplicateKey 1, cells)
    | some entries => return (typed (.result (.ok (← mapValue ok entries))), cells)
  | .mapGet, [map, key] => do
    let query ← keyBytes key
    let keyed ← keyedEntries (← mapEntries map)
    return (typed (.option ((keyed.find? (·.1 = query)).map (·.2.value))), cells)
  | .mapContains, [map, key] => do
    let query ← keyBytes key
    let keyed ← keyedEntries (← mapEntries map)
    return (boolValue (keyed.any (·.1 = query)), cells)
  | .mapInsert, [map, key, value] => do
    let query ← keyBytes key
    let keyed ← keyedEntries (← mapEntries map)
    let entries := (keyed.filter (·.1 ≠ query)).map Prod.snd
    return (← mapValue resultType (entries ++ [⟨key, value⟩]), cells)
  | .mapRemove, [map, key] => do
    let query ← keyBytes key
    let keyed ← keyedEntries (← mapEntries map)
    return (← mapValue resultType ((keyed.filter (·.1 ≠ query)).map Prod.snd), cells)
  | .cellNew, [value] =>
    some (typed (.uInt (BitVec.ofNat 128 cells.length)), cells ++ [value])
  | .cellGet, [⟨_, .uInt index⟩] => do
    return (← cells[index.toNat]?, cells)
  | .cellSet, [⟨_, .uInt index⟩, value] =>
    if index.toNat < cells.length then some (typed .unit, cells.set index.toNat value) else none
  | .globalGet, [] => do
    let global ← entityOf immediate
    let constant ← source.globalInitializer global
    return (constant.value, cells)
  | .functionRef, [] => do
    let reference ← functionOf immediate
    return (typed (.functionRef reference), cells)
  | .tupleNew, items | .vectorNew, items => some (typed (.sequence items), cells)
  | .tupleGet, [⟨_, .sequence items⟩] => do
    let index ← indexOf immediate
    return (← items[index.toNat]?, cells)
  | .vectorLen, [⟨_, .sequence items⟩] =>
    some (typed (.uInt (BitVec.ofNat 128 items.length)), cells)
  | .vectorGet, [⟨_, .sequence items⟩, ⟨_, .uInt index⟩] =>
    some (typed (.option items[index.toNat]?), cells)
  | .vectorSet, [⟨_, .sequence items⟩, ⟨_, .uInt index⟩, replacement] => do
    let (ok, error) ← resultTypesOf resultType
    if index.toNat < items.length then
      return (typed (.result (.ok ⟨ok, .sequence (items.set index.toNat replacement)⟩)), cells)
    else return (failureValue resultType error .index 1, cells)
  | .boolNot, [⟨_, .bool value⟩] => some (boolValue !value, cells)
  | .boolAnd, [⟨_, .bool left⟩, ⟨_, .bool right⟩] => some (boolValue (left && right), cells)
  | .boolOr, [⟨_, .bool left⟩, ⟨_, .bool right⟩] => some (boolValue (left || right), cells)
  | .optionSome, [payload] => some (typed (.option (some payload)), cells)
  | .optionNone, [] => some (typed (.option none), cells)
  | .resultOk, [payload] => some (typed (.result (.ok payload)), cells)
  | .resultErr, [payload] => some (typed (.result (.err payload)), cells)
  | .recordGet, _ | .variantGet, _ | .mapGet, _ | .mapContains, _ | .mapInsert, _ | .mapRemove, _
  | .constantRef, _ | .cellNew, _ | .cellGet, _ | .cellSet, _ | .globalGet, _ | .functionRef, _
  | .tupleGet, _ | .vectorLen, _ | .vectorGet, _ | .vectorSet, _ | .boolNot, _ | .boolAnd, _
  | .boolOr, _ | .optionSome, _ | .optionNone, _ | .resultOk, _ | .resultErr, _ => none
  | opcode, operands => do return (← source.calculate opcode immediate operands resultType, cells)

end Sley.Vm
