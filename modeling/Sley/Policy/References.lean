import Sley.Mutate.Value
import Sley.Ssmc.Opcode

/-!
# The references of an entity body

The walk of the reference-graph collector over a body (`sley-policy/src/candidate_program.rs`), as
the list of what it does: it charges work, it refuses, and it adds a reference with its relationship
and the kinds it may point to. **What it does is a function of the body alone**; the inventory only
says, when the list is carried out, whether a step succeeds.

Every function keeps the name of the source function whose steps it lists, and the steps stand in
the source's order.
-/

namespace Sley.Policy

open Ssmc Mutate

/-- One stable projection or reference-graph failure. -/
inductive CandidateProgramError
  | duplicateEntity
  | setNotCanonical
  | opcodeUnknown
  | unresolvedReference
  | wrongEntityKind
  | resourceLimit
  deriving DecidableEq, Repr

/-- The bit of a kind in a set of expected kinds. -/
def kindBit (kind : UInt16) : UInt32 := (1 : UInt32) <<< (kind.toUInt32 - 1)

/-- The kinds with a tag of at most `tag`. -/
def kindsUpTo (tag : UInt32) : UInt32 := ((1 : UInt32) <<< tag) - 1

def allEntityKinds : UInt32 := kindsUpTo 18

def modeledContractTargetKinds : UInt32 := kindsUpTo 15 &&& ~~~kindsUpTo 3

/-- One step of the collector. -/
inductive CollectStep
  | charge
  | fail (error : CandidateProgramError)
  | add (dependency : EntityId) (relationshipTag expectedKinds : UInt32)
  deriving DecidableEq

namespace CollectStep

/-- A reference to one kind. -/
def toKind (dependency : EntityId) (relationshipTag : UInt32) (kind : UInt16) : CollectStep :=
  .add dependency relationshipTag (kindBit kind)

/-- References to one kind, in order. -/
def toKinds (dependencies : List EntityId) (relationshipTag : UInt32) (kind : UInt16) :
    List CollectStep :=
  dependencies.map fun dependency ↦ toKind dependency relationshipTag kind

/-- One level of a type or of a constant: its charge, its depth, and what stands in it. -/
def level (depth : Nat) (steps : List CollectStep) : List CollectStep :=
  .charge :: if depth > maxTypeDepth then [.fail .resourceLimit] else steps

end CollectStep

open CollectStep

/-! ### Types and constants -/

mutual

def typeExprSteps : TypeExpr → Nat → List CollectStep
  | .named definition arguments, depth =>
    level depth (toKind definition 2 4 :: typeExprsSteps arguments (depth + 1))
  | .adapterHandle entity, depth => level depth [toKind entity 11 15]
  | .capabilityToken entity, depth => level depth [toKind entity 7 12]
  | .tuple values, depth => level depth (typeExprsSteps values (depth + 1))
  | .vector value, depth => level depth (typeExprSteps value (depth + 1))
  | .option value, depth => level depth (typeExprSteps value (depth + 1))
  | .localCell value, depth => level depth (typeExprSteps value (depth + 1))
  | .orderedMap key value, depth =>
    level depth (typeExprSteps key (depth + 1) ++ typeExprSteps value (depth + 1))
  | .result ok error, depth =>
    level depth (typeExprSteps ok (depth + 1) ++ typeExprSteps error (depth + 1))
  | .functionRef parameters result effects, depth =>
    level depth (typeExprsSteps parameters (depth + 1) ++ typeExprSteps result (depth + 1) ++
      toKinds effects 6 11)
  | .unit, depth => level depth []
  | .bool, depth => level depth []
  | .sInt _, depth => level depth []
  | .uInt _, depth => level depth []
  | .f32, depth => level depth []
  | .f64, depth => level depth []
  | .bytes, depth => level depth []
  | .text, depth => level depth []
  | .typeParameter _, depth => level depth []
  | .builtinFailure _, depth => level depth []

def typeExprsSteps : List TypeExpr → Nat → List CollectStep
  | [], _ => []
  | value :: values, depth => typeExprSteps value depth ++ typeExprsSteps values depth

end

mutual

def constValueSteps : ConstValue → Nat → List CollectStep
  | ⟨valueType, data⟩, depth =>
    level depth (typeExprSteps valueType depth ++ constDataSteps data depth)

def constDataSteps : ConstData → Nat → List CollectStep
  | .sequence values, depth => constValuesSteps values (depth + 1)
  | .record value, depth => recordConstSteps value depth
  | .variant value, depth => variantConstSteps value depth
  | .map entries, depth => mapEntriesSteps entries (depth + 1)
  | .option value, depth => optionConstSteps value (depth + 1)
  | .result value, depth => resultConstSteps value (depth + 1)
  | .functionRef value, depth =>
    toKind value.function 5 5 :: typeExprsSteps value.typeArguments (depth + 1)
  | .unit, _ => []
  | .bool _, _ => []
  | .sInt _, _ => []
  | .uInt _, _ => []
  | .f32Bits _, _ => []
  | .f64Bits _, _ => []
  | .bytes _, _ => []
  | .text _, _ => []
  | .builtinFailure _, _ => []

def constValuesSteps : List ConstValue → Nat → List CollectStep
  | [], _ => []
  | value :: values, depth => constValueSteps value depth ++ constValuesSteps values depth

def recordConstSteps : RecordConst → Nat → List CollectStep
  | ⟨definition, fields⟩, depth => toKind definition 12 4 :: fieldConstsSteps fields (depth + 1)

def fieldConstsSteps : List FieldConst → Nat → List CollectStep
  | [], _ => []
  | ⟨_, value⟩ :: fields, depth => constValueSteps value depth ++ fieldConstsSteps fields depth

def variantConstSteps : VariantConst → Nat → List CollectStep
  | ⟨definition, _, payload⟩, depth =>
    toKind definition 12 4 :: optionConstSteps payload (depth + 1)

def mapEntriesSteps : List MapEntryConst → Nat → List CollectStep
  | [], _ => []
  | ⟨key, value⟩ :: entries, depth =>
    constValueSteps key depth ++ constValueSteps value depth ++ mapEntriesSteps entries depth

def optionConstSteps : Option ConstValue → Nat → List CollectStep
  | none, _ => []
  | some value, depth => constValueSteps value depth

def resultConstSteps : ResultConst → Nat → List CollectStep
  | .ok value, depth => constValueSteps value depth
  | .err value, depth => constValueSteps value depth

end

/-! ### Control flow -/

def valueRefSteps : ValueRef → List CollectStep
  | .parameter entity => [toKind entity 3 6]
  | .operationResult value => [toKind value.operation 3 8]

def targetEdgeSteps (value : TargetEdge) : List CollectStep :=
  toKind value.target 4 7 :: value.arguments.flatMap valueRefSteps

def switchArgumentSteps : SwitchArgument → List CollectStep
  | .value value => valueRefSteps value
  | .casePayload => []

def switchCaseSteps (case : SwitchCase) : List CollectStep :=
  toKind case.edge.target 4 7 :: case.edge.arguments.flatMap switchArgumentSteps

def terminatorSteps (value : Terminator) : List CollectStep :=
  .charge :: match value with
  | .return_ value => valueRefSteps value.value
  | .branch value => targetEdgeSteps value.edge
  | .condBranch value =>
    valueRefSteps value.condition ++ targetEdgeSteps value.ifTrue ++ targetEdgeSteps value.ifFalse
  | .variantSwitch value => valueRefSteps value.value ++ value.cases.flatMap switchCaseSteps
  | .trap value => value.payload.toList.flatMap valueRefSteps

/-- What an entity immediate refers to, by the operation it stands in. -/
def entityImmediateSteps (opcode : Opcode) (entity : EntityId) : List CollectStep :=
  match opcode with
  | .constantRef => [toKind entity 3 9]
  | .recordNew => [toKind entity 12 4]
  | .contractAssert => [toKind entity 8 13]
  | .effectRequest => [toKind entity 6 11]
  | .adapterInvoke => [toKind entity 11 15]
  | .capabilityNarrow => [toKind entity 7 12]
  | .globalGet => [toKind entity 3 10]
  | _ => [.fail .wrongEntityKind]

def immediateSteps (opcode : Opcode) (value : Immediate) : List CollectStep :=
  .charge :: match value with
  | .entity entity => entityImmediateSteps opcode entity
  | .variant value =>
    if opcode = .variantNew ∨ opcode = .variantGet then [toKind value.definition 12 4]
    else [.fail .wrongEntityKind]
  | .function value =>
    if opcode = .callDirect ∨ opcode = .functionRef then
      toKind value.function 5 5 :: typeExprsSteps value.typeArguments 1
    else [.fail .wrongEntityKind]
  | .none => []
  | .index _ => []
  | .field _ => []
  | .observation _ => []

/-! ### Bodies -/

def replayBindingSteps (binding : ReplayBinding) : List CollectStep :=
  toKind binding.adapterImport 11 15 ::
    (constValuesSteps binding.request 1 ++ resultConstSteps binding.response 1)

def adapterConfigSteps (configuration : AdapterConfig) : List CollectStep :=
  toKind configuration.adapterImport 11 15 :: constValueSteps configuration.configuration 1

def effectEnvironmentSteps : EffectEnvironment → List CollectStep
  | .replay bindings => bindings.flatMap replayBindingSteps
  | .deterministicAdapters configurations => configurations.flatMap adapterConfigSteps

def typeDefFormSteps : TypeDefForm → List CollectStep
  | .record fields => fields.flatMap fun field ↦ typeExprSteps field.valueType 1
  | .variant cases => cases.flatMap fun case ↦
    case.payloadType.toList.flatMap fun valueType ↦ typeExprSteps valueType 1

def contractSourceSteps : ContractSource → List CollectStep
  | .parameter entity => [toKind entity 3 6]
  | .global entity => [toKind entity 3 10]
  | .result => []
  | .error => []

def expectedOutcomeSteps : ExpectedOutcome → List CollectStep
  | .value value => constValueSteps value 1
  | .failureCode _ => []

/-- The kind of what owns a parameter. -/
def ownerKind : ParameterRole → UInt16
  | .function => 5
  | .block => 7

/-- The references of a body of each kind, in order. -/
def bodySteps : (kind : EntityKind) → kind.Body → List CollectStep
  | .workspace, (value : WorkspaceBody) =>
    toKinds value.packages.values 1 2 ++ toKind value.rootNamespace 1 3 ::
      (toKinds value.capabilityRequirements.values 7 12 ++ toKinds value.contracts.values 8 13 ++
        toKinds value.tests.values 10 14)
  | .package, (value : PackageBody) =>
    toKind value.workspace 1 1 :: toKind value.rootNamespace 1 3 ::
      (toKinds value.dependencies.values 1 18 ++
        value.exports.values.map fun export_ ↦ .add export_ 1 allEntityKinds)
  | .namespace_, (value : NamespaceBody) =>
    toKinds value.parent.toList 1 3 ++
      value.members.values.map fun member ↦ .add member 1 allEntityKinds
  | .typeDef, (value : TypeDefBody) =>
    typeDefFormSteps value.form ++ toKinds value.invariants.values 8 13
  | .function, (value : FunctionBody) =>
    toKinds value.parameters 1 6 ++ typeExprSteps value.resultType 1 ++
      toKinds value.effects.values 6 11 ++ toKind value.entryBlock 4 7 ::
        (toKinds value.blocks 1 7 ++ toKinds value.contracts.values 8 13)
  | .parameter, (value : ParameterBody) =>
    toKind value.owner 1 (ownerKind value.role) :: typeExprSteps value.valueType 1
  | .block, (value : BlockBody) =>
    toKind value.function 1 5 :: (toKinds value.parameters 1 6 ++ toKinds value.operations 1 8 ++
      terminatorSteps value.terminator)
  | .operation, (value : OperationBody) =>
    match Opcode.fromTag value.opcode.toNat with
    | none => [.fail .opcodeUnknown]
    | some opcode =>
      toKind value.block 1 7 :: (value.operands.flatMap valueRefSteps ++
        typeExprsSteps value.resultTypes 1 ++ immediateSteps opcode value.immediate)
  | .constant, (value : ConstantBody) => constValueSteps value.value 1
  | .globalValue, (value : GlobalValueBody) =>
    typeExprSteps value.valueType 1 ++ [toKind value.initializer 9 9]
  | .effectDef, (value : EffectDefBody) =>
    typeExprsSteps [value.scopeType, value.requestType, value.responseType, value.failureType] 1
  | .capabilityRequirement, (value : CapabilityRequirementBody) =>
    toKind value.effect 6 11 :: (constValuesSteps value.allowedScopes 1 ++
      toKinds value.constraintContracts.values 8 13)
  | .contract, (value : ContractBody) =>
    .add value.target 8 modeledContractTargetKinds :: toKind value.predicate 8 5 ::
      value.bindings.flatMap fun binding ↦ contractSourceSteps binding.source
  | .testCase, (value : TestCaseBody) =>
    toKind value.target 10 5 :: (constValuesSteps value.inputs 1 ++
      effectEnvironmentSteps value.effectEnvironment ++ expectedOutcomeSteps value.expected ++
        value.observations.flatMap fun observation ↦ constValueSteps observation.value 1)
  | .adapterImport, (value : AdapterImportBody) =>
    typeExprsSteps [value.requestType, value.responseType, value.failureType] 1 ++
      toKinds value.effects.values 6 11
  | .entryPoint, (value : EntryPointBody) => [toKind value.function 1 5]
  | .policyBinding, (value : PolicyBindingBody) =>
    .add value.subject 1 allEntityKinds :: toKinds value.requirements.values 7 12
  -- an external package resolves only in the external root
  | .dependencyBinding, (value : DependencyBindingBody) => [toKind value.localNamespace 1 3]

/-- The whole walk over a body. -/
def collectSteps (body : EntityBodyValue) : List CollectStep :=
  .charge :: bodySteps body.valueKind body.body

end Sley.Policy
