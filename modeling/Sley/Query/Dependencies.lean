import Sley.Mutate.Value
import Sley.Ssmc.Opcode

/-!
# The dependencies of an entity

The walk of the impact index over a definition (`sley-query/src/lib.rs`), as the list of what it
does: it charges work, it refuses, and it adds a dependency with its relationship and the kind it
must have. **What it does is a function of the definition alone**; whether a step succeeds is up to
the index that carries the list out.

Every function keeps the name of the source function whose steps it lists, and the steps stand in
the source's order. A definition is its body: the projection of the source is one to one, and
refuses an operation whose opcode has no name, so a name that is missing is none of those the walk
asks for.
-/

namespace Sley.Query

open Ssmc Mutate

/-- Stable impact error code. -/
inductive ImpactErrorCode
  | entityUnsupported
  | setNotCanonical
  | unresolvedEntity
  | wrongEntityKind
  | resourceLimit
  | rootBindingMismatch
  | rootInventoryMismatch
  | rootWorkspaceMissing
  | rootWorkspaceAmbiguous
  | rootPackageMembership
  | rootNamespaceRoot
  | rootNamespaceTree
  | rootMemberOwnership
  | rootExportUnscoped
  | rootEntryPointsMismatch
  | rootDependencyRootsMismatch
  | rootDependencyBindingUnowned
  deriving DecidableEq, Repr

/-- Closed direct-impact relationship kind. -/
inductive ImpactKind
  | ownership
  | typeReference
  | valueReference
  | controlFlow
  | call
  | effect
  | capability
  | contract
  | initializer
  | testTarget
  | adapter
  | definitionMember
  deriving DecidableEq, Repr

def ImpactKind.tag : ImpactKind → UInt32
  | ownership => 1
  | typeReference => 2
  | valueReference => 3
  | controlFlow => 4
  | call => 5
  | effect => 6
  | capability => 7
  | contract => 8
  | initializer => 9
  | testTarget => 10
  | adapter => 11
  | definitionMember => 12

theorem ImpactKind.tag_injective : Function.Injective tag := by
  intro a b h
  cases a <;> cases b <;> first | rfl | exact absurd h (by decide)

/-- A definition with its identity. -/
structure ImpactEntity where
  entityId : EntityId
  body : EntityBodyValue

namespace ImpactEntity

def kind (entity : ImpactEntity) : EntityKind := entity.body.valueKind

def kindTag (entity : ImpactEntity) : UInt32 := entity.body.kindTag.toUInt32

end ImpactEntity

/-- One step of the walk. -/
inductive ImpactStep
  | charge
  | fail (code : ImpactErrorCode)
  | add (dependency : EntityId) (kind : ImpactKind) (expected : Option EntityKind)
  deriving DecidableEq

namespace ImpactStep

/-- Dependencies with one relationship, in order. -/
def addAll (dependencies : List EntityId) (kind : ImpactKind) (expected : Option EntityKind) :
    List ImpactStep :=
  dependencies.map fun dependency ↦ .add dependency kind expected

/-- One level of a type or of a constant: its charge, its depth, and what stands in it. -/
def level (depth : Nat) (steps : List ImpactStep) : List ImpactStep :=
  .charge :: if depth > maxTypeDepth then [.fail .resourceLimit] else steps

end ImpactStep

open ImpactStep

/-! ### Types and constants -/

mutual

def typeExpr : TypeExpr → Nat → List ImpactStep
  | .named definition arguments, depth =>
    level depth (.add definition .typeReference (some .typeDef) :: typeExprs arguments (depth + 1))
  | .adapterHandle entity, depth => level depth [.add entity .adapter (some .adapterImport)]
  | .capabilityToken entity, depth =>
    level depth [.add entity .capability (some .capabilityRequirement)]
  | .tuple values, depth => level depth (typeExprs values (depth + 1))
  | .vector value, depth => level depth (typeExpr value (depth + 1))
  | .option value, depth => level depth (typeExpr value (depth + 1))
  | .localCell value, depth => level depth (typeExpr value (depth + 1))
  | .orderedMap key value, depth =>
    level depth (typeExpr key (depth + 1) ++ typeExpr value (depth + 1))
  | .result ok error, depth =>
    level depth (typeExpr ok (depth + 1) ++ typeExpr error (depth + 1))
  | .functionRef parameters result effects, depth =>
    level depth (typeExprs parameters (depth + 1) ++ typeExpr result (depth + 1) ++
      addAll effects .effect (some .effectDef))
  | .unit, depth => level depth []
  | .bool, depth => level depth []
  | .sInt _, depth => level depth []
  | .uInt _, depth => level depth []
  | .f32, depth => level depth []
  | .f64, depth => level depth []
  | .bytes, depth => level depth []
  | .text, depth => level depth []
  | .typeParameter _, depth => level depth []
  | .builtinFailure _, depth => level depth []

def typeExprs : List TypeExpr → Nat → List ImpactStep
  | [], _ => []
  | value :: values, depth => typeExpr value depth ++ typeExprs values depth

end

mutual

def constValue : ConstValue → Nat → List ImpactStep
  | ⟨valueType, data⟩, depth => level depth (typeExpr valueType depth ++ constData data depth)

def constData : ConstData → Nat → List ImpactStep
  | .sequence values, depth => constValues values (depth + 1)
  | .record value, depth => recordConst value depth
  | .variant value, depth => variantConst value depth
  | .map entries, depth => mapEntries entries (depth + 1)
  | .option value, depth => optionConst value (depth + 1)
  | .result value, depth => resultConst value (depth + 1)
  | .functionRef value, depth =>
    .add value.function .call (some .function) :: typeExprs value.typeArguments (depth + 1)
  | .unit, _ => []
  | .bool _, _ => []
  | .sInt _, _ => []
  | .uInt _, _ => []
  | .f32Bits _, _ => []
  | .f64Bits _, _ => []
  | .bytes _, _ => []
  | .text _, _ => []
  | .builtinFailure _, _ => []

def constValues : List ConstValue → Nat → List ImpactStep
  | [], _ => []
  | value :: values, depth => constValue value depth ++ constValues values depth

def recordConst : RecordConst → Nat → List ImpactStep
  | ⟨definition, fields⟩, depth =>
    .add definition .definitionMember (some .typeDef) :: fieldConsts fields (depth + 1)

def fieldConsts : List FieldConst → Nat → List ImpactStep
  | [], _ => []
  | ⟨_, value⟩ :: fields, depth => constValue value depth ++ fieldConsts fields depth

def variantConst : VariantConst → Nat → List ImpactStep
  | ⟨definition, _, payload⟩, depth =>
    .add definition .definitionMember (some .typeDef) :: optionConst payload (depth + 1)

def mapEntries : List MapEntryConst → Nat → List ImpactStep
  | [], _ => []
  | ⟨key, value⟩ :: entries, depth =>
    constValue key depth ++ constValue value depth ++ mapEntries entries depth

def optionConst : Option ConstValue → Nat → List ImpactStep
  | none, _ => []
  | some value, depth => constValue value depth

def resultConst : ResultConst → Nat → List ImpactStep
  | .ok value, depth => constValue value depth
  | .err value, depth => constValue value depth

end

/-! ### Control flow -/

def valueRef (value : ValueRef) : List ImpactStep :=
  .charge :: match value with
  | .parameter entity => [.add entity .valueReference (some .parameter)]
  | .operationResult value => [.add value.operation .valueReference (some .operation)]

def targetEdge (value : TargetEdge) : List ImpactStep :=
  .charge :: .add value.target .controlFlow (some .block) :: value.arguments.flatMap valueRef

def switchArgument : SwitchArgument → List ImpactStep
  | .value value => valueRef value
  | .casePayload => []

def switchCase (case : SwitchCase) : List ImpactStep :=
  .add case.edge.target .controlFlow (some .block) :: case.edge.arguments.flatMap switchArgument

def terminator (value : Terminator) : List ImpactStep :=
  .charge :: match value with
  | .return_ value => valueRef value.value
  | .branch value => targetEdge value.edge
  | .condBranch value =>
    valueRef value.condition ++ targetEdge value.ifTrue ++ targetEdge value.ifFalse
  | .variantSwitch value => valueRef value.value ++ value.cases.flatMap switchCase
  | .trap value => value.payload.toList.flatMap valueRef

/-- What an entity immediate refers to, by the operation it stands in. -/
def entityImmediate (opcode : Option Opcode) (entity : EntityId) : List ImpactStep :=
  match opcode with
  | some .constantRef => [.add entity .valueReference (some .constant)]
  | some .recordNew => [.add entity .definitionMember (some .typeDef)]
  | some .contractAssert => [.add entity .contract (some .contract)]
  | some .effectRequest => [.add entity .effect (some .effectDef)]
  | some .adapterInvoke => [.add entity .adapter (some .adapterImport)]
  | some .capabilityNarrow => [.add entity .capability (some .capabilityRequirement)]
  | some .globalGet => [.add entity .valueReference (some .globalValue)]
  | _ => [.fail .wrongEntityKind]

def immediate (opcode : Option Opcode) (value : Immediate) : List ImpactStep :=
  .charge :: match value with
  | .entity entity => entityImmediate opcode entity
  | .variant value =>
    if opcode = some .variantNew ∨ opcode = some .variantGet then
      [.add value.definition .definitionMember (some .typeDef)]
    else [.fail .wrongEntityKind]
  | .function value =>
    if opcode = some .callDirect ∨ opcode = some .functionRef then
      .add value.function .call (some .function) :: typeExprs value.typeArguments 1
    else [.fail .wrongEntityKind]
  | .none => []
  | .index _ => []
  | .field _ => []
  | .observation _ => []

/-! ### Definitions -/

def replayBinding (binding : ReplayBinding) : List ImpactStep :=
  .add binding.adapterImport .adapter (some .adapterImport) ::
    (constValues binding.request 1 ++ resultConst binding.response 1)

def adapterConfig (configuration : AdapterConfig) : List ImpactStep :=
  .add configuration.adapterImport .adapter (some .adapterImport) ::
    constValue configuration.configuration 1

def effectEnvironment : EffectEnvironment → List ImpactStep
  | .replay bindings => bindings.flatMap replayBinding
  | .deterministicAdapters configurations => configurations.flatMap adapterConfig

def expectedOutcome : ExpectedOutcome → List ImpactStep
  | .value value => constValue value 1
  | .failureCode _ => []

def testCase (value : TestCaseBody) : List ImpactStep :=
  .charge :: .add value.target .testTarget (some .function) ::
    (constValues value.inputs 1 ++ effectEnvironment value.effectEnvironment ++
      expectedOutcome value.expected ++
      value.observations.flatMap fun observation ↦ constValue observation.value 1)

def typeDefForm : TypeDefForm → List ImpactStep
  | .record fields => fields.flatMap fun field ↦ typeExpr field.valueType 1
  | .variant cases => cases.flatMap fun case ↦
    case.payloadType.toList.flatMap fun valueType ↦ typeExpr valueType 1

def contractSource : ContractSource → List ImpactStep
  | .parameter entity => [.add entity .valueReference (some .parameter)]
  | .global entity => [.add entity .valueReference (some .globalValue)]
  | .result => []
  | .error => []

/-- The kind of what owns a parameter. -/
def ownerKind : ParameterRole → EntityKind
  | .function => .function
  | .block => .block

/-- `EdgeBuilder::collect` over a definition of each kind. -/
def collect : (kind : EntityKind) → kind.Body → List ImpactStep
  | .workspace, (value : WorkspaceBody) =>
    addAll value.packages.values .ownership (some .package) ++
      .add value.rootNamespace .ownership (some .namespace_) ::
      (addAll value.capabilityRequirements.values .capability (some .capabilityRequirement) ++
        addAll value.contracts.values .contract (some .contract) ++
        addAll value.tests.values .testTarget (some .testCase))
  | .package, (value : PackageBody) =>
    .add value.workspace .ownership (some .workspace) ::
      .add value.rootNamespace .ownership (some .namespace_) ::
      (addAll value.dependencies.values .ownership (some .dependencyBinding) ++
        addAll value.exports.values .ownership none)
  | .namespace_, (value : NamespaceBody) =>
    addAll value.parent.toList .ownership (some .namespace_) ++
      addAll value.members.values .ownership none
  | .entryPoint, (value : EntryPointBody) => [.add value.function .ownership (some .function)]
  | .policyBinding, (value : PolicyBindingBody) =>
    .add value.subject .ownership none ::
      addAll value.requirements.values .capability (some .capabilityRequirement)
  -- the external package and the dependency root are identities of another root
  | .dependencyBinding, (value : DependencyBindingBody) =>
    [.add value.localNamespace .ownership (some .namespace_)]
  | .typeDef, (value : TypeDefBody) =>
    typeDefForm value.form ++ addAll value.invariants.values .contract (some .contract)
  | .function, (value : FunctionBody) =>
    addAll value.parameters .ownership (some .parameter) ++ typeExpr value.resultType 1 ++
      addAll value.effects.values .effect (some .effectDef) ++
      .add value.entryBlock .controlFlow (some .block) ::
      (addAll value.blocks .ownership (some .block) ++
        addAll value.contracts.values .contract (some .contract))
  | .parameter, (value : ParameterBody) =>
    .add value.owner .ownership (some (ownerKind value.role)) :: typeExpr value.valueType 1
  | .block, (value : BlockBody) =>
    .add value.function .ownership (some .function) ::
      (addAll value.parameters .ownership (some .parameter) ++
        addAll value.operations .ownership (some .operation) ++ terminator value.terminator)
  | .operation, (value : OperationBody) =>
    .add value.block .ownership (some .block) ::
      (value.operands.flatMap valueRef ++ typeExprs value.resultTypes 1 ++
        immediate (Opcode.fromTag value.opcode.toNat) value.immediate)
  | .constant, (value : ConstantBody) => constValue value.value 1
  | .globalValue, (value : GlobalValueBody) =>
    typeExpr value.valueType 1 ++ [.add value.initializer .initializer (some .constant)]
  | .effectDef, (value : EffectDefBody) =>
    typeExprs [value.scopeType, value.requestType, value.responseType, value.failureType] 1
  | .capabilityRequirement, (value : CapabilityRequirementBody) =>
    .add value.effect .effect (some .effectDef) :: (constValues value.allowedScopes 1 ++
      addAll value.constraintContracts.values .contract (some .contract))
  | .contract, (value : ContractBody) =>
    .add value.target .contract none :: .add value.predicate .contract (some .function) ::
      value.bindings.flatMap fun binding ↦ contractSource binding.source
  | .testCase, (value : TestCaseBody) => testCase value
  | .adapterImport, (value : AdapterImportBody) =>
    typeExprs [value.requestType, value.responseType, value.failureType] 1 ++
      addAll value.effects.values .effect (some .effectDef)

/-- The whole walk over a definition. -/
def collectSteps (entity : ImpactEntity) : List ImpactStep :=
  collect entity.body.valueKind entity.body.body

end Sley.Query
