import Mathlib
import Sley.Mutate.Shapes
import Sley.Ssmc.Equality

/-!
# Entity bodies

The closed host values of `value.rs` and `value_generated.rs`: the canonical set of entity
identities, the eighteen entity bodies and the value that is one of them. **A set of identities
carries the proof that it ascends**, so an unsorted or repeating set cannot be built.

The source's `EntityBodyValue` is an enumeration with one case for each kind; here it is the
dependent pair of the kind and a body of that kind, which lets a statement range over the kinds.
-/

namespace Sley.Mutate

open Scb1 Ssmc

/-! ### Sets of identities -/

/-- Canonical entity-identity set: strictly ascending by raw bytes. -/
@[ext]
structure EntityIdSet where
  values : List EntityId
  ascending : Ascending (values.map Id.bytes)
  deriving DecidableEq

theorem ascending_nil : Ascending (List.map Id.bytes ([] : List EntityId)) := by
  decide

inductive EntityIdSetError
  | duplicate
  deriving DecidableEq, Repr

/-- The order of identities is the order of their bytes. -/
def idLe (a b : EntityId) : Bool := (compare a.bytes b.bytes).isLE

/-- `sort_unstable`; equal identities are indistinguishable, so stability does not matter. -/
def sortIds (values : List EntityId) : List EntityId := values.mergeSort idLe

theorem idLe_total (a b : EntityId) : (idLe a b || idLe b a) = true := by
  have hswap : compare b.bytes a.bytes = (compare a.bytes b.bytes).swap := Std.OrientedCmp.eq_swap
  rw [idLe, idLe, hswap]
  cases compare a.bytes b.bytes <;> rfl

theorem idLe_trans (a b c : EntityId) (hab : idLe a b = true) (hbc : idLe b c = true) :
    idLe a c = true :=
  Std.TransCmp.isLE_trans hab hbc

theorem compare_eq_lt_iff {a b : EntityId} :
    compare a.bytes b.bytes = .lt ↔ idLe a b = true ∧ a ≠ b := by
  have heq : compare a.bytes b.bytes = .eq ↔ a = b := by
    rw [Std.compare_eq_iff_eq, Id.ext_iff]
  rw [idLe, Ne, ← heq]
  cases compare a.bytes b.bytes <;> simp

theorem ascending_ids_iff {values : List EntityId} : Ascending (values.map Id.bytes) ↔
      values.Pairwise (idLe · · = true) ∧ values.IsChain (· ≠ ·) := by
  have : Trans (fun a b : EntityId ↦ idLe a b = true) (fun a b ↦ idLe a b = true)
      (fun a b ↦ idLe a b = true) := ⟨fun {a b c} hab hbc ↦ idLe_trans a b c hab hbc⟩
  rw [Ascending, List.isChain_map, ← List.isChain_iff_pairwise]
  simp only [compare_eq_lt_iff, List.isChain_iff_getElem, forall_and]

/-- `EntityIdSet::from_unsorted`: sort, and refuse two equal neighbours. -/
def EntityIdSet.fromUnsorted (values : List EntityId) : Except EntityIdSetError EntityIdSet :=
  if h : (sortIds values).IsChain (· ≠ ·) then
    .ok ⟨sortIds values, ascending_ids_iff.2 ⟨List.pairwise_mergeSort idLe_trans idLe_total _, h⟩⟩
  else .error .duplicate

/-- A list that ascends already is kept as it is. -/
theorem EntityIdSet.fromUnsorted_of_ascending {values : List EntityId}
    (h : Ascending (values.map Id.bytes)) : fromUnsorted values = .ok ⟨values, h⟩ := by
  obtain ⟨hle, hne⟩ := ascending_ids_iff.1 h
  have hsort : sortIds values = values := List.mergeSort_of_pairwise hle
  rw [fromUnsorted, dif_pos (hsort.symm ▸ hne)]
  exact congrArg Except.ok (EntityIdSet.ext hsort)

/-! ### Bodies -/

structure WorkspaceBody where
  packages : EntityIdSet
  rootNamespace : EntityId
  capabilityRequirements : EntityIdSet
  contracts : EntityIdSet
  tests : EntityIdSet
  deriving DecidableEq

structure PackageBody where
  workspace : EntityId
  rootNamespace : EntityId
  dependencies : EntityIdSet
  exports : EntityIdSet
  deriving DecidableEq

structure NamespaceBody where
  parent : Option EntityId
  members : EntityIdSet
  deriving DecidableEq

structure TypeDefBody where
  typeParameters : List TypeParameterDef
  form : TypeDefForm
  invariants : EntityIdSet
  visibility : Visibility
  deriving DecidableEq

structure FunctionBody where
  typeParameters : List TypeParameterDef
  parameters : List EntityId
  resultType : TypeExpr
  effects : EntityIdSet
  entryBlock : EntityId
  blocks : List EntityId
  contracts : EntityIdSet
  visibility : Visibility
  deriving DecidableEq

structure ParameterBody where
  owner : EntityId
  role : ParameterRole
  ordinal : UInt32
  valueType : TypeExpr
  deriving DecidableEq

structure BlockBody where
  function : EntityId
  parameters : List EntityId
  operations : List EntityId
  terminator : Terminator
  reachability : Reachability
  deriving DecidableEq

structure OperationBody where
  block : EntityId
  ordinal : UInt32
  opcode : UInt32
  operands : List ValueRef
  resultTypes : List TypeExpr
  immediate : Immediate
  deriving DecidableEq

structure ConstantBody where
  value : ConstValue
  deriving DecidableEq

structure GlobalValueBody where
  valueType : TypeExpr
  initializer : EntityId
  visibility : Visibility
  deriving DecidableEq

structure EffectDefBody where
  effectKind : EffectKind
  scopeType : TypeExpr
  requestType : TypeExpr
  responseType : TypeExpr
  failureType : TypeExpr
  visibility : Visibility
  deriving DecidableEq

structure CapabilityRequirementBody where
  effect : EntityId
  allowedScopes : List ConstValue
  constraintContracts : EntityIdSet
  deriving DecidableEq

structure ContractBody where
  target : EntityId
  contractKind : ContractKind
  predicate : EntityId
  bindings : List ContractBinding
  resourceLimits : Option ResourceLimits
  deriving DecidableEq

structure TestCaseBody where
  target : EntityId
  inputs : List ConstValue
  effectEnvironment : EffectEnvironment
  expected : ExpectedOutcome
  observations : List ExpectedObservation
  resourceLimits : ResourceLimits
  deriving DecidableEq

structure AdapterImportBody where
  adapterId : Digest
  abiVersion : UInt32
  requestType : TypeExpr
  responseType : TypeExpr
  failureType : TypeExpr
  effects : EntityIdSet
  deriving DecidableEq

structure EntryPointBody where
  function : EntityId
  exposure : EntryExposure
  deriving DecidableEq

structure PolicyBindingBody where
  subject : EntityId
  requirements : EntityIdSet
  deriving DecidableEq

structure DependencyBindingBody where
  dependencyRoot : StateRoot
  externalPackage : EntityId
  localNamespace : EntityId
  deriving DecidableEq

/-! ### Kinds -/

/-- `EntityBodyValueKind`. -/
inductive EntityKind
  | workspace
  | package
  | namespace_
  | typeDef
  | function
  | parameter
  | block
  | operation
  | constant
  | globalValue
  | effectDef
  | capabilityRequirement
  | contract
  | testCase
  | adapterImport
  | entryPoint
  | policyBinding
  | dependencyBinding
  deriving DecidableEq, Repr

namespace EntityKind

/-- The exact SSMC1 entity-kind tag. -/
def kindTag : EntityKind → UInt16
  | workspace => 1
  | package => 2
  | namespace_ => 3
  | typeDef => 4
  | function => 5
  | parameter => 6
  | block => 7
  | operation => 8
  | constant => 9
  | globalValue => 10
  | effectDef => 11
  | capabilityRequirement => 12
  | contract => 13
  | testCase => 14
  | adapterImport => 15
  | entryPoint => 16
  | policyBinding => 17
  | dependencyBinding => 18

/-- The kind a tag names. -/
def fromTag (tag : Nat) : Option EntityKind :=
  match tag with
  | 1 => some workspace
  | 2 => some package
  | 3 => some namespace_
  | 4 => some typeDef
  | 5 => some function
  | 6 => some parameter
  | 7 => some block
  | 8 => some operation
  | 9 => some constant
  | 10 => some globalValue
  | 11 => some effectDef
  | 12 => some capabilityRequirement
  | 13 => some contract
  | 14 => some testCase
  | 15 => some adapterImport
  | 16 => some entryPoint
  | 17 => some policyBinding
  | 18 => some dependencyBinding
  | _ => none

theorem fromTag_eq_some {t : Nat} {k : EntityKind} : fromTag t = some k ↔ k.kindTag.toNat = t := by
  constructor
  · intro h
    unfold fromTag at h
    split at h
    all_goals first
      | obtain rfl := Option.some.inj h
        rfl
      | cases h
  · rintro rfl
    cases k <;> rfl

/-- The body of an entity of each kind. -/
abbrev Body : EntityKind → Type
  | workspace => WorkspaceBody
  | package => PackageBody
  | namespace_ => NamespaceBody
  | typeDef => TypeDefBody
  | function => FunctionBody
  | parameter => ParameterBody
  | block => BlockBody
  | operation => OperationBody
  | constant => ConstantBody
  | globalValue => GlobalValueBody
  | effectDef => EffectDefBody
  | capabilityRequirement => CapabilityRequirementBody
  | contract => ContractBody
  | testCase => TestCaseBody
  | adapterImport => AdapterImportBody
  | entryPoint => EntryPointBody
  | policyBinding => PolicyBindingBody
  | dependencyBinding => DependencyBindingBody

end EntityKind

/-- Closed typed value for one complete entity body. -/
structure EntityBodyValue where
  valueKind : EntityKind
  body : valueKind.Body

instance : (kind : EntityKind) → DecidableEq kind.Body
  | .workspace => inferInstanceAs (DecidableEq WorkspaceBody)
  | .package => inferInstanceAs (DecidableEq PackageBody)
  | .namespace_ => inferInstanceAs (DecidableEq NamespaceBody)
  | .typeDef => inferInstanceAs (DecidableEq TypeDefBody)
  | .function => inferInstanceAs (DecidableEq FunctionBody)
  | .parameter => inferInstanceAs (DecidableEq ParameterBody)
  | .block => inferInstanceAs (DecidableEq BlockBody)
  | .operation => inferInstanceAs (DecidableEq OperationBody)
  | .constant => inferInstanceAs (DecidableEq ConstantBody)
  | .globalValue => inferInstanceAs (DecidableEq GlobalValueBody)
  | .effectDef => inferInstanceAs (DecidableEq EffectDefBody)
  | .capabilityRequirement => inferInstanceAs (DecidableEq CapabilityRequirementBody)
  | .contract => inferInstanceAs (DecidableEq ContractBody)
  | .testCase => inferInstanceAs (DecidableEq TestCaseBody)
  | .adapterImport => inferInstanceAs (DecidableEq AdapterImportBody)
  | .entryPoint => inferInstanceAs (DecidableEq EntryPointBody)
  | .policyBinding => inferInstanceAs (DecidableEq PolicyBindingBody)
  | .dependencyBinding => inferInstanceAs (DecidableEq DependencyBindingBody)

instance : DecidableEq EntityBodyValue := fun ⟨kind, body⟩ ⟨kind', body'⟩ ↦
  if h : kind = kind' then
    if hbody : h ▸ body = body' then
      .isTrue (by subst h; subst hbody; rfl)
    else
      .isFalse (by
        intro heq
        cases heq
        exact hbody rfl)
  else
    .isFalse fun heq ↦ h (congrArg EntityBodyValue.valueKind heq)

def EntityBodyValue.kindTag (value : EntityBodyValue) : UInt16 := value.valueKind.kindTag

end Sley.Mutate
