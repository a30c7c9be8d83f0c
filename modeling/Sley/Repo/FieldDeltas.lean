import Sley.Mutate.FieldAccess
import Sley.Query.Dependencies
import Sley.Ssmc.Order

/-!
# Field deltas

How two definitions of one kind differ, field by field (`sley-repo/src/compare.rs`). The source
walks the fields of each kind by hand; here each kind has the list of its rows, a row being a field
tag and what the source does with the two values under it. **Every row is for one schema field and
fires exactly when its values differ** (`fieldDeltaRows_detect`), so the tags that fire are those of
the fields that differ, in the order of the schema.
-/

namespace Sley.Repo

open Ssmc Mutate Query

/-! ### Failures and deltas -/

/-- Stable comparison failure code. -/
inductive CompareErrorCode
  | versionUnsupported
  | digestMismatch
  | canonicalOrder
  | duplicateEntry
  | formatInvalid
  | workspaceMismatch
  | epochMismatch
  | rootIncomplete
  | inventoryInvalid
  | resourceLimit
  | internalInvariant
  deriving DecidableEq, Repr

def maxCompareWork : Nat := 100000000

/-- `Work::charge`: the amount is added without overflow and within the limit. -/
def CompareErrorCode.charge (work amount : Nat) : Except CompareErrorCode Nat := do
  Except.rejectIf (work + amount ≥ 2 ^ 64) .resourceLimit
  Except.rejectIf (work + amount > maxCompareWork) .resourceLimit
  return work + amount

/-- One changed field of one entity. -/
structure FieldDelta where
  entityId : EntityId
  kind : UInt32
  field : UInt32
  flags : UInt32
  added : List EntityId
  removed : List EntityId
  deriving DecidableEq

/-! ### Set differences -/

section SetDifference

variable {kind : IdKind}

/-- `set_difference`: what entered and what left, each in ascending order. -/
def setDifference (base target : List (Id kind)) : List (Id kind) × List (Id kind) :=
  let baseSet : Std.ExtTreeSet (Id kind) := .ofList base
  let targetSet : Std.ExtTreeSet (Id kind) := .ofList target
  (targetSet.toList.filter (· ∉ baseSet), baseSet.toList.filter (· ∉ targetSet))

/-- One list is the difference of two others: it ascends and has exactly the members. -/
structure IsDifference (of from_ ids : List (Id kind)) : Prop where
  sorted : ids.Pairwise (compare · · = .lt)
  mem_iff : ∀ id, id ∈ ids ↔ id ∈ of ∧ id ∉ from_

theorem setDifference_fst (base target : List (Id kind)) :
    IsDifference target base (setDifference base target).1 where
  sorted := Std.ExtTreeSet.ordered_toList.filter _
  mem_iff id := by
    simp [setDifference, Std.ExtTreeSet.mem_toList, Std.ExtTreeSet.mem_ofList]

theorem setDifference_snd (base target : List (Id kind)) :
    IsDifference base target (setDifference base target).2 :=
  setDifference_fst target base

end SetDifference

/-! ### Rows -/

/-- What the rows read besides the two bodies. -/
structure DeltaContext where
  entityId : EntityId
  kind : UInt32
  baseParameters : EntityMap ParameterBody
  targetParameters : EntityMap ParameterBody

/-- `push_field`. -/
def pushField (context : DeltaContext) (field extraFlags : UInt32) (base target : List EntityId) :
    FieldDelta where
  entityId := context.entityId
  kind := context.kind
  field := field
  flags := 1 ||| extraFlags
  added := (setDifference base target).1
  removed := (setDifference base target).2

/-- One field of a kind, and the delta that the source pushes for it. -/
structure DeltaRow (β : Type) where
  field : UInt32
  delta : DeltaContext → β → β → Option FieldDelta

section Rows

variable {α β : Type}

/-- `scalar_field`. -/
def scalarField [DecidableEq α] (field : UInt32) (get : β → α) : DeltaRow β :=
  ⟨field, fun context a b ↦
    if get a ≠ get b then some (pushField context field 0 [] []) else none⟩

/-- `set_field`; it serves sets and ordered lists alike. -/
def setField (field : UInt32) (get : β → List EntityId) : DeltaRow β :=
  ⟨field, fun context a b ↦
    if get a ≠ get b then some (pushField context field 0 (get a) (get b)) else none⟩

/-- `EntityId::from_bytes` of a member identity. -/
def memberEntity (member : MemberId) : EntityId := ⟨member.bytes, member.length_eq⟩

/-- The member identities of a form. -/
def memberIds : TypeDefForm → List EntityId
  | .record fields => fields.map (memberEntity ·.memberId)
  | .variant cases => cases.map (memberEntity ·.memberId)

/-- `shared_member_changed`: a member of both forms has another type, visibility or payload. -/
def sharedMemberChanged (base target : TypeDefForm) : Bool :=
  match base, target with
  | .record x, .record y => x.any fun field ↦
    memberEntity field.memberId ∈ memberIds target ∧ memberEntity field.memberId ∈ memberIds base ∧
      (y.find? (·.memberId = field.memberId)).any fun other ↦
        other.valueType ≠ field.valueType ∨ other.visibility ≠ field.visibility
  | .variant x, .variant y => x.any fun case ↦
    memberEntity case.memberId ∈ memberIds target ∧
      (y.find? (·.memberId = case.memberId)).any fun other ↦
        other.payloadType ≠ case.payloadType
  | _, _ => false

/-- The flags of two forms that differ: 2 for another variant of form, 8 when the shared members
stand in another order, 4 when one of them changed. -/
def formFlags (base target : TypeDefForm) : UInt32 :=
  let other : UInt32 := if base.tag ≠ target.tag then 2 else 0
  let shared := (memberIds base).filter (· ∈ memberIds target)
  let sharedTarget := (memberIds target).filter (· ∈ memberIds base)
  let moved : UInt32 := if shared ≠ sharedTarget then 8 else 0
  let changed : UInt32 := if base.tag = target.tag ∧ sharedMemberChanged base target then 4 else 0
  other ||| moved ||| changed

/-- The form of a type definition. -/
def formField (field : UInt32) (get : β → TypeDefForm) : DeltaRow β :=
  ⟨field, fun context a b ↦
    if get a ≠ get b then
      some (pushField context field (formFlags (get a) (get b)) (memberIds (get a))
        (memberIds (get b)))
    else none⟩

/-- The parameters of a function; flag 2 when their types differ too. -/
def parametersField (field : UInt32) (get : β → List EntityId) : DeltaRow β :=
  ⟨field, fun context a b ↦
    if get a ≠ get b then
      let types (parameters : EntityMap ParameterBody) (ids : List EntityId) :
          List (Option TypeExpr) := ids.map fun id ↦ parameters[id]?.map (·.valueType)
      let baseTypes := types context.baseParameters (get a)
      let targetTypes := types context.targetParameters (get b)
      some (pushField context field (if baseTypes ≠ targetTypes then 2 else 0) (get a) (get b))
    else none⟩

end Rows

/-- The rows of each kind, in the order of the source. -/
def fieldDeltaRows : (kind : EntityKind) → List (DeltaRow kind.Body)
  | .workspace => [
    setField 1 (·.packages.values),
    scalarField 2 (·.rootNamespace),
    setField 3 (·.capabilityRequirements.values),
    setField 4 (·.contracts.values),
    setField 5 (·.tests.values)]
  | .package => [
    scalarField 1 (·.workspace),
    scalarField 2 (·.rootNamespace),
    setField 3 (·.dependencies.values),
    setField 4 (·.exports.values)]
  | .namespace_ => [
    scalarField 1 (·.parent),
    setField 2 (·.members.values)]
  | .typeDef => [
    scalarField 1 (·.typeParameters),
    formField 2 (·.form),
    setField 3 (·.invariants.values),
    scalarField 4 (·.visibility)]
  | .function => [
    scalarField 1 (·.typeParameters),
    parametersField 2 (·.parameters),
    scalarField 3 (·.resultType),
    setField 4 (·.effects.values),
    scalarField 5 (·.entryBlock),
    setField 6 (·.blocks),
    setField 7 (·.contracts.values),
    scalarField 8 (·.visibility)]
  | .parameter => [
    scalarField 1 (·.owner),
    scalarField 2 (·.role),
    scalarField 3 (·.ordinal),
    scalarField 4 (·.valueType)]
  | .block => [
    scalarField 1 (·.function),
    setField 2 (·.parameters),
    setField 3 (·.operations),
    scalarField 4 (·.terminator),
    scalarField 5 (·.reachability)]
  | .operation => [
    scalarField 1 (·.block),
    scalarField 2 (·.ordinal),
    scalarField 3 (·.opcode),
    scalarField 4 (·.operands),
    scalarField 5 (·.resultTypes),
    scalarField 6 (·.immediate)]
  | .constant => [
    scalarField 1 (·.value)]
  | .globalValue => [
    scalarField 1 (·.valueType),
    scalarField 2 (·.initializer),
    scalarField 3 (·.visibility)]
  | .effectDef => [
    scalarField 1 (·.effectKind),
    scalarField 2 (·.scopeType),
    scalarField 3 (·.requestType),
    scalarField 4 (·.responseType),
    scalarField 5 (·.failureType),
    scalarField 6 (·.visibility)]
  | .capabilityRequirement => [
    scalarField 1 (·.effect),
    scalarField 2 (·.allowedScopes),
    setField 3 (·.constraintContracts.values)]
  | .contract => [
    scalarField 1 (·.target),
    scalarField 2 (·.contractKind),
    scalarField 3 (·.predicate),
    scalarField 4 (·.bindings),
    scalarField 5 (·.resourceLimits)]
  | .testCase => [
    scalarField 1 (·.target),
    scalarField 2 (·.inputs),
    scalarField 3 (·.effectEnvironment),
    scalarField 4 (·.expected),
    scalarField 5 (·.observations),
    scalarField 6 (·.resourceLimits)]
  | .adapterImport => [
    scalarField 1 (·.adapterId),
    scalarField 2 (·.abiVersion),
    scalarField 3 (·.requestType),
    scalarField 4 (·.responseType),
    scalarField 5 (·.failureType),
    setField 6 (·.effects.values)]
  | .entryPoint => [
    scalarField 1 (·.function),
    scalarField 2 (·.exposure)]
  | .policyBinding => [
    scalarField 1 (·.subject),
    setField 2 (·.requirements.values)]
  | .dependencyBinding => [
    scalarField 1 (·.dependencyRoot),
    scalarField 2 (·.externalPackage),
    scalarField 3 (·.localNamespace)]

/-- The deltas of two bodies of one kind. -/
def bodyDeltas (context : DeltaContext) {kind : EntityKind} (before after : kind.Body) :
    List FieldDelta :=
  (fieldDeltaRows kind).filterMap fun row ↦ row.delta context before after

/-- `field_deltas`: the deltas it pushes, and the work done so far. -/
def fieldDeltas (before after : ImpactEntity)
    (baseParameters targetParameters : EntityMap ParameterBody) (work : Nat) :
    Except CompareErrorCode (List FieldDelta × Nat) := do
  let context : DeltaContext := ⟨before.entityId, before.kindTag, baseParameters, targetParameters⟩
  let work ← CompareErrorCode.charge work 8
  match before.body, after.body with
  | ⟨kind, a⟩, ⟨kind', b⟩ =>
    if h : kind' = kind then return (bodyDeltas context a (h ▸ b), work)
    else .error .internalInvariant

end Sley.Repo

/-! ### Rows and schema fields -/

namespace Sley.Mutate.RecordShape

/-- For each tag, that the values under it differ. -/
def differences : {τ : Type} → RecordShape τ → List (UInt32 × (τ → τ → Prop))
  | _, nil => []
  | _, cons tag _ shape => (tag, fun v w ↦ v.1 ≠ w.1) ::
    shape.differences.map fun row ↦ (row.1, fun v w ↦ row.2 v.2 w.2)

variable {τ : Type}

theorem map_fst_differences (shape : RecordShape τ) :
    shape.differences.map Prod.fst = shape.tags := by
  induction shape with
  | nil => rfl
  | cons tag β shape ih =>
    rw [differences, List.map_cons, List.map_map, tags, ← ih]
    rfl

theorem mem_differences {shape : RecordShape τ} (h : shape.tags.Nodup)
    {row : UInt32 × (τ → τ → Prop)} (hrow : row ∈ shape.differences) (v w : τ) :
    row.2 v w ↔ shape.getField? row.1 v ≠ shape.getField? row.1 w := by
  induction shape with
  | nil => cases hrow
  | cons tag β shape ih =>
    obtain ⟨hfresh, hnodup⟩ := List.nodup_cons.1 h
    obtain rfl | hrow := List.mem_cons.1 hrow
    · simp [getField?]
    · obtain ⟨later, hlater, rfl⟩ := List.mem_map.1 hrow
      have hne : later.1 ≠ tag := by
        rintro rfl
        rw [← map_fst_differences] at hfresh
        exact hfresh (List.mem_map_of_mem hlater)
      rw [ih hnodup hlater, getField?, getField?, if_neg hne, if_neg hne]
      exact (Option.map_injective Sum.inr_injective).ne_iff.symm

end Sley.Mutate.RecordShape

namespace Sley.Repo

open Ssmc Mutate Query

section Rows

variable {α β : Type}

/-- A row is for a field, and fires exactly when the values under it differ. -/
structure DeltaRow.Detects (row : DeltaRow β) (difference : UInt32 × (β → β → Prop)) : Prop where
  field_eq : row.field = difference.1
  isSome_iff : ∀ context a b, (row.delta context a b).isSome ↔ difference.2 a b
  names : ∀ context a b delta, row.delta context a b = some delta →
    delta.entityId = context.entityId ∧ delta.kind = context.kind ∧ delta.field = row.field

theorem detects_of_ite {field : UInt32} {differs : β → β → Prop} [∀ a b, Decidable (differs a b)]
    {flags : DeltaContext → β → β → UInt32} {base target : DeltaContext → β → β → List EntityId} :
    DeltaRow.Detects ⟨field, fun context a b ↦ if differs a b then
      some (pushField context field (flags context a b) (base context a b) (target context a b))
      else none⟩ (field, differs) where
  field_eq := rfl
  isSome_iff context a b := by
    by_cases h : differs a b <;> simp [h]
  names context a b delta h := by
    obtain ⟨-, h⟩ := Option.ite_none_right_eq_some.1 h
    obtain rfl := Option.some.inj h
    exact ⟨rfl, rfl, rfl⟩

theorem scalarField_detects [DecidableEq α] (field : UInt32) (get : β → α) :
    (scalarField field get).Detects (field, fun a b ↦ get a ≠ get b) :=
  detects_of_ite

theorem setField_detects (field : UInt32) (get : β → List EntityId) :
    (setField field get).Detects (field, fun a b ↦ get a ≠ get b) :=
  detects_of_ite

theorem idSetField_detects (field : UInt32) (get : β → EntityIdSet) :
    (setField field fun b ↦ (get b).values).Detects (field, fun a b ↦ get a ≠ get b) := by
  have h := setField_detects field fun b ↦ (get b).values
  exact ⟨h.field_eq, fun context a b ↦ (h.isSome_iff context a b).trans
    (not_congr EntityIdSet.ext_iff.symm), h.names⟩

theorem formField_detects (field : UInt32) (get : β → TypeDefForm) :
    (formField field get).Detects (field, fun a b ↦ get a ≠ get b) :=
  detects_of_ite

theorem parametersField_detects (field : UInt32) (get : β → List EntityId) :
    (parametersField field get).Detects (field, fun a b ↦ get a ≠ get b) :=
  detects_of_ite

end Rows

variable [HostLayout]

/-- **The rows of a kind are those of its schema**, field for field. -/
theorem fieldDeltaRows_detect (kind : EntityKind) :
    List.Forall₂ DeltaRow.Detects (fieldDeltaRows kind)
      (kind.layout.shape.differences.map fun difference ↦
        (difference.1, fun a b ↦ difference.2 (kind.layout.equiv a) (kind.layout.equiv b))) := by
  cases kind
  all_goals
    repeat' first
      | exact List.Forall₂.nil
      | apply List.Forall₂.cons
    all_goals first
      | exact scalarField_detects _ _
      | exact idSetField_detects _ _
      | exact setField_detects _ _
      | exact formField_detects _ _
      | exact parametersField_detects _ _

/-! ### The deltas of two bodies -/

section Bodies

variable {kind : EntityKind} (context : DeltaContext) (before after : kind.Body)

omit [HostLayout] in
theorem DeltaRow.exists_detects {β : Type} {rows : List (DeltaRow β)}
    {differences : List (UInt32 × (β → β → Prop))}
    (h : List.Forall₂ DeltaRow.Detects rows differences) {row : DeltaRow β} (hrow : row ∈ rows) :
    ∃ difference, row.Detects difference := by
  induction h with
  | nil => cases hrow
  | cons hhead _ ih =>
    obtain rfl | hrow := List.mem_cons.1 hrow
    · exact ⟨_, hhead⟩
    · exact ih hrow

omit [HostLayout] in
open Classical in
/-- The tags of the rows that fire are those of the differences that hold. -/
theorem map_field_filterMap {β : Type} {rows : List (DeltaRow β)}
    {differences : List (UInt32 × (β → β → Prop))}
    (h : List.Forall₂ DeltaRow.Detects rows differences) (a b : β) :
    (rows.filterMap fun row ↦ row.delta context a b).map (·.field) =
      (differences.filter fun difference ↦ difference.2 a b).map Prod.fst := by
  induction h with
  | nil => rfl
  | @cons row difference rows differences hrow _ ih =>
    rw [List.filterMap_cons, List.filter_cons]
    cases hdelta : row.delta context a b with
    | none =>
      have hsame : ¬ difference.2 a b := fun h ↦ by
        have hsome := (hrow.isSome_iff context a b).2 h
        rw [hdelta] at hsome
        cases hsome
      simp only [hsame, decide_false, Bool.false_eq_true, if_false, ih]
    | some delta =>
      have hdiffers : difference.2 a b := (hrow.isSome_iff context a b).1 (by simp [hdelta])
      simp only [hdiffers, decide_true, if_true, List.map_cons, ih, ← hrow.field_eq,
        (hrow.names context a b delta hdelta).2.2]

/-- **The deltas name exactly the fields that differ.** -/
theorem mem_map_field_bodyDeltas {t : UInt32} :
    t ∈ (bodyDeltas context before after).map (·.field) ↔ t ∈ kind.fields.differ before after := by
  have hnodup : kind.layout.shape.tags.Nodup := kind.tags_sorted.imp UInt32.ne_of_lt
  rw [bodyDeltas, map_field_filterMap context (fieldDeltaRows_detect kind)]
  simp only [List.mem_map, List.mem_filter, decide_eq_true_eq]
  constructor
  · rintro ⟨_, ⟨⟨difference, hmem, rfl⟩, hdiffers⟩, rfl⟩
    exact (RecordShape.mem_differences hnodup hmem _ _).1 hdiffers
  · intro ht
    -- a tag under which two bodies differ is a tag of the schema
    have htag : t ∈ kind.layout.shape.tags :=
      EntityKind.isSome_read_iff.1 (kind.fields.isSome_of_mem_differ ht)
    rw [← RecordShape.map_fst_differences] at htag
    obtain ⟨difference, hmem, rfl⟩ := List.mem_map.1 htag
    exact ⟨_, ⟨⟨difference, hmem, rfl⟩, (RecordShape.mem_differences hnodup hmem _ _).2 ht⟩, rfl⟩

/-- The deltas come in the order of the schema, no field twice. -/
theorem bodyDeltas_sorted : ((bodyDeltas context before after).map (·.field)).Pairwise (· < ·) := by
  classical
  rw [bodyDeltas, map_field_filterMap context (fieldDeltaRows_detect kind)]
  have hsub := (List.filter_sublist (p := fun difference : UInt32 × (kind.Body → kind.Body → Prop) ↦
    difference.2 before after) (l := kind.layout.shape.differences.map fun difference ↦
      (difference.1, fun a b ↦ difference.2 (kind.layout.equiv a) (kind.layout.equiv b)))).map
        Prod.fst
  refine List.Pairwise.sublist hsub ?_
  rw [List.map_map]
  exact RecordShape.map_fst_differences kind.layout.shape ▸ kind.tags_sorted

theorem bodyDeltas_eq_nil_iff : bodyDeltas context before after = [] ↔ before = after := by
  rw [← kind.fields.differ_eq_empty_iff, Set.eq_empty_iff_forall_notMem, ← List.map_eq_nil_iff
    (f := fun delta : FieldDelta ↦ delta.field), List.eq_nil_iff_forall_not_mem]
  simp only [mem_map_field_bodyDeltas]

theorem names_of_mem_bodyDeltas {delta : FieldDelta} (h : delta ∈ bodyDeltas context before after) :
    delta.entityId = context.entityId ∧ delta.kind = context.kind := by
  obtain ⟨row, hrow, hdelta⟩ := List.mem_filterMap.1 h
  obtain ⟨difference, hdetects⟩ := DeltaRow.exists_detects (fieldDeltaRows_detect kind) hrow
  have hnames := hdetects.names context before after delta hdelta
  exact ⟨hnames.1, hnames.2.1⟩

end Bodies

end Sley.Repo
