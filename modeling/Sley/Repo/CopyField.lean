import Mathlib
import Sley.Mutate.Apply
import Sley.Repo.FieldDeltas

/-!
# Fields of two bodies

Copying one field of a body, reading and replacing one of its identity sets (`copy_field`,
`identity_set` and `replace_identity_set` of `sley-repo/src/merge.rs`). Each has a table of its own
in the source, one row for each field; here too. **All of them are the schema's reading of the
body**: `copyField` is the copy of the schema field under the tag, and the tables of sets name
exactly the fields in `setFields`. Together with the deltas of the comparison this makes a diff a
patch (`fieldDeltas_patch`).
-/

namespace Sley.Repo

open Ssmc Mutate Query
open Option (map map_map)
open EntityBodyValue (mk orderedEntityChildren)

/-! ### Copying -/

/-- The rows of `copy_fields!`. -/
def copyFieldRows : (kind : EntityKind) → List (UInt32 × (kind.Body → kind.Body → kind.Body))
  | .workspace => [
    (1, fun dst src ↦ { dst with packages := src.packages }),
    (2, fun dst src ↦ { dst with rootNamespace := src.rootNamespace }),
    (3, fun dst src ↦ { dst with capabilityRequirements := src.capabilityRequirements }),
    (4, fun dst src ↦ { dst with contracts := src.contracts }),
    (5, fun dst src ↦ { dst with tests := src.tests })]
  | .package => [
    (1, fun dst src ↦ { dst with workspace := src.workspace }),
    (2, fun dst src ↦ { dst with rootNamespace := src.rootNamespace }),
    (3, fun dst src ↦ { dst with dependencies := src.dependencies }),
    (4, fun dst src ↦ { dst with exports := src.exports })]
  | .namespace_ => [
    (1, fun dst src ↦ { dst with parent := src.parent }),
    (2, fun dst src ↦ { dst with members := src.members })]
  | .typeDef => [
    (1, fun dst src ↦ { dst with typeParameters := src.typeParameters }),
    (2, fun dst src ↦ { dst with form := src.form }),
    (3, fun dst src ↦ { dst with invariants := src.invariants }),
    (4, fun dst src ↦ { dst with visibility := src.visibility })]
  | .function => [
    (1, fun dst src ↦ { dst with typeParameters := src.typeParameters }),
    (2, fun dst src ↦ { dst with parameters := src.parameters }),
    (3, fun dst src ↦ { dst with resultType := src.resultType }),
    (4, fun dst src ↦ { dst with effects := src.effects }),
    (5, fun dst src ↦ { dst with entryBlock := src.entryBlock }),
    (6, fun dst src ↦ { dst with blocks := src.blocks }),
    (7, fun dst src ↦ { dst with contracts := src.contracts }),
    (8, fun dst src ↦ { dst with visibility := src.visibility })]
  | .parameter => [
    (1, fun dst src ↦ { dst with owner := src.owner }),
    (2, fun dst src ↦ { dst with role := src.role }),
    (3, fun dst src ↦ { dst with ordinal := src.ordinal }),
    (4, fun dst src ↦ { dst with valueType := src.valueType })]
  | .block => [
    (1, fun dst src ↦ { dst with function := src.function }),
    (2, fun dst src ↦ { dst with parameters := src.parameters }),
    (3, fun dst src ↦ { dst with operations := src.operations }),
    (4, fun dst src ↦ { dst with terminator := src.terminator }),
    (5, fun dst src ↦ { dst with reachability := src.reachability })]
  | .operation => [
    (1, fun dst src ↦ { dst with block := src.block }),
    (2, fun dst src ↦ { dst with ordinal := src.ordinal }),
    (3, fun dst src ↦ { dst with opcode := src.opcode }),
    (4, fun dst src ↦ { dst with operands := src.operands }),
    (5, fun dst src ↦ { dst with resultTypes := src.resultTypes }),
    (6, fun dst src ↦ { dst with immediate := src.immediate })]
  | .constant => [
    (1, fun dst src ↦ { dst with value := src.value })]
  | .globalValue => [
    (1, fun dst src ↦ { dst with valueType := src.valueType }),
    (2, fun dst src ↦ { dst with initializer := src.initializer }),
    (3, fun dst src ↦ { dst with visibility := src.visibility })]
  | .effectDef => [
    (1, fun dst src ↦ { dst with effectKind := src.effectKind }),
    (2, fun dst src ↦ { dst with scopeType := src.scopeType }),
    (3, fun dst src ↦ { dst with requestType := src.requestType }),
    (4, fun dst src ↦ { dst with responseType := src.responseType }),
    (5, fun dst src ↦ { dst with failureType := src.failureType }),
    (6, fun dst src ↦ { dst with visibility := src.visibility })]
  | .capabilityRequirement => [
    (1, fun dst src ↦ { dst with effect := src.effect }),
    (2, fun dst src ↦ { dst with allowedScopes := src.allowedScopes }),
    (3, fun dst src ↦ { dst with constraintContracts := src.constraintContracts })]
  | .contract => [
    (1, fun dst src ↦ { dst with target := src.target }),
    (2, fun dst src ↦ { dst with contractKind := src.contractKind }),
    (3, fun dst src ↦ { dst with predicate := src.predicate }),
    (4, fun dst src ↦ { dst with bindings := src.bindings }),
    (5, fun dst src ↦ { dst with resourceLimits := src.resourceLimits })]
  | .testCase => [
    (1, fun dst src ↦ { dst with target := src.target }),
    (2, fun dst src ↦ { dst with inputs := src.inputs }),
    (3, fun dst src ↦ { dst with effectEnvironment := src.effectEnvironment }),
    (4, fun dst src ↦ { dst with expected := src.expected }),
    (5, fun dst src ↦ { dst with observations := src.observations }),
    (6, fun dst src ↦ { dst with resourceLimits := src.resourceLimits })]
  | .adapterImport => [
    (1, fun dst src ↦ { dst with adapterId := src.adapterId }),
    (2, fun dst src ↦ { dst with abiVersion := src.abiVersion }),
    (3, fun dst src ↦ { dst with requestType := src.requestType }),
    (4, fun dst src ↦ { dst with responseType := src.responseType }),
    (5, fun dst src ↦ { dst with failureType := src.failureType }),
    (6, fun dst src ↦ { dst with effects := src.effects })]
  | .entryPoint => [
    (1, fun dst src ↦ { dst with function := src.function }),
    (2, fun dst src ↦ { dst with exposure := src.exposure })]
  | .policyBinding => [
    (1, fun dst src ↦ { dst with subject := src.subject }),
    (2, fun dst src ↦ { dst with requirements := src.requirements })]
  | .dependencyBinding => [
    (1, fun dst src ↦ { dst with dependencyRoot := src.dependencyRoot }),
    (2, fun dst src ↦ { dst with externalPackage := src.externalPackage }),
    (3, fun dst src ↦ { dst with localNamespace := src.localNamespace })]

/-- `copy_field`: one schema field of `src` in `dst`, when the kinds and the tag match. -/
def copyField (dst src : EntityBodyValue) (field : UInt32) : Option EntityBodyValue :=
  match dst, src with
  | ⟨kind, dst⟩, ⟨kind', src⟩ =>
    if h : kind' = kind then
      ((copyFieldRows kind).lookup field).map fun copy ↦ ⟨kind, copy dst (h ▸ src)⟩
    else none

/-- `field_equal`: copying the field leaves the body as it is. -/
def fieldEqual (a b : EntityBodyValue) (field : UInt32) : Bool :=
  (copyField a b field).any fun probe ↦ probe = a

/-! ### Identity sets -/

/-- The rows of `identity_sets!`. -/
def identitySetRows : (kind : EntityKind) → List (UInt32 × (kind.Body → EntityIdSet))
  | .workspace => [(1, (·.packages)), (3, (·.capabilityRequirements)), (4, (·.contracts)),
    (5, (·.tests))]
  | .package => [(3, (·.dependencies)), (4, (·.exports))]
  | .namespace_ => [(2, (·.members))]
  | .typeDef => [(3, (·.invariants))]
  | .function => [(4, (·.effects)), (7, (·.contracts))]
  | .capabilityRequirement => [(3, (·.constraintContracts))]
  | .adapterImport => [(6, (·.effects))]
  | .policyBinding => [(2, (·.requirements))]
  | _ => []

def identitySet (body : EntityBodyValue) (field : UInt32) : Option (List EntityId) :=
  ((identitySetRows body.valueKind).lookup field).map fun get ↦ (get body.body).values

/-- The rows of `replace_sets!`. -/
def replaceSetRows :
    (kind : EntityKind) → List (UInt32 × (EntityIdSet → kind.Body → kind.Body))
  | .workspace => [
    (1, fun set body ↦ { body with packages := set }),
    (3, fun set body ↦ { body with capabilityRequirements := set }),
    (4, fun set body ↦ { body with contracts := set }),
    (5, fun set body ↦ { body with tests := set })]
  | .package => [
    (3, fun set body ↦ { body with dependencies := set }),
    (4, fun set body ↦ { body with exports := set })]
  | .namespace_ => [
    (2, fun set body ↦ { body with members := set })]
  | .typeDef => [
    (3, fun set body ↦ { body with invariants := set })]
  | .function => [
    (4, fun set body ↦ { body with effects := set }),
    (7, fun set body ↦ { body with contracts := set })]
  | .capabilityRequirement => [
    (3, fun set body ↦ { body with constraintContracts := set })]
  | .adapterImport => [
    (6, fun set body ↦ { body with effects := set })]
  | .policyBinding => [
    (2, fun set body ↦ { body with requirements := set })]
  | _ => []

def replaceIdentitySet (body : EntityBodyValue) (field : UInt32) (set : EntityIdSet) :
    Option EntityBodyValue :=
  ((replaceSetRows body.valueKind).lookup field).map fun replace ↦
    ⟨body.valueKind, replace set body.body⟩

/-- `SET_FIELDS`: the kind and field tags of the identity sets. -/
def setFields : List (UInt32 × UInt32) :=
  [(1, 1), (1, 3), (1, 4), (1, 5), (2, 3), (2, 4), (3, 2), (4, 3), (5, 4), (5, 7), (12, 3), (15, 6),
    (17, 2)]

/-! ### The tables and the schema -/

variable [HostLayout]

/-- **The rows of `copy_fields!` are the schema's**, tag for tag. -/
theorem copyFieldRows_eq (kind : EntityKind) :
    copyFieldRows kind = kind.layout.shape.copies.map fun row ↦
      (row.1, fun dst src ↦ kind.layout.equiv.symm
        (row.2 (kind.layout.equiv dst) (kind.layout.equiv src))) := by
  cases kind <;> rfl

theorem copyField_eq {kind : EntityKind} (dst src : kind.Body) (field : UInt32) :
    copyField ⟨kind, dst⟩ ⟨kind, src⟩ field = (kind.fields.copy dst src field).map (mk kind) := by
  let lifted (copy : _ → _ → _) (dst src : kind.Body) : kind.Body :=
    kind.layout.equiv.symm (copy (kind.layout.equiv dst) (kind.layout.equiv src))
  have hrow := congrArg (map kind.layout.equiv.symm)
    (kind.layout.shape.lookup_copies field (kind.layout.equiv dst) (kind.layout.equiv src))
  rw [map_map, map_map] at hrow
  have hbody := congrArg (map (mk kind)) hrow
  rw [map_map] at hbody
  rw [copyField, dif_pos rfl, copyFieldRows_eq, lookup_map_snd lifted, map_map]
  exact hbody

/-- The schema field that holds a set, for each set of a kind. -/
def setMakers : (kind : EntityKind) → List (UInt32 × (EntityIdSet → kind.layout.shape.Field))
  | .workspace => [
    (1, fun set ↦ .inl set),
    (3, fun set ↦ .inr (.inr (.inl set))),
    (4, fun set ↦ .inr (.inr (.inr (.inl set)))),
    (5, fun set ↦ .inr (.inr (.inr (.inr (.inl set)))))]
  | .package => [
    (3, fun set ↦ .inr (.inr (.inl set))),
    (4, fun set ↦ .inr (.inr (.inr (.inl set))))]
  | .namespace_ => [
    (2, fun set ↦ .inr (.inl set))]
  | .typeDef => [
    (3, fun set ↦ .inr (.inr (.inl set)))]
  | .function => [
    (4, fun set ↦ .inr (.inr (.inr (.inl set)))),
    (7, fun set ↦ .inr (.inr (.inr (.inr (.inr (.inr (.inl set)))))))]
  | .capabilityRequirement => [
    (3, fun set ↦ .inr (.inr (.inl set)))]
  | .adapterImport => [
    (6, fun set ↦ .inr (.inr (.inr (.inr (.inr (.inl set))))))]
  | .policyBinding => [
    (2, fun set ↦ .inr (.inl set))]
  | _ => []

omit [HostLayout] in
/-- Two tables with the same tags, looked up. -/
theorem lookup_of_forall₂ {α β γ : Type*} [BEq α] {R : α → β → γ → Prop} {rows : List (α × β)}
    {rows' : List (α × γ)} (h : List.Forall₂ (fun row row' ↦ row.1 = row'.1 ∧
      ∀ t, (t == row.1) = true → R t row.2 row'.2) rows rows') (t : α) :
    Option.Rel (R t) (rows.lookup t) (rows'.lookup t) := by
  induction h with
  | nil => exact .none
  | @cons row row' rows rows' hrow _ ih =>
    rw [List.lookup_cons, List.lookup_cons, ← hrow.1]
    cases ht : t == row.1 with
    | true => exact .some (hrow.2 t ht)
    | false => exact ih

/-- The field under a tag holds the set that is read. -/
def HoldsSet (kind : EntityKind) (t : UInt32) (get : kind.Body → EntityIdSet)
    (make : EntityIdSet → kind.layout.shape.Field) : Prop :=
  ∀ body, kind.fields.read t body = some (make (get body))

/-- The rows of `identity_sets!` read the fields that hold sets. -/
theorem identitySetRows_read (kind : EntityKind) : List.Forall₂ (fun row maker ↦ row.1 = maker.1 ∧
        ∀ t, (t == row.1) = true → HoldsSet kind t row.2 maker.2)
      (identitySetRows kind) (setMakers kind) := by
  cases kind
  all_goals
    repeat' first
      | exact List.Forall₂.nil
      | apply List.Forall₂.cons
    all_goals
      refine ⟨rfl, fun t ht body ↦ ?_⟩
      rw [eq_of_beq ht]
      rfl

/-- The rows of `replace_sets!` write them. -/
theorem replaceSetRows_eq (kind : EntityKind) : replaceSetRows kind = (setMakers kind).map fun row ↦
      (row.1, fun set body ↦ kind.fields.write (row.2 set) body) := by
  cases kind <;> rfl

/-- `SET_FIELDS` has their tags. -/
theorem mem_setFields_iff {kind : EntityKind} {t : UInt32} :
    (kind.kindTag.toUInt32, t) ∈ setFields ↔ ((setMakers kind).lookup t).isSome := by
  rw [List.lookup_isSome_iff]
  cases kind <;> simp [setFields, setMakers, EntityKind.kindTag]

theorem setMakers_injective (kind : EntityKind) :
    ∀ row ∈ setMakers kind, Function.Injective row.2 := by
  intro row hrow a b h
  cases kind <;> fin_cases hrow
  all_goals
    repeat injection h with h

theorem setMakers_tag (kind : EntityKind) :
    ∀ row ∈ setMakers kind, ∀ set, kind.fields.tag (row.2 set) = row.1 := by
  intro row hrow set
  cases kind <;> fin_cases hrow <;> rfl

section Sets

variable {kind : EntityKind} {t : UInt32} {make : EntityIdSet → kind.layout.shape.Field}

section

variable (h : (setMakers kind).lookup t = some make)

include h

theorem replaceIdentitySet_eq (body : kind.Body) (set : EntityIdSet) :
    replaceIdentitySet ⟨kind, body⟩ t set = some ⟨kind, kind.fields.write (make set) body⟩ := by
  let replace (make : EntityIdSet → kind.layout.shape.Field) (set : EntityIdSet)
      (body : kind.Body) : kind.Body := kind.fields.write (make set) body
  have hlookup := lookup_map_snd replace (setMakers kind) t
  rw [h] at hlookup
  rw [replaceIdentitySet, replaceSetRows_eq]
  exact congrArg (map fun replace ↦ (⟨kind, replace set body⟩ : EntityBodyValue)) hlookup

theorem make_injective : Function.Injective make := by
  obtain ⟨before, after, heq, -⟩ := List.lookup_eq_some_iff.1 h
  exact setMakers_injective kind (t, make) (by rw [heq]; simp)

theorem tag_make (set : EntityIdSet) : kind.fields.tag (make set) = t := by
  obtain ⟨before, after, heq, -⟩ := List.lookup_eq_some_iff.1 h
  exact setMakers_tag kind (t, make) (by rw [heq]; simp) set

end

end Sets

/-! ### What the deltas carry -/

section Carries

variable {α β : Type}

/-- Where the field is a list of identities, a delta has the two differences of it. -/
def DeltaRow.Carries (row : DeltaRow β) (ids : UInt32 → β → Option (List EntityId)) : Prop :=
  ∀ context a b delta x y, row.delta context a b = some delta → ids row.field a = some x →
    ids row.field b = some y →
      delta.added = (setDifference x y).1 ∧ delta.removed = (setDifference x y).2

variable {ids : UInt32 → β → Option (List EntityId)}

section

omit [HostLayout]

theorem carries_of_none {row : DeltaRow β} (h : ∀ a, ids row.field a = none) : row.Carries ids := by
  intro context a b delta x y _ hx
  rw [h] at hx
  cases hx

theorem setField_carries {field : UInt32} {get : β → List EntityId}
    (h : ∀ a, ids field a = some (get a)) : (setField field get).Carries ids := by
  intro context a b delta x y hdelta hx hy
  obtain ⟨-, hdelta⟩ := Option.ite_none_right_eq_some.1 hdelta
  obtain rfl := Option.some.inj hdelta
  obtain rfl := Option.some.inj ((h a).symm.trans hx)
  obtain rfl := Option.some.inj ((h b).symm.trans hy)
  exact ⟨rfl, rfl⟩

theorem parametersField_carries {field : UInt32} {get : β → List EntityId}
    (h : ∀ a, ids field a = some (get a)) : (parametersField field get).Carries ids := by
  intro context a b delta x y hdelta hx hy
  obtain ⟨-, hdelta⟩ := Option.ite_none_right_eq_some.1 hdelta
  obtain rfl := Option.some.inj hdelta
  obtain rfl := Option.some.inj ((h a).symm.trans hx)
  obtain rfl := Option.some.inj ((h b).symm.trans hy)
  exact ⟨rfl, rfl⟩

end

end Carries

omit [HostLayout] in
theorem fieldDeltaRows_carry_sets (kind : EntityKind) :
    ∀ row ∈ fieldDeltaRows kind, row.Carries fun t body ↦ identitySet ⟨kind, body⟩ t := by
  intro row hrow
  cases kind <;> fin_cases hrow
  all_goals first
    | exact carries_of_none fun _ ↦ rfl
    | exact setField_carries fun _ ↦ rfl

omit [HostLayout] in
theorem fieldDeltaRows_carry_children (kind : EntityKind) :
    ∀ row ∈ fieldDeltaRows kind, row.Carries fun t body ↦
      (orderedEntityChildren t.toUInt16 ⟨kind, body⟩).map Prod.fst := by
  intro row hrow
  cases kind <;> fin_cases hrow
  all_goals first
    | exact carries_of_none fun _ ↦ rfl
    | exact setField_carries fun _ ↦ rfl
    | exact parametersField_carries fun _ ↦ rfl

/-! ### A diff is a patch -/

/-- The deltas of two bodies are a complete diff of them, and a patch from one to the other. -/
structure IsPatch (entityId : EntityId) {kind : EntityKind} (before after : kind.Body)
    (deltas : List FieldDelta) : Prop where
  /-- Exactly the fields that differ are named, in the order of the schema and once each. -/
  names_iff : ∀ t, t ∈ deltas.map (·.field) ↔ kind.fields.read t before ≠ kind.fields.read t after
  sorted : (deltas.map (·.field)).Pairwise (· < ·)
  eq_nil_iff : deltas = [] ↔ before = after
  of_entity : ∀ delta ∈ deltas, delta.entityId = entityId ∧ delta.kind = kind.kindTag.toUInt32
  /-- For a set of identities the delta has what entered and what left. -/
  sets : ∀ delta ∈ deltas, ∀ base target, identitySet ⟨kind, before⟩ delta.field = some base →
    identitySet ⟨kind, after⟩ delta.field = some target →
      IsDifference target base delta.added ∧ IsDifference base target delta.removed
  /-- So it does for an ordered list of them. -/
  children : ∀ delta ∈ deltas, ∀ base target,
    (orderedEntityChildren delta.field.toUInt16 ⟨kind, before⟩).map Prod.fst =
        some base →
      (orderedEntityChildren delta.field.toUInt16 ⟨kind, after⟩).map Prod.fst =
          some target →
        IsDifference target base delta.added ∧ IsDifference base target delta.removed
  /-- Copying the fields that are named gives the second body. -/
  patches : (deltas.map (·.field)).foldlM (fun body t ↦ copyField body ⟨kind, after⟩ t)
    (⟨kind, before⟩ : EntityBodyValue) = some ⟨kind, after⟩

/-- Copies of bodies are copies of their fields. -/
theorem foldlM_copyField {kind : EntityKind} (ts : List UInt32) (dst src : kind.Body) :
    ts.foldlM (fun body t ↦ copyField body ⟨kind, src⟩ t) (⟨kind, dst⟩ : EntityBodyValue) =
      (ts.foldlM (fun body t ↦ kind.fields.copy body src t) dst).map (mk kind) := by
  induction ts generalizing dst with
  | nil => rfl
  | cons t ts ih =>
    rw [List.foldlM_cons, List.foldlM_cons, copyField_eq]
    cases kind.fields.copy dst src t with
    | none => rfl
    | some body => exact ih body

theorem bodyDeltas_isPatch (context : DeltaContext) {kind : EntityKind} (before after : kind.Body)
    (hkind : context.kind = kind.kindTag.toUInt32) :
    IsPatch context.entityId before after (bodyDeltas context before after) := by
  -- a delta comes from a row of its field
  have hrow : ∀ delta ∈ bodyDeltas context before after, ∃ row ∈ fieldDeltaRows kind,
      row.field = delta.field ∧ row.delta context before after = some delta := by
    intro delta hdelta
    obtain ⟨row, hrow, hsome⟩ := List.mem_filterMap.1 hdelta
    obtain ⟨difference, hdetects⟩ := DeltaRow.exists_detects (fieldDeltaRows_detect kind) hrow
    exact ⟨row, hrow, (hdetects.names context before after delta hsome).2.2.symm, hsome⟩
  constructor
  case names_iff => exact fun t ↦ mem_map_field_bodyDeltas context before after
  case sorted => exact bodyDeltas_sorted context before after
  case eq_nil_iff => exact bodyDeltas_eq_nil_iff context before after
  case of_entity =>
    intro delta hdelta
    exact hkind ▸ names_of_mem_bodyDeltas context before after hdelta
  case sets =>
    intro delta hdelta base target hbase htarget
    obtain ⟨row, hrow, hfield, hsome⟩ := hrow delta hdelta
    rw [← hfield] at hbase htarget
    obtain ⟨hadded, hremoved⟩ := fieldDeltaRows_carry_sets kind row hrow context before after delta
      base target hsome hbase htarget
    exact ⟨hadded ▸ setDifference_fst base target, hremoved ▸ setDifference_snd base target⟩
  case children =>
    intro delta hdelta base target hbase htarget
    obtain ⟨row, hrow, hfield, hsome⟩ := hrow delta hdelta
    rw [← hfield] at hbase htarget
    obtain ⟨hadded, hremoved⟩ := fieldDeltaRows_carry_children kind row hrow context before after
      delta base target hsome hbase htarget
    exact ⟨hadded ▸ setDifference_fst base target, hremoved ▸ setDifference_snd base target⟩
  case patches =>
    rw [foldlM_copyField, kind.fields.foldlM_copy_eq]
    · rfl
    · intro t ht
      exact kind.fields.isSome_of_mem_differ ((mem_map_field_bodyDeltas context before after).1 ht)
    · exact fun t ht ↦ (mem_map_field_bodyDeltas context before after).2 ht

omit [HostLayout] in
theorem fieldDeltas_eq_ok {id id' : EntityId} {kind : EntityKind} {before after : kind.Body}
    {baseParameters targetParameters : EntityMap ParameterBody} {work : Nat}
    {result : List FieldDelta × Nat}
    (h : fieldDeltas ⟨id, ⟨kind, before⟩⟩ ⟨id', ⟨kind, after⟩⟩ baseParameters targetParameters
      work = .ok result) :
    result.1 = bodyDeltas ⟨id, kind.kindTag.toUInt32, baseParameters, targetParameters⟩
      before after := by
  obtain ⟨work, -, h⟩ := Except.bind_eq_ok.1 h
  dsimp only at h
  rw [dif_pos rfl] at h
  rw [Except.pure_eq_ok.1 h]
  rfl

/-- **The deltas of two bodies of one kind are a complete diff of them and a patch**, for every
kind: the two tables of the source name the same fields. -/
theorem fieldDeltas_isPatch {id id' : EntityId} {kind : EntityKind} {before after : kind.Body}
    {baseParameters targetParameters : EntityMap ParameterBody} {work : Nat}
    {result : List FieldDelta × Nat}
    (h : fieldDeltas ⟨id, ⟨kind, before⟩⟩ ⟨id', ⟨kind, after⟩⟩ baseParameters targetParameters
      work = .ok result) :
    IsPatch id before after result.1 := by
  rw [fieldDeltas_eq_ok h]
  exact bodyDeltas_isPatch ⟨id, kind.kindTag.toUInt32, baseParameters, targetParameters⟩ before
    after rfl

/-- Two namespaces with other parents and other members. -/
def namespaceBefore : EntityKind.namespace_.Body := ⟨none, ⟨[Id.splat 1, Id.splat 2], by decide⟩⟩

def namespaceAfter : EntityKind.namespace_.Body :=
  ⟨some (Id.splat 9), ⟨[Id.splat 2, Id.splat 3], by decide⟩⟩

omit [HostLayout] in
theorem fieldDeltas_isPatch_namespace :
    letI := hostLayout64
    ∃ result, fieldDeltas ⟨Id.splat 5, ⟨.namespace_, namespaceBefore⟩⟩
        ⟨Id.splat 5, ⟨.namespace_, namespaceAfter⟩⟩ ∅ ∅ 0 = .ok result ∧
      result.1.map (·.field) = [1, 2] ∧
      IsPatch (Id.splat 5) namespaceBefore namespaceAfter result.1 := by
  let _ := hostLayout64
  have h : fieldDeltas ⟨Id.splat 5, ⟨.namespace_, namespaceBefore⟩⟩
      ⟨Id.splat 5, ⟨.namespace_, namespaceAfter⟩⟩ ∅ ∅ 0 = .ok
        (bodyDeltas ⟨Id.splat 5, 3, ∅, ∅⟩ namespaceBefore namespaceAfter, 8) := rfl
  exact ⟨_, h, by with_unfolding_all decide, fieldDeltas_isPatch h⟩

end Sley.Repo
