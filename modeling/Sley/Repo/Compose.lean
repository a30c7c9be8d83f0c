import Sley.Lib.SortUnique
import Sley.Mutate.EncodeLimits
import Sley.Repo.CopyField

/-!
# Composition of two edits

An entity that both sides of a merge changed is composed field by field (`compose` of
`sley-repo/src/merge.rs`): a field that one side changed is copied from it, an identity set that
both changed takes what either added and loses what either removed, any other field that both
changed must have come out the same. **This is the three-way merge of the fields**
(`composeBody_eq`), computed from the two lists of deltas instead of the values: the abstract merge
of `TaggedFields`, with a `join` for the fields that both sides changed. So it does not depend on
which side is called ours, and no error but a limit occurs in it.
-/

namespace Sley.Repo

open Scb1 Ssmc Mutate Query
open Except (ok_bind rejectIf_neg)
open Std.ExtTreeSet (mem_ofList mem_toList)
open Except (ofOption rejectIf)

/-! ### Failures -/

/-- Stable merge failure code. -/
inductive MergeErrorCode
  | noCommonAncestor
  | ancestorMismatch
  | workspaceMismatch
  | epochMismatch
  | dependencyRootChangeUnsupported
  | compareFailed
  | resourceLimit
  | conflictFormatInvalid
  | conflictDigestMismatch
  | conflictCanonicalOrder
  | conflictVersionUnsupported
  | planUnsupported
  | resultMismatch
  | internalInvariant
  deriving DecidableEq, Repr

def maxMergeWork : Nat := 100000000

/-- `Work::charge`. -/
def MergeErrorCode.charge (work amount : Nat) : Except MergeErrorCode Nat := do
  rejectIf (work + amount ≥ 2 ^ 64) .resourceLimit
  rejectIf (work + amount > maxMergeWork) .resourceLimit
  return work + amount

/-! ### Composing the fields -/

/-- `by_field_a` and `by_field_b`: the delta of a field; a later one replaces an earlier one. -/
def byField (fields : List FieldDelta) (field : UInt32) : Option FieldDelta :=
  fields.reverse.find? (·.field = field)

/-- `all_fields`, in ascending order. -/
def allFields (fieldsA fieldsB : List FieldDelta) : List UInt32 :=
  let tags : Std.ExtTreeSet UInt32 :=
    .ofList (fieldsA.map (·.field) ++ fieldsB.map (·.field))
  tags.toList

/-- The set of both sides: what either added is put in, then what either removed taken out. -/
def mergedIds (base : List EntityId) (a b : FieldDelta) : List EntityId :=
  let merged := EntitySet.ofIds base
  let merged := a.added.foldl (fun set id ↦ set.insert id) merged
  let merged := b.added.foldl (fun set id ↦ set.insert id) merged
  let merged := (a.removed ++ b.removed).foldl (fun set id ↦ set.erase id) merged
  merged.toList

/-- One field of `all_fields`: the body with it, or that it is in conflict. -/
def composeField (base ours theirs : EntityBodyValue) (fieldsA fieldsB : List FieldDelta)
    (body : EntityBodyValue) (field : UInt32) :
    Except MergeErrorCode (Except UInt32 EntityBodyValue) :=
  match byField fieldsA field, byField fieldsB field with
  | some _, none => do
    let body ← ofOption .internalInvariant (copyField body ours field)
    return .ok body
  | none, some _ => do
    let body ← ofOption .internalInvariant (copyField body theirs field)
    return .ok body
  | some a, some b =>
    if (base.kindTag.toUInt32, field) ∈ setFields then
      if a.added.any (· ∈ b.removed) ∨ a.removed.any (· ∈ b.added) then .ok (.error field)
      else do
        let baseIds ← ofOption .internalInvariant (identitySet base field)
        let set ← (EntityIdSet.fromUnsorted (mergedIds baseIds a b)).mapError
          fun _ ↦ .internalInvariant
        let body ← ofOption .internalInvariant (replaceIdentitySet body field set)
        return .ok body
    else if fieldEqual ours theirs field then do
      let body ← ofOption .internalInvariant (copyField body ours field)
      return .ok body
    else .ok (.error field)
  | none, none => .ok (.ok body)

/-- The loop over `all_fields`. -/
def composeFields (base ours theirs : EntityBodyValue) (fieldsA fieldsB : List FieldDelta) :
    List UInt32 → EntityBodyValue → Nat →
      Except MergeErrorCode (Except UInt32 EntityBodyValue × Nat)
  | [], body, work => .ok (.ok body, work)
  | field :: fields, body, work => do
    let work ← MergeErrorCode.charge work 1
    let result ← composeField base ours theirs fieldsA fieldsB body field
    match result with
    | .error field => return (.error field, work)
    | .ok body => composeFields base ours theirs fieldsA fieldsB fields body work

/-- The body of the composed entity: no field changed is an error, since both sides changed. -/
def composeBody (base ours theirs : EntityBodyValue) (fieldsA fieldsB : List FieldDelta)
    (work : Nat) : Except MergeErrorCode (Except UInt32 EntityBodyValue × Nat) := do
  rejectIf (allFields fieldsA fieldsB).isEmpty .internalInvariant
  composeFields base ours theirs fieldsA fieldsB (allFields fieldsA fieldsB) base work

section Compose

variable [HostLayout] [Blake3] [UnicodeNormalization]

/-- The end of `compose`: the object around a composed body, with the metadata of ours, or the
conflicting field. -/
def composeObject (id : EntityId) (ours theirs : EntityObject)
    (metadataOverridden : List EntityId) :
    Except UInt32 EntityBodyValue × Nat →
      Except MergeErrorCode (Except UInt32 EntityObject × Nat × List EntityId)
  | (.error field, work) => .ok (.error field, work, metadataOverridden)
  | (.ok body, work) => do
    let record : EntityObjectRecord :=
      { entityId := id, body, label := ours.record.label,
        semanticFingerprint := ours.record.semanticFingerprint }
    let metadataOverridden :=
      if ours.record.label ≠ theirs.record.label then metadataOverridden ++ [id]
      else metadataOverridden
    let object ← (buildEntityObject ours.schemaEpochId record).mapError fun _ ↦ .resourceLimit
    return (.ok object, work, metadataOverridden)

/-- `compose`: one entity changed on both sides, from the objects of the three sides and the deltas
of the two. Gives the object or the conflicting field, the work done, and the entities of which the
metadata was overridden. -/
def compose (id : EntityId) (base a b : EntityMap EntityObject) (fieldsA fieldsB : List FieldDelta)
    (work : Nat) (metadataOverridden : List EntityId) :
    Except MergeErrorCode (Except UInt32 EntityObject × Nat × List EntityId) := do
  let baseObject ← ofOption .internalInvariant base[id]?
  let ours ← ofOption .internalInvariant a[id]?
  let theirs ← ofOption .internalInvariant b[id]?
  let result ← composeBody baseObject.record.body ours.record.body theirs.record.body fieldsA
    fieldsB work
  composeObject id ours theirs metadataOverridden result

end Compose

/-! ### Three-way merges of sets -/

section Sets

theorem ascending_iff_pairwise {ids : List EntityId} :
    Ascending (ids.map Id.bytes) ↔ ids.Pairwise (compare · · = .lt) := by
  rw [Ascending, List.isChain_map]
  exact ascends_iff_isChain.symm

/-- What a set that both sides changed becomes: of the base what both kept, and what either
added. -/
def threeWaySet (base ours theirs : EntityIdSet) : EntityIdSet where
  values := (EntitySet.ofIds (base.values ++ (ours.values ++ theirs.values))).toList.filter fun id ↦
    if id ∈ base.values then id ∈ ours.values ∧ id ∈ theirs.values
    else id ∈ ours.values ∨ id ∈ theirs.values
  ascending := ascending_iff_pairwise.2 ((EntitySet.sorted_toList _).filter _)

variable {base ours theirs : EntityIdSet}

theorem mem_threeWaySet {id : EntityId} : id ∈ (threeWaySet base ours theirs).values ↔
      (id ∈ base.values ∧ id ∈ ours.values ∧ id ∈ theirs.values) ∨
        (id ∉ base.values ∧ (id ∈ ours.values ∨ id ∈ theirs.values)) := by
  simp only [threeWaySet, List.mem_filter, mem_toList, EntitySet.mem_ofIds, List.mem_append]
  by_cases h : id ∈ base.values <;> simp [h]

/-- Sets are told apart by their members. -/
theorem idSet_ext_mem {a b : EntityIdSet} (h : ∀ id, id ∈ a.values ↔ id ∈ b.values) : a = b := by
  have ha : Ascends id a.values := ascending_iff_pairwise.1 a.ascending
  exact EntityIdSet.ext (ha.eq_of_mem_iff (ascending_iff_pairwise.1 b.ascending) h)

theorem threeWaySet_comm (base ours theirs : EntityIdSet) :
    threeWaySet base ours theirs = threeWaySet base theirs ours :=
  idSet_ext_mem fun id ↦ by
    rw [mem_threeWaySet, mem_threeWaySet]
    tauto

theorem threeWaySet_self (base ours : EntityIdSet) : threeWaySet base ours ours = ours :=
  idSet_ext_mem fun id ↦ by
    rw [mem_threeWaySet]
    tauto

/-- A delta of a set: what entered and what left. -/
structure IsSetDelta (base target : EntityIdSet) (delta : FieldDelta) : Prop where
  added : IsDifference target.values base.values delta.added
  removed : IsDifference base.values target.values delta.removed

variable {a b : FieldDelta}

/-- **Putting in what was added and taking out what was removed is the three-way merge.** -/
theorem mergedIds_eq (ha : IsSetDelta base ours a) (hb : IsSetDelta base theirs b) :
    mergedIds base.values a b = (threeWaySet base ours theirs).values := by
  have hset : Ascends id (threeWaySet base ours theirs).values :=
    ascending_iff_pairwise.1 (threeWaySet base ours theirs).ascending
  refine (hset.eq_of_mem_iff (EntitySet.sorted_toList _) fun id ↦ ?_).symm
  simp only [mem_toList, EntitySet.mem_foldl_erase, EntitySet.mem_foldl_insert,
    EntitySet.mem_ofIds, List.mem_append, ha.added.mem_iff, ha.removed.mem_iff, hb.added.mem_iff,
    hb.removed.mem_iff, mem_threeWaySet]
  tauto

/-- What one side adds the base does not have, so the other side cannot remove it. -/
theorem not_crossed (ha : IsSetDelta base ours a) (hb : IsSetDelta base theirs b) :
    ¬ (a.added.any (· ∈ b.removed) ∨ a.removed.any (· ∈ b.added)) := by
  simp only [List.any_eq_true, decide_eq_true_eq, ha.added.mem_iff, ha.removed.mem_iff,
    hb.added.mem_iff, hb.removed.mem_iff]
  grind

end Sets

/-! ### The fields that are composed -/

section Fields

theorem mem_allFields {fieldsA fieldsB : List FieldDelta} {t : UInt32} :
    t ∈ allFields fieldsA fieldsB ↔ t ∈ fieldsA.map (·.field) ∨ t ∈ fieldsB.map (·.field) := by
  simp only [allFields, mem_toList, mem_ofList, List.contains_iff_mem, List.mem_append]

theorem allFields_sorted (fieldsA fieldsB : List FieldDelta) :
    (allFields fieldsA fieldsB).Pairwise (compare · · = .lt) :=
  Std.ExtTreeSet.ordered_toList

theorem allFields_comm (fieldsA fieldsB : List FieldDelta) :
    allFields fieldsA fieldsB = allFields fieldsB fieldsA := by
  have htags : Ascends id (allFields fieldsA fieldsB) := allFields_sorted fieldsA fieldsB
  refine htags.eq_of_mem_iff (allFields_sorted fieldsB fieldsA) fun t ↦ ?_
  rw [mem_allFields, mem_allFields, or_comm]

theorem byField_eq_none_iff {fields : List FieldDelta} {t : UInt32} :
    byField fields t = none ↔ t ∉ fields.map (·.field) := by
  simp [byField, List.find?_eq_none]

theorem mem_of_byField_eq_some {fields : List FieldDelta} {t : UInt32} {delta : FieldDelta}
    (h : byField fields t = some delta) : delta ∈ fields ∧ delta.field = t := by
  have hfield := List.find?_some h
  exact ⟨List.mem_reverse.1 (List.mem_of_find?_eq_some h), of_decide_eq_true hfield⟩

end Fields

/-! ### Composition is the three-way merge -/

section Merge

variable [HostLayout] {kind : EntityKind}

open Classical in
/-- What becomes of a field that both sides changed: a set is merged, anything else has to be the
same on both sides. -/
noncomputable def joinField (base ours theirs : kind.Body) (t : UInt32) :
    Option kind.layout.shape.Field :=
  match (identitySetRows kind).lookup t, (setMakers kind).lookup t with
  | some get, some make => some (make (threeWaySet (get base) (get ours) (get theirs)))
  | _, _ => if kind.fields.read t ours = kind.fields.read t theirs then kind.fields.read t ours
    else none

/-- The fields of the merge of two bodies. -/
noncomputable def mergeField (base ours theirs : kind.Body) (t : UInt32) :
    Option kind.layout.shape.Field :=
  kind.fields.threeWay (joinField base ours theirs) base ours theirs t

/-- A tag of a set, or no tag of a set. -/
theorem setRows_cases (kind : EntityKind) (t : UInt32) :
    ((kind.kindTag.toUInt32, t) ∉ setFields ∧ (identitySetRows kind).lookup t = none ∧
        (setMakers kind).lookup t = none) ∨
      ∃ get make, (kind.kindTag.toUInt32, t) ∈ setFields ∧
        (identitySetRows kind).lookup t = some get ∧ (setMakers kind).lookup t = some make ∧
        HoldsSet kind t get make := by
  rw [mem_setFields_iff]
  have hrel := lookup_of_forall₂ (identitySetRows_read kind) t
  generalize (identitySetRows kind).lookup t = get at hrel ⊢
  generalize (setMakers kind).lookup t = make at hrel ⊢
  cases hrel with
  | none => exact .inl (by simp)
  | some hread => exact .inr ⟨_, _, rfl, rfl, rfl, hread⟩

variable {base ours theirs : kind.Body} {t : UInt32}

variable {get : kind.Body → EntityIdSet} {body : kind.Body} {v : kind.layout.shape.Field}

theorem joinField_of_set {make : EntityIdSet → kind.layout.shape.Field}
    (hget : (identitySetRows kind).lookup t = some get)
    (hmake : (setMakers kind).lookup t = some make) :
    joinField base ours theirs t =
      some (make (threeWaySet (get base) (get ours) (get theirs))) := by
  simp only [joinField, hget, hmake]

open Classical in
theorem joinField_of_not_set (h : (setMakers kind).lookup t = none) :
    joinField base ours theirs t =
      if kind.fields.read t ours = kind.fields.read t theirs then kind.fields.read t ours
      else none := by
  unfold joinField
  rw [h]
  split
  · rename_i hmake
    cases hmake
  · rfl

theorem joinField_comm (base ours theirs : kind.Body) :
    joinField base ours theirs = joinField base theirs ours := by
  funext t
  obtain ⟨-, -, hmake⟩ | ⟨get, make, -, hget, hmake, -⟩ := setRows_cases kind t
  · rw [joinField_of_not_set hmake, joinField_of_not_set hmake]
    by_cases h : kind.fields.read t ours = kind.fields.read t theirs
    · rw [if_pos h, if_pos h.symm, h]
    · rw [if_neg h, if_neg (Ne.symm h)]
  · rw [joinField_of_set hget hmake, joinField_of_set hget hmake, threeWaySet_comm]

theorem mergeField_comm (base ours theirs : kind.Body) :
    mergeField base ours theirs = mergeField base theirs ours := by
  unfold mergeField
  rw [joinField_comm, kind.fields.threeWay_comm]

/-- A merged field is for its tag. -/
theorem tag_of_mergeField (h : mergeField base ours theirs t = some v) : kind.fields.tag v = t := by
  refine kind.fields.tag_of_threeWay (fun {t v} hv ↦ ?_) h
  obtain ⟨-, -, hmake⟩ | ⟨get, make, -, hget, hmake, -⟩ := setRows_cases kind t
  · rw [joinField_of_not_set hmake] at hv
    split at hv
    · exact kind.fields.tag_of_read hv
    · cases hv
  · rw [joinField_of_set hget hmake] at hv
    cases hv
    exact tag_make hmake _

/-- `field_equal` compares the fields. -/
theorem fieldEqual_iff {a b : kind.Body} (h : (kind.fields.read t b).isSome) :
    fieldEqual ⟨kind, a⟩ ⟨kind, b⟩ t = true ↔ kind.fields.read t a = kind.fields.read t b := by
  rw [fieldEqual, copyField_eq, ← kind.fields.copy_eq_self_iff h]
  cases kind.fields.copy a b t with
  | none => simp
  | some probe =>
    simp only [Option.map_some, Option.any_some, decide_eq_true_eq, Option.some.injEq]
    constructor
    · intro heq
      cases heq
      rfl
    · rintro rfl
      rfl

theorem copyField_of_read {dst src : kind.Body} (h : kind.fields.read t src = some v) :
    copyField ⟨kind, dst⟩ ⟨kind, src⟩ t = some ⟨kind, kind.fields.write v dst⟩ := by
  rw [copyField_eq, TaggedFields.copy, h]
  rfl

omit [HostLayout] in
theorem identitySet_of_lookup
    (hget : (identitySetRows kind).lookup t = some get) (body : kind.Body) :
    identitySet ⟨kind, body⟩ t = some (get body).values := by
  rw [identitySet, hget]
  rfl

/-- The delta of a field of two bodies is there when they differ in it. -/
theorem byField_bodyDeltas (context : DeltaContext) (before after : kind.Body) (t : UInt32) :
    (t ∉ kind.fields.differ before after ∧ byField (bodyDeltas context before after) t = none) ∨
      (t ∈ kind.fields.differ before after ∧
        ∃ delta ∈ bodyDeltas context before after, delta.field = t ∧
          byField (bodyDeltas context before after) t = some delta) := by
  rw [← mem_map_field_bodyDeltas context]
  cases h : byField (bodyDeltas context before after) t with
  | none => exact .inl ⟨byField_eq_none_iff.1 h, rfl⟩
  | some delta =>
    obtain ⟨hmem, hfield⟩ := mem_of_byField_eq_some h
    exact .inr ⟨hfield ▸ List.mem_map_of_mem hmem, delta, hmem, hfield, rfl⟩

/-- The delta of a set is the delta of two sets. -/
theorem isSetDelta_of_mem (context : DeltaContext) {before after : kind.Body} {delta : FieldDelta}
    (h : delta ∈ bodyDeltas context before after)
    (hget : (identitySetRows kind).lookup delta.field = some get) :
    IsSetDelta (get before) (get after) delta := by
  have hids := identitySet_of_lookup hget
  -- the sets of a delta do not depend on the kind it is filed under
  obtain ⟨row, hrow, hsome⟩ := List.mem_filterMap.1 h
  obtain ⟨difference, hdetects⟩ := DeltaRow.exists_detects (fieldDeltaRows_detect kind) hrow
  have hfield := (hdetects.names context before after delta hsome).2.2
  rw [hfield] at hids
  obtain ⟨hadded, hremoved⟩ := fieldDeltaRows_carry_sets kind row hrow context before after delta
    _ _ hsome (hids before) (hids after)
  exact ⟨hadded ▸ setDifference_fst _ _, hremoved ▸ setDifference_snd _ _⟩

/-- **One turn of the loop writes the merged field**, or reports that there is none. -/
theorem composeField_eq (contextA contextB : DeltaContext) (base ours theirs body : kind.Body)
    (ht : t ∈ kind.fields.differ base ours ∨ t ∈ kind.fields.differ base theirs) :
    composeField ⟨kind, base⟩ ⟨kind, ours⟩ ⟨kind, theirs⟩ (bodyDeltas contextA base ours)
        (bodyDeltas contextB base theirs) ⟨kind, body⟩ t =
      .ok (match mergeField base ours theirs t with
        | some v => .ok ⟨kind, kind.fields.write v body⟩
        | none => .error t) := by
  unfold composeField mergeField
  obtain ⟨hours, ha⟩ | ⟨hours, a, hmemA, hfieldA, ha⟩ := byField_bodyDeltas contextA base ours t
  · -- theirs only
    have htheirs := ht.resolve_left hours
    obtain ⟨hnot, -⟩ | ⟨-, b, -, -, hb⟩ := byField_bodyDeltas contextB base theirs t
    · exact absurd htheirs hnot
    obtain ⟨v, hv⟩ := Option.isSome_iff_exists.1 (kind.fields.isSome_of_mem_differ htheirs)
    rw [kind.fields.threeWay_of_not_ours (not_not.1 hours).symm, hv]
    simp only [ha, hb, copyField_of_read hv]
    rfl
  obtain ⟨v, hv⟩ := Option.isSome_iff_exists.1 (kind.fields.isSome_of_mem_differ hours)
  obtain ⟨htheirs, hb⟩ | ⟨htheirs, b, hmemB, hfieldB, hb⟩ :=
    byField_bodyDeltas contextB base theirs t
  · -- ours only
    rw [kind.fields.threeWay_of_not_theirs (not_not.1 htheirs).symm, hv]
    simp only [ha, hb, copyField_of_read hv]
    rfl
  -- both sides
  rw [kind.fields.threeWay_of_both (Ne.symm hours) (Ne.symm htheirs)]
  simp only [ha, hb]
  obtain ⟨hset, -, hmake⟩ | ⟨get, make, hset, hget, hmake, -⟩ := setRows_cases kind t
  · have hset : ¬ ((⟨kind, base⟩ : EntityBodyValue).kindTag.toUInt32, t) ∈ setFields := hset
    rw [joinField_of_not_set hmake, if_neg hset]
    have hequal := fieldEqual_iff (a := ours) (kind.fields.isSome_of_mem_differ htheirs)
    by_cases heq : kind.fields.read t ours = kind.fields.read t theirs
    · rw [if_pos (hequal.2 heq), if_pos heq, hv]
      simp only [copyField_of_read hv]
      rfl
    · rw [if_neg (mt hequal.1 heq), if_neg heq]
  · have hset : ((⟨kind, base⟩ : EntityBodyValue).kindTag.toUInt32, t) ∈ setFields := hset
    have hdeltaA := isSetDelta_of_mem contextA hmemA (hfieldA ▸ hget)
    have hdeltaB := isSetDelta_of_mem contextB hmemB (hfieldB ▸ hget)
    rw [joinField_of_set hget hmake, if_pos hset, if_neg (not_crossed hdeltaA hdeltaB),
      identitySet_of_lookup hget base, ofOption, ok_bind, mergedIds_eq hdeltaA hdeltaB,
      EntityIdSet.fromUnsorted_of_ascending (threeWaySet _ _ _).ascending]
    simp only [Except.mapError, ok_bind, replaceIdentitySet_eq hmake]
    rfl

/-! ### The loop over the fields -/

omit [HostLayout] in
theorem charge_one (work : Nat) :
    (MergeErrorCode.charge work 1 = .ok (work + 1) ∧ work + 1 ≤ maxMergeWork) ∨
      (MergeErrorCode.charge work 1 = .error .resourceLimit ∧ maxMergeWork < work + 1) := by
  unfold MergeErrorCode.charge
  by_cases h : work + 1 ≤ maxMergeWork
  · have hword : ¬ work + 1 ≥ 2 ^ 64 := by
      have : maxMergeWork = 100000000 := rfl
      omega
    rw [rejectIf_neg hword, rejectIf_neg (Nat.not_lt.2 h)]
    exact .inl ⟨rfl, h⟩
  · refine .inr ⟨?_, Nat.not_le.1 h⟩
    by_cases hword : work + 1 ≥ 2 ^ 64
    · rw [Except.rejectIf_pos hword]
      rfl
    · rw [rejectIf_neg hword, Except.rejectIf_pos (Nat.not_le.1 h)]
      rfl

section

variable (contextA contextB : DeltaContext)

include contextA contextB

/-- **The loop assigns the merged fields**, unless the work runs out. -/
theorem composeFields_eq (base ours theirs : kind.Body) {ts : List UInt32}
    (hts : ∀ t ∈ ts, t ∈ kind.fields.differ base ours ∨ t ∈ kind.fields.differ base theirs)
    (body : kind.Body) (work : Nat) :
    (∃ work', composeFields ⟨kind, base⟩ ⟨kind, ours⟩ ⟨kind, theirs⟩
        (bodyDeltas contextA base ours) (bodyDeltas contextB base theirs) ts ⟨kind, body⟩ work =
          .ok ((kind.fields.assign (mergeField base ours theirs) ts body).map
            (EntityBodyValue.mk kind), work')) ∨
      (composeFields ⟨kind, base⟩ ⟨kind, ours⟩ ⟨kind, theirs⟩ (bodyDeltas contextA base ours)
          (bodyDeltas contextB base theirs) ts ⟨kind, body⟩ work = .error .resourceLimit ∧
        maxMergeWork < work + ts.length) := by
  induction ts generalizing body work with
  | nil => exact .inl ⟨work, rfl⟩
  | cons t ts ih =>
    obtain ⟨ht, hts⟩ := List.forall_mem_cons.1 hts
    rw [composeFields, TaggedFields.assign]
    obtain ⟨hcharge, -⟩ | ⟨hcharge, hlimit⟩ := charge_one work
    · rw [hcharge, ok_bind, composeField_eq contextA contextB base ours theirs body ht, ok_bind]
      cases mergeField base ours theirs t with
      | none => exact .inl ⟨work + 1, rfl⟩
      | some v =>
        refine (ih hts _ (work + 1)).imp id (And.imp_right fun hlimit ↦ ?_)
        rw [List.length_cons]
        omega
    · refine .inr ⟨by rw [hcharge]; rfl, ?_⟩
      rw [List.length_cons]
      omega

/-- The fields that are composed are those that a side changed. -/
theorem mem_allFields_bodyDeltas :
    t ∈ allFields (bodyDeltas contextA base ours) (bodyDeltas contextB base theirs) ↔
      t ∈ kind.fields.differ base ours ∨ t ∈ kind.fields.differ base theirs := by
  rw [mem_allFields, mem_map_field_bodyDeltas, mem_map_field_bodyDeltas]

/-- **The composed body is the assignment of the merged fields.** A side that changed the body
changed a field, so the defensive error does not occur. -/
theorem composeBody_eq (hours : ours ≠ base) (work : Nat) :
    (∃ work', composeBody ⟨kind, base⟩ ⟨kind, ours⟩ ⟨kind, theirs⟩
        (bodyDeltas contextA base ours) (bodyDeltas contextB base theirs) work =
          .ok ((kind.fields.assign (mergeField base ours theirs)
            (allFields (bodyDeltas contextA base ours) (bodyDeltas contextB base theirs)) base).map
              (EntityBodyValue.mk kind), work')) ∨
      (composeBody ⟨kind, base⟩ ⟨kind, ours⟩ ⟨kind, theirs⟩ (bodyDeltas contextA base ours)
          (bodyDeltas contextB base theirs) work = .error .resourceLimit ∧
        maxMergeWork < work + (allFields (bodyDeltas contextA base ours)
          (bodyDeltas contextB base theirs)).length) := by
  have hsome : ¬ (allFields (bodyDeltas contextA base ours)
      (bodyDeltas contextB base theirs)).isEmpty := by
    intro hempty
    rw [List.isEmpty_iff] at hempty
    refine hours ((kind.fields.differ_eq_empty_iff.1 ?_).symm)
    refine Set.eq_empty_iff_forall_notMem.2 fun t ht ↦ ?_
    have hmem : t ∈ allFields (bodyDeltas contextA base ours) (bodyDeltas contextB base theirs) :=
      (mem_allFields_bodyDeltas contextA contextB).2 (.inl ht)
    rw [hempty] at hmem
    cases hmem
  rw [composeBody, rejectIf_neg hsome, ok_bind]
  exact composeFields_eq contextA contextB base ours theirs
    (fun t ht ↦ (mem_allFields_bodyDeltas contextA contextB).1 ht) base work

/-- **The composition does not depend on which side is called ours**: the same body, conflict, work
or error. -/
theorem composeBody_comm (base ours theirs : kind.Body) (work : Nat) :
    composeBody ⟨kind, base⟩ ⟨kind, ours⟩ ⟨kind, theirs⟩ (bodyDeltas contextA base ours)
        (bodyDeltas contextB base theirs) work =
      composeBody ⟨kind, base⟩ ⟨kind, theirs⟩ ⟨kind, ours⟩ (bodyDeltas contextB base theirs)
        (bodyDeltas contextA base ours) work := by
  rw [composeBody, composeBody, allFields_comm]
  congr 1
  funext _
  have hts : ∀ t ∈ allFields (bodyDeltas contextB base theirs) (bodyDeltas contextA base ours),
      t ∈ kind.fields.differ base theirs ∨ t ∈ kind.fields.differ base ours :=
    fun t ht ↦ (mem_allFields_bodyDeltas contextB contextA).1 ht
  generalize allFields (bodyDeltas contextB base theirs) (bodyDeltas contextA base ours) = ts at hts
  -- the body is any body of the kind from here on
  suffices h : ∀ (body : kind.Body) (work : Nat), composeFields ⟨kind, base⟩ ⟨kind, ours⟩
      ⟨kind, theirs⟩ (bodyDeltas contextA base ours) (bodyDeltas contextB base theirs) ts
        ⟨kind, body⟩ work =
      composeFields ⟨kind, base⟩ ⟨kind, theirs⟩ ⟨kind, ours⟩ (bodyDeltas contextB base theirs)
        (bodyDeltas contextA base ours) ts ⟨kind, body⟩ work from h base work
  induction ts with
  | nil => exact fun _ _ ↦ rfl
  | cons t ts ih =>
    intro body work
    obtain ⟨ht, hts⟩ := List.forall_mem_cons.1 hts
    rw [composeFields, composeFields,
      composeField_eq contextA contextB base ours theirs body ht.symm,
      composeField_eq contextB contextA base theirs ours body ht, mergeField_comm]
    cases mergeField base theirs ours t with
    | none => rfl
    | some v =>
      congr 1
      funext work
      exact ih hts _ work

end

/-! ### What is composed -/

/-- Both sides changed the field, to different values, and it is no set. -/
def Conflicts (base ours theirs : kind.Body) : Set UInt32 :=
  {t | (kind.kindTag.toUInt32, t) ∉ setFields ∧ kind.fields.read t ours ≠ kind.fields.read t base ∧
    kind.fields.read t theirs ≠ kind.fields.read t base ∧
    kind.fields.read t ours ≠ kind.fields.read t theirs}

/-- A body has the fields of the side that changed them, and of a set that both changed what both
kept and what either added. -/
structure IsThreeWay (base ours theirs body : kind.Body) : Prop where
  ours_only : ∀ t, kind.fields.read t ours ≠ kind.fields.read t base →
    kind.fields.read t theirs = kind.fields.read t base →
    kind.fields.read t body = kind.fields.read t ours
  theirs_only : ∀ t, kind.fields.read t ours = kind.fields.read t base →
    kind.fields.read t theirs ≠ kind.fields.read t base →
    kind.fields.read t body = kind.fields.read t theirs
  neither : ∀ t, kind.fields.read t ours = kind.fields.read t base →
    kind.fields.read t theirs = kind.fields.read t base →
    kind.fields.read t body = kind.fields.read t base
  same : ∀ t, kind.fields.read t ours = kind.fields.read t theirs →
    kind.fields.read t body = kind.fields.read t ours
  sets : ∀ t, (kind.kindTag.toUInt32, t) ∈ setFields →
    kind.fields.read t ours ≠ kind.fields.read t base →
    kind.fields.read t theirs ≠ kind.fields.read t base →
    ∃ idsBase idsOurs idsTheirs ids, identitySet ⟨kind, base⟩ t = some idsBase ∧
      identitySet ⟨kind, ours⟩ t = some idsOurs ∧ identitySet ⟨kind, theirs⟩ t = some idsTheirs ∧
      identitySet ⟨kind, body⟩ t = some ids ∧
      ∀ id, id ∈ ids ↔ (id ∈ idsBase ∧ id ∈ idsOurs ∧ id ∈ idsTheirs) ∨
        (id ∉ idsBase ∧ (id ∈ idsOurs ∨ id ∈ idsTheirs))

/-- Fields that agree are the merged field. -/
theorem mergeField_of_same (h : kind.fields.read t ours = kind.fields.read t theirs) :
    mergeField base ours theirs t = kind.fields.read t ours := by
  by_cases hours : kind.fields.read t ours = kind.fields.read t base
  · rw [mergeField, kind.fields.threeWay_of_not_ours hours, h]
  rw [mergeField, kind.fields.threeWay_of_both hours (h ▸ hours)]
  obtain ⟨-, -, hmake⟩ | ⟨get, make, -, hget, hmake, hholds⟩ := setRows_cases kind t
  · rw [joinField_of_not_set hmake, if_pos h]
  · rw [hholds ours, hholds theirs, Option.some.injEq] at h
    rw [joinField_of_set hget hmake, hholds ours, ← make_injective hmake h, threeWaySet_self]

/-- **A changed field has no merge exactly when it is in conflict.** -/
theorem mergeField_eq_none_iff
    (ht : t ∈ kind.fields.differ base ours ∨ t ∈ kind.fields.differ base theirs) :
    mergeField base ours theirs t = none ↔ t ∈ Conflicts base ours theirs := by
  have hours : (kind.fields.read t ours).isSome := by
    obtain ht | ht := ht
    · exact kind.fields.isSome_of_mem_differ ht
    · rw [kind.fields.isSome_read t ours theirs]
      exact kind.fields.isSome_of_mem_differ ht
  have htheirs : (kind.fields.read t theirs).isSome := kind.fields.isSome_read t ours theirs ▸ hours
  constructor
  · intro hnone
    have hchangedOurs : kind.fields.read t ours ≠ kind.fields.read t base := by
      intro heq
      rw [mergeField, kind.fields.threeWay_of_not_ours heq] at hnone
      simp [hnone] at htheirs
    have hchangedTheirs : kind.fields.read t theirs ≠ kind.fields.read t base := by
      intro heq
      rw [mergeField, kind.fields.threeWay_of_not_theirs heq] at hnone
      simp [hnone] at hours
    have hne : kind.fields.read t ours ≠ kind.fields.read t theirs := by
      intro heq
      rw [mergeField_of_same heq] at hnone
      simp [hnone] at hours
    refine ⟨?_, hchangedOurs, hchangedTheirs, hne⟩
    rw [mergeField, kind.fields.threeWay_of_both hchangedOurs hchangedTheirs] at hnone
    obtain ⟨hset, -⟩ | ⟨get, make, -, hget, hmake, -⟩ := setRows_cases kind t
    · exact hset
    · rw [joinField_of_set hget hmake] at hnone
      cases hnone
  · rintro ⟨hset, hchangedOurs, hchangedTheirs, hne⟩
    obtain ⟨-, -, hmake⟩ | ⟨-, -, hset', -⟩ := setRows_cases kind t
    · rw [mergeField, kind.fields.threeWay_of_both hchangedOurs hchangedTheirs,
        joinField_of_not_set hmake, if_neg hne]
    · exact absurd hset' hset

/-- A body of the merged fields is the three-way merge. -/
theorem isThreeWay_of_read (h : ∀ t, kind.fields.read t body = mergeField base ours theirs t) :
    IsThreeWay base ours theirs body where
  ours_only t _ htheirs := by rw [h, mergeField, kind.fields.threeWay_of_not_theirs htheirs]
  theirs_only t hours _ := by rw [h, mergeField, kind.fields.threeWay_of_not_ours hours]
  neither t hours htheirs := by
    rw [h, mergeField, kind.fields.threeWay_of_not_ours hours, htheirs]
  same t heq := by rw [h, mergeField_of_same heq]
  sets t hset hours htheirs := by
    obtain ⟨hnot, -⟩ | ⟨get, make, -, hget, hmake, hholds⟩ := setRows_cases kind t
    · exact absurd hset hnot
    have hbody := h t
    rw [mergeField, kind.fields.threeWay_of_both hours htheirs, joinField_of_set hget hmake,
      hholds body, Option.some.injEq] at hbody
    refine ⟨_, _, _, _, identitySet_of_lookup hget base, identitySet_of_lookup hget ours,
      identitySet_of_lookup hget theirs, identitySet_of_lookup hget body, fun id ↦ ?_⟩
    rw [make_injective hmake hbody, mem_threeWaySet]

/-- The tags that are assigned are those of the fields that a side changed, in order. -/
structure IsChangedTags (base ours theirs : kind.Body) (ts : List UInt32) : Prop where
  mem_iff : ∀ t, t ∈ ts ↔ t ∈ kind.fields.differ base ours ∨ t ∈ kind.fields.differ base theirs
  sorted : ts.Pairwise (compare · · = .lt)

variable {ts : List UInt32}

section

variable (hts : IsChangedTags base ours theirs ts)

include hts

theorem read_of_assign
    (h : kind.fields.assign (mergeField base ours theirs) ts base = .ok body) (t : UInt32) :
    kind.fields.read t body = mergeField base ours theirs t := by
  rw [kind.fields.read_of_assign_eq_ok tag_of_mergeField h]
  split
  · rfl
  · rename_i ht
    rw [hts.mem_iff, not_or] at ht
    obtain ⟨hours, htheirs⟩ := ht
    rw [mergeField, kind.fields.threeWay_of_not_ours (not_not.1 hours).symm]
    exact not_not.1 htheirs

/-- A merge that exists has no conflict. -/
theorem conflicts_eq_empty_of_assign
    (h : kind.fields.assign (mergeField base ours theirs) ts base = .ok body) :
    Conflicts base ours theirs = ∅ := by
  refine Set.eq_empty_iff_forall_notMem.2 fun t ht ↦ ?_
  have hchanged : t ∈ kind.fields.differ base ours := ht.2.1.symm
  have hnone := (mergeField_eq_none_iff (.inl hchanged)).2 ht
  rw [← read_of_assign hts h] at hnone
  have hsome := kind.fields.isSome_of_mem_differ hchanged
  rw [kind.fields.isSome_read t ours body, hnone] at hsome
  cases hsome

/-- **The field that is reported is the least in conflict.** -/
theorem isLeast_of_assign {t : UInt32}
    (h : kind.fields.assign (mergeField base ours theirs) ts base = .error t) :
    IsLeast (Conflicts base ours theirs) t := by
  obtain ⟨before, after, rfl, hnone, hbefore⟩ := kind.fields.assign_eq_error_iff.1 h
  constructor
  · exact (mergeField_eq_none_iff ((hts.mem_iff t).1 (by simp))).1 hnone
  · intro s hs
    have hchanged : s ∈ kind.fields.differ base ours := hs.2.1.symm
    have hsnone := (mergeField_eq_none_iff (.inl hchanged)).2 hs
    have hmem := (hts.mem_iff s).2 (.inl hchanged)
    obtain hmem | hmem := List.mem_append.1 hmem
    · have hsome := hbefore s hmem
      rw [hsnone] at hsome
      cases hsome
    · obtain rfl | hmem := List.mem_cons.1 hmem
      · exact UInt32.le_refl s
      · -- later tags are larger
        have hlater := (List.pairwise_cons.1 (List.pairwise_append.1 hts.sorted).2.1).1 s hmem
        exact UInt32.le_of_lt (Std.compare_eq_lt.1 hlater)

end

end Merge

/-! ### The outcome -/

section Outcome

variable [HostLayout] [Blake3] [UnicodeNormalization] {kind : EntityKind}

/-- An object that was built around a body of the kind. -/
structure IsBuilt (object : EntityObject) (body : kind.Body) : Prop where
  body_eq : object.record.body = ⟨kind, body⟩
  built : buildEntityObject object.schemaEpochId object.record = .ok object

/-- The record of a composed entity: the metadata are those of ours. -/
def composedRecord (id : EntityId) (ours : EntityObject) (body : kind.Body) :
    EntityObjectRecord where
  entityId := id
  body := ⟨kind, body⟩
  label := ours.record.label
  semanticFingerprint := ours.record.semanticFingerprint

/-- What may come of composing the bodies of an entity. Errors are limits: of the work, one unit for
each changed field, and of the size of the composed object. -/
inductive ComposeOutcome (id : EntityId) (base ours theirs : kind.Body) (object : EntityObject)
    (fields work : Nat) :
    Except MergeErrorCode (Except UInt32 EntityObject × Nat × List EntityId) → Prop
  | composed {result : EntityObject} {body : kind.Body} {work' : Nat}
      {metadataOverridden : List EntityId} (hrecord : result.record = composedRecord id object body)
      (hbody : IsThreeWay base ours theirs body) (hnone : Conflicts base ours theirs = ∅) :
      ComposeOutcome id base ours theirs object fields work
        (.ok (.ok result, work', metadataOverridden))
  | conflict {t : UInt32} {work' : Nat} {metadataOverridden : List EntityId}
      (hleast : IsLeast (Conflicts base ours theirs) t) :
      ComposeOutcome id base ours theirs object fields work
        (.ok (.error t, work', metadataOverridden))
  | workLimit (hwork : maxMergeWork < work + fields) :
      ComposeOutcome id base ours theirs object fields work (.error .resourceLimit)
  | sizeLimit {body : kind.Body} (hbody : IsThreeWay base ours theirs body)
      (hsize : buildEntityObject object.schemaEpochId (composedRecord id object body) =
        .error .resourceLimit) :
      ComposeOutcome id base ours theirs object fields work (.error .resourceLimit)

/-- Two compositions come to the same: the same conflict after the same work, or the same body. -/
structure ComposesAlike
    (x y : Except MergeErrorCode (Except UInt32 EntityObject × Nat × List EntityId)) : Prop where
  conflict_iff : ∀ t work metadataOverridden,
    x = .ok (.error t, work, metadataOverridden) ↔ y = .ok (.error t, work, metadataOverridden)
  body_eq : ∀ {a b : EntityObject} {workA workB : Nat} {metadataA metadataB : List EntityId},
    x = .ok (.ok a, workA, metadataA) → y = .ok (.ok b, workB, metadataB) →
      a.record.body = b.record.body ∧ workA = workB

theorem compose_eq {id : EntityId} {base a b : EntityMap EntityObject}
    {object ours theirs : EntityObject} (hbase : base[id]? = some object) (ha : a[id]? = some ours)
    (hb : b[id]? = some theirs) (fieldsA fieldsB : List FieldDelta) (work : Nat)
    (metadataOverridden : List EntityId) :
    compose id base a b fieldsA fieldsB work metadataOverridden =
      composeBody object.record.body ours.record.body theirs.record.body fieldsA fieldsB work >>=
        composeObject id ours theirs metadataOverridden := by
  rw [compose, hbase, ha, hb]
  rfl

variable (id : EntityId) {base ours theirs : kind.Body}
  {object oursObject theirsObject : EntityObject}

section

omit [Blake3] [UnicodeNormalization]

theorem encodeFieldValue_setMakers (kind : EntityKind) (depth : Nat) :
    ∀ row ∈ setMakers kind, ∀ set : EntityIdSet,
      kind.layout.shape.encodeFieldValue depth (row.2 set) = encodeNested depth set := by
  intro row hrow set
  cases kind <;> fin_cases hrow <;> rfl

/-- The field of a set is encoded as the set. -/
theorem encodeFieldValue_make {t : UInt32} {make : EntityIdSet → kind.layout.shape.Field}
    (h : (setMakers kind).lookup t = some make) (depth : Nat) (set : EntityIdSet) :
    kind.layout.shape.encodeFieldValue depth (make set) = encodeNested depth set := by
  obtain ⟨before, after, heq, -⟩ := List.lookup_eq_some_iff.1 h
  exact encodeFieldValue_setMakers kind depth (t, make) (by rw [heq]; simp) set

end

/-- **A composed body is that of an object**, unless the object is too large: each of its fields was
a field of an object that was built, or is a set. -/
theorem buildEntityObject_composed (hours : IsBuilt oursObject ours)
    (htheirs : IsBuilt theirsObject theirs) {body : kind.Body}
    (hread : ∀ t, kind.fields.read t body = mergeField base ours theirs t) :
    OnlyLimits
      (buildEntityObject oursObject.schemaEpochId (composedRecord id oursObject body)) := by
  have hfield {object : EntityObject} {side : kind.Body} (h : IsBuilt object side) {t : UInt32}
      {field : kind.layout.shape.Field} (hread : kind.fields.read t side = some field) :
      OnlyLimits (kind.layout.shape.encodeFieldValue 2 field) := by
    obtain ⟨⟨bs, hbs⟩, -⟩ := onlyLimits_of_buildEntityObject h.built
    rw [h.body_eq] at hbs
    exact field_onlyLimits_of_encodeExact hbs hread
  refine buildEntityObject_onlyLimits (encodeExact_onlyLimits fun t field ht ↦ ?_)
    (onlyLimits_of_buildEntityObject hours.built).2
  rw [hread] at ht
  by_cases hchangedOurs : kind.fields.read t ours = kind.fields.read t base
  · rw [mergeField, kind.fields.threeWay_of_not_ours hchangedOurs] at ht
    exact hfield htheirs ht
  by_cases hchangedTheirs : kind.fields.read t theirs = kind.fields.read t base
  · rw [mergeField, kind.fields.threeWay_of_not_theirs hchangedTheirs] at ht
    exact hfield hours ht
  rw [mergeField, kind.fields.threeWay_of_both hchangedOurs hchangedTheirs] at ht
  obtain ⟨-, -, hmake⟩ | ⟨get, make, -, hget, hmake, -⟩ := setRows_cases kind t
  · rw [joinField_of_not_set hmake] at ht
    obtain ⟨-, ht⟩ := Option.ite_none_right_eq_some.1 ht
    exact hfield hours ht
  · rw [joinField_of_set hget hmake, Option.some.injEq] at ht
    rw [← ht, encodeFieldValue_make hmake]
    exact encodeIdSet_onlyLimits 2 _

/-- The object around the composed body. -/
theorem composeObject_outcome (hours : IsBuilt oursObject ours)
    (htheirs : IsBuilt theirsObject theirs) {ts : List UInt32}
    (hts : IsChangedTags base ours theirs ts) (work work' : Nat)
    (metadataOverridden : List EntityId) :
    ComposeOutcome id base ours theirs oursObject ts.length work
      (composeObject id oursObject theirsObject metadataOverridden
        ((kind.fields.assign (mergeField base ours theirs) ts base).map (EntityBodyValue.mk kind),
          work')) := by
  cases hassign : kind.fields.assign (mergeField base ours theirs) ts base with
  | error t => exact .conflict (isLeast_of_assign hts hassign)
  | ok body =>
    have hread := read_of_assign hts hassign
    have hlimits := buildEntityObject_composed id hours htheirs hread
    show ComposeOutcome id base ours theirs oursObject ts.length work
      ((buildEntityObject oursObject.schemaEpochId (composedRecord id oursObject body)).mapError
        (fun _ ↦ .resourceLimit) >>= fun object ↦ .ok (.ok object, work', _))
    cases hbuild : buildEntityObject oursObject.schemaEpochId
        (composedRecord id oursObject body) with
    | error e =>
      rw [onlyLimits_iff.1 hlimits e hbuild] at hbuild
      exact .sizeLimit (isThreeWay_of_read hread) hbuild
    | ok composed =>
      exact .composed (buildEntityObject_record hbuild) (isThreeWay_of_read hread)
        (conflicts_eq_empty_of_assign hts hassign)

/-- The metadata aside, the object is the same whichever side it is called by. -/
theorem composeObject_alike (ours theirs : EntityObject) (metadataOverridden : List EntityId)
    (x : Except MergeErrorCode (Except UInt32 EntityBodyValue × Nat)) :
    ComposesAlike (x >>= composeObject id ours theirs metadataOverridden)
      (x >>= composeObject id theirs ours metadataOverridden) := by
  obtain e | ⟨t | body, work⟩ := x
  · exact ⟨fun _ _ _ ↦ Iff.rfl, fun h ↦ nomatch h⟩
  · exact ⟨fun _ _ _ ↦ Iff.rfl, fun h ↦ nomatch h⟩
  · have hok {ours theirs result : EntityObject} {work' : Nat} {metadata : List EntityId}
        (h : composeObject id ours theirs metadataOverridden (.ok body, work) =
          .ok (.ok result, work', metadata)) : result.record.body = body ∧ work' = work := by
      obtain ⟨object, hobject, h⟩ := Except.bind_eq_ok.1 h
      have hbuild := Except.mapError_eq_ok.1 hobject
      cases Except.pure_eq_ok.1 h
      exact ⟨by rw [buildEntityObject_record hbuild], rfl⟩
    have hne {ours theirs : EntityObject} {t : UInt32} {work' : Nat} {metadata : List EntityId} :
        composeObject id ours theirs metadataOverridden (.ok body, work) ≠
          .ok (.error t, work', metadata) := by
      intro h
      obtain ⟨object, hobject, h⟩ := Except.bind_eq_ok.1 h
      cases Except.pure_eq_ok.1 h
    refine ⟨fun t work' metadata ↦ iff_of_false hne hne, fun ha hb ↦ ?_⟩
    obtain ⟨hbodyA, hworkA⟩ := hok ha
    obtain ⟨hbodyB, hworkB⟩ := hok hb
    exact ⟨hbodyA.trans hbodyB.symm, hworkA.trans hworkB.symm⟩

/-- **The composition of an entity is the three-way merge of its fields**, or names the least field
in conflict; only a limit stops it, and exchanging the sides gives the same. -/
theorem compose_isThreeWay {baseObjects a b : EntityMap EntityObject}
    (hbase : baseObjects[id]? = some object) (hbody : object.record.body = ⟨kind, base⟩)
    (ha : a[id]? = some oursObject) (hours : IsBuilt oursObject ours)
    (hb : b[id]? = some theirsObject) (htheirs : IsBuilt theirsObject theirs)
    (hchanged : ours ≠ base ∧ theirs ≠ base) {fieldsA fieldsB : List FieldDelta}
    {baseParameters parametersA parametersB : EntityMap ParameterBody}
    {workA workA' workB workB' : Nat}
    (hfieldsA : fieldDeltas ⟨id, ⟨kind, base⟩⟩ ⟨id, ⟨kind, ours⟩⟩ baseParameters parametersA workA =
      .ok (fieldsA, workA'))
    (hfieldsB : fieldDeltas ⟨id, ⟨kind, base⟩⟩ ⟨id, ⟨kind, theirs⟩⟩ baseParameters parametersB
      workB = .ok (fieldsB, workB')) (work : Nat) (metadataOverridden : List EntityId) :
    ComposeOutcome id base ours theirs oursObject (allFields fieldsA fieldsB).length work
        (compose id baseObjects a b fieldsA fieldsB work metadataOverridden) ∧
      ComposesAlike (compose id baseObjects a b fieldsA fieldsB work metadataOverridden)
        (compose id baseObjects b a fieldsB fieldsA work metadataOverridden) := by
  have hdeltasA : fieldsA = _ := fieldDeltas_eq_ok hfieldsA
  have hdeltasB : fieldsB = _ := fieldDeltas_eq_ok hfieldsB
  subst hdeltasA hdeltasB
  rw [compose_eq hbase ha hb, compose_eq hbase hb ha, hbody, hours.body_eq, htheirs.body_eq]
  constructor
  · obtain ⟨work', hcompose⟩ | ⟨hcompose, hwork⟩ := composeBody_eq _ _ hchanged.1 work
    · rw [hcompose]
      refine composeObject_outcome id hours htheirs ⟨fun t ↦ ?_, allFields_sorted _ _⟩ work work'
        metadataOverridden
      exact mem_allFields_bodyDeltas _ _
    · rw [hcompose]
      exact .workLimit hwork
  · rw [composeBody_comm]
    exact composeObject_alike id oursObject theirsObject metadataOverridden _

end Outcome

/-! ### A composition -/

section Witness

variable [HostLayout] [Blake3] [UnicodeNormalization]

def entryBody (n : UInt8) (exposure : EntryExposure) : EntityKind.entryPoint.Body :=
  { function := Id.splat n, exposure }

/-- An entry point without metadata. -/
def entryRecord (n : UInt8) (exposure : EntryExposure) : EntityObjectRecord where
  entityId := Id.splat 1
  body := ⟨.entryPoint, entryBody n exposure⟩
  label := none
  semanticFingerprint := none

theorem exists_entryObject (n : UInt8) (exposure : EntryExposure) :
    ∃ object, buildEntityObject (Id.splat 9) (entryRecord n exposure) = .ok object := by
  let function : Bytes := (Id.splat n : EntityId).bytes
  let tag : Bytes := encodeU32 exposure.tag
  have htag : tag.length ≤ 10 := by
    rw [show tag = Leb128.encode exposure.tag.toNat from encodeUvar_tag _]
    exact Leb128.length_encode_le (by decide) (lt_of_lt_of_le exposure.tag.toNat_lt (by decide))
  have hfunction : function.length = 32 := Id.length_eq _
  have hmax : ∀ p ∈ [function, tag], p.length ≤ maxStandaloneBytes := by
    have hlimit : maxStandaloneBytes = 67108864 := rfl
    simp only [List.forall_mem_cons, List.not_mem_nil, IsEmpty.forall_iff, implies_true, and_true]
    omega
  obtain ⟨hfunctionMax, htagMax⟩ := List.forall_mem_cons.1 hmax
  have hfields : (entryPointLayout.shape.fields 1).encode
      (entryPointLayout.equiv (entryBody n exposure)) = .ok [function, tag] :=
    RecordFields.encode_cons (encodeAtDepth_eq_ok.2 ⟨by decide, rfl, hfunctionMax⟩) <|
      RecordFields.encode_cons
        (encodeAtDepth_eq_ok.2 ⟨by decide, rfl, htagMax tag List.mem_cons_self⟩) rfl
  obtain ⟨body, hencoded, hbody⟩ := encode_recordCodec (e := entryPointLayout.equiv)
    entryPointLayout.wellFormed (by decide) hfields hmax
  simp only [List.map_cons, List.map_nil, List.sum_cons, List.sum_nil, hfunction] at hbody
  have hbodyMax : body.length ≤ maxStandaloneBytes :=
    (show body.length ≤ 100 by omega).trans (by decide)
  have hlength := length_taggedBytes_le 16 hbodyMax
  have hnested : encodeNested 1 (entryBody n exposure) = .ok body :=
    encodeAtDepth_eq_ok.2 ⟨by decide, hencoded, hbodyMax⟩
  have hexact : encodeExact (entryRecord n exposure).body = .ok (taggedBytes 16 body) :=
    encodeAtDepth_eq_ok.2 ⟨by decide, encodeUnionValue_eq_ok.2 ⟨by decide, body, hnested, hbodyMax,
      rfl⟩, (show (taggedBytes 16 body).length ≤ 120 by omega).trans (by decide)⟩
  exact exists_object_of_encodeExact rfl rfl hexact (by omega) (Id.splat 9)

omit [HostLayout] [Blake3] [UnicodeNormalization] in
/-- Ours names another function, theirs exposes it otherwise. -/
theorem compose_isThreeWay_entryPoint :
    letI := hostLayout64
    letI := cafeBlake3
    letI := composedText
    let sole (object : EntityObject) : EntityMap EntityObject :=
      (∅ : EntityMap EntityObject).insert (Id.splat 1) object
    ∃ object ours theirs fieldsA fieldsB,
      buildEntityObject (Id.splat 9) (entryRecord 2 .protocol) = .ok object ∧
      buildEntityObject (Id.splat 9) (entryRecord 3 .protocol) = .ok ours ∧
      buildEntityObject (Id.splat 9) (entryRecord 2 .local_) = .ok theirs ∧
      ComposeOutcome (Id.splat 1) (entryBody 2 .protocol) (entryBody 3 .protocol)
        (entryBody 2 .local_) ours (allFields fieldsA fieldsB).length 0
        (compose (Id.splat 1) (sole object) (sole ours) (sole theirs) fieldsA fieldsB 0 []) ∧
      ComposesAlike
        (compose (Id.splat 1) (sole object) (sole ours) (sole theirs) fieldsA fieldsB 0 [])
        (compose (Id.splat 1) (sole object) (sole theirs) (sole ours) fieldsB fieldsA 0 []) := by
  let _ := hostLayout64
  let _ := cafeBlake3
  let _ := composedText
  intro sole
  have hsole (object : EntityObject) : (sole object)[(Id.splat 1 : EntityId)]? = some object := by
    rw [EntityMap.getElem?_insert_eq, if_pos rfl]
  have hbuilt {n : UInt8} {exposure : EntryExposure} {object : EntityObject}
      (h : buildEntityObject (Id.splat 9) (entryRecord n exposure) = .ok object) :
      IsBuilt object (entryBody n exposure) := by
    obtain ⟨payload, hpayload, hlen, rfl⟩ := buildEntityObject_eq_ok.1 h
    exact ⟨rfl, h⟩
  have hdeltas (n : UInt8) (exposure : EntryExposure) :
      fieldDeltas ⟨Id.splat 1, ⟨.entryPoint, entryBody 2 .protocol⟩⟩
        ⟨Id.splat 1, ⟨.entryPoint, entryBody n exposure⟩⟩ ∅ ∅ 0 =
          .ok (bodyDeltas ⟨Id.splat 1, 16, ∅, ∅⟩ (entryBody 2 .protocol)
            (entryBody n exposure), 8) :=
    rfl
  obtain ⟨object, hobject⟩ := exists_entryObject 2 .protocol
  obtain ⟨ours, hours⟩ := exists_entryObject 3 .protocol
  obtain ⟨theirs, htheirs⟩ := exists_entryObject 2 .local_
  exact ⟨object, ours, theirs, _, _, hobject, hours, htheirs,
    compose_isThreeWay (Id.splat 1) (hsole object) (hbuilt hobject).body_eq (hsole ours)
      (hbuilt hours) (hsole theirs) (hbuilt htheirs) ⟨by decide, by decide⟩ (hdeltas 3 .protocol)
      (hdeltas 2 .local_) 0 []⟩

end Witness

end Sley.Repo
