import Sley.Lib.TaggedFields
import Sley.Mutate.FieldValue

/-!
# The fields of a body, by tag

The layout of a body makes it a record whose fields are read and written by their schema tags. The
laws are proved **once, by recursion on the layout**; what compares, copies and merges bodies field
by field is then compared with this one reading of the schema.
-/

namespace Sley.Mutate

/-- The values of a table, mapped. -/
theorem lookup_map_snd {α β γ : Type*} [BEq α] (f : β → γ) (rows : List (α × β)) (t : α) :
    (rows.map fun row ↦ (row.1, f row.2)).lookup t = (rows.lookup t).map f := by
  induction rows with
  | nil => rfl
  | cons row rows ih =>
    rw [List.map_cons, List.lookup_cons, List.lookup_cons, ih]
    cases t == row.1 <;> rfl

namespace RecordShape

variable {τ : Type}

variable {shape : RecordShape τ}

theorem fieldTag_of_getField? {t : UInt32} {v : τ} {field : shape.Field}
    (h : shape.getField? t v = some field) : shape.fieldTag field = t := by
  induction shape with
  | nil => exact field.elim
  | cons tag β shape ih =>
    rw [getField?] at h
    split at h
    · rename_i ht
      cases h
      exact ht.symm
    · obtain ⟨field, hfield, rfl⟩ := Option.map_eq_some_iff.1 h
      exact ih hfield

theorem isSome_getField?_iff {t : UInt32} {v : τ} :
    (shape.getField? t v).isSome ↔ t ∈ shape.tags := by
  induction shape with
  | nil => simp [getField?, tags]
  | cons tag β shape ih =>
    rw [getField?, tags, List.mem_cons, ← ih (v := v.2)]
    split
    · rename_i ht
      simp [ht]
    · rename_i ht
      simp [ht]

theorem getField?_setField_self (h : shape.tags.Nodup) (field : shape.Field) (v : τ) :
    shape.getField? (shape.fieldTag field) (shape.setField field v) = some field := by
  induction shape with
  | nil => exact field.elim
  | cons tag β shape ih =>
    obtain ⟨hfresh, hnodup⟩ := List.nodup_cons.1 h
    cases field with
    | inl value => exact if_pos rfl
    | inr field =>
      have hne : shape.fieldTag field ≠ tag := by
        rintro rfl
        exact hfresh (shape.fieldTag_mem field)
      refine (if_neg hne).trans ?_
      exact congrArg (Option.map Sum.inr) (ih hnodup field v.2)

theorem getField?_setField_of_ne {t : UInt32} {field : shape.Field} (v : τ)
    (h : t ≠ shape.fieldTag field) :
    shape.getField? t (shape.setField field v) = shape.getField? t v := by
  induction shape with
  | nil => exact field.elim
  | cons tag β shape ih =>
    cases field with
    | inl value =>
      have hne : t ≠ tag := h
      exact (if_neg hne).trans (if_neg hne).symm
    | inr field =>
      show (if t = tag then _ else (shape.getField? t (shape.setField field v.2)).map _) = _
      rw [ih v.2 h]
      rfl

/-- A record is determined by its fields, when no two of them share a tag. -/
theorem ext_getField? (h : shape.tags.Nodup) {v w : τ}
    (heq : ∀ t, shape.getField? t v = shape.getField? t w) : v = w := by
  induction shape with
  | nil => rfl
  | cons tag β shape ih =>
    obtain ⟨hfresh, hnodup⟩ := List.nodup_cons.1 h
    have hfirst := heq tag
    simp only [getField?, if_true, Option.some.injEq, Sum.inl.injEq] at hfirst
    refine Prod.ext hfirst (ih hnodup fun t ↦ ?_)
    by_cases ht : t = tag
    · -- the later fields have no such tag
      have hnone : ∀ u, shape.getField? t u = none := fun u ↦ by
        rw [← Option.isNone_iff_eq_none, ← Option.isSome_eq_false_iff, ← Bool.not_eq_true,
          isSome_getField?_iff, ht]
        exact hfresh
      rw [hnone, hnone]
    · have hrest := heq t
      simp only [getField?, if_neg ht] at hrest
      exact Option.map_injective Sum.inr_injective hrest

/-- The fields of a record shape. -/
def taggedFields (shape : RecordShape τ) (h : shape.tags.Nodup) :
    TaggedFields UInt32 shape.Field τ where
  tag := shape.fieldTag
  read := shape.getField?
  write := shape.setField
  tag_of_read := fieldTag_of_getField?
  isSome_read _ _ _ := Bool.eq_iff_iff.2 <| isSome_getField?_iff.trans isSome_getField?_iff.symm
  read_write_self := getField?_setField_self h
  read_write_of_ne := getField?_setField_of_ne
  ext := ext_getField? h

/-- For each tag, the record of which the field under it is that of another. -/
def copies : {τ : Type} → RecordShape τ → List (UInt32 × (τ → τ → τ))
  | _, nil => []
  | _, cons tag _ shape => (tag, fun dst src ↦ (src.1, dst.2)) ::
    shape.copies.map fun row ↦ (row.1, fun dst src ↦ (dst.1, row.2 dst.2 src.2))

theorem lookup_copies (shape : RecordShape τ) (t : UInt32) (dst src : τ) :
    (shape.copies.lookup t).map (fun copy ↦ copy dst src) =
      (shape.getField? t src).map (shape.setField · dst) := by
  induction shape with
  | nil => rfl
  | @cons τ tag β _ shape ih =>
    rw [copies, List.lookup_cons, getField?]
    by_cases ht : t = tag
    · simp [ht, setField]
    · -- a later field, one level down
      let below (copy : τ → τ → τ) (dst src : β × τ) : β × τ := (dst.1, copy dst.2 src.2)
      rw [if_neg ht, show (t == tag) = false from beq_eq_false_iff_ne.2 ht]
      show ((shape.copies.map fun row ↦ (row.1, below row.2)).lookup t).map _ = _
      rw [lookup_map_snd below, Option.map_map, Option.map_map]
      have hrest := congrArg (Option.map fun rest ↦ (dst.1, rest)) (ih dst.2 src.2)
      rw [Option.map_map, Option.map_map] at hrest
      exact hrest

end RecordShape

variable [HostLayout]

/-- The fields of the bodies of a kind. -/
def EntityKind.fields (kind : EntityKind) :
    TaggedFields UInt32 kind.layout.shape.Field kind.Body :=
  (kind.layout.shape.taggedFields (kind.tags_sorted.imp UInt32.ne_of_lt)).comap kind.layout.equiv

theorem EntityKind.isSome_read_iff {kind : EntityKind} {t : UInt32} {body : kind.Body} :
    (kind.fields.read t body).isSome ↔ t ∈ kind.layout.shape.tags :=
  RecordShape.isSome_getField?_iff

end Sley.Mutate
