import Sley.Mutate.BodyCodec

/-!
# Values of single body fields

A field value of the source (`value_generated.rs`) is one case for each field of each entity kind.
Here it is **a field of a layout together with a value of the field's type**: the layouts already
list the tags and types, so the cases, their keys, their codec and the replacement of a field in a
body are one definition each, by recursion on the layout.
-/

namespace Sley.Mutate

open Scb1 Ssmc

namespace RecordShape

variable {τ : Type}

/-- A value for one of the fields. -/
@[reducible]
def Field : {τ : Type} → RecordShape τ → Type
  | _, nil => Empty
  | _, cons _ β shape => β ⊕ shape.Field

/-- The tag of the field a value is for. -/
def fieldTag : {τ : Type} → (shape : RecordShape τ) → shape.Field → UInt32
  | _, nil => Empty.elim
  | _, cons tag _ shape => Sum.elim (fun _ ↦ tag) shape.fieldTag

/-- Replace one component. -/
def setField : {τ : Type} → (shape : RecordShape τ) → shape.Field → τ → τ
  | _, nil => Empty.elim
  | _, cons _ _ shape =>
    Sum.elim (fun value v ↦ (value, v.2)) fun field v ↦ (v.1, shape.setField field v.2)

/-- The component that a tag names. -/
def getField? : {τ : Type} → (shape : RecordShape τ) → UInt32 → τ → Option shape.Field
  | _, nil, _, _ => none
  | _, cons tag _ shape, t, v =>
    if t = tag then some (.inl v.1) else (shape.getField? t v.2).map .inr

/-- The value one level down, with the codec of its type. -/
def encodeFieldValue (depth : Nat) : {τ : Type} → (shape : RecordShape τ) → shape.Field → Result Bytes
  | _, nil => Empty.elim
  | _, cons _ _ shape => Sum.elim (encodeNested depth) (shape.encodeFieldValue depth)

/-- Decode the payload of the field that a tag names. -/
def decodeFieldValue (depth : Nat) : {τ : Type} → (shape : RecordShape τ) → UInt32 → Bytes →
    Decoder shape.Field
  | _, nil, _, _ => Decoder.fail .unionInvalid
  | _, cons tag _ shape, t, payload =>
    if t = tag then Sum.inl <$> decodeNested depth payload
    else Sum.inr <$> shape.decodeFieldValue depth t payload

def fieldCost : {τ : Type} → (shape : RecordShape τ) → shape.Field → Nat
  | _, nil => Empty.elim
  | _, cons _ _ shape => Sum.elim MutationValueCodec.cost shape.fieldCost

theorem fieldTag_mem (shape : RecordShape τ) (field : shape.Field) :
    shape.fieldTag field ∈ shape.tags := by
  induction shape with
  | nil => exact field.elim
  | cons tag β shape ih =>
    cases field with
    | inl value => exact List.mem_cons_self
    | inr field => exact List.mem_cons_of_mem _ (ih field)

/-- **The field a tag names is read back**, the tags being distinct. -/
theorem decodeFieldValue_eq_ok {shape : RecordShape τ} (h : shape.tags.Pairwise (· < ·))
    {depth : Nat} {t : UInt32} {p : Bytes} {r r' : Reader} {b b' : DecodeBudget}
    {field : shape.Field} :
    (shape.decodeFieldValue depth t p).run (r, b) = .ok (field, (r', b')) ↔
      shape.fieldTag field = t ∧ shape.encodeFieldValue depth field = .ok p ∧ r' = r ∧
        b'.allocated = b.allocated + shape.fieldCost field := by
  induction shape with
  | nil => exact field.elim
  | cons tag β shape ih =>
    obtain ⟨hbelow, hsorted⟩ := List.pairwise_cons.1 h
    rw [decodeFieldValue]
    split
    · rename_i ht
      subst ht
      rw [(exactOn_decodeNested depth).map_eq_ok]
      constructor
      · rintro ⟨value, rfl, hp⟩
        exact ⟨rfl, hp⟩
      · rintro ⟨htag, hp⟩
        cases field with
        | inl value => exact ⟨value, rfl, hp⟩
        | inr field =>
          -- a later field has a larger tag
          have hlt := hbelow _ (shape.fieldTag_mem field)
          exact absurd hlt (htag ▸ UInt32.lt_irrefl _)
    · rename_i ht
      rw [Decoder.map_eq_ok]
      constructor
      · rintro ⟨field, hdec, rfl⟩
        exact (ih hsorted).1 hdec
      · rintro ⟨htag, hp⟩
        cases field with
        | inl value => exact absurd htag.symm ht
        | inr field => exact ⟨field, (ih hsorted).2 ⟨htag, hp⟩, rfl⟩

end RecordShape

section Fields

variable [HostLayout]

/-- A value for one field of one kind of body. -/
structure FieldValue where
  kind : EntityKind
  field : kind.layout.shape.Field

namespace FieldValue

/-- `FieldValue::field_key`: the kind tag and the field tag. -/
def fieldKey (value : FieldValue) : UInt16 × UInt16 :=
  (value.kind.kindTag, (value.kind.layout.shape.fieldTag value.field).toUInt16)

def cost (value : FieldValue) : Nat := value.kind.layout.shape.fieldCost value.field

end FieldValue

/-- `encode_selected_field_value`. -/
def encodeSelectedFieldValue (value : FieldValue) (depth : Nat) : Result Bytes :=
  value.kind.layout.shape.encodeFieldValue (depth + 1) value.field

/-- `decode_selected_field_value`. -/
def decodeSelectedFieldValue (targetKind fieldTag : UInt16) (payload : Bytes) (depth : Nat) :
    Decoder FieldValue :=
  match EntityKind.fromTag targetKind.toNat with
  | some kind => FieldValue.mk kind <$>
    kind.layout.shape.decodeFieldValue (depth + 1) fieldTag.toUInt32 payload
  | none => Decoder.fail .unionInvalid

/-- Every field tag fits in 16 bits. -/
theorem EntityKind.tags_lt (kind : EntityKind) :
    ∀ t ∈ kind.layout.shape.tags, t.toNat < 2 ^ 16 := by
  have h : (kind.layout.shape.tags.all fun t ↦ decide (t.toNat < 2 ^ 16)) = true := by
    cases kind <;> rfl
  simpa using h

theorem EntityKind.tags_sorted (kind : EntityKind) : kind.layout.shape.tags.Pairwise (· < ·) :=
  (RecordShape.wellFormed_iff.1 kind.layout.wellFormed).1

theorem FieldValue.fieldTag_eq_iff {kind : EntityKind} {field : kind.layout.shape.Field}
    {t : UInt16} :
    kind.layout.shape.fieldTag field = t.toUInt32 ↔
      (kind.layout.shape.fieldTag field).toUInt16 = t := by
  have hlt := kind.tags_lt _ (kind.layout.shape.fieldTag_mem field)
  constructor
  · intro h
    rw [h, UInt16.toUInt16_toUInt32]
  · rintro rfl
    rw [← UInt32.toNat_inj, UInt16.toNat_toUInt32, UInt32.toNat_toUInt16, Nat.mod_eq_of_lt hlt]

theorem decodeSelectedFieldValue_eq_ok {targetKind fieldTag : UInt16} {p : Bytes} {depth : Nat}
    {r r' : Reader} {b b' : DecodeBudget} {value : FieldValue} :
    (decodeSelectedFieldValue targetKind fieldTag p depth).run (r, b) = .ok (value, (r', b')) ↔
      value.fieldKey = (targetKind, fieldTag) ∧ encodeSelectedFieldValue value depth = .ok p ∧
        r' = r ∧ b'.allocated = b.allocated + value.cost := by
  rw [decodeSelectedFieldValue, FieldValue.fieldKey, Prod.mk.injEq]
  constructor
  · intro h
    split at h
    · rename_i kind hkind
      obtain ⟨field, hdec, rfl⟩ := Decoder.map_eq_ok.1 h
      obtain ⟨htag, hp⟩ := (RecordShape.decodeFieldValue_eq_ok kind.tags_sorted).1 hdec
      have hkey := EntityKind.fromTag_eq_some.1 hkind
      exact ⟨⟨UInt16.toNat_inj.1 hkey, FieldValue.fieldTag_eq_iff.1 htag⟩, hp⟩
    · exact absurd h Decoder.fail_ne_ok
  · rintro ⟨⟨rfl, htag⟩, hp⟩
    have hkind : EntityKind.fromTag value.kind.kindTag.toNat = some value.kind :=
      EntityKind.fromTag_eq_some.2 rfl
    split
    · rename_i kind hkind'
      obtain rfl : value.kind = kind := Option.some.inj (hkind.symm.trans hkind')
      exact Decoder.map_eq_ok.2 ⟨value.field, (RecordShape.decodeFieldValue_eq_ok
        value.kind.tags_sorted).2 ⟨FieldValue.fieldTag_eq_iff.2 htag, hp⟩, rfl⟩
    · rename_i hnone
      rw [hkind] at hnone
      cases hnone

end Fields

end Sley.Mutate
