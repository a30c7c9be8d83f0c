import Mathlib
import Sley.Lib.Failures
import Sley.Mutate.FieldAccess
import Sley.Mutate.Object
import Sley.Scb1.Canonical

/-!
# Encodings that only a limit can stop

An encoder stops at a limit, or because the value has no canonical form. **Whether a body has one is
a question about its fields, one at a time** (`encodeExact_onlyLimits`,
`field_onlyLimits_of_encodeExact`): so a body put together from the fields of bodies that have been
encoded can only be too large, or too deep.
-/

namespace Sley.Mutate

open Scb1 Ssmc
open Except (bind_eq_ok)

/-- The computation is stopped by no error but a limit. -/
def OnlyLimits {α : Type} (x : Result α) : Prop := x.Avoids {e | e ≠ .resourceLimit}

section Computations

variable {α β : Type}

variable {x : Result α}

theorem onlyLimits_iff : OnlyLimits x ↔ ∀ e, x = .error e → e = .resourceLimit :=
  forall₂_congr fun _ _ ↦ not_not

theorem onlyLimits_ok (a : α) : OnlyLimits (.ok a : Result α) := Except.avoids_ok a

theorem onlyLimits_of_eq_ok {a : α} (h : x = .ok a) : OnlyLimits x := h ▸ onlyLimits_ok a

/-- A guard against a size. -/
theorem onlyLimits_rejectIf (c : Prop) [Decidable c] :
    OnlyLimits (Except.rejectIf c .resourceLimit) :=
  Except.avoids_rejectIf fun h ↦ absurd rfl h

theorem OnlyLimits.bind {f : α → Result β} (hx : OnlyLimits x)
    (hf : ∀ a, x = .ok a → OnlyLimits (f a)) : OnlyLimits (x >>= f) :=
  Except.Avoids.bind hx hf

theorem OnlyLimits.mapM {f : α → Result β} {xs : List α} (h : ∀ x ∈ xs, OnlyLimits (f x)) :
    OnlyLimits (xs.mapM f) := by
  induction xs with
  | nil => exact onlyLimits_ok []
  | cons x xs ih =>
    obtain ⟨hx, hxs⟩ := List.forall_mem_cons.1 h
    rw [List.mapM_cons]
    exact hx.bind fun _ _ ↦ (ih hxs).bind fun _ _ ↦ onlyLimits_ok _

end Computations

/-! ### Containers -/

theorem encodeSized_onlyLimits (payload : Bytes) : OnlyLimits (encodeSized payload) :=
  onlyLimits_iff.2 fun _ ↦ encodeSized_eq_error

theorem encodeSizedAll_onlyLimits (elements : List Bytes) :
    OnlyLimits (encodeSizedAll elements) := by
  induction elements with
  | nil => exact onlyLimits_ok []
  | cons element elements ih =>
    exact (encodeSized_onlyLimits element).bind fun _ _ ↦ ih.bind fun _ _ ↦ onlyLimits_ok _

theorem encodeList_onlyLimits (elements : List Bytes) : OnlyLimits (encodeList elements) :=
  (onlyLimits_rejectIf _).bind fun _ _ ↦
    (encodeSizedAll_onlyLimits elements).bind fun _ _ ↦ onlyLimits_ok _

/-- A record whose tags are distinct. -/
theorem encodeRecord_onlyLimits {fields : List Field} (h : (fields.map Prod.fst).Nodup) :
    OnlyLimits (encodeRecord fields) := by
  refine (onlyLimits_rejectIf _).bind fun _ _ ↦ OnlyLimits.bind ?_ fun _ _ ↦
    OnlyLimits.bind (onlyLimits_iff.2 fun _ ↦ encodeFields_eq_error) fun _ _ ↦ onlyLimits_ok _
  refine Except.avoids_rejectIf fun _ ↦ not_not.2 (List.Pairwise.isChain ?_)
  -- sorting permutes the fields
  refine ((List.mergeSort_perm fields _).pairwise_iff fun hne ↦ hne.symm).2 ?_
  exact List.pairwise_map.1 h

theorem encodeUnionValue_onlyLimits {depth : Nat} {tag : UInt32} {payload : Result Bytes}
    (h : OnlyLimits payload) : OnlyLimits (encodeUnionValue depth tag payload) :=
  (onlyLimits_rejectIf _).bind fun _ _ ↦ h.bind fun payload _ ↦
    (encodeSized_onlyLimits payload).bind fun _ _ ↦ onlyLimits_ok _

section Values

variable {α : Type}

variable {enc : α → Result Bytes} {depth : Nat}

theorem encodeAtDepth_onlyLimits {v : α}
    (h : OnlyLimits (enc v)) : OnlyLimits (encodeAtDepth depth enc v) :=
  (onlyLimits_rejectIf _).bind fun _ _ ↦ h.bind fun _ _ ↦
    (onlyLimits_rejectIf _).bind fun _ _ ↦ onlyLimits_ok _

theorem encodeVec_onlyLimits {vs : List α}
    (h : ∀ v ∈ vs, OnlyLimits (enc v)) : OnlyLimits (encodeVec depth enc vs) :=
  (onlyLimits_rejectIf _).bind fun _ _ ↦
    (OnlyLimits.mapM fun v hv ↦ encodeAtDepth_onlyLimits (h v hv)).bind fun elements _ ↦
      encodeList_onlyLimits elements

theorem ok_of_encodeAtDepth {v : α} {bs : Bytes}
    (h : encodeAtDepth depth enc v = .ok bs) : ∃ encoded, enc v = .ok encoded := by
  obtain ⟨-, -, h⟩ := bind_eq_ok.1 h
  obtain ⟨encoded, hencoded, -⟩ := bind_eq_ok.1 h
  exact ⟨encoded, hencoded⟩

theorem ok_of_encodeUnionValue {tag : UInt32} {payload : Result Bytes} {bs : Bytes}
    (h : encodeUnionValue depth tag payload = .ok bs) : ∃ encoded, payload = .ok encoded := by
  obtain ⟨-, -, h⟩ := bind_eq_ok.1 h
  obtain ⟨encoded, hencoded, -⟩ := bind_eq_ok.1 h
  exact ⟨encoded, hencoded⟩

end Values

/-- A set of identities is always in canonical order. -/
theorem encodeIdSet_onlyLimits [HostLayout] (depth : Nat) (set : EntityIdSet) :
    OnlyLimits (encodeNested depth set) :=
  encodeAtDepth_onlyLimits (encodeVec_onlyLimits fun id _ ↦ onlyLimits_ok id.bytes)

/-! ### Records -/

namespace RecordShape

variable {τ : Type}

/-- A property of each field of a record. -/
def AllFields : {τ : Type} → (shape : RecordShape τ) → (shape.Field → Prop) → τ → Prop
  | _, nil, _, _ => True
  | _, cons _ _ shape, P, v => P (.inl v.1) ∧ shape.AllFields (fun field ↦ P (.inr field)) v.2

variable {shape : RecordShape τ} {depth : Nat} {v : τ}

theorem allFields_iff (h : shape.tags.Nodup) {P : shape.Field → Prop} :
    shape.AllFields P v ↔ ∀ t field, shape.getField? t v = some field → P field := by
  induction shape with
  | nil => exact ⟨fun _ _ field ↦ field.elim, fun _ ↦ trivial⟩
  | cons tag β shape ih =>
    obtain ⟨hfresh, hnodup⟩ := List.nodup_cons.1 h
    rw [AllFields, ih hnodup]
    constructor
    · rintro ⟨hfirst, hrest⟩ t field hfield
      rw [getField?] at hfield
      split at hfield
      · obtain rfl := Option.some.inj hfield
        exact hfirst
      · obtain ⟨later, hlater, rfl⟩ := Option.map_eq_some_iff.1 hfield
        exact hrest t later hlater
    · intro hall
      refine ⟨hall tag _ (if_pos rfl), fun t field hfield ↦ hall t _ ?_⟩
      have hmem : t ∈ shape.tags := isSome_getField?_iff.1 (Option.isSome_of_eq_some hfield)
      have hne : t ≠ tag := fun heq ↦ hfresh (heq ▸ hmem)
      rw [getField?, if_neg hne, hfield]
      rfl

/-- The encodings of the fields. -/
theorem encode_onlyLimits
    (h : shape.AllFields (fun field ↦ OnlyLimits (shape.encodeFieldValue (depth + 1) field)) v) :
    OnlyLimits ((shape.fields depth).encode v) := by
  induction shape with
  | nil => exact onlyLimits_ok []
  | cons tag β shape ih =>
    obtain ⟨hfirst, hrest⟩ := h
    exact OnlyLimits.bind hfirst fun _ _ ↦ (ih hrest).bind fun _ _ ↦ onlyLimits_ok _

theorem allFields_of_encode {ps : List Bytes} (h : (shape.fields depth).encode v = .ok ps) :
    shape.AllFields (fun field ↦ OnlyLimits (shape.encodeFieldValue (depth + 1) field)) v := by
  induction shape generalizing ps with
  | nil => trivial
  | cons tag β shape ih =>
    obtain ⟨first, hfirst, h⟩ := bind_eq_ok.1 h
    obtain ⟨rest, hrest, -⟩ := bind_eq_ok.1 h
    exact ⟨onlyLimits_of_eq_ok hfirst, ih hrest⟩

theorem encodeRecordValue_onlyLimits (hshape : shape.wellFormed = true)
    (h : shape.AllFields (fun field ↦ OnlyLimits (shape.encodeFieldValue (depth + 1) field)) v) :
    OnlyLimits ((shape.fields depth).encodeRecordValue depth v) := by
  obtain ⟨hsorted, -⟩ := wellFormed_iff.1 hshape
  refine (onlyLimits_rejectIf _).bind fun _ _ ↦ (encode_onlyLimits h).bind fun ps hps ↦
    encodeRecord_onlyLimits ?_
  rw [List.map_fst_zip (Nat.le_of_eq ((shape.exact_fields hsorted depth).length_eq hps).symm),
    shape.fields_tags]
  exact hsorted.imp UInt32.ne_of_lt

theorem allFields_of_encodeRecordValue {bs : Bytes}
    (h : (shape.fields depth).encodeRecordValue depth v = .ok bs) :
    shape.AllFields (fun field ↦ OnlyLimits (shape.encodeFieldValue (depth + 1) field)) v := by
  obtain ⟨-, -, h⟩ := bind_eq_ok.1 h
  obtain ⟨ps, hps, -⟩ := bind_eq_ok.1 h
  exact allFields_of_encode hps

end RecordShape

/-! ### Bodies -/

theorem encodeLimits_onlyLimits (depth : Nat) (limits : ResourceLimits) :
    OnlyLimits (encodeNested depth limits) := by
  refine encodeAtDepth_onlyLimits (RecordShape.encodeRecordValue_onlyLimits rfl ?_)
  have hword (word : UInt64) : OnlyLimits (encodeNested (depth + 1) word) :=
    encodeAtDepth_onlyLimits (onlyLimits_ok (encodeUvar word))
  exact ⟨hword _, hword _, hword _, hword _, hword _, hword _, trivial⟩

/-- Limits that a contract may leave out. -/
theorem encodeOptionLimits_onlyLimits (depth : Nat) (limits : Option ResourceLimits) :
    OnlyLimits (encodeNested depth limits) := by
  refine encodeAtDepth_onlyLimits (encodeUnionValue_onlyLimits ?_)
  cases limits with
  | none => exact onlyLimits_ok []
  | some limits => exact encodeLimits_onlyLimits (depth + 1) limits

section Bodies

variable [HostLayout]

variable {depth : Nat}

theorem encodeContract_onlyLimits {body : ContractBody}
    (h : contractLayout.shape.AllFields (fun field ↦
      OnlyLimits (contractLayout.shape.encodeFieldValue (depth + 1) field))
        (contractLayout.equiv body)) :
    OnlyLimits (encodeContract depth body) := by
  obtain ⟨htarget, hkind, hpredicate, hbindings, -⟩ := h
  rw [encodeContract]
  split
  · exact RecordShape.encodeRecordValue_onlyLimits rfl
      ⟨htarget, hkind, hpredicate, hbindings, trivial⟩
  · exact RecordShape.encodeRecordValue_onlyLimits rfl
      ⟨htarget, hkind, hpredicate, hbindings, encodeLimits_onlyLimits _ _, trivial⟩

theorem allFields_of_encodeContract {body : ContractBody} {bs : Bytes}
    (h : encodeContract depth body = .ok bs) :
    contractLayout.shape.AllFields (fun field ↦
      OnlyLimits (contractLayout.shape.encodeFieldValue (depth + 1) field))
        (contractLayout.equiv body) := by
  have hlimits : OnlyLimits (encodeNested (depth + 1) body.resourceLimits) :=
    encodeOptionLimits_onlyLimits _ _
  rw [encodeContract] at h
  split at h
  · obtain ⟨htarget, hkind, hpredicate, hbindings, -⟩ :=
      RecordShape.allFields_of_encodeRecordValue h
    exact ⟨htarget, hkind, hpredicate, hbindings, hlimits, trivial⟩
  · obtain ⟨htarget, hkind, hpredicate, hbindings, -⟩ :=
      RecordShape.allFields_of_encodeRecordValue h
    exact ⟨htarget, hkind, hpredicate, hbindings, hlimits, trivial⟩

variable {kind : EntityKind} {body : kind.Body}

theorem encodeBody_onlyLimits (h : kind.layout.shape.AllFields (fun field ↦
      OnlyLimits (kind.layout.shape.encodeFieldValue (depth + 1) field)) (kind.layout.equiv body)) :
    OnlyLimits (encodeValue depth body) := by
  cases kind
  case contract => exact encodeContract_onlyLimits h
  all_goals exact RecordShape.encodeRecordValue_onlyLimits rfl h

theorem allFields_of_encodeBody {bs : Bytes} (h : encodeValue depth body = .ok bs) :
    kind.layout.shape.AllFields (fun field ↦
      OnlyLimits (kind.layout.shape.encodeFieldValue (depth + 1) field))
        (kind.layout.equiv body) := by
  cases kind
  case contract => exact allFields_of_encodeContract h
  all_goals exact RecordShape.allFields_of_encodeRecordValue h

/-- **A body of fields that each have an encoding has an encoding**, limits aside. -/
theorem encodeExact_onlyLimits
    (h : ∀ t field, kind.fields.read t body = some field →
      OnlyLimits (kind.layout.shape.encodeFieldValue 2 field)) :
    OnlyLimits (encodeExact (⟨kind, body⟩ : EntityBodyValue)) := by
  refine encodeAtDepth_onlyLimits (encodeUnionValue_onlyLimits (encodeAtDepth_onlyLimits ?_))
  refine encodeBody_onlyLimits ((RecordShape.allFields_iff ?_).2 h)
  exact kind.tags_sorted.imp UInt32.ne_of_lt

/-- Each field of a body that is encoded has an encoding, limits aside. -/
theorem field_onlyLimits_of_encodeExact {bs : Bytes}
    (h : encodeExact (⟨kind, body⟩ : EntityBodyValue) = .ok bs) {t : UInt32}
    {field : kind.layout.shape.Field} (hfield : kind.fields.read t body = some field) :
    OnlyLimits (kind.layout.shape.encodeFieldValue 2 field) := by
  obtain ⟨_, hunion⟩ := ok_of_encodeAtDepth h
  obtain ⟨_, hpayload⟩ := ok_of_encodeUnionValue hunion
  obtain ⟨_, hbody⟩ := ok_of_encodeAtDepth hpayload
  have hnodup : kind.layout.shape.tags.Nodup := kind.tags_sorted.imp UInt32.ne_of_lt
  exact (RecordShape.allFields_iff hnodup).1 (allFields_of_encodeBody hbody) t field hfield

end Bodies

/-! ### Objects -/

section Objects

variable [HostLayout] [Blake3] [UnicodeNormalization]

variable {record : EntityObjectRecord}

/-- **An object whose body and label have an encoding is built**, limits aside. -/
theorem buildEntityObject_onlyLimits {epoch : SchemaEpochId}
    (hbody : OnlyLimits (encodeExact record.body))
    (hlabel : OnlyLimits (labelFields record.label)) :
    OnlyLimits (buildEntityObject epoch record) := by
  refine OnlyLimits.bind (OnlyLimits.bind ?_ fun fields hfields ↦ ?_) fun payload _ ↦
    OnlyLimits.bind ((onlyLimits_rejectIf _).bind fun _ _ ↦ onlyLimits_ok _) fun preimage _ ↦
      (onlyLimits_rejectIf _).bind fun _ _ ↦ onlyLimits_ok _
  · exact hbody.bind fun _ _ ↦ hlabel.bind fun _ _ ↦ onlyLimits_ok _
  · obtain ⟨body, label, -, hlabel, rfl⟩ := encodeObjectFields_eq_ok.1 hfields
    refine encodeRecord_onlyLimits ?_
    -- a label is field 3, a fingerprint field 4
    obtain ⟨-, rfl⟩ | ⟨text, p, -, -, rfl⟩ := labelFields_eq_ok.1 hlabel <;>
      cases record.semanticFingerprint <;> simp [fingerprintFields]

/-- The label of an object that was built has an encoding. -/
theorem onlyLimits_of_buildEntityObject {epoch : SchemaEpochId}
    {object : EntityObject} (h : buildEntityObject epoch record = .ok object) :
    (∃ bs, encodeExact record.body = .ok bs) ∧ OnlyLimits (labelFields record.label) := by
  obtain ⟨payload, hpayload, -⟩ := bind_eq_ok.1 h
  obtain ⟨fields, hfields, -⟩ := bind_eq_ok.1 hpayload
  obtain ⟨body, label, hbody, hlabel, -⟩ := encodeObjectFields_eq_ok.1 hfields
  exact ⟨⟨body, hbody⟩, onlyLimits_of_eq_ok hlabel⟩

end Objects

end Sley.Mutate
