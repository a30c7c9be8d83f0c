import Sley.Scb1.Fields

/-!
# Canonical containers

Records and maps are written alike: sort the entries by their keys (a tag, the bytes of a key),
refuse a key that repeats, and write a count and the entries in turn. A container is therefore a
set of entries and not a list of them: **two inputs have one encoding exactly when they arrange the
same entries** (`Container.encode_eq_ok_iff_perm`), and an input with a repeated key has none.

What makes an encoding determine its entries is that each entry is self-delimiting
(`SelfDelimiting`), and that holds of framed payloads as of tagged ones. Both kinds of container
carry this as a field.
-/

namespace Sley.Scb1

open Except (ofOption rejectIf)
open List (append_assoc)

/-! ### Self-delimiting pieces -/

/-- No piece begins another one, so that a sequence of pieces can be taken apart again. -/
def SelfDelimiting {α : Type} (bytes : α → Bytes) : Prop :=
  ∀ ⦃a b : α⦄ ⦃x y : Bytes⦄, bytes a ++ x = bytes b ++ y → a = b ∧ x = y

namespace SelfDelimiting

variable {α : Type} {bytes : α → Bytes} {as bs : List α} {x y : Bytes}

section

variable (h : SelfDelimiting bytes)

include h

theorem comp {β : Type} {f : β → α} (hf : Function.Injective f) : SelfDelimiting (bytes ∘ f) := by
  intro a b x y heq
  obtain ⟨hab, hxy⟩ := h heq
  exact ⟨hf hab, hxy⟩

theorem flatMap_append_inj (hlen : as.length = bs.length)
    (heq : as.flatMap bytes ++ x = bs.flatMap bytes ++ y) : as = bs ∧ x = y := by
  induction as generalizing bs with
  | nil =>
    obtain rfl := List.length_eq_zero_iff.1 hlen.symm
    exact ⟨rfl, heq⟩
  | cons a as ih =>
    obtain ⟨b, bs, rfl⟩ := List.exists_cons_of_length_eq_add_one hlen.symm
    rw [List.flatMap_cons, List.flatMap_cons, append_assoc, append_assoc] at heq
    obtain ⟨rfl, hrest⟩ := h heq
    obtain ⟨rfl, hxy⟩ := ih (Nat.succ.inj hlen) hrest
    exact ⟨rfl, hxy⟩

/-- **A count and as many pieces are self-delimiting again.** -/
theorem counted : SelfDelimiting fun as : List α ↦ Leb128.encode as.length ++ as.flatMap bytes := by
  intro as bs x y heq
  rw [append_assoc, append_assoc] at heq
  obtain ⟨hlen, heq⟩ := Leb128.encode_append_inj heq
  exact h.flatMap_append_inj hlen heq

theorem injective : Function.Injective bytes := by
  intro a b hab
  exact (h (x := []) (y := []) (by rw [hab])).1

end

end SelfDelimiting

theorem selfDelimiting_sizedBytes : SelfDelimiting sizedBytes := by
  intro p p' x y h
  rw [sizedBytes, sizedBytes, append_assoc, append_assoc] at h
  obtain ⟨hlen, h⟩ := Leb128.encode_append_inj h
  exact List.append_inj h hlen

theorem selfDelimiting_taggedBytes : SelfDelimiting fun f : Field ↦ taggedBytes f.1 f.2 := by
  intro f f' x y h
  simp only [taggedBytes, append_assoc] at h
  obtain ⟨htag, h⟩ := Leb128.encode_append_inj h
  obtain ⟨hpayload, h⟩ := selfDelimiting_sizedBytes h
  exact ⟨Prod.ext (UInt32.toNat_inj.1 htag) hpayload, h⟩

theorem selfDelimiting_entryBytes : SelfDelimiting entryBytes := by
  intro e e' x y h
  rw [entryBytes, entryBytes, append_assoc, append_assoc] at h
  obtain ⟨hkey, h⟩ := selfDelimiting_sizedBytes h
  obtain ⟨hvalue, h⟩ := selfDelimiting_sizedBytes h
  exact ⟨Prod.ext hkey hvalue, h⟩

/-! ### Containers -/

/-- A kind of container: how many entries it may have, how a repeated key is refused, and how the
entries are written once they are in order. -/
structure Container (κ : Type) where
  limit : Nat
  duplicate : ScbErrorCode
  /-- The encoder of the body. -/
  encodeAll : List (κ × Bytes) → Result Bytes
  /-- The entry has an encoding. -/
  Fits : κ × Bytes → Prop
  bytes : κ × Bytes → Bytes
  limit_lt : limit < 2 ^ 64
  encodeAll_eq_ok : ∀ {entries bs}, encodeAll entries = .ok bs ↔
    (∀ e ∈ entries, Fits e) ∧ bs = entries.flatMap bytes
  encodeAll_ne_duplicate : ∀ {entries}, encodeAll entries ≠ .error duplicate
  duplicate_ne : duplicate ≠ .resourceLimit
  delimits : SelfDelimiting bytes

namespace Container

variable {κ : Type} (c : Container κ)

/-- What is written of a container: a count and the entries in turn. -/
def written (entries : List (κ × Bytes)) : Bytes :=
  Leb128.encode entries.length ++ entries.flatMap c.bytes

/-- Sort, refuse what repeats, and write. -/
def encode [Ord κ] [DecidableEq κ] (entries : List (κ × Bytes)) : Result Bytes := do
  rejectIf (entries.length > c.limit) .resourceLimit
  let ordered ← ofOption c.duplicate (sortUnique Prod.fst entries)
  let body ← c.encodeAll ordered
  return encodeCount entries.length ++ body

variable {c} {entries entries' : List (κ × Bytes)} {bs : Bytes}

/-- **What is written determines the entries, in order.** -/
theorem written_injective : Function.Injective c.written := c.delimits.counted.injective

variable [Ord κ] [DecidableEq κ] [Std.TransOrd κ] [Std.LawfulEqOrd κ]

/-- The encoding is that of the one ascending arrangement. -/
theorem encode_eq_ok : c.encode entries = .ok bs ↔ entries.length ≤ c.limit ∧
    ∃ ordered : List (κ × Bytes), ordered.Perm entries ∧ Ascends Prod.fst ordered ∧
      (∀ e ∈ ordered, c.Fits e) ∧ bs = c.written ordered := by
  simp only [encode, Except.bind_eq_ok, Except.rejectIf_eq_ok, exists_const, Except.ofOption_eq_ok,
    sortUnique_eq_some, c.encodeAll_eq_ok, Except.pure_eq_ok, gt_iff_lt, Nat.not_lt]
  refine and_congr_right fun hlen ↦ exists_congr fun ordered ↦ ?_
  rw [encodeCount_eq (hlen.trans_lt c.limit_lt), written]
  constructor
  · rintro ⟨⟨hperm, hasc⟩, _, ⟨hfits, rfl⟩, rfl⟩
    exact ⟨hperm, hasc, hfits, by rw [hperm.length_eq]⟩
  · rintro ⟨hperm, hasc, hfits, rfl⟩
    exact ⟨⟨hperm, hasc⟩, _, ⟨hfits, rfl⟩, by rw [hperm.length_eq]⟩

/-- **The order of the input does not matter**, neither to an encoding nor to a refusal. -/
theorem encode_congr (h : entries.Perm entries') : c.encode entries = c.encode entries' := by
  rw [encode, encode, h.length_eq, sortUnique_congr h]

/-- **A repeated key is refused**, and nothing else is refused that way. -/
theorem encode_eq_duplicate : c.encode entries = .error c.duplicate ↔
    entries.length ≤ c.limit ∧ ¬ (entries.map Prod.fst).Nodup := by
  rw [← sortUnique_eq_none_iff, encode]
  by_cases hlen : entries.length ≤ c.limit
  · rw [rejectIf, if_neg (Nat.not_lt.2 hlen), Except.ok_bind]
    cases hsort : sortUnique Prod.fst entries with
    | none => simp [ofOption, hlen]
    | some ordered =>
      cases hbody : c.encodeAll ordered with
      | ok body => simp [ofOption, hbody]
      | error e =>
        have hne : e ≠ c.duplicate := fun h ↦ c.encodeAll_ne_duplicate (h ▸ hbody)
        simp [ofOption, hbody, hne]
  · rw [rejectIf, if_pos (Nat.not_le.1 hlen)]
    simp [hlen, c.duplicate_ne.symm]

theorem nodup_of_encode_eq_ok (h : c.encode entries = .ok bs) : (entries.map Prod.fst).Nodup := by
  obtain ⟨-, ordered, hperm, hasc, -⟩ := encode_eq_ok.1 h
  exact (hperm.map Prod.fst).nodup_iff.1 hasc.nodup_keys

/-- **An encoding tells which entries are in a container, and nothing of their order.** -/
theorem encode_eq_ok_iff_perm (h : c.encode entries = .ok bs) :
    c.encode entries' = .ok bs ↔ entries'.Perm entries := by
  constructor
  · intro h'
    obtain ⟨-, ordered, hperm, -, -, rfl⟩ := encode_eq_ok.1 h
    obtain ⟨-, ordered', hperm', -, -, hwritten⟩ := encode_eq_ok.1 h'
    rw [← written_injective hwritten] at hperm'
    exact hperm'.symm.trans hperm
  · intro hperm
    rw [encode_congr hperm, h]

/-- Entries in order are written in that order. -/
theorem encode_eq_ok_of_ascends (hasc : Ascends Prod.fst entries) :
    c.encode entries = .ok bs ↔ entries.length ≤ c.limit ∧ (∀ e ∈ entries, c.Fits e) ∧
      bs = c.written entries := by
  rw [encode_eq_ok]
  refine and_congr_right fun _ ↦ ⟨?_, fun ⟨hfits, hbs⟩ ↦ ⟨entries, .refl _, hasc, hfits, hbs⟩⟩
  rintro ⟨ordered, hperm, hasc', hfits, rfl⟩
  obtain rfl := hasc'.eq_of_perm hasc hperm
  exact ⟨hfits, rfl⟩

end Container

/-! ### Maps and records -/

theorem encodeSized_eq_error {payload : Bytes} {e : ScbErrorCode}
    (h : encodeSized payload = .error e) : e = .resourceLimit := by
  by_cases hlen : payload.length > maxStandaloneBytes
  · rw [encodeSized, rejectIf, if_pos hlen] at h
    exact (Except.error.inj h).symm
  · rw [encodeSized, rejectIf, if_neg hlen] at h
    cases h

theorem encodeEntries_eq_error {entries : List (Bytes × Bytes)} {e : ScbErrorCode}
    (h : encodeEntries entries = .error e) : e = .resourceLimit := by
  induction entries with
  | nil => cases h
  | cons entry entries ih =>
    rw [encodeEntries] at h
    cases hkey : encodeSized entry.1 with
    | error e' => simp_all [encodeSized_eq_error hkey]
    | ok first =>
      cases hvalue : encodeSized entry.2 with
      | error e' => simp_all [encodeSized_eq_error hvalue]
      | ok second =>
        cases hrest : encodeEntries entries with
        | error e' => simp_all
        | ok rest => simp_all

theorem encodeFields_eq_error {fields : List Field} {e : ScbErrorCode}
    (h : encodeFields fields = .error e) : e = .resourceLimit := by
  induction fields with
  | nil => cases h
  | cons field fields ih =>
    rw [encodeFields] at h
    cases hvalue : encodeSized field.2 with
    | error e' => simp_all [encodeSized_eq_error hvalue]
    | ok first =>
      cases hrest : encodeFields fields with
      | error e' => simp_all
      | ok rest => simp_all

/-- Maps: the keys are ordered by their bytes. -/
def mapContainer : Container Bytes where
  limit := maxCollectionElements
  duplicate := .mapDuplicate
  encodeAll := encodeEntries
  Fits e := e.1.length ≤ maxStandaloneBytes ∧ e.2.length ≤ maxStandaloneBytes
  bytes := entryBytes
  limit_lt := by decide
  encodeAll_eq_ok := encodeEntries_eq_ok
  encodeAll_ne_duplicate h := nomatch encodeEntries_eq_error h
  duplicate_ne := by decide
  delimits := selfDelimiting_entryBytes

theorem encodeMap_eq_encode : encodeMap = mapContainer.encode := rfl

/-- Records: the fields are ordered by their tags. -/
def recordContainer : Container UInt32 where
  limit := maxRecordFields
  duplicate := .fieldDuplicate
  encodeAll := encodeFields
  Fits f := f.2.length ≤ maxStandaloneBytes
  bytes f := taggedBytes f.1 f.2
  limit_lt := by decide
  encodeAll_eq_ok := encodeFields_eq_ok
  encodeAll_ne_duplicate h := nomatch encodeFields_eq_error h
  duplicate_ne := by decide
  delimits := selfDelimiting_taggedBytes

theorem encodeRecord_eq_encode : encodeRecord = recordContainer.encode := by
  funext fields
  have hle : ∀ a b : UInt32, decide (a ≤ b) = (compare a b).isLE := fun a b ↦ by
    rw [Bool.eq_iff_iff, decide_eq_true_iff, Std.isLE_compare]
  simp only [encodeRecord, Container.encode, sortUnique, hle]
  refine bind_congr fun _ ↦ ?_
  by_cases hchain : (fields.mergeSort fun a b ↦ (compare a.1 b.1).isLE).IsChain
      fun a b ↦ a.1 ≠ b.1
  · rw [if_pos hchain, rejectIf, if_neg (not_not.2 hchain)]
    rfl
  · rw [if_neg hchain, rejectIf, if_pos hchain]
    rfl

end Sley.Scb1
