import Sley.Scb1.Value

/-!
# Whole inputs, and records read into slots

Two patterns of the decoders built on `ScbValueCursor`: a value that is all of its input
(`readWhole`), and a field that must have one value (`expect`).

A record with optional fields is read in a loop: each tag must be above the one before, and its
payload goes into the slot of that tag. **The loop is a fold over the fields it consumes**
(`foldFields_eq_ok`), so a decoder of that kind is understood without its cursor: which lists of
fields, in ascending order of their tags, fill the slots of which record.

`AscendingFields.uncons` takes such a list apart by tag: the next tag is either the first one that
may come or it does not occur at all.
-/

namespace Sley.Scb1

/-- One field of a record: a tag and the payload behind it. -/
abbrev Field := UInt32 × Bytes

namespace Reader

/-- A 32-bit field tag. -/
def readTag : ScbReader UInt32 := do
  let tag ← (readUvar · 32)
  return tag.toUInt32

theorem readTag_eq_ok {r r' : Reader} {tag : UInt32} :
    readTag.run r = .ok (tag, r') ↔ r.Consumes (Leb128.encode tag.toNat) r' := by
  simp only [readTag, StateT.run_bind_eq_ok, StateT.run_pure_eq_ok]
  constructor
  · rintro ⟨v, _, hv, rfl, rfl⟩
    obtain ⟨hlt, hcons⟩ := readU32_eq_ok.1 hv
    rwa [UInt64.toNat_toUInt32, Nat.mod_eq_of_lt hlt]
  · intro hcons
    have htag : tag.toUInt64.toNat = tag.toNat := UInt32.toNat_toUInt64 tag
    refine ⟨tag.toUInt64, r', readU32_eq_ok.2 ⟨by rw [htag]; exact tag.toNat_lt, ?_⟩,
      (UInt32.toUInt32_toUInt64 tag).symm, rfl⟩
    rwa [htag]

section Patterns

variable {α : Type}

/-- Read all of `input` at a cursor of its own. -/
def readWhole (p : ScbReader α) (input : Bytes) : Result α := do
  let cursor ← new input
  let (value, cursor) ← p.run cursor
  cursor.checkFinished
  return value

theorem readWhole_eq_ok {p : ScbReader α} (emits : α → Bytes → Prop)
    (h : ∀ {r r' : Reader} {v : α}, p.run r = .ok (v, r') ↔ ∃ bs, emits v bs ∧ r.Consumes bs r')
    {input : Bytes} {v : α} :
    readWhole p input = .ok v ↔ input.length ≤ maxStandaloneBytes ∧ emits v input := by
  simp only [readWhole, Except.bind_eq_ok, new_eq_ok, Prod.exists, h, checkFinished_eq_ok,
    exists_const, Except.pure_eq_ok]
  constructor
  · rintro ⟨_, ⟨hlen, rfl⟩, _, c, ⟨bs, hbs, hcons⟩, hfin, rfl⟩
    have hinput := hcons.rest_eq
    rw [Cursor.new_rest, hfin, List.append_nil] at hinput
    exact ⟨hlen, hinput ▸ hbs⟩
  · rintro ⟨hlen, hemits⟩
    obtain ⟨c, hcons, hfin⟩ := Cursor.exists_consumes_of_rest
      (show (Cursor.new input).rest = input ++ [] by rw [Cursor.new_rest, List.append_nil])
    exact ⟨_, ⟨hlen, rfl⟩, v, c, ⟨input, hemits, hcons⟩, hfin, rfl⟩

/-- An input whose last `n` bytes are a trailer. -/
theorem eq_append_trailer_iff {n : Nat} {input preimage trailer : List α} (h : trailer.length = n) :
    input = preimage ++ trailer ↔ n ≤ input.length ∧
      input.take (input.length - n) = preimage ∧ input.drop (input.length - n) = trailer := by
  constructor
  · rintro rfl
    have hlength : (preimage ++ trailer).length - n = preimage.length := by
      rw [List.length_append, h, Nat.add_sub_cancel]
    rw [hlength, List.take_left, List.drop_left, List.length_append, h]
    exact ⟨Nat.le_add_left _ _, rfl, rfl⟩
  · rintro ⟨-, rfl, rfl⟩
    exact (List.take_append_drop _ _).symm

/-- Read a value that is fixed in advance. -/
def expect [DecidableEq α] (p : ScbReader α) (value : α) (e : ScbErrorCode) : ScbReader α := do
  let actual ← p
  StateT.ofExcept (Except.rejectIf (actual ≠ value) e)
  return actual

theorem expect_eq_ok [DecidableEq α] {p : ScbReader α} {value v : α} {e : ScbErrorCode}
    {r r' : Reader} :
    (expect p value e).run r = .ok (v, r') ↔ v = value ∧ p.run r = .ok (value, r') := by
  simp only [expect, StateT.run_bind_eq_ok, StateT.run_ofExcept_eq_ok, Except.rejectIf_eq_ok,
    StateT.run_pure_eq_ok, not_not]
  constructor
  · rintro ⟨_, _, hread, _, _, ⟨rfl, rfl⟩, rfl, rfl⟩
    exact ⟨rfl, hread⟩
  · rintro ⟨rfl, hread⟩
    exact ⟨_, _, hread, (), _, ⟨rfl, rfl⟩, rfl, rfl⟩

end Patterns

end Reader

/-- A tag that repeats the one before, or stands below it, is refused. -/
def checkFieldOrder (previous : Option UInt32) (tag : UInt32) : Result Unit := do
  Except.rejectIf (previous = some tag) .fieldDuplicate
  Except.rejectIf (previous.any fun prior ↦ decide (tag < prior)) .fieldOrder

theorem checkFieldOrder_eq_ok {previous : Option UInt32} {tag : UInt32} {u : Unit} :
    checkFieldOrder previous tag = .ok u ↔ ∀ q ∈ previous, q < tag := by
  simp only [checkFieldOrder, Except.bind_eq_ok, Except.rejectIf_eq_ok, exists_const]
  cases previous with
  | none => simp
  | some q =>
    simp only [Option.mem_some_iff, forall_eq', Option.some.injEq, Option.any_some,
      decide_eq_true_eq]
    rw [UInt32.not_lt, UInt32.lt_iff_le_and_ne, and_comm]

/-- Fields in strictly ascending order of their tags, which are all above `bound`. -/
def AscendingFields : Option UInt32 → List Field → Prop
  | _, [] => True
  | bound, field :: fields => (∀ q ∈ bound, q < field.1) ∧ AscendingFields (some field.1) fields

namespace AscendingFields

variable {fields : List Field}

theorem above {q : UInt32} (h : AscendingFields (some q) fields) : ∀ f ∈ fields, q < f.1 := by
  induction fields generalizing q with
  | nil => simp
  | cons f fs ih =>
    have hq : q < f.1 := h.1 q rfl
    exact List.forall_mem_cons.2 ⟨hq, fun g hg ↦ UInt32.lt_trans hq (ih h.2 g hg)⟩

theorem sorted {bound : Option UInt32} (h : AscendingFields bound fields) :
    (fields.map Prod.fst).Pairwise (· < ·) := by
  induction fields generalizing bound with
  | nil => exact .nil
  | cons f fs ih =>
    refine List.pairwise_cons.2 ⟨fun t ht ↦ ?_, ih h.2⟩
    obtain ⟨g, hg, rfl⟩ := List.mem_map.1 ht
    exact above h.2 g hg

/-- The next tag comes first, or not at all. -/
theorem uncons {bound : Option UInt32} {k : UInt32}
    (h : AscendingFields bound fields) (hk : ∀ f ∈ fields, k ≤ f.1) :
    (∃ p rest, fields = (k, p) :: rest ∧ AscendingFields (some k) rest) ∨
      AscendingFields (some k) fields := by
  cases fields with
  | nil => exact .inr trivial
  | cons f fs =>
    obtain ⟨t, p⟩ := f
    by_cases ht : t = k
    · subst ht
      exact .inl ⟨p, fs, rfl, h.2⟩
    · refine .inr ⟨fun q hq ↦ ?_, h.2⟩
      obtain rfl := Option.mem_some_iff.1 hq
      exact UInt32.lt_of_le_of_ne (hk _ List.mem_cons_self) (Ne.symm ht)

theorem unconsNext {q k : UInt32} (h : AscendingFields (some q) fields)
    (hk : q.toNat + 1 = k.toNat) :
    (∃ p rest, fields = (k, p) :: rest ∧ AscendingFields (some k) rest) ∨
      AscendingFields (some k) fields :=
  h.uncons fun f hf ↦ UInt32.le_iff_toNat_le.2 (hk ▸ UInt32.lt_iff_toNat_lt.1 (h.above f hf))

end AscendingFields

section Fold

variable {σ : Type}

/-- The loop over the fields of a record; `fill` decodes a payload into its slot. -/
def foldFields (fill : UInt32 → Bytes → σ → Result σ) : Nat → Option UInt32 → σ → ScbReader σ
  | 0, _, slots => return slots
  | n + 1, previous, slots => do
    let tag ← Reader.readTag
    StateT.ofExcept (checkFieldOrder previous tag)
    let payload ← Reader.readSizedPayload
    let slots ← StateT.ofExcept (fill tag payload slots)
    foldFields fill n (some tag) slots

/-- Fill the slots from a list of fields. -/
def fillFields (fill : UInt32 → Bytes → σ → Result σ) : List Field → σ → Result σ
  | [], slots => .ok slots
  | (tag, payload) :: fields, slots => do
    let slots ← fill tag payload slots
    fillFields fill fields slots

variable {fill : UInt32 → Bytes → σ → Result σ}

theorem fillFields_cons_eq_ok {tag : UInt32} {p : Bytes} {fields : List Field} {slots slots' : σ} :
    fillFields fill ((tag, p) :: fields) slots = .ok slots' ↔
      ∃ mid, fill tag p slots = .ok mid ∧ fillFields fill fields mid = .ok slots' :=
  Except.bind_eq_ok

/-- **The loop folds over the fields it consumes.** -/
theorem foldFields_eq_ok {n : Nat} {previous : Option UInt32} {slots slots' : σ} {r r' : Reader} :
    (foldFields fill n previous slots).run r = .ok (slots', r') ↔
      ∃ fields : List Field, fields.length = n ∧ AscendingFields previous fields ∧
        (∀ f ∈ fields, f.2.length ≤ maxStandaloneBytes) ∧
        r.Consumes (fields.flatMap fun f ↦ taggedBytes f.1 f.2) r' ∧
        fillFields fill fields slots = .ok slots' := by
  induction n generalizing previous slots r with
  | zero =>
    rw [foldFields, StateT.run_pure_eq_ok]
    constructor
    · rintro ⟨rfl, rfl⟩
      exact ⟨[], rfl, trivial, by simp, Cursor.Consumes.refl _, rfl⟩
    · rintro ⟨fields, hlen, -, -, hcons, hfill⟩
      obtain rfl := List.length_eq_zero_iff.1 hlen
      exact ⟨(Except.ok.inj hfill).symm, hcons.unique (Cursor.Consumes.refl _)⟩
  | succ n ih =>
    simp only [foldFields, StateT.run_bind_eq_ok, StateT.run_ofExcept_eq_ok, Reader.readTag_eq_ok,
      checkFieldOrder_eq_ok, Reader.readSizedPayload_eq_ok, ih]
    constructor
    · rintro ⟨tag, r₁, htag, _, _, ⟨hlt, rfl⟩, p, r₂, ⟨hp, hpayload⟩, mid, _, ⟨hmid, rfl⟩,
        fields, hlen, hasc, hle, hcons, hfill⟩
      refine ⟨(tag, p) :: fields, by rw [List.length_cons, hlen], ⟨hlt, hasc⟩,
        List.forall_mem_cons.2 ⟨hp, hle⟩, ?_, fillFields_cons_eq_ok.2 ⟨mid, hmid, hfill⟩⟩
      exact (htag.trans hpayload).trans hcons
    · rintro ⟨fields, hlen, hasc, hle, hcons, hfill⟩
      obtain ⟨⟨tag, p⟩, fields, rfl⟩ := List.exists_cons_of_length_eq_add_one hlen
      obtain ⟨hp, hle⟩ := List.forall_mem_cons.1 hle
      obtain ⟨mid, hmid, hfill⟩ := fillFields_cons_eq_ok.1 hfill
      rw [List.flatMap_cons, Cursor.consumes_append_iff] at hcons
      obtain ⟨r₂, hfield, hcons⟩ := hcons
      rw [taggedBytes, Cursor.consumes_append_iff] at hfield
      obtain ⟨r₁, htag, hpayload⟩ := hfield
      exact ⟨tag, r₁, htag, (), r₁, ⟨hasc.1, rfl⟩, p, r₂, ⟨hp, hpayload⟩, mid, r₂, ⟨hmid, rfl⟩,
        fields, Nat.succ.inj hlen, hasc.2, hle, hcons, hfill⟩

end Fold

end Sley.Scb1
