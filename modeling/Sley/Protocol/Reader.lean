import Sley.Protocol.Method
import Sley.Txn.Wire

/-!
# The minimal reader of the protocol

The protocol crate reads SCB1 with a reader of its own (`sley-protocol/src/lib.rs`, `Reader`): its
own varint loop, records, lists, byte strings and unions, one failure code for all of them, and no
size limit other than the input's own length. Every read is of a whole input, which must be used up.

**Each read accepts exactly the bytes that the SCB1 writer would lay out**, without the writer's
limits: `record_eq_ok`, `list_eq_ok`, `bytes_eq_ok`, `union_eq_ok`. The varint loop is compared with
the SCB1 loop turn by turn (`uvarLoop_eq_ok_iff`), not specified anew.
-/

namespace Sley.Protocol

open Scb1 Ssmc Txn
open Except hiding ok error
open Cursor (consumes_append_iff new_rest)
open Cursor.Consumes (refl)
open StateT (run_bind_eq_ok run_pure_eq_ok)
open UInt64 (ofNat toNat_ofNat_of_lt')
open UvarFormat (u64)

def idLen : Nat := 32

/-- A failure of the SCB1 encoder. -/
def scb {α : Type} (x : Scb1.Result α) : Result α := x.mapError fun _ ↦ .internalInvariant

@[simp]
theorem scb_eq_ok {α : Type} {x : Scb1.Result α} {a : α} : scb x = .ok a ↔ x = .ok a :=
  mapError_eq_ok

namespace Reader

/-- Reads at a position of the input. -/
abbrev Read (α : Type) := StateT (Cursor UInt8) Result α

/-! ### Reads -/

def take (count : Nat) : Read Bytes := fun r ↦
  (Scb1.Reader.takeExact r count).mapError fun _ ↦ .frameInvalid

/-- The byte at the offset. -/
def byte (r : Cursor UInt8) : Result (UInt8 × Cursor UInt8) :=
  (Scb1.Reader.readU8 r).mapError fun _ ↦ .frameInvalid

/-- The loop of `uvar`. -/
def uvarLoop (r : Cursor UInt8) (value : BitVec 64) (shift : Nat) :
    Result (BitVec 64 × Cursor UInt8) := do
  let (byte, r) ← byte r
  if _h : shift ≥ 64 ∨ (shift = 63 ∧ byte &&& 0x7e ≠ 0) then
    .error .frameInvalid
  else
    let value := value ||| BitVec.ofNat 64 (byte &&& 0x7f).toNat <<< shift
    if byte &&& 0x80 = 0 then
      -- the last byte of a longer numeral is not zero
      rejectIf (byte = 0 ∧ shift ≠ 0) .frameInvalid
      return (value, r)
    else
      uvarLoop r value (shift + 7)
termination_by 64 - shift

def uvar : Read UInt64 := fun r ↦ do
  let (value, r) ← uvarLoop r 0 0
  return (UInt64.ofBitVec value, r)

/-- A length and so many bytes; `usize` is 64 bits wide. -/
def sized : Read Bytes := do
  let len ← uvar
  take len.toNat

/-- The loop of `record`: the next tag is the expected one. -/
def recordFields : Nat → Nat → Read (List Bytes)
  | 0, _ => return []
  | n + 1, index => do
    let tag ← uvar
    StateT.ofExcept (rejectIf (tag.toNat ≠ index) .frameInvalid)
    let field ← sized
    let fields ← recordFields n (index + 1)
    return field :: fields

/-- The loop of `list`. -/
def listItems : Nat → Read (List Bytes)
  | 0 => return []
  | n + 1 => do
    let item ← sized
    let items ← listItems n
    return item :: items

/-- A read of a whole input. -/
def whole {α : Type} (read : Read α) (input : Bytes) : Result α := do
  let (value, r) ← read.run (Cursor.new input)
  rejectIf (r.isFinished = false) .frameInvalid
  return value

/-- Reads a record with exactly the fields 1 through `expected`. -/
def record (expected : Nat) : Bytes → Result (List Bytes) := whole do
  let count ← uvar
  StateT.ofExcept (rejectIf (count.toNat ≠ expected) .frameInvalid)
  recordFields expected 1

def list (maximum : Nat) : Bytes → Result (List Bytes) := whole do
  let count ← uvar
  StateT.ofExcept (rejectIf (count.toNat > maximum) .limitExceeded)
  listItems count.toNat

def bytes : Bytes → Result Bytes := whole sized

def union : Bytes → Result (UInt64 × Bytes) := whole do
  let tag ← uvar
  let payload ← sized
  return (tag, payload)

end Reader

def fixed32 {kind : IdKind} (input : Bytes) : Result (Id kind) :=
  if h : input.length = 32 then .ok ⟨input, h⟩ else .error .frameInvalid

def singleUvar : Bytes → Result UInt64 := Reader.whole Reader.uvar

def singleU32 (input : Bytes) : Result UInt32 := do
  let value ← singleUvar input
  rejectIf (value.toNat ≥ 2 ^ 32) .frameInvalid
  return value.toUInt32

/-! ### What is read -/

namespace Reader

variable {r r' : Cursor UInt8}

theorem take_eq_ok {count : Nat} {bs : Bytes} :
    (take count).run r = .ok (bs, r') ↔ bs.length = count ∧ r.Consumes bs r' :=
  Except.mapError_eq_ok.trans Scb1.Reader.takeExact_eq_ok

theorem byte_eq_ok {b : UInt8} : byte r = .ok (b, r') ↔ r.Consumes [b] r' :=
  Except.mapError_eq_ok.trans Scb1.Reader.readU8_eq_ok

theorem and_0x7e_eq_zero (b : UInt8) : b &&& 0x7e = 0 ↔ b.toNat % 128 ≤ 1 := by
  have h : ∀ n : Fin 256, UInt8.ofNat n &&& 0x7e = 0 ↔ n.val % 128 ≤ 1 := by decide +kernel
  have := h ⟨b.toNat, b.toNat_lt⟩
  rwa [UInt8.ofNat_toNat] at this

/-- **This loop and the SCB1 loop accept the same numerals.** They differ past the last byte that
fits, where this one stops at once and the other looks at the byte, but neither accepts any. -/
theorem uvarLoop_eq_ok_iff {n : Nat} {value v : BitVec u64.bits} :
    uvarLoop r value (7 * n) = .ok (v, r') ↔
      Scb1.Reader.readUvarLoop .u64 64 r value (7 * n) n = .ok (v, r') := by
  induction hd : 70 - 7 * n using Nat.strong_induction_on generalizing n r value with
  | _ d ih =>
    subst hd
    rw [uvarLoop.eq_def r value (7 * n), Scb1.Reader.readUvarLoop.eq_def .u64 64 r value (7 * n) n]
    simp only [bind_eq_ok, byte_eq_ok, Scb1.Reader.readU8_eq_ok, Prod.exists,
      rejectIf_eq_ok, exists_const, toNat_and_0x7f]
    refine exists_congr fun b ↦ exists_congr fun r₁ ↦ and_congr_right fun _ ↦ ?_
    have hbits : u64.bits = 64 := rfl
    have hlast : u64.lastShift = 63 := rfl
    have hmax : u64.lastMax = 1 := rfl
    have hzero : b = 0 ↔ b.toNat = 0 := by
      rw [← UInt8.toNat_inj]
      rfl
    rcases Nat.lt_or_ge (7 * n) 64 with hlt | hge
    · by_cases hover : 7 * n = 63 ∧ b &&& 0x7e ≠ 0
      · rw [dif_pos (.inr hover)]
        have := hover.2
        rw [ne_eq, and_0x7e_eq_zero] at this
        refine iff_of_false (fun h ↦ by cases h) fun h ↦ h.2.1 ⟨hlt, hover.1, by omega⟩
      · have hover' : ¬ (7 * n = 63 ∧ ¬ b.toNat % 128 ≤ 1) := by rwa [← and_0x7e_eq_zero]
        have hgoes : ¬ (7 * n ≥ 64 ∨ (7 * n = 63 ∧ b &&& 0x7e ≠ 0)) :=
          not_or.2 ⟨Nat.not_le.2 hlt, hover⟩
        have hfits : ¬ (7 * n ≥ u64.bits ∧ b.toNat % 128 ≠ 0) := by omega
        have hfits' : ¬ (7 * n < u64.bits ∧ 7 * n = u64.lastShift ∧
            b.toNat % 128 > u64.lastMax) := by omega
        have hinside : 7 * n < u64.bits := hlt
        rw [dif_neg hgoes, and_iff_right hfits, and_iff_right hfits', if_pos hinside]
        by_cases hstop : b &&& 0x80 = 0
        · rw [if_pos hstop, if_pos hstop]
          rw [and_0x80_eq_zero] at hstop
          simp only [bind_eq_ok, rejectIf_eq_ok, exists_const, hzero]
          refine and_congr (by omega) ?_
          rw [and_iff_right fun h ↦ absurd h.1 (by decide), pure_eq_ok, Except.ok.injEq, eq_comm]
          rfl
        · rw [if_neg hstop, if_neg hstop, if_neg (by omega), show 7 * n + 7 = 7 * (n + 1) by omega]
          exact ih _ (by omega) rfl
    · rw [dif_pos (.inl hge)]
      refine iff_of_false (fun h ↦ by cases h) ?_
      rintro ⟨hpayload, -, h⟩
      split at h
      · simp only [bind_eq_ok, rejectIf_eq_ok, exists_const] at h
        omega
      · rw [if_pos (by omega)] at h
        cases h

theorem uvar_eq_ok {v : UInt64} :
    uvar.run r = .ok (v, r') ↔ r.Consumes (Leb128.encode v.toNat) r' := by
  have hread : Scb1.Reader.readUvarWidth r 64 = .ok (v, r') ↔
      r.Consumes (Leb128.encode v.toNat) r' := by
    rw [Scb1.Reader.readUvarWidth_eq_ok, encodeUvar_eq]
    exact and_iff_right (show v.toNat < 2 ^ UInt8.toNat 64 from v.toNat_lt)
  rw [← hread, Scb1.Reader.readUvarWidth]
  show (uvarLoop r 0 0 >>= _) = _ ↔ _
  rw [bind_eq_ok, bind_eq_ok]
  constructor
  · rintro ⟨⟨value, r₁⟩, hloop, h⟩
    obtain ⟨rfl, rfl⟩ := Prod.mk.inj (Except.ok.inj h)
    exact ⟨(value, r₁), (uvarLoop_eq_ok_iff (n := 0)).1 hloop, rfl⟩
  · rintro ⟨⟨value, r₁⟩, hloop, h⟩
    obtain ⟨rfl, rfl⟩ := Prod.mk.inj (Except.ok.inj h)
    exact ⟨(value, r₁), (uvarLoop_eq_ok_iff (n := 0)).2 hloop, rfl⟩

/-- **A framed payload is read**, whatever its length. -/
theorem sized_eq_ok {payload : Bytes} : sized.run r = .ok (payload, r') ↔
      payload.length < 2 ^ 64 ∧ r.Consumes (sizedBytes payload) r' := by
  simp only [sized, run_bind_eq_ok, uvar_eq_ok, take_eq_ok]
  constructor
  · rintro ⟨len, r₁, hlen, hpayload, hcons⟩
    rw [hpayload]
    refine ⟨len.toNat_lt, ?_⟩
    rw [sizedBytes, hpayload]
    exact hlen.trans hcons
  · rintro ⟨hlt, hcons⟩
    obtain ⟨r₁, hlen, hcons⟩ := hcons.split
    have hnat : (ofNat payload.length).toNat = payload.length := toNat_ofNat_of_lt' hlt
    exact ⟨ofNat payload.length, r₁, by rwa [hnat], hnat.symm, hcons⟩

theorem recordFields_eq_ok {n index : Nat} (h : index + n ≤ 2 ^ 32) {fields : List Bytes} :
    (recordFields n index).run r = .ok (fields, r') ↔
      fields.length = n ∧ (∀ field ∈ fields, field.length < 2 ^ 64) ∧
        r.Consumes ((numbered index fields).flatMap fun field ↦ taggedBytes field.1 field.2) r' := by
  induction n generalizing index fields r r' with
  | zero =>
    rw [recordFields, run_pure_eq_ok, List.length_eq_zero_iff]
    constructor
    · rintro ⟨rfl, rfl⟩
      exact ⟨rfl, by simp, refl _⟩
    · rintro ⟨rfl, -, hcons⟩
      exact ⟨rfl, hcons.unique (refl _)⟩
  | succ n ih =>
    have htag : (UInt32.ofNat index).toNat = index := UInt32.toNat_ofNat_of_lt' (by
      show index < 2 ^ 32
      omega)
    simp only [recordFields, run_bind_eq_ok, StateT.run_ofExcept_eq_ok, rejectIf_eq_ok, uvar_eq_ok,
      sized_eq_ok, not_not, ih (show index + 1 + n ≤ 2 ^ 32 by omega), run_pure_eq_ok]
    constructor
    · rintro ⟨tag, r₁, hread, _, _, ⟨htagEq, rfl⟩, field, r₂, ⟨hlt, hfield⟩, fields, _,
        ⟨hlen, hall, hcons⟩, rfl, rfl⟩
      refine ⟨by rw [List.length_cons, hlen], List.forall_mem_cons.2 ⟨hlt, hall⟩, ?_⟩
      rw [htagEq] at hread
      rw [numbered, List.flatMap_cons, taggedBytes, htag]
      exact (hread.trans hfield).trans hcons
    · rintro ⟨hlen, hall, hcons⟩
      obtain ⟨field, fields, rfl⟩ := List.exists_cons_of_length_eq_add_one hlen
      obtain ⟨hlt, hall⟩ := List.forall_mem_cons.1 hall
      rw [numbered, List.flatMap_cons, consumes_append_iff] at hcons
      obtain ⟨r₂, hfield, hcons⟩ := hcons
      rw [taggedBytes, consumes_append_iff, htag] at hfield
      obtain ⟨r₁, hread, hfield⟩ := hfield
      have hv : (ofNat index).toNat = index := toNat_ofNat_of_lt' (by
        show index < 2 ^ 64
        omega)
      exact ⟨ofNat index, r₁, by rwa [hv], (), r₁, ⟨hv, rfl⟩, field, r₂, ⟨hlt, hfield⟩,
        fields, r', ⟨Nat.succ.inj hlen, hall, hcons⟩, rfl, rfl⟩

theorem listItems_eq_ok {n : Nat} {items : List Bytes} : (listItems n).run r = .ok (items, r') ↔
      items.length = n ∧ (∀ item ∈ items, item.length < 2 ^ 64) ∧
        r.Consumes (items.flatMap sizedBytes) r' := by
  induction n generalizing items r r' with
  | zero =>
    rw [listItems, run_pure_eq_ok, List.length_eq_zero_iff]
    constructor
    · rintro ⟨rfl, rfl⟩
      exact ⟨rfl, by simp, refl _⟩
    · rintro ⟨rfl, -, hcons⟩
      exact ⟨rfl, hcons.unique (refl _)⟩
  | succ n ih =>
    simp only [listItems, run_bind_eq_ok, sized_eq_ok, ih, run_pure_eq_ok]
    constructor
    · rintro ⟨item, r₁, ⟨hlt, hitem⟩, items, _, ⟨hlen, hall, hcons⟩, rfl, rfl⟩
      exact ⟨by rw [List.length_cons, hlen], List.forall_mem_cons.2 ⟨hlt, hall⟩, hitem.trans hcons⟩
    · rintro ⟨hlen, hall, hcons⟩
      obtain ⟨item, items, rfl⟩ := List.exists_cons_of_length_eq_add_one hlen
      obtain ⟨hlt, hall⟩ := List.forall_mem_cons.1 hall
      rw [List.flatMap_cons, consumes_append_iff] at hcons
      obtain ⟨r₁, hitem, hcons⟩ := hcons
      exact ⟨item, r₁, ⟨hlt, hitem⟩, items, r', ⟨Nat.succ.inj hlen, hall, hcons⟩, rfl, rfl⟩

variable {input : Bytes}

/-- A read of a whole input, from what the read consumes. -/
theorem whole_eq_ok {α : Type} {read : Read α} {value : α} (Writes : α → Bytes → Prop)
    (h : ∀ {r r' : Cursor UInt8} {value : α}, read.run r = .ok (value, r') ↔
      ∃ bs, Writes value bs ∧ r.Consumes bs r') :
    whole read input = .ok value ↔ Writes value input := by
  simp only [whole, bind_eq_ok, Prod.exists, rejectIf_eq_ok, exists_const,
    pure_eq_ok, Bool.not_eq_false, Cursor.isFinished_iff]
  constructor
  · rintro ⟨_, r', hread, hfinished, rfl⟩
    obtain ⟨bs, hwrites, hcons⟩ := h.1 hread
    have hrest := hcons.rest_eq
    rw [new_rest, hfinished, List.append_nil] at hrest
    rwa [hrest]
  · intro hwrites
    obtain ⟨r', hcons, hfinished⟩ := Cursor.exists_consumes_of_rest (c := Cursor.new input)
      (show (Cursor.new input).rest = input ++ [] by rw [new_rest, List.append_nil])
    exact ⟨value, r', h.2 ⟨input, hwrites, hcons⟩, hfinished, rfl⟩

/-- The bytes of a list. -/
def listBytes (items : List Bytes) : Bytes :=
  Leb128.encode items.length ++ items.flatMap sizedBytes

theorem record_eq_ok {n : Nat} (hn : n < 2 ^ 31) {fields : List Bytes} :
    record n input = .ok fields ↔ fields.length = n ∧ (∀ field ∈ fields, field.length < 2 ^ 64) ∧
        input = recordBytes fields := by
  refine whole_eq_ok (fun fields bs ↦ fields.length = n ∧
    (∀ field ∈ fields, field.length < 2 ^ 64) ∧ bs = recordBytes fields) ?_
  intro r r' fields
  simp only [run_bind_eq_ok, StateT.run_ofExcept_eq_ok, rejectIf_eq_ok, not_not,
    uvar_eq_ok, recordFields_eq_ok (show 1 + n ≤ 2 ^ 32 by omega)]
  constructor
  · rintro ⟨count, r₁, hcount, _, _, ⟨hn, rfl⟩, hlen, hall, hcons⟩
    refine ⟨_, ⟨hlen, hall, rfl⟩, ?_⟩
    rw [recordBytes, hlen, ← hn]
    exact hcount.trans hcons
  · rintro ⟨_, ⟨hlen, hall, rfl⟩, hcons⟩
    rw [recordBytes, hlen, consumes_append_iff] at hcons
    obtain ⟨r₁, hcount, hcons⟩ := hcons
    have hnat : (ofNat n).toNat = n := toNat_ofNat_of_lt' (by
      show n < 2 ^ 64
      omega)
    exact ⟨ofNat n, r₁, by rwa [hnat], (), r₁, ⟨hnat, rfl⟩, hlen, hall, hcons⟩

theorem list_eq_ok {maximum : Nat} (hmax : maximum < 2 ^ 64) {items : List Bytes} :
    list maximum input = .ok items ↔
      items.length ≤ maximum ∧ (∀ item ∈ items, item.length < 2 ^ 64) ∧
        input = listBytes items := by
  refine whole_eq_ok (fun items bs ↦ items.length ≤ maximum ∧
    (∀ item ∈ items, item.length < 2 ^ 64) ∧ bs = listBytes items) ?_
  intro r r' items
  simp only [run_bind_eq_ok, StateT.run_ofExcept_eq_ok, rejectIf_eq_ok, gt_iff_lt,
    Nat.not_lt, uvar_eq_ok, listItems_eq_ok]
  constructor
  · rintro ⟨count, r₁, hcount, _, _, ⟨hle, rfl⟩, hlen, hall, hcons⟩
    refine ⟨_, ⟨hlen ▸ hle, hall, rfl⟩, ?_⟩
    rw [listBytes, hlen]
    exact hcount.trans hcons
  · rintro ⟨_, ⟨hle, hall, rfl⟩, hcons⟩
    rw [listBytes, consumes_append_iff] at hcons
    obtain ⟨r₁, hcount, hcons⟩ := hcons
    have hnat : (ofNat items.length).toNat = items.length :=
      toNat_ofNat_of_lt' (lt_of_le_of_lt hle hmax)
    exact ⟨ofNat items.length, r₁, by rwa [hnat], (), r₁, ⟨by rwa [hnat], rfl⟩, hnat.symm,
      hall, hcons⟩

theorem bytes_eq_ok {input payload : Bytes} :
    bytes input = .ok payload ↔ payload.length < 2 ^ 64 ∧ input = sizedBytes payload := by
  refine whole_eq_ok (fun payload bs ↦ payload.length < 2 ^ 64 ∧ bs = sizedBytes payload) ?_
  intro r r' payload
  rw [sized_eq_ok]
  constructor
  · rintro ⟨hlt, hcons⟩
    exact ⟨_, ⟨hlt, rfl⟩, hcons⟩
  · rintro ⟨_, ⟨hlt, rfl⟩, hcons⟩
    exact ⟨hlt, hcons⟩

theorem union_eq_ok {input payload : Bytes} {tag : UInt64} : union input = .ok (tag, payload) ↔
      payload.length < 2 ^ 64 ∧ input = Leb128.encode tag.toNat ++ sizedBytes payload := by
  refine whole_eq_ok (fun (value : UInt64 × Bytes) bs ↦ value.2.length < 2 ^ 64 ∧
    bs = Leb128.encode value.1.toNat ++ sizedBytes value.2) ?_
  rintro r r' ⟨tag, payload⟩
  simp only [run_bind_eq_ok, uvar_eq_ok, sized_eq_ok, run_pure_eq_ok, Prod.mk.injEq]
  constructor
  · rintro ⟨tag, r₁, htag, payload, _, ⟨hlt, hcons⟩, ⟨rfl, rfl⟩, rfl⟩
    exact ⟨_, ⟨hlt, rfl⟩, htag.trans hcons⟩
  · rintro ⟨_, ⟨hlt, rfl⟩, hcons⟩
    obtain ⟨r₁, htag, hcons⟩ := hcons.split
    exact ⟨tag, r₁, htag, payload, r', ⟨hlt, hcons⟩, ⟨rfl, rfl⟩, rfl⟩

end Reader

variable {input : Bytes}

theorem fixed32_eq_ok {kind : IdKind} {id : Id kind} :
    fixed32 input = .ok id ↔ input = id.bytes := by
  rw [fixed32]
  split
  · rename_i hlen
    rw [Except.ok.injEq]
    constructor
    · rintro rfl
      rfl
    · rintro rfl
      rfl
  · rename_i hlen
    refine iff_of_false (fun h ↦ by cases h) ?_
    rintro rfl
    exact hlen id.length_eq

theorem singleUvar_eq_ok {v : UInt64} : singleUvar input = .ok v ↔ input = encodeUvar v := by
  rw [encodeUvar_eq]
  refine Reader.whole_eq_ok (fun v bs ↦ bs = Leb128.encode (UInt64.toNat v)) ?_
  intro r r' v
  rw [Reader.uvar_eq_ok]
  simp

theorem singleU32_eq_ok {v : UInt32} : singleU32 input = .ok v ↔ input = encodeUvar v.toUInt64 := by
  simp only [singleU32, bind_eq_ok, singleUvar_eq_ok, rejectIf_eq_ok, exists_const,
    pure_eq_ok, ge_iff_le, Nat.not_le]
  constructor
  · rintro ⟨value, rfl, hlt, rfl⟩
    have hvalue : value.toUInt32.toUInt64 = value := by
      rw [← UInt64.toNat_inj, UInt32.toNat_toUInt64, UInt64.toNat_toUInt32, Nat.mod_eq_of_lt hlt]
    rw [hvalue]
  · rintro rfl
    refine ⟨v.toUInt64, rfl, ?_, ?_⟩
    · rw [UInt32.toNat_toUInt64]
      exact v.toNat_lt
    · exact (UInt32.toUInt32_toUInt64 v).symm

end Sley.Protocol
