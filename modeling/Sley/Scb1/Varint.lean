import Mathlib
import Sley.Lib.Leb128
import Sley.Scb1.Reader

/-!
# SCB1 variable-length integers

The writer `encode_uvar`, the reader `read_uvar_width` and the zig-zag layer above them, at the two
widths the format has. The source writes each loop twice, once over `u64` and once over `u128`; the
two copies differ in three constants only (the width, the shift of the last byte and the largest
payload that byte may hold), so here there is **one loop with those constants as a parameter**,
`UvarFormat`, and each source function is that loop at its own values.

A `u64` is a `UInt64` and an `i64` an `Int64`. Lean has no 128-bit machine integers, so `u128` and
`i128` are `BitVec 128`.

Both loops are compared with the unbounded numerals of `Leb128`: the writer by
`encodeUvarBits_eq`, the reader by `readUvarLoop_eq_ok`, whose induction follows the shift.
-/

namespace Sley.Scb1

open Except hiding ok error
open BitVec (ofNat toNat_ofNat toNat_ushiftRight)
open Leb128 (encode encode_of_le encode_of_lt)
open Nat (mod_eq_of_lt)

/-- The constants in which the 64-bit and the 128-bit integer loops differ: the width, the shift at
which the last byte is read, and the largest payload that fits there. -/
structure UvarFormat where
  bits : Nat
  lastShift : Nat
  lastMax : Nat
  lastShift_dvd : 7 ∣ lastShift
  lastShift_lt : lastShift < bits
  bits_le : bits ≤ lastShift + 7
  lastMax_eq : lastMax + 1 = 2 ^ (bits - lastShift)

/-- The constants of `read_uvar_width`. -/
def UvarFormat.u64 : UvarFormat := ⟨64, 63, 1, by decide, by decide, by decide, by decide⟩

/-- The constants of `read_uvar128_width`. -/
def UvarFormat.u128 : UvarFormat := ⟨128, 126, 3, by decide, by decide, by decide, by decide⟩

/-! ### Writers -/

private theorem shiftRight_seven_lt {w : Nat} {value : BitVec w} (h : value >>> 7 ≠ 0) :
    (value >>> 7).toNat < value.toNat := by
  have hne : (value >>> 7).toNat ≠ 0 := fun h0 ↦ h (BitVec.eq_of_toNat_eq (by simpa using h0))
  rw [toNat_ushiftRight, Nat.shiftRight_eq_div_pow] at hne ⊢
  omega

/-- The low seven bits of `value`, as a byte. -/
def lowSeven {w : Nat} (value : BitVec w) : UInt8 :=
  UInt8.ofBitVec ((value &&& ofNat w 0x7f).setWidth 8)

/-- The loop of `encode_uvar`, over any width. -/
def encodeUvarBits {w : Nat} (value : BitVec w) : Bytes :=
  let byte := lowSeven value
  if _h : value >>> 7 ≠ 0 then
    (byte ||| 0x80) :: encodeUvarBits (value >>> 7)
  else
    [byte]
termination_by value.toNat
decreasing_by exact shiftRight_seven_lt (by assumption)

/-- Encodes an unsigned integer as canonical SCB1 uvarint. -/
def encodeUvar (value : UInt64) : Bytes := encodeUvarBits value.toBitVec

/-- The loop of `encode_uvar128_into`: the scratch storage `out`, written from `length` on. -/
def encodeUvarIntoLoop {w : Nat} (value : BitVec w) (out : Bytes) (length : Nat) : Bytes × Nat :=
  let byte := lowSeven value
  if _h : value >>> 7 ≠ 0 then
    encodeUvarIntoLoop (value >>> 7) (out.set length (byte ||| 0x80)) (length + 1)
  else
    (out.set length byte, length + 1)
termination_by value.toNat
decreasing_by exact shiftRight_seven_lt (by assumption)

/-- Writes canonical SCB1 uvarint bytes into fixed-size scratch storage; returns the storage and
the prefix length written. -/
def encodeUvar128Into (value : BitVec 128) (out : Bytes) : Bytes × Nat :=
  encodeUvarIntoLoop value out 0

/-- Encodes an unsigned 128-bit integer as canonical SCB1 uvarint. -/
def encodeUvar128 (value : BitVec 128) : Bytes :=
  let (out, length) := encodeUvar128Into value (List.replicate 19 0)
  out.take length

/-- `ZigZag`, over any width: `(value << 1) ^ (value >> (w - 1))`. -/
def zigZag {w : Nat} (value : BitVec w) : BitVec w :=
  (value <<< 1) ^^^ value.sshiftRight (w - 1)

/-- The inverse the readers compute: `(encoded >> 1) ^ -(encoded & 1)`. -/
def unZigZag {w : Nat} (encoded : BitVec w) : BitVec w :=
  (encoded >>> 1) ^^^ (-(encoded &&& 1#w))

/-- Encodes a signed 64-bit integer using SCB1 `ZigZag`. -/
def encodeSint64 (value : Int64) : Bytes :=
  encodeUvar (UInt64.ofBitVec (zigZag value.toBitVec))

/-- Encodes a signed 128-bit integer using SCB1 `ZigZag`. -/
def encodeSint128 (value : BitVec 128) : Bytes :=
  encodeUvar128 (zigZag value)

/-! ### Readers -/

namespace Reader

/-- The loop of `read_uvar_width` and `read_uvar128_width`. -/
def readUvarLoop (k : UvarFormat) (width : Nat) (r : Reader) (value : BitVec k.bits)
    (shift bytesRead : Nat) : Result (BitVec k.bits × Reader) := do
  let (byte, r) ← readU8 r
  let bytesRead := bytesRead + 1
  let payload := (byte &&& 0x7f).toNat
  rejectIf (shift ≥ k.bits ∧ payload ≠ 0) .integerOverflow
  rejectIf (shift < k.bits ∧ shift = k.lastShift ∧ payload > k.lastMax) .integerOverflow
  let value := if shift < k.bits then value ||| ofNat k.bits payload <<< shift else value
  if byte &&& 0x80 = 0 then
    rejectIf (bytesRead > 1 ∧ payload = 0) .varintNonMinimal
    rejectIf (width < k.bits ∧ value ≥ 1#k.bits <<< width) .integerOverflow
    .ok (value, r)
  else if shift + 7 ≥ k.bits + 7 then
    .error .integerOverflow
  else
    readUvarLoop k width r value (shift + 7) bytesRead
termination_by k.bits + 7 - shift

def readUvarWidth (r : Reader) (width : UInt8) : Result (UInt64 × Reader) := do
  let (value, r) ← readUvarLoop .u64 width.toNat r 0 0 0
  .ok (UInt64.ofBitVec value, r)

def readUvar128Width (r : Reader) (width : UInt8) : Result (BitVec 128 × Reader) :=
  readUvarLoop .u128 width.toNat r 0 0 0

/-- Reads a canonical unsigned varint. Supported widths are `1..=64`. -/
def readUvar (r : Reader) (width : UInt8) : Result (UInt64 × Reader) := do
  rejectIf (width = 0 ∨ width > 64) .integerOverflow
  readUvarWidth r width

/-- Reads a canonical unsigned varint. Supported widths are `1..=128`. -/
def readUvar128 (r : Reader) (width : UInt8) : Result (BitVec 128 × Reader) := do
  rejectIf (width = 0 ∨ width > 128) .integerOverflow
  readUvar128Width r width

/-- Reads a canonical ZigZag-encoded signed 64-bit integer. -/
def readSint64 (r : Reader) : Result (Int64 × Reader) := do
  let (encoded, r) ← readUvar r 64
  .ok (Int64.ofBitVec (unZigZag encoded.toBitVec), r)

/-- Reads a canonical ZigZag-encoded signed 128-bit integer. -/
def readSint128 (r : Reader) : Result (BitVec 128 × Reader) := do
  let (encoded, r) ← readUvar128 r 128
  .ok (unZigZag encoded, r)

end Reader

/-! ### Bytes and payloads -/

theorem toNat_and_0x7f (b : UInt8) : (b &&& 0x7f).toNat = b.toNat % 128 := by
  rw [UInt8.toNat_and]
  exact Nat.and_two_pow_sub_one_eq_mod b.toNat 7

theorem and_0x80_eq_zero (b : UInt8) : b &&& 0x80 = 0 ↔ b.toNat < 128 := by
  have h : ∀ n : Fin 256, UInt8.ofNat n &&& 0x80 = 0 ↔ n.val < 128 := by decide +kernel
  have := h ⟨b.toNat, b.toNat_lt⟩
  rwa [UInt8.ofNat_toNat] at this

variable {w : Nat}

theorem toNat_lowSeven (hw : 7 ≤ w) (value : BitVec w) :
    (lowSeven value).toNat = value.toNat % 128 := by
  have hmask : (0x7f : Nat) % 2 ^ w = 2 ^ 7 - 1 :=
    mod_eq_of_lt (lt_of_lt_of_le (by norm_num) (Nat.pow_le_pow_right (by norm_num) hw))
  simp only [lowSeven, UInt8.toNat_ofBitVec, BitVec.toNat_setWidth, BitVec.toNat_and,
    toNat_ofNat, hmask, Nat.and_two_pow_sub_one_eq_mod]
  omega

theorem lowSeven_eq (hw : 7 ≤ w) (value : BitVec w) :
    lowSeven value = UInt8.ofNat (value.toNat % 128) := by
  apply UInt8.toNat_inj.1
  rw [toNat_lowSeven hw, UInt8.toNat_ofNat']
  omega

theorem lowSeven_or_0x80 (hw : 7 ≤ w) (value : BitVec w) :
    lowSeven value ||| 0x80 = UInt8.ofNat (value.toNat % 128 + 128) := by
  apply UInt8.toNat_inj.1
  have hlt : (lowSeven value).toNat < 2 ^ 7 := by
    rw [toNat_lowSeven hw]
    omega
  have hor := Nat.two_pow_add_eq_or_of_lt hlt 1
  rw [UInt8.toNat_or, Nat.or_comm]
  show 2 ^ 7 * 1 ||| (lowSeven value).toNat = _
  rw [← hor, toNat_lowSeven hw, UInt8.toNat_ofNat']
  omega

/-- The continuation test of the writers, on numbers. -/
theorem shiftRight_seven_eq_zero (value : BitVec w) : value >>> 7 = 0 ↔ value.toNat < 128 := by
  rw [← BitVec.toNat_inj, toNat_ushiftRight, Nat.shiftRight_eq_div_pow]
  simp [Nat.div_eq_zero_iff]

/-! ### The writers emit minimal numerals -/

theorem encodeUvarBits_eq (hw : 7 ≤ w) (value : BitVec w) :
    encodeUvarBits value = encode value.toNat := by
  fun_induction encodeUvarBits value with
  | case1 value byte h ih =>
    have hle : 128 ≤ value.toNat := Nat.not_lt.1 (mt (shiftRight_seven_eq_zero value).2 h)
    rw [encode_of_le hle, ih, toNat_ushiftRight, Nat.shiftRight_eq_div_pow, lowSeven_or_0x80 hw]
  | case2 value byte h =>
    have hlt : value.toNat < 128 := (shiftRight_seven_eq_zero value).1 (not_not.1 h)
    rw [encode_of_lt hlt, ← mod_eq_of_lt hlt]
    congr 1
    exact lowSeven_eq hw value

theorem encodeUvar_eq (value : UInt64) : encodeUvar value = encode value.toNat :=
  encodeUvarBits_eq (by norm_num) value.toBitVec

/-- Writing into scratch storage overwrites a segment of it with the numeral, given room. -/
theorem encodeUvarIntoLoop_eq (hw : 7 ≤ w) (value : BitVec w) (out : Bytes)
    (length : Nat) (h : length + (encode value.toNat).length ≤ out.length) :
    (encodeUvarIntoLoop value out length).2 = length + (encode value.toNat).length ∧
      (encodeUvarIntoLoop value out length).1.take (encodeUvarIntoLoop value out length).2 =
        out.take length ++ encode value.toNat := by
  fun_induction encodeUvarIntoLoop value out length with
  | case1 value out length byte hne ih =>
    have hle : 128 ≤ value.toNat := Nat.not_lt.1 (mt (shiftRight_seven_eq_zero value).2 hne)
    rw [encode_of_le hle, List.length_cons] at h
    have hshift : (value >>> 7).toNat = value.toNat / 128 := by
      rw [toNat_ushiftRight, Nat.shiftRight_eq_div_pow]
    rw [hshift] at ih
    obtain ⟨hlen, htake⟩ := ih (by rw [List.length_set]; omega)
    rw [encode_of_le hle]
    refine ⟨by rw [hlen, List.length_cons]; omega, ?_⟩
    have hset : (out.set length (byte ||| 0x80)).take (length + 1) =
        out.take length ++ [byte ||| 0x80] := by
      rw [List.take_succ_eq_append_getElem (by rw [List.length_set]; omega),
        List.getElem_set_self, List.take_set_of_le (Nat.le_refl _)]
    rw [htake, hset, List.append_assoc, List.singleton_append]
    congr 2
    exact lowSeven_or_0x80 hw value
  | case2 value out length byte hne =>
    have hlt : value.toNat < 128 := (shiftRight_seven_eq_zero value).1 (not_not.1 hne)
    rw [encode_of_lt hlt] at h ⊢
    refine ⟨rfl, ?_⟩
    rw [List.length_singleton] at h
    rw [List.take_succ_eq_append_getElem (by rw [List.length_set]; omega),
      List.getElem_set_self, List.take_set_of_le (Nat.le_refl _)]
    congr 2
    rw [← mod_eq_of_lt hlt]
    exact lowSeven_eq hw value

/-- Nineteen bytes of scratch storage are always enough, so the indexed writes of
`encode_uvar128_into` stay in range. -/
theorem length_encode_bitVec128_le (value : BitVec 128) : (encode value.toNat).length ≤ 19 :=
  Leb128.length_encode_le (by norm_num) (lt_trans value.isLt (by norm_num))

theorem encodeUvar128_eq (value : BitVec 128) : encodeUvar128 value = encode value.toNat := by
  have h := length_encode_bitVec128_le value
  obtain ⟨-, htake⟩ := encodeUvarIntoLoop_eq (by norm_num) value (List.replicate 19 0) 0
    (by rw [List.length_replicate]; omega)
  rw [List.take_zero, List.nil_append] at htake
  exact htake

/-! ### The readers accept minimal numerals, and nothing else -/

namespace UvarFormat

variable (k : UvarFormat)

/-- The two overflow tests of the loop say that the payload fits at its shift. -/
theorem fits_iff {shift payload : Nat} (hshift : 7 ∣ shift) (hp : payload < 128) :
    (¬ (shift ≥ k.bits ∧ payload ≠ 0) ∧
        ¬ (shift < k.bits ∧ shift = k.lastShift ∧ payload > k.lastMax)) ↔
      2 ^ shift * payload < 2 ^ k.bits := by
  have hlt := k.lastShift_lt
  rcases Nat.lt_or_ge shift k.bits with hs | hs
  · have hsplit : 2 ^ k.bits = 2 ^ shift * 2 ^ (k.bits - shift) := by
      rw [← pow_add, Nat.add_sub_cancel' hs.le]
    rw [hsplit, Nat.mul_lt_mul_left (Nat.two_pow_pos shift)]
    by_cases hlast : shift = k.lastShift
    · have := k.lastMax_eq
      rw [hlast]
      omega
    · -- an earlier byte: all seven bits of it fit
      have hle : shift + 7 ≤ k.bits := by
        have := k.bits_le
        have := k.lastShift_dvd
        omega
      have : 2 ^ 7 ≤ 2 ^ (k.bits - shift) := Nat.pow_le_pow_right (by norm_num) (by omega)
      omega
  · have hpow : 2 ^ k.bits ≤ 2 ^ shift := Nat.pow_le_pow_right (by norm_num) hs
    rcases Nat.eq_zero_or_pos payload with rfl | hpos
    · simp
    · have : 2 ^ shift ≤ 2 ^ shift * payload := Nat.le_mul_of_pos_right _ hpos
      omega

/-- Or-ing a payload that fits above the bits read so far adds it. -/
theorem toNat_accumulate {value : BitVec k.bits} {shift payload : Nat}
    (hval : value.toNat < 2 ^ shift) (hfit : 2 ^ shift * payload < 2 ^ k.bits) :
    (if shift < k.bits then value ||| ofNat k.bits payload <<< shift else value).toNat =
      value.toNat + 2 ^ shift * payload := by
  split
  · have hpay : payload < 2 ^ k.bits :=
      lt_of_le_of_lt (Nat.le_mul_of_pos_left _ (Nat.two_pow_pos shift)) hfit
    rw [BitVec.toNat_or, BitVec.toNat_shiftLeft, toNat_ofNat, mod_eq_of_lt hpay,
      Nat.shiftLeft_eq, Nat.mul_comm payload, mod_eq_of_lt hfit, Nat.or_comm,
      ← Nat.two_pow_add_eq_or_of_lt hval, Nat.add_comm]
  · rename_i hs
    have hpow : 2 ^ k.bits ≤ 2 ^ shift := Nat.pow_le_pow_right (by norm_num) (Nat.not_lt.1 hs)
    have : payload = 0 := by
      by_contra hne
      have := Nat.le_mul_of_pos_right (2 ^ shift) (Nat.pos_of_ne_zero hne)
      omega
    rw [this, Nat.mul_zero, Nat.add_zero]

/-- The width test, on numbers: widths from the format's own on are no restriction. -/
theorem width_iff {width : Nat} {value : BitVec k.bits} :
    ¬ (width < k.bits ∧ value ≥ 1#k.bits <<< width) ↔ value.toNat < 2 ^ width := by
  rcases Nat.lt_or_ge width k.bits with hw | hw
  · have hone : 1 < 2 ^ k.bits := Nat.one_lt_two_pow (by omega)
    have hpow : 2 ^ width < 2 ^ k.bits := Nat.pow_lt_pow_right (by norm_num) hw
    have : (1#k.bits <<< width).toNat = 2 ^ width := by
      rw [BitVec.toNat_shiftLeft, toNat_ofNat, mod_eq_of_lt hone, Nat.shiftLeft_eq,
        Nat.one_mul, mod_eq_of_lt hpow]
    rw [ge_iff_le, BitVec.le_def, this]
    omega
  · have := lt_of_lt_of_le value.isLt (Nat.pow_le_pow_right (by norm_num : 0 < 2) hw)
    omega

end UvarFormat

namespace Reader

variable {k : UvarFormat}

/-- What one turn of the loop does: it reads a byte whose payload fits, and then stops at a byte
without the continuation bit or goes on. -/
theorem readUvarLoop_step {width shift n : Nat} {r r' : Reader}
    {value v : BitVec k.bits} (hshift : 7 ∣ shift) (hval : value.toNat < 2 ^ shift) :
    readUvarLoop k width r value shift n = .ok (v, r') ↔
      ∃ (b : UInt8) (r₁ : Reader) (value₁ : BitVec k.bits), r.Consumes [b] r₁ ∧
        value₁.toNat = value.toNat + 2 ^ shift * (b.toNat % 128) ∧
        ((b.toNat < 128 ∧ (n = 0 ∨ b.toNat ≠ 0) ∧ value₁.toNat < 2 ^ width ∧ v = value₁ ∧ r' = r₁) ∨
          (128 ≤ b.toNat ∧ shift < k.bits ∧
            readUvarLoop k width r₁ value₁ (shift + 7) (n + 1) = .ok (v, r'))) := by
  rw [readUvarLoop]
  simp only [bind_eq_ok, rejectIf_eq_ok, exists_const, Prod.exists, toNat_and_0x7f]
  constructor
  · rintro ⟨b, r₁, hb, hfit₁, hfit₂, h⟩
    have hfit := (k.fits_iff hshift (Nat.mod_lt _ (by norm_num))).1 ⟨hfit₁, hfit₂⟩
    refine ⟨b, r₁, _, readU8_eq_ok.1 hb, k.toNat_accumulate hval hfit, ?_⟩
    split at h
    · rename_i hlast
      rw [and_0x80_eq_zero] at hlast
      obtain ⟨hmin, hwidth, h⟩ := by simpa only [bind_eq_ok, rejectIf_eq_ok, exists_const] using h
      obtain ⟨rfl, rfl⟩ := Prod.mk.inj (Except.ok.inj h)
      exact .inl ⟨hlast, by omega, k.width_iff.1 hwidth, rfl, rfl⟩
    · rename_i hmore
      rw [and_0x80_eq_zero] at hmore
      split at h
      · cases h
      · exact .inr ⟨by omega, by omega, h⟩
  · rintro ⟨b, r₁, value₁, hb, hv₁, h⟩
    have hfit : 2 ^ shift * (b.toNat % 128) < 2 ^ k.bits := by
      have := value₁.isLt
      omega
    obtain ⟨hfit₁, hfit₂⟩ := (k.fits_iff hshift (Nat.mod_lt _ (by norm_num))).2 hfit
    have hacc : (if shift < k.bits then
        value ||| ofNat k.bits (b.toNat % 128) <<< shift else value) = value₁ :=
      BitVec.eq_of_toNat_eq ((k.toNat_accumulate hval hfit).trans hv₁.symm)
    refine ⟨b, r₁, readU8_eq_ok.2 hb, hfit₁, hfit₂, ?_⟩
    rw [hacc]
    rcases h with ⟨hlast, hmin, hwidth, rfl, rfl⟩ | ⟨hmore, hlt, h⟩
    · rw [if_pos ((and_0x80_eq_zero b).2 hlast)]
      simp only [bind_eq_ok, rejectIf_eq_ok, exists_const]
      exact ⟨by omega, k.width_iff.2 hwidth, trivial⟩
    · rw [if_neg (mt (and_0x80_eq_zero b).1 (by omega)), if_neg (by omega)]
      exact h

/-- **The loop reads one minimal numeral.** Entered at `shift = 7 * n` with the bits below the
shift in `value`, it adds the number it reads at that shift; a numeral that only continues an
earlier byte may not be zero. The induction is on how far the shift is from the end. -/
theorem readUvarLoop_eq_ok {width n : Nat} {r r' : Reader}
    {value v : BitVec k.bits} (hval : value.toNat < 2 ^ (7 * n)) :
    readUvarLoop k width r value (7 * n) n = .ok (v, r') ↔
      ∃ m, (n = 0 ∨ m ≠ 0) ∧ v.toNat = value.toNat + 2 ^ (7 * n) * m ∧ v.toNat < 2 ^ width ∧
        r.Consumes (encode m) r' := by
  induction hd : k.bits + 7 - 7 * n using Nat.strong_induction_on generalizing n r value with
  | _ d ih =>
    subst hd
    have hpow : 2 ^ (7 * (n + 1)) = 2 ^ (7 * n) * 128 := by
      rw [show 7 * (n + 1) = 7 * n + 7 by omega, pow_add]
      norm_num
    -- one continued byte and the numeral after it are the numeral of a larger number
    have hstep : ∀ p q : Nat, value.toNat + 2 ^ (7 * n) * p + 2 ^ (7 * (n + 1)) * q =
        value.toNat + 2 ^ (7 * n) * (p + 128 * q) := by
      intro p q
      rw [hpow, Nat.mul_add, Nat.mul_assoc, Nat.add_assoc]
    rw [readUvarLoop_step (Nat.dvd_mul_right 7 n) hval]
    constructor
    · rintro ⟨b, r₁, value₁, hb, hv₁, ⟨hlast, hmin, hwidth, rfl, rfl⟩ | ⟨hmore, hlt, h⟩⟩
      · refine ⟨b.toNat, hmin, by rw [hv₁, mod_eq_of_lt hlast], hwidth, ?_⟩
        rwa [encode_of_lt hlast, UInt8.ofNat_toNat]
      · have hval₁ : value₁.toNat < 2 ^ (7 * (n + 1)) := by
          have : 2 ^ (7 * n) * (b.toNat % 128) ≤ 2 ^ (7 * n) * 127 :=
            Nat.mul_le_mul_left _ (by omega)
          omega
        obtain ⟨q, hq, hv, hwidth, hcons⟩ := (ih _ (by omega) hval₁ rfl).1 h
        have hq0 : q ≠ 0 := by omega
        refine ⟨b.toNat % 128 + 128 * q, .inr (by omega), by rw [hv, hv₁, hstep], hwidth, ?_⟩
        rw [encode_of_le (by omega)]
        have hb' : UInt8.ofNat ((b.toNat % 128 + 128 * q) % 128 + 128) = b := by
          apply UInt8.toNat_inj.1
          have := b.toNat_lt
          rw [UInt8.toNat_ofNat']
          omega
        rw [hb', show (b.toNat % 128 + 128 * q) / 128 = q by omega]
        exact hb.trans hcons
    · rintro ⟨m, hm, hv, hwidth, hcons⟩
      by_cases hlast : m < 128
      · rw [encode_of_lt hlast] at hcons
        have hbyte : (UInt8.ofNat m).toNat = m := by
          rw [UInt8.toNat_ofNat']
          omega
        refine ⟨_, _, v, hcons, ?_, .inl ⟨?_, ?_, hwidth, rfl, rfl⟩⟩
        · rw [hbyte, mod_eq_of_lt hlast, hv]
        · rwa [hbyte]
        · rwa [hbyte]
      · rw [encode_of_le (Nat.not_lt.1 hlast), ← List.singleton_append] at hcons
        obtain ⟨r₁, hb, hcons⟩ := hcons.split
        have hbyte : (UInt8.ofNat (m % 128 + 128)).toNat = m % 128 + 128 := by
          rw [UInt8.toNat_ofNat']
          omega
        have hm128 : m = m % 128 + 128 * (m / 128) := by omega
        rw [hm128, ← hstep] at hv
        have hlow : value.toNat + 2 ^ (7 * n) * (m % 128) < 2 ^ k.bits := by
          have := v.isLt
          omega
        have hshift : 7 * n < k.bits := by
          have hle : 2 ^ (7 * n) ≤ 2 ^ (7 * n) * 128 * (m / 128) := by
            rw [Nat.mul_assoc]
            exact Nat.le_mul_of_pos_right _ (by omega)
          rw [hpow] at hv
          have := v.isLt
          exact (Nat.pow_lt_pow_iff_right (by norm_num : 1 < 2)).1 (by omega)
        have hval₁ : (ofNat k.bits (value.toNat + 2 ^ (7 * n) * (m % 128))).toNat =
            value.toNat + 2 ^ (7 * n) * (m % 128) := by
          rw [toNat_ofNat, mod_eq_of_lt hlow]
        refine ⟨_, r₁, _, hb, hval₁.trans ?_, .inr ⟨by omega, hshift, ?_⟩⟩
        · rw [hbyte, Nat.add_mod_right, Nat.mod_mod]
        · refine (ih (k.bits + 7 - 7 * (n + 1)) (by omega) ?_ rfl).2
            ⟨m / 128, .inr (by omega), by rw [hval₁, hv], hwidth, hcons⟩
          have : 2 ^ (7 * n) * (m % 128) ≤ 2 ^ (7 * n) * 127 := Nat.mul_le_mul_left _ (by omega)
          omega

/-- The loop, entered as the readers enter it. -/
theorem readUvarLoop_zero_eq_ok {width : Nat} {r r' : Reader} {v : BitVec k.bits} :
    readUvarLoop k width r 0 0 0 = .ok (v, r') ↔
      v.toNat < 2 ^ width ∧ r.Consumes (encode v.toNat) r' := by
  have h := @readUvarLoop_eq_ok k width 0 r r' 0 v (by simp)
  simp only [Nat.mul_zero, pow_zero, Nat.one_mul, BitVec.ofNat_eq_ofNat, BitVec.toNat_zero,
    Nat.zero_add, true_or, true_and] at h
  refine h.trans ?_
  constructor
  · rintro ⟨m, rfl, hw, hc⟩
    exact ⟨hw, hc⟩
  · rintro ⟨hw, hc⟩
    exact ⟨_, rfl, hw, hc⟩

variable {width : UInt8}

theorem readUvarWidth_eq_ok {r r' : Reader} {v : UInt64} : readUvarWidth r width = .ok (v, r') ↔
      v.toNat < 2 ^ width.toNat ∧ r.Consumes (encodeUvar v) r' := by
  rw [readUvarWidth, bind_eq_ok, encodeUvar_eq]
  constructor
  · rintro ⟨⟨value, r₁⟩, hloop, h⟩
    obtain ⟨rfl, rfl⟩ := Prod.mk.inj (Except.ok.inj h)
    exact readUvarLoop_zero_eq_ok.1 hloop
  · intro h
    exact ⟨(v.toBitVec, r'), readUvarLoop_zero_eq_ok.2 h, rfl⟩

theorem readUvar128Width_eq_ok {r r' : Reader} {v : BitVec 128} :
    readUvar128Width r width = .ok (v, r') ↔
      v.toNat < 2 ^ width.toNat ∧ r.Consumes (encodeUvar128 v) r' := by
  rw [encodeUvar128_eq]
  exact readUvarLoop_zero_eq_ok

theorem readUvar_eq_ok {r r' : Reader} {v : UInt64} : readUvar r width = .ok (v, r') ↔
      ¬ (width = 0 ∨ width > 64) ∧ v.toNat < 2 ^ width.toNat ∧ r.Consumes (encodeUvar v) r' := by
  simp only [readUvar, bind_eq_ok, rejectIf_eq_ok, exists_const, readUvarWidth_eq_ok]

theorem readUvar128_eq_ok {r r' : Reader} {v : BitVec 128} : readUvar128 r width = .ok (v, r') ↔
      ¬ (width = 0 ∨ width > 128) ∧ v.toNat < 2 ^ width.toNat ∧
        r.Consumes (encodeUvar128 v) r' := by
  simp only [readUvar128, bind_eq_ok, rejectIf_eq_ok, exists_const, readUvar128Width_eq_ok]

end Reader

/-! ### Zig-zag -/

variable {w : Nat}

/-- The sign mask of the decoder: all ones when the low bit is set, else zero. -/
theorem neg_and_one (e : BitVec w) :
    -(e &&& 1#w) = if e.getLsbD 0 then BitVec.allOnes w else 0#w := by
  rcases Nat.eq_zero_or_pos w with rfl | hw
  · exact BitVec.eq_of_zero_length rfl
  · have hlow : e &&& 1#w = if e.getLsbD 0 then 1#w else 0#w := by
      ext i hi
      rcases Nat.eq_zero_or_pos i with rfl | hpos
      · cases he : e.getLsbD 0 <;> simp_all
      · have hone : (1#w)[i] = false := by
          rw [BitVec.getElem_one]
          simp [hpos.ne']
        rw [BitVec.getElem_and, hone, Bool.and_false]
        split
        · exact hone.symm
        · exact (BitVec.getElem_zero hi).symm
    rw [hlow]
    split
    · exact BitVec.neg_one_eq_allOnes
    · exact BitVec.neg_zero w

theorem getLsbD_unZigZag (e : BitVec w) {i : Nat} (hi : i < w) :
    (unZigZag e).getLsbD i = (e.getLsbD (i + 1) ^^ e.getLsbD 0) := by
  rw [unZigZag, neg_and_one]
  cases he : e.getLsbD 0 <;> simp [hi, Nat.add_comm]

theorem getLsbD_zigZag (v : BitVec w) {i : Nat} (hi : i < w) :
    (zigZag v).getLsbD i = ((decide (i ≠ 0) && v.getLsbD (i - 1)) ^^ v.getLsbD (w - 1)) := by
  have hsign : (v.sshiftRight (w - 1)).getLsbD i = v.getLsbD (w - 1) := by
    rw [BitVec.getLsbD_sshiftRight]
    rcases Nat.eq_zero_or_pos i with rfl | hpos
    · simp [Nat.not_le.2 hi, show w - 1 < w by omega]
    · simp [Nat.not_le.2 hi, show ¬ w - 1 + i < w by omega, BitVec.msb_eq_getLsbD_last]
  rw [zigZag, BitVec.getLsbD_xor, hsign, BitVec.getLsbD_shiftLeft]
  simp [hi]

theorem unZigZag_zigZag (v : BitVec w) : unZigZag (zigZag v) = v := by
  apply BitVec.eq_of_getLsbD_eq
  intro i hi
  have hlow : (zigZag v).getLsbD 0 = v.getLsbD (w - 1) := by
    rw [getLsbD_zigZag v (by omega)]
    simp
  rw [getLsbD_unZigZag _ hi, hlow]
  by_cases hlast : i + 1 < w
  · rw [getLsbD_zigZag v hlast]
    simp
  · rw [BitVec.getLsbD_of_ge _ _ (Nat.not_lt.1 hlast), show i = w - 1 by omega]
    simp

theorem zigZag_unZigZag (e : BitVec w) : zigZag (unZigZag e) = e := by
  apply BitVec.eq_of_getLsbD_eq
  intro i hi
  have hsign : (unZigZag e).getLsbD (w - 1) = e.getLsbD 0 := by
    rw [getLsbD_unZigZag e (by omega), BitVec.getLsbD_of_ge _ _ (by omega)]
    simp
  rw [getLsbD_zigZag _ hi, hsign]
  rcases Nat.eq_zero_or_pos i with rfl | hpos
  · simp
  · rw [getLsbD_unZigZag e (by omega), Nat.sub_add_cancel hpos]
    simp [hpos.ne']

namespace Reader

theorem readSint64_eq_ok {r r' : Reader} {v : Int64} :
    readSint64 r = .ok (v, r') ↔ r.Consumes (encodeSint64 v) r' := by
  rw [readSint64, bind_eq_ok]
  constructor
  · rintro ⟨⟨e, r₁⟩, hread, h⟩
    obtain ⟨rfl, rfl⟩ := Prod.mk.inj (Except.ok.inj h)
    have hz : UInt64.ofBitVec (zigZag (Int64.ofBitVec (unZigZag e.toBitVec)).toBitVec) = e := by
      rw [Int64.toBitVec_ofBitVec, zigZag_unZigZag]
    rw [encodeSint64, hz]
    exact (readUvar_eq_ok.1 hread).2.2
  · intro h
    refine ⟨(UInt64.ofBitVec (zigZag v.toBitVec), r'), readUvar_eq_ok.2 ⟨by decide, ?_, h⟩, ?_⟩
    · exact UInt64.toNat_lt _
    · show Except.ok (Int64.ofBitVec (unZigZag (zigZag v.toBitVec)), r') = _
      rw [unZigZag_zigZag]
      rfl

theorem readSint128_eq_ok {r r' : Reader} {v : BitVec 128} :
    readSint128 r = .ok (v, r') ↔ r.Consumes (encodeSint128 v) r' := by
  rw [readSint128, bind_eq_ok]
  constructor
  · rintro ⟨⟨e, r₁⟩, hread, h⟩
    obtain ⟨rfl, rfl⟩ := Prod.mk.inj (Except.ok.inj h)
    rw [encodeSint128, zigZag_unZigZag]
    exact (readUvar128_eq_ok.1 hread).2.2
  · intro h
    refine ⟨(zigZag v, r'), readUvar128_eq_ok.2 ⟨by decide, BitVec.isLt _, h⟩, ?_⟩
    show Except.ok (unZigZag (zigZag v), r') = _
    rw [unZigZag_zigZag]

/-- Widths outside the documented range are refused before anything is read. -/
theorem readUvar_unsupported {r : Reader} {width : UInt8} (h : width = 0 ∨ width > 64) :
    readUvar r width = .error .integerOverflow := by
  rw [readUvar, rejectIf_pos h, error_bind]

theorem readUvar128_unsupported {r : Reader} {width : UInt8} (h : width = 0 ∨ width > 128) :
    readUvar128 r width = .error .integerOverflow := by
  rw [readUvar128, rejectIf_pos h, error_bind]

end Reader

open Reader in
/-- **SCB1 integers have one spelling.** At every supported width a reader at any position succeeds
with `v` exactly when the bytes it consumes are the ones the writer emits for `v` and `v` is within
the width; unsupported widths are refused. The signed readers accept exactly what the signed
writers emit, so every `i64` and every `i128` round-trips and nothing else is accepted. -/
theorem canonical_integers :
    (∀ (r r' : Reader) (width : UInt8) (v : UInt64), 1 ≤ width.toNat → width.toNat ≤ 64 →
      (readUvar r width = .ok (v, r') ↔
        v.toNat < 2 ^ width.toNat ∧ r.Consumes (encodeUvar v) r')) ∧
    (∀ (r r' : Reader) (width : UInt8) (v : BitVec 128), 1 ≤ width.toNat → width.toNat ≤ 128 →
      (readUvar128 r width = .ok (v, r') ↔
        v.toNat < 2 ^ width.toNat ∧ r.Consumes (encodeUvar128 v) r')) ∧
    (∀ (r : Reader) (width : UInt8), width.toNat = 0 ∨ 64 < width.toNat →
      readUvar r width = .error .integerOverflow) ∧
    (∀ (r : Reader) (width : UInt8), width.toNat = 0 ∨ 128 < width.toNat →
      readUvar128 r width = .error .integerOverflow) ∧
    (∀ (r r' : Reader) (v : Int64),
      readSint64 r = .ok (v, r') ↔ r.Consumes (encodeSint64 v) r') ∧
    (∀ (r r' : Reader) (v : BitVec 128),
      readSint128 r = .ok (v, r') ↔ r.Consumes (encodeSint128 v) r') := by
  have hzero : ∀ width : UInt8, width = 0 ↔ width.toNat = 0 := fun width ↦ by
    rw [← UInt8.toNat_inj]
    rfl
  have h64 : ∀ width : UInt8, width > 64 ↔ 64 < width.toNat := fun width ↦ UInt8.lt_iff_toNat_lt
  have h128 : ∀ width : UInt8, width > 128 ↔ 128 < width.toNat := fun width ↦
    UInt8.lt_iff_toNat_lt
  refine ⟨?_, ?_, ?_, ?_, fun _ _ _ ↦ readSint64_eq_ok, fun _ _ _ ↦ readSint128_eq_ok⟩
  · intro r r' width v hpos hle
    have hw : ¬ (width = 0 ∨ width > 64) := by
      rw [hzero, h64]
      omega
    rw [readUvar_eq_ok]
    exact ⟨fun h ↦ h.2, fun h ↦ ⟨hw, h⟩⟩
  · intro r r' width v hpos hle
    have hw : ¬ (width = 0 ∨ width > 128) := by
      rw [hzero, h128]
      omega
    rw [readUvar128_eq_ok]
    exact ⟨fun h ↦ h.2, fun h ↦ ⟨hw, h⟩⟩
  · intro r width h
    exact readUvar_unsupported (by rwa [hzero, h64])
  · intro r width h
    exact readUvar128_unsupported (by rwa [hzero, h128])

theorem canonical_integers_three_hundred :
    Reader.readUvar (Cursor.new [0xac, 0x02]) 9 = .ok (300, ⟨[0xac, 0x02], 2, by decide⟩) ∧
      Reader.readUvar128 (Cursor.new [0xac, 0x02]) 8 ≠
        .ok (300, ⟨[0xac, 0x02], 2, by decide⟩) := by
  have henc : encodeUvar 300 = [0xac, 0x02] := by
    rw [encodeUvar_eq, Leb128.encode_of_le (by decide), Leb128.encode_of_lt (by decide)]
    decide
  constructor
  · refine (canonical_integers.1 _ _ 9 300 (by decide) (by decide)).2 ⟨by decide, ?_⟩
    rw [henc]
    exact ⟨rfl, rfl, rfl⟩
  · intro h
    have := ((canonical_integers.2.1 _ _ 8 300 (by decide) (by decide)).1 h).1
    revert this
    decide

/-- At width zero the writer's one byte for the number zero is refused, though zero is below
`2 ^ 0`: the equivalence does not extend to every width. -/
theorem not_canonical_integers_all_widths :
    ¬ ∀ (r r' : Reader) (width : UInt8) (v : UInt64),
      Reader.readUvar r width = .ok (v, r') ↔
        v.toNat < 2 ^ width.toNat ∧ r.Consumes (encodeUvar v) r' := by
  intro h
  have hcons : (Cursor.new [0x00] : Reader).Consumes (encodeUvar 0) ⟨[0x00], 1, by decide⟩ := by
    rw [encodeUvar_eq, Leb128.encode_of_lt (by decide)]
    exact ⟨rfl, rfl, rfl⟩
  have hread := (h _ _ 0 0).2 ⟨by decide, hcons⟩
  rw [Reader.readUvar_unsupported (.inl rfl)] at hread
  cases hread

end Sley.Scb1
