import Mathlib

/-!
# Minimal base-128 numerals

The canonical little-endian base-128 numeral of a natural number: seven payload bits a byte, the
high bit set on every byte but the last, and as few bytes as possible. This module is the
**abstract side** of variable-length integers: numbers are unbounded and there is no width. A
bounded reader or writer is compared with `Leb128.encode` and inherits what is proved here — the
numeral is never empty, its length is bounded by the size of the number (`length_encode_le`), and
no numeral is a proper initial part of another (`encode_append_inj`).
-/

namespace Leb128

open UInt8 (ofNat toNat toNat_ofNat')

/-- The minimal little-endian base-128 numeral of `n`. -/
def encode (n : Nat) : List UInt8 :=
  if n < 128 then [ofNat n] else ofNat (n % 128 + 128) :: encode (n / 128)

theorem encode_of_lt {n : Nat} (h : n < 128) : encode n = [ofNat n] := by
  rw [encode, if_pos h]

theorem encode_of_le {n : Nat} (h : 128 ≤ n) :
    encode n = ofNat (n % 128 + 128) :: encode (n / 128) := by
  rw [encode, if_neg (Nat.not_lt.2 h)]

theorem encode_ne_nil (n : Nat) : encode n ≠ [] := by
  rw [encode]
  split <;> simp

/-- A number of at most `7 * k` bits takes at most `k` bytes. -/
theorem length_encode_le {n k : Nat} (hk : 0 < k) (h : n < 2 ^ (7 * k)) :
    (encode n).length ≤ k := by
  induction k generalizing n with
  | zero => omega
  | succ k ih =>
    by_cases hn : n < 128
    · rw [encode_of_lt hn]
      simp
    · have hpow : 2 ^ (7 * (k + 1)) = 128 * 2 ^ (7 * k) := by
        rw [show 7 * (k + 1) = 7 + 7 * k by ring, pow_add]
        norm_num
      have hk : 0 < k := by
        rcases Nat.eq_zero_or_pos k with rfl | hk
        · simp at hpow
          omega
        · exact hk
      have hdiv : n / 128 < 2 ^ (7 * k) := by
        rw [Nat.div_lt_iff_lt_mul (by norm_num), mul_comm]
        omega
      rw [encode_of_le (Nat.not_lt.1 hn), List.length_cons]
      exact Nat.succ_le_succ (ih hk hdiv)

/-- A number of more than `7 * k` bits takes more than `k` bytes. -/
theorem lt_length_encode {n k : Nat} (h : 2 ^ (7 * k) ≤ n) : k < (encode n).length := by
  induction k generalizing n with
  | zero => exact List.length_pos_of_ne_nil (encode_ne_nil n)
  | succ k ih =>
    have hpow : 2 ^ (7 * (k + 1)) = 128 * 2 ^ (7 * k) := by
      rw [show 7 * (k + 1) = 7 + 7 * k by ring, pow_add]
      norm_num
    have hpos : 0 < 2 ^ (7 * k) := Nat.two_pow_pos _
    have hdiv : 2 ^ (7 * k) ≤ n / 128 := by
      rw [Nat.le_div_iff_mul_le (by norm_num), mul_comm]
      omega
    rw [encode_of_le (by omega), List.length_cons]
    exact Nat.succ_lt_succ (ih hdiv)

/-- The length of a numeral, at every width. -/
theorem length_encode_eq {n k : Nat} (hlow : 2 ^ (7 * k) ≤ n) (hhigh : n < 2 ^ (7 * (k + 1))) :
    (encode n).length = k + 1 :=
  Nat.le_antisymm (length_encode_le (Nat.succ_pos k) hhigh) (lt_length_encode hlow)

/-- **Numerals are self-delimiting**: two of them that begin the same bytes are equal. -/
theorem encode_append_inj {m n : Nat} {s t : List UInt8} (h : encode m ++ s = encode n ++ t) :
    m = n ∧ s = t := by
  induction m using Nat.strong_induction_on generalizing n with
  | _ m ih =>
    by_cases hm : m < 128 <;> by_cases hn : n < 128
    · rw [encode_of_lt hm, encode_of_lt hn] at h
      obtain ⟨hb, ht⟩ := List.cons.inj h
      have := congrArg toNat hb
      simp only [toNat_ofNat'] at this
      exact ⟨by omega, ht⟩
    · -- the last byte of one meets a continued byte of the other
      rw [encode_of_lt hm, encode_of_le (Nat.not_lt.1 hn)] at h
      have := congrArg toNat (List.cons.inj h).1
      simp only [toNat_ofNat'] at this
      omega
    · rw [encode_of_le (Nat.not_lt.1 hm), encode_of_lt hn] at h
      have := congrArg toNat (List.cons.inj h).1
      simp only [toNat_ofNat'] at this
      omega
    · rw [encode_of_le (Nat.not_lt.1 hm), encode_of_le (Nat.not_lt.1 hn)] at h
      obtain ⟨hb, ht⟩ := List.cons.inj h
      have hbyte := congrArg toNat hb
      simp only [toNat_ofNat'] at hbyte
      obtain ⟨hdiv, hst⟩ := ih (m / 128) (by omega) ht
      exact ⟨by omega, hst⟩

theorem encode_injective : Function.Injective encode := by
  intro m n h
  exact (encode_append_inj (s := []) (t := []) (by rw [h])).1

end Leb128
