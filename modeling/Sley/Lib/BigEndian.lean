import Mathlib

/-!
# Fixed-width big-endian numbers

`BigEndian.bytes n v` are the `n` low bytes of `v`, most significant first, and `BigEndian.value`
reads a byte string as such a number. On strings of `n` bytes and numbers below `256 ^ n` the two
are **inverse bijections** (`value_bytes`, `bytes_value`), which is what makes a fixed-width field
canonical without a side condition.
-/

namespace BigEndian

/-- The `n` low bytes of `v`, most significant first. -/
def bytes : Nat → Nat → List UInt8
  | 0, _ => []
  | n + 1, v => UInt8.ofNat (v / 256 ^ n) :: bytes n v

/-- The number a byte string denotes, most significant byte first. -/
def value : List UInt8 → Nat
  | [] => 0
  | b :: bs => b.toNat * 256 ^ bs.length + value bs

@[simp]
theorem length_bytes (n v : Nat) : (bytes n v).length = n := by
  induction n with
  | zero => rfl
  | succ n ih => rw [bytes, List.length_cons, ih]

theorem value_lt (bs : List UInt8) : value bs < 256 ^ bs.length := by
  induction bs with
  | nil => simp [value]
  | cons b bs ih =>
    have hb : b.toNat + 1 ≤ 256 := b.toNat_lt
    have hmul := Nat.mul_le_mul_right (256 ^ bs.length) hb
    rw [value, List.length_cons, pow_succ]
    rw [Nat.add_mul, Nat.one_mul] at hmul
    omega

theorem value_bytes (n v : Nat) : value (bytes n v) = v % 256 ^ n := by
  induction n with
  | zero => simp [bytes, value, Nat.mod_one]
  | succ n ih =>
    have hmod : v % 256 ^ (n + 1) = v % 256 ^ n + 256 ^ n * (v / 256 ^ n % 256) := by
      rw [pow_succ, Nat.mod_mul]
    rw [bytes, value, ih, length_bytes, UInt8.toNat_ofNat', hmod, Nat.mul_comm, Nat.add_comm]

theorem bytes_add_mul (n v k : Nat) : bytes n (k * 256 ^ n + v) = bytes n v := by
  induction n generalizing k with
  | zero => rfl
  | succ n ih =>
    have hpow : k * 256 ^ (n + 1) = (256 * k) * 256 ^ n := by ring
    rw [bytes, bytes, hpow, ih]
    congr 1
    apply UInt8.toNat_inj.1
    rw [UInt8.toNat_ofNat', UInt8.toNat_ofNat', Nat.add_comm,
      Nat.add_mul_div_right _ _ (by positivity)]
    omega

theorem bytes_value (bs : List UInt8) : bytes bs.length (value bs) = bs := by
  induction bs with
  | nil => rfl
  | cons b bs ih =>
    rw [List.length_cons, bytes, value, bytes_add_mul, ih]
    congr 1
    apply UInt8.toNat_inj.1
    have hlt := value_lt bs
    have hb := b.toNat_lt
    rw [UInt8.toNat_ofNat', Nat.add_comm, Nat.add_mul_div_right _ _ (by positivity),
      Nat.div_eq_of_lt hlt]
    omega

end BigEndian
