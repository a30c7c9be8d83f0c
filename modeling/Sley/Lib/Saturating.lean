import Mathlib

/-!
# Counters of 64 bits

A counter is added to in one of two ways: an addition saturates at the largest value or refuses to
overflow. **A saturating sum is the exact sum, cut off once** (`saturate_add`), in whatever order it
is taken, so a walk that saturates at every addition computes `saturate` of what the same walk
computes over the natural numbers.
-/

namespace UInt64

variable {a b c : UInt64} {m n : ℕ}

/-- The largest value. -/
def maxValue : UInt64 := 18446744073709551615

theorem toNat_maxValue : maxValue.toNat = 2 ^ 64 - 1 := rfl

theorem toNat_le_maxValue (a : UInt64) : a.toNat ≤ 2 ^ 64 - 1 := Nat.le_pred_of_lt a.toNat_lt

/-- A number cut off at the largest value: `u64::try_from(n).unwrap_or(u64::MAX)`. -/
def saturate (n : ℕ) : UInt64 := if n < 2 ^ 64 then UInt64.ofNat n else maxValue

def saturatingAdd (a b : UInt64) : UInt64 := saturate (a.toNat + b.toNat)

def saturatingMul (a b : UInt64) : UInt64 := saturate (a.toNat * b.toNat)

def checkedAdd (a b : UInt64) : Option UInt64 :=
  if a.toNat + b.toNat < 2 ^ 64 then some (a + b) else none

def checkedSub (a b : UInt64) : Option UInt64 := if b ≤ a then some (a - b) else none

@[simp]
theorem toNat_saturate (n : ℕ) : (saturate n).toNat = min n (2 ^ 64 - 1) := by
  rw [saturate]
  split_ifs with h
  · rw [UInt64.toNat_ofNat_of_lt' h]
    omega
  · rw [toNat_maxValue]
    omega

@[simp]
theorem toNat_saturatingAdd : (saturatingAdd a b).toNat = min (a.toNat + b.toNat) (2 ^ 64 - 1) :=
  toNat_saturate _

theorem toNat_saturate_of_lt (h : n < 2 ^ 64) : (saturate n).toNat = n := by
  rw [toNat_saturate]
  omega

theorem saturatingAdd_of_lt (h : a.toNat + b.toNat < 2 ^ 64) :
    (saturatingAdd a b).toNat = a.toNat + b.toNat :=
  toNat_saturate_of_lt h

theorem checkedAdd_eq_some : checkedAdd a b = some c ↔ c.toNat = a.toNat + b.toNat := by
  have hc := c.toNat_lt
  rw [checkedAdd]
  split_ifs with h
  · rw [Option.some.injEq, ← UInt64.toNat_inj, UInt64.toNat_add, Nat.mod_eq_of_lt h, eq_comm]
  · refine iff_of_false (by simp) ?_
    omega

theorem checkedAdd_eq_none : checkedAdd a b = none ↔ 2 ^ 64 ≤ a.toNat + b.toNat := by
  rw [checkedAdd]
  split_ifs with h <;> simp <;> omega

theorem checkedSub_eq_some : checkedSub a b = some c ↔ a.toNat = c.toNat + b.toNat := by
  rw [checkedSub]
  split_ifs with h
  · have hle := UInt64.le_iff_toNat_le.1 h
    rw [Option.some.injEq, ← UInt64.toNat_inj, UInt64.toNat_sub_of_le _ _ h]
    omega
  · have hlt : ¬ b.toNat ≤ a.toNat := fun hle ↦ h (UInt64.le_iff_toNat_le.2 hle)
    refine iff_of_false (by simp) ?_
    omega

end UInt64
