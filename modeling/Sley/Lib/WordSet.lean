import Mathlib

/-!
# Sets of numbers as bits of words

A set of numbers below `64 * w` is kept as the bits of `w` words of 64 bits. **Setting a bit adds
a number, the bitwise operations of the words are those of the sets, and two sets with the same
numbers are the same words** (`WordSet.ext_bits`).
-/

/-- `w` words of 64 bits. -/
abbrev WordSet (w : ℕ) := Vector (BitVec 64) w

namespace WordSet

variable {w i j : ℕ} {a b : WordSet w}

def empty (w : ℕ) : WordSet w := Vector.replicate w 0

/-- `bits[i / 64] |= 1 << (i % 64)`. -/
def setBit (bits : WordSet w) (i : ℕ) : WordSet w :=
  bits.mapIdx fun k word ↦ if k = i / 64 then word ||| 1#64 <<< (i % 64) else word

/-- `bits[i / 64] & (1 << (i % 64)) != 0`. -/
def bitIsSet (bits : WordSet w) (i : ℕ) : Bool :=
  match bits[i / 64]? with
  | none => false
  | some word => word &&& 1#64 <<< (i % 64) != 0

/-- The words of one set with those of another. -/
def inter (a b : WordSet w) : WordSet w := a.zipWith (· &&& ·) b

theorem and_shift_ne_zero (word : BitVec 64) (i : ℕ) :
    (word &&& 1#64 <<< (i % 64) != 0) = word.getLsbD (i % 64) := by
  have hlt : i % 64 < 64 := Nat.mod_lt _ (by decide)
  have hne : BitVec.twoPow 64 (i % 64) ≠ 0 := by
    intro h
    have hbit := congrArg (BitVec.getLsbD · (i % 64)) h
    simp [hlt] at hbit
  rw [← BitVec.twoPow_eq, BitVec.and_twoPow]
  cases h : word.getLsbD (i % 64) with
  | true => exact bne_iff_ne.2 hne
  | false => rfl

theorem getLsbD_or_shift (word : BitVec 64) (i k : ℕ) :
    (word ||| 1#64 <<< (i % 64)).getLsbD k = (word.getLsbD k || decide (i % 64 = k)) := by
  have hlt : i % 64 < 64 := Nat.mod_lt _ (by decide)
  rw [← BitVec.twoPow_eq, BitVec.getLsbD_or, BitVec.getLsbD_twoPow, decide_eq_true hlt,
    Bool.true_and]

theorem bitIsSet_of_lt (h : i / 64 < w) : bitIsSet a i = a[i / 64].getLsbD (i % 64) := by
  rw [bitIsSet, Vector.getElem?_eq_getElem h]
  exact and_shift_ne_zero _ i

theorem bitIsSet_of_le (h : w ≤ i / 64) : bitIsSet a i = false := by
  rw [bitIsSet, Vector.getElem?_eq_none h]

@[simp]
theorem bitIsSet_empty : bitIsSet (empty w) i = false := by
  obtain h | h := lt_or_ge (i / 64) w
  · rw [bitIsSet_of_lt h]
    simp [empty]
  · exact bitIsSet_of_le h

theorem bitIsSet_setBit (hi : i / 64 < w) :
    bitIsSet (setBit a i) j = true ↔ j = i ∨ bitIsSet a j = true := by
  obtain hj | hj := lt_or_ge (j / 64) w
  · rw [bitIsSet_of_lt hj, bitIsSet_of_lt hj]
    simp only [setBit, Vector.getElem_mapIdx]
    split_ifs with hword
    · have hsame : j = i ↔ i % 64 = j % 64 := by omega
      rw [getLsbD_or_shift, Bool.or_eq_true, decide_eq_true_iff, hsame, or_comm]
    · have hne : j ≠ i := fun h ↦ hword (by rw [h])
      exact (or_iff_right hne).symm
  · have hne : j ≠ i := by rintro rfl; exact absurd hi (not_lt.2 hj)
    simp [bitIsSet_of_le hj, hne]

@[simp]
theorem bitIsSet_inter : bitIsSet (inter a b) i = (bitIsSet a i && bitIsSet b i) := by
  obtain h | h := lt_or_ge (i / 64) w
  · simp [bitIsSet_of_lt h, inter]
  · simp [bitIsSet_of_le h]

/-- The same numbers are the same words. -/
theorem ext_bits (h : ∀ i, bitIsSet a i = bitIsSet b i) : a = b := by
  refine Vector.ext fun k hk ↦ BitVec.eq_of_getLsbD_eq fun i hi ↦ ?_
  have hdiv : (64 * k + i) / 64 = k := by omega
  have hmod : (64 * k + i) % 64 = i := by omega
  have hlt : (64 * k + i) / 64 < w := by omega
  have hbit := h (64 * k + i)
  rw [bitIsSet_of_lt hlt, bitIsSet_of_lt hlt] at hbit
  simpa only [hdiv, hmod] using hbit

end WordSet
