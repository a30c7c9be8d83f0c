import Mathlib

/-!
# Integers of a host

A host has integers of several widths, signed and unsigned. A checked operation answers nothing
where the integer that it should give is not among them; a plain one must not come to that, and is
the checked one of which an answer is demanded. **An operation that answers gives the exact
integer**, so what a program computes in wide words is what it says over the integers.
-/

/-- The least integer of a form. -/
def lowestInt (signed : Bool) (width : ℕ) : ℤ := if signed then -2 ^ (width - 1) else 0

/-- The greatest integer of a form. -/
def highestInt (signed : Bool) (width : ℕ) : ℤ :=
  if signed then 2 ^ (width - 1) - 1 else 2 ^ width - 1

/-- An integer that a form has. -/
def Representable (signed : Bool) (width : ℕ) (i : ℤ) : Prop :=
  lowestInt signed width ≤ i ∧ i ≤ highestInt signed width

instance (signed : Bool) (width : ℕ) (i : ℤ) : Decidable (Representable signed width i) :=
  inferInstanceAs (Decidable (_ ∧ _))

section Representable

variable {signed : Bool} {width width' : ℕ} {i j : ℤ} {k : ℕ}

theorem representable_signed :
    Representable true width i ↔ -2 ^ (width - 1) ≤ i ∧ i < 2 ^ (width - 1) :=
  and_congr_right fun _ ↦ Int.le_sub_one_iff

theorem representable_unsigned : Representable false width i ↔ 0 ≤ i ∧ i < 2 ^ width :=
  and_congr_right fun _ ↦ Int.le_sub_one_iff

theorem two_pow_eq (hwidth : 0 < width) : (2 : ℤ) ^ width = 2 * 2 ^ (width - 1) := by
  rw [← pow_succ', Nat.sub_add_cancel hwidth]

theorem highestInt_eq (hwidth : 0 < width) :
    highestInt signed width = lowestInt signed width + 2 ^ width - 1 := by
  cases signed with
  | false => simp [highestInt, lowestInt]
  | true =>
    rw [highestInt, lowestInt, if_pos rfl, if_pos rfl, two_pow_eq hwidth]
    ring

theorem representable_zero : Representable signed width 0 := by
  have hpos : (0 : ℤ) < 2 ^ (width - 1) := by positivity
  have hpos' : (0 : ℤ) < 2 ^ width := by positivity
  cases signed with
  | false => exact representable_unsigned.2 ⟨le_rfl, hpos'⟩
  | true => exact representable_signed.2 ⟨by omega, hpos⟩

section

variable (h : Representable signed width i)

include h

theorem Representable.mono (hle : width ≤ width') : Representable signed width' i := by
  have hpow : (2 : ℤ) ^ (width - 1) ≤ 2 ^ (width' - 1) :=
    pow_le_pow_right₀ one_le_two (Nat.sub_le_sub_right hle 1)
  have hpow' : (2 : ℤ) ^ width ≤ 2 ^ width' := pow_le_pow_right₀ one_le_two hle
  cases signed with
  | false =>
    obtain ⟨hlow, hhigh⟩ := representable_unsigned.1 h
    exact representable_unsigned.2 ⟨hlow, hhigh.trans_le hpow'⟩
  | true =>
    obtain ⟨hlow, hhigh⟩ := representable_signed.1 h
    exact representable_signed.2 ⟨by omega, hhigh.trans_le hpow⟩

/-- Whatever is nearer to zero on the same side is representable too. -/
theorem Representable.of_between (hij : 0 ≤ j ∧ j ≤ i ∨
    i ≤ j ∧ j ≤ 0) : Representable signed width j := by
  obtain ⟨hlow, hhigh⟩ := h
  obtain ⟨hlow', hhigh'⟩ : Representable signed width 0 := representable_zero
  constructor <;> omega

theorem Representable.shiftRight : Representable signed width (i / 2 ^ k) := by
  have hpos : (0 : ℤ) < 2 ^ k := by positivity
  refine h.of_between ?_
  obtain hi | hi := le_or_gt 0 i
  · exact .inl ⟨Int.ediv_nonneg hi hpos.le, Int.ediv_le_self _ hi⟩
  · refine .inr ⟨?_, (Int.ediv_neg_of_neg_of_pos hi hpos).le⟩
    rw [Int.le_ediv_iff_mul_le hpos]
    nlinarith [one_le_pow₀ (one_le_two : (1 : ℤ) ≤ 2) (n := k)]

end

/-- A remainder is representable. -/
theorem Representable.tmod (hi : Representable signed width i) :
    Representable signed width (i.tmod j) := by
  have habs : (i.tmod j).natAbs ≤ i.natAbs := by
    rw [Int.natAbs_tmod]
    exact Nat.mod_le _ _
  refine hi.of_between ?_
  obtain hnonneg | hneg := le_or_gt 0 i
  · have hrem := Int.tmod_nonneg j hnonneg
    omega
  · have hrem := Int.tmod_nonneg j (a := -i) (by omega)
    rw [Int.neg_tmod] at hrem
    omega

/-- A quotient is representable, but for that of the least integer by minus one. -/
theorem representable_tdiv_iff (hi : Representable signed width i)
    (hj : Representable signed width j) (hzero : j ≠ 0) :
    Representable signed width (i.tdiv j) ↔
      ¬ (signed = true ∧ j = -1 ∧ i = lowestInt signed width) := by
  have habs := Int.natAbs_tdiv_le_natAbs i j
  cases signed with
  | false =>
    refine iff_of_true (hi.of_between (.inl ?_)) (by simp)
    exact ⟨Int.tdiv_nonneg hi.1 hj.1, Int.tdiv_le_self j hi.1⟩
  | true =>
    rw [representable_signed] at hi ⊢
    simp only [lowestInt, if_true, true_and]
    constructor
    · rintro ⟨-, hhigh⟩ ⟨rfl, rfl⟩
      rw [Int.tdiv_neg, Int.tdiv_one] at hhigh
      omega
    intro hne
    by_cases hlow : i = -2 ^ (width - 1)
    · obtain hone | htwo : 0 < j ∨ j ≤ -2 := by omega
      · have hnonpos := Int.tdiv_nonneg (a := -i) (by omega) hone.le
        rw [Int.neg_tdiv] at hnonpos
        omega
      · have hhalf : (i.tdiv j).natAbs < i.natAbs := by
          rw [Int.natAbs_tdiv]
          exact Nat.div_lt_self (by omega) (by omega)
        omega
    · omega

/-- The test of a shift to the left looks at the bounds, shifted down. -/
theorem representable_shiftLeft_iff (hi : 0 ≤ i) :
    Representable signed width (i * 2 ^ k) ↔ i ≤ highestInt signed width / 2 ^ k := by
  have hpos : (0 : ℤ) < 2 ^ k := by positivity
  have hlow : lowestInt signed width ≤ i * 2 ^ k :=
    representable_zero.1.trans (mul_nonneg hi hpos.le)
  rw [Int.le_ediv_iff_mul_le hpos]
  exact and_iff_right hlow

theorem representable_shiftLeft_iff_of_nonpos (hi : i ≤ 0) (hk : k < width) :
    Representable true width (i * 2 ^ k) ↔ lowestInt true width / 2 ^ k ≤ i := by
  have hpos : (0 : ℤ) < 2 ^ k := by positivity
  have hhigh : i * 2 ^ k ≤ highestInt true width :=
    (mul_nonpos_of_nonpos_of_nonneg hi hpos.le).trans representable_zero.2
  have hsplit : lowestInt true width = -2 ^ (width - 1 - k) * 2 ^ k := by
    rw [lowestInt, if_pos rfl, neg_mul, ← pow_add, Nat.sub_add_cancel (Nat.le_sub_one_of_lt hk)]
  rw [Representable, and_iff_left hhigh, hsplit, Int.mul_ediv_cancel _ hpos.ne']
  exact mul_le_mul_iff_of_pos_right hpos

end Representable

/-- An integer of a host. -/
@[ext]
structure HostInt (signed : Bool) (width : ℕ) where
  value : ℤ
  representable : Representable signed width value
  deriving DecidableEq

namespace HostInt

variable {signed signed' : Bool} {width width' : ℕ} {a b r : HostInt signed width} {i : ℤ} {k : ℕ}

instance : Zero (HostInt signed width) := ⟨⟨0, representable_zero⟩⟩

/-- The least host integer of a form. -/
def lowest (signed : Bool) (width : ℕ) : HostInt signed width :=
  ⟨lowestInt signed width, le_rfl, representable_zero.1.trans representable_zero.2⟩

/-- The greatest host integer of a form. -/
def highest (signed : Bool) (width : ℕ) : HostInt signed width :=
  ⟨highestInt signed width, representable_zero.1.trans representable_zero.2, le_rfl⟩

/-- The host integer of a form that is some integer: `try_from`. -/
def narrow (signed : Bool) (width : ℕ) (i : ℤ) : Option (HostInt signed width) :=
  if h : Representable signed width i then some ⟨i, h⟩ else none

theorem narrow_eq_some : narrow signed width i = some a ↔ a.value = i := by
  rw [narrow]
  split_ifs with h
  · rw [Option.some.injEq, HostInt.ext_iff]
    exact eq_comm
  · refine iff_of_false nofun ?_
    rintro rfl
    exact h a.representable

theorem narrow_eq (h : Representable signed width i) : narrow signed width i = some ⟨i, h⟩ :=
  dif_pos h

theorem narrow_eq_none : narrow signed width i = none ↔ ¬ Representable signed width i := by
  rw [narrow]
  split_ifs with h <;> simp [h]

/-! ### Checked operations -/

def checkedAdd (a b : HostInt signed width) : Option (HostInt signed width) :=
  narrow signed width (a.value + b.value)

def checkedSub (a b : HostInt signed width) : Option (HostInt signed width) :=
  narrow signed width (a.value - b.value)

def checkedMul (a b : HostInt signed width) : Option (HostInt signed width) :=
  narrow signed width (a.value * b.value)

def checkedNeg (a : HostInt signed width) : Option (HostInt signed width) :=
  narrow signed width (-a.value)

/-- A quotient, truncated. -/
def checkedDiv (a b : HostInt signed width) : Option (HostInt signed width) :=
  if b.value = 0 then none else narrow signed width (a.value.tdiv b.value)

/-- The remainder that goes with the quotient, where that is one. -/
def checkedRem (a b : HostInt signed width) : Option (HostInt signed width) :=
  if b.value = 0 then none
  else if Representable signed width (a.value.tdiv b.value) then
    some ⟨a.value.tmod b.value, a.representable.tmod⟩
  else none

theorem checkedDiv_eq (hb : b.value ≠ 0) :
    a.checkedDiv b = narrow signed width (a.value.tdiv b.value) :=
  if_neg hb

theorem checkedRem_eq (hb : b.value ≠ 0)
    (h : Representable signed width (a.value.tdiv b.value)) :
    a.checkedRem b = some ⟨a.value.tmod b.value, a.representable.tmod⟩ := by
  rw [checkedRem, if_neg hb, if_pos h]

theorem checkedRem_eq_none (h : ¬ Representable signed width (a.value.tdiv b.value)) :
    a.checkedRem b = none := by
  rw [checkedRem, if_neg h, ite_self]

/-! ### Shifts -/

/-- The host integer that an integer wraps around to. -/
def wrap (signed : Bool) (width : ℕ) (hwidth : 0 < width) (i : ℤ) : HostInt signed width where
  value := lowestInt signed width + (i - lowestInt signed width) % 2 ^ width
  representable := by
    have hpos : (0 : ℤ) < 2 ^ width := by positivity
    have hlow := Int.emod_nonneg (i - lowestInt signed width) hpos.ne'
    have hhigh := Int.emod_lt_of_pos (i - lowestInt signed width) hpos
    rw [Representable, highestInt_eq hwidth]
    omega

/-- What is representable does not wrap. -/
theorem value_wrap {hwidth : 0 < width} (h : Representable signed width i) :
    (wrap signed width hwidth i).value = i := by
  obtain ⟨hlow, hhigh⟩ := h
  rw [highestInt_eq hwidth] at hhigh
  show lowestInt signed width + (i - lowestInt signed width) % 2 ^ width = i
  rw [Int.emod_eq_of_lt (by omega) (by omega)]
  omega

/-- A shift to the left drops the bits that leave the width; it has an answer for the amounts below
the width. -/
def shiftLeft (a : HostInt signed width) (k : ℕ) : Option (HostInt signed width) :=
  if h : k < width then some (wrap signed width (Nat.zero_lt_of_lt h) (a.value * 2 ^ k)) else none

/-- A shift to the right, with the sign. -/
def shiftRight (a : HostInt signed width) (k : ℕ) : Option (HostInt signed width) :=
  if k < width then some ⟨a.value / 2 ^ k, a.representable.shiftRight⟩ else none

theorem shiftLeft_eq (hk : k < width) (h : Representable signed width (a.value * 2 ^ k)) :
    a.shiftLeft k = some ⟨a.value * 2 ^ k, h⟩ := by
  rw [shiftLeft, dif_pos hk, Option.some.injEq]
  exact HostInt.ext (value_wrap h)

theorem shiftRight_eq (hk : k < width) :
    a.shiftRight k = some ⟨a.value / 2 ^ k, a.representable.shiftRight⟩ :=
  if_pos hk

/-! ### Words -/

/-- The host integer that a word stands for. -/
def ofBitVec (signed : Bool) (word : BitVec width) : HostInt signed width where
  value := if signed then word.toInt else word.toNat
  representable := by
    cases signed with
    | false =>
      have hlt : (word.toNat : ℤ) < 2 ^ width := by exact_mod_cast word.isLt
      exact representable_unsigned.2 ⟨Int.natCast_nonneg _, hlt⟩
    | true => exact representable_signed.2 ⟨word.le_toInt, BitVec.toInt_lt⟩

/-- The word of a host integer. -/
def toBitVec (a : HostInt signed width) : BitVec width := BitVec.ofInt width a.value

@[simp]
theorem toBitVec_ofBitVec {word : BitVec width} : (ofBitVec signed word).toBitVec = word := by
  cases signed with
  | false =>
    show BitVec.ofInt width (word.toNat : ℤ) = word
    rw [BitVec.ofInt_natCast, BitVec.ofNat_toNat, BitVec.setWidth_eq]
  | true => exact BitVec.ofInt_toInt

@[simp]
theorem ofBitVec_toBitVec (hwidth : 0 < width) : ofBitVec signed a.toBitVec = a := by
  have ha := a.representable
  refine HostInt.ext ?_
  cases signed with
  | false =>
    obtain ⟨hlow, hhigh⟩ := representable_unsigned.1 ha
    show ((BitVec.ofInt width a.value).toNat : ℤ) = a.value
    rw [BitVec.toNat_ofInt, Int.toNat_of_nonneg (Int.emod_nonneg _ (by positivity))]
    exact Int.emod_eq_of_lt hlow (by exact_mod_cast hhigh)
  | true =>
    obtain ⟨hlow, hhigh⟩ := representable_signed.1 ha
    exact BitVec.toInt_ofInt_eq_self hwidth hlow hhigh

end HostInt
