import Sley.Check.Types
import Sley.Lib.HostInt
import Sley.Lib.Outcome
import Sley.Ssmc.Opcode

/-!
# Checked arithmetic on integers

The eight checked instructions on integers compute in words of 128 bits and then look at the width
that the instruction has. A plain operation of the host that overflows aborts, so that an answer is
one on whose way none does. **An answer is the exact integer where there is one and the width has
it, and the code of what is missing otherwise** (`gives_checkedIntegerData`). One answer is not of
this kind: a remainder by minus one overflows where the quotient does, though it would be zero
(`checkedIntegerData_rem_lowest`).
-/

namespace Sley.Vm

open Ssmc HostInt TypeCheck
open Except hiding ok error

/-- What ends a calculation without an answer. -/
inductive CalculationFault
  /-- A value of a form that no admitted input, constant or result has. -/
  | extendedFault
  /-- The same, in the compiled tiers. -/
  | runtimeFault
  /-- A plain operation of the host overflowed, or an index was out of bounds. -/
  | abort
  deriving DecidableEq, Repr

abbrev Calculation := Except CalculationFault

/-- A plain operation is the checked one, of which an answer is demanded. -/
def demand {α : Type} (answer : Option α) : Calculation α := ofOption .abort answer

abbrev I128 := HostInt true 128

abbrev U128 := HostInt false 128

def arithmeticOverflow : UInt16 := 1

def arithmeticDivideByZero : UInt16 := 2

def arithmeticInvalidShift : UInt16 := 3

/-- One checked-integer outcome: the exact value or the arithmetic code. -/
inductive Checked
  | value (signed : I128) (unsigned : U128)
  | failure (code : UInt16)
  deriving DecidableEq

def hostOne (signed : Bool) : HostInt signed 128 := ⟨1, by cases signed <;> decide⟩

def signedBounds (bits : UInt16) : Calculation (I128 × I128) :=
  if bits ≥ 128 then return (lowest true 128, highest true 128)
  else do
    let amount ← demand (if bits = 0 then none else some (bits - 1))
    let half ← demand ((hostOne true).shiftLeft amount.toNat)
    let low ← demand half.checkedNeg
    let high ← demand (half.checkedSub (hostOne true))
    return (low, high)

def unsignedMax (bits : UInt16) : Calculation U128 :=
  if bits ≥ 128 then return highest false 128
  else do
    let top ← demand ((hostOne false).shiftLeft bits.toNat)
    demand (top.checkedSub (hostOne false))

/-- `fits`: whether a value fits a width. -/
def fitsWidth (signed : Bool) (bits : UInt16) (signedValue : I128) (unsignedValue : U128) :
    Calculation Bool :=
  if signed then do
    let (low, high) ← signedBounds bits
    return low.value ≤ signedValue.value ∧ signedValue.value ≤ high.value
  else do
    let high ← unsignedMax bits
    return unsignedValue.value ≤ high.value

/-- An operand outside of the declared width faults. -/
def readInteger (signed : Bool) (bits : UInt16) (data : ConstData) : Calculation (I128 × U128) := do
  let operand ←
    match data, signed with
    | .sInt value, true => .ok (ofBitVec true value, 0)
    | .uInt value, false => .ok (0, ofBitVec false value)
    | _, _ => .error .extendedFault
  if ← fitsWidth signed bits operand.1 operand.2 then return operand else .error .extendedFault

/-- What was computed in 128 bits, where the width has it. -/
def ranged (signed : Bool) (bits : UInt16) (signedValue : Option I128)
    (unsignedValue : Option U128) : Calculation Checked :=
  match signed, signedValue, unsignedValue with
  | true, some value, _ => do
    if ← fitsWidth true bits value 0 then return .value value 0
    else return .failure arithmeticOverflow
  | false, _, some value => do
    if ← fitsWidth false bits 0 value then return .value 0 value
    else return .failure arithmeticOverflow
  | _, _, _ => return .failure arithmeticOverflow

/-- `IntAddChecked`, `IntSubChecked` and `IntMulChecked`. -/
def checkedLinear (opcode : Opcode) (signed : Bool) (bits : UInt16) (left right : ConstData) :
    Calculation Checked := do
  let (ls, lu) ← readInteger signed bits left
  let (rs, ru) ← readInteger signed bits right
  match opcode with
  | .intAddChecked => ranged signed bits (ls.checkedAdd rs) (lu.checkedAdd ru)
  | .intSubChecked => ranged signed bits (ls.checkedSub rs) (lu.checkedSub ru)
  | _ => ranged signed bits (ls.checkedMul rs) (lu.checkedMul ru)

/-- `rs == -1 && ls == signed_bounds(bits).0`. -/
def lowestByMinusOne (bits : UInt16) (ls rs : I128) : Calculation Bool :=
  if rs.value = -1 then do
    let (low, _) ← signedBounds bits
    return ls.value = low.value
  else return false

/-- `IntDivChecked` and `IntRemChecked`. -/
def checkedQuotient (opcode : Opcode) (signed : Bool) (bits : UInt16) (left right : ConstData) :
    Calculation Checked := do
  let (ls, lu) ← readInteger signed bits left
  let (rs, ru) ← readInteger signed bits right
  if (signed ∧ rs.value = 0) ∨ (¬ signed ∧ ru.value = 0) then return .failure arithmeticDivideByZero
  else if signed then
    if ← lowestByMinusOne bits ls rs then return .failure arithmeticOverflow
    else if opcode = .intDivChecked then ranged signed bits (ls.checkedDiv rs) none
    else ranged signed bits (ls.checkedRem rs) none
  else if opcode = .intDivChecked then do
    let value ← demand (lu.checkedDiv ru)
    ranged signed bits none (some value)
  else do
    let value ← demand (lu.checkedRem ru)
    ranged signed bits none (some value)

/-- `IntNegChecked`. -/
def checkedNegation (signed : Bool) (bits : UInt16) (value : ConstData) : Calculation Checked := do
  let (signedValue, _) ← readInteger signed bits value
  let (low, _) ← signedBounds bits
  if signedValue.value = low.value then return .failure arithmeticOverflow
  else ranged signed bits signedValue.checkedNeg none

/-- `representable`: the operand is compared with the bounds of the width, shifted down. -/
def shiftRepresentable (signedValue low high : I128) (amount : ℕ) : Calculation Bool :=
  match compare signedValue.value 0 with
  | .eq => return true
  | .gt => do
    let bound ← demand (high.shiftRight amount)
    return signedValue.value ≤ bound.value
  | .lt => do
    let bound ← demand (low.shiftRight amount)
    return bound.value ≤ signedValue.value

/-- A shift to the left is made where no bit that counts is lost. -/
def shiftedLeft (signed : Bool) (bits : UInt16) (signedValue : I128) (unsignedValue : U128)
    (amount : ℕ) : Calculation Checked :=
  if signed then do
    let (low, high) ← signedBounds bits
    if ← shiftRepresentable signedValue low high amount then do
      let shifted ← demand (signedValue.shiftLeft amount)
      return .value shifted 0
    else return .failure arithmeticOverflow
  else do
    let high ← unsignedMax bits
    let bound ← demand (high.shiftRight amount)
    if unsignedValue.value ≤ bound.value then do
      let shifted ← demand (unsignedValue.shiftLeft amount)
      return .value 0 shifted
    else return .failure arithmeticOverflow

/-- `IntShlChecked` and `IntShrChecked`: the amount is `UInt(32)`. -/
def checkedShift (opcode : Opcode) (signed : Bool) (bits : UInt16) (value amount : ConstData) :
    Calculation Checked := do
  let (signedValue, unsignedValue) ← readInteger signed bits value
  match amount with
  | .uInt amount =>
    let amount := ofBitVec false amount
    if ← fitsWidth false 32 0 amount then
      -- `u32::try_from(amount).ok().filter(..)`
      if amount.value < 2 ^ 32 ∧ amount.value < bits.toNat then
        if opcode = .intShrChecked then
          if signed then do
            let shifted ← demand (signedValue.shiftRight amount.value.toNat)
            return .value shifted 0
          else do
            let shifted ← demand (unsignedValue.shiftRight amount.value.toNat)
            return .value 0 shifted
        else shiftedLeft signed bits signedValue unsignedValue amount.value.toNat
      else return .failure arithmeticInvalidShift
    else .error .extendedFault
  | _ => .error .extendedFault

/-- Shared arithmetic kernel for typed and compact execution. -/
def checkedIntegerData (opcode : Opcode) (signed : Bool) (bits : UInt16)
    (operands : List ConstData) : Calculation Checked :=
  match opcode, operands with
  | .intAddChecked, [left, right] | .intSubChecked, [left, right] | .intMulChecked, [left, right] =>
    checkedLinear opcode signed bits left right
  | .intDivChecked, [left, right] | .intRemChecked, [left, right] =>
    checkedQuotient opcode signed bits left right
  | .intNegChecked, [value] => checkedNegation signed bits value
  | .intShlChecked, [value, amount] | .intShrChecked, [value, amount] =>
    checkedShift opcode signed bits value amount
  | _, _ => .error .extendedFault

/-! ### Exact answers -/

/-- The integer of an outcome, or its code. -/
def Checked.result (signed : Bool) : Checked → Except UInt16 ℤ
  | .value signedValue unsignedValue =>
    .ok (if signed then signedValue.value else unsignedValue.value)
  | .failure code => .error code

/-- An integer, where the width has it. -/
def within (signed : Bool) (bits : UInt16) (i : ℤ) : Except UInt16 ℤ :=
  if Representable signed bits.toNat i then .ok i else .error arithmeticOverflow

/-- What an instruction says over the integers: a number that the width has, or a code. Division is
truncated, and a remainder goes with a quotient that the width has; a shift multiplies by a power of
two, or divides by it and takes the floor. -/
def exactAnswer (opcode : Opcode) (signed : Bool) (bits : UInt16) (a b : ℤ) : Except UInt16 ℤ :=
  match opcode with
  | .intAddChecked => within signed bits (a + b)
  | .intSubChecked => within signed bits (a - b)
  | .intMulChecked => within signed bits (a * b)
  | .intDivChecked =>
    if b = 0 then .error arithmeticDivideByZero else within signed bits (a.tdiv b)
  | .intRemChecked =>
    if b = 0 then .error arithmeticDivideByZero
    else do
      let _ ← within signed bits (a.tdiv b)
      within signed bits (a.tmod b)
  | .intNegChecked => within signed bits (-a)
  | .intShlChecked =>
    if b < bits.toNat then within signed bits (a * 2 ^ b.toNat) else .error arithmeticInvalidShift
  | .intShrChecked =>
    if b < bits.toNat then within signed bits (a / 2 ^ b.toNat) else .error arithmeticInvalidShift
  | _ => .error 0

/-- A calculation has an outcome, and that is an answer. -/
def Gives (signed : Bool) (calculation : Calculation Checked) (answer : Except UInt16 ℤ) : Prop :=
  ∃ outcome, calculation = .ok outcome ∧ outcome.result signed = answer

/-- The data of an integer. -/
def integerData (signed : Bool) (i : ℤ) : ConstData :=
  if signed then .sInt (BitVec.ofInt 128 i) else .uInt (BitVec.ofInt 128 i)

section Exact

variable {signed : Bool} {bits : UInt16} {a b i : ℤ} {s : I128} {u : U128}

theorem within_pos (h : Representable signed bits.toNat i) : within signed bits i = .ok i :=
  if_pos h

theorem within_neg (h : ¬ Representable signed bits.toNat i) :
    within signed bits i = .error arithmeticOverflow :=
  if_neg h

theorem demand_some {α : Type} {x : α} : demand (some x) = .ok x := rfl

theorem gives_overflow (h : ¬ Representable signed bits.toNat i) :
    Gives signed (.ok (.failure arithmeticOverflow)) (within signed bits i) :=
  ⟨_, rfl, (within_neg h).symm⟩

theorem gives_signed (h : Representable true bits.toNat i) (hs : s.value = i) :
    Gives true (.ok (.value s 0)) (within true bits i) :=
  ⟨_, rfl, by rw [within_pos h, ← hs]; rfl⟩

theorem gives_unsigned (h : Representable false bits.toNat i) (hu : u.value = i) :
    Gives false (.ok (.value 0 u)) (within false bits i) :=
  ⟨_, rfl, by rw [within_pos h, ← hu]; rfl⟩

/-- The bounds of a width, without an overflow on the way. -/
theorem signedBounds_eq (hpos : 0 < bits.toNat) (hle : bits.toNat ≤ 128) :
    ∃ low high, signedBounds bits = .ok (low, high) ∧ low.value = lowestInt true bits.toNat ∧
      high.value = highestInt true bits.toNat := by
  rw [signedBounds]
  by_cases hwide : bits ≥ 128
  · have hwidth : bits.toNat = 128 := le_antisymm hle (UInt16.le_iff_toNat_le.1 hwide)
    rw [if_pos hwide, hwidth]
    exact ⟨_, _, rfl, rfl, rfl⟩
  have hlt : bits.toNat < 128 := by
    rw [ge_iff_le, UInt16.le_iff_toNat_le] at hwide
    exact Nat.not_le.1 hwide
  have hzero : bits ≠ 0 := by
    rintro rfl
    exact hpos.ne rfl
  have hone : 1 ≤ bits := UInt16.le_iff_toNat_le.2 hpos
  have hamount : (bits - 1).toNat = bits.toNat - 1 := UInt16.toNat_sub_of_le _ _ hone
  rw [if_neg hwide, if_neg hzero, demand_some, ok_bind, hamount]
  generalize hn : bits.toNat - 1 = n
  have hpow : (0 : ℤ) < 2 ^ n := by positivity
  have hbound : (2 : ℤ) ^ n ≤ 2 ^ 126 := pow_le_pow_right₀ one_le_two (by omega)
  have hhalf : Representable true 128 (1 * 2 ^ n) :=
    representable_signed.2 ⟨by norm_num; omega, by norm_num at hbound ⊢; omega⟩
  have hleft : (hostOne true).shiftLeft n = some ⟨1 * 2 ^ n, hhalf⟩ := shiftLeft_eq (by omega) hhalf
  have hneg : Representable true 128 (-(1 * 2 ^ n)) :=
    representable_signed.2 ⟨by norm_num at hbound ⊢; omega, by norm_num; omega⟩
  have hsub : Representable true 128 (1 * 2 ^ n - 1) :=
    representable_signed.2 ⟨by norm_num; omega, by norm_num at hbound ⊢; omega⟩
  rw [hleft, demand_some, ok_bind, checkedNeg, narrow_eq hneg, demand_some, ok_bind,
    checkedSub, hostOne, narrow_eq hsub, demand_some, ok_bind]
  refine ⟨_, _, rfl, ?_, ?_⟩
  · show -(1 * 2 ^ n) = lowestInt true bits.toNat
    rw [lowestInt, if_pos rfl, hn, one_mul]
  · show 1 * 2 ^ n - 1 = highestInt true bits.toNat
    rw [highestInt, if_pos rfl, hn, one_mul]

theorem unsignedMax_eq (hle : bits.toNat ≤ 128) :
    ∃ high, unsignedMax bits = .ok high ∧ high.value = highestInt false bits.toNat := by
  rw [unsignedMax]
  split_ifs with hwide
  · have hwidth : bits.toNat = 128 := le_antisymm hle (UInt16.le_iff_toNat_le.1 hwide)
    rw [hwidth]
    exact ⟨_, rfl, rfl⟩
  have hlt : bits.toNat < 128 := by
    rw [ge_iff_le, UInt16.le_iff_toNat_le] at hwide
    exact Nat.not_le.1 hwide
  have hpow : (0 : ℤ) < 2 ^ bits.toNat := by positivity
  have hbound : (2 : ℤ) ^ bits.toNat ≤ 2 ^ 127 := pow_le_pow_right₀ one_le_two (by omega)
  have htop : Representable false 128 (1 * 2 ^ bits.toNat) :=
    representable_unsigned.2 ⟨by omega, by norm_num at hbound ⊢; omega⟩
  have hleft : (hostOne false).shiftLeft bits.toNat = some ⟨1 * 2 ^ bits.toNat, htop⟩ :=
    shiftLeft_eq hlt htop
  have hsub : Representable false 128 (1 * 2 ^ bits.toNat - 1) :=
    representable_unsigned.2 ⟨by omega, by norm_num at hbound ⊢; omega⟩
  rw [hleft, demand_some, ok_bind, checkedSub, hostOne, narrow_eq hsub, demand_some]
  refine ⟨_, rfl, ?_⟩
  show 1 * 2 ^ bits.toNat - 1 = highestInt false bits.toNat
  rw [highestInt, if_neg Bool.false_ne_true, one_mul]

theorem fitsWidth_eq (hpos : 0 < bits.toNat) (hle : bits.toNat ≤ 128) : fitsWidth signed bits s u =
      .ok (decide (Representable signed bits.toNat (if signed then s.value else u.value))) := by
  cases signed with
  | false =>
    obtain ⟨high, hmax, hhigh⟩ := unsignedMax_eq hle
    have hnonneg : lowestInt false bits.toNat ≤ u.value := u.representable.1
    rw [fitsWidth, if_neg Bool.false_ne_true, hmax, ok_bind, hhigh, if_neg Bool.false_ne_true]
    simp [Representable, hnonneg, Pure.pure, Except.pure]
  | true =>
    obtain ⟨low, high, hbounds, hlow, hhigh⟩ := signedBounds_eq hpos hle
    have hiff : low.value ≤ s.value ∧ s.value ≤ high.value ↔
        Representable true bits.toNat s.value := by
      rw [hlow, hhigh]
      rfl
    rw [fitsWidth, if_pos rfl, hbounds, ok_bind, if_pos rfl]
    exact congrArg Except.ok (decide_eq_decide.2 hiff)

variable (hpos : 0 < bits.toNat) (hle : bits.toNat ≤ 128)
include hpos hle

variable {s : I128} {u : U128}

theorem readInteger_signed (h : Representable true bits.toNat s.value) :
    readInteger true bits (.sInt s.toBitVec) = .ok (s, 0) := by
  have hfits : fitsWidth true bits s 0 = .ok true := by
    rw [fitsWidth_eq hpos hle, if_pos rfl, decide_eq_true h]
  rw [readInteger]
  simp only [ofBitVec_toBitVec (by decide : 0 < 128), ok_bind, hfits, if_true]
  rfl

theorem readInteger_unsigned (h : Representable false bits.toNat u.value) :
    readInteger false bits (.uInt u.toBitVec) = .ok (0, u) := by
  have hfits : fitsWidth false bits 0 u = .ok true := by
    rw [fitsWidth_eq hpos hle, if_neg Bool.false_ne_true, decide_eq_true h]
  rw [readInteger]
  simp only [ofBitVec_toBitVec (by decide : 0 < 128), ok_bind, hfits, if_true]
  rfl

/-- What is computed in 128 bits is exact in the width. -/
theorem gives_ranged_signed {uv : Option U128} :
    Gives true (ranged true bits (narrow true 128 i) uv) (within true bits i) := by
  by_cases h : Representable true bits.toNat i
  · have hfits : fitsWidth true bits ⟨i, h.mono hle⟩ 0 = .ok true := by
      rw [fitsWidth_eq hpos hle, if_pos rfl, decide_eq_true h]
    rw [narrow_eq (h.mono hle), ranged, hfits]
    exact gives_signed h rfl
  · cases hnarrow : narrow true 128 i with
    | none => exact gives_overflow h
    | some s =>
      have hs := narrow_eq_some.1 hnarrow
      have hfits : fitsWidth true bits s 0 = .ok false := by
        rw [fitsWidth_eq hpos hle, if_pos rfl, hs, decide_eq_false h]
      rw [ranged, hfits]
      exact gives_overflow h

theorem gives_ranged_unsigned {sv : Option I128} :
    Gives false (ranged false bits sv (narrow false 128 i)) (within false bits i) := by
  by_cases h : Representable false bits.toNat i
  · have hfits : fitsWidth false bits 0 ⟨i, h.mono hle⟩ = .ok true := by
      rw [fitsWidth_eq hpos hle, if_neg Bool.false_ne_true, decide_eq_true h]
    rw [narrow_eq (h.mono hle), ranged, hfits]
    exact gives_unsigned h rfl
  · cases hnarrow : narrow false 128 i with
    | none => exact gives_overflow h
    | some u =>
      have hu := narrow_eq_some.1 hnarrow
      have hfits : fitsWidth false bits 0 u = .ok false := by
        rw [fitsWidth_eq hpos hle, if_neg Bool.false_ne_true, hu, decide_eq_false h]
      rw [ranged, hfits]
      exact gives_overflow h

theorem readInteger_integerData_signed (h : Representable true bits.toNat i) :
    readInteger true bits (integerData true i) = .ok (⟨i, h.mono hle⟩, 0) := by
  have hdata : integerData true i = .sInt (⟨i, h.mono hle⟩ : I128).toBitVec := if_pos rfl
  rw [hdata]
  exact readInteger_signed hpos hle h

theorem readInteger_integerData_unsigned (h : Representable false bits.toNat i) :
    readInteger false bits (integerData false i) = .ok (0, ⟨i, h.mono hle⟩) := by
  have hdata : integerData false i = .uInt (⟨i, h.mono hle⟩ : U128).toBitVec :=
    if_neg Bool.false_ne_true
  rw [hdata]
  exact readInteger_unsigned hpos hle h

/-! ### One instruction at a time -/

variable {opcode : Opcode} (ha : Representable signed bits.toNat a)
include ha

theorem gives_checkedLinear (hb : Representable signed bits.toNat b)
    (hopcode : opcode = .intAddChecked ∨ opcode = .intSubChecked ∨ opcode = .intMulChecked) :
    Gives signed
      (checkedLinear opcode signed bits (integerData signed a) (integerData signed b))
      (exactAnswer opcode signed bits a b) := by
  cases signed with
  | false =>
    rw [checkedLinear, readInteger_integerData_unsigned hpos hle ha,
      readInteger_integerData_unsigned hpos hle hb]
    obtain rfl | rfl | rfl := hopcode <;> exact gives_ranged_unsigned hpos hle
  | true =>
    rw [checkedLinear, readInteger_integerData_signed hpos hle ha,
      readInteger_integerData_signed hpos hle hb]
    obtain rfl | rfl | rfl := hopcode <;> exact gives_ranged_signed hpos hle

theorem gives_checkedNegation (hsigned : signed = true) :
    Gives signed (checkedNegation signed bits (integerData signed a))
      (within signed bits (-a)) := by
  subst hsigned
  obtain ⟨low, high, hbounds, hlow, -⟩ := signedBounds_eq hpos hle
  rw [checkedNegation, readInteger_integerData_signed hpos hle ha, ok_bind]
  dsimp only
  rw [hbounds, ok_bind]
  dsimp only
  split_ifs with hlowest
  · refine gives_overflow fun h ↦ ?_
    rw [hlow, lowestInt, if_pos rfl] at hlowest
    have hhigh := (representable_signed.1 h).2
    omega
  · exact gives_ranged_signed hpos hle

/-- The quotient that is looked for is the one that overflows. -/
theorem lowestByMinusOne_eq {s r : I128} (hs : s.value = a) (hr : r.value = b)
    (hsigned : signed = true) (hb : Representable signed bits.toNat b) (hzero : b ≠ 0) :
    lowestByMinusOne bits s r = .ok (decide ¬ Representable signed bits.toNat (a.tdiv b)) := by
  subst hsigned hs hr
  obtain ⟨low, high, hbounds, hlow, -⟩ := signedBounds_eq hpos hle
  rw [lowestByMinusOne]
  have hiff := (representable_tdiv_iff ha hb hzero).not_left
  split_ifs with hone
  · rw [hbounds, ok_bind]
    refine congrArg Except.ok (decide_eq_decide.2 ?_)
    rw [hlow, hiff]
    simp [hone]
  · refine congrArg Except.ok (Eq.symm (decide_eq_false ?_))
    rw [hiff]
    simp [hone]

omit hpos hle ha in
/-- A quotient of the width, and the remainder that goes with it, as they come from the host. -/
theorem checkedDiv_eq_narrow {x y : HostInt signed 128} (hx : x.value = a) (hy : y.value = b)
    (hzero : b ≠ 0) : x.checkedDiv y = narrow signed 128 (a.tdiv b) := by
  subst hx hy
  exact checkedDiv_eq hzero

omit hpos ha in
theorem checkedRem_eq_narrow {x y : HostInt signed 128} (hx : x.value = a) (hy : y.value = b)
    (hzero : b ≠ 0) (h : Representable signed bits.toNat (a.tdiv b)) :
    x.checkedRem y = narrow signed 128 (a.tmod b) := by
  subst hx hy
  rw [checkedRem_eq hzero (h.mono hle), narrow_eq]

theorem gives_checkedQuotient (hb : Representable signed bits.toNat b)
    (hopcode : opcode = .intDivChecked ∨ opcode = .intRemChecked) :
    Gives signed
      (checkedQuotient opcode signed bits (integerData signed a) (integerData signed b))
      (exactAnswer opcode signed bits a b) := by
  by_cases hzero : b = 0
  · have hanswer : exactAnswer opcode signed bits a b = .error arithmeticDivideByZero := by
      obtain rfl | rfl := hopcode <;> exact if_pos hzero
    rw [hanswer]
    cases signed with
    | false =>
      rw [checkedQuotient, readInteger_integerData_unsigned hpos hle ha,
        readInteger_integerData_unsigned hpos hle hb]
      dsimp only [ok_bind]
      rw [if_pos (.inr ⟨Bool.false_ne_true, hzero⟩)]
      exact ⟨_, rfl, rfl⟩
    | true =>
      rw [checkedQuotient, readInteger_integerData_signed hpos hle ha,
        readInteger_integerData_signed hpos hle hb]
      dsimp only [ok_bind]
      rw [if_pos (.inl ⟨rfl, hzero⟩)]
      exact ⟨_, rfl, rfl⟩
  have hdiv : exactAnswer .intDivChecked signed bits a b = within signed bits (a.tdiv b) :=
    if_neg hzero
  have hrem : exactAnswer .intRemChecked signed bits a b =
      within signed bits (a.tdiv b) >>= fun _ ↦ within signed bits (a.tmod b) := if_neg hzero
  have hquotient := representable_tdiv_iff ha hb hzero
  cases signed with
  | false =>
    have hfits : Representable false bits.toNat (a.tdiv b) := hquotient.2 (by simp)
    rw [checkedQuotient, readInteger_integerData_unsigned hpos hle ha,
      readInteger_integerData_unsigned hpos hle hb]
    dsimp only [ok_bind]
    rw [if_neg (by simp [hzero]), if_neg Bool.false_ne_true]
    obtain rfl | rfl := hopcode
    · rw [if_pos rfl, checkedDiv_eq_narrow rfl rfl hzero, narrow_eq (hfits.mono hle),
        demand_some, ok_bind, hdiv, ← narrow_eq]
      exact gives_ranged_unsigned hpos hle
    · have hmod : Representable false 128 (a.tmod b) := (ha.mono hle).tmod
      rw [if_neg (by decide), checkedRem_eq_narrow hle rfl rfl hzero hfits, narrow_eq hmod,
        demand_some, ok_bind, hrem, within_pos hfits, ok_bind, ← narrow_eq]
      exact gives_ranged_unsigned hpos hle
  | true =>
    rw [checkedQuotient, readInteger_integerData_signed hpos hle ha,
      readInteger_integerData_signed hpos hle hb]
    dsimp only [ok_bind]
    rw [if_neg (by simp [hzero]), if_pos rfl, lowestByMinusOne_eq hpos hle ha rfl rfl rfl hb hzero,
      ok_bind]
    by_cases hfits : Representable true bits.toNat (a.tdiv b)
    · rw [decide_eq_false (not_not.2 hfits), if_neg Bool.false_ne_true]
      obtain rfl | rfl := hopcode
      · rw [if_pos rfl, checkedDiv_eq_narrow rfl rfl hzero, hdiv]
        exact gives_ranged_signed hpos hle
      · rw [if_neg (by decide), checkedRem_eq_narrow hle rfl rfl hzero hfits, hrem,
          within_pos hfits, ok_bind]
        exact gives_ranged_signed hpos hle
    · rw [decide_eq_true hfits, if_pos rfl]
      obtain rfl | rfl := hopcode
      · rw [hdiv]
        exact gives_overflow hfits
      · rw [hrem, within_neg hfits]
        exact ⟨_, rfl, rfl⟩

omit hpos in
theorem gives_shiftedLeft_unsigned {k : ℕ} (hu : u.value = a)
    (hsigned : signed = false) (hk : k < bits.toNat) :
    Gives signed (shiftedLeft signed bits s u k) (within signed bits (a * 2 ^ k)) := by
  subst hsigned hu
  obtain ⟨high, hmax, hhigh⟩ := unsignedMax_eq hle
  have hiff : Representable false bits.toNat (u.value * 2 ^ k) ↔ u.value ≤ _ :=
    representable_shiftLeft_iff ha.1
  rw [← hhigh] at hiff
  rw [shiftedLeft, if_neg Bool.false_ne_true, hmax, ok_bind,
    shiftRight_eq (hk.trans_le hle), demand_some, ok_bind]
  split_ifs with hbound
  · have hfits := hiff.2 hbound
    rw [shiftLeft_eq (hk.trans_le hle) (hfits.mono hle), demand_some, ok_bind]
    exact gives_unsigned hfits rfl
  · exact gives_overflow fun h ↦ hbound (hiff.1 h)

omit ha hpos in
/-- The test is right on both sides of zero. -/
theorem shiftRepresentable_eq {k : ℕ} {s low high : I128}
    (hlow : low.value = lowestInt true bits.toNat) (hhigh : high.value = highestInt true bits.toNat) (hk : k < bits.toNat) :
    shiftRepresentable s low high k =
      .ok (decide (Representable true bits.toNat (s.value * 2 ^ k))) := by
  have hamount : k < 128 := hk.trans_le hle
  rw [shiftRepresentable]
  cases hcompare : compare s.value 0 with
  | eq =>
    have hzero : s.value = 0 := compare_eq_iff_eq.1 hcompare
    rw [hzero, zero_mul, decide_eq_true representable_zero]
    rfl
  | gt =>
    have hgt : 0 < s.value := compare_gt_iff_gt.1 hcompare
    have hiff : Representable true bits.toNat (s.value * 2 ^ k) ↔ s.value ≤ _ :=
      representable_shiftLeft_iff hgt.le
    rw [← hhigh] at hiff
    dsimp only
    rw [shiftRight_eq hamount, demand_some, ok_bind]
    exact congrArg Except.ok (decide_eq_decide.2 hiff.symm)
  | lt =>
    have hlt : s.value < 0 := compare_lt_iff_lt.1 hcompare
    have hiff := representable_shiftLeft_iff_of_nonpos hlt.le hk
    rw [← hlow] at hiff
    dsimp only
    rw [shiftRight_eq hamount, demand_some, ok_bind]
    exact congrArg Except.ok (decide_eq_decide.2 hiff.symm)

theorem gives_shiftedLeft_signed {k : ℕ} (hs : s.value = a)
    (hsigned : signed = true) (hk : k < bits.toNat) :
    Gives signed (shiftedLeft signed bits s u k) (within signed bits (a * 2 ^ k)) := by
  subst hsigned hs
  obtain ⟨low, high, hbounds, hlow, hhigh⟩ := signedBounds_eq hpos hle
  rw [shiftedLeft, if_pos rfl, hbounds, ok_bind]
  dsimp only
  rw [shiftRepresentable_eq hle hlow hhigh hk, ok_bind]
  by_cases hfits : Representable true bits.toNat (s.value * 2 ^ k)
  · rw [decide_eq_true hfits, if_pos rfl, shiftLeft_eq (hk.trans_le hle) (hfits.mono hle),
      demand_some, ok_bind]
    exact gives_signed hfits rfl
  · rw [decide_eq_false hfits, if_neg Bool.false_ne_true]
    exact gives_overflow hfits

/-- A shift whose amount has been read. -/
theorem gives_shift {value : ConstData} (hb : Representable false 32 b)
    (hread : readInteger signed bits value = .ok (s, u))
    (hvalue : (if signed then s.value else u.value) = a)
    (hopcode : opcode = .intShlChecked ∨ opcode = .intShrChecked) :
    Gives signed (checkedShift opcode signed bits value (integerData false b))
      (exactAnswer opcode signed bits a b) := by
  obtain ⟨hnonneg, hlt⟩ := representable_unsigned.1 hb
  have hwide : Representable false 128 b := hb.mono (by decide)
  have hamount : ofBitVec false (⟨b, hwide⟩ : U128).toBitVec = ⟨b, hwide⟩ :=
    ofBitVec_toBitVec (by decide)
  have hdata : integerData false b = .uInt (⟨b, hwide⟩ : U128).toBitVec := if_neg Bool.false_ne_true
  have hfits : fitsWidth false 32 0 ⟨b, hwide⟩ = .ok true := by
    rw [fitsWidth_eq (by decide) (by decide), if_neg Bool.false_ne_true]
    exact congrArg Except.ok (decide_eq_true hb)
  rw [hdata, checkedShift, hread, ok_bind]
  dsimp only
  rw [hamount, hfits, ok_bind, if_pos rfl]
  dsimp only
  by_cases hrange : b < bits.toNat
  · have hk : b.toNat < bits.toNat := by omega
    rw [if_pos ⟨hlt, hrange⟩]
    obtain rfl | rfl := hopcode
    · have hanswer : exactAnswer .intShlChecked signed bits a b =
          within signed bits (a * 2 ^ b.toNat) := if_pos hrange
      rw [if_neg (by decide), hanswer]
      cases signed with
      | false => exact gives_shiftedLeft_unsigned hle ha hvalue rfl hk
      | true => exact gives_shiftedLeft_signed hpos hle ha hvalue rfl hk
    · have hanswer : exactAnswer .intShrChecked signed bits a b =
          within signed bits (a / 2 ^ b.toNat) := if_pos hrange
      have hfits : Representable signed bits.toNat (a / 2 ^ b.toNat) := ha.shiftRight
      rw [if_pos rfl, hanswer, shiftRight_eq (hk.trans_le hle), shiftRight_eq (hk.trans_le hle)]
      cases signed with
      | false => exact gives_unsigned hfits (congrArg (· / 2 ^ b.toNat) hvalue)
      | true => exact gives_signed hfits (congrArg (· / 2 ^ b.toNat) hvalue)
  · have hanswer : exactAnswer opcode signed bits a b = .error arithmeticInvalidShift := by
      obtain rfl | rfl := hopcode <;> exact if_neg hrange
    rw [if_neg fun h ↦ hrange h.2, hanswer]
    exact ⟨_, rfl, rfl⟩

theorem gives_checkedShift (hb : Representable false 32 b)
    (hopcode : opcode = .intShlChecked ∨ opcode = .intShrChecked) :
    Gives signed
      (checkedShift opcode signed bits (integerData signed a) (integerData false b))
      (exactAnswer opcode signed bits a b) := by
  cases signed with
  | false =>
    exact gives_shift hpos hle ha hb (readInteger_integerData_unsigned hpos hle ha) rfl hopcode
  | true =>
    exact gives_shift hpos hle ha hb (readInteger_integerData_signed hpos hle ha) rfl hopcode

end Exact

/-! ### Every instruction -/

/-- The operands of an instruction on integers: an amount is unsigned, and a negation has one
operand. -/
def operandsOf {α : Type} (operand : Bool → ℤ → α) (opcode : Opcode) (signed : Bool) (a b : ℤ) :
    List α :=
  match opcode with
  | .intNegChecked => [operand signed a]
  | .intShlChecked | .intShrChecked => [operand signed a, operand false b]
  | _ => [operand signed a, operand signed b]

/-- The operands that the language admits: those of the width, and an amount of 32 bits; only signed
integers are negated. -/
def Admits (opcode : Opcode) (signed : Bool) (bits : UInt16) (a b : ℤ) : Prop :=
  Representable signed bits.toNat a ∧
    match opcode with
    | .intAddChecked | .intSubChecked | .intMulChecked | .intDivChecked | .intRemChecked =>
      Representable signed bits.toNat b
    | .intNegChecked => signed = true
    | .intShlChecked | .intShrChecked => Representable false 32 b
    | _ => False

section Kernel

variable {opcode : Opcode} {signed : Bool} {bits : UInt16} {a b : ℤ}

theorem le_of_isEpoch1 (h : isEpoch1 ⟨bits⟩ = true) : 0 < bits.toNat ∧ bits.toNat ≤ 128 := by
  have hbits : bits = 8 ∨ bits = 16 ∨ bits = 32 ∨ bits = 64 ∨ bits = 128 := by
    simpa [isEpoch1, or_assoc] using h
  obtain rfl | rfl | rfl | rfl | rfl := hbits <;> decide

/-- **The kernel is exact.** -/
theorem gives_checkedIntegerData (hwidth : isEpoch1 ⟨bits⟩ = true)
    (h : Admits opcode signed bits a b) :
    Gives signed
      (checkedIntegerData opcode signed bits (operandsOf integerData opcode signed a b))
      (exactAnswer opcode signed bits a b) := by
  obtain ⟨hpos, hle⟩ := le_of_isEpoch1 hwidth
  obtain ⟨ha, hb⟩ := h
  cases opcode
  case intAddChecked => exact gives_checkedLinear hpos hle ha hb (.inl rfl)
  case intSubChecked => exact gives_checkedLinear hpos hle ha hb (.inr (.inl rfl))
  case intMulChecked => exact gives_checkedLinear hpos hle ha hb (.inr (.inr rfl))
  case intDivChecked => exact gives_checkedQuotient hpos hle ha hb (.inl rfl)
  case intRemChecked => exact gives_checkedQuotient hpos hle ha hb (.inr rfl)
  case intNegChecked => exact gives_checkedNegation hpos hle ha hb
  case intShlChecked => exact gives_checkedShift hpos hle ha hb (.inl rfl)
  case intShrChecked => exact gives_checkedShift hpos hle ha hb (.inr rfl)
  all_goals exact hb.elim

end Kernel

/-- The remainder of the least integer by minus one is zero, which every width has, and overflows
with the quotient. -/
theorem checkedIntegerData_rem_lowest :
    Representable true 8 ((-128 : ℤ).tmod (-1)) ∧
    checkedIntegerData .intRemChecked true 8 [integerData true (-128), integerData true (-1)] =
      .ok (.failure arithmeticOverflow) := by
  decide

end Sley.Vm
