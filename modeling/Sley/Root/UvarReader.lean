import Sley.Scb1.Varint

/-!
# The varint reader of the state-root codec

The state-root crate reads bytes with a `Reader` of its own (`sley-state-root/src/lib.rs`), whose
loop for variable-length integers is written over `u64` alone. **Read by read it is the loop of
SCB1**: the same bytes are taken, the value is the same, and so is the code of a refusal
(`readUvarWidth_eq`). The public reader of SCB1 looks at the width before it reads, and refuses the
widths that no `u64` needs; this one does not look.
-/

namespace Sley.Root.StateRootReader

open Scb1 (Bytes Result Reader UvarFormat)
open Except (ofOption rejectIf)
open UInt64 (ofBitVec ofNat)

/-- `Reader::take_exact`. -/
def takeExact (r : Reader) (len : Nat) : Result (Bytes × Reader) :=
  ofOption .lengthOverflow (r.take? len)

/-- `Reader::read_u8`. -/
def readU8 (r : Reader) : Result (UInt8 × Reader) := do
  let (slice, r) ← takeExact r 1
  let byte ← ofOption .lengthOverflow slice.head?
  return (byte, r)

/-- `u64::checked_shl`. -/
def checkedShl (value : UInt64) (shift : Nat) : Option UInt64 :=
  if shift < 64 then some (value <<< ofNat shift) else none

/-- The next seven bits of a value, put in place. -/
def place (value payload : UInt64) (shift : Nat) : Result UInt64 :=
  if shift < 64 then do
    rejectIf (shift = 63 ∧ payload > 1) .integerOverflow
    let shifted ← ofOption .integerOverflow (checkedShl payload shift)
    return value ||| shifted
  else return value

/-- The loop of `Reader::read_uvar_width`. -/
def readUvarWidthLoop (width : UInt8) (r : Reader) (value : UInt64) (shift bytesRead : Nat) :
    Result (UInt64 × Reader) := do
  let (byte, r) ← readU8 r
  let bytesRead := bytesRead + 1
  let payload := (byte &&& 0x7f).toUInt64
  rejectIf (shift ≥ 64 ∧ payload ≠ 0) .integerOverflow
  let value ← place value payload shift
  if byte &&& 0x80 = 0 then
    rejectIf (bytesRead > 1 ∧ payload = 0) .varintNonMinimal
    rejectIf (width < 64 ∧ value ≥ 1 <<< width.toUInt64) .integerOverflow
    return (value, r)
  else if shift + 7 ≥ 64 + 7 then
    .error .integerOverflow
  else
    readUvarWidthLoop width r value (shift + 7) bytesRead
termination_by 71 - shift

/-- `Reader::read_uvar_width`. -/
def readUvarWidth (r : Reader) (width : UInt8) : Result (UInt64 × Reader) :=
  readUvarWidthLoop width r 0 0 0

theorem readU8_eq (r : Reader) : readU8 r = Reader.readU8 r := by
  rw [readU8, Reader.readU8, takeExact, Reader.takeExact]
  cases r.take? 1 with
  | none => rfl
  | some taken =>
    obtain ⟨slice, r'⟩ := taken
    cases slice <;> rfl

theorem toBitVec_ofNat_mod {n : Nat} (h : n < 64) :
    (ofNat n).toBitVec % 64 = BitVec.ofNat 64 n := by
  apply BitVec.eq_of_toNat_eq
  rw [BitVec.toNat_umod, UInt64.toBitVec_ofNat', BitVec.toNat_ofNat]
  show n % 2 ^ 64 % 64 = n % 2 ^ 64
  omega

/-- What a bit vector is shifted by. -/
theorem shiftLeft_ofNat {w : Nat} (value : BitVec 64) (h : w < 64) :
    value <<< BitVec.ofNat 64 w = value <<< w := by
  rw [BitVec.shiftLeft_eq', BitVec.toNat_ofNat, Nat.mod_eq_of_lt (by omega)]

theorem toBitVec_shiftLeft {value : UInt64} {shift : Nat} (h : shift < 64) :
    (value <<< ofNat shift).toBitVec = value.toBitVec <<< shift := by
  rw [UInt64.toBitVec_shiftLeft, toBitVec_ofNat_mod h, shiftLeft_ofNat _ h]

/-- The seven bits of SCB1's loop, where they are put and where they are refused. -/
theorem place_eq (value : UInt64) (byte : UInt8) (shift : Nat) :
    place value (byte &&& 0x7f).toUInt64 shift = do
      rejectIf (shift < 64 ∧ shift = 63 ∧ (byte &&& 0x7f).toNat > 1) .integerOverflow
      return ofBitVec (if shift < 64 then
        value.toBitVec ||| BitVec.ofNat 64 (byte &&& 0x7f).toNat <<< shift else value.toBitVec) := by
  have hpayload : (byte &&& 0x7f).toUInt64.toBitVec = BitVec.ofNat 64 (byte &&& 0x7f).toNat := by
    apply BitVec.eq_of_toNat_eq
    simp
  have hmax : (byte &&& 0x7f).toUInt64 > 1 ↔ (byte &&& 0x7f).toNat > 1 := by
    rw [gt_iff_lt, UInt64.lt_iff_toNat_lt, UInt8.toNat_toUInt64]
    rfl
  rw [place]
  split
  case isTrue h =>
    rw [checkedShl, if_pos h, ← hpayload, ← toBitVec_shiftLeft h, ← UInt64.toBitVec_or]
    simp only [h, true_and, hmax]
    rfl
  case isFalse h =>
    rw [Except.rejectIf_neg fun hshift ↦ h hshift.1]
    rfl

theorem width_iff {value : UInt64} {width : UInt8} : (width < 64 ∧ value ≥ 1 <<< width.toUInt64) ↔
      (width.toNat < 64 ∧ value.toBitVec ≥ 1#64 <<< width.toNat) := by
  rw [UInt8.lt_iff_toNat_lt]
  refine and_congr_right fun h ↦ ?_
  have hwidth : width.toUInt64 = ofNat width.toNat := by simp
  rw [ge_iff_le, ge_iff_le, UInt64.le_iff_toBitVec_le, hwidth, toBitVec_shiftLeft h]
  rfl

theorem bind_eq_map {α β γ : Type} {x : Result α} {f : α → Result β} {g : α → Result γ} {h : γ → β}
    (hfg : ∀ a, f a = (g a).map h) : (x >>= f) = (x >>= g).map h := by
  cases x with
  | error => rfl
  | ok a => exact hfg a

/-- **The loop is the loop of SCB1.** The induction is on what is left of the shift. -/
theorem readUvarWidthLoop_eq (width : UInt8) (r : Reader) (value : BitVec UvarFormat.u64.bits)
    (shift n : Nat) :
    readUvarWidthLoop width r (ofBitVec value) shift n =
      (Reader.readUvarLoop .u64 width.toNat r value shift n).map
        fun p ↦ (ofBitVec p.1, p.2) := by
  induction hd : 71 - shift using Nat.strong_induction_on generalizing r value shift n with
  | _ d ih =>
    subst hd
    rw [readUvarWidthLoop, readU8_eq, Reader.readUvarLoop]
    cases Reader.readU8 r with
    | error code => rfl
    | ok taken =>
      obtain ⟨byte, r'⟩ := taken
      have hzero : (byte &&& 0x7f).toUInt64 = 0 ↔ (byte &&& 0x7f).toNat = 0 := by
        rw [← UInt64.toNat_inj, UInt8.toNat_toUInt64]
        rfl
      simp only [Except.ok_bind, place_eq, bind_assoc, pure_bind, ne_eq, hzero]
      refine bind_eq_map fun _ ↦ bind_eq_map fun _ ↦ ?_
      split
      case isTrue =>
        simp only [width_iff]
        exact bind_eq_map fun _ ↦ bind_eq_map fun _ ↦ rfl
      case isFalse =>
        by_cases hlast : shift + 7 ≥ 64 + 7
        · rw [if_pos hlast]
          have hlast' : shift + 7 ≥ UvarFormat.u64.bits + 7 := hlast
          rw [if_pos hlast']
          rfl
        · rw [if_neg hlast]
          refine (ih _ (by omega) r' _ (shift + 7) (n + 1) rfl).trans ?_
          exact (congrArg (Except.map _) (if_neg hlast)).symm

/-- **The two readers agree**, at every width: on every input they take the same bytes and read the
same value, or they refuse with the same code. -/
theorem readUvarWidth_eq (r : Reader) (width : UInt8) :
    readUvarWidth r width = r.readUvarWidth width := by
  rw [readUvarWidth, Reader.readUvarWidth]
  refine (readUvarWidthLoop_eq width r 0 0 0).trans ?_
  cases Reader.readUvarLoop .u64 width.toNat r 0 0 0 <;> rfl

end Sley.Root.StateRootReader
