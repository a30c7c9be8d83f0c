import Sley.Ssmc.Types

/-!
# Operation codes

The closed epoch-1 operation codes of `sley-ssmc/src/lib.rs` and their frozen tags. An operation body
carries a tag; that it is one of these is checked when a program is projected.
-/

namespace Sley.Ssmc

/-- Closed epoch-1 operation code. -/
inductive Opcode
  | constantRef
  | tupleNew
  | tupleGet
  | recordNew
  | recordGet
  | variantNew
  | variantGet
  | vectorNew
  | vectorLen
  | vectorGet
  | vectorSet
  | mapNew
  | mapGet
  | mapContains
  | mapInsert
  | mapRemove
  | intAddChecked
  | intSubChecked
  | intMulChecked
  | intDivChecked
  | intRemChecked
  | intNegChecked
  | intShlChecked
  | intShrChecked
  | floatAdd
  | floatSub
  | floatMul
  | floatDiv
  | floatNeg
  | floatFma
  | equal
  | notEqual
  | lessThan
  | lessEqual
  | greaterThan
  | greaterEqual
  | boolNot
  | boolAnd
  | boolOr
  | callDirect
  | optionSome
  | optionNone
  | resultOk
  | resultErr
  | contractAssert
  | testObserve
  | effectRequest
  | adapterInvoke
  | capabilityNarrow
  | cellNew
  | cellGet
  | cellSet
  | valueHash
  | globalGet
  | functionRef
  deriving DecidableEq, Repr

namespace Opcode

/-- The exact frozen opcode tag. -/
def tag : Opcode → UInt32
  | constantRef => 1
  | tupleNew => 16
  | tupleGet => 17
  | recordNew => 18
  | recordGet => 19
  | variantNew => 20
  | variantGet => 21
  | vectorNew => 32
  | vectorLen => 33
  | vectorGet => 34
  | vectorSet => 35
  | mapNew => 36
  | mapGet => 37
  | mapContains => 38
  | mapInsert => 39
  | mapRemove => 40
  | intAddChecked => 64
  | intSubChecked => 65
  | intMulChecked => 66
  | intDivChecked => 67
  | intRemChecked => 68
  | intNegChecked => 69
  | intShlChecked => 70
  | intShrChecked => 71
  | floatAdd => 80
  | floatSub => 81
  | floatMul => 82
  | floatDiv => 83
  | floatNeg => 84
  | floatFma => 85
  | equal => 96
  | notEqual => 97
  | lessThan => 98
  | lessEqual => 99
  | greaterThan => 100
  | greaterEqual => 101
  | boolNot => 102
  | boolAnd => 103
  | boolOr => 104
  | callDirect => 112
  | optionSome => 128
  | optionNone => 129
  | resultOk => 130
  | resultErr => 131
  | contractAssert => 144
  | testObserve => 145
  | effectRequest => 160
  | adapterInvoke => 161
  | capabilityNarrow => 162
  | cellNew => 176
  | cellGet => 177
  | cellSet => 178
  | valueHash => 192
  | globalGet => 193
  | functionRef => 194

/-- The code that a tag names. -/
def fromTag (tag : Nat) : Option Opcode :=
  match tag with
  | 1 => some constantRef
  | 16 => some tupleNew
  | 17 => some tupleGet
  | 18 => some recordNew
  | 19 => some recordGet
  | 20 => some variantNew
  | 21 => some variantGet
  | 32 => some vectorNew
  | 33 => some vectorLen
  | 34 => some vectorGet
  | 35 => some vectorSet
  | 36 => some mapNew
  | 37 => some mapGet
  | 38 => some mapContains
  | 39 => some mapInsert
  | 40 => some mapRemove
  | 64 => some intAddChecked
  | 65 => some intSubChecked
  | 66 => some intMulChecked
  | 67 => some intDivChecked
  | 68 => some intRemChecked
  | 69 => some intNegChecked
  | 70 => some intShlChecked
  | 71 => some intShrChecked
  | 80 => some floatAdd
  | 81 => some floatSub
  | 82 => some floatMul
  | 83 => some floatDiv
  | 84 => some floatNeg
  | 85 => some floatFma
  | 96 => some equal
  | 97 => some notEqual
  | 98 => some lessThan
  | 99 => some lessEqual
  | 100 => some greaterThan
  | 101 => some greaterEqual
  | 102 => some boolNot
  | 103 => some boolAnd
  | 104 => some boolOr
  | 112 => some callDirect
  | 128 => some optionSome
  | 129 => some optionNone
  | 130 => some resultOk
  | 131 => some resultErr
  | 144 => some contractAssert
  | 145 => some testObserve
  | 160 => some effectRequest
  | 161 => some adapterInvoke
  | 162 => some capabilityNarrow
  | 176 => some cellNew
  | 177 => some cellGet
  | 178 => some cellSet
  | 192 => some valueHash
  | 193 => some globalGet
  | 194 => some functionRef
  | _ => none

theorem fromTag_eq_some {t : Nat} {opcode : Opcode} :
    fromTag t = some opcode ↔ opcode.tag.toNat = t := by
  constructor
  · intro h
    unfold fromTag at h
    split at h
    all_goals first
      | obtain rfl := Option.some.inj h
        rfl
      | cases h
  · rintro rfl
    cases opcode <;> rfl

end Opcode

end Sley.Ssmc
