import Sley.Vm.Integers

/-!
# Integers in the compiled tiers

The scalar tier holds an integer in an atom of 128 bits, and the word tier in a word of 64. At 64
bits both compute the five instructions on two integers in the host's own words, and the word tier a
negation too; everything else goes to the shared kernel. **All of them answer as the kernel does**
(`checkedInteger_exact`).
-/

namespace Sley.Vm

open Ssmc HostInt TypeCheck
open Except hiding ok error
open BitVec (ofInt)

/-! ### Answers in the host's words -/

section Host

variable {signed : Bool} {i : ℤ} {x y : HostInt signed 64}

/-- The integer of a checked operation, or the code where it has no answer. -/
def hostAnswer (answer : Option (HostInt signed 64)) : Except UInt16 ℤ :=
  ofOption arithmeticOverflow (answer.map (·.value))

theorem hostAnswer_narrow : hostAnswer (narrow signed 64 i) = within signed 64 i := by
  by_cases h : Representable signed 64 i
  · have hwithin : within signed 64 i = .ok i := within_pos h
    rw [narrow_eq h, hwithin]
    rfl
  · have hwithin : within signed 64 i = .error arithmeticOverflow := within_neg h
    rw [narrow_eq_none.2 h, hwithin]
    rfl

theorem hostAnswer_checkedDiv (hzero : y.value ≠ 0) : hostAnswer (x.checkedDiv y) =
    exactAnswer .intDivChecked signed 64 x.value y.value := by
  rw [checkedDiv_eq hzero, hostAnswer_narrow, exactAnswer, if_neg hzero]

/-- A remainder in the host's words is one that goes with a quotient. -/
theorem hostAnswer_checkedRem (hzero : y.value ≠ 0) : hostAnswer (x.checkedRem y) =
    exactAnswer .intRemChecked signed 64 x.value y.value := by
  have hanswer : exactAnswer .intRemChecked signed 64 x.value y.value =
      within signed 64 (x.value.tdiv y.value) >>= fun _ ↦
        within signed 64 (x.value.tmod y.value) := if_neg hzero
  rw [hanswer]
  by_cases h : Representable signed 64 (x.value.tdiv y.value)
  · have hwithin : within signed 64 (x.value.tdiv y.value) = .ok _ := within_pos h
    rw [checkedRem_eq hzero h, hwithin, ok_bind, ← hostAnswer_narrow, narrow_eq]
  · have hwithin : within signed 64 (x.value.tdiv y.value) = .error arithmeticOverflow :=
      within_neg h
    rw [checkedRem_eq_none h, hwithin]
    rfl

/-- Unsigned words always have a quotient, and so a remainder. -/
theorem isSome_quotient (hsigned : signed = false) (hzero : y.value ≠ 0) :
    (x.checkedDiv y).isSome ∧ (x.checkedRem y).isSome := by
  have hfits : Representable signed 64 (x.value.tdiv y.value) :=
    (representable_tdiv_iff x.representable y.representable hzero).2 (by simp [hsigned])
  rw [checkedDiv_eq hzero, narrow_eq hfits, checkedRem_eq hzero hfits]
  exact ⟨rfl, rfl⟩

end Host

namespace Scalar

/-! ### The scalar tier -/

inductive Atom
  | borrowed (value : ConstValue)
  | unit
  | bool (value : Bool)
  | signed (value : I128)
  | unsigned (value : U128)
  | failure (code : UInt16)

/-- The wrapper around an atom. -/
inductive Shape
  | plain
  | ok
  | err
  | some
  | none
  deriving DecidableEq, Repr

structure Value where
  atom : Atom
  shape : Shape

def boolean (value : Bool) : Value := ⟨.bool value, .plain⟩

def failure (code : UInt16) : Value := ⟨.failure code, .err⟩

/-- A two-operand 64-bit integer step. -/
structure Word where
  op : Opcode
  signed : Bool

/-- The atom of a 64-bit integer: `i128::from` or `u128::from`. -/
def wordAtom : {signed : Bool} → HostInt signed 64 → Atom
  | true, word => .signed ⟨word.value, word.representable.mono (by decide)⟩
  | false, word => .unsigned ⟨word.value, word.representable.mono (by decide)⟩

/-- A checked operation, with its code where it has no answer. -/
def orOverflow {signed : Bool} : Option (HostInt signed 64) → Value
  | some value => ⟨wordAtom value, .ok⟩
  | none => failure arithmeticOverflow

/-- `arithmetic!`. -/
def arithmetic {signed : Bool} (op : Opcode) (x y : HostInt signed 64) :
    Calculation (Option Value) :=
  match op with
  | .equal => return some (boolean (x.value = y.value))
  | .notEqual => return some (boolean (x.value ≠ y.value))
  | .lessThan => return some (boolean (x.value < y.value))
  | .lessEqual => return some (boolean (x.value ≤ y.value))
  | .greaterThan => return some (boolean (x.value > y.value))
  | .greaterEqual => return some (boolean (x.value ≥ y.value))
  | .intAddChecked => return some (orOverflow (x.checkedAdd y))
  | .intSubChecked => return some (orOverflow (x.checkedSub y))
  | .intMulChecked => return some (orOverflow (x.checkedMul y))
  | .intDivChecked =>
    if y.value = 0 then return some (failure arithmeticDivideByZero)
    else return some (orOverflow (x.checkedDiv y))
  | .intRemChecked =>
    if y.value = 0 then return some (failure arithmeticDivideByZero)
    else if signed then return some (orOverflow (x.checkedRem y))
    else do
      let value ← demand (x.checkedRem y)
      return some ⟨wordAtom value, .ok⟩
  | _ => return none

/-- `word_value`: a word operation on two in-range 64-bit operands, or nothing. -/
def wordValue (word : Word) (a b : Atom) : Calculation (Option Value) :=
  match word.signed, a, b with
  | true, .signed x, .signed y =>
    match narrow true 64 x.value, narrow true 64 y.value with
    | some x, some y => arithmetic word.op x y
    | _, _ => return none
  | false, .unsigned x, .unsigned y =>
    match narrow false 64 x.value, narrow false 64 y.value with
    | some x, some y => arithmetic word.op x y
    | _, _ => return none
  | _, _, _ => return none

/-- The operand of a fast step; one outside of the width faults. -/
def wordOperand : (signed : Bool) → Atom → Calculation (HostInt signed 64)
  | true, .signed value => ofOption .runtimeFault (narrow true 64 value.value)
  | false, .unsigned value => ofOption .runtimeFault (narrow false 64 value.value)
  | _, _ => .error .runtimeFault

/-- The answer of a fast step on two words. -/
def wordAnswer {signed : Bool} (opcode : Opcode) (x y : HostInt signed 64) :
    Calculation (Option (Except UInt16 (HostInt signed 64))) :=
  match opcode with
  | .intAddChecked => return some (ofOption arithmeticOverflow (x.checkedAdd y))
  | .intSubChecked => return some (ofOption arithmeticOverflow (x.checkedSub y))
  | .intMulChecked => return some (ofOption arithmeticOverflow (x.checkedMul y))
  | .intDivChecked =>
    if y.value = 0 then return some (.error arithmeticDivideByZero)
    else if signed ∧ y.value = -1 ∧ x.value = lowestInt true 64 then
      return some (.error arithmeticOverflow)
    else do
      let value ← demand (x.checkedDiv y)
      return some (.ok value)
  | .intRemChecked =>
    if y.value = 0 then return some (.error arithmeticDivideByZero)
    else if signed ∧ y.value = -1 ∧ x.value = lowestInt true 64 then
      return some (.error arithmeticOverflow)
    else do
      let value ← demand (x.checkedRem y)
      return some (.ok value)
  | _ => return none

def isWordOpcode : Opcode → Bool
  | .intAddChecked | .intSubChecked | .intMulChecked | .intDivChecked | .intRemChecked => true
  | _ => false

/-- `checked_word`: the 64-bit fast path. -/
def checkedWord (opcode : Opcode) (signed : Bool) (a : Atom) (b : Option Atom) :
    Calculation (Option Value) :=
  match b with
  | none => return none
  | some b =>
    if isWordOpcode opcode then do
      let x ← wordOperand signed a
      let y ← wordOperand signed b
      match ← wordAnswer opcode x y with
      | some (.ok value) => return some ⟨wordAtom value, .ok⟩
      | some (.error code) => return some (failure code)
      | none => return none
    else return none

def atomData : Atom → Calculation ConstData
  | .signed value => .ok (.sInt value.toBitVec)
  | .unsigned value => .ok (.uInt value.toBitVec)
  | _ => .error .runtimeFault

/-- The value of an outcome of the kernel. -/
def valueOf (signed : Bool) : Checked → Value
  | .value signedValue unsignedValue =>
    ⟨if signed then .signed signedValue else .unsigned unsignedValue, .ok⟩
  | .failure code => failure code

/-- A fault of the kernel is one of the tier; what aborts, aborts. -/
def runtimeFault {α : Type} : Calculation α → Calculation α
  | .error .extendedFault => .error .runtimeFault
  | calculation => calculation

/-- The fast path of `checked`: it is taken at 64 bits. -/
def checkedFast (opcode : Opcode) (signed : Bool) (bits : UInt16) (a : Value)
    (b : Option Value) : Calculation (Option Value) :=
  if bits = 64 then checkedWord opcode signed a.atom (b.map (·.atom)) else return none

/-- The general path of `checked`. -/
def checkedGeneral (opcode : Opcode) (signed : Bool) (bits : UInt16) (a : Value)
    (b : Option Value) : Calculation Value := do
  let first ← atomData a.atom
  let second ← (b.toList.map (·.atom)).mapM atomData
  let outcome ← runtimeFault (checkedIntegerData opcode signed bits (first :: second))
  return valueOf signed outcome

/-- `checked`, of a step with an opcode, the width of its first operand and one or two operands. -/
def checked (opcode : Opcode) (width : Option (Bool × UInt16)) (a : Value) (b : Option Value) :
    Calculation Value := do
  let (signed, bits) ← ofOption .runtimeFault width
  match ← checkedFast opcode signed bits a b with
  | some value => return value
  | none => checkedGeneral opcode signed bits a b

/-! ### The scalar tier is exact -/

/-- The atom of an integer. -/
def integerAtom (signed : Bool) (i : ℤ) : Atom :=
  if signed then .signed (ofBitVec true (ofInt 128 i))
  else .unsigned (ofBitVec false (ofInt 128 i))

/-- The value of an exact answer. -/
def answerValue (signed : Bool) : Except UInt16 ℤ → Value
  | .ok i => ⟨integerAtom signed i, .ok⟩
  | .error code => failure code

section Exact

variable {opcode : Opcode} {signed : Bool} {bits : UInt16} {a b i : ℤ}

theorem integerAtom_signed (s : I128) : integerAtom true s.value = .signed s := by
  have hs : ofBitVec true s.toBitVec = s := ofBitVec_toBitVec (by decide)
  exact (if_pos rfl).trans (congrArg Atom.signed hs)

theorem integerAtom_unsigned (u : U128) : integerAtom false u.value = .unsigned u := by
  have hu : ofBitVec false u.toBitVec = u := ofBitVec_toBitVec (by decide)
  exact (if_neg Bool.false_ne_true).trans (congrArg Atom.unsigned hu)

theorem wordAtom_eq (word : HostInt signed 64) : wordAtom word = integerAtom signed word.value := by
  cases signed with
  | false => exact (integerAtom_unsigned ⟨word.value, word.representable.mono (by decide)⟩).symm
  | true => exact (integerAtom_signed ⟨word.value, word.representable.mono (by decide)⟩).symm

theorem valueOf_eq {outcome : Checked} :
    valueOf signed outcome = answerValue signed (outcome.result signed) := by
  cases outcome with
  | failure code => rfl
  | value s u =>
    cases signed with
    | false => exact congrArg (Value.mk · .ok) (integerAtom_unsigned u).symm
    | true => exact congrArg (Value.mk · .ok) (integerAtom_signed s).symm

variable {answer : Option (HostInt signed 64)}

theorem orOverflow_eq : orOverflow answer = answerValue signed (hostAnswer answer) := by
  cases answer with
  | none => rfl
  | some value => exact congrArg (Value.mk · .ok) (wordAtom_eq value)

theorem orOverflow_narrow :
    orOverflow (narrow signed 64 i) = answerValue signed (within signed 64 i) := by
  rw [orOverflow_eq, hostAnswer_narrow]

/-- `word_value` answers exactly. -/
theorem arithmetic_eq {x y : HostInt signed 64} (hopcode : isWordOpcode opcode = true) :
    arithmetic opcode x y =
      .ok (some (answerValue signed (exactAnswer opcode signed 64 x.value y.value))) := by
  cases opcode
  case intAddChecked => exact congrArg (Except.ok ∘ some) orOverflow_narrow
  case intSubChecked => exact congrArg (Except.ok ∘ some) orOverflow_narrow
  case intMulChecked => exact congrArg (Except.ok ∘ some) orOverflow_narrow
  case intDivChecked =>
    rw [arithmetic]
    split_ifs with hzero
    · rw [exactAnswer, if_pos hzero]
      rfl
    · rw [orOverflow_eq, hostAnswer_checkedDiv hzero]
      rfl
  case intRemChecked =>
    rw [arithmetic]
    split_ifs with hzero hsigned
    · rw [exactAnswer, if_pos hzero]
      rfl
    · rw [orOverflow_eq, hostAnswer_checkedRem hzero]
      rfl
    · have hsome := (isSome_quotient (x := x) (Bool.eq_false_iff.2 hsigned) hzero).2
      obtain ⟨value, hvalue⟩ := Option.isSome_iff_exists.1 hsome
      rw [← hostAnswer_checkedRem hzero, hvalue, demand_some, ok_bind, wordAtom_eq]
      rfl
  all_goals cases hopcode

/-- The words of 64 bits are those of the width. -/
theorem narrow_integerAtom_signed (h : Representable true 64 i) :
    ∃ s : I128, integerAtom true i = .signed s ∧ narrow true 64 s.value = some ⟨i, h⟩ := by
  have hs : integerAtom true i = .signed ⟨i, h.mono (by decide)⟩ :=
    integerAtom_signed ⟨i, h.mono (by decide)⟩
  exact ⟨_, hs, narrow_eq h⟩

theorem narrow_integerAtom_unsigned (h : Representable false 64 i) :
    ∃ u : U128, integerAtom false i = .unsigned u ∧ narrow false 64 u.value = some ⟨i, h⟩ := by
  have hu : integerAtom false i = .unsigned ⟨i, h.mono (by decide)⟩ :=
    integerAtom_unsigned ⟨i, h.mono (by decide)⟩
  exact ⟨_, hu, narrow_eq h⟩

/-- **The step of two words answers exactly.** -/
theorem wordValue_exact (ha : Representable signed 64 a) (hb : Representable signed 64 b)
    (hopcode : isWordOpcode opcode = true) :
    wordValue ⟨opcode, signed⟩ (integerAtom signed a) (integerAtom signed b) =
      .ok (some (answerValue signed (exactAnswer opcode signed 64 a b))) := by
  cases signed with
  | false =>
    obtain ⟨x, hx, hxa⟩ := narrow_integerAtom_unsigned ha
    obtain ⟨y, hy, hyb⟩ := narrow_integerAtom_unsigned hb
    rw [hx, hy]
    simp only [wordValue, hxa, hyb]
    exact arithmetic_eq hopcode
  | true =>
    obtain ⟨x, hx, hxa⟩ := narrow_integerAtom_signed ha
    obtain ⟨y, hy, hyb⟩ := narrow_integerAtom_signed hb
    rw [hx, hy]
    simp only [wordValue, hxa, hyb]
    exact arithmetic_eq hopcode

theorem wordOperand_integerAtom (h : Representable signed 64 i) :
    wordOperand signed (integerAtom signed i) = .ok ⟨i, h⟩ := by
  cases signed with
  | false =>
    obtain ⟨x, hx, hxi⟩ := narrow_integerAtom_unsigned h
    rw [hx, wordOperand, hxi]
    rfl
  | true =>
    obtain ⟨x, hx, hxi⟩ := narrow_integerAtom_signed h
    rw [hx, wordOperand, hxi]
    rfl

/-- The value of an answer in a host's word. -/
def wordAnswerValue : Except UInt16 (HostInt signed 64) → Value
  | .ok value => ⟨wordAtom value, .ok⟩
  | .error code => failure code

theorem wordAnswerValue_ofOption :
    wordAnswerValue (ofOption arithmeticOverflow answer) = orOverflow answer := by
  cases answer <;> rfl

theorem wordAnswer_eq {x y : HostInt signed 64} (hopcode : isWordOpcode opcode = true) :
    ∃ answer, wordAnswer opcode x y = .ok (some answer) ∧ wordAnswerValue answer =
        answerValue signed (exactAnswer opcode signed 64 x.value y.value) := by
  have hlinear {r : Option (HostInt signed 64)} (hr : orOverflow r =
      answerValue signed (exactAnswer opcode signed 64 x.value y.value)) :
      wordAnswerValue (ofOption arithmeticOverflow r) =
        answerValue signed (exactAnswer opcode signed 64 x.value y.value) :=
    wordAnswerValue_ofOption.trans hr
  have hlowest : y.value ≠ 0 → (signed = true ∧ y.value = -1 ∧ x.value = lowestInt true 64 ↔
      ¬ Representable signed 64 (x.value.tdiv y.value)) := fun hzero ↦ by
    rw [representable_tdiv_iff x.representable y.representable hzero, not_not]
    refine and_congr_right fun hsigned ↦ ?_
    subst hsigned
    exact Iff.rfl
  cases opcode
  case intAddChecked => exact ⟨_, rfl, hlinear orOverflow_narrow⟩
  case intSubChecked => exact ⟨_, rfl, hlinear orOverflow_narrow⟩
  case intMulChecked => exact ⟨_, rfl, hlinear orOverflow_narrow⟩
  case intDivChecked =>
    rw [wordAnswer]
    split_ifs with hzero hsigned
    · refine ⟨_, rfl, ?_⟩
      rw [exactAnswer, if_pos hzero]
      rfl
    · refine ⟨_, rfl, ?_⟩
      rw [← hostAnswer_checkedDiv hzero, checkedDiv_eq hzero,
        narrow_eq_none.2 ((hlowest hzero).1 hsigned)]
      rfl
    · have hfits := not_not.1 (mt (hlowest hzero).2 hsigned)
      rw [← hostAnswer_checkedDiv hzero, checkedDiv_eq hzero, narrow_eq hfits]
      refine ⟨_, rfl, ?_⟩
      rw [wordAnswerValue, wordAtom_eq]
      rfl
  case intRemChecked =>
    rw [wordAnswer]
    split_ifs with hzero hsigned
    · refine ⟨_, rfl, ?_⟩
      rw [exactAnswer, if_pos hzero]
      rfl
    · refine ⟨_, rfl, ?_⟩
      rw [← hostAnswer_checkedRem hzero, checkedRem_eq_none ((hlowest hzero).1 hsigned)]
      rfl
    · have hfits := not_not.1 (mt (hlowest hzero).2 hsigned)
      rw [← hostAnswer_checkedRem hzero, checkedRem_eq hzero hfits]
      refine ⟨_, rfl, ?_⟩
      rw [wordAnswerValue, wordAtom_eq]
      rfl
  all_goals cases hopcode

/-- **The fast path answers exactly, or leaves the step to the kernel.** -/
theorem checkedWord_exact (ha : Representable signed 64 a) (hb : Representable signed 64 b)
    (hopcode : isWordOpcode opcode = true) :
    checkedWord opcode signed (integerAtom signed a) (some (integerAtom signed b)) =
      .ok (some (answerValue signed (exactAnswer opcode signed 64 a b))) := by
  obtain ⟨answer, hanswer, hvalue⟩ := wordAnswer_eq (x := ⟨a, ha⟩) (y := ⟨b, hb⟩) hopcode
  rw [checkedWord]
  simp only [hopcode, if_true, wordOperand_integerAtom ha, wordOperand_integerAtom hb,
    ok_bind, hanswer]
  rw [← hvalue]
  cases answer <;> rfl

theorem checkedWord_eq_none {x : Atom} {y : Option Atom}
    (h : y = none ∨ isWordOpcode opcode = false) : checkedWord opcode signed x y = .ok none := by
  obtain rfl | hopcode := h
  · rfl
  · cases y with
    | none => rfl
    | some y =>
      simp only [checkedWord, hopcode]
      rfl

theorem atomData_integerAtom : atomData (integerAtom signed i) = .ok (integerData signed i) := by
  cases signed <;> simp [integerAtom, atomData, integerData]

/-- The operands of a step, as atoms and as data. -/
theorem mapM_atomData : (operandsOf integerAtom opcode signed a b).mapM atomData =
    .ok (operandsOf integerData opcode signed a b) := by
  have hone : [integerAtom signed a].mapM atomData = .ok [integerData signed a] := by
    simp [atomData_integerAtom]
  have htwo (second : Bool) : [integerAtom signed a, integerAtom second b].mapM atomData =
      .ok [integerData signed a, integerData second b] := by
    simp [atomData_integerAtom]
  cases opcode
  case intNegChecked => exact hone
  case intShlChecked => exact htwo false
  case intShrChecked => exact htwo false
  all_goals exact htwo signed

/-- The operands of a fast step are two integers of its width. -/
theorem operandsOf_of_isWordOpcode {α : Type} {operand : Bool → ℤ → α}
    (hopcode : isWordOpcode opcode = true) :
    operandsOf operand opcode signed a b = [operand signed a, operand signed b] := by
  cases opcode
  case intNegChecked => cases hopcode
  case intShlChecked => cases hopcode
  case intShrChecked => cases hopcode
  all_goals rfl

theorem representable_of_admits (h : Admits opcode signed bits a b)
    (hopcode : isWordOpcode opcode = true) :
    Representable signed bits.toNat a ∧ Representable signed bits.toNat b := by
  refine h.imp_right fun hb ↦ ?_
  cases opcode
  case intAddChecked => exact hb
  case intSubChecked => exact hb
  case intMulChecked => exact hb
  case intDivChecked => exact hb
  case intRemChecked => exact hb
  all_goals cases hopcode

section Steps

variable {x : Value} {y : Option Value} (hwidth : isEpoch1 ⟨bits⟩ = true)
  (h : Admits opcode signed bits a b)
  (hatoms : x.atom :: y.toList.map (·.atom) = operandsOf integerAtom opcode signed a b)
include hwidth h hatoms

theorem checkedGeneral_exact : checkedGeneral opcode signed bits x y =
    .ok (answerValue signed (exactAnswer opcode signed bits a b)) := by
  obtain ⟨outcome, hkernel, hresult⟩ := gives_checkedIntegerData hwidth h
  have hdata : (operandsOf integerAtom opcode signed a b).mapM atomData = _ := mapM_atomData
  rw [← hatoms, List.mapM_cons, bind_eq_ok] at hdata
  obtain ⟨first, hfirst, hdata⟩ := hdata
  obtain ⟨second, hsecond, hdata⟩ := bind_eq_ok.1 hdata
  have hall := pure_eq_ok.1 hdata
  rw [checkedGeneral, hfirst, ok_bind, hsecond, ok_bind, ← hall, hkernel, ← hresult, ← valueOf_eq]
  rfl

/-- **A checked step of the scalar tier answers exactly.** -/
theorem checked_exact : checked opcode (some (signed, bits)) x y =
    .ok (answerValue signed (exactAnswer opcode signed bits a b)) := by
  by_cases hfast : bits = 64 ∧ isWordOpcode opcode = true
  · obtain ⟨rfl, hopcode⟩ := hfast
    obtain ⟨ha, hb⟩ := representable_of_admits h hopcode
    rw [operandsOf_of_isWordOpcode hopcode] at hatoms
    obtain ⟨hx, hy⟩ := List.cons_eq_cons.1 hatoms
    cases y with
    | none => cases hy
    | some y =>
      obtain ⟨hy, -⟩ := List.cons_eq_cons.1 hy
      have hword := checkedWord_exact ha hb hopcode
      rw [← hx, ← hy] at hword
      have hfast : checkedFast opcode signed 64 x (some y) = .ok _ := (if_pos rfl).trans hword
      rw [checked]
      simp only [ofOption, ok_bind, hfast]
      rfl
  · have hnone : checkedFast opcode signed bits x y = .ok none := by
      rw [checkedFast]
      split_ifs with hbits
      · refine checkedWord_eq_none (.inr ?_)
        simpa using fun hopcode ↦ hfast ⟨hbits, hopcode⟩
      · rfl
    rw [checked]
    simp only [ofOption, ok_bind, hnone]
    exact checkedGeneral_exact hwidth h hatoms

end Steps

end Exact

end Scalar

namespace Words

/-! ### The word tier -/

/-- A word step's operation, its operands' slots and (for integers) its signedness. -/
inductive Op
  | constant (index : UInt32)
  | eq (a b : UInt32)
  | ne (a b : UInt32)
  | ltS (a b : UInt32)
  | leS (a b : UInt32)
  | ltU (a b : UInt32)
  | leU (a b : UInt32)
  | addS (a b : UInt32)
  | subS (a b : UInt32)
  | mulS (a b : UInt32)
  | divS (a b : UInt32)
  | remS (a b : UInt32)
  | addU (a b : UInt32)
  | subU (a b : UInt32)
  | mulU (a b : UInt32)
  | divU (a b : UInt32)
  | remU (a b : UInt32)
  | neg (a : UInt32)
  | not (a : UInt32)
  | and (a b : UInt32)
  | or (a b : UInt32)
  | vecLen (a : UInt32)
  | vecGet (a b : UInt32)
  | call (site : UInt32)
  | copy (a : UInt32)
  | guard (block : UInt32)
  | guardTrue (block : UInt32)
  | guardFalse (block : UInt32)

/-- `compile_step`, of a step on integers of 64 bits. -/
def Op.ofStep (opcode : Opcode) (signed : Bool) (slots : List UInt32) : Option Op :=
  match opcode, signed, slots with
  | .equal, _, [a, b] => some (eq a b)
  | .notEqual, _, [a, b] => some (ne a b)
  | .lessThan, true, [a, b] => some (ltS a b)
  | .lessEqual, true, [a, b] => some (leS a b)
  | .greaterThan, true, [a, b] => some (ltS b a)
  | .greaterEqual, true, [a, b] => some (leS b a)
  | .lessThan, false, [a, b] => some (ltU a b)
  | .lessEqual, false, [a, b] => some (leU a b)
  | .greaterThan, false, [a, b] => some (ltU b a)
  | .greaterEqual, false, [a, b] => some (leU b a)
  | .intAddChecked, true, [a, b] => some (addS a b)
  | .intSubChecked, true, [a, b] => some (subS a b)
  | .intMulChecked, true, [a, b] => some (mulS a b)
  | .intDivChecked, true, [a, b] => some (divS a b)
  | .intRemChecked, true, [a, b] => some (remS a b)
  | .intAddChecked, false, [a, b] => some (addU a b)
  | .intSubChecked, false, [a, b] => some (subU a b)
  | .intMulChecked, false, [a, b] => some (mulU a b)
  | .intDivChecked, false, [a, b] => some (divU a b)
  | .intRemChecked, false, [a, b] => some (remU a b)
  | .intNegChecked, true, [a] => some (neg a)
  | _, _, _ => none

/-- A word of a slot. -/
abbrev Slot := BitVec 64

structure WordStep where
  op : Op
  output : UInt32
  /-- The units of a value and of a failure. -/
  units : UInt64 × UInt64

/-- The slots of a frame, and the flags of those whose check failed. -/
structure WordFrame where
  registers : List Slot
  flags : List Bool

def WordFrame.word (frame : WordFrame) (i : UInt32) : Calculation Slot :=
  demand frame.registers[i.toNat]?

/-- The word of a slot, read as an integer of the host. -/
def WordFrame.read (frame : WordFrame) (signed : Bool) (i : UInt32) :
    Calculation (HostInt signed 64) :=
  ofBitVec signed <$> frame.word i

def WordFrame.write (frame : WordFrame) (out : UInt32) (word : Slot) : Calculation WordFrame :=
  if out.toNat < frame.registers.length then
    return { frame with registers := frame.registers.set out.toNat word }
  else .error .abort

def WordFrame.mark (frame : WordFrame) (out : UInt32) (flag : Bool) : Calculation WordFrame :=
  if out.toNat < frame.flags.length then
    return { frame with flags := frame.flags.set out.toNat flag }
  else .error .abort

def slotOf (value : Bool) : Slot := if value then 1 else 0

/-- A checked operation, with its code where it has no answer. -/
def slotOrOverflow {signed : Bool} (answer : Option (HostInt signed 64)) : Except UInt16 Slot :=
  ofOption arithmeticOverflow (answer.map (·.toBitVec))

/-- `vector`: a slot holds the vector's index in the run's vector table. -/
def vector (vectors : List (List Slot)) (word : Slot) : List Slot :=
  vectors[word.toNat]?.getD []

section Values

variable {signed : Bool} (frame : WordFrame) (a b : UInt32)

/-- A checked operation on two slots. -/
def checkedPair (signed : Bool)
    (operation : HostInt signed 64 → HostInt signed 64 → Option (HostInt signed 64)) :
    Calculation (Except UInt16 Slot × Bool) := do
  let x ← frame.read signed a
  let y ← frame.read signed b
  return (slotOrOverflow (operation x y), true)

/-- A division of two slots. -/
def quotientPair (signed : Bool)
    (operation : HostInt signed 64 → HostInt signed 64 → Option (HostInt signed 64)) :
    Calculation (Except UInt16 Slot × Bool) := do
  let y ← frame.read signed b
  if y.value = 0 then return (.error arithmeticDivideByZero, true)
  else do
    let x ← frame.read signed a
    if signed then return (slotOrOverflow (operation x y), true)
    else do
      let value ← demand (operation x y)
      return (.ok value.toBitVec, true)

/-- A comparison of two slots. -/
def comparePair (signed : Bool) (operation : ℤ → ℤ → Bool) :
    Calculation (Except UInt16 Slot × Bool) := do
  let x ← frame.read signed a
  let y ← frame.read signed b
  return (.ok (slotOf (operation x.value y.value)), false)

/-- An operation on the bits of two slots. -/
def bitsPair (operation : Slot → Slot → Slot) : Calculation (Except UInt16 Slot × Bool) := do
  let x ← frame.word a
  let y ← frame.word b
  return (.ok (operation x y), false)

end Values

/-- The value of a step that writes its own slot, and whether it is checked. -/
def Op.value (constants : List Slot) (vectors : List (List Slot)) (frame : WordFrame) :
    Op → Calculation (Except UInt16 Slot × Bool)
  | .constant i => do return (.ok (← demand constants[i.toNat]?), false)
  | .eq a b => comparePair frame a b false (· = ·)
  | .ne a b => comparePair frame a b false (· ≠ ·)
  | .ltS a b => comparePair frame a b true (· < ·)
  | .leS a b => comparePair frame a b true (· ≤ ·)
  | .ltU a b => comparePair frame a b false (· < ·)
  | .leU a b => comparePair frame a b false (· ≤ ·)
  | .addS a b => checkedPair frame a b true checkedAdd
  | .subS a b => checkedPair frame a b true checkedSub
  | .mulS a b => checkedPair frame a b true checkedMul
  | .divS a b => quotientPair frame a b true checkedDiv
  | .remS a b => quotientPair frame a b true checkedRem
  | .addU a b => checkedPair frame a b false checkedAdd
  | .subU a b => checkedPair frame a b false checkedSub
  | .mulU a b => checkedPair frame a b false checkedMul
  | .divU a b => quotientPair frame a b false checkedDiv
  | .remU a b => quotientPair frame a b false checkedRem
  | .neg a => do
    let x ← frame.read true a
    return (slotOrOverflow x.checkedNeg, true)
  | .not a => do return (.ok ((← frame.word a) ^^^ 1), false)
  | .and a b => bitsPair frame a b (· &&& ·)
  | .or a b => bitsPair frame a b (· ||| ·)
  | .vecLen a => do
    let length := (vector vectors (← frame.word a)).length
    return (.ok (BitVec.ofNat 64 (min length (2 ^ 64 - 1))), false)
  | .vecGet _ _ | .call _ | .copy _ | .guard _ | .guardTrue _ | .guardFalse _ => .error .abort

/-- A step writes its word, or its code. -/
def WordStep.finish (step : WordStep) (frame : WordFrame) (value : Except UInt16 Slot)
    (checked : Bool) : Calculation (UInt64 × WordFrame) :=
  match value with
  | .ok word => do
    let frame ← frame.write step.output word
    let frame ← if checked then frame.mark step.output false else pure frame
    return (step.units.1, frame)
  | .error code => do
    let frame ← frame.write step.output (code.toBitVec.setWidth 64)
    let frame ← frame.mark step.output true
    return (step.units.2, frame)

/-- `exec`: a step of the word tier writes its word, and answers the value units it charges. -/
def exec (step : WordStep) (constants : List Slot) (vectors : List (List Slot))
    (frame : WordFrame) : Calculation (UInt64 × WordFrame) :=
  match step.op with
  | .vecGet a b => do
    let index ← frame.word b
    let items := vector vectors (← frame.word a)
    match items[index.toNat]? with
    | some word =>
      let frame ← frame.write step.output word
      return (step.units.1, ← frame.mark step.output false)
    | none =>
      let frame ← frame.write step.output 0
      return (step.units.2, ← frame.mark step.output true)
  | .call _ | .guard _ | .guardTrue _ | .guardFalse _ => return (0, frame)
  | .copy a => do return (0, ← frame.write step.output (← frame.word a))
  | op => do
    let (value, checked) ← op.value constants vectors frame
    step.finish frame value checked

/-! ### The word tier is exact -/

/-- The slot of an exact answer. -/
def answerSlot (answer : Except UInt16 ℤ) : Except UInt16 Slot := answer.map (ofInt 64)

section Exact

variable {opcode : Opcode} {signed : Bool} {a b i : ℤ} {frame : WordFrame} {x y : UInt32}
  {slots : List UInt32} {op : Op} {constants : List Slot} {vectors : List (List Slot)}

theorem slotOrOverflow_eq {answer : Option (HostInt signed 64)} :
    slotOrOverflow answer = answerSlot (hostAnswer answer) := by
  cases answer <;> rfl

/-- A slot is read as the integer of which it is the word. -/
theorem read_eq (h : Representable signed 64 i) (hword : frame.word x = .ok (ofInt 64 i)) :
    frame.read signed x = .ok ⟨i, h⟩ := by
  have hread : ofBitVec signed (⟨i, h⟩ : HostInt signed 64).toBitVec = ⟨i, h⟩ :=
    ofBitVec_toBitVec (by decide)
  rw [WordFrame.read, hword]
  exact congrArg Except.ok hread

theorem checkedPair_exact {operation : HostInt signed 64 → HostInt signed 64 →
    Option (HostInt signed 64)} (ha : Representable signed 64 a) (hb : Representable signed 64 b)
    (hx : frame.word x = .ok (ofInt 64 a)) (hy : frame.word y = .ok (ofInt 64 b))
    (hoperation : operation ⟨a, ha⟩ ⟨b, hb⟩ = narrow signed 64 i) :
    checkedPair frame x y signed operation = .ok (answerSlot (within signed 64 i), true) := by
  rw [checkedPair, read_eq ha hx, ok_bind, read_eq hb hy, ok_bind, hoperation,
    slotOrOverflow_eq, hostAnswer_narrow]
  rfl

/-- A division in the host's words: an unsigned one always has an answer. -/
theorem quotientPair_exact {operation : HostInt signed 64 → HostInt signed 64 →
    Option (HostInt signed 64)} {answer : Except UInt16 ℤ}
    (ha : Representable signed 64 a) (hb : Representable signed 64 b)
    (hx : frame.word x = .ok (ofInt 64 a)) (hy : frame.word y = .ok (ofInt 64 b))
    (hzero : b = 0 → answer = .error arithmeticDivideByZero)
    (hoperation : b ≠ 0 → hostAnswer (operation ⟨a, ha⟩ ⟨b, hb⟩) = answer)
    (hunsigned : b ≠ 0 → signed = false → (operation ⟨a, ha⟩ ⟨b, hb⟩).isSome) :
    quotientPair frame x y signed operation = .ok (answerSlot answer, true) := by
  rw [quotientPair, read_eq hb hy, ok_bind]
  split_ifs with hb' hsigned
  · rw [hzero hb']
    rfl
  · rw [read_eq ha hx, ok_bind, slotOrOverflow_eq, hoperation hb']
    rfl
  · obtain ⟨value, hvalue⟩ :=
      Option.isSome_iff_exists.1 (hunsigned hb' (Bool.eq_false_iff.2 hsigned))
    rw [← hoperation hb', read_eq ha hx, ok_bind, hvalue, demand_some, ok_bind]
    rfl

variable {step : WordStep} {f : UInt32 → Calculation Slot}

theorem two_of_mapM {u v : Slot}
    (h : slots.mapM f = .ok [u, v]) : ∃ x y, slots = [x, y] ∧ f x = .ok u ∧ f y = .ok v := by
  obtain ⟨x, rest, hx, hrest, rfl⟩ := List.forall₂_cons_right_iff.1 (mapM_eq_ok.1 h)
  obtain ⟨y, rest', hy, hrest', rfl⟩ := List.forall₂_cons_right_iff.1 hrest
  obtain rfl := List.forall₂_nil_right_iff.1 hrest'
  exact ⟨x, y, rfl, hx, hy⟩

theorem one_of_mapM {u : Slot} (h : slots.mapM f = .ok [u]) : ∃ x, slots = [x] ∧ f x = .ok u := by
  obtain ⟨x, rest, hx, hrest, rfl⟩ := List.forall₂_cons_right_iff.1 (mapM_eq_ok.1 h)
  obtain rfl := List.forall₂_nil_right_iff.1 hrest
  exact ⟨x, rfl, hx⟩

/-- The word of an operand. -/
def integerSlot (_ : Bool) (i : ℤ) : Slot := ofInt 64 i

/-- **The value of a step of the word tier is the exact answer.** -/
theorem value_exact (h : Admits opcode signed 64 a b) (hop : Op.ofStep opcode signed slots = some op)
    (hwords : slots.mapM frame.word = .ok (operandsOf integerSlot opcode signed a b)) :
    op.value constants vectors frame =
      .ok (answerSlot (exactAnswer opcode signed 64 a b), true) := by
  obtain ⟨ha, hb⟩ := h
  cases opcode
  case intAddChecked | intSubChecked | intMulChecked =>
    obtain ⟨x, y, rfl, hx, hy⟩ := two_of_mapM hwords
    cases signed <;> obtain rfl := Option.some.inj hop <;>
      exact checkedPair_exact ha hb hx hy rfl
  case intDivChecked =>
    obtain ⟨x, y, rfl, hx, hy⟩ := two_of_mapM hwords
    cases signed <;> obtain rfl := Option.some.inj hop <;>
      exact quotientPair_exact ha hb hx hy (fun hzero ↦ if_pos hzero)
        (fun hzero ↦ hostAnswer_checkedDiv hzero)
        fun hzero hsigned ↦ (isSome_quotient hsigned hzero).1
  case intRemChecked =>
    obtain ⟨x, y, rfl, hx, hy⟩ := two_of_mapM hwords
    cases signed <;> obtain rfl := Option.some.inj hop <;>
      exact quotientPair_exact ha hb hx hy (fun hzero ↦ if_pos hzero)
        (fun hzero ↦ hostAnswer_checkedRem hzero)
        fun hzero hsigned ↦ (isSome_quotient hsigned hzero).2
  case intNegChecked =>
    obtain ⟨x, rfl, hx⟩ := one_of_mapM hwords
    obtain rfl : signed = true := hb
    obtain rfl := Option.some.inj hop
    rw [Op.value, read_eq ha hx, ok_bind, checkedNeg, slotOrOverflow_eq, hostAnswer_narrow]
    rfl
  case intShlChecked | intShrChecked => cases signed <;> cases hop
  all_goals exact hb.elim

/-- A frame after a step: its slot has the word of the answer and a clear flag, or the code and a set
flag. -/
def WordFrame.answered (frame : WordFrame) (out : UInt32) :
    Except UInt16 ℤ → WordFrame
  | .ok i => ⟨frame.registers.set out.toNat (ofInt 64 i), frame.flags.set out.toNat false⟩
  | .error code =>
    ⟨frame.registers.set out.toNat (code.toBitVec.setWidth 64), frame.flags.set out.toNat true⟩

theorem exec_eq {value : Except UInt16 Slot} {checked : Bool}
    (h : step.op.value constants vectors frame = .ok (value, checked)) :
    exec step constants vectors frame = step.finish frame value checked := by
  obtain ⟨op, output, units⟩ := step
  cases op
  case vecGet | call | copy | guard | guardTrue | guardFalse => cases h
  all_goals
    dsimp only at h
    rw [exec]
    dsimp only
    rw [h, ok_bind]

theorem finish_eq {answer : Except UInt16 ℤ}
    (hregisters : step.output.toNat < frame.registers.length)
    (hflags : step.output.toNat < frame.flags.length) :
    step.finish frame (answerSlot answer) true =
      .ok (if answer.isOk then step.units.1 else step.units.2,
        frame.answered step.output answer) := by
  cases answer with
  | ok i =>
    have hwrite : frame.write step.output (ofInt 64 i) = .ok _ := if_pos hregisters
    show frame.write step.output (ofInt 64 i) >>= _ = _
    rw [hwrite, ok_bind, if_pos rfl, WordFrame.mark, if_pos hflags]
    rfl
  | error code =>
    have hwrite : frame.write step.output (code.toBitVec.setWidth 64) = .ok _ := if_pos hregisters
    show frame.write step.output (code.toBitVec.setWidth 64) >>= _ = _
    rw [hwrite, ok_bind, WordFrame.mark, if_pos hflags]
    rfl

/-- **A checked step of the word tier writes the exact answer**, and charges for it. -/
theorem exec_exact (h : Admits opcode signed 64 a b)
    (hop : Op.ofStep opcode signed slots = some step.op)
    (hwords : slots.mapM frame.word = .ok (operandsOf integerSlot opcode signed a b))
    (hregisters : step.output.toNat < frame.registers.length)
    (hflags : step.output.toNat < frame.flags.length) :
    exec step constants vectors frame =
      .ok (if (exactAnswer opcode signed 64 a b).isOk then step.units.1 else step.units.2,
        frame.answered step.output (exactAnswer opcode signed 64 a b)) := by
  rw [exec_eq (value_exact h hop hwords), finish_eq hregisters hflags]

end Exact

end Words

/-! ### All implementations -/

/-- **Checked arithmetic on integers is exact at every width.** For every form of integer of the
language, every instruction and all operands that it admits, the kernel gives the exact answer; so do
a checked step of the scalar tier, and at 64 bits its step of two words and the step of the word
tier. None of them aborts or faults. -/
theorem checkedInteger_exact {opcode : Opcode} {signed : Bool} {bits : UInt16} {a b : ℤ}
    (hwidth : isEpoch1 ⟨bits⟩ = true) (h : Admits opcode signed bits a b) :
    (∃ outcome,
      checkedIntegerData opcode signed bits (operandsOf integerData opcode signed a b) =
          .ok outcome ∧
        outcome.result signed = exactAnswer opcode signed bits a b) ∧
    (∀ (x : Scalar.Value) (y : Option Scalar.Value),
      x.atom :: y.toList.map (·.atom) = operandsOf Scalar.integerAtom opcode signed a b →
        Scalar.checked opcode (some (signed, bits)) x y =
          .ok (Scalar.answerValue signed (exactAnswer opcode signed bits a b))) ∧
    (bits = 64 → Scalar.isWordOpcode opcode = true →
      Scalar.wordValue ⟨opcode, signed⟩ (Scalar.integerAtom signed a) (Scalar.integerAtom signed b) =
        .ok (some (Scalar.answerValue signed (exactAnswer opcode signed bits a b)))) ∧
    (bits = 64 → ∀ (step : Words.WordStep) (slots : List UInt32) (constants : List Words.Slot)
      (vectors : List (List Words.Slot)) (frame : Words.WordFrame),
      Words.Op.ofStep opcode signed slots = some step.op →
      slots.mapM frame.word = .ok (operandsOf Words.integerSlot opcode signed a b) →
      step.output.toNat < frame.registers.length → step.output.toNat < frame.flags.length →
        Words.exec step constants vectors frame =
          .ok (if (exactAnswer opcode signed bits a b).isOk then step.units.1 else step.units.2,
            frame.answered step.output (exactAnswer opcode signed bits a b))) := by
  refine ⟨gives_checkedIntegerData hwidth h, fun x y hatoms ↦ Scalar.checked_exact hwidth h hatoms,
    ?_, ?_⟩
  · rintro rfl hopcode
    obtain ⟨ha, hb⟩ := Scalar.representable_of_admits h hopcode
    exact Scalar.wordValue_exact ha hb hopcode
  · rintro rfl step slots constants vectors frame hop hwords hregisters hflags
    exact Words.exec_exact h hop hwords hregisters hflags

theorem checkedInteger_exact_product : ∃ outcome,
    checkedIntegerData .intMulChecked true 128
        [integerData true (-2 ^ 64), integerData true (2 ^ 63)] = .ok outcome ∧
      outcome.result true = .ok (-2 ^ 127) := by
  have hadmits : Admits .intMulChecked true 128 (-2 ^ 64) (2 ^ 63) :=
    ⟨by with_unfolding_all decide, by with_unfolding_all decide⟩
  exact (checkedInteger_exact rfl hadmits).1

end Sley.Vm
