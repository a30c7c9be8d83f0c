import Sley.Vm.Runtime

/-!
# Reading operands

A register stands for a constant (`Runtime.file`), in whatever form it holds it. An instruction
reads its operands one after the other and may move out the ones that a mask marks. A marked operand
appears once, so **what is read for the first time is what was there when the instruction began**
(`Kept.getElem?`), and reading it gives the constant that it stood for (`follows_operand`).
-/

namespace Sley.Vm

open Ssmc UInt64 Action Operation
open Scb1 (Bytes)

namespace RuntimeValue

variable {value : RuntimeValue} {shown : ConstValue}

/-- The value stands for a constant of a register. -/
structure Holds (value : RuntimeValue) (shown : ConstValue) : Prop extends value.Shows shown where
  narrow : Narrow shown

/-- What an instruction produces: its units are those of a walk, which may have saturated. -/
structure Presents (value : RuntimeValue) (shown : ConstValue) : Prop where
  value_eq : value.value = some shown
  units_eq : value.units = valueUnitsConst shown
  parts : PartsExact value.parts shown
  inner : ∀ payload, payloadOf shown = some payload → PartsExact value.inner payload
  narrow : Narrow shown

theorem Holds.presents (h : value.Holds shown) : value.Presents shown :=
  ⟨h.value_eq, h.valueUnits_eq, h.parts, h.inner, h.narrow⟩

theorem presents_new (h : Narrow shown) : (new shown).Presents shown :=
  ⟨rfl, rfl, partsExact_none, fun _ _ ↦ partsExact_none, h⟩

theorem presents_withUnits {units : UInt64} (hunits : units = valueUnitsConst shown)
    (h : Narrow shown) : (withUnits shown units).Presents shown :=
  hunits ▸ presents_new h

/-- Where the walk does not saturate, the numbers are exact. -/
theorem Presents.holds (h : value.Presents shown) (hlt : value.units.toNat < 2 ^ 64 - 1) :
    value.Holds shown := by
  refine ⟨⟨h.value_eq, ?_, h.parts, h.inner⟩, h.narrow⟩
  rw [h.units_eq, toNat_valueUnitsConst] at hlt ⊢
  omega

end RuntimeValue

/-! ### What the registers stand for -/

namespace Runtime

/-- The constant that a register stands for. -/
def file (runtime : Runtime) (register : Register) : Option ConstValue :=
  runtime.registers[register.toNat]?.join.bind RuntimeValue.value

/-- What a register holds, if anything, stands for a constant. -/
def ExactAt (runtime : Runtime) (register : Register) : Prop :=
  ∀ value, runtime.registers[register.toNat]?.join = some value → ∃ shown, value.Holds shown

/-- A register that holds nothing, or stands for a constant. -/
theorem ExactAt.cases {runtime : Runtime} {register : Register} (h : runtime.ExactAt register) :
    runtime.registers[register.toNat]?.join = none ∧ runtime.file register = none ∨
      ∃ value shown, runtime.registers[register.toNat]?.join = some value ∧
        value.Holds shown ∧ runtime.file register = some shown := by
  cases hvalue : runtime.registers[register.toNat]?.join with
  | none => exact .inl ⟨rfl, by rw [file, hvalue]; rfl⟩
  | some value =>
    obtain ⟨shown, hshown⟩ := h value hvalue
    exact .inr ⟨value, shown, rfl, hshown, by rw [file, hvalue]; exact hshown.value_eq⟩

end Runtime

/-! ### Reading operands -/

theorem eq_of_count_eq_one {α : Type} [DecidableEq α] {l : List α} {a : α} {i j : ℕ}
    (h : l.count a = 1) (hi : l[i]? = some a) (hj : l[j]? = some a) : i = j := by
  induction l generalizing i j with
  | nil => cases hi
  | cons b l ih =>
    by_cases hb : b = a
    · subst hb
      have hnot : b ∉ l := by
        rw [List.count_cons_self] at h
        exact List.count_eq_zero.1 (Nat.succ.inj h)
      cases i with
      | zero =>
        cases j with
        | zero => rfl
        | succ j => exact absurd (List.mem_of_getElem? (show l[j]? = some b from hj)) hnot
      | succ i => exact absurd (List.mem_of_getElem? (show l[i]? = some b from hi)) hnot
    · rw [List.count_cons_of_ne hb] at h
      cases i with
      | zero => exact absurd (Option.some.inj hi) hb
      | succ i =>
        cases j with
        | zero => exact absurd (Option.some.inj hj) hb
        | succ j => exact congrArg _ (ih h hi hj)

section Kept

variable {mask : UInt64} {operands : List Register} {read : Set ℕ} {start runtime : Runtime}
  {register : Register} {dead : Bool} {k : ℕ}

/-- Since an instruction began, it has done nothing but move out marked operands that it has
read. -/
structure Kept (mask : UInt64) (operands : List Register) (read : Set ℕ) (start runtime : Runtime) :
    Prop where
  eq : runtime = { start with registers := runtime.registers }
  length : runtime.registers.length = start.registers.length
  register : ∀ r : Register, runtime.registers[r.toNat]?.join = start.registers[r.toNat]?.join ∨
    ∃ k ∈ read, isDead mask k = true ∧ operands[k]? = some r

/-- A failure in the middle of an instruction has changed registers at most. -/
def Faulted (start runtime : Runtime) : Prop :=
  runtime = { start with registers := runtime.registers }

theorem faulted_refl : Faulted start start := rfl

theorem kept_refl : Kept mask operands ∅ start start := ⟨rfl, rfl, fun _ ↦ .inl rfl⟩

theorem Kept.mono {read' : Set ℕ} (h : Kept mask operands read start runtime)
    (hread : read ⊆ read') : Kept mask operands read' start runtime :=
  ⟨h.eq, h.length, fun r ↦ (h.register r).imp_right fun ⟨k, hk, hrest⟩ ↦ ⟨k, hread hk, hrest⟩⟩

/-- What an instruction begins with: its operands stand for constants, and a marked one appears
once. -/
structure Ready (mask : UInt64) (operands : List Register) (start : Runtime) : Prop where
  once : ∀ k r, isDead mask k = true → operands[k]? = some r → operands.count r = 1
  exact : ∀ r ∈ operands, start.ExactAt r

/-- What is read for the first time is what was there in the beginning. -/
theorem Kept.getElem? (h : Kept mask operands read start runtime)
    (hready : Ready mask operands start) (hk : operands[k]? = some register) (hnew : k ∉ read) :
    runtime.registers[register.toNat]?.join = start.registers[register.toNat]?.join := by
  obtain hsame | ⟨j, hj, hdead, hregister⟩ := h.register register
  · exact hsame
  · have honce := hready.once j register hdead hregister
    exact absurd (eq_of_count_eq_one honce hregister hk ▸ hj) hnew

theorem Kept.setNone (h : Kept mask operands read start runtime)
    (hk : operands[k]? = some register) (hdead : isDead mask k = true) :
    Kept mask operands (insert k read) start
      { runtime with registers := runtime.registers.set register.toNat none } := by
  refine ⟨?_, ?_, fun r ↦ ?_⟩
  · show ({ runtime with registers := _ } : Runtime) = { start with registers := _ }
    rw [h.eq]
  · rw [List.length_set, h.length]
  · by_cases hr : r = register
    · subst hr
      exact .inr ⟨k, Set.mem_insert _ _, hdead, hk⟩
    · rw [List.getElem?_set_ne fun heq ↦ hr (UInt32.toNat_inj.1 heq.symm)]
      exact (h.register r).imp_right fun ⟨j, hj, hrest⟩ ↦ ⟨j, Set.mem_insert_of_mem _ hj, hrest⟩

/-- What an operand gives: the constant of its register. -/
def Operand (mask : UInt64) (operands : List Register) (read : Set ℕ) (start : Runtime)
    (shown : ConstValue) (value : RuntimeValue) (runtime : Runtime) : Prop :=
  value.Holds shown ∧ Kept mask operands read start runtime

theorem follows_operand (hready : Ready mask operands start)
    (hkept : Kept mask operands read start runtime) (hk : operands[k]? = some register)
    (hnew : k ∉ read) (hdead : dead = true → isDead mask k = true) :
    Follows .fault (Operand mask operands (insert k read) start) (Faulted start)
      (start.file register) (operand register dead runtime) := by
  have hsame := hkept.getElem? hready hk hnew
  obtain ⟨hnone, hfile⟩ | ⟨value, shown, hvalue, hshown, hfile⟩ :=
    (hready.exact _ (List.mem_of_getElem? hk)).cases
  · rw [hnone] at hsame
    rw [hfile, operand]
    split_ifs
    · rw [takeRegister, hsame]
      exact .none hkept.eq
    · rw [readRegister, ofState_eq, hsame]
      exact .none hkept.eq
  · rw [hvalue] at hsame
    rw [hfile, operand]
    split_ifs with htake
    · rw [takeRegister, hsame]
      exact .some ⟨hshown, hkept.setNone hk (hdead htake)⟩
    · rw [readRegister, ofState_eq, hsame]
      exact .some ⟨hshown, hkept.mono (Set.subset_insert _ _)⟩

theorem follows_readRegister (hready : Ready mask operands start)
    (hkept : Kept mask operands read start runtime) (hk : operands[k]? = some register)
    (hnew : k ∉ read) :
    Follows .fault (Operand mask operands read start) (Faulted start) (start.file register)
      (readRegister register runtime) := by
  have hsame := hkept.getElem? hready hk hnew
  obtain ⟨hnone, hfile⟩ | ⟨value, shown, hvalue, hshown, hfile⟩ :=
    (hready.exact _ (List.mem_of_getElem? hk)).cases
  · rw [hfile, readRegister, ofState_eq, hsame, hnone]
    exact .none hkept.eq
  · rw [hfile, readRegister, ofState_eq, hsame, hvalue]
    exact .some ⟨hshown, hkept⟩

theorem follows_orFault {α : Type} {x : Option α} (h : Faulted start runtime) :
    Follows .fault (fun a b s ↦ a = b ∧ x = some a ∧ s = runtime) (Faulted start) x
      (orFault x runtime) := by
  cases x with
  | none => exact .none h
  | some a => exact .some ⟨rfl, rfl, rfl⟩

theorem orFault_some_bind {α β : Type} {a : α} {g : α → Action β} :
    (orFault (some a) >>= g) runtime = g a runtime := rfl

theorem rejectIf_neg {c : Prop} [Decidable c] {reason : Stop} (h : ¬ c) :
    rejectIf c reason runtime = (.ok (), runtime) := by
  rw [rejectIf, ofExcept_eq, Except.rejectIf, if_neg h]

theorem follows_rejectIf {α β : Type} {c : Prop} [Decidable c] {x : Option α}
    {g : Unit → Action β} {Q : α → β → Runtime → Prop} (h : Faulted start runtime)
    (hnext : ¬ c → Follows .fault Q (Faulted start) x (g () runtime)) :
    Follows .fault Q (Faulted start) (if c then none else x) ((rejectIf c .fault >>= g) runtime) := by
  by_cases hc : c
  · rw [if_pos hc, rejectIf, Except.rejectIf, if_pos hc]
    exact .none h
  · rw [if_neg hc, bind_apply, rejectIf_neg hc]
    exact hnext hc

/-- A check that fails where nothing is to be computed. -/
theorem follows_none {α β γ : Type} {g : α → Action β} {Q : γ → β → Runtime → Prop}
    (h : Faulted start runtime) :
    Follows .fault Q (Faulted start) none ((orFault none >>= g) runtime) := .none h

end Kept

end Sley.Vm
