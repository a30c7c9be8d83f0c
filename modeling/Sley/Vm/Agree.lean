import Sley.Vm.Execute
import Sley.Vm.OwnedMeaning

/-!
# Runs that agree on the registers in use

Two runs of one program may differ in the registers that neither reads again: one may have moved a
value out where the other has kept it. `Agree slot gone` relates their runtimes: everything is the same
but the registers of `gone`, and the other registers stand for the same constants, each with exact
units. **An action that reads no register of `gone` ends alike in both** (`Matches`): this module has
one such fact for every action that the interpreter is made of.
-/

namespace Sley.Vm

open Ssmc Action Operation

/-- Two values that stand for one constant. -/
def Same (a b : RuntimeValue) : Prop := ∃ shown, a.Holds shown ∧ b.Holds shown

/-- Two results that present one constant. -/
def Alike (a b : RuntimeValue) : Prop := ∃ shown, a.Presents shown ∧ b.Presents shown

variable {a b : RuntimeValue}

theorem Same.alike : Same a b → Alike a b
  | ⟨shown, ha, hb⟩ => ⟨shown, ha.presents, hb.presents⟩

theorem Alike.units_eq : Alike a b → a.units = b.units
  | ⟨_, ha, hb⟩ => ha.units_eq.trans hb.units_eq.symm

theorem Alike.value_eq : Alike a b → a.value = b.value
  | ⟨_, ha, hb⟩ => ha.value_eq.trans hb.value_eq.symm

/-- Results whose units have been charged. -/
theorem Alike.same (h : Alike a b) (hlt : a.units.toNat < 2 ^ 64 - 1) : Same a b := by
  have hunits := h.units_eq
  obtain ⟨shown, ha, hb⟩ := h
  exact ⟨shown, ha.holds hlt, hb.holds (hunits ▸ hlt)⟩

theorem alike_new {shown : ConstValue} (h : Narrow shown) : Alike (.new shown) (.new shown) :=
  ⟨shown, RuntimeValue.presents_new h, RuntimeValue.presents_new h⟩

/-- What a frame has for itself. -/
structure FrameAgree (slot : ℕ) (gone : Set Register) (s t : Runtime) : Prop where
  left_block : s.block = slot
  right_block : t.block = slot
  maxCallDepth : s.maxCallDepth = t.maxCallDepth
  length : s.registers.length = t.registers.length
  file : ∀ r ∉ gone, s.file r = t.file r
  left : ∀ r ∉ gone, s.ExactAt r
  right : ∀ r ∉ gone, t.ExactAt r
  returned : Option.Rel Same s.returned t.returned

/-- What the frames of a run share. A run has live units from its start, so a sum of units that is
accepted is larger than what it adds. -/
structure Shared (s t : Runtime) : Prop where
  meter : s.toMeter = t.toMeter
  cells : s.cells = t.cells
  peakCallDepth : s.peakCallDepth = t.peakCallDepth
  narrow : ∀ v ∈ s.cells, Narrow v
  pos : 0 < s.liveValueUnits.toNat

/-- The runtimes agree off the registers of `gone`. -/
structure Agree (slot : ℕ) (gone : Set Register) (s t : Runtime) : Prop extends
  FrameAgree slot gone s t, Shared s t

/-- What is reported of a run that fails. -/
def Reported (s t : Runtime) : Prop := s.toMeter = t.toMeter ∧ s.peakCallDepth = t.peakCallDepth

theorem Shared.reported {s t : Runtime} (h : Shared s t) : Reported s t :=
  ⟨h.meter, h.peakCallDepth⟩

/-- Two ends of an action: related results, and runtimes that agree off `gone`. -/
def Matches {α β : Type} (slot : ℕ) (gone : Set Register) (Q : α → β → Prop)
    (left : Except Stop α × Runtime) (right : Except Stop β × Runtime) : Prop :=
  Together (fun a b s t ↦ Q a b ∧ Agree slot gone s t) Reported left right

section Primitives

variable {α β γ δ : Type} {gone gone' : Set Register} {s t : Runtime} {limits : ExecutionLimits}
  {register : Register} {Q : α → β → Prop} {Q' : γ → δ → Prop} {slot slot' : ℕ}

theorem FrameAgree.mono (h : FrameAgree slot gone s t) (hgone : gone ⊆ gone') : FrameAgree slot gone' s t :=
  { h with
    file := fun r hr ↦ h.file r fun hmem ↦ hr (hgone hmem)
    left := fun r hr ↦ h.left r fun hmem ↦ hr (hgone hmem)
    right := fun r hr ↦ h.right r fun hmem ↦ hr (hgone hmem) }

theorem Agree.mono (h : Agree slot gone s t) (hgone : gone ⊆ gone') : Agree slot gone' s t :=
  ⟨h.toFrameAgree.mono hgone, h.toShared⟩

theorem Matches.bind {p : Action α} {q : Action β} {f : α → Action γ} {g : β → Action δ}
    (h : Matches slot gone Q (p s) (q t))
    (hnext : ∀ a b s t, Q a b → Agree slot gone s t → Matches slot' gone' Q' (f a s) (g b t)) :
    Matches slot' gone' Q' ((p >>= f) s) ((q >>= g) t) :=
  Together.bind h fun a b s t hab ↦ hnext a b s t hab.1 hab.2

theorem Matches.mono {left : Except Stop α × Runtime} {right : Except Stop β × Runtime}
    (h : Matches slot gone Q left right) (hgone : gone ⊆ gone') : Matches slot gone' Q left right := by
  cases h with
  | ok h => exact .ok ⟨h.1, h.2.mono hgone⟩
  | error h => exact .error h

theorem matches_pure {a : α} {b : β} (hab : Q a b) (h : Agree slot gone s t) :
    Matches slot gone Q ((pure a : Action α) s) ((pure b : Action β) t) := .ok ⟨hab, h⟩

/-! ### Checks -/

theorem matches_orFault {x : Option α} (h : Agree slot gone s t) :
    Matches slot gone (fun a b ↦ a = b ∧ x = some a) (orFault x s) (orFault x t) := by
  cases x with
  | none => exact .error h.reported
  | some a => exact .ok ⟨⟨rfl, rfl⟩, h⟩

theorem matches_stop {termination : ExecutionTermination} (h : Reported s t) :
    Matches slot gone Q (stop termination s) (stop termination t) := .error h

theorem matches_rejectIf {c : Prop} [Decidable c] {reason : Stop} (h : Agree slot gone s t) :
    Matches slot gone (fun _ _ ↦ ¬ c) (rejectIf c reason s) (rejectIf c reason t) := by
  rw [rejectIf, Except.rejectIf]
  split_ifs with hc
  · exact .error h.reported
  · exact .ok ⟨hc, h⟩

variable {a b : RuntimeValue}

/-- What a value shows is the same in both. -/
theorem matches_value (hab : Alike a b) (h : Agree slot gone s t) :
    Matches slot gone (fun v w ↦ v = w ∧ Narrow v ∧ a.Presents v ∧ b.Presents v) (orFault a.value s)
      (orFault b.value t) := by
  obtain ⟨shown, ha, hb⟩ := hab
  rw [ha.value_eq, hb.value_eq]
  exact .ok ⟨⟨rfl, ha.narrow, ha, hb⟩, h⟩

theorem matches_shown (hab : Same a b) (h : Agree slot gone s t) :
    Matches slot gone (fun v w ↦ v = w ∧ a.Holds v ∧ b.Holds v) (orFault a.value s)
      (orFault b.value t) := by
  obtain ⟨shown, ha, hb⟩ := hab
  rw [ha.value_eq, hb.value_eq]
  exact .ok ⟨⟨rfl, ha, hb⟩, h⟩

/-! ### Charges -/

theorem matches_chargeAction {instruction : Bool} (h : Agree slot gone s t) :
    Matches slot gone (fun _ _ ↦ True) (chargeAction limits instruction s)
      (chargeAction limits instruction t) := by
  rw [chargeAction, chargeAction, ← h.meter]
  cases hcharge : s.toMeter.chargeAction limits instruction with
  | error termination => exact .error h.reported
  | ok meter =>
    obtain ⟨-, -, -, rfl⟩ := Meter.chargeAction_eq_ok.1 hcharge
    exact .ok ⟨trivial, { h with meter := rfl }⟩

theorem matches_chargeBridgeActions (fuel : ℕ) (h : Agree slot gone s t) :
    Matches slot gone (fun _ _ ↦ True) (chargeBridgeActions limits fuel s)
      (chargeBridgeActions limits fuel t) := by
  induction fuel generalizing s t with
  | zero => exact matches_pure trivial h
  | succ fuel ih => exact (matches_chargeAction h).bind fun _ _ _ _ _ h ↦ ih h

/-- **What has been charged is less than the largest number.** -/
theorem matches_chargeValue {amount : UInt64} (h : Agree slot gone s t) :
    Matches slot gone (fun _ _ ↦ amount.toNat < 2 ^ 64 - 1) (chargeValue limits amount s)
      (chargeValue limits amount t) := by
  rw [chargeValue, chargeValue, ← h.meter]
  cases hcharge : s.toMeter.chargeValue limits amount with
  | none => exact .error h.reported
  | some meter =>
    obtain ⟨next, hnext, -, rfl⟩ := Meter.chargeValue_eq_some.1 hcharge
    have hpos := h.pos
    have hlt := next.toNat_lt
    refine .ok ⟨by omega, { h with meter := rfl, pos := ?_ }⟩
    show 0 < next.toNat
    omega

/-- What the frames look like. -/
theorem matches_get :
    Together (fun a b s₁ t₁ ↦ a = s ∧ b = t ∧ s₁ = s ∧ t₁ = t) Reported (Action.get s)
      (Action.get t) := .ok ⟨rfl, rfl, rfl, rfl⟩

theorem matches_modify {f g : Runtime → Runtime} (h : Agree slot gone (f s) (g t)) :
    Matches slot gone (fun _ _ ↦ True) ((modify f : Action PUnit) s) ((modify g : Action PUnit) t) :=
  .ok ⟨trivial, h⟩

theorem matches_countInstruction (h : Agree slot gone s t) :
    Matches slot gone (fun _ _ ↦ True) (countInstruction s) (countInstruction t) :=
  matches_modify { h with meter := congrArg Meter.countInstruction h.meter }

theorem matches_setCells {cells : Cells} (hcells : ∀ v ∈ cells, Narrow v) (h : Agree slot gone s t) :
    Matches slot gone (fun _ _ ↦ True) (setCells cells s) (setCells cells t) :=
  matches_modify { h with cells := rfl, narrow := hcells }

theorem matches_setReturned (hab : Same a b) (h : Agree slot gone s t) :
    Matches slot gone (fun _ _ ↦ True) (setReturned a s) (setReturned b t) :=
  matches_modify { h with returned := .some hab }

/-! ### Registers -/

/-- The registers with one changed. -/
theorem Agree.same (h : Agree slot gone s t) (hr : register ∉ gone) :
    (s.registers[register.toNat]?.join = none ∧ t.registers[register.toNat]?.join = none) ∨
      ∃ a b, s.registers[register.toNat]?.join = some a ∧
        t.registers[register.toNat]?.join = some b ∧ Same a b := by
  have hfile := h.file register hr
  obtain ⟨hs, hsfile⟩ | ⟨a, shown, hs, hshown, hsfile⟩ := (h.left register hr).cases
  · obtain ⟨ht, -⟩ | ⟨b, shown, ht, hshown, htfile⟩ := (h.right register hr).cases
    · exact .inl ⟨hs, ht⟩
    · rw [hsfile, htfile] at hfile
      cases hfile
  · obtain ⟨ht, htfile⟩ | ⟨b, shown', ht, hshown', htfile⟩ := (h.right register hr).cases
    · rw [hsfile, htfile] at hfile
      cases hfile
    · rw [hsfile, htfile] at hfile
      obtain rfl := Option.some.inj hfile
      exact .inr ⟨a, b, hs, ht, shown, hshown, hshown'⟩

/-- A register is written in both, with values that stand for one constant. -/
theorem FrameAgree.set (h : FrameAgree slot gone s t) (hab : Same a b)
    (hlt : register.toNat < s.registers.length) :
    FrameAgree slot (gone \ {register})
      { s with registers := s.registers.set register.toNat (some a) }
      { t with registers := t.registers.set register.toNat (some b) } := by
  obtain ⟨shown, ha, hb⟩ := hab
  have hlt' : register.toNat < t.registers.length := h.length ▸ hlt
  refine { h with length := ?_, file := fun r hr ↦ ?_, left := fun r hr ↦ ?_, right := fun r hr ↦ ?_ }
  · rw [List.length_set, List.length_set, h.length]
  · show ((s.registers.set _ _)[r.toNat]?.join).bind _ = ((t.registers.set _ _)[r.toNat]?.join).bind _
    rw [join_set hlt, join_set hlt']
    split_ifs with heq
    · exact ha.value_eq.trans hb.value_eq.symm
    · exact h.file r fun hmem ↦ hr ⟨hmem, heq⟩
  · intro value hvalue
    rw [join_set hlt] at hvalue
    split_ifs at hvalue with heq
    · obtain rfl := Option.some.inj hvalue
      exact ⟨shown, ha⟩
    · exact h.left r (fun hmem ↦ hr ⟨hmem, heq⟩) value hvalue
  · intro value hvalue
    rw [join_set hlt'] at hvalue
    split_ifs at hvalue with heq
    · obtain rfl := Option.some.inj hvalue
      exact ⟨shown, hb⟩
    · exact h.right r (fun hmem ↦ hr ⟨hmem, heq⟩) value hvalue

theorem matches_writeRegister (hab : Same a b) (h : Agree slot gone s t) :
    Matches slot (gone \ {register}) (fun _ _ ↦ True) (writeRegister register a s)
      (writeRegister register b t) := by
  rw [writeRegister, writeRegister, ← h.length]
  split_ifs with hlt
  · exact .ok ⟨trivial, h.toFrameAgree.set hab hlt, { h with }⟩
  · exact .error h.reported

theorem matches_readRegister (hr : register ∉ gone) (h : Agree slot gone s t) :
    Matches slot gone Same (readRegister register s) (readRegister register t) := by
  rw [readRegister, ofState_eq, ofState_eq]
  obtain ⟨hs, ht⟩ | ⟨a, b, hs, ht, hab⟩ := h.same hr
  · rw [hs, ht]
    exact .error h.reported
  · rw [hs, ht]
    exact .ok ⟨hab, h⟩

/-- Registers that nothing but the ones of `gone'` have been changed in. -/
theorem Agree.congr {left right : List (Option RuntimeValue)} (h : Agree slot gone s t)
    (hgone : gone ⊆ gone') (hlength : left.length = right.length)
    (hleft : ∀ r : Register, r ∉ gone' → left[r.toNat]?.join = s.registers[r.toNat]?.join)
    (hright : ∀ r : Register, r ∉ gone' → right[r.toNat]?.join = t.registers[r.toNat]?.join) :
    Agree slot gone' { s with registers := left } { t with registers := right } := by
  refine { h with
    length := hlength, file := fun r hr ↦ ?_, left := fun r hr ↦ ?_, right := fun r hr ↦ ?_ }
  · show (left[r.toNat]?.join).bind _ = (right[r.toNat]?.join).bind _
    rw [hleft r hr, hright r hr]
    exact h.file r fun hmem ↦ hr (hgone hmem)
  · intro value hvalue
    rw [hleft r hr] at hvalue
    exact h.left r (fun hmem ↦ hr (hgone hmem)) value hvalue
  · intro value hvalue
    rw [hright r hr] at hvalue
    exact h.right r (fun hmem ↦ hr (hgone hmem)) value hvalue

/-- A register that is moved out in the first run, and perhaps in the second, is gone. -/
theorem matches_operand {dead dead' : Bool} (hdead : dead' = true → dead = true)
    (hr : register ∉ gone) (h : Agree slot gone s t) :
    Matches slot (gone ∪ {r | r = register ∧ dead = true}) Same (operand register dead s)
      (operand register dead' t) := by
  have hne (r : Register) (htaken : dead = true)
      (hr' : r ∉ gone ∪ {r | r = register ∧ dead = true}) : r ≠ register :=
    fun heq ↦ hr' (.inr ⟨heq, htaken⟩)
  have hunset (registers : List (Option RuntimeValue)) (htaken : dead = true) (r : Register)
      (hr' : r ∉ gone ∪ {r | r = register ∧ dead = true}) :
      (registers.set register.toNat none)[r.toNat]?.join = registers[r.toNat]?.join := by
    rw [List.getElem?_set_ne fun heq ↦ hne r htaken hr' (UInt32.toNat_inj.1 heq.symm)]
  obtain ⟨hs, ht⟩ | ⟨a, b, hs, ht, hab⟩ := h.same hr
  · have hs' : operand register dead s = (.error .fault, s) := by
      rw [operand]
      split_ifs
      · rw [takeRegister, hs]
      · rw [readRegister, ofState_eq, hs]
        rfl
    have ht' : operand register dead' t = (.error .fault, t) := by
      rw [operand]
      split_ifs
      · rw [takeRegister, ht]
      · rw [readRegister, ofState_eq, ht]
        rfl
    rw [hs', ht']
    exact .error h.reported
  · rw [operand, operand]
    split_ifs with htaken htaken' htaken'
    · rw [takeRegister, takeRegister, hs, ht]
      exact .ok ⟨hab, h.congr Set.subset_union_left (by simp [h.length])
        (hunset _ htaken) (hunset _ htaken)⟩
    · rw [takeRegister, readRegister, ofState_eq, hs, ht]
      exact .ok ⟨hab, h.congr Set.subset_union_left (by simp [h.length])
        (hunset _ htaken) fun _ _ ↦ rfl⟩
    · exact absurd (hdead htaken') htaken
    · rw [readRegister, ofState_eq, ofState_eq, hs, ht]
      exact .ok ⟨hab, h.mono Set.subset_union_left⟩

/-- A register that is moved out in both runs. -/
theorem matches_takeRegister (hr : register ∉ gone) (h : Agree slot gone s t) :
    Matches slot (gone ∪ {register}) Same (takeRegister register s) (takeRegister register t) := by
  have htake : Matches slot _ Same (operand register true s) (operand register true t) :=
    matches_operand id hr h
  simpa [operand] using htake

theorem matches_readValues (registers : List Register) (hr : ∀ r ∈ registers, r ∉ gone)
    (h : Agree slot gone s t) :
    Matches slot gone (fun v w ↦ v = w ∧ ∀ x ∈ v, Narrow x) (readValues registers s)
      (readValues registers t) := by
  induction registers generalizing s t with
  | nil => exact matches_pure ⟨rfl, by simp⟩ h
  | cons register registers ih =>
    obtain ⟨hregister, hrest⟩ := List.forall_mem_cons.1 hr
    refine (matches_readRegister hregister h).bind fun a b s t hab h ↦ ?_
    refine (matches_value hab.alike h).bind ?_
    rintro v _ s t ⟨rfl, hv, -⟩ h
    refine (ih hrest h).bind ?_
    rintro vs _ s t ⟨rfl, hvs⟩ h
    exact matches_pure ⟨rfl, List.forall_mem_cons.2 ⟨hv, hvs⟩⟩ h

end Primitives

end Sley.Vm
