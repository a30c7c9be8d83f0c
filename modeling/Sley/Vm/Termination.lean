import Sley.Vm.Execute

/-!
# Every run ends

The interpreter loop executes untrusted code: its graphs may loop and its calls may recur. It ends
because no iteration is free. An instruction and a terminator each begin with a charge of fuel, what
follows never gives fuel back, a frame that is opened starts with the fuel of its caller, and a
frame that is closed hands its fuel on. **The fuel that is left strictly decreases in every
iteration that does not end the run** (`Machine.fuelLeft_lt`), whatever the bytecode, the inventories
and the liveness tables are.
-/

namespace Sley.Vm

open Ssmc Action
open Operation (bind_of_ok reads_ofExcept)

/-- Fuel and units are within their limits, and no more units have been live than now are. -/
structure Runtime.Within (limits : ExecutionLimits) (runtime : Runtime) : Prop where
  fuel : runtime.fuelUsed ≤ limits.maxFuel
  units : runtime.liveValueUnits ≤ limits.maxValueUnits
  peak : runtime.peakValueUnits = runtime.liveValueUnits

/-- **What charges do to the counters**: nothing is given back, at most `n` instructions are counted,
and what is within the limits stays so. -/
structure Runtime.Charged (limits : ExecutionLimits) (n : Nat) (runtime runtime' : Runtime) :
    Prop where
  fuel : runtime.fuelUsed.toNat ≤ runtime'.fuelUsed.toNat
  units : runtime.liveValueUnits.toNat ≤ runtime'.liveValueUnits.toNat
  count : runtime'.instructionCount.toNat ≤ runtime.instructionCount.toNat + n
  within : runtime.Within limits → runtime'.Within limits
  depth : runtime'.maxCallDepth = runtime.maxCallDepth

/-- However the action ends, it has only charged. -/
def Action.Spends {α : Type} (limits : ExecutionLimits) (action : Action α) : Prop :=
  action.Moves (Runtime.Charged limits 0)

/-- However the action ends, it has only charged, and counted one instruction at most. -/
def Action.Counts {α : Type} (limits : ExecutionLimits) (action : Action α) : Prop :=
  action.Moves (Runtime.Charged limits 1)

section Spends

variable {α β : Type} {p : Action α} {f : α → Action β} {limits : ExecutionLimits}
  {execution : Execution} {runtime runtime' : Runtime} {m n : Nat}

theorem charged_of_eq (h : runtime'.toMeter = runtime.toMeter)
    (hdepth : runtime'.maxCallDepth = runtime.maxCallDepth) : runtime.Charged limits 0 runtime' := by
  obtain ⟨meter, registers, block, cells, maxCallDepth, peakCallDepth, returned⟩ := runtime
  obtain ⟨meter', registers', block', cells', maxCallDepth', peakCallDepth', returned'⟩ := runtime'
  subst h hdepth
  exact ⟨le_rfl, le_rfl, le_rfl, fun ⟨hfuel, hunits, hpeak⟩ ↦ ⟨hfuel, hunits, hpeak⟩, rfl⟩

theorem Runtime.Charged.trans {runtime₁ : Runtime} (h : runtime.Charged limits m runtime₁)
    (h' : runtime₁.Charged limits n runtime') : runtime.Charged limits (m + n) runtime' :=
  ⟨h.fuel.trans h'.fuel, h.units.trans h'.units,
    (h'.count.trans (Nat.add_le_add_right h.count n)).trans (Nat.add_assoc _ m n).le,
    fun hwithin ↦ h'.within (h.within hwithin), h'.depth.trans h.depth⟩

theorem Runtime.Charged.mono (h : runtime.Charged limits m runtime') (hmn : m ≤ n) :
    runtime.Charged limits n runtime' :=
  ⟨h.fuel, h.units, h.count.trans (Nat.add_le_add_left hmn _), h.within, h.depth⟩

theorem spends_of_reads (h : p.Reads) : p.Spends limits :=
  Operation.moves_of_reads (fun _ ↦ charged_of_eq rfl rfl) h

theorem spends_pure {a : α} : (pure a : Action α).Spends limits := fun _ ↦ charged_of_eq rfl rfl

theorem Action.Spends.bind (hp : p.Spends limits) (hf : ∀ a, (f a).Spends limits) :
    (p >>= f).Spends limits :=
  Operation.Moves.bind id (fun h h' ↦ h.trans h') hp hf

theorem Action.Spends.counts (hp : p.Spends limits) (hf : ∀ a, (f a).Counts limits) :
    (p >>= f).Counts limits :=
  Operation.Moves.bind (fun h ↦ h.mono (Nat.zero_le 1)) (fun h h' ↦ h.trans h') hp hf

theorem Action.Counts.bind (hp : p.Counts limits) (hf : ∀ a, (f a).Spends limits) :
    (p >>= f).Counts limits :=
  Operation.Moves.bind id (fun h h' ↦ h.trans h') hp hf

theorem Action.Spends.map (hp : p.Spends limits) {g : α → β} : (g <$> p).Spends limits :=
  hp.bind fun _ ↦ spends_pure

theorem spends_orFault {value : Option α} : (orFault value).Spends limits :=
  spends_of_reads reads_ofExcept

theorem spends_stop {termination : ExecutionTermination} :
    (stop termination : Action α).Spends limits :=
  spends_of_reads reads_ofExcept

theorem spends_rejectIf {c : Prop} [Decidable c] {reason : Stop} :
    (rejectIf c reason).Spends limits :=
  spends_of_reads reads_ofExcept

theorem spends_get : Action.get.Spends limits := spends_of_reads Operation.reads_ofState

variable {register : Register} {value : RuntimeValue}

theorem spends_readRegister : (readRegister register).Spends limits :=
  spends_of_reads Operation.reads_ofState

/-- **A charge that lets the run go on has taken fuel**, and one for an instruction has found that
the limit of instructions is not reached. -/
theorem lt_of_chargeAction {instruction : Bool}
    (h : chargeAction limits instruction runtime = (.ok (), runtime')) :
    runtime.fuelUsed < limits.maxFuel ∧ runtime'.fuelUsed.toNat = runtime.fuelUsed.toNat + 1 ∧
      (instruction → runtime.instructionCount < limits.maxInstructions) := by
  rw [chargeAction] at h
  cases hcharge : runtime.toMeter.chargeAction limits instruction with
  | error termination => simp [hcharge] at h
  | ok meter =>
    simp only [hcharge, Prod.mk.injEq, true_and] at h
    subst h
    obtain ⟨hlt, hfuel⟩ := Meter.fuelUsed_of_chargeAction hcharge
    exact ⟨hlt, hfuel, (Meter.chargeAction_eq_ok.1 hcharge).2.1⟩

theorem spends_chargeAction {instruction : Bool} :
    (chargeAction limits instruction).Spends limits := by
  intro runtime
  rw [chargeAction]
  cases hcharge : runtime.toMeter.chargeAction limits instruction with
  | error termination => exact charged_of_eq rfl rfl
  | ok meter =>
    obtain ⟨hlt, hfuel⟩ := Meter.fuelUsed_of_chargeAction hcharge
    obtain ⟨-, -, -, rfl⟩ := Meter.chargeAction_eq_ok.1 hcharge
    refine ⟨hfuel ▸ Nat.le_succ _, le_rfl, le_rfl, fun hwithin ↦
      ⟨UInt64.le_iff_toNat_le.2 (hfuel ▸ UInt64.lt_iff_toNat_lt.1 hlt), hwithin.units,
        hwithin.peak⟩, rfl⟩

theorem spends_chargeValue {amount : UInt64} : (chargeValue limits amount).Spends limits := by
  intro runtime
  rw [chargeValue]
  cases hcharge : runtime.toMeter.chargeValue limits amount with
  | none => exact charged_of_eq rfl rfl
  | some meter =>
    obtain ⟨next, hnext, hle, rfl⟩ := Meter.chargeValue_eq_some.1 hcharge
    have hless : runtime.liveValueUnits ≤ next := UInt64.le_iff_toNat_le.2 (by omega)
    exact ⟨le_rfl, UInt64.le_iff_toNat_le.1 hless, le_rfl, fun hwithin ↦
      ⟨hwithin.fuel, hle, if_pos (hwithin.peak ▸ hless)⟩, rfl⟩

theorem spends_modify {g : Runtime → Runtime}
    (h : ∀ runtime, (g runtime).toMeter = runtime.toMeter)
    (hdepth : ∀ runtime, (g runtime).maxCallDepth = runtime.maxCallDepth) :
    Action.Spends limits (Operation.modify g) := fun runtime ↦
  charged_of_eq (h runtime) (hdepth runtime)

theorem spends_writeRegister : (writeRegister register value).Spends limits := by
  intro runtime
  rw [writeRegister]
  split_ifs <;> exact charged_of_eq rfl rfl

/-- **Only the end of an instruction counts it.** -/
theorem counts_countInstruction : countInstruction.Counts limits := fun runtime ↦
  ⟨le_rfl, le_rfl, by
    rw [countInstruction, Operation.modify, Meter.countInstruction, UInt64.toNat_saturatingAdd]
    exact Nat.min_le_left _ _, fun ⟨hfuel, hunits, hpeak⟩ ↦ ⟨hfuel, hunits, hpeak⟩, rfl⟩

theorem spends_setCells {cells : Cells} : (setCells cells).Spends limits := spends_modify (fun _ ↦ rfl) fun _ ↦ rfl

theorem spends_goTo {block : Nat} : (goTo block).Spends limits := spends_modify (fun _ ↦ rfl) fun _ ↦ rfl

theorem spends_setReturned : (setReturned value).Spends limits :=
  spends_modify (fun _ ↦ rfl) fun _ ↦ rfl

theorem spends_of_releases (h : p.Releases) : p.Spends limits := fun runtime ↦ by
  rw [(h runtime).eq]
  exact charged_of_eq rfl rfl

theorem spends_operand {dead : Bool} : (operand register dead).Spends limits :=
  spends_of_releases releases_operand

theorem spends_chargeBridgeActions (fuel : Nat) : (chargeBridgeActions limits fuel).Spends limits := by
  induction fuel with
  | zero => exact spends_pure
  | succ fuel ih => exact spends_chargeAction.bind fun _ ↦ ih

theorem spends_readValues (registers : List Register) : (readValues registers).Spends limits := by
  induction registers with
  | nil => exact spends_pure
  | cons register registers ih =>
    exact spends_readRegister.bind fun _ ↦ spends_orFault.bind fun _ ↦ ih.bind fun _ ↦ spends_pure

/-! ### Instructions -/

variable {instruction : Instruction} {dead : Register → Bool} {resultType : TypeExpr}
  {mask : UInt64} {registerTypes : List TypeExpr} {blocks : List BytecodeBlock} {frames : Nat}
  {frame : Frame} {payload : Option RuntimeValue}

theorem counts_finishInstruction {register : Register} {value : RuntimeValue} {stored : UInt64} :
    (finishInstruction limits register resultType value stored).Counts limits :=
  spends_orFault.counts fun _ ↦ spends_rejectIf.counts fun _ ↦ spends_get.counts fun _ ↦
    spends_rejectIf.counts fun _ ↦ spends_chargeValue.counts fun _ ↦
      counts_countInstruction.bind fun _ ↦ spends_writeRegister

theorem spends_pushOwned : (pushOwned execution instruction mask resultType).Spends execution.limits :=
  spends_orFault.bind fun _ ↦ (spends_chargeBridgeActions _).bind fun _ ↦
    spends_operand.bind fun _ ↦ spends_orFault.bind fun _ ↦ spends_operand.bind fun _ ↦
      spends_orFault.bind fun _ ↦ spends_orFault.bind fun _ ↦ spends_pure

theorem spends_executeReference {opcode : Opcode} :
    (executeReference execution opcode instruction resultType).Spends execution.limits :=
  (spends_readValues _).bind fun _ ↦ (spends_chargeBridgeActions _).bind fun _ ↦
    spends_get.bind fun _ ↦ spends_orFault.bind fun _ ↦
      spends_setCells.bind fun _ ↦ spends_pure

theorem spends_produce {opcode : Opcode} :
    (produce execution opcode instruction mask resultType).Spends execution.limits := by
  rw [produce]
  split_ifs
  · exact spends_pushOwned.bind fun _ ↦ spends_pure
  · refine spends_get.bind fun _ ↦ (spends_of_releases Owned.releases_execute).bind fun produced ↦ ?_
    cases produced with
    | none => exact spends_executeReference
    | some value => exact spends_pure

theorem counts_executeExtended :
    (executeExtended execution instruction mask registerTypes).Counts execution.limits :=
  spends_orFault.counts fun _ ↦ spends_orFault.counts fun _ ↦ spends_orFault.counts fun _ ↦
    spends_produce.counts fun _ ↦ counts_finishInstruction

theorem counts_executeRestricted : (executeRestricted limits instruction).Counts limits :=
  (spends_readValues _).counts fun _ ↦ spends_orFault.counts fun _ ↦ spends_orFault.counts fun _ ↦
    spends_chargeValue.counts fun _ ↦ spends_orFault.counts fun _ ↦
      counts_countInstruction.bind fun _ ↦ spends_writeRegister

/-! ### Calls -/

/-- An action on a frame that leaves a frame to go on in: both have only been charged. -/
structure Opens (limits : ExecutionLimits) (n : Nat) (next : α → Runtime → Runtime)
    (start : Runtime) (result : Except Stop α × Runtime) : Prop where
  left : start.Charged limits n result.2
  opened (a : α) (h : result.1 = .ok a) : start.Charged limits n (next a result.2)

section Opens

variable {start : Runtime} {next : α → Runtime → Runtime} {frame : α → Runtime}

theorem Opens.bind {q : β → Action α} {x : Action β} (hx : x.Spends limits)
    (h : start.Charged limits 0 runtime)
    (hq : ∀ b runtime', start.Charged limits 0 runtime' → Opens limits n next start (q b runtime')) :
    Opens limits n next start ((x >>= q) runtime) := by
  have hleft := h.trans (hx runtime)
  rw [Operation.bind_apply]
  rcases hresult : x runtime with ⟨e | b, runtime₁⟩
  · rw [hresult] at hleft
    exact ⟨hleft.mono (Nat.zero_le n), nofun⟩
  · rw [hresult] at hleft
    exact hq b runtime₁ hleft

theorem Opens.map {γ : Type} {next' : γ → Runtime → Runtime} {g : α → γ}
    (h : Opens limits n next start (p runtime))
    (hnext : ∀ a runtime', next' (g a) runtime' = next a runtime') :
    Opens limits n next' start ((p >>= fun a ↦ pure (g a)) runtime) := by
  rw [Operation.bind_apply]
  rcases hresult : p runtime with ⟨e | a, runtime₁⟩
  · rw [hresult] at h
    exact ⟨h.left, nofun⟩
  · rw [hresult] at h
    refine ⟨h.left, fun c hc ↦ ?_⟩
    obtain rfl := Except.ok.inj hc
    exact hnext a _ ▸ h.opened a rfl

/-- The frame of a callee begins with the counters of its caller, and its parameters are charged to
it. -/
theorem opens_bindParameters (pairs : List (Register × Register)) {k : Nat} {child : Runtime}
    (h : start.Charged limits 0 runtime) (hchild : start.Charged limits 0 child) :
    Opens limits 0 (fun child _ ↦ child) start
      (bindParameters limits mask k child pairs runtime) := by
  induction pairs generalizing k child runtime with
  | nil => exact ⟨h, fun _ hpure ↦ Except.ok.inj hpure ▸ hchild⟩
  | cons pair pairs ih =>
    refine .bind spends_operand h fun value runtime₁ h₁ ↦ ?_
    have hcharged : start.Charged limits 0 (chargeValue limits value.units child).2 :=
      hchild.trans (spends_chargeValue child)
    rcases hcharge : chargeValue limits value.units child with ⟨_ | _, child₁⟩
    · rw [hcharge] at hcharged
      refine ⟨⟨hcharged.fuel, hcharged.units, hcharged.count, fun hstart ↦ ?_, h₁.depth⟩, nofun⟩
      obtain ⟨hfuel, hunits, hpeak⟩ := hcharged.within hstart
      exact ⟨hfuel, hunits, hpeak⟩
    · rw [hcharge] at hcharged
      have hwritten : start.Charged limits 0 (writeRegister pair.2 value child₁).2 :=
        hcharged.trans (spends_writeRegister child₁)
      dsimp only
      rcases hwrite : writeRegister pair.2 value child₁ with ⟨_ | _, child₂⟩
      · exact ⟨h₁, nofun⟩
      · rw [hwrite] at hwritten
        exact ih h₁ hwritten

theorem opens_prepareFrame {function : EntityId} {shape : ReturnShape}
    (h : start.Charged execution.limits 0 runtime) :
    Opens execution.limits 0 (fun frame _ ↦ frame.child) start
      (prepareFrame execution instruction registerTypes frames function shape mask runtime) := by
  refine .bind spends_get h fun _ _ h ↦ .bind spends_rejectIf h fun _ _ h ↦
    .bind spends_chargeAction h fun _ _ h ↦ .bind spends_orFault h fun _ _ h ↦
      .bind spends_orFault h fun _ _ h ↦ .bind spends_orFault h fun _ _ h ↦
        .bind spends_rejectIf h fun _ caller h ↦ ?_
  rw [bind_of_ok (rfl : Action.get caller = (.ok caller, caller))]
  refine .bind spends_setCells h fun _ _ h' ↦
    (opens_bindParameters _ h' ?_).map fun _ _ ↦ rfl
  refine h.trans (n := 0) ?_
  exact charged_of_eq rfl rfl

end Opens

theorem counts_returnToCaller {parent : Suspended} {returned : Option RuntimeValue} :
    (returnToCaller limits parent returned).Counts limits :=
  spends_orFault.counts fun _ ↦ spends_chargeValue.counts fun _ ↦
    counts_countInstruction.bind fun _ ↦ spends_writeRegister

/-! ### Terminators -/

theorem spends_bindValues {target : BlockSlot}
    {values : List RuntimeValue} : (bindValues blocks target values).Spends limits := by
  have hwrites (pairs : List (Register × RuntimeValue)) :
      (pairs.forM fun pair ↦ writeRegister pair.1 pair.2).Spends limits := by
    induction pairs with
    | nil => exact spends_pure
    | cons pair pairs ih => exact spends_writeRegister.bind fun _ ↦ ih
  exact spends_orFault.bind fun _ ↦ spends_rejectIf.bind fun _ ↦ (hwrites _).bind fun _ ↦
    spends_goTo

theorem spends_edgeArguments (arguments : List Register) :
    (edgeArguments limits dead arguments).Spends limits := by
  induction arguments with
  | nil => exact spends_pure
  | cons register registers ih =>
    exact spends_chargeAction.bind fun _ ↦ spends_operand.bind fun _ ↦ ih.bind fun _ ↦ spends_pure

theorem spends_bindEdge {edge : BytecodeTargetEdge} : (bindEdge limits blocks edge dead).Spends limits :=
  (spends_edgeArguments _).bind fun _ ↦ spends_bindValues

theorem spends_switchArguments (arguments : List BytecodeSwitchArgument) :
    (switchArguments limits dead payload arguments).Spends limits := by
  induction arguments with
  | nil => exact spends_pure
  | cons argument arguments ih =>
    cases argument with
    | value register =>
      exact spends_chargeAction.bind fun _ ↦ spends_operand.bind fun _ ↦ ih.bind fun _ ↦ spends_pure
    | casePayload =>
      refine spends_chargeAction.bind fun _ ↦ spends_chargeAction.bind fun _ ↦ ?_
      cases payload with
      | none => exact spends_stop
      | some value => exact ih.bind fun _ ↦ spends_pure

theorem spends_selectCase {key : CaseKey} (cases : List BytecodeSwitchCase) :
    (selectCase limits blocks key payload dead cases).Spends limits := by
  induction cases with
  | nil => exact spends_stop
  | cons switchCase cases ih =>
    refine spends_chargeAction.bind fun _ ↦ ?_
    split_ifs
    · exact (spends_switchArguments _).bind fun _ ↦ spends_bindValues
    · exact ih

theorem spends_returnValue {register : Register} :
    (returnValue limits resultType register).Spends limits :=
  (spends_of_releases releases_takeRegister).bind fun _ ↦ spends_orFault.bind fun _ ↦ spends_rejectIf.bind fun _ ↦
    spends_rejectIf.bind fun _ ↦ spends_setReturned

theorem spends_switchTo {value : Register} {cases : List BytecodeSwitchCase} :
    (switchTo limits blocks value cases dead).Spends limits :=
  spends_operand.bind fun _ ↦ spends_orFault.bind fun _ ↦ spends_selectCase _

theorem spends_trap {code : UInt32} {payload : Option Register} :
    (trap limits code payload).Spends limits :=
  (spends_readValues _).bind fun _ ↦ spends_rejectIf.bind fun _ ↦ spends_stop

/-- What a terminator does once it is charged. -/
theorem charged_dispatchTerminator {current : Current} {live : FnLiveness}
    {terminator : BytecodeTerminator} {charged : Runtime}
    (h : chargeAction limits false runtime = (.ok (), charged)) :
    charged.Charged limits 0 (dispatchTerminator limits current live terminator runtime).2 := by
  rw [dispatchTerminator, bind_of_ok h]
  refine spends_get.bind (fun _ ↦ ?_) charged
  cases terminator with
  | ret register => exact spends_returnValue.bind fun _ ↦ spends_pure
  | branch edge => exact spends_bindEdge.bind fun _ ↦ spends_pure
  | condBranch condition ifTrue ifFalse =>
    refine spends_readRegister.bind fun _ ↦ spends_orFault.bind fun value ↦ ?_
    cases boolOf value with
    | none => exact spends_stop
    | some held => exact spends_bindEdge.bind fun _ ↦ spends_pure
  | variantSwitch value cases => exact spends_switchTo.bind fun _ ↦ spends_pure
  | trap code payload => exact spends_trap.bind fun _ ↦ spends_pure

/-- What an instruction does once it is charged: it is counted, or it opens a frame. -/
theorem opens_executeInstruction {current : Current} {charged : Runtime}
    (h : chargeAction execution.limits true runtime = (.ok (), charged)) :
    Opens execution.limits 1 (fun next runtime ↦ next.runtime runtime) charged
      (executeInstruction execution current frames instruction runtime) := by
  have hself : charged.Charged execution.limits 0 charged := charged_of_eq rfl rfl
  have hcounts {action : Action Unit} (haction : action.Counts execution.limits) :
      Opens execution.limits 1 (fun _ runtime ↦ runtime) charged (action charged) :=
    ⟨haction charged, fun _ _ ↦ haction charged⟩
  have hframe {action : Action Frame}
      (haction : Opens execution.limits 0 (fun frame _ ↦ frame.child) charged (action charged)) :
      Opens execution.limits 1 (fun frame _ ↦ frame.child) charged (action charged) :=
    ⟨haction.left.mono (Nat.zero_le 1), fun a ha ↦ (haction.opened a ha).mono (Nat.zero_le 1)⟩
  rw [executeInstruction, bind_of_ok h]
  split_ifs
  · refine Opens.map (hframe ?_) fun _ _ ↦ rfl
    exact .bind spends_orFault hself fun _ _ h ↦ opens_prepareFrame h
  · refine Opens.map (hframe ?_) fun _ _ ↦ rfl
    exact .bind spends_orFault hself fun _ _ h ↦ .bind spends_orFault h fun _ _ h ↦
      opens_prepareFrame h
  · exact (hcounts counts_executeExtended).map fun _ _ ↦ rfl
  · exact (hcounts counts_executeRestricted).map fun _ _ ↦ rfl

/-- **A terminator that does not end the run has taken fuel.** -/
theorem lt_of_dispatchTerminator {current : Current} {live : FnLiveness}
    {terminator : BytecodeTerminator} {flow : Flow}
    (h : dispatchTerminator limits current live terminator runtime = (.ok flow, runtime')) :
    runtime.fuelUsed < limits.maxFuel ∧ runtime.fuelUsed.toNat < runtime'.fuelUsed.toNat := by
  obtain ⟨⟨⟩, charged, hcharge, -⟩ := Operation.bind_eq_ok.1 h
  obtain ⟨hlt, hfuel, -⟩ := lt_of_chargeAction hcharge
  have hle : charged.Charged limits 0
      (dispatchTerminator limits current live terminator runtime).2 :=
    charged_dispatchTerminator hcharge
  rw [h] at hle
  exact ⟨hlt, lt_of_lt_of_le (by omega) hle.fuel⟩

/-- **An instruction that does not end the run has taken fuel**, and so has the frame that it
opens. -/
theorem lt_of_executeInstruction {current : Current} {next : Next}
    (h : executeInstruction execution current frames instruction runtime = (.ok next, runtime')) :
    runtime.fuelUsed < execution.limits.maxFuel ∧
      runtime.fuelUsed.toNat < (next.runtime runtime').fuelUsed.toNat := by
  obtain ⟨⟨⟩, charged, hcharge, -⟩ := Operation.bind_eq_ok.1 h
  obtain ⟨hlt, hfuel, -⟩ := lt_of_chargeAction hcharge
  have hopens : Opens execution.limits 1 (fun next runtime ↦ next.runtime runtime) charged
      (executeInstruction execution current frames instruction runtime) :=
    opens_executeInstruction hcharge
  rw [h] at hopens
  exact ⟨hlt, lt_of_lt_of_le (by omega) (hopens.opened next rfl).fuel⟩

end Spends

/-! ### The loop -/

namespace Machine

variable {execution : Execution} {machine machine' : Machine}

/-- The fuel that a machine may still use. -/
def fuelLeft (limits : ExecutionLimits) (machine : Machine) : Nat :=
  limits.maxFuel.toNat - machine.runtime.fuelUsed.toNat

/-- **Every iteration that does not end the run takes fuel**: an instruction, a call, a jump and a
return alike. -/
theorem fuelLeft_lt (h : step execution machine = .running machine') :
    machine'.fuelLeft execution.limits < machine.fuelLeft execution.limits := by
  obtain ⟨runtime, stack, current⟩ := machine
  have hless (hlt : runtime.fuelUsed < execution.limits.maxFuel)
      (hfuel : runtime.fuelUsed.toNat < machine'.runtime.fuelUsed.toNat) :
      machine'.fuelLeft execution.limits < fuelLeft execution.limits ⟨runtime, stack, current⟩ := by
    rw [UInt64.lt_iff_toNat_lt] at hlt
    show _ - _ < execution.limits.maxFuel.toNat - runtime.fuelUsed.toNat
    omega
  simp only [step] at h
  split at h
  · simp [Progress.stopped] at h
  · split at h
    · split at h
      · rename_i reason runtime' _
        cases reason <;> simp [Progress.stopped] at h
      · rename_i hexecute
        obtain ⟨hlt, hfuel⟩ := lt_of_executeInstruction hexecute
        cases h
        exact hless hlt hfuel
      · rename_i hexecute
        obtain ⟨hlt, hfuel⟩ := lt_of_executeInstruction hexecute
        cases h
        exact hless hlt hfuel
    · split at h
      · rename_i reason runtime' _
        cases reason <;> simp [Progress.stopped] at h
      · rename_i hdispatch
        obtain ⟨hlt, hfuel⟩ := lt_of_dispatchTerminator hdispatch
        cases h
        exact hless hlt hfuel
      · rename_i runtime' hdispatch
        obtain ⟨hlt, hfuel⟩ := lt_of_dispatchTerminator hdispatch
        cases stack with
        | nil =>
          rw [finishFrame] at h
          split at h <;> cases h
        | cons parent stack =>
          rw [finishFrame] at h
          have hreturn : (adoptFrame parent.runtime runtime').Charged execution.limits 1
              (returnToCaller execution.limits parent runtime'.returned
                (adoptFrame parent.runtime runtime')).2 := counts_returnToCaller _
          split at h
          · rename_i reason _ _
            cases reason <;> simp [Progress.stopped] at h
          · rename_i hok
            rw [hok] at hreturn
            cases h
            exact hless hlt (lt_of_lt_of_le hfuel hreturn.fuel)

/-- **The loop ends**, after at most one iteration more than there are units of fuel left. -/
theorem exists_runFor_eq (machine : Machine) : ∃ outcome, ∀ iterations,
    machine.fuelLeft execution.limits < iterations →
      runFor execution iterations machine = some outcome := by
  induction hfuel : machine.fuelLeft execution.limits using Nat.strong_induction_on
    generalizing machine with
  | _ fuel ih =>
    cases hstep : step execution machine with
    | ended outcome =>
      refine ⟨outcome, fun iterations hlt ↦ ?_⟩
      obtain _ | iterations := iterations
      · omega
      · rw [runFor, hstep]
    | running machine' =>
      have hless := fuelLeft_lt hstep
      obtain ⟨outcome, houtcome⟩ := ih _ (hfuel ▸ hless) machine' rfl
      refine ⟨outcome, fun iterations hlt ↦ ?_⟩
      obtain _ | iterations := iterations
      · omega
      · rw [runFor, hstep]
        exact houtcome iterations (by omega)

end Machine

/-- **Every run ends.** For every function table — with arbitrary loops and recursive calls, and with
what an image that loads may contain — every list of inputs and all limits, every iteration that does
not end the run leaves less fuel, and the run has an outcome after at most one iteration more than
the limit of fuel. -/
theorem run_terminates (execution : Execution) (inputs : ValidatedInputs) (maxCallDepth : Nat) :
    (∀ machine machine', Machine.step execution machine = .running machine' →
      execution.limits.maxFuel.toNat - machine'.runtime.fuelUsed.toNat <
        execution.limits.maxFuel.toNat - machine.runtime.fuelUsed.toNat) ∧
    ∃ outcome, ∀ iterations, execution.limits.maxFuel.toNat < iterations →
      runCore execution inputs maxCallDepth iterations = some outcome := by
  refine ⟨fun machine machine' h ↦ Machine.fuelLeft_lt h, ?_⟩
  simp only [runCore]
  split_ifs
  · exact ⟨_, fun _ _ ↦ rfl⟩
  · exact ⟨_, fun _ _ ↦ rfl⟩
  · split
    · exact ⟨_, fun _ _ ↦ rfl⟩
    · obtain ⟨outcome, houtcome⟩ := Machine.exists_runFor_eq _
      refine ⟨outcome, fun iterations hlt ↦ houtcome iterations (lt_of_le_of_lt ?_ hlt)⟩
      exact Nat.sub_le _ _

end Sley.Vm
