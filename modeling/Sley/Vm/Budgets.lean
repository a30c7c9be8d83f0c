import Sley.Vm.OwnedAgrees
import Sley.Vm.Termination

/-!
# The limits of a run

Fuel, value units and the depth of the calls stay within their limits in every state of a run
(`limits_hold`). The instructions need not: a call is checked when it is charged and counted when it
returns, so a frame can return when the limit is already reached
(`Machine.ReturnsAtCeiling`, `instructions_overrun`). **This is the only way past the limit**, and it
goes no further than the calls are deep.
-/

namespace Sley.Vm

open Ssmc Action Relation
open Operation (bind_apply bind_eq_ok bind_of_ok ofExcept_eq_ok ofState_eq_ok pure_eq_ok)

section Instruction

variable {execution : Execution} {current : Current} {instruction : Instruction} {mask : UInt64}
  {registerTypes : List TypeExpr} {frames : Nat} {runtime runtime' : Runtime} {frame : Frame}

/-- What an instruction does: it is counted below the limit or not at all, and so it is with the
frame that it opens. -/
theorem charged_executeInstruction (execution : Execution) (current : Current) (frames : Nat)
    (instruction : Instruction) (runtime : Runtime) :
    let result := executeInstruction execution current frames instruction runtime
    runtime.Charged execution.limits 1 result.2 ∧
      (result.2.instructionCount.toNat ≤ runtime.instructionCount.toNat ∨
        result.2.instructionCount.toNat ≤ execution.limits.maxInstructions.toNat) ∧
      ∀ next, result.1 = .ok next → runtime.Charged execution.limits 1 (next.runtime result.2) ∧
          (next.runtime result.2).instructionCount.toNat ≤
            execution.limits.maxInstructions.toNat := by
  intro result
  have hspends : runtime.Charged execution.limits 0 (chargeAction execution.limits true runtime).2 :=
    spends_chargeAction runtime
  rcases hcharge : chargeAction execution.limits true runtime with ⟨e | ⟨⟩, charged⟩
  · rw [hcharge] at hspends
    have hresult : result = (.error e, charged) := by
      simp only [result, executeInstruction]
      rw [bind_apply, hcharge]
    rw [hresult]
    refine ⟨hspends.mono (Nat.zero_le 1), .inl hspends.count, fun _ hnext ↦ ?_⟩
    cases hnext
  · rw [hcharge] at hspends
    have hopens : Opens _ 1 _ charged result := opens_executeInstruction hcharge
    have hlt := UInt64.lt_iff_toNat_lt.1 ((lt_of_chargeAction hcharge).2.2 rfl)
    have hcount {next : Runtime} (h : charged.Charged execution.limits 1 next) :
        next.instructionCount.toNat ≤ execution.limits.maxInstructions.toNat :=
      (h.count.trans (Nat.add_le_add_right hspends.count 1)).trans hlt
    exact ⟨hspends.trans hopens.left, .inr (hcount hopens.left), fun next hnext ↦
      ⟨hspends.trans (hopens.opened next hnext), hcount (hopens.opened next hnext)⟩⟩

theorem le_of_prepareFrame {function : EntityId} {shape : ReturnShape}
    (h : prepareFrame execution instruction registerTypes frames function shape mask runtime =
      (.ok frame, runtime')) : frames + 1 ≤ runtime.maxCallDepth := by
  obtain ⟨_, _, hget, h⟩ := bind_eq_ok.1 h
  obtain ⟨⟨⟩, rfl⟩ := ofState_eq_ok.1 hget
  obtain ⟨_, _, hreject, -⟩ := bind_eq_ok.1 h
  exact Nat.le_of_not_gt (Except.rejectIf_eq_ok.1 (ofExcept_eq_ok.1 hreject).1)

/-- **A frame is opened below the depth of the calls.** -/
theorem le_of_enter (h : executeInstruction execution current frames instruction runtime =
      (.ok (.enter frame), runtime')) : frames + 1 ≤ runtime.maxCallDepth := by
  have hspends : runtime.Charged execution.limits 0 (chargeAction execution.limits true runtime).2 :=
    spends_chargeAction runtime
  obtain ⟨⟨⟩, charged, hcharge, h⟩ := bind_eq_ok.1 h
  rw [hcharge] at hspends
  have hget : Action.get charged = (.ok charged, charged) := rfl
  rw [← hspends.depth]
  split_ifs at h
  · rw [bind_of_ok hget] at h
    obtain ⟨_, _, hcall, -⟩ := bind_eq_ok.1 h
    obtain ⟨_, _, hfault, hframe⟩ := bind_eq_ok.1 hcall
    obtain ⟨-, rfl⟩ := ofExcept_eq_ok.1 hfault
    exact le_of_prepareFrame hframe
  · rw [bind_of_ok hget] at h
    obtain ⟨_, _, hcall, -⟩ := bind_eq_ok.1 h
    obtain ⟨_, _, hfault, hcall⟩ := bind_eq_ok.1 hcall
    obtain ⟨-, rfl⟩ := ofExcept_eq_ok.1 hfault
    obtain ⟨_, _, hfault, hframe⟩ := bind_eq_ok.1 hcall
    obtain ⟨-, rfl⟩ := ofExcept_eq_ok.1 hfault
    exact le_of_prepareFrame hframe
  · rw [bind_of_ok hget] at h
    obtain ⟨_, _, -, h⟩ := bind_eq_ok.1 h
    cases (pure_eq_ok.1 h).1
  · obtain ⟨_, _, -, h⟩ := bind_eq_ok.1 h
    cases (pure_eq_ok.1 h).1

theorem spends_dispatchTerminator {live : FnLiveness} {terminator : BytecodeTerminator} :
    (dispatchTerminator execution.limits current live terminator).Spends execution.limits := by
  intro runtime
  have hspends : runtime.Charged execution.limits 0 (chargeAction execution.limits false runtime).2 :=
    spends_chargeAction runtime
  rcases hcharge : chargeAction execution.limits false runtime with ⟨e | ⟨⟩, charged⟩
  · rw [hcharge] at hspends
    rw [dispatchTerminator, bind_apply, hcharge]
    exact hspends
  · rw [hcharge] at hspends
    exact hspends.trans (charged_dispatchTerminator hcharge)

/-- Only a `Return` leaves the frame. -/
theorem ret_of_returned {live : FnLiveness} {terminator : BytecodeTerminator}
    (h : dispatchTerminator execution.limits current live terminator runtime =
      (.ok .returned, runtime')) : ∃ register, terminator = .ret register := by
  obtain ⟨⟨⟩, _, -, h⟩ := bind_eq_ok.1 h
  obtain ⟨_, _, -, h⟩ := bind_eq_ok.1 h
  cases terminator with
  | ret register => exact ⟨register, rfl⟩
  | condBranch condition ifTrue ifFalse =>
    obtain ⟨_, _, -, h⟩ := bind_eq_ok.1 h
    obtain ⟨value, _, -, h⟩ := bind_eq_ok.1 h
    cases hheld : boolOf value with
    | none =>
      rw [hheld] at h
      cases h
    | some held =>
      rw [hheld] at h
      obtain ⟨_, _, -, h⟩ := bind_eq_ok.1 h
      cases (pure_eq_ok.1 h).1
  | _ =>
    obtain ⟨_, _, -, h⟩ := bind_eq_ok.1 h
    cases (pure_eq_ok.1 h).1

end Instruction

/-! ### The loop -/

/-- What is reported at the end is what has been used. -/
def CoreOutcome.Reports (outcome : CoreOutcome) (meter : Meter) : Prop :=
  outcome.instructionCount = meter.instructionCount ∧ outcome.fuelUsed = meter.fuelUsed ∧
    outcome.peakValueUnits = meter.peakValueUnits

namespace Machine

/-- **The way past the limit of instructions**: a callee returns, which counts its call, and the
limit is already reached. -/
def ReturnsAtCeiling (limits : ExecutionLimits) (machine : Machine) : Prop :=
  machine.stack ≠ [] ∧ limits.maxInstructions ≤ machine.runtime.instructionCount ∧
    ∃ block register, machine.current.blocks[machine.runtime.block]? = some block ∧
      block.instructions[machine.current.pc]? = none ∧ block.terminator = .ret register

/-- What every iteration keeps. Each of the calls that are open may be counted past the limit. -/
structure Bounded (limits : ExecutionLimits) (maxCallDepth : Nat) (machine : Machine) : Prop where
  within : machine.runtime.Within limits
  depth : machine.runtime.maxCallDepth = maxCallDepth
  depths : ∀ frame ∈ machine.stack, frame.runtime.maxCallDepth = maxCallDepth
  stack : machine.stack.length < maxCallDepth
  count : machine.runtime.instructionCount.toNat + machine.stack.length <
    limits.maxInstructions.toNat + maxCallDepth

variable {execution : Execution} {inputs : ValidatedInputs} {limits : ExecutionLimits}
  {maxCallDepth : Nat} {machine machine' start : Machine} {runtime : Runtime} {outcome : CoreOutcome}

/-- What an iteration has used when it leads to a runtime or ends in it. -/
structure Uses (limits : ExecutionLimits) (machine : Machine) (runtime : Runtime) : Prop where
  charged : machine.runtime.Charged limits 1 runtime
  count : ¬ machine.ReturnsAtCeiling limits →
    runtime.instructionCount.toNat ≤ machine.runtime.instructionCount.toNat ∨
      runtime.instructionCount.toNat ≤ limits.maxInstructions.toNat

/-- What an iteration leads to. -/
def Leads (limits : ExecutionLimits) (maxCallDepth : Nat) (machine : Machine) : Progress → Prop
  | .running machine' => machine.Uses limits machine'.runtime ∧ machine'.Bounded limits maxCallDepth
  | .ended outcome => ∃ runtime, machine.Uses limits runtime ∧ outcome.Reports runtime.toMeter

theorem toMeter_unwind (stack : List Suspended) (runtime : Runtime) :
    (unwind runtime stack).toMeter = runtime.toMeter := by
  rw [unwind]
  induction stack generalizing runtime with
  | nil => rfl
  | cons parent stack ih => exact ih (adoptFrame parent.runtime runtime)

theorem leads_stopped {stack : List Suspended} {reason : Stop} (h : machine.Uses limits runtime) :
    machine.Leads limits maxCallDepth (.stopped stack runtime reason) := by
  cases reason with
  | fault => exact ⟨runtime, h, rfl, rfl, rfl⟩
  | terminated termination =>
    refine ⟨runtime, h, ?_⟩
    rw [← toMeter_unwind stack runtime]
    exact ⟨rfl, rfl, rfl⟩

theorem Uses.of_charged (h : machine.runtime.Charged limits 0 runtime) :
    machine.Uses limits runtime :=
  ⟨h.mono (Nat.zero_le 1), fun _ ↦ .inl h.count⟩

/-- A frame that returns, to its caller or from the run. -/
theorem leads_finishFrame {block : BytecodeBlock} {register : Register}
    (h : machine.Bounded limits maxCallDepth) (hcharged : machine.runtime.Charged limits 0 runtime)
    (hblock : machine.current.blocks[machine.runtime.block]? = some block)
    (hpc : block.instructions[machine.current.pc]? = none) (hret : block.terminator = .ret register) :
    machine.Leads limits maxCallDepth (finishFrame limits runtime machine.stack) := by
  obtain ⟨start, stack, current⟩ := machine
  cases stack with
  | nil =>
    rw [finishFrame]
    split <;> exact ⟨runtime, .of_charged hcharged, rfl, rfl, rfl⟩
  | cons parent stack =>
    obtain ⟨hparent, hdepths⟩ := List.forall_mem_cons.1 h.depths
    have hreturn : (adoptFrame parent.runtime runtime).Charged limits 1
        (returnToCaller limits parent runtime.returned (adoptFrame parent.runtime runtime)).2 :=
      counts_returnToCaller _
    have hadopt : start.Charged limits 0 (adoptFrame parent.runtime runtime) :=
      ⟨hcharged.fuel, hcharged.units, hcharged.count, fun hstart ↦ by
        obtain ⟨hfuel, hunits, hpeak⟩ := hcharged.within hstart
        exact ⟨hfuel, hunits, hpeak⟩, hparent.trans h.depth.symm⟩
    have hall := hadopt.trans hreturn
    have huses : Uses limits ⟨start, parent :: stack, current⟩
        (returnToCaller limits parent runtime.returned (adoptFrame parent.runtime runtime)).2 := by
      refine ⟨hall, fun hceiling ↦ .inr (hall.count.trans (UInt64.lt_iff_toNat_lt.1 ?_))⟩
      by_contra hle
      exact hceiling ⟨List.cons_ne_nil parent stack, UInt64.not_lt.1 hle, block, register, hblock, hpc, hret⟩
    rw [finishFrame]
    split
    · rename_i hresult
      rw [hresult] at huses
      exact leads_stopped huses
    · rename_i hresult
      rw [hresult] at huses hall
      have hcount := hall.count
      have hbound := h.count
      have hdepth := h.stack
      simp only [List.length_cons] at hbound hdepth
      refine ⟨huses, hall.within h.within, hall.depth.trans h.depth, hdepths, ?_, ?_⟩
      · exact (Nat.lt_succ_self _).trans hdepth
      · dsimp only at hcount ⊢
        omega

/-- **What one iteration does** to the counters, to the depth of the calls and to what is reported. -/
theorem leads_step (h : machine.Bounded execution.limits maxCallDepth) :
    machine.Leads execution.limits maxCallDepth (step execution machine) := by
  have hself : machine.runtime.Charged execution.limits 0 machine.runtime := charged_of_eq rfl rfl
  have hrunning {runtime : Runtime} (current : Current) (huses : machine.Uses execution.limits runtime)
      (hcount : runtime.instructionCount.toNat ≤ machine.runtime.instructionCount.toNat ∨
        runtime.instructionCount.toNat ≤ execution.limits.maxInstructions.toNat) :
      machine.Leads execution.limits maxCallDepth (.running ⟨runtime, machine.stack, current⟩) := by
    have hbound := h.count
    have hstack := h.stack
    refine ⟨huses, huses.charged.within h.within, huses.charged.depth.trans h.depth, h.depths, h.stack, ?_⟩
    dsimp only
    omega
  obtain ⟨runtime, stack, current⟩ := machine
  rw [step]
  split
  · exact leads_stopped (.of_charged hself)
  · rename_i block hblock
    split
    · rename_i instruction hpc
      obtain ⟨hcharged, hcount, hopened⟩ := charged_executeInstruction execution current
        (stack.length + 1) instruction runtime
      have huses : Uses execution.limits ⟨runtime, stack, current⟩ _ := ⟨hcharged, fun _ ↦ hcount⟩
      split
      · rename_i hexecute
        rw [hexecute] at huses
        exact leads_stopped huses
      · rename_i hexecute
        rw [hexecute] at huses hcount
        exact hrunning _ huses hcount
      · rename_i frame runtime' hexecute
        rw [hexecute] at hcharged hopened
        obtain ⟨hframe, hle⟩ := hopened _ rfl
        have hdepth := h.depth ▸ le_of_enter hexecute
        refine ⟨⟨hframe, fun _ ↦ .inr hle⟩, hframe.within h.within, hframe.depth.trans h.depth,
          List.forall_mem_cons.2 ⟨hcharged.depth.trans h.depth, h.depths⟩, hdepth, ?_⟩
        exact Nat.add_lt_add_of_le_of_lt hle hdepth
    · rename_i hpc
      have hspends : runtime.Charged execution.limits 0 (dispatchTerminator execution.limits current
        (execution.live current.func) block.terminator runtime).2 := spends_dispatchTerminator runtime
      split
      · rename_i hdispatch
        rw [hdispatch] at hspends
        exact leads_stopped (.of_charged hspends)
      · rename_i hdispatch
        rw [hdispatch] at hspends
        exact hrunning _ (.of_charged hspends) (.inl hspends.count)
      · rename_i hdispatch
        rw [hdispatch] at hspends
        obtain ⟨register, hret⟩ := ret_of_returned hdispatch
        exact leads_finishFrame h hspends hblock hpc hret

/-! ### Runs -/

/-- The machine that a run begins with, unless the run is refused. -/
def Starts (execution : Execution) (inputs : ValidatedInputs) (maxCallDepth : Nat)
    (start : Machine) : Prop :=
  let initial := execution.lowered.initial inputs.valueUnits maxCallDepth
  maxCallDepth ≠ 0 ∧ initial.peakValueUnits ≤ execution.limits.maxValueUnits ∧
    ∃ runtime, writeInputs execution.lowered.bytecode.parameterRegisters inputs.inputs initial =
      (.ok (), runtime) ∧ start = ⟨runtime, [], execution.lowered.bytecode.start 0⟩

/-- The states of a run. -/
def Reaches (execution : Execution) : Machine → Machine → Prop :=
  ReflTransGen fun machine machine' ↦ step execution machine = .running machine'

/-- The states of a run in which no callee returns when the limit of instructions is reached. -/
def ReachesBelow (execution : Execution) : Machine → Machine → Prop :=
  ReflTransGen fun machine machine' ↦
    ¬ machine.ReturnsAtCeiling execution.limits ∧ step execution machine = .running machine'

theorem spends_writeInputs (registers : List Register) (values : List ConstValue) :
    (writeInputs registers values).Spends limits := by
  induction values generalizing registers with
  | nil => cases registers <;> exact spends_pure
  | cons value values ih =>
    cases registers with
    | nil => exact spends_of_reads Operation.reads_ofExcept
    | cons register registers => exact spends_writeRegister.bind fun _ ↦ ih registers

theorem Starts.bounded (h : Starts execution inputs maxCallDepth start) :
    start.Bounded execution.limits maxCallDepth ∧ start.runtime.instructionCount = 0 := by
  obtain ⟨hdepth, hunits, runtime, hwrite, rfl⟩ := h
  have hspends : Runtime.Charged execution.limits 0 _ _ := spends_writeInputs
    execution.lowered.bytecode.parameterRegisters inputs.inputs
    (execution.lowered.initial inputs.valueUnits maxCallDepth)
  rw [hwrite] at hspends
  have hcount : runtime.instructionCount.toNat ≤ 0 := hspends.count
  have hzero := Nat.le_zero.1 hcount
  refine ⟨⟨hspends.within ⟨UInt64.zero_le, hunits, rfl⟩, hspends.depth, nofun,
    Nat.pos_of_ne_zero hdepth, ?_⟩, UInt64.toNat_inj.1 hzero⟩
  show runtime.instructionCount.toNat + 0 < _
  omega

theorem Reaches.bounded (h : Reaches execution start machine)
    (hstart : start.Bounded execution.limits maxCallDepth) :
    machine.Bounded execution.limits maxCallDepth ∧
      start.runtime.liveValueUnits.toNat ≤ machine.runtime.liveValueUnits.toNat := by
  induction h with
  | refl => exact ⟨hstart, le_rfl⟩
  | @tail machine machine' _ hstep ih =>
    have hleads := leads_step ih.1
    rw [hstep] at hleads
    exact ⟨hleads.2, ih.2.trans hleads.1.charged.units⟩

theorem ReachesBelow.reaches (h : ReachesBelow execution start machine) :
    Reaches execution start machine := ReflTransGen.mono (fun _ _ ↦ And.right) _ _ h

/-- The outcome of the loop is that of a state it reaches. -/
theorem exists_reaches_of_runFor {iterations : Nat}
    (h : runFor execution iterations machine = some outcome) :
    ∃ last, Reaches execution machine last ∧ step execution last = .ended outcome := by
  induction iterations generalizing machine with
  | zero => cases h
  | succ iterations ih =>
    rw [runFor] at h
    split at h
    · rename_i hstep
      obtain rfl := Option.some.inj h
      exact ⟨machine, .refl, hstep⟩
    · rename_i hstep
      obtain ⟨last, hreaches, hlast⟩ := ih h
      exact ⟨last, .head hstep hreaches, hlast⟩

/-- Every outcome is that of a state of the run, unless the run is refused. -/
theorem exists_ended_of_runCore {iterations : Nat}
    (h : runCore execution inputs maxCallDepth iterations = some outcome) :
    (outcome.instructionCount = 0 ∧ outcome.fuelUsed ≤ execution.limits.maxFuel) ∨
      ∃ start last, Starts execution inputs maxCallDepth start ∧ Reaches execution start last ∧
        step execution last = .ended outcome := by
  simp only [runCore] at h
  split_ifs at h with hdepth hunits
  · exact .inl (Option.some.inj h ▸ ⟨rfl, UInt64.zero_le⟩)
  · exact .inl (Option.some.inj h ▸ ⟨rfl, UInt64.zero_le⟩)
  · split at h
    · rename_i runtime hwrite
      have hspends : Runtime.Charged execution.limits 0 _ _ := spends_writeInputs
        execution.lowered.bytecode.parameterRegisters inputs.inputs
        (execution.lowered.initial inputs.valueUnits maxCallDepth)
      rw [hwrite] at hspends
      have hwithin := hspends.within ⟨UInt64.zero_le, UInt64.not_lt.1 hunits, rfl⟩
      exact .inl (Option.some.inj h ▸
        ⟨UInt64.toNat_inj.1 (Nat.le_zero.1 hspends.count), hwithin.fuel⟩)
    · rename_i runtime hwrite
      obtain ⟨last, hreaches, hstep⟩ := exists_reaches_of_runFor h
      exact .inr ⟨_, last, ⟨hdepth, UInt64.not_lt.1 hunits, runtime, hwrite, rfl⟩, hreaches, hstep⟩

end Machine

/-- **The limits of every run**, for every function table, list of inputs and limits. In every state
fuel, live units and the depth of the calls are within their limits, the peak is the greatest number
of units that have been live, and what is reported keeps the limits too. In a run in which no callee
returns when the limit of instructions is reached, the count keeps its limit as well. -/
theorem limits_hold (execution : Execution) (inputs : ValidatedInputs) (maxCallDepth : Nat) :
    (∀ iterations outcome, runCore execution inputs maxCallDepth iterations = some outcome →
      (outcome.instructionCount = 0 ∧ outcome.fuelUsed ≤ execution.limits.maxFuel) ∨
        ∃ start last, Machine.Starts execution inputs maxCallDepth start ∧
          Machine.Reaches execution start last ∧ Machine.step execution last = .ended outcome) ∧
    (∀ start machine, Machine.Starts execution inputs maxCallDepth start →
      Machine.Reaches execution start machine →
      (machine.runtime.fuelUsed ≤ execution.limits.maxFuel ∧
        machine.runtime.liveValueUnits ≤ execution.limits.maxValueUnits ∧
        IsGreatest {units | ∃ earlier, Machine.Reaches execution start earlier ∧
          Machine.Reaches execution earlier machine ∧
          units = earlier.runtime.liveValueUnits.toNat} machine.runtime.peakValueUnits.toNat ∧
        machine.stack.length + 1 ≤ maxCallDepth) ∧
      ∀ outcome, Machine.step execution machine = .ended outcome →
        outcome.fuelUsed ≤ execution.limits.maxFuel ∧
          outcome.peakValueUnits ≤ execution.limits.maxValueUnits ∧
          machine.runtime.peakValueUnits ≤ outcome.peakValueUnits) ∧
    ∀ start machine, Machine.Starts execution inputs maxCallDepth start →
      Machine.ReachesBelow execution start machine →
      machine.runtime.instructionCount ≤ execution.limits.maxInstructions ∧
      ∀ outcome, ¬ machine.ReturnsAtCeiling execution.limits →
        Machine.step execution machine = .ended outcome →
          outcome.instructionCount ≤ execution.limits.maxInstructions := by
  refine ⟨fun _ _ ↦ Machine.exists_ended_of_runCore, fun start machine hstart hreaches ↦ ?_,
    fun start machine hstart hreaches ↦ ?_⟩
  · obtain ⟨hbounded, -⟩ := hreaches.bounded hstart.bounded.1
    have hpeak := hbounded.within.peak
    refine ⟨⟨hbounded.within.fuel, hbounded.within.units, ⟨⟨machine, hreaches, .refl, by rw [hpeak]⟩, ?_⟩,
      hbounded.stack⟩, fun outcome hstep ↦ ?_⟩
    · rintro units ⟨earlier, hearlier, hlater, rfl⟩
      rw [hpeak]
      exact (Machine.Reaches.bounded hlater (hearlier.bounded hstart.bounded.1).1).2
    · have hleads := Machine.leads_step hbounded
      rw [hstep] at hleads
      obtain ⟨runtime, huses, -, hfuel, hunits⟩ := hleads
      obtain ⟨hfuel', hunits', hpeak'⟩ := huses.charged.within hbounded.within
      rw [hfuel, hunits, hpeak, hpeak']
      exact ⟨hfuel', hunits', UInt64.le_iff_toNat_le.2 huses.charged.units⟩
  · have hcount : machine.runtime.instructionCount.toNat ≤ execution.limits.maxInstructions.toNat := by
      induction hreaches with
      | refl =>
        rw [hstart.bounded.2]
        exact Nat.zero_le _
      | @tail machine machine' hrun hstep ih =>
        have hleads := Machine.leads_step ((Machine.ReachesBelow.reaches hrun).bounded hstart.bounded.1).1
        rw [hstep.2] at hleads
        exact (hleads.1.count hstep.1).elim (fun hle ↦ hle.trans ih) id
    refine ⟨UInt64.le_iff_toNat_le.2 hcount, fun outcome hceiling hstep ↦ ?_⟩
    have hleads := Machine.leads_step (hreaches.reaches.bounded hstart.bounded.1).1
    rw [hstep] at hleads
    obtain ⟨runtime, huses, hreported, -⟩ := hleads
    rw [hreported]
    exact UInt64.le_iff_toNat_le.2 ((huses.count hceiling).elim (fun hle ↦ hle.trans hcount) id)

/-- **The count passes its limit by less than the calls may be deep**, whatever is executed. -/
theorem instructions_overrun_lt (execution : Execution) (inputs : ValidatedInputs)
    (maxCallDepth iterations : Nat) (outcome : CoreOutcome)
    (h : runCore execution inputs maxCallDepth iterations = some outcome) :
    outcome.instructionCount = 0 ∨ outcome.instructionCount.toNat <
      execution.limits.maxInstructions.toNat + maxCallDepth := by
  obtain ⟨hzero, -⟩ | ⟨start, last, hstart, hreaches, hstep⟩ := Machine.exists_ended_of_runCore h
  · exact .inl hzero
  · obtain ⟨hbounded, -⟩ := hreaches.bounded hstart.bounded.1
    have hleads := Machine.leads_step hbounded
    rw [hstep] at hleads
    obtain ⟨runtime, huses, hreported, -⟩ := hleads
    rw [hreported]
    have hcount := huses.charged.count
    have hbound := hbounded.count
    have hpos := hbounded.stack
    by_cases hceiling : last.ReturnsAtCeiling execution.limits
    · have hstack := List.length_pos_iff.2 hceiling.1
      exact .inr (by omega)
    · obtain hle | hle := huses.count hceiling
      · exact .inr (by omega)
      · exact .inr (by omega)

/-! ### Fixed runs -/

/-- A function that hands its parameter to another one and returns the answer. -/
def forwarding (name callee : UInt8) : BytecodeFunction :=
  ⟨⟨List.replicate 32 name, rfl⟩, [0], [.unit, .unit], .unit, 0,
    [⟨0, [], [⟨Opcode.callDirect.tag, [0], [1], .function ⟨⟨List.replicate 32 callee, rfl⟩, []⟩⟩],
      .ret 1, 0⟩]⟩

theorem zeroBytes_ne_nil : ([0] : List UInt8) ≠ [] := List.cons_ne_nil _ _

/-- Two nested calls, the inner one of a function that returns its parameter, where one instruction
may be executed. -/
def nestedCalls : Execution :=
  let lowered : LoweredFunction :=
    ⟨forwarding 0 1, [0],
      [forwarding 1 2, { forwarding 2 0 with blocks := [⟨0, [], [], .ret 0, 0⟩] }],
      zeroBytes_ne_nil⟩
  ⟨quietSource, lowered, ⟨1, 100, 100, 100, none⟩, lowered.livenesses, fun _ ↦ true⟩

def unitInput : ValidatedInputs :=
  ⟨[⟨.unit, .unit⟩], valueUnitsConst ⟨.unit, .unit⟩, by simp [Narrow, NarrowData],
    by with_unfolding_all decide⟩

/-- **Two instructions are counted where one may be executed.** -/
theorem instructions_overrun : ¬ ∀ outcome, runCore nestedCalls unitInput 3 10 = some outcome →
    outcome.instructionCount ≤ nestedCalls.limits.maxInstructions := by
  intro h
  have hcount : (runCore nestedCalls unitInput 3 10).map CoreOutcome.instructionCount = some 2 := by
    decide +kernel
  obtain ⟨outcome, houtcome, htwo⟩ := Option.map_eq_some_iff.1 hcount
  have hle := h outcome houtcome
  rw [htwo] at hle
  exact absurd hle (by decide)

end Sley.Vm
