import Sley.Lib.Saturating
import Sley.Ssmc.Definitions

/-!
# Limits, terminations and charges

What an execution may use and how it can end (`sley-vm/src/execute.rs`). Every action of the
interpreter is charged before it is performed: `Meter.chargeAction` takes one unit of fuel or says
why the run ends here, and `Meter.chargeValue` counts the semantic units of a value that is written.
**No charge is free**: what `chargeAction` lets pass has used strictly less fuel than the limit
before, and one unit more after (`Meter.fuelUsed_of_chargeAction`).
-/

namespace Sley.Vm

open Ssmc

structure ExecutionLimits where
  maxInstructions : UInt64
  maxFuel : UInt64
  maxValueUnits : UInt64
  maxOutputUnits : UInt64
  /-- Optional deterministic cancellation fuel point. -/
  cancelAtFuel : Option UInt64

inductive ResourceKind
  | instruction
  | fuel
  | valueUnits
  | outputUnits
  | callDepth
  deriving DecidableEq, Repr

/-- How an execution ends. -/
inductive ExecutionTermination
  | success (value : ConstValue)
  | resourceLimit (kind : ResourceKind)
  | cancelled
  | trap (trapTag : UInt32) (payload : Option ConstValue)
  | internalInvariant

/-- The counters of a run, which all of its frames share. -/
structure Meter where
  instructionCount : UInt64
  fuelUsed : UInt64
  liveValueUnits : UInt64
  peakValueUnits : UInt64
  deriving DecidableEq, Repr

namespace Meter

variable {limits : ExecutionLimits} {meter meter' : Meter} {instruction : Bool} {amount : UInt64}

/-- `charge_action`; `instruction` is set when the action is an instruction. -/
def chargeAction (limits : ExecutionLimits) (instruction : Bool) (meter : Meter) :
    Except ExecutionTermination Meter :=
  if limits.cancelAtFuel.any (· ≤ meter.fuelUsed) then .error .cancelled
  else if instruction ∧ meter.instructionCount ≥ limits.maxInstructions then
    .error (.resourceLimit .instruction)
  else if meter.fuelUsed ≥ limits.maxFuel then .error (.resourceLimit .fuel)
  else .ok { meter with fuelUsed := meter.fuelUsed.saturatingAdd 1 }

/-- `charge_value`: the meter with the value, unless the units would pass the limit. -/
def chargeValue (limits : ExecutionLimits) (amount : UInt64) (meter : Meter) : Option Meter :=
  match meter.liveValueUnits.checkedAdd amount with
  | none => none
  | some next =>
    if next > limits.maxValueUnits then none
    else some { meter with
      liveValueUnits := next
      peakValueUnits := max meter.peakValueUnits next }

/-- The instruction has been performed. -/
def countInstruction (meter : Meter) : Meter :=
  { meter with instructionCount := meter.instructionCount.saturatingAdd 1 }

theorem chargeAction_eq_ok : chargeAction limits instruction meter = .ok meter' ↔
    limits.cancelAtFuel.any (· ≤ meter.fuelUsed) = false ∧
      (instruction → meter.instructionCount < limits.maxInstructions) ∧
      meter.fuelUsed < limits.maxFuel ∧
      meter' = { meter with fuelUsed := meter.fuelUsed.saturatingAdd 1 } := by
  rw [chargeAction]
  split_ifs with hcancel hinstruction hfuel
  · simp [hcancel]
  · simp only [false_iff]
    rintro ⟨-, hcount, -⟩
    exact UInt64.not_lt.2 hinstruction.2 (hcount hinstruction.1)
  · simp only [false_iff]
    rintro ⟨-, -, hlt, -⟩
    exact UInt64.not_lt.2 hfuel hlt
  · rw [Except.ok.injEq, eq_comm]
    refine ⟨fun h ↦ ⟨by simpa using hcancel, fun hi ↦ UInt64.not_le.1 fun hle ↦ hinstruction ⟨hi, hle⟩,
      UInt64.not_le.1 hfuel, h⟩, fun h ↦ h.2.2.2⟩

/-- **No charge is free, and none takes the fuel past its limit.** -/
theorem fuelUsed_of_chargeAction (h : chargeAction limits instruction meter = .ok meter') :
    meter.fuelUsed < limits.maxFuel ∧ meter'.fuelUsed.toNat = meter.fuelUsed.toNat + 1 := by
  obtain ⟨-, -, hlt, rfl⟩ := chargeAction_eq_ok.1 h
  refine ⟨hlt, UInt64.saturatingAdd_of_lt ?_⟩
  have hmax := limits.maxFuel.toNat_lt
  rw [UInt64.lt_iff_toNat_lt] at hlt
  show meter.fuelUsed.toNat + 1 < 2 ^ 64
  omega

theorem chargeValue_eq_some : chargeValue limits amount meter = some meter' ↔
    ∃ next : UInt64, next.toNat = meter.liveValueUnits.toNat + amount.toNat ∧
      next ≤ limits.maxValueUnits ∧
      meter' = { meter with
        liveValueUnits := next
        peakValueUnits := max meter.peakValueUnits next } := by
  rw [chargeValue]
  cases hadd : meter.liveValueUnits.checkedAdd amount with
  | none =>
    simp only [reduceCtorEq, false_iff]
    rintro ⟨next, hnext, -⟩
    rw [UInt64.checkedAdd_eq_some.2 hnext] at hadd
    cases hadd
  | some next =>
    have hnext := UInt64.checkedAdd_eq_some.1 hadd
    simp only
    split_ifs with hlimit
    · simp only [false_iff]
      rintro ⟨other, hother, hle, -⟩
      rw [UInt64.toNat_inj.1 (hother.trans hnext.symm)] at hle
      exact UInt64.not_le.2 hlimit hle
    · rw [Option.some.injEq, eq_comm]
      refine ⟨fun h ↦ ⟨next, hnext, UInt64.not_lt.1 hlimit, h⟩, ?_⟩
      rintro ⟨other, hother, -, rfl⟩
      rw [UInt64.toNat_inj.1 (hother.trans hnext.symm)]

end Meter

end Sley.Vm
