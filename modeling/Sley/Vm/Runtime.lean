import Sley.Lib.Relational
import Sley.Vm.Borrowed
import Sley.Vm.Liveness
import Sley.Vm.Meter
import Sley.Vm.RuntimeValue

/-!
# The state of a frame

A frame of the interpreter (`Runtime` of `sley-vm/src/execute.rs`) has its registers, its block and
the counters and cells that it shares with the frames below it. What the interpreter does to it is
an `Action`: it goes on with a result, or the run stops, by a fault of the machine or with a
termination, and the counters are reported as they stand there. **The fuel never goes down**, and an
action that charges moves it up (`Runtime.Spends`).
-/

namespace Sley.Vm

open Ssmc
open Operation (modify ofExcept ofState)

structure Runtime extends Meter where
  registers : List (Option RuntimeValue)
  block : Nat
  cells : Cells
  maxCallDepth : Nat
  peakCallDepth : Nat
  /-- The value the last `Return` produced. -/
  returned : Option RuntimeValue

/-- Why a run stops. -/
inductive Stop
  /-- `RuntimeFault`. -/
  | fault
  | terminated (termination : ExecutionTermination)

abbrev Action := Operation Runtime Stop

namespace Action

def orFault {α : Type} (value : Option α) : Action α :=
  ofExcept (Except.ofOption .fault value)

def stop {α : Type} (termination : ExecutionTermination) : Action α :=
  ofExcept (.error (.terminated termination))

def fault {α : Type} : Action α := ofExcept (.error .fault)

/-- Stop when a condition holds. -/
def rejectIf (c : Prop) [Decidable c] (reason : Stop) : Action Unit :=
  ofExcept (Except.rejectIf c reason)

/-- What the frame looks like now. -/
def get : Action Runtime := ofState .ok

def chargeAction (limits : ExecutionLimits) (instruction : Bool) : Action Unit := fun runtime ↦
  match runtime.toMeter.chargeAction limits instruction with
  | .error termination => (.error (.terminated termination), runtime)
  | .ok meter => (.ok (), { runtime with toMeter := meter })

/-- Charge the units of a value, or stop at the ceiling of value units. -/
def chargeValue (limits : ExecutionLimits) (amount : UInt64) : Action Unit := fun runtime ↦
  match runtime.toMeter.chargeValue limits amount with
  | none => (.error (.terminated (.resourceLimit .valueUnits)), runtime)
  | some meter => (.ok (), { runtime with toMeter := meter })

def countInstruction : Action Unit :=
  modify fun runtime ↦ { runtime with toMeter := runtime.toMeter.countInstruction }

def setCells (cells : Cells) : Action Unit :=
  modify fun runtime ↦ { runtime with cells := cells }

def goTo (block : Nat) : Action Unit := modify fun runtime ↦ { runtime with block := block }

def setReturned (value : RuntimeValue) : Action Unit :=
  modify fun runtime ↦ { runtime with returned := some value }

/-- A number of actions, one after the other. -/
def chargeBridgeActions (limits : ExecutionLimits) : Nat → Action Unit
  | 0 => pure ()
  | fuel + 1 => do
    chargeAction limits false
    chargeBridgeActions limits fuel

def readRegister (register : Register) : Action RuntimeValue :=
  ofState fun runtime ↦ Except.ofOption .fault runtime.registers[register.toNat]?.join

def takeRegister (register : Register) : Action RuntimeValue := fun runtime ↦
  match runtime.registers[register.toNat]?.join with
  | none => (.error .fault, runtime)
  | some value => (.ok value, { runtime with registers := runtime.registers.set register.toNat none })

def writeRegister (register : Register) (value : RuntimeValue) : Action Unit := fun runtime ↦
  if register.toNat < runtime.registers.length then
    (.ok (), { runtime with registers := runtime.registers.set register.toNat (some value) })
  else (.error .fault, runtime)

/-- The value of a register, moved out when it is dead. -/
def operand (register : Register) (dead : Bool) : Action RuntimeValue :=
  if dead then takeRegister register else readRegister register

end Action

end Sley.Vm
