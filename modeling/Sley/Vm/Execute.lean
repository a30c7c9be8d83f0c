import Sley.Vm.Image
import Sley.Vm.Owned

/-!
# The interpreter loop

`run` of `sley-vm/src/execute.rs`. A run has a stack of suspended frames and a current one; an
iteration executes one instruction or one terminator of the current frame, which may open a frame,
close one, or end the run. `Machine.step` is one iteration and `runFor` is the loop, cut off after a
number of iterations.

`live` says for each function what is dead where. The interpreter takes the tables that are computed
from the bytecode (`LoweredFunction.livenesses`); with tables in which nothing is dead the same loop
never moves an operand out of its register (`noLivenesses`). `unique` says whether a root that an
instruction asks about has one owner, for every amount of fuel used, of which an iteration takes at
least one.
-/

namespace Sley.Vm

open Ssmc Action
open Scb1 (Bytes)

/-- The result of lowering or loading that execution uses. Its bytes begin with a magic. -/
structure LoweredFunction where
  bytecode : BytecodeFunction
  bytes : Bytes
  /-- Transitively called functions. -/
  callees : List BytecodeFunction
  bytes_ne_nil : bytes ≠ []

/-- What an execution is given besides its inputs. -/
structure Execution where
  source : ExecutionSource
  lowered : LoweredFunction
  limits : ExecutionLimits
  /-- The liveness table: the entry function first, then the callees. -/
  live : Nat → FnLiveness
  unique : UInt64 → Bool

/-- The tables that a run computes at its start. -/
def LoweredFunction.livenesses (lowered : LoweredFunction) (func : Nat) : FnLiveness :=
  match (lowered.bytecode :: lowered.callees)[func]? with
  | some function => computeLiveness function.blocks
  | none => default

/-- Nothing is ever dead. -/
def noLivenesses (_ : Nat) : FnLiveness := default

/-- What the caller does with a returned value. -/
inductive ReturnShape
  | direct
  | contractAssertion

/-- The code the current frame executes. -/
structure Current where
  blocks : List BytecodeBlock
  resultType : TypeExpr
  registerTypes : List TypeExpr
  pc : Nat
  /-- Index into the liveness table. -/
  func : Nat

def BytecodeFunction.start (function : BytecodeFunction) (func : Nat) : Current :=
  ⟨function.blocks, function.resultType, function.registerTypes, 0, func⟩

/-- One suspended caller frame. -/
structure Suspended where
  runtime : Runtime
  current : Current
  resultRegister : Register
  shape : ReturnShape

/-- Copies the shared budgets and cells back from a finished callee frame. -/
def adoptFrame (runtime child : Runtime) : Runtime :=
  { runtime with
    toMeter := child.toMeter
    cells := child.cells
    peakCallDepth := child.peakCallDepth }

/-- Restores the entry frame's runtime after a termination inside a callee frame. -/
def unwind (runtime : Runtime) (stack : List Suspended) : Runtime :=
  stack.foldl (fun child parent ↦ adoptFrame parent.runtime child) runtime

/-! ### Calls -/

/-- The exact `contract_assert` result type. -/
def contractAssertType : TypeExpr := .result .unit (.builtinFailure .contractViolation)

/-- Wraps a predicate's answer in the contract result. -/
def contractAssertValue (held : Bool) : ConstValue :=
  ⟨contractAssertType, .result <|
    if held then .ok ⟨.unit, .unit⟩
    else .err ⟨.builtinFailure .contractViolation, .builtinFailure ⟨.contractViolation, 1⟩⟩⟩

/-- The callee with an identity and its place in the liveness table; the entry may be called too. -/
def LoweredFunction.findCallee (lowered : LoweredFunction) (function : EntityId) :
    Option (BytecodeFunction × Nat) :=
  match lowered.callees.findIdx? (·.function = function) with
  | some position => lowered.callees[position]?.map (·, position + 1)
  | none => if lowered.bytecode.function = function then some (lowered.bytecode, 0) else none

/-- Charges the operands to the callee frame and writes them to its parameters. -/
def bindParameters (limits : ExecutionLimits) (mask : UInt64) (k : Nat) (child : Runtime) :
    List (Register × Register) → Action Runtime
  | [] => return child
  | (register, parameter) :: rest => do
    let value ← operand register (isDead mask k)
    match chargeValue limits value.units child with
    | (.error _, child) => do
      Operation.modify (adoptFrame · child)
      stop (.resourceLimit .valueUnits)
    | (.ok _, child) =>
      match writeRegister parameter value child with
      | (.error _, _) => fault
      | (.ok _, child) => bindParameters limits mask (k + 1) child rest

/-- Whether the callee's result is what the instruction's register holds; a predicate answers `Bool`
where the register holds the contract result. -/
def declaredMatches (shape : ReturnShape) (calleeType resultType : TypeExpr) : Bool :=
  match shape with
  | .direct => calleeType = resultType
  | .contractAssertion => calleeType = .bool && resultType = contractAssertType

/-- The frame that a call opens. -/
structure Frame where
  child : Runtime
  callee : BytecodeFunction
  func : Nat
  resultRegister : Register
  shape : ReturnShape

/-- The single result register. -/
def resultOf (instruction : Instruction) : Option Register :=
  match instruction.results with
  | [register] => some register
  | _ => none

/-- Two operands. -/
def pairOf (operands : List Register) : Option (Register × Register) :=
  match operands with
  | [first, second] => some (first, second)
  | _ => none

/-- `prepare_frame`; `frames` counts the live frames with the running one. -/
def prepareFrame (execution : Execution) (instruction : Instruction) (registerTypes : List TypeExpr)
    (frames : Nat) (function : EntityId) (shape : ReturnShape) (mask : UInt64) : Action Frame := do
  let runtime ← get
  rejectIf (frames + 1 > runtime.maxCallDepth) (.terminated (.resourceLimit .callDepth))
  chargeAction execution.limits false
  let (callee, func) ← orFault (execution.lowered.findCallee function)
  let resultRegister ← orFault (resultOf instruction)
  let resultType ← orFault registerTypes[resultRegister.toNat]?
  rejectIf (declaredMatches shape callee.resultType resultType = false ∨
    instruction.operands.length ≠ callee.parameterRegisters.length) .fault
  let runtime ← get
  -- the cells travel with the callee frame until it is adopted
  setCells []
  let child := { runtime with
    registers := List.replicate callee.registerTypes.length none
    block := callee.entryBlock.toNat
    peakCallDepth := max runtime.peakCallDepth (frames + 1)
    returned := none }
  let child ← bindParameters execution.limits mask 0 child
    (instruction.operands.zip callee.parameterRegisters)
  return ⟨child, callee, func, resultRegister, shape⟩

def prepareCall (execution : Execution) (instruction : Instruction) (registerTypes : List TypeExpr)
    (frames : Nat) (mask : UInt64) : Action Frame := do
  let reference ← orFault (functionOf instruction.immediate)
  prepareFrame execution instruction registerTypes frames reference.function .direct mask

def prepareContractAssert (execution : Execution) (instruction : Instruction)
    (registerTypes : List TypeExpr) (frames : Nat) (mask : UInt64) : Action Frame := do
  let contract ← orFault (entityOf instruction.immediate)
  let definition ← orFault (execution.source.contracts.find? (·.entityId = contract))
  prepareFrame execution instruction registerTypes frames definition.predicate .contractAssertion
    mask

/-- The value that the caller writes for a returned one. -/
def ReturnShape.resultValue (shape : ReturnShape) (returned : RuntimeValue) : Option RuntimeValue :=
  match shape with
  | .direct => some returned
  | .contractAssertion => do
    let ⟨_, .bool held⟩ ← returned.value | none
    return .new (contractAssertValue held)

/-- Closes a callee frame, in the runtime of the caller that has adopted it. -/
def returnToCaller (limits : ExecutionLimits) (parent : Suspended) (returned : Option RuntimeValue) :
    Action Unit := do
  let value ← orFault (returned.bind parent.shape.resultValue)
  chargeValue limits value.units
  countInstruction
  writeRegister parent.resultRegister value

/-! ### Instructions -/

/-- Maximum live cells of one execution. -/
def maxExecutionCells : Nat := 1048576

/-- `SLY1/BRIDGE/PSH1`, the first half of every vector-push identity. -/
def pushPrefix : Bytes :=
  [0x53, 0x4c, 0x59, 0x31, 0x2f, 0x42, 0x52, 0x49, 0x44, 0x47, 0x45, 0x2f, 0x50, 0x53, 0x48, 0x31]

/-- Whether an identity is a vector push: the prefix, a row discriminator, then zeros. -/
def isPushIdentity (id : EntityId) : Bool :=
  id.bytes.take 16 = pushPrefix && (id.bytes.drop 20).all (· = 0)

/-- Fuel of each element that a bridge converts. -/
def bridgeElementFuel : UInt64 := 1

/-- `execute_vector_push_owned`. -/
def executeVectorPushOwned (source : ExecutionSource) (immediate : Immediate)
    (scope request : ConstValue) (resultType : TypeExpr) : Option ConstValue := do
  let entry ← entityOf immediate
  if ¬ isPushIdentity entry then none
  let carried ← source.pushUse entry scope.valueType request.valueType
  let (ok, error) ← resultTypesOf resultType
  if ok ≠ carried.responseType ∨ error ≠ carried.failureType ∨
      scope.valueType ≠ carried.responseType ∨ request.valueType ≠ carried.requestType then none
  let items ← itemsOf scope
  if items.length ≥ bridgeMaxItems then return failureValue resultType error .index 2
  return ⟨resultType, .result (.ok ⟨ok, .sequence (items ++ [request])⟩)⟩

/-- The end of an instruction: the type of its result is checked, `stored` and its own units are
charged, and it is written. -/
def finishInstruction (limits : ExecutionLimits) (register : Register) (resultType : TypeExpr)
    (value : RuntimeValue) (stored : UInt64) : Action Unit := do
  let shown ← orFault value.value
  rejectIf (shown.valueType ≠ resultType) .fault
  let runtime ← get
  rejectIf (runtime.cells.length ≥ maxExecutionCells) (.terminated (.resourceLimit .valueUnits))
  chargeValue limits (value.units.saturatingAdd stored)
  countInstruction
  writeRegister register value

/-- The units of a vector that has been pushed to, from those of the two operands. -/
def pushUnits (resultType : TypeExpr) (value : ConstValue) (scopeUnits requestUnits : UInt64) :
    Option UInt64 :=
  match value.data with
  | .result (.ok _) =>
    some (((UInt64.saturatingAdd 4 (valueUnitsType resultType)).saturatingAdd
      scopeUnits).saturatingAdd requestUnits)
  | _ => none

/-- The vector push, which owns its operands. -/
def pushOwned (execution : Execution) (instruction : Instruction) (mask : UInt64)
    (resultType : TypeExpr) : Action RuntimeValue := do
  let (scopeRegister, requestRegister) ← orFault (pairOf instruction.operands)
  chargeBridgeActions execution.limits bridgeElementFuel.toNat
  let request ← operand requestRegister (isDead mask 1)
  let requestValue ← orFault request.value
  let scope ← operand scopeRegister (isDead mask 0)
  let scopeValue ← orFault scope.value
  let value ← orFault (executeVectorPushOwned execution.source instruction.immediate scopeValue
    requestValue resultType)
  return .withUnits value <|
    (pushUnits resultType value scope.units request.units).getD (valueUnitsConst value)

/-- The values of some registers. -/
def readValues : List Register → Action (List ConstValue)
  | [] => return []
  | register :: registers => do
    let value ← orFault (← readRegister register).value
    let values ← readValues registers
    return value :: values

/-- What an instruction leaves in a cell besides its result. -/
def storedUnits (opcode : Opcode) (operands : List ConstValue) : UInt64 :=
  match opcode with
  | .cellNew | .cellSet => (operands.getLast?.map valueUnitsConst).getD 0
  | _ => 0

/-- The reference path: the operands are read, a bridge is paid for before it works, and the arm of
the instruction computes the result; what a cell stores is charged besides. -/
def executeReference (execution : Execution) (opcode : Opcode) (instruction : Instruction)
    (resultType : TypeExpr) : Action (RuntimeValue × UInt64) := do
  let operands ← readValues instruction.operands
  let elements := if opcode = .adapterInvoke then
    execution.source.bridgeElements instruction.immediate operands else none
  chargeBridgeActions execution.limits ((elements.getD 0).saturatingMul bridgeElementFuel).toNat
  let runtime ← get
  let (value, cells) ← orFault (executeBorrowed execution.source opcode instruction.immediate
    operands resultType runtime.cells)
  setCells cells
  return (.new value, storedUnits opcode operands)

def isPush (opcode : Opcode) (immediate : Immediate) : Bool :=
  match immediate with
  | .entity entry => opcode = .adapterInvoke && isPushIdentity entry
  | _ => false

/-- The result of an instruction, and the units of what it stores in a cell. -/
def produce (execution : Execution) (opcode : Opcode) (instruction : Instruction) (mask : UInt64)
    (resultType : TypeExpr) : Action (RuntimeValue × UInt64) := do
  if isPush opcode instruction.immediate then
    let value ← pushOwned execution instruction mask resultType
    return (value, 0)
  else do
    let runtime ← get
    let produced ← Owned.execute (execution.unique runtime.fuelUsed) execution.source opcode
      instruction mask resultType
    match produced with
    | some value => return (value, 0)
    | none => executeReference execution opcode instruction resultType

def executeExtended (execution : Execution) (instruction : Instruction) (mask : UInt64)
    (registerTypes : List TypeExpr) : Action Unit := do
  let opcode ← orFault (Opcode.fromTag instruction.opcode.toNat)
  let register ← orFault (resultOf instruction)
  let resultType ← orFault registerTypes[register.toNat]?
  let (value, stored) ← produce execution opcode instruction mask resultType
  finishInstruction execution.limits register resultType value stored

/-- The restricted profile has the three Boolean instructions. -/
def restrictedValue (opcode : UInt32) (operands : List Bool) : Option Bool :=
  match opcode.toNat, operands with
  | 102, [value] => some !value
  | 103, [left, right] => some (left && right)
  | 104, [left, right] => some (left || right)
  | _, _ => none

def boolOf (value : ConstValue) : Option Bool :=
  match value.data with
  | .bool held => some held
  | _ => none

def executeRestricted (limits : ExecutionLimits) (instruction : Instruction) : Action Unit := do
  let operands ← orFault ((← readValues instruction.operands).mapM boolOf)
  let register ← orFault (resultOf instruction)
  chargeValue limits (valueUnitsConst (boolValue false))
  let value ← orFault (restrictedValue instruction.opcode operands)
  countInstruction
  writeRegister register (.new (boolValue value))

/-! ### Terminators -/

/-- Writes the parameters of the target and goes there. -/
def bindValues (blocks : List BytecodeBlock) (target : BlockSlot) (values : List RuntimeValue) :
    Action Unit := do
  let block ← orFault blocks[target.toNat]?
  rejectIf (block.parameterRegisters.length ≠ values.length) .fault
  (block.parameterRegisters.zip values).forM fun (register, value) ↦ writeRegister register value
  goTo target.toNat

/-- The arguments of an edge; one that the terminator reads for the last time moves at its last
occurrence. -/
def edgeArguments (limits : ExecutionLimits) (dead : Register → Bool) :
    List Register → Action (List RuntimeValue)
  | [] => return []
  | register :: registers => do
    chargeAction limits false
    let value ← operand register (register ∉ registers && dead register)
    let values ← edgeArguments limits dead registers
    return value :: values

def bindEdge (limits : ExecutionLimits) (blocks : List BytecodeBlock) (edge : BytecodeTargetEdge)
    (dead : Register → Bool) : Action Unit := do
  let values ← edgeArguments limits dead edge.arguments
  bindValues blocks edge.target values

/-- The arguments of a switch edge, with the payload of the selected case. -/
def switchArguments (limits : ExecutionLimits) (dead : Register → Bool)
    (payload : Option RuntimeValue) : List BytecodeSwitchArgument → Action (List RuntimeValue)
  | [] => return []
  | .value register :: arguments => do
    chargeAction limits false
    let value ← operand register
      (register ∉ BytecodeTerminator.switchReads arguments && dead register)
    let values ← switchArguments limits dead payload arguments
    return value :: values
  | .casePayload :: arguments => do
    chargeAction limits false
    chargeAction limits false
    -- the payload stays for a later argument and is taken by the last one
    let some value := payload | stop .internalInvariant
    let values ← switchArguments limits dead payload arguments
    return value :: values

def bindSwitchEdge (limits : ExecutionLimits) (blocks : List BytecodeBlock)
    (edge : BytecodeSwitchEdge) (payload : Option RuntimeValue) (dead : Register → Bool) :
    Action Unit := do
  let values ← switchArguments limits dead payload edge.arguments
  bindValues blocks edge.target values

/-- The case of a value, and a view of its payload. -/
def selectedCase (value : RuntimeValue) : Option (CaseKey × Option RuntimeValue) := do
  match (← value.value).data with
  | .variant ⟨_, memberId, none⟩ => return (.member memberId, none)
  | .variant ⟨_, memberId, some _⟩ => return (.member memberId, some (← value.payloadView))
  | .option none => return (.builtin .none, none)
  | .option (some _) => return (.builtin .some, some (← value.payloadView))
  | .result (.ok _) => return (.builtin .ok, some (← value.payloadView))
  | .result (.err _) => return (.builtin .err, some (← value.payloadView))
  | _ => none

/-- The cases in their order, each of which is charged, up to the selected one. -/
def selectCase (limits : ExecutionLimits) (blocks : List BytecodeBlock) (key : CaseKey)
    (payload : Option RuntimeValue) (dead : Register → Bool) :
    List BytecodeSwitchCase → Action Unit
  | [] => stop .internalInvariant
  | switchCase :: cases => do
    chargeAction limits false
    if switchCase.caseKey = key then bindSwitchEdge limits blocks switchCase.edge payload dead
    else selectCase limits blocks key payload dead cases

/-- Where a terminator leads. -/
inductive Flow
  | jumped
  | returned

/-- `Return`: the frame ends here, so every register is dead. -/
def returnValue (limits : ExecutionLimits) (resultType : TypeExpr) (register : Register) :
    Action Unit := do
  let value ← takeRegister register
  let shown ← orFault value.value
  rejectIf (shown.valueType ≠ resultType) (.terminated .internalInvariant)
  rejectIf (value.units > limits.maxOutputUnits) (.terminated (.resourceLimit .outputUnits))
  setReturned value

/-- `VariantSwitch`: a value that no case passes on moves out of its register. -/
def switchTo (limits : ExecutionLimits) (blocks : List BytecodeBlock) (value : Register)
    (cases : List BytecodeSwitchCase) (dead : Register → Bool) : Action Unit := do
  let carriedAsArgument :=
    cases.any fun switchCase ↦ value ∈ BytecodeTerminator.switchReads switchCase.edge.arguments
  let selected ← operand value (!carriedAsArgument && dead value)
  let (key, payload) ← orFault (selectedCase selected)
  selectCase limits blocks key payload dead cases

def trap (limits : ExecutionLimits) (code : UInt32) (payload : Option Register) : Action Unit := do
  let values ← readValues payload.toList
  rejectIf (values.head?.any (valueUnitsConst · > limits.maxOutputUnits))
    (.terminated (.resourceLimit .outputUnits))
  stop (.trap code values.head?)

def dispatchTerminator (limits : ExecutionLimits) (current : Current) (live : FnLiveness)
    (terminator : BytecodeTerminator) : Action Flow := do
  chargeAction limits false
  let runtime ← get
  let dead := live.deadAfterTerminator runtime.block
  match terminator with
  | .ret register => do
    returnValue limits current.resultType register
    return .returned
  | .branch edge => do
    bindEdge limits current.blocks edge dead
    return .jumped
  | .condBranch condition ifTrue ifFalse => do
    let value ← orFault (← readRegister condition).value
    let some held := boolOf value | stop .internalInvariant
    bindEdge limits current.blocks (if held then ifTrue else ifFalse) dead
    return .jumped
  | .variantSwitch value cases => do
    switchTo limits current.blocks value cases dead
    return .jumped
  | .trap code payload => do
    trap limits code payload
    return .jumped

/-! ### The loop -/

/-- Where a run stands between two iterations. -/
structure Machine where
  runtime : Runtime
  /-- The suspended frames, the innermost first. -/
  stack : List Suspended
  current : Current

/-- The result of the shared runner. -/
structure CoreOutcome where
  termination : ExecutionTermination
  instructionCount : UInt64
  fuelUsed : UInt64
  peakValueUnits : UInt64
  peakCallDepth : Nat

def CoreOutcome.of (termination : ExecutionTermination) (runtime : Runtime) : CoreOutcome :=
  ⟨termination, runtime.instructionCount, runtime.fuelUsed, runtime.peakValueUnits,
    runtime.peakCallDepth⟩

/-- What an iteration leads to. -/
inductive Progress
  | running (machine : Machine)
  | ended (outcome : CoreOutcome)

/-- The end of a run: a fault is reported where it happens, a termination in the entry frame. -/
def Progress.stopped (stack : List Suspended) (runtime : Runtime) : Stop → Progress
  | .fault => ended (.of .internalInvariant runtime)
  | .terminated termination => ended (.of termination (unwind runtime stack))

/-- What an instruction does next. -/
inductive Next
  | executed
  | enter (frame : Frame)

/-- The frame that runs next. -/
def Next.runtime (runtime : Runtime) : Next → Runtime
  | executed => runtime
  | enter frame => frame.child

def executeInstruction (execution : Execution) (current : Current) (frames : Nat)
    (instruction : Instruction) : Action Next := do
  chargeAction execution.limits true
  if execution.source.extended then
    let runtime ← get
    let mask := (execution.live current.func).mask runtime.block current.pc
    if instruction.opcode = Opcode.callDirect.tag then
      return .enter (← prepareCall execution instruction current.registerTypes frames mask)
    else if instruction.opcode = Opcode.contractAssert.tag then
      return .enter (← prepareContractAssert execution instruction current.registerTypes frames mask)
    else do
      executeExtended execution instruction mask current.registerTypes
      return .executed
  else do
    executeRestricted execution.limits instruction
    return .executed

namespace Machine

/-- The current frame has returned. -/
def finishFrame (limits : ExecutionLimits) (runtime : Runtime) : List Suspended → Progress
  | [] =>
    match runtime.returned.bind RuntimeValue.value with
    | some value => .ended (.of (.success value) runtime)
    | none => .ended (.of .internalInvariant runtime)
  | parent :: stack =>
    match returnToCaller limits parent runtime.returned (adoptFrame parent.runtime runtime) with
    | (.error reason, runtime) => .stopped stack runtime reason
    | (.ok _, runtime) => .running ⟨runtime, stack, parent.current⟩

/-- One iteration of the loop. -/
def step (execution : Execution) (machine : Machine) : Progress :=
  let ⟨runtime, stack, current⟩ := machine
  match current.blocks[runtime.block]? with
  | none => .stopped stack runtime .fault
  | some block =>
    match block.instructions[current.pc]? with
    | some instruction =>
      let next := { current with pc := current.pc + 1 }
      match executeInstruction execution current (stack.length + 1) instruction runtime with
      | (.error reason, runtime) => .stopped stack runtime reason
      | (.ok .executed, runtime) => .running ⟨runtime, stack, next⟩
      | (.ok (.enter frame), runtime) => .running
        ⟨frame.child, ⟨runtime, next, frame.resultRegister, frame.shape⟩ :: stack,
          frame.callee.start frame.func⟩
    | none =>
      match dispatchTerminator execution.limits current (execution.live current.func)
          block.terminator runtime with
      | (.error reason, runtime) => .stopped stack runtime reason
      | (.ok .jumped, runtime) => .running ⟨runtime, stack, { current with pc := 0 }⟩
      | (.ok .returned, runtime) => finishFrame execution.limits runtime stack

/-- The loop, cut off after a number of iterations. -/
def runFor (execution : Execution) : Nat → Machine → Option CoreOutcome
  | 0, _ => none
  | iterations + 1, machine =>
    match step execution machine with
    | .ended outcome => some outcome
    | .running machine => runFor execution iterations machine

end Machine

/-! ### A whole run -/

def maxExecutionInputValueUnits : UInt64 := 67108864

def addInputUnits (current amount : UInt64) : Option UInt64 :=
  (current.checkedAdd amount).filter (· ≤ maxExecutionInputValueUnits)

/-- Inputs that have been checked, and whose units have been counted, before the run. -/
structure ValidatedInputs where
  inputs : List ConstValue
  valueUnits : UInt64
  narrow : ∀ v ∈ inputs, Narrow v
  counted : inputs.foldlM (fun sum value ↦ addInputUnits sum (valueUnitsConst value)) 0 =
    some valueUnits

def writeInputs : List Register → List ConstValue → Action Unit
  | _, [] => return ()
  | [], _ :: _ => fault
  | register :: registers, value :: values => do
    writeRegister register (.new value)
    writeInputs registers values

def initialValueUnits (types : List TypeExpr) (bytes : Bytes) (inputUnits : UInt64) : UInt64 :=
  (inputUnits.saturatingAdd (.saturate types.length)).saturatingAdd (.saturate bytes.length)

/-- The runtime of the entry frame. -/
def LoweredFunction.initial (lowered : LoweredFunction) (inputUnits : UInt64) (maxCallDepth : Nat) :
    Runtime where
  instructionCount := 0
  fuelUsed := 0
  liveValueUnits := initialValueUnits lowered.bytecode.registerTypes lowered.bytes inputUnits
  peakValueUnits := initialValueUnits lowered.bytecode.registerTypes lowered.bytes inputUnits
  registers := List.replicate lowered.bytecode.registerTypes.length none
  block := lowered.bytecode.entryBlock.toNat
  cells := []
  maxCallDepth := maxCallDepth
  peakCallDepth := 1
  returned := none

/-- `run_core`, its loop cut off after a number of iterations. -/
def runCore (execution : Execution) (inputs : ValidatedInputs) (maxCallDepth iterations : Nat) :
    Option CoreOutcome :=
  let lowered := execution.lowered
  if maxCallDepth = 0 then some ⟨.resourceLimit .callDepth, 0, 0, 0, 0⟩
  else
    let runtime := lowered.initial inputs.valueUnits maxCallDepth
    if runtime.peakValueUnits > execution.limits.maxValueUnits then
      some (.of (.resourceLimit .valueUnits) runtime)
    else
      match writeInputs lowered.bytecode.parameterRegisters inputs.inputs runtime with
      | (.error _, runtime) => some (.of .internalInvariant runtime)
      | (.ok _, runtime) =>
        Machine.runFor execution iterations ⟨runtime, [], lowered.bytecode.start 0⟩

end Sley.Vm
