import Sley.Check.Graphs
import Sley.Check.Substitution
import Sley.Vm.Image
import Sley.Vm.OperationJudgment

/-!
# Lowering

`sley-vm/src/lower.rs`: `lower_function` validates the graph of a function, judges its operations,
writes it down as register code with the functions that it calls, and encodes the whole;
`judge_function_operations` only judges. Registers are dense, in the order in which the values of a
function are declared, and every step is charged to one budget.

What the judgment of a function may look up is the inventory of the whole program (`root`), while
the blocks, parameters and operations that it walks are those of the function alone (`input`).
-/

namespace Sley.Vm.Lower

open Ssmc hiding TypeEnvironment
open TypeCheck (TypeEnvironment TypeErrorCode)
open Check (CfgValidationError CfgReport validateFunctionGraph)
open Scb1 (Bytes)
open BigEndian (bytes)

def maxRegisters : Nat := 1000000

def maxLoweredBlocks : Nat := 4096

def maxInstructions : Nat := 1000000

def maxInstructionValues : Nat := 65535

def maxLoweringWork : Nat := 100000000

/-! ### Requests and results -/

/-- Integrated earlier or lowering failure. -/
inductive LoweringError
  | cfg (error : CfgValidationError TypeErrorCode)
  | lower (code : LowerErrorCode)
  deriving DecidableEq

structure CacheProfile where
  vmVersion : UInt32 × UInt32 × UInt32
  loweringProfile : UInt32
  lowererVersion : UInt32 × UInt32 × UInt32
  entryTypeArguments : UInt64
  adapterAbiEntries : UInt64
  executionAbiFlags : UInt64
  deriving DecidableEq

def CacheProfile.restrictedV1 : CacheProfile := ⟨(1, 0, 0), 1, (1, 0, 0), 0, 0, 0⟩

def CacheProfile.extendedV1 : CacheProfile := ⟨(1, 0, 0), 2, (2, 0, 0), 0, 0, 0⟩

def CacheProfile.isExtended (profile : CacheProfile) : Bool := profile = .extendedV1

/-- Complete integrated lowering request. -/
structure LoweringInput where
  types : TypeEnvironment
  function : FunctionGraph
  parameters : List Parameter
  blocks : List Block
  operations : List Operation
  schemaEpoch : SchemaEpochId
  stateRoot : StateRoot
  profile : CacheProfile
  constants : List ConstantDefinition
  globals : List GlobalValueDefinition
  functions : List FunctionGraph
  contracts : List ContractDefinition
  adapters : List AdapterImport

/-- Successful derived lowering output. -/
structure LoweredFunction where
  bytecode : BytecodeFunction
  bytes : Bytes
  cacheKey : Digest
  loweringWork : Nat
  callees : List BytecodeFunction

/-- The result of judging one function's operations. -/
structure OperationJudgment where
  operations : Nat
  work : Nat
  deriving DecidableEq

/-- A computation that charges the lowering budget. -/
abbrev Lowering := StateT Nat (Except LoweringError)

/-- The question mark on a lowering failure. -/
def lowered {α : Type} (x : Judged α) : Except LoweringError α := x.mapError .lower

def rejectIf (c : Prop) [Decidable c] (code : LowerErrorCode) : Except LoweringError Unit :=
  Except.rejectIf c (.lower code)

/-- An entry of the function's own that has to be there. -/
def localEntry {α : Type} (entry : Option α) : Lowering α :=
  StateT.ofExcept (Except.ofOption (.lower .localReferenceInvalid) entry)

/-- A sum that overflowed would be over the limit too. -/
def charge (amount : Nat) : Lowering Unit := do
  let work ← get
  StateT.ofExcept (rejectIf (work + amount > maxLoweringWork) .resourceLimit)
  set (work + amount)

/-! ### The inventory of a function -/

/-- `owned_inventory`: the inventories narrowed to what a function owns. -/
def LoweringInput.narrow (input : LoweringInput) (graph : FunctionGraph) : LoweringInput :=
  let blocks := input.blocks.filter (·.function = graph.entityId)
  let blockIds := EntitySet.ofIds (blocks.map (·.entityId))
  { input with
    function := graph
    blocks
    parameters := input.parameters.filter fun parameter ↦
      parameter.owner = graph.entityId ∨ parameter.owner ∈ blockIds
    operations := input.operations.filter (·.block ∈ blockIds) }

/-- The inventory that the lowering of a request walks. -/
def LoweringInput.own (root : LoweringInput) : LoweringInput :=
  if root.profile.isExtended then root.narrow root.function else root

def preflightResources (input : LoweringInput) : Except LoweringError Nat := do
  rejectIf (input.blocks.length > maxLoweredBlocks ∨ input.operations.length > maxInstructions)
    .resourceLimit
  input.operations.forM fun operation ↦
    rejectIf (operation.operands.length > maxInstructionValues ∨
      operation.resultTypes.length > maxInstructionValues) .resourceLimit
  rejectIf (input.parameters.length + (input.operations.map (·.resultTypes.length)).sum >
    maxRegisters) .resourceLimit
  let work := 1 + input.parameters.length + input.blocks.length + input.operations.length
  rejectIf (work > maxLoweringWork) .resourceLimit
  return work

/-- Where the entities of a function are, and the types of its registers. -/
structure Maps where
  parameters : EntityMap (Parameter × Register)
  blocks : EntityMap (Block × BlockSlot)
  operations : EntityMap (Operation × List Register)
  registerTypes : List TypeExpr
  functionParameters : List Register

namespace Maps

def empty : Maps := ⟨∅, ∅, ∅, [], []⟩

/-- `allocate_register`. -/
def allocateRegister (maps : Maps) (valueType : TypeExpr) : Lowering (Register × Maps) := do
  StateT.ofExcept (rejectIf (maps.registerTypes.length ≥ maxRegisters) .resourceLimit)
  charge 1
  return (UInt32.ofNat maps.registerTypes.length,
    { maps with registerTypes := maps.registerTypes ++ [valueType] })

def addParameter (inventory : EntityMap Parameter) (maps : Maps) (id : EntityId) :
    Lowering (Register × Maps) := do
  let value ← localEntry inventory[id]?
  let (register, maps) ← maps.allocateRegister value.valueType
  return (register, { maps with parameters := maps.parameters.insert id (value, register) })

def addFunctionParameter (inventory : EntityMap Parameter) (maps : Maps) (id : EntityId) :
    Lowering Maps := do
  let (register, maps) ← addParameter inventory maps id
  return { maps with functionParameters := maps.functionParameters ++ [register] }

def addOperation (inventory : EntityMap Operation) (maps : Maps) (id : EntityId) :
    Lowering Maps := do
  let operation ← localEntry inventory[id]?
  let (results, maps) ← operation.resultTypes.foldlM (fun (results, maps) resultType ↦ do
    let (register, maps) ← maps.allocateRegister resultType
    return (results ++ [register], maps)) (([] : List Register), maps)
  return { maps with operations := maps.operations.insert id (operation, results) }

def addBlock (blockInventory : EntityMap Block) (parameterInventory : EntityMap Parameter)
    (operationInventory : EntityMap Operation) (maps : Maps) (declared : EntityId × Nat) :
    Lowering Maps := do
  let (id, slot) := declared
  let block ← localEntry blockInventory[id]?
  StateT.ofExcept (rejectIf (slot ≥ 2 ^ 32) .resourceLimit)
  let maps := { maps with blocks := maps.blocks.insert id (block, UInt32.ofNat slot) }
  let maps ← block.parameters.foldlM (fun maps id ↦ do
    let (_, maps) ← addParameter parameterInventory maps id
    return maps) maps
  block.operations.foldlM (addOperation operationInventory) maps

/-- The inventories by identity; the declared entities are all of them. -/
def build (input : LoweringInput) : Lowering Maps := do
  let parameterInventory := EntityMap.ofEntries (input.parameters.map fun v ↦ (v.entityId, v))
  let blockInventory := EntityMap.ofEntries (input.blocks.map fun v ↦ (v.entityId, v))
  let operationInventory := EntityMap.ofEntries (input.operations.map fun v ↦ (v.entityId, v))
  let maps ← input.function.parameters.foldlM (addFunctionParameter parameterInventory) empty
  let maps ← input.function.blocks.zipIdx.foldlM
    (addBlock blockInventory parameterInventory operationInventory) maps
  StateT.ofExcept (rejectIf (maps.parameters.size ≠ input.parameters.length ∨
    maps.blocks.size ≠ input.blocks.length ∨
    maps.operations.size ≠ input.operations.length) .localReferenceInvalid)
  return maps

variable (maps : Maps)

def registerOf : ValueRef → Option Register
  | .parameter id => maps.parameters[id]?.map Prod.snd
  | .operationResult value => do
    let (_, results) ← maps.operations[value.operation]?
    results[value.resultIndex.toNat]?

def register (value : ValueRef) : Lowering Register := localEntry (maps.registerOf value)

def valueType (value : ValueRef) : Lowering TypeExpr := do
  let register ← maps.register value
  localEntry maps.registerTypes[register.toNat]?

def blockSlot (id : EntityId) : Lowering BlockSlot := localEntry (maps.blocks[id]?.map Prod.snd)

end Maps

/-! ### The judgment -/

/-- The walk over the operations of a function, block by block. -/
def forOperations (blocks : List EntityId) (maps : Maps) (visit : Operation → Lowering Unit) :
    Lowering Unit :=
  blocks.forM fun blockId ↦ do
    let (block, _) ← localEntry maps.blocks[blockId]?
    block.operations.forM fun operationId ↦ do
      let (operation, _) ← localEntry maps.operations[operationId]?
      visit operation

/-- The opcodes of the restricted profile, by how many operands they have. -/
def expectedOperands : Opcode → Judged Nat
  | .boolNot => .ok 1
  | .boolAnd | .boolOr => .ok 2
  | _ => fail .opcodeUnsupported

/-- What the restricted profile asks of one operation. -/
def validateOperation (maps : Maps) (operation : Operation) : Lowering Unit := do
  let expected ← StateT.ofExcept (lowered (expectedOperands operation.opcode))
  StateT.ofExcept (rejectIf (operation.immediate ≠ .none) .immediateMismatch)
  StateT.ofExcept (rejectIf (operation.operands.length ≠ expected ∨
    operation.resultTypes ≠ [.bool]) .signatureMismatch)
  operation.operands.forM fun operand ↦ do
    let valueType ← maps.valueType operand
    StateT.ofExcept (rejectIf (valueType ≠ .bool) .signatureMismatch)
    charge 1
  charge 1

def validateOperations (input : LoweringInput) (maps : Maps) : Lowering Unit :=
  forOperations input.function.blocks maps (validateOperation maps)

/-- What the judgment of a function reads from the whole program. -/
def LoweringInput.context (root : LoweringInput) (function : EntityId) : LoweringContext where
  types := root.types
  constants := root.constants
  globals := root.globals
  functions := root.functions
  parameters := root.parameters
  contracts := root.contracts
  adapters := root.adapters
  function := function

/-- The types of the operands of an operation, each charged. -/
def operandTypes (maps : Maps) (operands : List ValueRef) : Lowering (List TypeExpr) :=
  operands.mapM fun operand ↦ do
    let valueType ← maps.valueType operand
    charge 1
    return valueType

def judgeOperation (context : LoweringContext) (maps : Maps) (operation : Operation) :
    Lowering Unit := do
  let types ← operandTypes maps operation.operands
  discard (StateT.ofExcept (lowered (judgeExtendedOperation context operation.opcode
    operation.immediate types operation.resultTypes)))
  charge 1

def judgeExtended (input root : LoweringInput) (maps : Maps) : Lowering Unit := do
  StateT.ofExcept (lowered (checkResultType input.function.resultType))
  forOperations input.function.blocks maps
    (judgeOperation (root.context input.function.entityId) maps)

/-- The walk that the profile asks for. -/
def checkOperations (input root : LoweringInput) (maps : Maps) : Lowering Unit :=
  if input.profile.isExtended then judgeExtended input root maps
  else validateOperations input maps

/-- The constant that an operation hands to a register. -/
def namedConstant (constants : List ConstantDefinition) (globals : List GlobalValueDefinition)
    (operation : Operation) : Option ConstValue :=
  match operation.opcode, operation.immediate with
  | .constantRef, .entity id => (constants.find? (·.entityId = id)).map (·.value)
  | .globalGet, .entity id => (globalInitializer globals constants id).map (·.2.value)
  | _, _ => none

/-- `encode_const_value` succeeds. -/
def hasCanonicalForm (value : ConstValue) : Bool := (keyBytes value).isSome

/-- The constant that an operation names, if it names one, has a canonical form. -/
def namesCanonical (input : LoweringInput) (operation : Operation) : Bool :=
  (namedConstant input.constants input.globals operation).all hasCanonicalForm

def requireCanonicalReferencedConstants (input : LoweringInput) : Except LoweringError Unit :=
  input.operations.forM fun operation ↦
    rejectIf (!namesCanonical input operation) .immediateMismatch

/-- Judges every operation of one function under the extended profile, without emitting bytecode,
lowering callees, or executing anything. -/
def judgeFunctionOperations (root : LoweringInput) : Except LoweringError OperationJudgment := do
  rejectIf (!root.profile.isExtended) .profileUnsupported
  let input := root.narrow root.function
  let work ← preflightResources input
  let (_, work) ← (do
    let maps ← Maps.build input
    judgeExtended input root maps : Lowering Unit).run work
  requireCanonicalReferencedConstants input
  return { operations := input.operations.length, work }

/-! ### Emission -/

def lowerEdge (maps : Maps) (value : TargetEdge) : Lowering BytecodeTargetEdge := do
  let arguments ← value.arguments.mapM maps.register
  charge arguments.length
  let target ← maps.blockSlot value.target
  return ⟨target, arguments⟩

def lowerSwitchArgument (maps : Maps) : SwitchArgument → Lowering BytecodeSwitchArgument
  | .value value => do
    charge 1
    let register ← maps.register value
    return .value register
  | .casePayload => do
    charge 1
    return .casePayload

def lowerSwitchCase (maps : Maps) (case : SwitchCase) : Lowering BytecodeSwitchCase := do
  charge 1
  let arguments ← case.edge.arguments.mapM (lowerSwitchArgument maps)
  let target ← maps.blockSlot case.edge.target
  return ⟨case.caseKey, ⟨target, arguments⟩⟩

def lowerTerminator (maps : Maps) (value : Terminator) : Lowering BytecodeTerminator := do
  charge 1
  match value with
  | .return_ value => do
    let register ← maps.register value.value
    return .ret register
  | .branch value => do
    let edge ← lowerEdge maps value.edge
    return .branch edge
  | .condBranch value => do
    let condition ← maps.register value.condition
    let ifTrue ← lowerEdge maps value.ifTrue
    let ifFalse ← lowerEdge maps value.ifFalse
    return .condBranch condition ifTrue ifFalse
  | .variantSwitch value => do
    let cases ← value.cases.mapM (lowerSwitchCase maps)
    let register ← maps.register value.value
    return .variantSwitch register cases
  | .trap value => do
    let payload ← value.payload.mapM maps.register
    return .trap value.code.tag payload

def emitInstruction (extended : Bool) (maps : Maps) (operationId : EntityId) :
    Lowering Instruction := do
  let (operation, results) ← localEntry maps.operations[operationId]?
  let operands ← operation.operands.mapM maps.register
  charge operands.length
  return ⟨operation.opcode.tag, operands, results,
    if extended then operation.immediate else .none⟩

def emitBlock (extended : Bool) (maps : Maps) (blockId : EntityId) : Lowering BytecodeBlock := do
  let (block, slot) ← localEntry maps.blocks[blockId]?
  let parameterRegisters ← block.parameters.mapM fun id ↦
    localEntry (maps.parameters[id]?.map Prod.snd)
  let instructions ← block.operations.mapM (emitInstruction extended maps)
  let terminator ← lowerTerminator maps block.terminator
  return ⟨slot, parameterRegisters, instructions, terminator, block.reachability.tag⟩

def emitFunction (input : LoweringInput) (maps : Maps) : Lowering BytecodeFunction := do
  let blocks ← input.function.blocks.mapM (emitBlock input.profile.isExtended maps)
  let entryBlock ← maps.blockSlot input.function.entryBlock
  return ⟨input.function.entityId, maps.functionParameters, maps.registerTypes,
    input.function.resultType, entryBlock, blocks⟩

/-! ### Callees -/

/-- The function that an instruction enters: a callee, or the predicate of a contract. -/
def calledFunction (contracts : List ContractDefinition) (instruction : Instruction) :
    Option EntityId :=
  match instruction.immediate with
  | .function reference =>
    if instruction.opcode = Opcode.callDirect.tag then some reference.function else none
  | .entity contract =>
    if instruction.opcode = Opcode.contractAssert.tag then
      (contracts.find? (·.entityId = contract)).map (·.predicate)
    else none
  | _ => none

def calledFunctions (bytecode : BytecodeFunction) (contracts : List ContractDefinition) :
    List EntityId :=
  bytecode.blocks.flatMap fun block ↦ block.instructions.filterMap (calledFunction contracts)

/-- The judgments on types that the validation of a graph asks for. -/
def graphTypes (types : TypeEnvironment) : Ssmc.TypeEnvironment TypeErrorCode where
  definition id := (types.definition id).map (·.form)
  checkType := types.checkType
  persistable value := (types.traits value).map (·.persistable)
  instantiateInScope := types.instantiateInScope

def validateGraph (input : LoweringInput) : Except LoweringError CfgReport :=
  (validateFunctionGraph (graphTypes input.types) input.function input.parameters input.blocks
    input.operations).mapError .cfg

/-- Only a closed function without effects and contracts has bytecode. -/
def checkProfile (function : FunctionGraph) : Except LoweringError Unit :=
  rejectIf (function.typeParameters ≠ [] ∨ function.effects ≠ [] ∨ function.contracts ≠ [])
    .profileUnsupported

/-- One callee under the profile and the budget of the entry. -/
def lowerCallee (input : LoweringInput) (graph : FunctionGraph) : Lowering BytecodeFunction := do
  let calleeInput := input.narrow graph
  let _ ← StateT.ofExcept (validateGraph calleeInput)
  StateT.ofExcept (checkProfile graph)
  let maps ← Maps.build calleeInput
  judgeExtended calleeInput input maps
  emitFunction calleeInput maps

theorem length_undone_lt {done : EntityMap BytecodeFunction} {functions : List FunctionGraph}
    {function : EntityId} {graph : FunctionGraph} {bytecode : BytecodeFunction}
    (hfind : functions.find? (·.entityId = function) = some graph) (hdone : function ∉ done) :
    (functions.filter (·.entityId ∉ done.insert function bytecode)).length <
      (functions.filter (·.entityId ∉ done)).length := by
  have hid : graph.entityId = function := by
    simpa using List.find?_some hfind
  have hfilter : functions.filter (·.entityId ∉ done.insert function bytecode) =
      (functions.filter (·.entityId ∉ done)).filter
        (·.entityId ∉ done.insert function bytecode) := by
    rw [List.filter_filter]
    refine List.filter_congr fun y _ ↦ ?_
    simp only [Std.ExtTreeMap.mem_insert, not_or, decide_not, Bool.decide_and]
    grind
  rw [hfilter, List.length_filter_lt_length_iff_exists]
  refine ⟨graph, List.mem_filter.2 ⟨List.mem_of_find?_eq_some hfind, ?_⟩, ?_⟩
  · simpa [hid] using hdone
  · simp [hid]

/-- The entry, and what is lowered already, is not lowered again. -/
def isLowered (input : LoweringInput) (done : EntityMap BytecodeFunction) (function : EntityId) :
    Bool :=
  function = input.function.entityId ∨ function ∈ done

/-- `lower_callees`: the functions that wait, the one to be lowered next in front. A function that
was lowered puts those that it calls on top. -/
def lowerCallees (input : LoweringInput) (done : EntityMap BytecodeFunction)
    (pending : List EntityId) : Lowering (EntityMap BytecodeFunction) :=
  match _hpending : pending.dropWhile (isLowered input done) with
  | [] => return done
  | function :: waiting =>
    match _hfind : input.functions.find? (·.entityId = function) with
    | none => StateT.ofExcept (lowered (fail .immediateMismatch))
    | some graph => do
      let bytecode ← lowerCallee input graph
      lowerCallees input (done.insert function bytecode)
        ((calledFunctions bytecode input.contracts).reverse ++ waiting)
termination_by (input.functions.filter (·.entityId ∉ done)).length
decreasing_by
  refine length_undone_lt _hfind fun hdone ↦ ?_
  have hhead := List.head?_dropWhile_not (isLowered input done) pending
  simp [_hpending, isLowered, hdone] at hhead

/-! ### Lowering -/

/-- `SSMC1_FIELD_SCHEMA_HASH`. -/
def ssmc1FieldSchemaHash : Bytes :=
  [0x19, 0x83, 0xbc, 0x8d, 0x6a, 0xd9, 0xac, 0x3c, 0xb5, 0x39, 0x08, 0x53, 0xf4, 0x39, 0x59, 0xcf,
   0x2c, 0x3d, 0xc0, 0xae, 0x8e, 0x0c, 0xa1, 0x8c, 0xa8, 0x26, 0x4c, 0xa4, 0x96, 0x01, 0x33, 0xae]

/-- `SSMC1_DECODER_LIMITS_HASH`. -/
def ssmc1DecoderLimitsHash : Bytes :=
  [0x38, 0x97, 0x91, 0xb1, 0x70, 0xbc, 0x9d, 0x85, 0x75, 0xf7, 0xe6, 0xf3, 0x38, 0xe4, 0xf9, 0xe9,
   0xf2, 0xb7, 0x5f, 0x35, 0xd7, 0xa2, 0xe5, 0x2c, 0x7c, 0xb1, 0x06, 0xcb, 0x2c, 0xd6, 0x13, 0x6a]

/-- `SLEYBCK1`. -/
def cacheKeyMagic : Bytes := [0x53, 0x4c, 0x45, 0x59, 0x42, 0x43, 0x4b, 0x31]

def versionBytes (version : UInt32 × UInt32 × UInt32) : Bytes :=
  bytes 4 version.1.toNat ++ bytes 4 version.2.1.toNat ++
    bytes 4 version.2.2.toNat

/-- Only the two frozen profiles have a cache key. -/
def cacheKeyPreimage (schemaEpoch : SchemaEpochId) (stateRoot : StateRoot)
    (entryFunction : EntityId) (profile : CacheProfile) : Except LoweringError Bytes := do
  rejectIf (profile ≠ .restrictedV1 ∧ profile ≠ .extendedV1) .cacheKeyUnsupported
  return cacheKeyMagic ++ bytes 4 1 ++ schemaEpoch.bytes ++ ssmc1FieldSchemaHash ++
    ssmc1DecoderLimitsHash ++ stateRoot.bytes ++ entryFunction.bytes ++
    versionBytes profile.vmVersion ++ bytes 4 profile.loweringProfile.toNat ++
    versionBytes profile.lowererVersion ++ bytes 8 profile.entryTypeArguments.toNat ++
    bytes 8 profile.adapterAbiEntries.toNat ++
    bytes 8 profile.executionAbiFlags.toNat

/-- The bytecode of a function and of those that it calls, once its graph is validated. -/
def emitAll (input root : LoweringInput) (maps : Maps) :
    Lowering (BytecodeFunction × List BytecodeFunction) := do
  let bytecode ← emitFunction input maps
  if input.profile.isExtended then do
    let callees ← lowerCallees root ∅ (calledFunctions bytecode root.contracts).reverse
    return (bytecode, callees.intoValues)
  else return (bytecode, [])

section

variable (derive : Bytes → Digest)

/-- `derive_cache_key`, `derive` being the hash of its domain. -/
def deriveCacheKey (input : LoweringInput) : Except LoweringError Digest := do
  let preimage ← cacheKeyPreimage input.schemaEpoch input.stateRoot input.function.entityId
    input.profile
  return derive preimage

/-- Validates and lowers one function. -/
def lowerFunction (root : LoweringInput) : Except LoweringError LoweredFunction := do
  let input := root.own
  let _ ← validateGraph input
  let cacheKey ← deriveCacheKey derive input
  checkProfile input.function
  let work ← preflightResources input
  let ((bytecode, callees), work) ← (do
    let maps ← Maps.build input
    checkOperations input root maps
    StateT.ofExcept (requireCanonicalReferencedConstants input)
    emitAll input root maps : Lowering (BytecodeFunction × List BytecodeFunction)).run work
  let bytes ← lowered (encodeFunction bytecode callees input.profile.isExtended)
  return { bytecode, bytes, cacheKey, loweringWork := work, callees }

end

end Sley.Vm.Lower
