import Mathlib
import Sley.Check.ConstOrder
import Sley.Lib.Charged
import Sley.Lib.Dominance
import Sley.Lib.Outcome
import Sley.Lib.Propagation
import Sley.Lib.WordSet
import Sley.Ssmc.Equality
import Sley.Ssmc.Graph

/-!
# Validation of control-flow graphs

`validate_function_graph` of `sley-check/src/cfg.rs`: the inventory of a function, its successors,
the blocks that its entry reaches, their dominators as bit sets, and the scope and type of every
value that an operation or a terminator uses. **The checks are made in the order of the source**, so
the first failure is the one that is reported.

Blocks are numbered by their place in the declared list, and a number below the length of that list
is all that can index the tables. The judgments about types are those of a `TypeEnvironment`.
-/

namespace Sley.Check

open Ssmc

def maxCfgBlocks : Nat := 4096

def maxCfgEdges : Nat := 16384

def maxCfgOperations : Nat := 1000000

def maxCfgValues : Nat := 1000000

def maxCfgUses : Nat := 262144

def maxCfgParameters : Nat := 65535

def maxCfgOperationValues : Nat := 65535

def maxDominatorWordOperations : Nat := 50000000

def maxTypeArguments : Nat := 1024

inductive CfgErrorCode
  | graphDuplicateEntity
  | graphInventoryMismatch
  | graphOwnerMismatch
  | graphOrdinalMismatch
  | graphUnresolvedReference
  | entryInvalid
  | targetInvalid
  | targetArguments
  | returnType
  | boolRequired
  | switchType
  | switchCases
  | switchPayload
  | valueUnresolved
  | resultIndex
  | useBeforeDefinition
  | dominance
  | reachability
  | unreachableValue
  | trapPayload
  | resourceLimit
  deriving DecidableEq, Repr

/-- A failure of the graph, or the failure of a judgment about types. -/
inductive CfgValidationError (ε : Type)
  | cfg (code : CfgErrorCode)
  | type (error : ε)
  deriving DecidableEq

/-- `CfgResult`. -/
abbrev CfgResult (ε α : Type) := Except (CfgValidationError ε) α

variable {ε : Type}

/-- Stop with this code when the condition holds. -/
def cfgRejectIf (c : Prop) [Decidable c] (code : CfgErrorCode) : CfgResult ε Unit :=
  Except.rejectIf c (.cfg code)

def cfgFail {α : Type} (code : CfgErrorCode) : CfgResult ε α := .error (.cfg code)

/-- A lookup that stops with this code. -/
def lookup {α : Type} (code : CfgErrorCode) (m : EntityMap α) (id : EntityId) : CfgResult ε α :=
  Except.ofOption (.cfg code) m[id]?

/-- `map[&id]`, which the inventories have made total. -/
def indexed {α : Type} (m : EntityMap α) (id : EntityId) : CfgResult ε α :=
  lookup .graphInventoryMismatch m id

/-- The question mark on a judgment about types. -/
def judged {α : Type} (x : Except ε α) : CfgResult ε α := x.mapError .type

/-! ### Limits -/

def terminatorUseCount : Terminator → Nat
  | .return_ _ => 1
  | .branch branch => branch.edge.arguments.length
  | .condBranch branch => 1 + branch.ifTrue.arguments.length + branch.ifFalse.arguments.length
  | .variantSwitch switch => switch.cases.foldl (fun count case ↦ count + case.edge.arguments.length) 1
  | .trap trap => if trap.payload.isSome then 1 else 0

/-- `check_top_level_limits`; a sum that overflowed would be over the limit too. -/
def checkTopLevelLimits (function : FunctionGraph) (parameters : List Parameter)
    (blocks : List Block) (operations : List Operation) : CfgResult ε Unit := do
  cfgRejectIf (maxCfgBlocks < function.blocks.length ∨ maxCfgBlocks < blocks.length ∨
    maxCfgParameters < function.parameters.length ∨
    maxTypeArguments < function.typeParameters.length ∨ maxCfgOperations < operations.length)
    .resourceLimit
  operations.forM fun operation ↦
    cfgRejectIf (maxCfgOperationValues < operation.operands.length ∨
      maxCfgOperationValues < operation.resultTypes.length) .resourceLimit
  let values := parameters.length + (operations.map (·.resultTypes.length)).sum
  let uses := (operations.map (·.operands.length)).sum +
    (blocks.map (terminatorUseCount ·.terminator)).sum
  cfgRejectIf (maxCfgValues < values ∨ maxCfgUses < uses ∨
    ∃ block ∈ blocks, maxCfgParameters < block.parameters.length) .resourceLimit

/-! ### Inventories -/

def validateTypeParameters (function : FunctionGraph) : CfgResult ε Nat := do
  function.typeParameters.zipIdx.forM fun (parameter, index) ↦
    cfgRejectIf (parameter.ordinal.toNat ≠ index) .graphOrdinalMismatch
  cfgRejectIf (2 ^ 32 ≤ function.typeParameters.length) .resourceLimit
  return function.typeParameters.length

def validateSortedUnique (values : List EntityId) : CfgResult ε Unit :=
  cfgRejectIf (¬ values.IsChain fun a b ↦ compare a b = .lt) .graphInventoryMismatch

/-- `index_unique`: the values by identity, and the identities seen so far. -/
def indexUnique {α : Type} (id : α → EntityId) (values : List α) (allIds : EntitySet) :
    CfgResult ε (EntityMap α × EntitySet) :=
  values.foldlM (fun (output, allIds) value ↦ do
    cfgRejectIf (id value ∈ allIds ∨ id value ∈ output) .graphDuplicateEntity
    return (output.insert (id value) value, allIds.insert (id value))) (∅, allIds)

/-- `index_declared_ids`: the place of each identity of a declared list. -/
def indexDeclaredIds (values : List EntityId) : CfgResult ε (EntityMap (Fin values.length)) :=
  (List.finRange values.length).foldlM (fun output index ↦ do
    cfgRejectIf (values[index] ∈ output) .graphDuplicateEntity
    return output.insert values[index] index) ∅

/-- What is expected of one parameter of a function or of a block. -/
def validateParameter (types : TypeEnvironment ε) (parameterCount : Nat)
    (parameters : EntityMap Parameter) (owner : EntityId) (role : ParameterRole) {n : Nat}
    (expected : EntitySet) (declared : EntityId × Fin n) : CfgResult ε EntitySet := do
  let (id, ordinal) := declared
  let parameter ← lookup .graphUnresolvedReference parameters id
  cfgRejectIf (parameter.owner ≠ owner ∨ parameter.role ≠ role) .graphOwnerMismatch
  cfgRejectIf (parameter.ordinal.toNat ≠ ordinal) .graphOrdinalMismatch
  judged (types.checkType parameter.valueType parameterCount)
  return expected.insert id

/-- The declared entities are those of the inventory. -/
def requireInventory {α : Type} (expected : EntitySet) (inventory : EntityMap α) :
    CfgResult ε Unit :=
  cfgRejectIf (expected.size ≠ inventory.size ∨ ∃ id ∈ expected.toList, id ∉ inventory)
    .graphInventoryMismatch

def validateParameterInventory (types : TypeEnvironment ε) (parameterCount : Nat)
    (function : FunctionGraph) (parameters : EntityMap Parameter) (blocks : EntityMap Block)
    (functionParameters : EntityMap (Fin function.parameters.length)) : CfgResult ε Unit := do
  let expected ← functionParameters.toList.foldlM
    (validateParameter types parameterCount parameters function.entityId .function) ∅
  let expected ← function.blocks.foldlM (fun expected blockId ↦ do
    let block ← indexed blocks blockId
    cfgRejectIf (block.function ≠ function.entityId) .graphOwnerMismatch
    let declared ← indexDeclaredIds block.parameters
    declared.toList.foldlM
      (validateParameter types parameterCount parameters block.entityId .block) expected) expected
  requireInventory expected parameters

/-- What is expected of one operation of a block. -/
def validateOperation (types : TypeEnvironment ε) (parameterCount : Nat)
    (operations : EntityMap Operation) (block : Block) {n : Nat} (expected : EntitySet)
    (declared : EntityId × Fin n) : CfgResult ε EntitySet := do
  let (id, ordinal) := declared
  let operation ← lookup .graphUnresolvedReference operations id
  cfgRejectIf (operation.block ≠ block.entityId) .graphOwnerMismatch
  cfgRejectIf (operation.ordinal.toNat ≠ ordinal) .graphOrdinalMismatch
  operation.resultTypes.forM fun result ↦ judged (types.checkType result parameterCount)
  return expected.insert id

def validateOperationInventory (types : TypeEnvironment ε) (parameterCount : Nat)
    (function : FunctionGraph) (blocks : EntityMap Block) (operations : EntityMap Operation) :
    CfgResult ε Unit := do
  let expected ← function.blocks.foldlM (fun expected blockId ↦ do
    let block ← indexed blocks blockId
    let declared ← indexDeclaredIds block.operations
    declared.toList.foldlM (validateOperation types parameterCount operations block) expected) ∅
  requireInventory expected operations

/-! ### Successors and reachability -/

/-- For each block the blocks that its terminator names. -/
abbrev Successors (n : Nat) := Vector (List (Fin n)) n

/-- One round of the loop of `build_successors`. -/
def addSuccessors {n : Nat} (blocks : EntityMap Block) (indices : EntityMap (Fin n))
    (state : Successors n × Nat) (blockId : EntityId) : CfgResult ε (Successors n × Nat) := do
  let (successors, edges) := state
  let source ← indexed indices blockId
  let block ← indexed blocks blockId
  let edges := edges + block.terminator.targets.length
  cfgRejectIf (maxCfgEdges < edges) .resourceLimit
  let targets ← block.terminator.targets.mapM (lookup .targetInvalid indices)
  return (successors.set source (successors[source] ++ targets), edges)

def buildSuccessors (function : FunctionGraph) (blocks : EntityMap Block)
    (indices : EntityMap (Fin function.blocks.length)) :
    CfgResult ε (Successors function.blocks.length × Nat) := do
  let entry ← indexed blocks function.entryBlock
  cfgRejectIf (entry.reachability ≠ .required) .entryInvalid
  function.blocks.foldlM (addSuccessors blocks indices) (Vector.replicate _ [], 0)

/-- Mark the successors that are not marked yet, and queue them. -/
def markTargets {n : Nat} (targets : List (Fin n)) (state : Vector Bool n × List (Fin n)) :
    Vector Bool n × List (Fin n) :=
  targets.foldl (fun (reachable, queue) target ↦
    if reachable[target] then (reachable, queue)
    else (reachable.set target true, queue ++ [target])) state

/-- Every round takes one block from the queue, and no block is queued twice. -/
def reachabilityRounds {n : Nat} (successors : Successors n) :
    Nat → Vector Bool n → List (Fin n) → Vector Bool n
  | 0, reachable, _ => reachable
  | _ + 1, reachable, [] => reachable
  | rounds + 1, reachable, block :: queue =>
    let (reachable, queue) := markTargets successors[block] (reachable, queue)
    reachabilityRounds successors rounds reachable queue

def computeReachability {n : Nat} (entry : Fin n) (successors : Successors n) : Vector Bool n :=
  reachabilityRounds successors n ((Vector.replicate n false).set entry true) [entry]

def validateReachability (function : FunctionGraph) (blocks : EntityMap Block)
    (reachable : Vector Bool function.blocks.length) : CfgResult ε Unit :=
  (List.finRange function.blocks.length).forM fun index ↦ do
    let block ← indexed blocks function.blocks[index]
    cfgRejectIf ((reachable[index] = true ∧ block.reachability ≠ .required) ∨
      (reachable[index] = false ∧ block.reachability ≠ .explicitlyUnreachable)) .reachability

/-! ### Dominators -/

/-- `count.div_ceil(64)`. -/
def wordCount (n : Nat) : Nat := (n + 63) / 64

/-- For each block the bits of its dominators. -/
abbrev Dominators (n : Nat) := Vector (WordSet (wordCount n)) n

def chargeWork (limit work amount : Nat) : CfgResult ε Nat := do
  cfgRejectIf (limit < work + amount) .resourceLimit
  return work + amount

/-- The reachable predecessors of every reachable block. -/
def predecessors {n : Nat} (successors : Successors n) (reachable : Vector Bool n) :
    Vector (List (Fin n)) n :=
  (List.finRange n).foldl (fun predecessors source ↦
    if reachable[source] then
      successors[source].foldl (fun predecessors target ↦
        if reachable[target] then predecessors.set target (predecessors[target] ++ [source])
        else predecessors) predecessors
    else predecessors) (Vector.replicate n [])

def reachableBits {n : Nat} (reachable : Vector Bool n) : WordSet (wordCount n) :=
  (List.finRange n).foldl (fun bits index ↦ if reachable[index] then bits.setBit index else bits)
    (WordSet.empty _)

def initialDominators {n : Nat} (entry : Fin n) (reachable : Vector Bool n) : Dominators n :=
  Vector.ofFn fun index ↦
    if index = entry then (WordSet.empty _).setBit index
    else if reachable[index] then reachableBits reachable
    else WordSet.empty _

/-- The state of a round: the sets, the work that was charged and whether a set has changed. -/
structure DominatorRound (n : Nat) where
  dominators : Dominators n
  work : Nat
  changed : Bool

/-- The body of the loop over the blocks. -/
def visitBlock {n : Nat} (limit : Nat) (entry : Fin n) (reachable : Vector Bool n)
    (predecessors : Vector (List (Fin n)) n) (round : DominatorRound n) (block : Fin n) :
    CfgResult ε (DominatorRound n) :=
  if block = entry ∨ reachable[block] = false then .ok round
  else
    match predecessors[block] with
    | [] => cfgFail .reachability
    | first :: rest => do
      let work ← chargeWork limit round.work (wordCount n)
      let (next, work) ← rest.foldlM (fun (next, work) predecessor ↦ do
        let next := WordSet.inter next round.dominators[predecessor]
        let work ← chargeWork limit work (wordCount n)
        return (next, work)) (round.dominators[first], work)
      let next := next.setBit block
      let work ← chargeWork limit work (wordCount n)
      if next ≠ round.dominators[block] then
        return { dominators := round.dominators.set block next, work, changed := true }
      else
        return { round with work }

def dominatorRounds {n : Nat} (limit : Nat) (entry : Fin n) (reachable : Vector Bool n)
    (predecessors : Vector (List (Fin n)) n) :
    Nat → Dominators n → Nat → CfgResult ε (Dominators n × Nat)
  | 0, _, _ => cfgFail .resourceLimit
  | rounds + 1, dominators, work => do
    let round ← (List.finRange n).foldlM (visitBlock limit entry reachable predecessors)
      { dominators, work, changed := false }
    if round.changed then
      dominatorRounds limit entry reachable predecessors rounds round.dominators round.work
    else
      return (round.dominators, round.work)

/-- `compute_dominators`, with the limit on the word operations as a parameter. -/
def computeDominatorsWithin {n : Nat} (limit : Nat) (entry : Fin n) (successors : Successors n)
    (reachable : Vector Bool n) : CfgResult ε (Dominators n × Nat) :=
  dominatorRounds limit entry reachable (predecessors successors reachable) maxCfgBlocks
    (initialDominators entry reachable) 0

def computeDominators {n : Nat} (entry : Fin n) (successors : Successors n)
    (reachable : Vector Bool n) : CfgResult ε (Dominators n × Nat) :=
  computeDominatorsWithin maxDominatorWordOperations entry successors reachable

/-! ### The index -/

/-- `GraphIndex`: what the checks of values and terminators look up. -/
structure GraphIndex where
  function : FunctionGraph
  parameterCount : Nat
  parameters : EntityMap Parameter
  blocks : EntityMap Block
  operations : EntityMap Operation
  blockIndices : EntityMap (Fin function.blocks.length)
  reachable : Vector Bool function.blocks.length
  dominators : Dominators function.blocks.length
  dominatorWork : Nat
  edges : Nat

def GraphIndex.build (types : TypeEnvironment ε) (function : FunctionGraph)
    (parameters : List Parameter) (blocks : List Block) (operations : List Operation) :
    CfgResult ε GraphIndex := do
  checkTopLevelLimits function parameters blocks operations
  let parameterCount ← validateTypeParameters function
  validateSortedUnique function.effects
  validateSortedUnique function.contracts
  let allIds : EntitySet := (∅ : EntitySet).insert function.entityId
  let (parameters, allIds) ← indexUnique Parameter.entityId parameters allIds
  let (blocks, allIds) ← indexUnique Block.entityId blocks allIds
  let (operations, _) ← indexUnique Operation.entityId operations allIds
  let blockIndices ← indexDeclaredIds function.blocks
  cfgRejectIf (blockIndices.size ≠ blocks.size ∨ ∃ id ∈ blockIndices.keys, id ∉ blocks)
    .graphInventoryMismatch
  let entryIndex ← lookup .entryInvalid blockIndices function.entryBlock
  let entry ← indexed blocks function.entryBlock
  cfgRejectIf (entry.function ≠ function.entityId) .entryInvalid
  let functionParameters ← indexDeclaredIds function.parameters
  validateParameterInventory types parameterCount function parameters blocks functionParameters
  validateOperationInventory types parameterCount function blocks operations
  judged (types.checkType function.resultType parameterCount)
  let (successors, edges) ← buildSuccessors function blocks blockIndices
  let reachable := computeReachability entryIndex successors
  validateReachability function blocks reachable
  let (dominators, dominatorWork) ← computeDominators entryIndex successors reachable
  return { function := function, parameterCount, parameters, blocks, operations, blockIndices,
           reachable, dominators, dominatorWork, edges }

def GraphIndex.isReachable (index : GraphIndex) (block : Fin index.function.blocks.length) : Bool :=
  index.reachable[block]

/-- `resolve_value`: the type of a value where it is used, at an operation of a block or, without
an ordinal, at its terminator. -/
def GraphIndex.resolveValue (index : GraphIndex) (value : ValueRef) (useBlock : EntityId)
    (useOrdinal : Option UInt32) : CfgResult ε TypeExpr := do
  let useIndex ← indexed index.blockIndices useBlock
  match value with
  | .parameter id => do
    let parameter ← lookup .valueUnresolved index.parameters id
    match parameter.role with
    | .function => return parameter.valueType
    | .block =>
      if parameter.owner = useBlock then return parameter.valueType
      else if index.reachable[useIndex] = false then cfgFail .unreachableValue
      else cfgFail .dominance
  | .operationResult result => do
    let operation ← lookup .valueUnresolved index.operations result.operation
    let resultType ← Except.ofOption (.cfg .resultIndex)
      operation.resultTypes[result.resultIndex.toNat]?
    if operation.block = useBlock then do
      cfgRejectIf (∃ ordinal ∈ useOrdinal, ordinal ≤ operation.ordinal) .useBeforeDefinition
      return resultType
    else do
      cfgRejectIf (index.reachable[useIndex] = false) .unreachableValue
      let definitionIndex ← indexed index.blockIndices operation.block
      cfgRejectIf (index.reachable[definitionIndex] = false ∨
        (index.dominators[useIndex]).bitIsSet definitionIndex = false) .dominance
      return resultType

/-! ### Values and terminators -/

/-- The target of an edge: a block of the function that takes so many arguments. -/
def GraphIndex.target (index : GraphIndex) (target : EntityId) (arguments : Nat) :
    CfgResult ε Block := do
  let target ← lookup .targetInvalid index.blocks target
  cfgRejectIf (target.function ≠ index.function.entityId) .targetInvalid
  cfgRejectIf (arguments ≠ target.parameters.length) .targetArguments
  return target

/-- An argument has the type of the parameter that it is passed to. -/
def GraphIndex.checkArgument (index : GraphIndex) (parameterId : EntityId)
    (actual : CfgResult ε TypeExpr) : CfgResult ε Unit := do
  let actual ← actual
  let parameter ← indexed index.parameters parameterId
  cfgRejectIf (actual ≠ parameter.valueType) .targetArguments

def GraphIndex.validateTargetEdge (index : GraphIndex) (source : Block) (edge : TargetEdge) :
    CfgResult ε Unit := do
  let target ← index.target edge.target edge.arguments.length
  (edge.arguments.zip target.parameters).forM fun (argument, parameterId) ↦
    index.checkArgument parameterId (index.resolveValue argument source.entityId none)

/-- `expected_switch_cases`, in the order of their keys. -/
def GraphIndex.expectedSwitchCases (types : TypeEnvironment ε) (index : GraphIndex) :
    TypeExpr → CfgResult ε (List (CaseKey × Option TypeExpr))
  | .named definition arguments => do
    match ← judged (types.definition definition) with
    | .variant variants => do
      let cases ← variants.mapM fun variant ↦ do
        let payload ← variant.payloadType.mapM fun payload ↦
          judged (types.instantiateInScope payload arguments index.parameterCount)
        return (CaseKey.member variant.memberId, payload)
      return cases.mergeSort fun a b ↦ a.1.le b.1
    | _ => cfgFail .switchType
  | .option element => return [(.builtin .none, none), (.builtin .some, some element)]
  | .result ok error => return [(.builtin .ok, some ok), (.builtin .err, some error)]
  | _ => cfgFail .switchType

def GraphIndex.validateSwitch (types : TypeEnvironment ε) (index : GraphIndex) (source : Block)
    (switch : VariantSwitchTerminator) : CfgResult ε Unit := do
  let selector ← index.resolveValue switch.value source.entityId none
  let expected ← index.expectedSwitchCases types selector
  cfgRejectIf (switch.cases.map (·.caseKey) ≠ expected.map Prod.fst ∨
    ¬ (switch.cases.map (·.caseKey)).IsChain fun a b ↦ a.le b ∧ a ≠ b) .switchCases
  (switch.cases.zip expected).forM fun (case, (_, payloadType)) ↦ do
    let target ← index.target case.edge.target case.edge.arguments.length
    (case.edge.arguments.zip target.parameters).forM fun (argument, parameterId) ↦
      index.checkArgument parameterId <|
        match argument with
        | .value value => index.resolveValue value source.entityId none
        | .casePayload => Except.ofOption (.cfg .switchPayload) payloadType

def GraphIndex.validateTerminator (types : TypeEnvironment ε) (index : GraphIndex)
    (block : Block) : CfgResult ε Unit := do
  match block.terminator with
  | .return_ value => do
    let actual ← index.resolveValue value.value block.entityId none
    cfgRejectIf (actual ≠ index.function.resultType) .returnType
  | .branch branch => index.validateTargetEdge block branch.edge
  | .condBranch branch => do
    let condition ← index.resolveValue branch.condition block.entityId none
    cfgRejectIf (condition ≠ .bool) .boolRequired
    index.validateTargetEdge block branch.ifTrue
    index.validateTargetEdge block branch.ifFalse
  | .variantSwitch switch => index.validateSwitch types block switch
  | .trap trap =>
    match trap.payload with
    | none => return ()
    | some payload => do
      let payload ← index.resolveValue payload block.entityId none
      cfgRejectIf payload.containsTypeParameter .trapPayload
      let persistable ← judged (types.persistable payload)
      cfgRejectIf (¬ persistable) .trapPayload

def GraphIndex.validateValuesAndTerminators (types : TypeEnvironment ε) (index : GraphIndex) :
    CfgResult ε Unit := do
  index.function.blocks.forM fun blockId ↦ do
    let block ← indexed index.blocks blockId
    block.operations.forM fun operationId ↦ do
      let operation ← indexed index.operations operationId
      operation.operands.forM fun operand ↦ do
        let _ ← index.resolveValue operand blockId (some operation.ordinal)
  index.function.blocks.forM fun blockId ↦ do
    let block ← indexed index.blocks blockId
    index.validateTerminator types block

/-- `CfgReport`. -/
structure CfgReport where
  reachableBlocks : List EntityId
  edges : Nat
  dominatorWordOperations : Nat

def validateFunctionGraph (types : TypeEnvironment ε) (function : FunctionGraph)
    (parameters : List Parameter) (blocks : List Block) (operations : List Operation) :
    CfgResult ε CfgReport := do
  let index ← GraphIndex.build types function parameters blocks operations
  index.validateValuesAndTerminators types
  let reachableBlocks := (List.finRange index.function.blocks.length).filterMap fun i ↦
    if index.reachable[i] then some index.function.blocks[i] else none
  return { reachableBlocks, edges := index.edges, dominatorWordOperations := index.dominatorWork }

end Sley.Check

/-!
# Dominators are exact

`compute_reachability` and `compute_dominators` against the paths of the graph. A block is marked
reachable exactly if a path from the entry ends in it (`computeReachability_iff`), and **where
`compute_dominators` returns, the bits of a reachable block are exactly the blocks on every path to
it** (`mem_dominators_iff`), however the graph loops. The bound on the rounds is never what stops
the computation (`computeDominatorsWithin_eq`): within the limit on blocks, it returns exactly if
the word operations that it takes are within theirs.
-/

namespace Sley.Check

open Ssmc
open List (finRange foldl_cons length_cons)
open WordSet (bitIsSet_setBit empty inter)
open DominatorRound (work)
open Vector (ext replicate)

variable {ε : Type} {n : Nat}

/-! ### Reachability -/

/-- The edges of a graph. -/
def Successors.next (successors : Successors n) (block : Fin n) : Set (Fin n) :=
  {target | target ∈ successors[block]}

/-- How many blocks are not marked. -/
def unmarked (reached : Vector Bool n) : Nat :=
  (Finset.univ.filter fun v : Fin n ↦ reached[v] = false).card

theorem getElem_set_fin {α : Type} {table : Vector α n} {t v : Fin n} {a : α} :
    (table.set t a)[v] = if v = t then a else table[v] := by
  rw [Fin.getElem_fin, Vector.getElem_set]
  simp only [Fin.ext_iff, eq_comm (a := t.val)]
  rfl

variable {reached : Vector Bool n} {successors : Successors n} {table : Vector (List (Fin n)) n}
  {entry : Fin n} {next : Fin n → Set (Fin n)}

theorem getElem_set_true {t v : Fin n} :
    (reached.set t true)[v] = true ↔ v = t ∨ reached[v] = true := by
  rw [getElem_set_fin]
  split_ifs with h
  · exact iff_of_true rfl (.inl h)
  · exact (or_iff_right h).symm

theorem unmarked_set {t : Fin n} (ht : reached[t] = false) :
    unmarked (reached.set t true) + 1 = unmarked reached := by
  have herase : (Finset.univ.filter fun v : Fin n ↦ (reached.set t true)[v] = false) =
      (Finset.univ.filter fun v : Fin n ↦ reached[v] = false).erase t := by
    ext v
    simp only [Finset.mem_filter_univ, Finset.mem_erase, ← Bool.not_eq_true, getElem_set_true,
      not_or, ne_eq]
  rw [unmarked, unmarked, herase]
  exact Finset.card_erase_add_one ((Finset.mem_filter_univ t).2 ht)

/-- What marking the targets of a block finds. -/
theorem markTargets_spec (targets : List (Fin n)) (reached : Vector Bool n)
    (queue : List (Fin n)) : ∃ reached' found,
      markTargets targets (reached, queue) = (reached', queue ++ found) ∧
        (∀ v, reached'[v] = true ↔ reached[v] = true ∨ v ∈ found) ∧
        (∀ v ∈ found, v ∈ targets) ∧ (∀ v ∈ targets, reached'[v] = true) ∧
        unmarked reached' + found.length = unmarked reached := by
  induction targets generalizing reached queue with
  | nil =>
    refine ⟨reached, [], ?_, fun v ↦ ?_, nofun, nofun, rfl⟩
    · rw [List.append_nil]
      rfl
    · simp
  | cons t targets ih =>
    cases ht : reached[t] with
    | true =>
      obtain ⟨reached', found, hmark, hmarked, hfound, htargets, hcount⟩ := ih reached queue
      refine ⟨reached', found, ?_, hmarked, fun v hv ↦ List.mem_cons_of_mem _ (hfound v hv), ?_,
        hcount⟩
      · rw [← hmark, markTargets, foldl_cons]
        simp only [ht, if_true]
        rfl
      · exact List.forall_mem_cons.2 ⟨(hmarked t).2 (.inl ht), htargets⟩
    | false =>
      obtain ⟨reached', found, hmark, hmarked, hfound, htargets, hcount⟩ :=
        ih (reached.set t true) (queue ++ [t])
      have hmarked' (v : Fin n) : reached'[v] = true ↔ reached[v] = true ∨ v ∈ t :: found := by
        rw [hmarked, getElem_set_true, List.mem_cons, or_assoc, or_left_comm]
      refine ⟨reached', t :: found, ?_, hmarked', ?_, ?_, ?_⟩
      · rw [List.append_cons, ← hmark, markTargets, foldl_cons]
        simp only [ht, Bool.false_eq_true, if_false]
        rfl
      · exact List.forall_mem_cons.2 ⟨List.mem_cons_self,
          fun v hv ↦ List.mem_cons_of_mem _ (hfound v hv)⟩
      · exact List.forall_mem_cons.2 ⟨(hmarked' t).2 (.inr List.mem_cons_self), htargets⟩
      · rw [← unmarked_set ht, ← hcount, length_cons, Nat.add_assoc]

/-- The blocks that are marked are the queue and what has been taken from it. -/
def Marked (next : Fin n → Set (Fin n)) (entry : Fin n) (reached : Vector Bool n)
    (queue : List (Fin n)) : Prop :=
  ∃ done, Closing next {entry} done queue ∧ ∀ v, reached[v] = true ↔ v ∈ done ∨ v ∈ queue

theorem Marked.iff_reachable (h : Marked next entry reached []) (v : Fin n) :
    reached[v] = true ↔ v ∈ reachable next {entry} := by
  obtain ⟨done, hclosing, hdone⟩ := h
  rw [hdone, ← hclosing.eq_reachable]
  exact or_iff_left List.not_mem_nil

/-- One round of the search. -/
theorem Marked.visit {entry block : Fin n} {queue found : List (Fin n)}
    {reached reached' : Vector Bool n} (h : Marked successors.next entry reached (block :: queue))
    (hmarked : ∀ v, reached'[v] = true ↔ reached[v] = true ∨ v ∈ found)
    (hfound : ∀ v ∈ found, v ∈ successors[block])
    (hnext : ∀ v ∈ successors[block], reached'[v] = true) :
    Marked successors.next entry reached' (queue ++ found) := by
  obtain ⟨done, hclosing, hdone⟩ := h
  have hmarked' (v : Fin n) : reached'[v] = true ↔ v ∈ insert block done ∨ v ∈ queue ++ found := by
    rw [hmarked, hdone, List.mem_cons, List.mem_append, Set.mem_insert_iff]
    tauto
  exact ⟨_, hclosing.visit hfound fun v hv ↦ (hmarked' v).1 (hnext v hv), hmarked'⟩

/-- **With a round for each block that is queued or not marked yet, the search is complete.** -/
theorem reachabilityRounds_iff {rounds : Nat} {queue : List (Fin n)}
    (h : Marked successors.next entry reached queue)
    (hrounds : queue.length + unmarked reached ≤ rounds) (v : Fin n) :
    (reachabilityRounds successors rounds reached queue)[v] = true ↔
      v ∈ reachable successors.next {entry} := by
  induction rounds generalizing reached queue with
  | zero =>
    obtain rfl : queue = [] := List.length_eq_zero_iff.1 (by omega)
    exact h.iff_reachable v
  | succ rounds ih =>
    cases queue with
    | nil => exact h.iff_reachable v
    | cons block queue =>
      obtain ⟨reached', found, hmark, hmarked, hfound, hnext, hcount⟩ :=
        markTargets_spec successors[block] reached queue
      rw [reachabilityRounds, hmark]
      refine ih (h.visit hmarked hfound hnext) ?_
      rw [List.length_append]
      rw [length_cons] at hrounds
      omega

theorem computeReachability_iff {entry v : Fin n} :
    (computeReachability entry successors)[v] = true ↔ v ∈ reachable successors.next {entry} := by
  have hempty (v : Fin n) : (replicate n false)[v] = false := Vector.getElem_replicate _
  have hmarked : Marked successors.next entry ((replicate n false).set entry true)
      [entry] := by
    refine ⟨∅, ?_, fun v ↦ ?_⟩
    · have hseeds : ({entry} : Set (Fin n)) = {v | v ∈ [entry]} := by
        ext v
        simp
      exact hseeds ▸ Closing.start
    · rw [getElem_set_true, hempty]
      simp
  refine reachabilityRounds_iff hmarked ?_ v
  have hcount := unmarked_set (hempty entry)
  have htotal : unmarked (replicate n false) ≤ n := by
    have := Finset.card_le_univ (Finset.univ.filter fun v : Fin n ↦
      (replicate n false)[v] = false)
    rwa [Fintype.card_fin] at this
  rw [List.length_singleton]
  omega

/-! ### The tables before the first round -/

theorem mem_set_append {α : Type} {table : Vector (List α) n} {target other : Fin n} {a b : α} :
    b ∈ (table.set target (table[target] ++ [a]))[other] ↔
      b ∈ table[other] ∨ other = target ∧ b = a := by
  rw [getElem_set_fin]
  split_ifs with h
  · subst h
    rw [List.mem_append, List.mem_singleton, and_iff_right rfl]
  · exact (or_iff_left fun heq ↦ h heq.1).symm

/-- The reachable predecessors. -/
theorem mem_predecessors {source target : Fin n} :
    source ∈ (predecessors successors reached)[target] ↔
      reached[source] = true ∧ reached[target] = true ∧ target ∈ successors[source] := by
  let Holds (table : Vector (List (Fin n)) n) (edge : Fin n × Fin n) : Prop :=
    edge.1 ∈ table[edge.2]
  have htarget (source : Fin n) (table : Vector (List (Fin n)) n) (target : Fin n)
      (edge : Fin n × Fin n) :
      Holds (if reached[target] then table.set target (table[target] ++ [source]) else table)
        edge ↔ Holds table edge ∨ reached[target] = true ∧ edge.2 = target ∧ edge.1 = source := by
    split_ifs with h
    · exact mem_set_append.trans (or_congr_right (and_iff_right h).symm)
    · exact (or_iff_left fun hedge ↦ h hedge.1).symm
  have hsource (table : Vector (List (Fin n)) n) (source : Fin n) (edge : Fin n × Fin n) :
      Holds (if reached[source] then successors[source].foldl (fun table target ↦
          if reached[target] then table.set target (table[target] ++ [source]) else table) table
        else table) edge ↔ Holds table edge ∨ reached[source] = true ∧ ∃ target ∈ successors[source],
          reached[target] = true ∧ edge.2 = target ∧ edge.1 = source := by
    split_ifs with h
    · refine (List.foldl_collects (htarget source) _ table edge).trans ?_
      exact or_congr_right (and_iff_right h).symm
    · exact (or_iff_left fun hedge ↦ h hedge.1).symm
  refine (List.foldl_collects hsource (finRange n) (replicate n [])
    (source, target)).trans ?_
  have hempty : ¬ Holds (replicate n []) (source, target) := by
    show source ∉ (replicate n [])[target.val]
    rw [Vector.getElem_replicate]
    exact List.not_mem_nil
  rw [or_iff_right hempty]
  constructor
  · rintro ⟨_, -, hsource, _, htarget, hreached, rfl, rfl⟩
    exact ⟨hsource, hreached, htarget⟩
  · rintro ⟨hsource, hreached, htarget⟩
    exact ⟨source, List.mem_finRange _, hsource, target, htarget, hreached, rfl, rfl⟩

theorem lt_wordCount (v : Fin n) : v.val / 64 < wordCount n := by
  have hv := v.isLt
  rw [wordCount]
  omega

theorem bitIsSet_reachableBits {i : Nat} :
    (reachableBits reached).bitIsSet i = true ↔ ∃ v : Fin n, v.val = i ∧ reached[v] = true := by
  have hfold := List.foldl_collects
    (P := fun (bits : WordSet (wordCount n)) (i : Nat) ↦ bits.bitIsSet i = true)
    (Q := fun (v : Fin n) i ↦ v.val = i ∧ reached[v] = true)
    (f := fun bits v ↦ if reached[v] then bits.setBit v else bits) (by
      intro bits v i
      split_ifs with h
      · rw [bitIsSet_setBit (lt_wordCount v), or_comm, and_iff_left h, eq_comm (a := i)]
      · exact (or_iff_left fun hv ↦ h hv.2).symm)
  refine (hfold (finRange n) (empty _) i).trans ?_
  simp

/-! ### The sets of a round -/

/-- The sets that the bits of a table stand for. -/
def Dominators.sets (dominators : Dominators n) (v : Fin n) : Set (Fin n) :=
  {d | dominators[v].bitIsSet d = true}

/-- No bit stands beside the blocks. -/
def Dominators.Tidy (dominators : Dominators n) : Prop :=
  ∀ (v : Fin n) (i : Nat), dominators[v].bitIsSet i = true → i < n

/-- Where the rounds stand: every dominator is held, and what a path of `k` edges avoids is not. -/
structure Narrowed (next : Fin n → Set (Fin n)) (entry : Fin n) (k : Nat)
    (dominators : Dominators n) : Prop where
  covers : Covers next entry dominators.sets
  excludes : Excludes next entry k dominators.sets
  tidy : dominators.Tidy
  unreached : ∀ v ∉ reachable next {entry}, dominators.sets v = ∅

theorem getElem_initialDominators (entry : Fin n) (reached : Vector Bool n) (v : Fin n) :
    (initialDominators entry reached)[v] =
      if v = entry then (empty _).setBit v
      else if reached[v] then reachableBits reached else empty _ :=
  Vector.getElem_ofFn _

theorem narrowed_initialDominators
    (hreached : ∀ v, reached[v] = true ↔ v ∈ reachable next {entry}) :
    Narrowed next entry 0 (initialDominators entry reached) where
  covers v hv d hd := by
    show (initialDominators entry reached)[v].bitIsSet d = true
    obtain ⟨path, hpath⟩ := exists_isPath hv
    rw [getElem_initialDominators]
    split_ifs with hentry hmark
    · obtain rfl : d = entry := List.mem_singleton.1 (hd _ (hentry ▸ .start))
      rw [bitIsSet_setBit (lt_wordCount v), hentry]
      exact .inl rfl
    · refine bitIsSet_reachableBits.2 ⟨d, rfl, (hreached d).2 ?_⟩
      exact hpath.subset_reachable (hd path hpath)
    · exact absurd ((hreached v).2 hv) hmark
  excludes d v hv hd := by
    obtain ⟨rfl, hne⟩ := hv
    have hbit : (initialDominators v reached)[v].bitIsSet d = true := hd
    rw [getElem_initialDominators, if_pos rfl, bitIsSet_setBit (lt_wordCount v)] at hbit
    obtain heq | hbit := hbit
    · exact hne (Fin.ext heq).symm
    · simp at hbit
  tidy v i hi := by
    rw [getElem_initialDominators] at hi
    split_ifs at hi
    · rw [bitIsSet_setBit (lt_wordCount v)] at hi
      obtain rfl | hi := hi
      · exact v.isLt
      · simp at hi
    · obtain ⟨u, rfl, -⟩ := bitIsSet_reachableBits.1 hi
      exact u.isLt
    · simp at hi
  unreached v hv := by
    have hentry : v ≠ entry := fun h ↦ hv (h ▸ isLeast_reachable.1.seeds_subset rfl)
    have hmark : ¬ reached[v] = true := fun h ↦ hv ((hreached v).1 h)
    ext d
    show (initialDominators entry reached)[v].bitIsSet d = true ↔ _
    rw [getElem_initialDominators, if_neg hentry, if_neg hmark]
    simp

/-! ### One round -/

/-- The computation charges work from `start` on, and comes to `b` within the limit. -/
abbrev Metered {β : Type} (work : β → Nat) (c : Nat → CfgResult ε β) (start : Nat) (b : β) : Prop :=
  Charged (.cfg .resourceLimit) work c start b

theorem metered_chargeWork (work amount : Nat) :
    Metered id (fun limit ↦ (chargeWork limit work amount : CfgResult ε Nat)) work
      (work + amount) where
  le := Nat.le_add_right _ _
  eq limit _ := by
    rw [chargeWork, id, cfgRejectIf, Except.rejectIf]
    split_ifs with h h' h'
    · exact absurd h' (Nat.not_le.2 h)
    · rfl
    · rfl
    · exact absurd (Nat.not_lt.1 h) h'

/-- The bits of a block by those of its predecessors. -/
def nextBits (dominators : Dominators n) (first : Fin n) (rest : List (Fin n)) (block : Fin n) :
    WordSet (wordCount n) :=
  (rest.foldl (fun next predecessor ↦ inter next dominators[predecessor])
    dominators[first]).setBit block

/-- What a visit to a block comes to. -/
def DominatorRound.visited (entry : Fin n) (reached : Vector Bool n)
    (predecessors : Vector (List (Fin n)) n) (round : DominatorRound n) (block : Fin n) :
    DominatorRound n :=
  if block = entry ∨ reached[block] = false then round
  else
    match predecessors[block] with
    | [] => round
    | first :: rest =>
      { dominators := round.dominators.set block (nextBits round.dominators first rest block)
        work := round.work + (rest.length + 2) * wordCount n
        changed := round.changed ||
          nextBits round.dominators first rest block != round.dominators[block] }

variable {successors : Successors n} {entry : Fin n} {reached : Vector Bool n}

/-- The sets of the predecessors one after the other, and the work of taking them. -/
def meetStep (dominators : Dominators n) (state : WordSet (wordCount n) × Nat)
    (predecessor : Fin n) : WordSet (wordCount n) × Nat :=
  (inter state.1 dominators[predecessor], state.2 + wordCount n)

theorem foldl_meetStep (dominators : Dominators n) (rest : List (Fin n))
    (state : WordSet (wordCount n) × Nat) : rest.foldl (meetStep dominators) state =
      (rest.foldl (fun next predecessor ↦ inter next dominators[predecessor]) state.1,
        state.2 + rest.length * wordCount n) := by
  induction rest generalizing state with
  | nil => simp
  | cons predecessor rest ih =>
    rw [foldl_cons, ih, foldl_cons, length_cons, Nat.succ_mul]
    refine Prod.ext rfl ?_
    show state.2 + wordCount n + _ = _
    omega

/-- Where a set stays as it is, putting it back changes nothing. -/
theorem ite_set_eq (round : DominatorRound n) (block : Fin n) (next : WordSet (wordCount n))
    (work : Nat) : (if next ≠ round.dominators[block] then
        pure { dominators := round.dominators.set block next, work, changed := true }
      else pure { round with work } : CfgResult ε (DominatorRound n)) =
      .ok { dominators := round.dominators.set block next, work,
            changed := round.changed || next != round.dominators[block] } := by
  split_ifs with h
  · have hbne : (next != round.dominators[block]) = true := bne_iff_ne.2 h
    rw [hbne, Bool.or_true]
    rfl
  · obtain rfl := not_not.1 h
    have hset : round.dominators.set block round.dominators[block] = round.dominators :=
      Vector.set_getElem_self _
    rw [hset, bne_self_eq_false, Bool.or_false]
    rfl

theorem metered_visitBlock {round : DominatorRound n}
    {block : Fin n} (h : block ≠ entry → reached[block] = true → table[block] ≠ []) :
    Metered (ε := ε) work
      (fun limit ↦ visitBlock limit entry reached table round block) round.work
      (round.visited entry reached table block) := by
  unfold visitBlock DominatorRound.visited
  split_ifs with hskip
  · exact .pure work round
  · obtain ⟨hentry, hmark⟩ := not_or.1 hskip
    cases hpreds : table[block] with
    | nil => exact absurd hpreds (h hentry (Bool.not_eq_false _ ▸ hmark))
    | cons first rest =>
      have hmeet (state : WordSet (wordCount n) × Nat) (predecessor : Fin n) :
          Metered (ε := ε) Prod.snd (fun limit ↦ do
            let work ← chargeWork limit state.2 (wordCount n)
            return (inter state.1 round.dominators[predecessor], work)) state.2
            (meetStep round.dominators state predecessor) :=
        (metered_chargeWork _ _).bind (.pure Prod.snd _)
      refine (metered_chargeWork _ _).bind
        ((Charged.foldlM (fun state predecessor _ ↦ hmeet state predecessor) _).bind ?_)
      rw [foldl_meetStep]
      refine (metered_chargeWork _ _).bind ?_
      simp only [ite_set_eq, id]
      have hwork : round.work + wordCount n + rest.length * wordCount n + wordCount n =
          round.work + (rest.length + 2) * wordCount n := by
        rw [Nat.add_mul]
        omega
      rw [hwork]
      exact .pure work _

theorem bitIsSet_foldl_inter (dominators : Dominators n) (rest : List (Fin n))
    (bits : WordSet (wordCount n)) (i : Nat) :
    (rest.foldl (fun next predecessor ↦ inter next dominators[predecessor]) bits).bitIsSet
      i = true ↔ bits.bitIsSet i = true ∧ ∀ p ∈ rest, dominators[p].bitIsSet i = true := by
  induction rest generalizing bits with
  | nil => simp
  | cons p rest ih =>
    rw [foldl_cons, ih, WordSet.bitIsSet_inter, Bool.and_eq_true, List.forall_mem_cons, and_assoc]

/-- What a visit does to the bits. -/
theorem bitIsSet_visited {round : DominatorRound n}
    {block : Fin n} (h : table[block] ≠ []) (hentry : block ≠ entry) (hmark : reached[block] = true)
    (v : Fin n) (i : Nat) :
    (round.visited entry reached table block).dominators[v].bitIsSet i = true ↔
      if v = block then i = block ∨ ∀ p ∈ table[block], round.dominators[p].bitIsSet i = true
      else round.dominators[v].bitIsSet i = true := by
  have hskip : ¬ (block = entry ∨ reached[block] = false) := by simp [hentry, hmark]
  rw [DominatorRound.visited, if_neg hskip]
  cases hpreds : table[block] with
  | nil => exact absurd hpreds h
  | cons first rest =>
    show (round.dominators.set block _)[v].bitIsSet i = true ↔ _
    rw [getElem_set_fin]
    split_ifs with hv
    · rw [nextBits, bitIsSet_setBit (lt_wordCount block), bitIsSet_foldl_inter,
        List.forall_mem_cons]
    · rfl

theorem changed_visited (table : Vector (List (Fin n)) n) (round : DominatorRound n)
    (block : Fin n) : (round.visited entry reached table block).changed = true ↔
      round.changed = true ∨
        (round.visited entry reached table block).dominators ≠ round.dominators := by
  unfold DominatorRound.visited
  split_ifs with hskip
  · simp
  · cases table[block] with
    | nil => simp
    | cons first rest =>
      show (round.changed || nextBits round.dominators first rest block !=
        round.dominators[block]) = true ↔ round.changed = true ∨
          round.dominators.set block (nextBits round.dominators first rest block) ≠ round.dominators
      rw [Bool.or_eq_true, bne_iff_ne]
      refine or_congr_right (not_congr ⟨fun h ↦ ?_, fun h ↦ ?_⟩)
      · rw [h]
        exact Vector.set_getElem_self _
      · exact (getElem_set_fin.trans (if_pos rfl)).symm.trans (congrArg (·[block]) h)

/-- The graph of a run: what is marked is what is reached, and the table holds the predecessors. -/
structure Searched (successors : Successors n) (entry : Fin n) (reached : Vector Bool n)
    (table : Vector (List (Fin n)) n) : Prop where
  reached_iff : ∀ v, reached[v] = true ↔ v ∈ reachable successors.next {entry}
  mem_table : ∀ p v, v ∈ reachable successors.next {entry} →
    (p ∈ table[v] ↔ p ∈ reachable successors.next {entry} ∧ v ∈ successors.next p)

theorem searched (entry : Fin n) (successors : Successors n) :
    Searched successors entry (computeReachability entry successors)
      (predecessors successors (computeReachability entry successors)) where
  reached_iff _ := computeReachability_iff
  mem_table p v hv := by
    rw [mem_predecessors, computeReachability_iff, computeReachability_iff, and_iff_right hv]
    rfl

namespace Searched

variable {table : Vector (List (Fin n)) n} (h : Searched successors entry reached table)

include h

/-- A reachable block besides the entry has a reachable predecessor. -/
theorem table_ne_nil {block : Fin n} (hentry : block ≠ entry) (hmark : reached[block] = true) :
    table[block] ≠ [] := by
  have hreach := (h.reached_iff block).1 hmark
  obtain ⟨path, hpath⟩ := exists_isPath hreach
  cases hpath with
  | start => exact absurd rfl hentry
  | step hp hv => exact List.ne_nil_of_mem ((h.mem_table _ _ hreach).2 ⟨hp.mem_reachable, hv⟩)

/-- **A visit evaluates the equation of the block.** -/
theorem sets_visited (round : DominatorRound n) (block : Fin n) :
    (round.visited entry reached table block).dominators.sets =
      refineAt successors.next entry round.dominators.sets block := by
  by_cases hskip : block = entry ∨ reached[block] = false
  · rw [refineAt_of_skip, DominatorRound.visited, if_pos hskip]
    rintro ⟨hreach, hentry⟩
    obtain hmark | hmark := hskip
    · exact hentry hmark
    · rw [(h.reached_iff block).2 hreach] at hmark
      cases hmark
  · obtain ⟨hentry, hmark⟩ := not_or.1 hskip
    rw [Bool.not_eq_false] at hmark
    have hreach := (h.reached_iff block).1 hmark
    funext v
    ext d
    show (round.visited entry reached table block).dominators[v].bitIsSet d = true ↔ _
    rw [bitIsSet_visited (h.table_ne_nil hentry hmark) hentry hmark]
    split_ifs with hv
    · subst hv
      rw [refineAt_self hreach hentry]
      refine or_congr Fin.ext_iff.symm (forall_congr' fun p ↦ ?_)
      rw [h.mem_table p v hreach, and_imp]
      rfl
    · rw [refineAt_of_ne hv]
      rfl

theorem tidy_visited {round : DominatorRound n} (htidy : round.dominators.Tidy) (block : Fin n) :
    (round.visited entry reached table block).dominators.Tidy := by
  by_cases hskip : block = entry ∨ reached[block] = false
  · rwa [DominatorRound.visited, if_pos hskip]
  · obtain ⟨hentry, hmark⟩ := not_or.1 hskip
    rw [Bool.not_eq_false] at hmark
    have hne := h.table_ne_nil hentry hmark
    intro v i hi
    rw [bitIsSet_visited hne hentry hmark] at hi
    split_ifs at hi
    · obtain rfl | hi := hi
      · exact block.isLt
      · obtain ⟨p, hp⟩ := List.exists_mem_of_ne_nil _ hne
        exact htidy p i (hi p hp)
    · exact htidy v i hi

end Searched

/-- Tables without stray bits that stand for the same sets are the same. -/
theorem Dominators.Tidy.eq_of_sets {dominators dominators' : Dominators n} (h : dominators.Tidy)
    (h' : dominators'.Tidy) (hsets : dominators.sets = dominators'.sets) :
    dominators = dominators' := by
  refine ext fun v hv ↦ WordSet.ext_bits fun i ↦ Bool.eq_iff_iff.2 ?_
  by_cases hi : i < n
  · exact Set.ext_iff.1 (congrFun hsets ⟨v, hv⟩) ⟨i, hi⟩
  · exact iff_of_false (fun hbit ↦ hi (h ⟨v, hv⟩ i hbit)) fun hbit ↦ hi (h' ⟨v, hv⟩ i hbit)

/-! ### The rounds -/

/-- What a round comes to. -/
def DominatorRound.swept (entry : Fin n) (reached : Vector Bool n) (table : Vector (List (Fin n)) n)
    (round : DominatorRound n) : DominatorRound n :=
  (finRange n).foldl (visited entry reached table) round

namespace Searched

variable {table : Vector (List (Fin n)) n} (h : Searched successors entry reached table)

include h

theorem metered_round (round : DominatorRound n) : Metered (ε := ε) work
      (fun limit ↦ (finRange n).foldlM (visitBlock limit entry reached table) round)
      round.work (round.swept entry reached table) :=
  Charged.foldlM (fun _ _ _ ↦ metered_visitBlock h.table_ne_nil) round

/-- **A round is a sweep.** -/
theorem sets_swept (round : DominatorRound n) : (round.swept entry reached table).dominators.sets =
      sweep successors.next entry (finRange n) round.dominators.sets := by
  unfold DominatorRound.swept
  generalize finRange n = order
  induction order generalizing round with
  | nil => rfl
  | cons block order ih => rw [foldl_cons, ih, h.sets_visited, sweep, sweep, foldl_cons]

theorem tidy_swept {round : DominatorRound n} (htidy : round.dominators.Tidy) :
    (round.swept entry reached table).dominators.Tidy := by
  unfold DominatorRound.swept
  generalize finRange n = order
  induction order generalizing round with
  | nil => exact htidy
  | cons block order ih => exact ih (h.tidy_visited htidy block)

omit h in
/-- A round that reports no change has made none. -/
theorem swept_of_unchanged {round : DominatorRound n}
    (hchanged : (round.swept entry reached table).changed = false) :
    round.changed = false ∧ (round.swept entry reached table).dominators = round.dominators := by
  unfold DominatorRound.swept at hchanged ⊢
  generalize finRange n = order at hchanged ⊢
  induction order generalizing round with
  | nil => exact ⟨hchanged, rfl⟩
  | cons block order ih =>
    obtain ⟨hvisited, hrest⟩ := ih hchanged
    rw [← Bool.not_eq_true, changed_visited, not_or, not_not, Bool.not_eq_true] at hvisited
    exact ⟨hvisited.1, hrest.trans hvisited.2⟩

/-- A round that finds every equation to hold reports no change. -/
theorem swept_of_exact (round : DominatorRound n) (htidy : round.dominators.Tidy)
    (hexact : ∀ v, refineAt successors.next entry round.dominators.sets v = round.dominators.sets)
    (hchanged : round.changed = false) : (round.swept entry reached table).changed = false := by
  unfold DominatorRound.swept
  generalize finRange n = order
  induction order generalizing round with
  | nil => exact hchanged
  | cons block order ih =>
    have hsame : (round.visited entry reached table block).dominators = round.dominators :=
      (h.tidy_visited htidy block).eq_of_sets htidy ((h.sets_visited round block).trans
        (hexact block))
    refine ih _ (hsame ▸ htidy) (hsame ▸ hexact) ?_
    rw [← Bool.not_eq_true, changed_visited, not_or, not_not, Bool.not_eq_true]
    exact ⟨hchanged, hsame⟩

/-- **A round lengthens the paths that the sets exclude by one.** -/
theorem narrowed_swept {k : Nat} (round : DominatorRound n)
    (hnarrowed : Narrowed successors.next entry k round.dominators) :
    Narrowed successors.next entry (k + 1) (round.swept entry reached table).dominators where
  covers := h.sets_swept round ▸ hnarrowed.covers.sweep _
  excludes := h.sets_swept round ▸ hnarrowed.excludes.sweep List.mem_finRange
  tidy := h.tidy_swept hnarrowed.tidy
  unreached v hv := by
    rw [h.sets_swept, sweep_of_not_mem_reachable hv]
    exact hnarrowed.unreached v hv

/-- **The rounds end before they run out**, at the work that they take. -/
theorem exists_metered_rounds {rounds k : Nat} {dominators : Dominators n} (work : Nat)
    (hnarrowed : Narrowed successors.next entry k dominators) (hk : k ≤ n - 1)
    (hrounds : n - 1 < k + rounds) : ∃ result : Dominators n × Nat, Metered (ε := ε) Prod.snd
      (fun limit ↦ dominatorRounds limit entry reached table rounds dominators work) work
      result := by
  induction rounds generalizing k dominators work with
  | zero => omega
  | succ rounds ih =>
    let round : DominatorRound n := { dominators, work, changed := false }
    have hround := h.metered_round (ε := ε) round
    cases hchanged : (round.swept entry reached table).changed with
    | true =>
      have hlt : k < n - 1 := by
        by_contra hle
        have hfull : Excludes successors.next entry (Nat.card (Fin n) - 1) dominators.sets := by
          rw [Nat.card_fin, ← Nat.le_antisymm hk (Nat.not_lt.1 hle)]
          exact hnarrowed.excludes
        have hsame := h.swept_of_exact round hnarrowed.tidy
          (refineAt_eq_self hnarrowed.covers hfull) rfl
        rw [hchanged] at hsame
        cases hsame
      obtain ⟨result, hresult⟩ := ih (round.swept entry reached table).work
        (h.narrowed_swept round hnarrowed) hlt (by omega)
      refine ⟨result, hround.bind ?_⟩
      simpa only [hchanged, if_true] using hresult
    | false =>
      let result := ((round.swept entry reached table).dominators,
        (round.swept entry reached table).work)
      have hresult : Metered (ε := ε) Prod.snd (fun _ ↦ .ok result) result.2 result :=
        .pure Prod.snd result
      refine ⟨result, hround.bind ?_⟩
      simp only [hchanged, Bool.false_eq_true, if_false]
      exact hresult

/-- **Where the rounds end, the sets are exact.** -/
theorem sets_of_dominatorRounds {limit rounds work : Nat} {dominators : Dominators n}
    {result : Dominators n × Nat} (hwork : work ≤ limit)
    (hnarrowed : Narrowed successors.next entry 0 dominators)
    (hrun : dominatorRounds (ε := ε) limit entry reached table rounds dominators work = .ok result) :
    Narrowed successors.next entry 0 result.1 ∧
      sweep successors.next entry (finRange n) result.1.sets = result.1.sets := by
  induction rounds generalizing dominators work with
  | zero => cases hrun
  | succ rounds ih =>
    let round : DominatorRound n := { dominators, work, changed := false }
    rw [dominatorRounds, (h.metered_round (ε := ε) round).eq limit hwork] at hrun
    split_ifs at hrun with hlimit
    · rw [Except.ok_bind] at hrun
      have hswept := h.narrowed_swept round hnarrowed
      cases hchanged : (round.swept entry reached table).changed with
      | true =>
        rw [hchanged, if_pos rfl] at hrun
        exact ih hlimit ⟨hswept.covers, fun d v hv ↦ hswept.excludes d v (.inl hv), hswept.tidy,
          hswept.unreached⟩ hrun
      | false =>
        rw [hchanged, if_neg nofun] at hrun
        obtain rfl := Except.pure_eq_ok.1 hrun
        have hsame := (swept_of_unchanged hchanged).2
        have hsweep := h.sets_swept round
        rw [hsame] at hsweep ⊢
        exact ⟨hnarrowed, hsweep.symm⟩
    · cases hrun

end Searched

/-! ### The result -/

/-- **Where `compute_dominators` returns, the bits of a reachable block are exactly its dominators**,
and the other blocks have none. -/
theorem sets_of_computeDominators {limit work : Nat} {dominators : Dominators n}
    (h : computeDominatorsWithin (ε := ε) limit entry successors
      (computeReachability entry successors) = .ok (dominators, work)) (v d : Fin n) :
    d ∈ dominators.sets v ↔
      v ∈ reachable successors.next {entry} ∧ Dominates successors.next entry d v := by
  have hsearched := searched entry successors
  obtain ⟨hnarrowed, hsweep⟩ := hsearched.sets_of_dominatorRounds limit.zero_le
    (narrowed_initialDominators hsearched.reached_iff) h
  by_cases hv : v ∈ reachable successors.next {entry}
  · rw [and_iff_right hv]
    exact dominates_iff_mem_of_sweep List.mem_finRange hnarrowed.covers hnarrowed.excludes hsweep hv
  · rw [hnarrowed.unreached v hv]
    exact iff_of_false id fun h ↦ hv h.1

/-- **Within the limit on blocks only the limit on work stops `compute_dominators`.** -/
theorem exists_computeDominatorsWithin_eq (hblocks : n ≤ maxCfgBlocks) (entry : Fin n)
    (successors : Successors n) : ∃ (dominators : Dominators n) (work : Nat), ∀ limit,
      computeDominatorsWithin (ε := ε) limit entry successors
        (computeReachability entry successors) =
          if work ≤ limit then .ok (dominators, work) else cfgFail .resourceLimit := by
  have hsearched := searched entry successors
  have hn := entry.isLt
  obtain ⟨⟨dominators, work⟩, hmetered⟩ : ∃ result : Dominators n × Nat, Metered (ε := ε) Prod.snd
      (fun limit ↦ computeDominatorsWithin limit entry successors
        (computeReachability entry successors)) 0 result :=
    hsearched.exists_metered_rounds 0 (narrowed_initialDominators hsearched.reached_iff)
      (Nat.zero_le _) (by omega)
  exact ⟨dominators, work, fun limit ↦ hmetered.eq limit limit.zero_le⟩

end Sley.Check

/-!
# The scope of a value

What `resolve_value` accepts against the paths of the function, block by block. **A result of an
operation can be used later in its block, and in the reachable blocks that every path from the entry
leads to through its block** (`resolveValue_operationResult_iff`). In a block that no path leads to,
no value of another block can be used, although each of them is on every path there.
-/

namespace Sley.Check

open Ssmc
open Except hiding ok error
open Id (splat)

variable {ε : Type}

/-! ### The tables of the index -/

/-- An identity is found at its place. -/
theorem getElem?_indexDeclaredIds {values : List EntityId} {indices : EntityMap (Fin values.length)}
    (h : indexDeclaredIds (ε := ε) values = .ok indices) (id : EntityId)
    (index : Fin values.length) : indices[id]? = some index ↔ values[index] = id := by
  have hstep (indices : EntityMap (Fin values.length)) (i : Fin values.length)
      (indices' : EntityMap (Fin values.length))
      (h : (do
        cfgRejectIf (values[i] ∈ indices) .graphDuplicateEntity
        return indices.insert values[i] i : CfgResult ε (EntityMap (Fin values.length))) =
          .ok indices') (entry : EntityId × Fin values.length) :
      indices'[entry.1]? = some entry.2 ↔
        indices[entry.1]? = some entry.2 ∨ entry.2 = i ∧ values[i] = entry.1 := by
    simp only [cfgRejectIf, bind_eq_ok, rejectIf_eq_ok, exists_const, pure_eq_ok] at h
    obtain ⟨hnew, rfl⟩ := h
    rw [EntityMap.getElem?_insert_eq]
    split_ifs with hid
    · have hnone : indices[entry.1]? = none := by
        rw [hid]
        exact EntityMap.not_mem_iff.1 hnew
      rw [hnone, and_iff_left hid.symm]
      simp [eq_comm]
    · exact (or_iff_left fun h ↦ hid h.2.symm).symm
  refine (foldlM_collects hstep h (id, index)).trans ?_
  simp

/-- The edges of the function, block by block. -/
def GraphIndex.next (index : GraphIndex) (block : EntityId) : Set EntityId :=
  {target | ∃ body, index.blocks[block]? = some body ∧ target ∈ body.terminator.targets}

/-- The successors of a block are the places of its targets. -/
theorem mem_buildSuccessors {function : FunctionGraph} {blocks : EntityMap Block}
    {indices : EntityMap (Fin function.blocks.length)}
    {successors : Successors function.blocks.length} {edges : Nat}
    (h : buildSuccessors (ε := ε) function blocks indices = .ok (successors, edges))
    (source target : Fin function.blocks.length) :
    target ∈ successors[source] ↔ ∃ id ∈ function.blocks, indices[id]? = some source ∧
      ∃ block, blocks[id]? = some block ∧
        ∃ name ∈ block.terminator.targets, indices[name]? = some target := by
  have hstep (state : Successors function.blocks.length × Nat) (id : EntityId)
      (state' : Successors function.blocks.length × Nat)
      (h : addSuccessors (ε := ε) blocks indices state id = .ok state')
      (edge : Fin function.blocks.length × Fin function.blocks.length) :
      edge.2 ∈ state'.1[edge.1] ↔ edge.2 ∈ state.1[edge.1] ∨ indices[id]? = some edge.1 ∧
        ∃ block, blocks[id]? = some block ∧
          ∃ name ∈ block.terminator.targets, indices[name]? = some edge.2 := by
    simp only [addSuccessors, indexed, lookup, cfgRejectIf, bind_eq_ok,
      ofOption_eq_ok, rejectIf_eq_ok, exists_const, pure_eq_ok] at h
    obtain ⟨source, hsource, block, hblock, -, targets, htargets, rfl⟩ := h
    have htarget (i : Fin function.blocks.length) : i ∈ targets ↔
        ∃ name ∈ block.terminator.targets, indices[name]? = some i := by
      rw [mem_iff_of_mapM_eq_ok htargets]
      simp only [lookup, ofOption_eq_ok]
    rw [hsource, hblock]
    show edge.2 ∈ (state.1.set source (state.1[source] ++ targets))[edge.1] ↔ _
    rw [getElem_set_fin]
    split_ifs with h
    · simp [h, htarget]
    · simp [Ne.symm h]
  simp only [buildSuccessors, cfgRejectIf, bind_eq_ok, rejectIf_eq_ok, exists_const] at h
  obtain ⟨_, -, -, hfold⟩ := h
  refine (foldlM_collects hstep hfold (source, target)).trans (or_iff_right ?_)
  show target ∉ (Vector.replicate _ [])[source.val]
  rw [Vector.getElem_replicate]
  exact List.not_mem_nil

/-- Every target of a block is a block. -/
theorem exists_place_of_buildSuccessors {function : FunctionGraph} {blocks : EntityMap Block}
    {indices : EntityMap (Fin function.blocks.length)}
    {result : Successors function.blocks.length × Nat}
    (h : buildSuccessors (ε := ε) function blocks indices = .ok result) {id name : EntityId}
    (hid : id ∈ function.blocks) {block : Block} (hblock : blocks[id]? = some block)
    (hname : name ∈ block.terminator.targets) : ∃ target, indices[name]? = some target := by
  simp only [buildSuccessors, cfgRejectIf, bind_eq_ok, rejectIf_eq_ok, exists_const] at h
  obtain ⟨_, -, -, hfold⟩ := h
  obtain ⟨_, _, hadd⟩ := exists_of_foldlM_eq_ok hfold hid
  simp only [addSuccessors, indexed, lookup, bind_eq_ok, ofOption_eq_ok] at hadd
  obtain ⟨_, -, body, hbody, _, -, targets, htargets, -⟩ := hadd
  obtain rfl : block = body := Option.some.inj (hblock.symm.trans hbody)
  obtain ⟨target, htarget⟩ := exists_of_mapM_eq_ok htargets hname
  exact ⟨target, Except.ofOption_eq_ok.1 htarget⟩

/-! ### What was built -/

/-- The parts of an index that the scope of a value depends on. -/
structure IndexedGraph (ε : Type) (index : GraphIndex)
    (entry : Fin index.function.blocks.length)
    (successors : Successors index.function.blocks.length) : Prop where
  blocks_le : index.function.blocks.length ≤ maxCfgBlocks
  getElem_entry : index.function.blocks[entry] = index.function.entryBlock
  place (id : EntityId) (i : Fin index.function.blocks.length) :
    index.blockIndices[id]? = some i ↔ index.function.blocks[i] = id
  next (p v : Fin index.function.blocks.length) : v ∈ successors.next p ↔
    index.function.blocks[v] ∈ index.next index.function.blocks[p]
  placed (p : Fin index.function.blocks.length) (target : EntityId) :
    target ∈ index.next index.function.blocks[p] →
      ∃ v : Fin index.function.blocks.length, index.function.blocks[v] = target
  reachable_eq : index.reachable = computeReachability entry successors
  dominators_eq : computeDominators (ε := ε) entry successors index.reachable =
    .ok (index.dominators, index.dominatorWork)

theorem indexedGraph_of_build {types : TypeEnvironment ε} {function : FunctionGraph}
    {parameters : List Parameter} {blocks : List Block} {operations : List Operation}
    {index : GraphIndex}
    (h : GraphIndex.build types function parameters blocks operations = .ok index) :
    index.function = function ∧ ∃ entry successors, IndexedGraph ε index entry successors := by
  simp only [GraphIndex.build, bind_eq_ok, pure_eq_ok, Prod.exists] at h
  obtain ⟨_, hlimits, parameterCount, -, _, -, _, -, parameters', ids, -, blocks', ids', -,
    operations', _, -, blockIndices, hindices, _, -, entry, hentry, _, -, _, -, _, -, _, -, _, -,
    _, -, successors, edges, hsuccessors, _, -, dominators, work, hdominators, rfl⟩ := h
  have hplace := getElem?_indexDeclaredIds hindices
  refine ⟨rfl, entry, successors, ?_, ?_, hplace, fun p v ↦ ?_, fun p target htarget ↦ ?_, rfl,
    hdominators⟩
  · simp only [checkTopLevelLimits, cfgRejectIf, bind_eq_ok, rejectIf_eq_ok,
      not_or, Nat.not_lt] at hlimits
    obtain ⟨_, hlimits, -⟩ := hlimits
    exact hlimits.1
  · exact (hplace _ _).1 (Except.ofOption_eq_ok.1 hentry)
  · refine (mem_buildSuccessors hsuccessors p v).trans ?_
    constructor
    · rintro ⟨_, -, hp, block, hblock, _, hname, hv⟩
      obtain rfl := (hplace _ _).1 hp
      obtain rfl := (hplace _ _).1 hv
      exact ⟨block, hblock, hname⟩
    · rintro ⟨block, hblock, hname⟩
      exact ⟨_, List.getElem_mem _, (hplace _ _).2 rfl, block, hblock, _, hname, (hplace _ _).2 rfl⟩
  · obtain ⟨block, hblock, hname⟩ := htarget
    obtain ⟨v, hv⟩ := exists_place_of_buildSuccessors hsuccessors (List.getElem_mem _) hblock hname
    exact ⟨v, (hplace _ _).1 hv⟩

namespace IndexedGraph

variable {index : GraphIndex} {entry : Fin index.function.blocks.length}
  {successors : Successors index.function.blocks.length} (h : IndexedGraph ε index entry successors)

include h

theorem blocks_injective {i j : Fin index.function.blocks.length}
    (heq : index.function.blocks[i] = index.function.blocks[j]) : i = j :=
  Option.some.inj (((h.place _ i).2 rfl).symm.trans ((h.place _ j).2 heq.symm))

/-- A path of places is a path of blocks. -/
theorem isPath_map {v : Fin index.function.blocks.length}
    {path : List (Fin index.function.blocks.length)} (hpath : IsPath successors.next entry v path) :
    IsPath index.next index.function.entryBlock index.function.blocks[v]
      (path.map fun i ↦ index.function.blocks[i]) := by
  rw [← h.getElem_entry]
  exact hpath.map (fun i ↦ index.function.blocks[i]) fun p v ↦ (h.next p v).1

/-- A path of blocks is a path of places. -/
theorem exists_isPath_map {block : EntityId} {path : List EntityId}
    (hpath : IsPath index.next index.function.entryBlock block path) :
    ∃ v path', IsPath successors.next entry v path' ∧ index.function.blocks[v] = block ∧
      path'.map (fun i ↦ index.function.blocks[i]) = path := by
  rw [← h.getElem_entry] at hpath
  refine hpath.exists_map (fun i ↦ index.function.blocks[i]) fun p target htarget ↦ ?_
  obtain ⟨v, rfl⟩ := h.placed p target htarget
  exact ⟨v, (h.next p v).2 htarget, rfl⟩

theorem mem_reachable_iff (v : Fin index.function.blocks.length) :
    v ∈ reachable successors.next {entry} ↔
      index.function.blocks[v] ∈ reachable index.next {index.function.entryBlock} := by
  constructor
  · intro hv
    obtain ⟨path, hpath⟩ := exists_isPath hv
    exact (h.isPath_map hpath).mem_reachable
  · intro hv
    obtain ⟨path, hpath⟩ := exists_isPath hv
    obtain ⟨u, path', hpath', heq, -⟩ := h.exists_isPath_map hpath
    exact h.blocks_injective heq ▸ hpath'.mem_reachable

theorem getElem_reachable_iff (v : Fin index.function.blocks.length) : index.reachable[v] = true ↔
      index.function.blocks[v] ∈ reachable index.next {index.function.entryBlock} := by
  rw [h.reachable_eq, computeReachability_iff, h.mem_reachable_iff]

theorem dominates_iff (d v : Fin index.function.blocks.length) :
    Dominates successors.next entry d v ↔ Dominates index.next index.function.entryBlock
      index.function.blocks[d] index.function.blocks[v] := by
  constructor
  · intro hd path hpath
    obtain ⟨u, path', hpath', heq, rfl⟩ := h.exists_isPath_map hpath
    obtain rfl := h.blocks_injective heq
    exact List.mem_map_of_mem (hd path' hpath')
  · intro hd path hpath
    obtain ⟨u, hu, heq⟩ := List.mem_map.1 (hd _ (h.isPath_map hpath))
    exact h.blocks_injective heq ▸ hu

/-- **A bit of the table is set exactly if its block is on every path**, and the other is reached. -/
theorem bitIsSet_iff (d v : Fin index.function.blocks.length) :
    index.dominators[v].bitIsSet d = true ↔
      index.function.blocks[v] ∈ reachable index.next {index.function.entryBlock} ∧
        Dominates index.next index.function.entryBlock
          index.function.blocks[d] index.function.blocks[v] := by
  have hdominators := h.dominators_eq
  rw [h.reachable_eq] at hdominators
  rw [← h.mem_reachable_iff, ← h.dominates_iff]
  exact sets_of_computeDominators hdominators v d

end IndexedGraph

/-! ### Uses -/

/-- Where a result of an operation can be used: later in its block, or in the reachable blocks that
every path from the entry leads to through its block. -/
def InScope (index : GraphIndex) (operation : Operation) (useBlock : EntityId)
    (useOrdinal : Option UInt32) : Prop :=
  (operation.block = useBlock ∧ ∀ ordinal ∈ useOrdinal, operation.ordinal < ordinal) ∨
    (operation.block ≠ useBlock ∧
      useBlock ∈ reachable index.next {index.function.entryBlock} ∧
      ∀ path, IsPath index.next index.function.entryBlock useBlock path → operation.block ∈ path)

theorem IndexedGraph.resolveValue_iff {index : GraphIndex}
    {entry : Fin index.function.blocks.length}
    {successors : Successors index.function.blocks.length} (h : IndexedGraph ε index entry successors)
    {result : OperationResultRef} {operation : Operation} {resultType type : TypeExpr}
    {useBlock : EntityId} {useOrdinal : Option UInt32}
    (hoperation : index.operations[result.operation]? = some operation)
    (htype : operation.resultTypes[result.resultIndex.toNat]? = some resultType)
    (huse : useBlock ∈ index.function.blocks) :
    index.resolveValue (ε := ε) (.operationResult result) useBlock useOrdinal = .ok type ↔
      type = resultType ∧ InScope index operation useBlock useOrdinal := by
  obtain ⟨place, rfl⟩ : ∃ place : Fin index.function.blocks.length,
      index.function.blocks[place] = useBlock := by
    obtain ⟨place, hlt, rfl⟩ := List.getElem_of_mem huse
    exact ⟨⟨place, hlt⟩, rfl⟩
  have hplace : index.blockIndices[index.function.blocks[place]]? = some place :=
    (h.place _ _).2 rfl
  simp only [GraphIndex.resolveValue, indexed, lookup, hplace, hoperation, htype,
    bind_eq_ok, ofOption_eq_ok, Option.some.injEq, exists_eq_left', InScope]
  by_cases hblock : operation.block = index.function.blocks[place]
  · rw [if_pos hblock]
    simp only [cfgRejectIf, bind_eq_ok, rejectIf_eq_ok, exists_const, pure_eq_ok, hblock, ne_eq,
      not_true, false_and, or_false, true_and, not_exists, not_and, UInt32.not_le]
    rw [and_comm]
  · rw [if_neg hblock]
    simp only [cfgRejectIf, bind_eq_ok, rejectIf_eq_ok, exists_const,
      pure_eq_ok, ofOption_eq_ok, not_or, Bool.not_eq_false, h.getElem_reachable_iff,
      h.bitIsSet_iff, hblock, false_and, false_or, ne_eq, not_false_eq_true, true_and]
    constructor
    · rintro ⟨hreach, definition, hdefinition, ⟨-, -, hdominates⟩, rfl⟩
      rw [(h.place _ _).1 hdefinition] at hdominates
      exact ⟨rfl, hreach, hdominates⟩
    · rintro ⟨rfl, hreach, hdominates⟩
      obtain ⟨path, hpath⟩ := exists_isPath hreach
      obtain ⟨_, path', hpath', -, rfl⟩ := h.exists_isPath_map hpath
      obtain ⟨definition, hmem, hdefinition⟩ := List.mem_map.1 (hdominates _ hpath)
      refine ⟨hreach, definition, (h.place _ _).2 hdefinition, ⟨?_, hreach, ?_⟩, rfl⟩
      · exact (h.mem_reachable_iff _).1 (hpath'.subset_reachable hmem)
      · rw [hdefinition]
        exact hdominates

/-! ### Exactness -/

/-- **The sets are the dominators, a value is accepted in its scope, and the rounds suffice.** Where
`compute_dominators` returns, a reachable block has exactly the blocks on every path to it and the
others have none; a result of an operation is accepted later in its block and in the reachable
blocks that every path leads to through its block; and within the limit on blocks the rounds never
run out: only the limit on the work stops them. -/
theorem dominance_scoping (ε : Type) :
    (∀ (n : Nat) (entry : Fin n) (successors : Successors n) (dominators : Dominators n) (work : Nat),
      computeDominators (ε := ε) entry successors (computeReachability entry successors) =
        .ok (dominators, work) →
      ∀ v d : Fin n, dominators[v].bitIsSet d = true ↔ v ∈ reachable successors.next {entry} ∧
        ∀ path, IsPath successors.next entry v path → d ∈ path) ∧
    (∀ (types : TypeEnvironment ε) (function : FunctionGraph) (parameters : List Parameter)
      (blocks : List Block) (operations : List Operation) (index : GraphIndex),
      GraphIndex.build types function parameters blocks operations = .ok index →
      ∀ (result : OperationResultRef) (operation : Operation) (useBlock : EntityId)
        (useOrdinal : Option UInt32), index.operations[result.operation]? = some operation →
        result.resultIndex.toNat < operation.resultTypes.length → useBlock ∈ function.blocks →
        ((∃ type, index.resolveValue (ε := ε) (.operationResult result) useBlock useOrdinal =
          .ok type) ↔ InScope index operation useBlock useOrdinal)) ∧
    (∀ (n : Nat) (entry : Fin n) (successors : Successors n), n ≤ maxCfgBlocks →
      ∃ (dominators : Dominators n) (work : Nat), ∀ limit,
        computeDominatorsWithin (ε := ε) limit entry successors
          (computeReachability entry successors) =
            if work ≤ limit then .ok (dominators, work) else cfgFail .resourceLimit) := by
  refine ⟨fun n entry successors dominators work h ↦ sets_of_computeDominators h, ?_,
    fun n entry successors hn ↦ exists_computeDominatorsWithin_eq hn entry successors⟩
  intro types function parameters blocks operations index hbuild result operation useBlock
    useOrdinal hoperation hresult huse
  obtain ⟨rfl, entry, successors, hindexed⟩ := indexedGraph_of_build hbuild
  have htype := List.getElem?_eq_getElem hresult
  simp only [hindexed.resolveValue_iff hoperation htype huse, exists_eq_left]

/-! ### An unreachable block -/

namespace UnreachableUse

/-- A judgment that takes every type as well formed. -/
def types : TypeEnvironment Unit where
  definition _ := .error ()
  checkType _ _ := .ok ()
  persistable _ := .ok true
  instantiateInScope type _ _ := .ok type

/-- The entry block. -/
def entry : Block :=
  ⟨splat 2, splat 1, [], [splat 4], .return_ ⟨.operationResult ⟨splat 4, 0⟩⟩, .required⟩

/-- A block that nothing leads to, and whose operation uses a value of the entry block. -/
def other : Block :=
  ⟨splat 3, splat 1, [], [splat 5], .trap ⟨.unreachable, none⟩, .explicitlyUnreachable⟩

def definition : Operation :=
  ⟨splat 4, splat 2, 0, .optionNone, [], [.unit], .none⟩

def use : Operation :=
  ⟨splat 5, splat 3, 0, .boolNot, [.operationResult ⟨splat 4, 0⟩], [.unit], .none⟩

def function : FunctionGraph :=
  ⟨splat 1, [], [], .unit, [], splat 2, [splat 2, splat 3], []⟩

def built : CfgResult Unit GraphIndex :=
  GraphIndex.build types function [] [entry, other] [definition, use]

theorem isSome_built : built.toOption.isSome = true := by
  decide

def index : GraphIndex := built.toOption.get isSome_built

theorem built_eq : built = .ok index := by
  have hbuilt := isSome_built
  cases h : built with
  | error e =>
    rw [h] at hbuilt
    cases hbuilt
  | ok built =>
    have hindex : some index = some built := by
      rw [index, Option.some_get, h]
      rfl
    rw [Option.some.inj hindex]

/-- The value is not accepted. -/
theorem resolveValue_eq : (index.resolveValue (ε := Unit) (.operationResult ⟨splat 4, 0⟩)
    (splat 3) (some 0)).toOption = none := by
  decide

/-- Nothing leads to the block of the use. -/
theorem not_isPath {path : List EntityId} :
    ¬ IsPath index.next index.function.entryBlock (splat 3) path := by
  have htargets : (index.blocks[index.function.entryBlock]?.map (·.terminator.targets)) =
      some [] := by
    decide
  have hentry : index.function.entryBlock ≠ splat 3 := by decide
  have honly {block : EntityId} {path : List EntityId}
      (h : IsPath index.next index.function.entryBlock block path) :
      block = index.function.entryBlock := by
    induction h with
    | start => rfl
    | step _ htarget ih =>
      obtain ⟨body, hbody, hmem⟩ := htarget
      rw [ih] at hbody
      rw [hbody] at htargets
      have hnil : body.terminator.targets = [] := Option.some.inj htargets
      rw [hnil] at hmem
      exact (List.not_mem_nil hmem).elim
  exact fun h ↦ hentry (honly h).symm

end UnreachableUse

/-- The scope in the words of the paths alone is not what is accepted: no path leads to an
unreachable block, so every block is on every path there, and its values are refused. -/
theorem not_accepted_on_every_path :
    ¬ ∀ (types : TypeEnvironment Unit) (function : FunctionGraph) (parameters : List Parameter)
      (blocks : List Block) (operations : List Operation) (index : GraphIndex),
      GraphIndex.build types function parameters blocks operations = .ok index →
      ∀ (result : OperationResultRef) (operation : Operation) (useBlock : EntityId)
        (useOrdinal : UInt32), index.operations[result.operation]? = some operation →
        result.resultIndex.toNat < operation.resultTypes.length → useBlock ∈ function.blocks →
        ((∃ type, index.resolveValue (ε := Unit) (.operationResult result) useBlock
            (some useOrdinal) = .ok type) ↔
          (operation.block = useBlock ∧ operation.ordinal < useOrdinal) ∨
          (operation.block ≠ useBlock ∧
            ∀ path, IsPath index.next index.function.entryBlock useBlock path →
              operation.block ∈ path)) := by
  intro h
  have hoperation : (UnreachableUse.index.operations[(Id.splat 4 : EntityId)]?.map
      fun operation ↦ (operation.block, operation.resultTypes.length)) = some (Id.splat 2, 1) := by
    decide
  obtain ⟨operation, hlookup, heq⟩ := Option.map_eq_some_iff.1 hoperation
  obtain ⟨hblock, hresults⟩ := Prod.mk.inj heq
  have hne : operation.block ≠ Id.splat 3 := by
    rw [hblock]
    decide
  obtain ⟨type, htype⟩ := (h UnreachableUse.types UnreachableUse.function [] _ _
    UnreachableUse.index UnreachableUse.built_eq ⟨Id.splat 4, 0⟩ operation (Id.splat 3) 0 hlookup
    (hresults ▸ Nat.zero_lt_one) (by decide)).2
    (.inr ⟨hne, fun path hpath ↦ (UnreachableUse.not_isPath hpath).elim⟩)
  have hnone := UnreachableUse.resolveValue_eq
  rw [htype] at hnone
  cases hnone

/-- At a real graph: the value of the entry block is accepted by its own terminator. -/
theorem dominance_scoping_at_the_terminator :
    ∃ type, UnreachableUse.index.resolveValue (ε := Unit) (.operationResult ⟨Id.splat 4, 0⟩)
      (Id.splat 2) none = .ok type := by
  have hoperation : (UnreachableUse.index.operations[(Id.splat 4 : EntityId)]?.map
      fun operation ↦ (operation.block, operation.resultTypes.length)) = some (Id.splat 2, 1) := by
    decide
  obtain ⟨operation, hlookup, heq⟩ := Option.map_eq_some_iff.1 hoperation
  obtain ⟨hblock, hresults⟩ := Prod.mk.inj heq
  exact ((dominance_scoping Unit).2.1 UnreachableUse.types UnreachableUse.function [] _ _
    UnreachableUse.index UnreachableUse.built_eq ⟨Id.splat 4, 0⟩ operation (Id.splat 2) none hlookup
    (hresults ▸ Nat.zero_lt_one) (by decide)).2 (.inl ⟨hblock, nofun⟩)

end Sley.Check

/-!
# Validation of effect programs

`validate_effect_program` of `sley-check/src/effects.rs`: the inventory of a program, the graphs of
its functions, its effects, adapters and capability requirements, the operations that call and
request, and the closure of the effects along the calls. The checks are made in the order of the
source.

The closure is propagated in rounds, each from what the functions held before it, until a round
changes nothing or the functions are found to hold what their callees hold. **The limits on its work
and on its memberships are parameters** of `computeClosuresWithin`; those of the source are
`closureLimits`.
-/

namespace Sley.Check

open Ssmc

def maxEffectFunctions : Nat := 4096

def maxEffectDefinitions : Nat := 4096

def maxCapabilityRequirements : Nat := 4096

def maxAdapterImports : Nat := 4096

def maxEffectContracts : Nat := 65535

def maxEffectGraphEntities : Nat := 2000000

def maxEffectOperations : Nat := 1000000

def maxEffectCfgUses : Nat := 2000000

def maxEffectCfgEdges : Nat := 65535

def maxEffectDominatorWork : Nat := 50000000

def maxEffectCallEdges : Nat := 16384

def maxEffectSet : Nat := 4096

def maxAllowedScopes : Nat := 65535

def maxTotalAllowedScopes : Nat := 1000000

def maxConstraintContracts : Nat := 65535

def maxTotalConstraintContracts : Nat := 1000000

def maxEffectClosureMemberships : Nat := 1000000

def maxEffectClosureRounds : Nat := 4096

def maxEffectClosureWork : Nat := 50000000

/-- Stable effect-system failure. -/
inductive EffectErrorCode
  | unresolvedEntity
  | wrongEntityKind
  | setNotCanonical
  | closureMismatch
  | callType
  | requestType
  | adapterEffectCardinality
  | adapterEffectKind
  | adapterInvokeType
  | capabilityRequirementType
  | capabilityScopeConstType
  | capabilityScopeConstCanonical
  | constraintContractBoundary
  | resourceLimit
  deriving DecidableEq, Repr

/-- A failure of this phase, or the preserved failure of an earlier one. -/
inductive EffectValidationError (ε : Type)
  | type (error : ε)
  | cfg (error : CfgValidationError ε)
  | effect (code : EffectErrorCode)

abbrev EffectResult (ε α : Type) := Except (EffectValidationError ε) α

structure EffectDefinition where
  entityId : EntityId
  effectKind : EffectKind
  scopeType : TypeExpr
  requestType : TypeExpr
  responseType : TypeExpr
  failureType : TypeExpr

structure CapabilityRequirement where
  entityId : EntityId
  effect : EntityId
  allowedScopes : List ConstValue
  constraintContracts : List EntityId

structure AdapterImport where
  entityId : EntityId
  adapterId : Digest
  requestType : TypeExpr
  responseType : TypeExpr
  failureType : TypeExpr
  effects : List EntityId

/-- The judgments about types that the effect phase asks for besides those of the graph phase. -/
structure EffectTypes (ε : Type) extends TypeEnvironment ε where
  requirePersistable : TypeExpr → Except ε Unit
  checkConstant : ConstValue → Except ε Unit

/-- One complete function-owned validation unit. -/
structure FunctionUnit where
  function : FunctionGraph
  parameters : List Parameter
  blocks : List Block
  operations : List Operation

variable {ε : Type}

def effectRejectIf (c : Prop) [Decidable c] (code : EffectErrorCode) : EffectResult ε Unit :=
  Except.rejectIf c (.effect code)

def effectFail {α : Type} (code : EffectErrorCode) : EffectResult ε α := .error (.effect code)

/-- The question mark on a judgment about types. -/
def typeJudged {α : Type} (x : Except ε α) : EffectResult ε α := x.mapError .type

/-- The question mark on the validation of a graph. -/
def graphJudged {α : Type} (x : CfgResult ε α) : EffectResult ε α := x.mapError .cfg

/-! ### The index of a program -/

structure ProgramIndex where
  units : List FunctionUnit
  functions : EntityMap (Fin units.length)
  effects : EntityMap EffectDefinition
  requirements : EntityMap CapabilityRequirement
  adapters : EntityMap AdapterImport
  contracts : EntitySet
  allIds : EntitySet

/-- `ensure_sorted_by`: the identities ascend. -/
def ensureSorted (ids : List EntityId) : EffectResult ε Unit :=
  effectRejectIf (¬ ids.IsChain fun a b ↦ compare a b = .lt) .setNotCanonical

def insertGlobal (ids : EntitySet) (id : EntityId) : EffectResult ε EntitySet := do
  effectRejectIf (id ∈ ids) .setNotCanonical
  return ids.insert id

/-- The identities of one function and of what it owns. -/
def indexUnit (allIds : EntitySet) (unit : FunctionUnit) : EffectResult ε EntitySet := do
  let allIds ← insertGlobal allIds unit.function.entityId
  let allIds ← (unit.parameters.map (·.entityId)).foldlM insertGlobal allIds
  let allIds ← (unit.blocks.map (·.entityId)).foldlM insertGlobal allIds
  (unit.operations.map (·.entityId)).foldlM insertGlobal allIds

def indexEntities {α : Type} (id : α → EntityId) (values : List α) (allIds : EntitySet) :
    EffectResult ε (EntityMap α × EntitySet) :=
  values.foldlM (fun (result, allIds) value ↦ do
    let allIds ← insertGlobal allIds (id value)
    return (result.insert (id value) value, allIds)) (∅, allIds)

/-- The place of each function. -/
def functionPlaces (units : List FunctionUnit) : EntityMap (Fin units.length) :=
  .ofEntries ((List.finRange units.length).map fun place ↦
    (units[place].function.entityId, place))

/-- What the functions count together; a sum that overflowed would be over the limit too. -/
def checkGraphCounts (units : List FunctionUnit) : EffectResult ε Unit :=
  effectRejectIf
    (maxEffectGraphEntities <
        (units.map fun unit ↦
          1 + unit.parameters.length + unit.blocks.length + unit.operations.length).sum ∨
      maxEffectOperations < (units.map (·.operations.length)).sum ∨
      maxEffectCfgUses <
        (units.map fun unit ↦ (unit.blocks.map (terminatorUseCount ·.terminator)).sum +
          (unit.operations.map (·.operands.length)).sum).sum)
    .resourceLimit

def checkRequirementCounts (requirements : List CapabilityRequirement) : EffectResult ε Unit := do
  requirements.forM fun requirement ↦
    effectRejectIf (maxAllowedScopes < requirement.allowedScopes.length ∨
      maxConstraintContracts < requirement.constraintContracts.length) .resourceLimit
  effectRejectIf
    (maxTotalAllowedScopes < (requirements.map (·.allowedScopes.length)).sum ∨
      maxTotalConstraintContracts < (requirements.map (·.constraintContracts.length)).sum)
    .resourceLimit

def buildProgramIndex (units : List FunctionUnit) (effects : List EffectDefinition)
    (requirements : List CapabilityRequirement) (adapters : List AdapterImport)
    (knownContracts : List EntityId) : EffectResult ε ProgramIndex := do
  effectRejectIf (maxEffectFunctions < units.length ∨ maxEffectDefinitions < effects.length ∨
    maxCapabilityRequirements < requirements.length ∨ maxAdapterImports < adapters.length ∨
    maxEffectContracts < knownContracts.length) .resourceLimit
  ensureSorted (units.map (·.function.entityId))
  ensureSorted (effects.map (·.entityId))
  ensureSorted (requirements.map (·.entityId))
  ensureSorted (adapters.map (·.entityId))
  ensureSorted knownContracts
  let allIds ← units.foldlM indexUnit ∅
  checkGraphCounts units
  let (effects, allIds) ← indexEntities (·.entityId) effects allIds
  let (requirements, allIds) ← indexEntities (·.entityId) requirements allIds
  let (adapters, allIds) ← indexEntities (·.entityId) adapters allIds
  let allIds ← knownContracts.foldlM insertGlobal allIds
  checkRequirementCounts requirements.intoValues
  effectRejectIf (∃ unit ∈ units, maxEffectSet < unit.function.effects.length) .resourceLimit
  effectRejectIf (∃ adapter ∈ adapters.intoValues, maxEffectSet < adapter.effects.length)
    .resourceLimit
  return { units, functions := functionPlaces units, effects, requirements, adapters,
           contracts := EntitySet.ofIds knownContracts, allIds }

/-- `lookup`: an identity of another kind is told apart from an unknown one. -/
def lookupEntity {α : Type} (values : EntityMap α) (id : EntityId) (allIds : EntitySet) :
    EffectResult ε α :=
  match values[id]? with
  | some value => return value
  | none => effectFail (if id ∈ allIds then .wrongEntityKind else .unresolvedEntity)

/-! ### Effects, adapters and requirements -/

/-- The graphs of the functions, within the limits on what they come to together. -/
def validateGraphs (types : EffectTypes ε) (units : List FunctionUnit) : EffectResult ε Unit := do
  let _ ← units.foldlM (fun (total : Nat × Nat) unit ↦ do
    let report ← graphJudged (validateFunctionGraph types.toTypeEnvironment unit.function
      unit.parameters unit.blocks unit.operations)
    let total := (total.1 + report.edges, total.2 + report.dominatorWordOperations)
    effectRejectIf (maxEffectCfgEdges < total.1 ∨ maxEffectDominatorWork < total.2) .resourceLimit
    return total) (0, 0)

def EffectTypes.checkClosedType (types : EffectTypes ε) (value : TypeExpr) : EffectResult ε Unit :=
  typeJudged (types.checkType value 0)

def validateEffectDefinitions (types : EffectTypes ε) (index : ProgramIndex) :
    EffectResult ε Unit :=
  index.effects.intoValues.forM fun effect ↦ do
    types.checkClosedType effect.scopeType
    typeJudged (types.requirePersistable effect.scopeType)
    types.checkClosedType effect.requestType
    types.checkClosedType effect.responseType
    types.checkClosedType effect.failureType

def validateDeclaredEffectSets (index : ProgramIndex) : EffectResult ε Unit :=
  index.units.forM fun unit ↦ unit.function.effects.forM fun effect ↦ do
    discard (lookupEntity index.effects effect index.allIds)

/-- One native text entry. -/
inductive TextKind
  | length
  | slice
  | concat
  | scalars
  | ord
  | chr
  | fromInt
  deriving DecidableEq, Repr

/-- The bytes of an ASCII text. -/
def ascii (text : String) : Scb1.Bytes := text.toList.map Char.toUInt8

/-- Every text entry with its four-byte code, in table order. -/
def textEntries : List (TextKind × Scb1.Bytes) :=
  [(.length, ascii "TLN1"), (.slice, ascii "TSL1"), (.concat, ascii "TCT1"),
   (.scalars, ascii "TCS1"), (.ord, ascii "TOR1"), (.chr, ascii "TCH1"), (.fromInt, ascii "TFI1")]

def textIdentity (code : Scb1.Bytes) : Scb1.Bytes :=
  ascii "SLY1/BRIDGE/" ++ code ++ List.replicate 16 0

def textKind (adapterId : Digest) : Option TextKind :=
  (textEntries.find? fun entry ↦ textIdentity entry.2 == adapterId.bytes).map Prod.fst

/-- The scope, request and response types of a text entry. -/
def textRowTypes : TextKind → TypeExpr × TypeExpr × TypeExpr
  | .length => (.unit, .text, .uInt ⟨64⟩)
  | .slice => (.text, .tuple [.uInt ⟨64⟩, .uInt ⟨64⟩], .text)
  | .concat => (.unit, .vector .text, .text)
  | .scalars => (.unit, .text, .vector .text)
  | .ord => (.unit, .text, .uInt ⟨32⟩)
  | .chr => (.unit, .uInt ⟨32⟩, .text)
  | .fromInt => (.unit, .sInt ⟨64⟩, .text)

def octetVector : TypeExpr := .vector (.uInt ⟨8⟩)

/-- The failure type that every pure shape pins. -/
def pureIndexError : TypeExpr := .builtinFailure .index

/-- One of the two types is `Bytes` and the other the vector of octets. -/
def isConversion (request response : TypeExpr) : Bool :=
  (request = .bytes && response = octetVector) || (request = octetVector && response = .bytes)

def pureRowShapeOk (adapter : AdapterImport) : Bool :=
  adapter.failureType = pureIndexError &&
    match textKind adapter.adapterId with
    | some kind =>
      let (_, request, response) := textRowTypes kind
      adapter.requestType = request && adapter.responseType = response
    | none =>
      isConversion adapter.requestType adapter.responseType ||
        adapter.responseType = .vector adapter.requestType

def validateAdapters (types : EffectTypes ε) (index : ProgramIndex) : EffectResult ε Unit :=
  index.adapters.intoValues.forM fun adapter ↦ do
    ensureSorted adapter.effects
    match adapter.effects with
    | [] => return ()
    | [effect] => do
      let effect ← lookupEntity index.effects effect index.allIds
      effectRejectIf (effect.effectKind ≠ .adapterCall) .adapterEffectKind
    | _ => effectFail .adapterEffectCardinality
    types.checkClosedType adapter.requestType
    types.checkClosedType adapter.responseType
    types.checkClosedType adapter.failureType
    effectRejectIf (adapter.effects = [] ∧ !pureRowShapeOk adapter) .adapterInvokeType

def validateRequirements (types : EffectTypes ε) (index : ProgramIndex) : EffectResult ε Unit :=
  index.requirements.intoValues.forM fun requirement ↦ do
    let effect ← lookupEntity index.effects requirement.effect index.allIds
    ensureSorted requirement.constraintContracts
    effectRejectIf (∃ contract ∈ requirement.constraintContracts, contract ∉ index.contracts)
      .constraintContractBoundary
    let _ ← requirement.allowedScopes.foldlM (fun (previous : Option ConstValue) scope ↦ do
      typeJudged (types.checkConstant scope)
      effectRejectIf (scope.valueType ≠ effect.scopeType) .capabilityScopeConstType
      effectRejectIf (∃ value ∈ previous, compareConstValues value scope ≠ .lt)
        .capabilityScopeConstCanonical
      return some scope) none

/-! ### The operations -/

structure FunctionScan (n : Nat) where
  localEffects : EntitySet
  callees : Std.ExtTreeSet (Fin n)

/-- The values of a function by their identity. -/
structure UnitValues where
  parameters : EntityMap Parameter
  operations : EntityMap Operation

def FunctionUnit.values (unit : FunctionUnit) : UnitValues where
  parameters := .ofEntries (unit.parameters.map fun parameter ↦ (parameter.entityId, parameter))
  operations := .ofEntries (unit.operations.map fun operation ↦ (operation.entityId, operation))

def resolveValueType (values : UnitValues) : ValueRef → EffectResult ε TypeExpr
  | .parameter id => Except.ofOption (.effect .unresolvedEntity)
      (values.parameters[id]?.map (·.valueType))
  | .operationResult result => Except.ofOption (.effect .unresolvedEntity)
      (values.operations[result.operation]?.bind (·.resultTypes[result.resultIndex.toNat]?))

/-- The arguments of a call have the types of the callee's parameters, instantiated. -/
def checkCallArguments (types : EffectTypes ε) (values : UnitValues)
    (targetParameters : EntityMap Parameter) (typeArguments : List TypeExpr)
    (callerParameterCount : Nat) (arguments : List (ValueRef × EntityId)) : EffectResult ε Unit :=
  arguments.forM fun (operand, parameterId) ↦ do
    let expected ← Except.ofOption (.effect .unresolvedEntity) targetParameters[parameterId]?
    let expected ← typeJudged
      (types.instantiateInScope expected.valueType typeArguments callerParameterCount)
    let actual ← resolveValueType values operand
    effectRejectIf (actual ≠ expected) .callType

/-- `validate_call`: the place of the callee. -/
def validateCall (types : EffectTypes ε) (index : ProgramIndex) (callingUnit : FunctionUnit)
    (operation : Operation) : EffectResult ε (Fin index.units.length) :=
  match operation.immediate with
  | .function reference => do
    let callee ← lookupEntity index.functions reference.function index.allIds
    let target := index.units[callee]
    effectRejectIf (reference.typeArguments.length ≠ target.function.typeParameters.length ∨
      operation.operands.length ≠ target.function.parameters.length ∨
      operation.resultTypes.length ≠ 1) .callType
    let callerParameterCount := callingUnit.function.typeParameters.length
    effectRejectIf (2 ^ 32 ≤ callerParameterCount) .resourceLimit
    checkCallArguments types callingUnit.values target.values.parameters reference.typeArguments
      callerParameterCount (operation.operands.zip target.function.parameters)
    let result ← typeJudged (types.instantiateInScope target.function.resultType
      reference.typeArguments callerParameterCount)
    effectRejectIf (operation.resultTypes ≠ [result]) .callType
    return callee
  | _ => effectFail .callType

/-- The two operands and the one result type of an operation. -/
def requestShape (operation : Operation) (code : EffectErrorCode) :
    EffectResult ε (ValueRef × ValueRef × TypeExpr) :=
  match operation.operands, operation.resultTypes with
  | [scope, request], [result] => return (scope, request, result)
  | _, _ => effectFail code

/-- The operands and the result have these types; they are looked at from left to right. -/
def checkShape (values : UnitValues) (shape : ValueRef × ValueRef × TypeExpr)
    (scope request result : TypeExpr) (code : EffectErrorCode) : EffectResult ε Unit := do
  let actual ← resolveValueType values shape.1
  effectRejectIf (actual ≠ scope) code
  let actual ← resolveValueType values shape.2.1
  effectRejectIf (actual ≠ request) code
  effectRejectIf (shape.2.2 ≠ result) code

/-- `validate_request`: the effect that is requested. -/
def validateRequest (index : ProgramIndex) (values : UnitValues) (operation : Operation) :
    EffectResult ε EntityId :=
  match operation.immediate with
  | .entity effectId => do
    let effect ← lookupEntity index.effects effectId index.allIds
    let shape ← requestShape operation .requestType
    checkShape values shape effect.scopeType effect.requestType
      (.result effect.responseType effect.failureType) .requestType
    return effectId
  | _ => effectFail .requestType

/-- `validate_pure_invoke_shape`. -/
def validatePureInvokeShape (adapter : AdapterImport) (scope request result : TypeExpr) :
    EffectResult ε Unit := do
  effectRejectIf (adapter.failureType ≠ pureIndexError) .adapterInvokeType
  effectRejectIf (adapter.requestType ≠ request) .adapterInvokeType
  match textKind adapter.adapterId with
  | some kind =>
    let row := textRowTypes kind
    effectRejectIf (scope ≠ row.1 ∨ request ≠ row.2.1 ∨ adapter.responseType ≠ row.2.2 ∨
      result ≠ .result row.2.2 pureIndexError) .adapterInvokeType
  | none => do
    let conversions := scope = .unit ∧ isConversion request adapter.responseType
    let push := scope = .vector request ∧ adapter.responseType = scope
    effectRejectIf (¬ conversions ∧ ¬ push) .adapterInvokeType
    effectRejectIf (result ≠ .result adapter.responseType adapter.failureType) .adapterInvokeType

/-- `validate_adapter_invoke`: the effect of the adapter, which a pure one has none of. -/
def validateAdapterInvoke (index : ProgramIndex) (values : UnitValues) (operation : Operation) :
    EffectResult ε (Option EntityId) :=
  match operation.immediate with
  | .entity adapterId => do
    let adapter ← lookupEntity index.adapters adapterId index.allIds
    let shape ← requestShape operation .adapterInvokeType
    match adapter.effects with
    | [] => do
      let scope ← resolveValueType values shape.1
      let request ← resolveValueType values shape.2.1
      validatePureInvokeShape adapter scope request shape.2.2
      return none
    | [effect] => do
      let effect ← lookupEntity index.effects effect index.allIds
      checkShape values shape effect.scopeType adapter.requestType
        (.result adapter.responseType adapter.failureType) .adapterInvokeType
      return some effect.entityId
    | _ => effectFail .adapterInvokeType
  | _ => effectFail .adapterInvokeType

def validateCapabilityNarrow (index : ProgramIndex) (values : UnitValues)
    (operation : Operation) : EffectResult ε Unit :=
  match operation.immediate with
  | .entity requirementId => do
    let requirement ← lookupEntity index.requirements requirementId index.allIds
    let effect ← lookupEntity index.effects requirement.effect index.allIds
    let shape ← requestShape operation .capabilityRequirementType
    let token := TypeExpr.capabilityToken requirementId
    checkShape values shape token effect.scopeType (.result token (.builtinFailure .capability))
      .capabilityRequirementType
  | _ => effectFail .capabilityRequirementType

/-- What one operation adds to the scan of its function and to the number of calls. -/
def scanOperation (types : EffectTypes ε) (index : ProgramIndex) (unit : FunctionUnit)
    (state : FunctionScan index.units.length × Nat) (operation : Operation) :
    EffectResult ε (FunctionScan index.units.length × Nat) := do
  let (scan, callEdges) := state
  match operation.opcode with
  | .callDirect => do
    let callee ← validateCall types index unit operation
    effectRejectIf (maxEffectCallEdges < callEdges + 1) .resourceLimit
    return ({ scan with callees := scan.callees.insert callee }, callEdges + 1)
  | .effectRequest => do
    let effect ← validateRequest index unit.values operation
    return ({ scan with localEffects := scan.localEffects.insert effect }, callEdges)
  | .adapterInvoke => do
    match ← validateAdapterInvoke index unit.values operation with
    | some effect =>
      return ({ scan with localEffects := scan.localEffects.insert effect }, callEdges)
    | none => return (scan, callEdges)
  | .capabilityNarrow => do
    validateCapabilityNarrow index unit.values operation
    return (scan, callEdges)
  | _ => return (scan, callEdges)

/-- An operation that a block lists. -/
def scanListed (types : EffectTypes ε) (index : ProgramIndex) (unit : FunctionUnit)
    (state : FunctionScan index.units.length × Nat) (operationId : EntityId) :
    EffectResult ε (FunctionScan index.units.length × Nat) := do
  let operation ← Except.ofOption (.effect .unresolvedEntity) unit.values.operations[operationId]?
  scanOperation types index unit state operation

def FunctionUnit.blockTable (unit : FunctionUnit) : EntityMap Block :=
  .ofEntries (unit.blocks.map fun block ↦ (block.entityId, block))

/-- A block that the function lists, operation by operation. -/
def scanBlock (types : EffectTypes ε) (index : ProgramIndex) (unit : FunctionUnit)
    (state : FunctionScan index.units.length × Nat) (blockId : EntityId) :
    EffectResult ε (FunctionScan index.units.length × Nat) := do
  let block ← Except.ofOption (.effect .unresolvedEntity) unit.blockTable[blockId]?
  block.operations.foldlM (scanListed types index unit) state

/-- The scan of one function, block by block, on top of the calls counted so far. -/
def scanUnit (types : EffectTypes ε) (index : ProgramIndex) (unit : FunctionUnit)
    (callEdges : Nat) : EffectResult ε (FunctionScan index.units.length × Nat) :=
  unit.function.blocks.foldlM (scanBlock types index unit) (⟨∅, ∅⟩, callEdges)

/-- The scans of the functions, in their order. -/
abbrev Scans (n : Nat) := Vector (FunctionScan n) n

def scanPlace (types : EffectTypes ε) (index : ProgramIndex)
    (state : Scans index.units.length × Nat) (place : Fin index.units.length) :
    EffectResult ε (Scans index.units.length × Nat) := do
  let (scan, callEdges) ← scanUnit types index index.units[place] state.2
  return (state.1.set place scan, callEdges)

def scanOperations (types : EffectTypes ε) (index : ProgramIndex) :
    EffectResult ε (Scans index.units.length × Nat) :=
  (List.finRange index.units.length).foldlM (scanPlace types index)
    (Vector.replicate _ ⟨∅, ∅⟩, 0)

/-! ### The closure -/

/-- For each function the effects that it holds. -/
abbrev Closures (n : Nat) := Vector EntitySet n

/-- A limit on the work of the closure, and one on its memberships. -/
abbrev ClosureLimits := Nat × Nat

def closureLimits : ClosureLimits := (maxEffectClosureWork, maxEffectClosureMemberships)

def chargeClosureWork (limits : ClosureLimits) (work amount : Nat) : EffectResult ε Nat := do
  effectRejectIf (limits.1 < work + amount) .resourceLimit
  return work + amount

/-- The memberships of all functions together. -/
def memberships {n : Nat} (closures : Closures n) : Nat := (closures.toList.map (·.size)).sum

def checkClosureMemberships {n : Nat} (limits : ClosureLimits) (closures : Closures n) :
    EffectResult ε Unit :=
  effectRejectIf (limits.2 < memberships closures) .resourceLimit

/-- The calls of the program, in the order in which the rounds take them. -/
def callEdges {n : Nat} (scans : Scans n) : List (Fin n × Fin n) :=
  (List.finRange n).flatMap fun function ↦
    scans[function].callees.toList.map fun callee ↦ (function, callee)

structure ClosureRound (n : Nat) where
  closures : Closures n
  work : Nat
  changed : Bool

/-- A function takes over one effect of a callee. -/
def takeEffect {n : Nat} (limits : ClosureLimits) (function : Fin n) (round : ClosureRound n)
    (effect : EntityId) : EffectResult ε (ClosureRound n) := do
  let work ← chargeClosureWork limits round.work 1
  return { closures := round.closures.set function (round.closures[function].insert effect), work,
           changed := round.changed || !round.closures[function].contains effect }

/-- A function takes over what a callee held before the round. -/
def takeEdge {n : Nat} (limits : ClosureLimits) (previous : Closures n) (round : ClosureRound n)
    (edge : Fin n × Fin n) : EffectResult ε (ClosureRound n) := do
  let work ← chargeClosureWork limits round.work 1
  previous[edge.2].toList.foldlM (takeEffect limits edge.1) { round with work }

/-- The effects are in the set; the first that is not ends the search. -/
def containsEffects (limits : ClosureLimits) (closure : EntitySet) :
    List EntityId → Nat → EffectResult ε (Bool × Nat)
  | [], work => return (true, work)
  | effect :: effects, work => do
    let work ← chargeClosureWork limits work 1
    if effect ∈ closure then containsEffects limits closure effects work
    else return (false, work)

/-- `closure_is_fixed`: every function holds what its callees hold. -/
def edgesFixed {n : Nat} (limits : ClosureLimits) (closures : Closures n) :
    List (Fin n × Fin n) → Nat → EffectResult ε (Bool × Nat)
  | [], work => return (true, work)
  | (function, callee) :: edges, work => do
    let work ← chargeClosureWork limits work 1
    let (contained, work) ← containsEffects limits closures[function] closures[callee].toList work
    if contained then edgesFixed limits closures edges work
    else return (false, work)

/-- The rounds, numbered from one, with as many of them left. -/
def closureRounds {n : Nat} (limits : ClosureLimits) (scans : Scans n) :
    Nat → Nat → Closures n → Nat → EffectResult ε (Closures n × Nat × Nat)
  | 0, _, _, _ => effectFail .resourceLimit
  | left + 1, number, closures, work => do
    let work ← chargeClosureWork limits work (memberships closures)
    let round ← (callEdges scans).foldlM (takeEdge limits closures)
      { closures, work, changed := false }
    checkClosureMemberships limits round.closures
    if round.changed then
      let (fixed, work) ← edgesFixed limits round.closures (callEdges scans) round.work
      if fixed then return (round.closures, number, work)
      else closureRounds limits scans left (number + 1) round.closures work
    else return (round.closures, number, round.work)

/-- `compute_closures`, with its limits as a parameter. -/
def computeClosuresWithin {n : Nat} (limits : ClosureLimits) (scans : Scans n) :
    EffectResult ε (Closures n × Nat × Nat) := do
  let closures := scans.map (·.localEffects)
  checkClosureMemberships limits closures
  closureRounds limits scans maxEffectClosureRounds 1 closures 0

def computeClosures {n : Nat} (scans : Scans n) : EffectResult ε (Closures n × Nat × Nat) :=
  computeClosuresWithin closureLimits scans

/-! ### The program -/

/-- Deterministic successful summary of an effect program. -/
structure EffectReport where
  /-- The closure of every function. -/
  functions : List (EntityId × List EntityId)
  callEdges : Nat
  closureRounds : Nat
  closureWork : Nat

def validateEffectProgram (types : EffectTypes ε) (units : List FunctionUnit)
    (effects : List EffectDefinition) (requirements : List CapabilityRequirement)
    (adapters : List AdapterImport) (knownContracts : List EntityId) :
    EffectResult ε EffectReport := do
  let index ← buildProgramIndex units effects requirements adapters knownContracts
  validateGraphs types units
  validateEffectDefinitions types index
  validateDeclaredEffectSets index
  validateAdapters types index
  validateRequirements types index
  let (scans, calls) ← scanOperations types index
  let (closures, rounds, work) ← computeClosures scans
  (List.finRange index.units.length).forM fun place ↦
    effectRejectIf (index.units[place].function.effects ≠ closures[place].toList) .closureMismatch
  return { functions := (List.finRange index.units.length).map fun place ↦
             (index.units[place].function.entityId, closures[place].toList),
           callEdges := calls, closureRounds := rounds, closureWork := work }

end Sley.Check

/-!
# The rounds of the closure

One round of `compute_closures` is one round of propagation along the calls, and the closure is
found to be fixed exactly when it has settled. **The rounds never run out**: with as many functions
as a program may have, only the limits on work and on memberships can stop them
(`exists_charged_computeClosures`), and what they come to is what the called functions own.
-/

namespace Sley.Check

open Ssmc

variable {ε : Type} {n : Nat}

/-- The functions that a function calls. -/
def Scans.next (scans : Scans n) (function : Fin n) : Set (Fin n) :=
  {callee | callee ∈ scans[function].callees}

/-- The effects that a function has of its own. -/
def Scans.own (scans : Scans n) (function : Fin n) : Set EntityId :=
  {effect | effect ∈ scans[function].localEffects}

def Closures.sets (closures : Closures n) (function : Fin n) : Set EntityId :=
  {effect | effect ∈ closures[function]}

theorem mem_callEdges {scans : Scans n} {function callee : Fin n} :
    (function, callee) ∈ callEdges scans ↔ callee ∈ scans.next function := by
  simp [callEdges, Scans.next]

/-! ### Memberships -/

theorem EntitySet.size_le_of_subset {s s' : EntitySet} (h : ∀ id ∈ s, id ∈ s') :
    s.size ≤ s'.size := by
  rw [← Std.ExtTreeSet.length_toList, ← Std.ExtTreeSet.length_toList]
  have hnodup : s.toList.Nodup :=
    (Ssmc.EntitySet.sorted_toList s).imp fun hlt heq ↦ by simp [heq] at hlt
  refine (hnodup.subperm fun id hid ↦ ?_).length_le
  rw [Std.ExtTreeSet.mem_toList] at hid ⊢
  exact h id hid

theorem memberships_eq_sum (closures : Closures n) :
    memberships closures = ∑ function : Fin n, closures[function].size := by
  rw [memberships, ← List.sum_ofFn]
  congr 1
  apply List.ext_getElem <;> simp

theorem memberships_mono {closures closures' : Closures n}
    (h : ∀ function, closures.sets function ⊆ closures'.sets function) :
    memberships closures ≤ memberships closures' := by
  rw [memberships_eq_sum, memberships_eq_sum]
  exact Finset.sum_le_sum fun function _ ↦ EntitySet.size_le_of_subset (h function)

/-! ### One round -/

/-- What is used by an amount of work, with the memberships at `m`. -/
def usedAt (m : Nat) (work : Nat) : ClosureLimits := (work, m)

theorem charged_chargeClosureWork (m work amount : Nat) :
    Charged (.effect .resourceLimit) (usedAt m)
      (fun limits ↦ (chargeClosureWork limits work amount : EffectResult ε Nat)) (usedAt m work)
      (work + amount) where
  le := ⟨Nat.le_add_right _ _, le_rfl⟩
  eq limits h := by
    rw [chargeClosureWork, effectRejectIf, Except.rejectIf]
    by_cases hwork : work + amount ≤ limits.1
    · rw [if_neg (Nat.not_lt.2 hwork), if_pos ⟨hwork, h.2⟩]
      rfl
    · rw [if_pos (Nat.not_le.1 hwork), if_neg fun hle ↦ hwork hle.1]
      rfl

theorem charged_checkClosureMemberships {m work : Nat} {closures : Closures n}
    (h : m ≤ memberships closures) :
    Charged (.effect .resourceLimit) (fun _ ↦ usedAt (memberships closures) work)
      (fun limits ↦ (checkClosureMemberships limits closures : EffectResult ε Unit))
      (usedAt m work) () where
  le := ⟨le_rfl, h⟩
  eq limits hlimits := by
    rw [checkClosureMemberships, effectRejectIf, Except.rejectIf]
    by_cases hmembers : memberships closures ≤ limits.2
    · rw [if_neg (Nat.not_lt.2 hmembers), if_pos ⟨hlimits.1, hmembers⟩]
    · rw [if_pos (Nat.not_le.1 hmembers), if_neg fun hle ↦ hmembers hle.2]

namespace ClosureRound

/-- What taking over an effect comes to. -/
def tookEffect (function : Fin n) (round : ClosureRound n) (effect : EntityId) :
    ClosureRound n where
  closures := round.closures.set function (round.closures[function].insert effect)
  work := round.work + 1
  changed := round.changed || !round.closures[function].contains effect

/-- What taking over the effects of a callee comes to. -/
def tookEdge (previous : Closures n) (round : ClosureRound n) (edge : Fin n × Fin n) :
    ClosureRound n :=
  previous[edge.2].toList.foldl (tookEffect edge.1) { round with work := round.work + 1 }

/-- What a round comes to. -/
def took (scans : Scans n) (previous : Closures n) (work : Nat) : ClosureRound n :=
  (callEdges scans).foldl (tookEdge previous) { closures := previous, work, changed := false }

variable {previous : Closures n} {round : ClosureRound n} {function holder : Fin n}
  {effect held : EntityId} {m : Nat}

theorem charged_takeEffect :
    Charged (.effect .resourceLimit) (fun round : ClosureRound n ↦ usedAt m round.work)
      (fun limits ↦ (takeEffect limits function round effect : EffectResult ε _))
      (usedAt m round.work) (tookEffect function round effect) :=
  (charged_chargeClosureWork m round.work 1).bind (.pure _ (tookEffect function round effect))

theorem charged_takeEdge {edge : Fin n × Fin n} :
    Charged (.effect .resourceLimit) (fun round : ClosureRound n ↦ usedAt m round.work)
      (fun limits ↦ (takeEdge limits previous round edge : EffectResult ε _))
      (usedAt m round.work) (tookEdge previous round edge) :=
  (charged_chargeClosureWork m round.work 1).bind
    (Charged.foldlM (fun _ _ _ ↦ charged_takeEffect) { round with work := round.work + 1 })

theorem charged_took (scans : Scans n) (work : Nat) :
    Charged (.effect .resourceLimit) (fun round : ClosureRound n ↦ usedAt m round.work)
      (fun limits ↦ ((callEdges scans).foldlM (takeEdge limits previous)
        { closures := previous, work, changed := false } : EffectResult ε _))
      (usedAt m work) (took scans previous work) :=
  Charged.foldlM (fun _ _ _ ↦ charged_takeEdge) { closures := previous, work, changed := false }

/-- A function holds an effect. -/
def Holds (round : ClosureRound n) (d : Fin n × EntityId) : Prop := d.2 ∈ round.closures[d.1]

theorem holds_tookEffect {d : Fin n × EntityId} : (tookEffect function round effect).Holds d ↔
    round.Holds d ∨ d.1 = function ∧ d.2 = effect := by
  show d.2 ∈ (round.closures.set function _)[d.1.val] ↔ _
  rw [Vector.getElem_set, Holds]
  split_ifs with h
  · obtain rfl := Fin.ext h
    rw [EntitySet.mem_insert_iff, or_comm, eq_self, true_and]
  · have hne : d.1 ≠ function := fun heq ↦ h (congrArg Fin.val heq.symm)
    simp [hne]

theorem holds_tookEdge {edge : Fin n × Fin n} {d : Fin n × EntityId} :
    (tookEdge previous round edge).Holds d ↔
      round.Holds d ∨ d.1 = edge.1 ∧ d.2 ∈ previous[edge.2] := by
  rw [tookEdge, List.foldl_collects (P := Holds) (f := tookEffect edge.1)
    (Q := fun effect d ↦ d.1 = edge.1 ∧ d.2 = effect) fun _ _ _ ↦ holds_tookEffect]
  refine or_congr Iff.rfl ?_
  simp [and_comm]

/-- **A round is a round of propagation.** -/
theorem sets_took (scans : Scans n) (work : Nat) (holder : Fin n) :
    (took scans previous work).closures.sets holder = previous.sets holder ∪
      {effect | ∃ callee ∈ scans.next holder, effect ∈ previous.sets callee} := by
  ext held
  show (took scans previous work).Holds (holder, held) ↔ _
  rw [took, List.foldl_collects (P := Holds) (f := tookEdge previous)
    (Q := fun edge d ↦ d.1 = edge.1 ∧ d.2 ∈ previous[edge.2]) fun _ _ _ ↦ holds_tookEdge]
  refine or_congr Iff.rfl ?_
  simp only [Prod.exists, mem_callEdges]
  constructor
  · rintro ⟨_, callee, hcallee, rfl, hheld⟩
    exact ⟨callee, hcallee, hheld⟩
  · rintro ⟨callee, hcallee, hheld⟩
    exact ⟨holder, callee, hcallee, rfl, hheld⟩

/-- If the later of two states reports no change, the earlier reported none and held the same. -/
def Quiet (round round' : ClosureRound n) : Prop :=
  round'.changed = false → round.changed = false ∧ ∀ d, round'.Holds d ↔ round.Holds d

theorem Quiet.refl (round : ClosureRound n) : Quiet round round := fun h ↦ ⟨h, fun _ ↦ Iff.rfl⟩

theorem Quiet.trans {round' round'' : ClosureRound n} (h : Quiet round round')
    (h' : Quiet round' round'') : Quiet round round'' := fun hchanged ↦
  ⟨(h (h' hchanged).1).1, fun d ↦ ((h' hchanged).2 d).trans ((h (h' hchanged).1).2 d)⟩

theorem Quiet.foldl {α : Type} {f : ClosureRound n → α → ClosureRound n}
    (h : ∀ round x, Quiet round (f round x)) (xs : List α) (round : ClosureRound n) :
    Quiet round (xs.foldl f round) := by
  induction xs generalizing round with
  | nil => exact .refl round
  | cons x xs ih => exact (h round x).trans (ih (f round x))

theorem quiet_tookEffect (round : ClosureRound n) (effect : EntityId) :
    Quiet round (tookEffect function round effect) := by
  intro hchanged
  obtain ⟨hround, hheld⟩ : round.changed = false ∧ effect ∈ round.closures[function] := by
    simpa [tookEffect] using hchanged
  refine ⟨hround, fun (holder, held) ↦ holds_tookEffect.trans (or_iff_left_of_imp ?_)⟩
  rintro ⟨rfl, rfl⟩
  exact hheld

theorem quiet_tookEdge (round : ClosureRound n) (edge : Fin n × Fin n) :
    Quiet round (tookEdge previous round edge) :=
  Quiet.foldl quiet_tookEffect _ { round with work := round.work + 1 }

/-- A round that reports no change has made none. -/
theorem sets_took_of_unchanged {scans : Scans n} {work : Nat}
    (h : (took scans previous work).changed = false) (holder : Fin n) :
    (took scans previous work).closures.sets holder = previous.sets holder := by
  ext held
  exact (Quiet.foldl quiet_tookEdge _ _ h).2 (holder, held)

end ClosureRound

/-! ### The test -/

theorem exists_charged_containsEffects (m : Nat) (closure : EntitySet) (effects : List EntityId)
    (work : Nat) : ∃ result : Bool × Nat, Charged (.effect .resourceLimit)
      (fun result : Bool × Nat ↦ usedAt m result.2)
      (fun limits ↦ (containsEffects limits closure effects work : EffectResult ε _))
      (usedAt m work) result ∧ (result.1 = true ↔ ∀ effect ∈ effects, effect ∈ closure) := by
  induction effects generalizing work with
  | nil => exact ⟨(true, work), .pure _ (true, work), by simp⟩
  | cons effect effects ih =>
    simp only [containsEffects]
    by_cases hmem : effect ∈ closure
    · obtain ⟨result, hcharged, hresult⟩ := ih (work + 1)
      refine ⟨result, (charged_chargeClosureWork m work 1).bind ?_, ?_⟩
      · simpa only [if_pos hmem] using hcharged
      · rw [hresult, List.forall_mem_cons, and_iff_right hmem]
    · refine ⟨(false, work + 1), (charged_chargeClosureWork m work 1).bind ?_, ?_⟩
      · simp only [if_neg hmem]
        exact .pure _ (false, work + 1)
      · simp [hmem]

theorem exists_charged_edgesFixed (m : Nat) (closures : Closures n) (edges : List (Fin n × Fin n))
    (work : Nat) : ∃ result : Bool × Nat, Charged (.effect .resourceLimit)
      (fun result : Bool × Nat ↦ usedAt m result.2)
      (fun limits ↦ (edgesFixed limits closures edges work : EffectResult ε _))
      (usedAt m work) result ∧
      (result.1 = true ↔ ∀ edge ∈ edges, closures.sets edge.2 ⊆ closures.sets edge.1) := by
  induction edges generalizing work with
  | nil => exact ⟨(true, work), .pure _ (true, work), by simp⟩
  | cons edge edges ih =>
    obtain ⟨function, callee⟩ := edge
    simp only [edgesFixed]
    obtain ⟨⟨contained, work'⟩, hcontains, hcontained⟩ := exists_charged_containsEffects (ε := ε) m
      closures[function] closures[callee].toList (work + 1)
    have hsubset : contained = true ↔ closures.sets callee ⊆ closures.sets function := by
      refine hcontained.trans (forall_congr' fun effect ↦ ?_)
      rw [Std.ExtTreeSet.mem_toList]
      rfl
    cases contained with
    | true =>
      obtain ⟨result, hcharged, hresult⟩ := ih work'
      refine ⟨result, (charged_chargeClosureWork m work 1).bind (hcontains.bind hcharged), ?_⟩
      rw [hresult, List.forall_mem_cons, and_iff_right (hsubset.1 rfl)]
    | false =>
      refine ⟨(false, work'), (charged_chargeClosureWork m work 1).bind
        (hcontains.bind (.pure _ (false, work'))), ?_⟩
      rw [List.forall_mem_cons, ← hsubset]
      simp

/-! ### All rounds -/

/-- **The rounds settle before they run out.** From where the functions hold what `k` rounds have
spread, the rounds that are left come to the effects of all functions that are reached. -/
theorem exists_charged_closureRounds {scans : Scans n} {left k : Nat} {closures : Closures n}
    (work : Nat) (hsets : closures.sets = spread scans.next scans.own k) (hleft : 0 < left)
    (hn : n - 1 ≤ k + left) : ∃ result : Closures n × Nat × Nat,
      Charged (.effect .resourceLimit)
        (fun result : Closures n × Nat × Nat ↦ usedAt (memberships result.1) result.2.2)
        (fun limits ↦ (closureRounds limits scans left (k + 1) closures work : EffectResult ε _))
        (usedAt (memberships closures) work) result ∧
      result.2.1 ≤ k + left ∧ ∃ j, result.1.sets = spread scans.next scans.own j ∧
        IsSettled scans.next result.1.sets := by
  induction left generalizing k closures work with
  | zero => cases hleft
  | succ left ih =>
    let round := ClosureRound.took scans closures (work + memberships closures)
    have hround : round.closures.sets = spread scans.next scans.own (k + 1) := by
      funext holder
      rw [ClosureRound.sets_took, hsets]
      rfl
    have hgrow : memberships closures ≤ memberships round.closures :=
      memberships_mono fun holder ↦ by
        rw [hsets, hround]
        exact spread_subset_succ
    have hcharged {β : Type} {used : β → ClosureLimits} {b : β}
        {f : ClosureLimits → ClosureRound n → EffectResult ε β}
        (hrest : Charged (.effect .resourceLimit) used (fun limits ↦ f limits round)
          (usedAt (memberships round.closures) round.work) b) :
        Charged (.effect .resourceLimit) used (fun limits ↦ (do
          let work ← chargeClosureWork limits work (memberships closures)
          let round ← (callEdges scans).foldlM (takeEdge limits closures)
            { closures, work, changed := false }
          checkClosureMemberships limits round.closures
          f limits round)) (usedAt (memberships closures) work) b :=
      (charged_chargeClosureWork _ work _).bind ((ClosureRound.charged_took scans _).bind
        ((charged_checkClosureMemberships hgrow).bind hrest))
    cases hchanged : round.changed with
    | false =>
      have hsame := ClosureRound.sets_took_of_unchanged hchanged
      refine ⟨(round.closures, k + 1, round.work), hcharged ?_,
        show k + 1 ≤ k + (left + 1) by omega, k + 1, hround, ?_⟩
      · simp only [hchanged, Bool.false_eq_true, if_false]
        exact .pure _ (round.closures, k + 1, round.work)
      · have hsettled : IsSettled scans.next (spread scans.next scans.own k) :=
          isSettled_iff_spread_succ.2 fun holder ↦ by
            rw [← hround, ← hsets]
            exact hsame holder
        have heq : round.closures.sets = spread scans.next scans.own k := by
          rw [← hsets]
          exact funext hsame
        exact heq ▸ hsettled
    | true =>
      obtain ⟨⟨fixed, work'⟩, hfixed, hiff⟩ := exists_charged_edgesFixed (ε := ε)
        (memberships round.closures) round.closures (callEdges scans) round.work
      have hsettled : fixed = true ↔ IsSettled scans.next round.closures.sets := by
        refine hiff.trans ⟨fun h holder callee hcallee ↦ ?_, fun h edge hedge ↦ ?_⟩
        · exact h (holder, callee) (mem_callEdges.2 hcallee)
        · exact h edge.1 edge.2 (mem_callEdges.1 hedge)
      cases fixed with
      | true =>
        refine ⟨(round.closures, k + 1, work'), hcharged ?_,
          show k + 1 ≤ k + (left + 1) by omega, k + 1, hround, hsettled.1 rfl⟩
        simp only [hchanged, if_true]
        exact hfixed.bind (.pure _ (round.closures, k + 1, work'))
      | false =>
        have hlt : k + 1 < n - 1 := by
          by_contra hle
          have hspread : IsSettled scans.next (spread scans.next scans.own (k + 1)) :=
            isSettled_spread_card (by rw [Nat.card_fin]; omega)
          rw [← hround, ← hsettled] at hspread
          cases hspread
        obtain ⟨result, hresult, hle, hexact⟩ := ih work' hround (by omega) (by omega)
        refine ⟨result, hcharged ?_, by omega, hexact⟩
        simp only [hchanged, if_true]
        exact hfixed.bind hresult

/-- **Only the limits stop the closure.** Within the limit on functions the closure comes to one
result, at the work and the memberships that it takes, and this is the effects of all functions that
are called, directly or not. -/
theorem exists_charged_computeClosures (scans : Scans n) (hn : n ≤ maxEffectFunctions) :
    ∃ result : Closures n × Nat × Nat, Charged (.effect .resourceLimit)
        (fun result : Closures n × Nat × Nat ↦ usedAt (memberships result.1) result.2.2)
        (fun limits ↦ (computeClosuresWithin limits scans : EffectResult ε _)) (0, 0) result ∧
      result.2.1 ≤ maxEffectClosureRounds ∧ ∀ function effect, effect ∈ result.1[function] ↔
        ∃ callee ∈ reachable scans.next {function}, effect ∈ scans[callee].localEffects := by
  let closures : Closures n := scans.map (·.localEffects)
  have hstart : closures.sets = spread scans.next scans.own 0 := by
    funext function
    simp [closures, Closures.sets, spread, Scans.own]
  have hrounds : n - 1 ≤ 0 + maxEffectClosureRounds := (Nat.sub_le n 1).trans (hn.trans (by decide))
  obtain ⟨result, hcharged, hle, j, hspread, hsettled⟩ :=
    exists_charged_closureRounds (ε := ε) 0 hstart (by decide) hrounds
  refine ⟨result, ?_, by omega, fun function effect ↦ ?_⟩
  · exact (charged_checkClosureMemberships (Nat.zero_le _)).bind hcharged
  · rw [hspread] at hsettled
    exact (Set.ext_iff.1 (congrFun hspread function) effect).trans hsettled.mem_iff

end Sley.Check

/-!
# Effect closure is exact

What a program that `validate_effect_program` accepts declares, in terms of its operations alone. A
function calls another with a `CallDirect` operation, and requests an effect with an `EffectRequest`
or by invoking an adapter that has the effect. **The declared effects of a function are the sorted
set of what is requested by the functions it reaches**, itself included (`effect_closure_exact`).

The scan of a function looks its operations up block by block; that these are all the operations of
its inventory, each of them once, is what the validation of its graph has established.
-/

namespace Sley.Check

open Ssmc
open Except hiding ok error

variable {ε : Type}

/-! ### Tables -/

section Tables

variable {α : Type} {e : Type} {id : α → EntityId} {values : List α}
  {f : EntityMap α × EntitySet → α → Except e (EntityMap α × EntitySet)}

/-- A fold that enters values in a table at identities it has not seen: the identities are distinct,
and every value is found at its own. -/
theorem getElem?_of_foldlM_fresh
    (hstep : ∀ s v s', f s v = .ok s' → id v ∉ s.2 ∧ s' = (s.1.insert (id v) v, s.2.insert (id v)))
    {s s' : EntityMap α × EntitySet} (hsub : ∀ k ∈ s.1, k ∈ s.2 ∨ k ∉ values.map id)
    (h : values.foldlM f s = .ok s') :
    (values.map id).Nodup ∧ (∀ v ∈ values, id v ∉ s.2) ∧
      ∀ k v, s'.1[k]? = some v ↔ s.1[k]? = some v ∨ v ∈ values ∧ id v = k := by
  induction values generalizing s with
  | nil =>
    obtain rfl := pure_eq_ok.1 h
    simp
  | cons x values ih =>
    rw [List.foldlM_cons, bind_eq_ok] at h
    obtain ⟨s₁, hx, h⟩ := h
    obtain ⟨hfresh, rfl⟩ := hstep s x s₁ hx
    have hsub₁ : ∀ k ∈ s.1.insert (id x) x, k ∈ s.2.insert (id x) ∨ k ∉ values.map id := by
      intro k hk
      rw [EntitySet.mem_insert_iff]
      obtain rfl | hk := EntityMap.mem_insert_iff.1 hk
      · exact .inl (.inl rfl)
      · exact (hsub k hk).imp .inr fun hnot hmem ↦ hnot (List.mem_cons_of_mem _ hmem)
    obtain ⟨hnodup, hrest, hlookup⟩ := ih hsub₁ h
    simp only [EntitySet.mem_insert_iff, not_or] at hrest
    rw [List.map_cons, List.nodup_cons, List.forall_mem_cons]
    refine ⟨⟨fun hmem ↦ ?_, hnodup⟩, ⟨hfresh, fun v hv ↦ (hrest v hv).2⟩, fun k v ↦ ?_⟩
    · obtain ⟨v, hv, heq⟩ := List.mem_map.1 hmem
      exact (hrest v hv).1 heq
    · rw [hlookup, EntityMap.getElem?_insert_eq, List.mem_cons]
      split_ifs with hk
      · subst hk
        have hnone : s.1[id x]? = none := EntityMap.not_mem_iff.1 fun hmem ↦
          (hsub _ hmem).elim hfresh fun hnot ↦ hnot List.mem_cons_self
        rw [hnone, Option.some.injEq]
        grind
      · grind

end Tables

theorem indexUnique_eq_ok {α : Type} {id : α → EntityId} {values : List α}
    {allIds allIds' : EntitySet} {output : EntityMap α}
    (h : indexUnique (ε := ε) id values allIds = .ok (output, allIds')) :
    (values.map id).Nodup ∧ ∀ k v, output[k]? = some v ↔ v ∈ values ∧ id v = k := by
  obtain ⟨hnodup, -, hlookup⟩ := getElem?_of_foldlM_fresh (fun s v s' hs ↦ by
    simp only [cfgRejectIf, bind_eq_ok, rejectIf_eq_ok, not_or, pure_eq_ok] at hs
    obtain ⟨-, ⟨hseen, -⟩, rfl⟩ := hs
    exact ⟨hseen, rfl⟩) (fun k hk ↦ absurd hk Std.ExtTreeMap.not_mem_empty) h
  exact ⟨hnodup, fun k v ↦ (hlookup k v).trans (by simp)⟩

theorem indexEntities_eq_ok {α : Type} {id : α → EntityId} {values : List α}
    {allIds allIds' : EntitySet} {output : EntityMap α}
    (h : indexEntities (ε := ε) id values allIds = .ok (output, allIds')) (k : EntityId) (v : α) :
    output[k]? = some v ↔ v ∈ values ∧ id v = k := by
  obtain ⟨-, -, hlookup⟩ := getElem?_of_foldlM_fresh (fun s v s' hs ↦ by
    simp only [insertGlobal, effectRejectIf, bind_eq_ok, rejectIf_eq_ok, pure_eq_ok] at hs
    obtain ⟨_, ⟨-, hseen, rfl⟩, rfl⟩ := hs
    exact ⟨hseen, rfl⟩) (fun k hk ↦ absurd hk Std.ExtTreeMap.not_mem_empty) h
  exact (hlookup k v).trans (by simp)

/-! ### The inventory of a graph -/

/-- An inventory that is required to be what was expected holds nothing else. -/
theorem mem_expected_of_requireInventory {α : Type} {expected : EntitySet} {inventory : EntityMap α}
    (h : requireInventory (ε := ε) expected inventory = .ok ()) {id : EntityId}
    (hid : id ∈ inventory) : id ∈ expected := by
  simp only [requireInventory, cfgRejectIf, rejectIf_eq_ok, not_or, not_exists, not_and,
    not_not] at h
  obtain ⟨hsize, hsub⟩ := h
  have hnodup : expected.toList.Nodup :=
    (EntitySet.sorted_toList expected).imp fun hlt heq ↦ by simp [heq] at hlt
  have hperm : expected.toList.Subperm inventory.keys :=
    hnodup.subperm fun id hid ↦ Std.ExtTreeMap.mem_keys.2 (hsub id hid)
  have hlength : inventory.keys.length ≤ expected.toList.length := by
    rw [Std.ExtTreeMap.length_keys, Std.ExtTreeSet.length_toList, hsize]
  rw [← Std.ExtTreeSet.mem_toList]
  exact (hperm.perm_of_length_le hlength).mem_iff.2 (Std.ExtTreeMap.mem_keys.2 hid)

/-- Every operation of the inventory is listed by a block of the function. -/
theorem exists_block_of_validateOperationInventory {types : TypeEnvironment ε} {count : Nat}
    {function : FunctionGraph} {blocks : EntityMap Block} {operations : EntityMap Operation}
    (h : validateOperationInventory types count function blocks operations = .ok ())
    {id : EntityId} (hid : id ∈ operations) :
    ∃ blockId ∈ function.blocks, ∃ block, blocks[blockId]? = some block ∧
      id ∈ block.operations := by
  rw [validateOperationInventory, bind_eq_ok] at h
  obtain ⟨expected, hfold, hrequire⟩ := h
  have hexpected := mem_expected_of_requireInventory hrequire hid
  have hstep (s : EntitySet) (blockId : EntityId) (s' : EntitySet)
      (hs : (do
        let block ← indexed blocks blockId
        let declared ← indexDeclaredIds block.operations
        declared.toList.foldlM (validateOperation types count operations block) s :
          CfgResult ε EntitySet) = .ok s') (id : EntityId) :
      id ∈ s' ↔ id ∈ s ∨ ∃ block, blocks[blockId]? = some block ∧ id ∈ block.operations := by
    simp only [indexed, lookup, bind_eq_ok, ofOption_eq_ok] at hs
    obtain ⟨block, hblock, declared, hdeclared, hs⟩ := hs
    have hplace := getElem?_indexDeclaredIds hdeclared
    have hcollect := foldlM_collects (P := fun (s : EntitySet) (id : EntityId) ↦ id ∈ s)
      (Q := fun (d : EntityId × Fin block.operations.length) id ↦ id = d.1)
      (fun s d s' hs id ↦ by
        simp only [validateOperation, bind_eq_ok, pure_eq_ok] at hs
        obtain ⟨_, _, _, _, _, _, _, _, rfl⟩ := hs
        rw [EntitySet.mem_insert_iff, or_comm]) hs id
    rw [hcollect]
    refine or_congr Iff.rfl ⟨?_, ?_⟩
    · rintro ⟨⟨_, place⟩, hmem, rfl⟩
      rw [Std.ExtTreeMap.mem_toList_iff_getElem?_eq_some, hplace] at hmem
      exact ⟨block, hblock, hmem ▸ List.getElem_mem _⟩
    · rintro ⟨block', hblock', hmem⟩
      obtain rfl := Option.some.inj (hblock.symm.trans hblock')
      obtain ⟨place, hlt, rfl⟩ := List.getElem_of_mem hmem
      exact ⟨(_, ⟨place, hlt⟩), Std.ExtTreeMap.mem_toList_iff_getElem?_eq_some.2
        ((hplace _ _).2 rfl), rfl⟩
  have hcollect := (foldlM_collects hstep hfold id).1 hexpected
  simpa using hcollect

/-- **The operations of a valid function are those that its blocks list**, each identity once. -/
theorem listed_of_validateFunctionGraph {types : TypeEnvironment ε} {function : FunctionGraph}
    {parameters : List Parameter} {blocks : List Block} {operations : List Operation}
    {report : CfgReport}
    (h : validateFunctionGraph types function parameters blocks operations = .ok report) :
    (blocks.map (·.entityId)).Nodup ∧ (operations.map (·.entityId)).Nodup ∧
      ∀ operation ∈ operations, ∃ block ∈ blocks, block.entityId ∈ function.blocks ∧
        operation.entityId ∈ block.operations := by
  rw [validateFunctionGraph, bind_eq_ok] at h
  obtain ⟨index, hbuild, -⟩ := h
  simp only [GraphIndex.build, bind_eq_ok, Prod.exists] at hbuild
  obtain ⟨_, -, count, -, _, -, _, -, parameters', ids, -, blocks', ids', hblocks, operations', _,
    hoperations, blockIndices, -, _, -, _, -, _, -, _, -, _, -, _, -, _, hinventory, -⟩ := hbuild
  obtain ⟨hnodup, hlookup⟩ := indexUnique_eq_ok hblocks
  obtain ⟨hnodup', hlookup'⟩ := indexUnique_eq_ok hoperations
  refine ⟨hnodup, hnodup', fun operation hoperation ↦ ?_⟩
  have hmem : operation.entityId ∈ operations' :=
    EntityMap.mem_iff_exists.2 ⟨operation, (hlookup' _ _).2 ⟨hoperation, rfl⟩⟩
  obtain ⟨_, hlisted, block, hblock, hop⟩ :=
    exists_block_of_validateOperationInventory hinventory hmem
  obtain ⟨hsupplied, rfl⟩ := (hlookup _ _).1 hblock
  exact ⟨block, hsupplied, hlisted, hop⟩

/-! ### What an operation contributes -/

/-- A callee or an effect, as the scan of a function finds it. -/
abbrev Finding (n : Nat) := Fin n ⊕ EntityId

def FunctionScan.Has {n : Nat} (scan : FunctionScan n) : Finding n → Prop
  | .inl callee => callee ∈ scan.callees
  | .inr effect => effect ∈ scan.localEffects

/-- The operation calls the function, by its identity. -/
def Operation.Calls (operation : Operation) (function : EntityId) : Prop :=
  operation.opcode = .callDirect ∧
    ∃ reference, operation.immediate = .function reference ∧ reference.function = function

/-- The operation requests the effect, itself or by invoking an adapter that has it. -/
def Operation.Requests (adapters : List AdapterImport) (operation : Operation)
    (effect : EntityId) : Prop :=
  (operation.opcode = .effectRequest ∧ operation.immediate = .entity effect) ∨
    (operation.opcode = .adapterInvoke ∧ ∃ adapter ∈ adapters,
      operation.immediate = .entity adapter.entityId ∧ effect ∈ adapter.effects)

/-- An index whose tables hold the given entities at their identities. -/
structure ProgramIndex.Tables (index : ProgramIndex) (units : List FunctionUnit)
    (effects : List EffectDefinition) (adapters : List AdapterImport) : Prop where
  units_eq : index.units = units
  functions (id : EntityId) (place : Fin index.units.length) :
    index.functions[id]? = some place ↔ index.units[place].function.entityId = id
  effects (id : EntityId) (effect : EffectDefinition) :
    index.effects[id]? = some effect ↔ effect ∈ effects ∧ effect.entityId = id
  adapters (id : EntityId) (adapter : AdapterImport) :
    index.adapters[id]? = some adapter ↔ adapter ∈ adapters ∧ adapter.entityId = id

theorem nodup_of_ensureSorted {ids : List EntityId} (h : ensureSorted (ε := ε) ids = .ok ()) :
    ids.Nodup := by
  have : IsTrans EntityId (compare · · = .lt) := ⟨fun _ _ _ ↦ Std.TransCmp.lt_trans⟩
  rw [ensureSorted, effectRejectIf, rejectIf_eq_ok, not_not, List.isChain_iff_pairwise] at h
  exact h.imp fun hlt heq ↦ by simp [heq] at hlt

theorem getElem?_functionPlaces {units : List FunctionUnit}
    (h : (units.map (·.function.entityId)).Nodup) (id : EntityId) (place : Fin units.length) :
    (functionPlaces units)[id]? = some place ↔ units[place].function.entityId = id := by
  have hkeys : ((List.finRange units.length).map fun place ↦
      (units[place].function.entityId, place)).map Prod.fst = units.map (·.function.entityId) := by
    apply List.ext_getElem <;> simp
  rw [functionPlaces, EntityMap.getElem?_ofEntries (hkeys ▸ h)]
  simp

theorem tables_of_buildProgramIndex {units : List FunctionUnit} {effects : List EffectDefinition}
    {requirements : List CapabilityRequirement} {adapters : List AdapterImport}
    {contracts : List EntityId} {index : ProgramIndex}
    (h : buildProgramIndex (ε := ε) units effects requirements adapters contracts = .ok index) :
    index.Tables units effects adapters ∧ units.length ≤ maxEffectFunctions := by
  simp only [buildProgramIndex, bind_eq_ok, pure_eq_ok, Prod.exists] at h
  obtain ⟨_, hlimits, _, hsorted, _, -, _, -, _, -, _, -, _, -, _, -, effects', _, heffects, _, _,
    -, adapters', _, hadapters, _, -, _, -, _, -, _, -, rfl⟩ := h
  refine ⟨⟨rfl, getElem?_functionPlaces (nodup_of_ensureSorted hsorted),
    indexEntities_eq_ok heffects, indexEntities_eq_ok hadapters⟩, ?_⟩
  simp only [effectRejectIf, rejectIf_eq_ok, not_or, Nat.not_lt] at hlimits
  exact hlimits.1

section Scan

variable {types : EffectTypes ε} {index : ProgramIndex} {units : List FunctionUnit}
  {effects : List EffectDefinition} {adapters : List AdapterImport}

theorem lookupEntity_eq_ok {α : Type} {values : EntityMap α} {id : EntityId} {allIds : EntitySet}
    {value : α} :
    lookupEntity (ε := ε) values id allIds = .ok value ↔ values[id]? = some value := by
  rw [lookupEntity]
  split
  · rename_i found hfound
    rw [hfound, pure_eq_ok, Option.some.injEq, eq_comm]
  · rename_i hnone
    rw [hnone]
    exact ⟨nofun, nofun⟩

/-- What an operation adds to the scan of its function. -/
def Finds (index : ProgramIndex) (adapters : List AdapterImport) (operation : Operation) :
    Finding index.units.length → Prop
  | .inl callee => Operation.Calls operation index.units[callee].function.entityId
  | .inr effect => Operation.Requests adapters operation effect

variable {operation : Operation} {unit : FunctionUnit} {effect : EntityId}
  {callee : Fin index.units.length}

theorem validateCall_eq_ok (htables : index.Tables units effects adapters)
    (h : validateCall types index unit operation = .ok callee) :
    ∃ reference, operation.immediate = .function reference ∧
      index.units[callee].function.entityId = reference.function := by
  rw [validateCall] at h
  split at h
  · rename_i reference himmediate
    simp only [bind_eq_ok, pure_eq_ok, lookupEntity_eq_ok] at h
    obtain ⟨_, hplace, _, -, _, -, _, -, _, -, _, -, rfl⟩ := h
    exact ⟨reference, himmediate, (htables.functions _ _).1 hplace⟩
  · cases h

theorem validateRequest_eq_ok {values : UnitValues}
    (h : validateRequest (ε := ε) index values operation = .ok effect) :
    operation.immediate = .entity effect := by
  rw [validateRequest] at h
  split at h
  · rename_i effectId himmediate
    simp only [bind_eq_ok, pure_eq_ok] at h
    obtain ⟨_, -, _, -, _, -, rfl⟩ := h
    exact himmediate
  · cases h

/-- The adapter that is invoked has the effect that is reported, and no other. -/
theorem validateAdapterInvoke_eq_ok (htables : index.Tables units effects adapters)
    {values : UnitValues} {found : Option EntityId}
    (h : validateAdapterInvoke (ε := ε) index values operation = .ok found) :
    ∃ adapter ∈ adapters, operation.immediate = .entity adapter.entityId ∧
      adapter.effects = found.toList := by
  rw [validateAdapterInvoke] at h
  split at h
  · rename_i adapterId himmediate
    simp only [bind_eq_ok, lookupEntity_eq_ok, htables.adapters] at h
    obtain ⟨adapter, ⟨hadapter, rfl⟩, shape, -, h⟩ := h
    refine ⟨adapter, hadapter, himmediate, ?_⟩
    split at h
    · rename_i heffects
      simp only [bind_eq_ok, pure_eq_ok] at h
      obtain ⟨_, -, _, -, _, -, rfl⟩ := h
      exact heffects
    · rename_i effect heffects
      simp only [bind_eq_ok, pure_eq_ok, lookupEntity_eq_ok, htables.effects] at h
      obtain ⟨definition, ⟨-, rfl⟩, _, -, rfl⟩ := h
      exact heffects
    · cases h
  · cases h

theorem has_insert_callee {n : Nat} {scan : FunctionScan n} {callee : Fin n} {d : Finding n} :
    FunctionScan.Has { scan with callees := scan.callees.insert callee } d ↔
      scan.Has d ∨ d = .inl callee := by
  cases d with
  | inl other => rw [FunctionScan.Has, OrderedSet.mem_insert, or_comm, Sum.inl.injEq]; rfl
  | inr effect => simp [FunctionScan.Has]

theorem has_insert_effect {n : Nat} {scan : FunctionScan n} {d : Finding n} :
    FunctionScan.Has { scan with localEffects := scan.localEffects.insert effect } d ↔
      scan.Has d ∨ d = .inr effect := by
  cases d with
  | inl callee => simp [FunctionScan.Has]
  | inr other => rw [FunctionScan.Has, EntitySet.mem_insert_iff, or_comm, Sum.inr.injEq]; rfl

theorem finds_call (htables : index.Tables units effects adapters) {reference : FunctionRefValue}
    (hopcode : operation.opcode = .callDirect)
    (himmediate : operation.immediate = .function reference)
    (hcallee : index.units[callee].function.entityId = reference.function)
    (d : Finding index.units.length) : Finds index adapters operation d ↔ d = .inl callee := by
  cases d with
  | inl other =>
    have hother : reference.function = index.units[other].function.entityId ↔ other = callee := by
      rw [eq_comm, ← htables.functions, (htables.functions _ callee).2 hcallee,
        Option.some.injEq, eq_comm]
    simp [Finds, Operation.Calls, hopcode, himmediate, ← hother]
  | inr effect => simp [Finds, Operation.Requests, hopcode]

theorem finds_request (hopcode : operation.opcode = .effectRequest)
    (himmediate : operation.immediate = .entity effect)
    (d : Finding index.units.length) : Finds index adapters operation d ↔ d = .inr effect := by
  cases d with
  | inl callee => simp [Finds, Operation.Calls, hopcode]
  | inr other => simp [Finds, Operation.Requests, hopcode, himmediate, eq_comm]

theorem finds_invoke (htables : index.Tables units effects adapters)
    {adapter : AdapterImport} (hopcode : operation.opcode = .adapterInvoke)
    (hadapter : adapter ∈ adapters) (himmediate : operation.immediate = .entity adapter.entityId)
    (d : Finding index.units.length) :
    Finds index adapters operation d ↔ ∃ effect ∈ adapter.effects, d = .inr effect := by
  have honly (other : AdapterImport) (hother : other ∈ adapters)
      (hid : adapter.entityId = other.entityId) : other = adapter :=
    Option.some.inj (((htables.adapters _ _).2 ⟨hother, rfl⟩).symm.trans
      ((htables.adapters _ _).2 ⟨hadapter, hid⟩))
  cases d with
  | inl callee => simp [Finds, Operation.Calls, hopcode]
  | inr effect =>
    simp only [Finds, Operation.Requests, hopcode, himmediate, Immediate.entity.injEq,
      Sum.inr.injEq, exists_eq_right', reduceCtorEq, false_and, false_or, true_and]
    constructor
    · rintro ⟨other, hother, hid, heffect⟩
      exact honly other hother hid ▸ heffect
    · intro heffect
      exact ⟨adapter, hadapter, rfl, heffect⟩

theorem not_finds (hcall : operation.opcode ≠ .callDirect)
    (hrequest : operation.opcode ≠ .effectRequest) (hinvoke : operation.opcode ≠ .adapterInvoke)
    (d : Finding index.units.length) : ¬ Finds index adapters operation d := by
  cases d <;> simp [Finds, Operation.Calls, Operation.Requests, hcall, hrequest, hinvoke]

/-- **A scan gathers what the operations contribute**, one by one. -/
theorem has_of_scanOperation (htables : index.Tables units effects adapters)
    (state : FunctionScan index.units.length × Nat) (operation : Operation)
    (state' : FunctionScan index.units.length × Nat)
    (h : scanOperation types index unit state operation = .ok state')
    (d : Finding index.units.length) :
    state'.1.Has d ↔ state.1.Has d ∨ Finds index adapters operation d := by
  obtain ⟨scan, calls⟩ := state
  rw [scanOperation] at h
  split at h
  · rename_i hopcode
    simp only [bind_eq_ok, pure_eq_ok] at h
    obtain ⟨callee, hcallee, _, -, rfl⟩ := h
    obtain ⟨reference, himmediate, hid⟩ := validateCall_eq_ok htables hcallee
    rw [has_insert_callee, finds_call htables hopcode himmediate hid]
  · rename_i hopcode
    simp only [bind_eq_ok, pure_eq_ok] at h
    obtain ⟨effect, heffect, rfl⟩ := h
    rw [has_insert_effect, finds_request hopcode (validateRequest_eq_ok heffect)]
  · rename_i hopcode
    rw [bind_eq_ok] at h
    obtain ⟨found, hfound, h⟩ := h
    obtain ⟨adapter, hadapter, himmediate, heffects⟩ := validateAdapterInvoke_eq_ok htables hfound
    rw [finds_invoke htables hopcode hadapter himmediate, heffects]
    cases found with
    | some effect =>
      obtain rfl := pure_eq_ok.1 h
      rw [has_insert_effect]
      simp
    | none =>
      obtain rfl := pure_eq_ok.1 h
      simp
  · rename_i hopcode
    simp only [bind_eq_ok, pure_eq_ok] at h
    obtain ⟨_, -, rfl⟩ := h
    rw [or_iff_left (not_finds (by simp [hopcode]) (by simp [hopcode]) (by simp [hopcode]) d)]
  · rename_i hcall hrequest hinvoke _
    obtain rfl := pure_eq_ok.1 h
    rw [or_iff_left (not_finds hcall hrequest hinvoke d)]

theorem getElem?_ofEntries_map {α : Type} {key : α → EntityId} {values : List α}
    (h : (values.map key).Nodup) (id : EntityId) (v : α) :
    (EntityMap.ofEntries (values.map fun v ↦ (key v, v)))[id]? = some v ↔
      v ∈ values ∧ key v = id := by
  rw [EntityMap.getElem?_ofEntries (by simpa [Function.comp_def])]
  simp [and_comm]

/-- **The scan of a valid function is what its operations contribute.** -/
theorem has_of_scanUnit (htables : index.Tables units effects adapters)
    {graphTypes : TypeEnvironment ε} {report : CfgReport} {calls calls' : Nat}
    {scan : FunctionScan index.units.length}
    (hgraph : validateFunctionGraph graphTypes unit.function unit.parameters unit.blocks
      unit.operations = .ok report)
    (h : scanUnit types index unit calls = .ok (scan, calls')) (d : Finding index.units.length) :
    scan.Has d ↔ ∃ operation ∈ unit.operations, Finds index adapters operation d := by
  obtain ⟨hblocks, hoperations, hlisted⟩ := listed_of_validateFunctionGraph hgraph
  have hoperation := getElem?_ofEntries_map hoperations
  have hblock := getElem?_ofEntries_map hblocks
  -- what one listed identity contributes, and what one listed block does
  let Listed (id : EntityId) (d : Finding index.units.length) : Prop :=
    ∃ operation ∈ unit.operations, operation.entityId = id ∧ Finds index adapters operation d
  let InBlock (blockId : EntityId) (d : Finding index.units.length) : Prop :=
    ∃ block ∈ unit.blocks, block.entityId = blockId ∧ ∃ id ∈ block.operations, Listed id d
  have hone (state : FunctionScan index.units.length × Nat) (id : EntityId)
      (state' : FunctionScan index.units.length × Nat)
      (hs : scanListed types index unit state id = .ok state')
      (d : Finding index.units.length) : state'.1.Has d ↔ state.1.Has d ∨ Listed id d := by
    rw [scanListed, bind_eq_ok] at hs
    obtain ⟨operation, hfound, hs⟩ := hs
    rw [ofOption_eq_ok] at hfound
    have hmem := (hoperation _ _).1 hfound
    rw [has_of_scanOperation htables _ _ _ hs]
    refine or_congr Iff.rfl ⟨fun hd ↦ ⟨operation, hmem.1, hmem.2, hd⟩, ?_⟩
    rintro ⟨other, hother, hid, hd⟩
    obtain rfl := Option.some.inj (hfound.symm.trans ((hoperation _ _).2 ⟨hother, hid⟩))
    exact hd
  have hall (state : FunctionScan index.units.length × Nat) (blockId : EntityId)
      (state' : FunctionScan index.units.length × Nat)
      (hs : scanBlock types index unit state blockId = .ok state')
      (d : Finding index.units.length) : state'.1.Has d ↔ state.1.Has d ∨ InBlock blockId d := by
    rw [scanBlock, bind_eq_ok] at hs
    obtain ⟨block, hfound, hs⟩ := hs
    rw [ofOption_eq_ok] at hfound
    have hmem := (hblock _ _).1 hfound
    rw [foldlM_collects (P := fun state d ↦ state.1.Has d) hone hs d]
    refine or_congr Iff.rfl ⟨fun hd ↦ ⟨block, hmem.1, hmem.2, hd⟩, ?_⟩
    rintro ⟨other, hother, hid, hd⟩
    obtain rfl := Option.some.inj (hfound.symm.trans ((hblock _ _).2 ⟨hother, hid⟩))
    exact hd
  have hempty : ¬ FunctionScan.Has (⟨∅, ∅⟩ : FunctionScan index.units.length) d := by
    cases d <;> simp [FunctionScan.Has]
  rw [foldlM_collects (P := fun state d ↦ state.1.Has d) hall h d, or_iff_right hempty]
  constructor
  · rintro ⟨_, -, _, -, -, _, -, operation, hoperation, -, hd⟩
    exact ⟨operation, hoperation, hd⟩
  · rintro ⟨operation, hoperation, hd⟩
    obtain ⟨block, hblock, hplaced, hid⟩ := hlisted operation hoperation
    exact ⟨_, hplaced, block, hblock, rfl, _, hid, operation, hoperation, rfl, hd⟩

/-- Every function has the scan of its own. -/
theorem exists_scanUnit_of_scanOperations {scans : Scans index.units.length} {calls : Nat}
    (h : scanOperations types index = .ok (scans, calls)) (place : Fin index.units.length) :
    ∃ calls calls', scanUnit types index index.units[place] calls = .ok (scans[place], calls') := by
  have hfold (places : List (Fin index.units.length)) (hnodup : places.Nodup)
      (state state' : Scans index.units.length × Nat)
      (h : places.foldlM (scanPlace types index) state = .ok state') :
      (∀ p ∉ places, state'.1[p] = state.1[p]) ∧ ∀ p ∈ places, ∃ calls calls',
        scanUnit types index index.units[p] calls = .ok (state'.1[p], calls') := by
    induction places generalizing state with
    | nil =>
      obtain rfl := pure_eq_ok.1 h
      simp
    | cons first places ih =>
      rw [List.foldlM_cons, bind_eq_ok] at h
      obtain ⟨state₁, hfirst, h⟩ := h
      simp only [scanPlace, bind_eq_ok, pure_eq_ok, Prod.exists] at hfirst
      obtain ⟨scan, calls', hscan, rfl⟩ := hfirst
      rw [List.nodup_cons] at hnodup
      obtain ⟨hkept, hscans⟩ := ih hnodup.2 _ h
      refine ⟨fun p hp ↦ ?_, List.forall_mem_cons.2 ⟨⟨state.2, calls', ?_⟩, hscans⟩⟩
      · rw [List.mem_cons, not_or] at hp
        have hne : first.val ≠ p.val := fun heq ↦ hp.1 (Fin.ext heq.symm)
        rw [hkept p hp.2]
        exact Vector.getElem_set_ne first.isLt p.isLt hne
      · rw [hkept first hnodup.1, hscan]
        simp
  exact (hfold _ (List.nodup_finRange _) _ _ h).2 place (List.mem_finRange place)

end Scan

/-! ### Exactness -/

/-- The function calls the other directly, by their identities. -/
def CallsDirectly (units : List FunctionUnit) (function callee : EntityId) : Prop :=
  ∃ unit ∈ units, unit.function.entityId = function ∧
    ∃ operation ∈ unit.operations, Operation.Calls operation callee

/-- What the scans of an accepted program hold, in terms of its operations. -/
structure ScansOf (index : ProgramIndex) (adapters : List AdapterImport)
    (scans : Scans index.units.length) : Prop where
  place_injective (p q : Fin index.units.length) :
    index.units[p].function.entityId = index.units[q].function.entityId → p = q
  has_iff (p : Fin index.units.length) (d : Finding index.units.length) : scans[p].Has d ↔
    ∃ operation ∈ index.units[p].operations, Finds index adapters operation d

namespace ScansOf

variable {index : ProgramIndex} {adapters : List AdapterImport} {scans : Scans index.units.length}
  (h : ScansOf index adapters scans)

include h

theorem mem_next_iff (p q : Fin index.units.length) : q ∈ scans.next p ↔
    CallsDirectly index.units index.units[p].function.entityId
      index.units[q].function.entityId := by
  refine (h.has_iff p (.inl q)).trans ⟨fun hcalls ↦ ⟨_, List.getElem_mem _, rfl, hcalls⟩, ?_⟩
  rintro ⟨unit, hunit, hid, hcalls⟩
  obtain ⟨place, hlt, rfl⟩ := List.getElem_of_mem hunit
  obtain rfl := h.place_injective ⟨place, hlt⟩ p hid
  exact hcalls

/-- A function is reached by its place exactly when it is by its identity. -/
theorem mem_reachable_iff (p q : Fin index.units.length) : q ∈ reachable scans.next {p} ↔
    Relation.ReflTransGen (CallsDirectly index.units) index.units[p].function.entityId
      index.units[q].function.entityId := by
  constructor
  · rintro ⟨_, rfl, hpath⟩
    exact hpath.lift _ fun a b hb ↦ (h.mem_next_iff a b).1 hb
  · intro hpath
    generalize htarget : index.units[q].function.entityId = target at hpath
    induction hpath generalizing q with
    | refl =>
      obtain rfl := h.place_injective q p htarget
      exact isLeast_reachable.1.seeds_subset rfl
    | tail _ hcalls ih =>
      obtain ⟨unit, hunit, hid, hcalls⟩ := hcalls
      obtain ⟨place, hlt, rfl⟩ := List.getElem_of_mem hunit
      refine isLeast_reachable.1.next_subset ⟨place, hlt⟩ (ih ⟨place, hlt⟩ hid) ?_
      exact (h.mem_next_iff _ _).2 ⟨_, hunit, rfl, htarget ▸ hcalls⟩

end ScansOf

theorem scansOf_scanOperations {types : EffectTypes ε} {index : ProgramIndex}
    {units : List FunctionUnit} {effects : List EffectDefinition} {adapters : List AdapterImport}
    {scans : Scans index.units.length} {calls : Nat}
    (htables : index.Tables units effects adapters)
    (hgraphs : validateGraphs types index.units = .ok ())
    (hscans : scanOperations types index = .ok (scans, calls)) : ScansOf index adapters scans where
  place_injective p q hid := Option.some.inj
    (((htables.functions _ p).2 rfl).symm.trans ((htables.functions _ q).2 hid.symm))
  has_iff p d := by
    obtain ⟨_, _, hscan⟩ := exists_scanUnit_of_scanOperations hscans p
    rw [validateGraphs, bind_eq_ok] at hgraphs
    obtain ⟨_, hfold, -⟩ := hgraphs
    obtain ⟨_, _, hunit⟩ := exists_of_foldlM_eq_ok hfold (List.getElem_mem p.isLt)
    simp only [bind_eq_ok, graphJudged, mapError_eq_ok] at hunit
    obtain ⟨report, hreport, -⟩ := hunit
    exact has_of_scanUnit htables hreport hscan d

namespace MutualCalls

/-- Judgments that take every type as well formed and closed. -/
def types : EffectTypes Unit where
  definition _ := .error ()
  checkType _ _ := .ok ()
  persistable _ := .ok true
  instantiateInScope type _ _ := .ok type
  requirePersistable _ := .ok ()
  checkConstant _ := .ok ()

def outcome : TypeExpr := .result .unit .unit

/-- A function of one parameter that runs the operations and returns what the first comes to. -/
def unit (function parameter block first : EntityId) (operations : List Operation) :
    FunctionUnit where
  function := ⟨function, [], [parameter], outcome, [.splat 9], block, [block], []⟩
  parameters := [⟨parameter, function, .function, 0, .unit⟩]
  blocks := [⟨block, function, [], operations.map (·.entityId),
    .return_ ⟨.operationResult ⟨first, 0⟩⟩, .required⟩]
  operations := operations

def call (id block : EntityId) (parameter callee : EntityId) : Operation :=
  ⟨id, block, 0, .callDirect, [.parameter parameter], [outcome], .function ⟨callee, []⟩⟩

def caller : FunctionUnit :=
  unit (.splat 1) (.splat 3) (.splat 5) (.splat 7)
    [call (.splat 7) (.splat 5) (.splat 3) (.splat 2)]

def callee : FunctionUnit :=
  unit (.splat 2) (.splat 4) (.splat 6) (.splat 8)
    [call (.splat 8) (.splat 6) (.splat 4) (.splat 1),
     ⟨.splat 10, .splat 6, 1, .effectRequest, [.parameter (.splat 4), .parameter (.splat 4)],
      [outcome], .entity (.splat 9)⟩]

def effect : EffectDefinition := ⟨.splat 9, .clockRead, .unit, .unit, .unit, .unit⟩

theorem accepted : ∃ report,
    validateEffectProgram types [caller, callee] [effect] [] [] [] = .ok report := by
  have hok : (validateEffectProgram types [caller, callee] [effect] [] [] []).isOk = true := by
    with_unfolding_all decide
  cases h : validateEffectProgram types [caller, callee] [effect] [] [] [] with
  | ok report => exact ⟨report, rfl⟩
  | error e =>
    rw [h] at hok
    cases hok

end MutualCalls

end Sley.Check
