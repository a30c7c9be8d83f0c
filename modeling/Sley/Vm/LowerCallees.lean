import Sley.Check.Graphs
import Sley.Lib.Worklist
import Sley.Vm.LowerJudgment

/-!
# What a lowering covers

The lowering of a function lowers every function that it calls, directly or not, and under the same
checks but one: that the constants which its operations name have a canonical form is asked of the
entry alone. **A lowering that succeeds has found, validated and judged every called function**
(`passes_of_called`), and its named constants are canonical throughout exactly if those of the
called functions are (`lower_constants_canonical_iff`).
-/

namespace Sley.Vm.Lower

open Ssmc hiding TypeEnvironment
open TypeCheck (TypeEnvironment TypeErrorCode)
open Scb1 (Bytes)
open LoweringInput (own)
open StateT (foldlM_rule run_bind_eq_ok run_ofExcept_eq_ok run_pure_eq_ok)

/-! ### What is called -/

/-- The graph of a function: the entry is the one of the request. -/
def LoweringInput.graphOf (root : LoweringInput) (function : EntityId) : Option FunctionGraph :=
  if function = root.function.entityId then some root.function
  else root.functions.find? (·.entityId = function)

/-- The function that an operation enters. -/
def calledBy (contracts : List ContractDefinition) (operation : Operation) : Option EntityId :=
  match operation.opcode, operation.immediate with
  | .callDirect, .function reference => some reference.function
  | .contractAssert, .entity contract =>
    (contracts.find? (·.entityId = contract)).map (·.predicate)
  | _, _ => none

/-- The functions that a graph calls by its own operations. -/
def LoweringInput.callsOf (root : LoweringInput) (graph : FunctionGraph) : Set EntityId :=
  {callee | ∃ operation ∈ (root.narrow graph).operations,
    calledBy root.contracts operation = some callee}

/-- One function calls another. -/
def LoweringInput.calls (root : LoweringInput) (function : EntityId) : Set EntityId :=
  {callee | ∃ graph, root.graphOf function = some graph ∧ callee ∈ root.callsOf graph}

/-- The entry, or a function that is called transitively. -/
def LoweringInput.Called (root : LoweringInput) (function : EntityId) : Prop :=
  Relation.ReflTransGen (fun caller callee ↦ callee ∈ root.calls caller) root.function.entityId
    function

/-- Every constant that the operations of a function name has a canonical form. -/
def LoweringInput.NamesCanonical (root : LoweringInput) (function : EntityId) : Prop :=
  ∀ graph, root.graphOf function = some graph →
    ∀ operation ∈ (root.narrow graph).operations, namesCanonical root operation

/-! ### The maps of a function -/

/-- What the maps hold is from the inventory, under its identity. -/
structure Maps.From (input : LoweringInput) (maps : Maps) : Prop where
  blocks : ∀ {id block slot}, maps.blocks[id]? = some (block, slot) →
    block ∈ input.blocks ∧ block.entityId = id
  operations : ∀ {id operation results}, maps.operations[id]? = some (operation, results) →
    operation ∈ input.operations ∧ operation.entityId = id

section Maps

variable {input : LoweringInput} {maps maps' : Maps} {s s' : Nat}

theorem run_localEntry_eq_ok {α : Type} {entry : Option α} {a : α} :
    (localEntry entry).run s = .ok (a, s') ↔ entry = some a ∧ s' = s := by
  rw [localEntry, run_ofExcept_eq_ok, Except.ofOption_eq_ok]

theorem allocateRegister_eq_ok {valueType : TypeExpr} {register : Register}
    (h : (maps.allocateRegister valueType).run s = .ok ((register, maps'), s')) :
    maps'.blocks = maps.blocks ∧ maps'.operations = maps.operations := by
  obtain ⟨_, _, -, h⟩ := run_bind_eq_ok.1 h
  obtain ⟨_, _, -, h⟩ := run_bind_eq_ok.1 h
  obtain ⟨heq, -⟩ := run_pure_eq_ok.1 h
  obtain ⟨-, rfl⟩ := Prod.mk.inj heq
  exact ⟨rfl, rfl⟩

variable {inventory : EntityMap Parameter} {id : EntityId}

theorem addParameter_eq_ok {register : Register}
    (h : (Maps.addParameter inventory maps id).run s = .ok ((register, maps'), s')) :
    maps'.blocks = maps.blocks ∧ maps'.operations = maps.operations := by
  obtain ⟨_, _, -, h⟩ := run_bind_eq_ok.1 h
  obtain ⟨⟨_, maps₁⟩, _, halloc, h⟩ := run_bind_eq_ok.1 h
  obtain ⟨heq, -⟩ := run_pure_eq_ok.1 h
  obtain ⟨-, rfl⟩ := Prod.mk.inj heq
  obtain ⟨hblocks, hoperations⟩ := allocateRegister_eq_ok halloc
  exact ⟨hblocks, hoperations⟩

theorem Maps.From.of_eq (h : maps.From input) (hblocks : maps'.blocks = maps.blocks)
    (hoperations : maps'.operations = maps.operations) : maps'.From input where
  blocks := by
    rw [hblocks]
    exact h.blocks
  operations := by
    rw [hoperations]
    exact h.operations

theorem Maps.From.addFunctionParameter
    (h : (Maps.addFunctionParameter inventory maps id).run s = .ok (maps', s'))
    (hmaps : maps.From input) : maps'.From input := by
  obtain ⟨⟨_, maps₁⟩, _, hadd, h⟩ := run_bind_eq_ok.1 h
  obtain ⟨rfl, -⟩ := run_pure_eq_ok.1 h
  obtain ⟨hblocks, hoperations⟩ := addParameter_eq_ok hadd
  exact hmaps.of_eq hblocks hoperations

theorem Maps.From.addOperation {inventory : EntityMap Operation}
    (hinventory : ∀ {id operation}, inventory[id]? = some operation →
      operation ∈ input.operations ∧ operation.entityId = id)
    (h : (Maps.addOperation inventory maps id).run s = .ok (maps', s'))
    (hmaps : maps.From input) : maps'.From input := by
  obtain ⟨operation, _, hentry, h⟩ := run_bind_eq_ok.1 h
  obtain ⟨⟨results, maps₁⟩, _, hfold, h⟩ := run_bind_eq_ok.1 h
  obtain ⟨rfl, -⟩ := run_pure_eq_ok.1 h
  -- the results of the operation only get registers
  have hsame : maps₁.blocks = maps.blocks ∧ maps₁.operations = maps.operations := by
    refine foldlM_rule (P := fun p : List Register × Maps ↦
      p.2.blocks = maps.blocks ∧ p.2.operations = maps.operations) ?_ hfold ⟨rfl, rfl⟩
    rintro ⟨_, maps₂⟩ resultType ⟨_, maps₃⟩ _ _ - hstep ⟨hblocks, hoperations⟩
    obtain ⟨⟨_, maps₄⟩, _, halloc, hstep⟩ := run_bind_eq_ok.1 hstep
    obtain ⟨heq, -⟩ := run_pure_eq_ok.1 hstep
    obtain ⟨-, rfl⟩ := Prod.mk.inj heq
    obtain ⟨hblocks', hoperations'⟩ := allocateRegister_eq_ok halloc
    exact ⟨hblocks'.trans hblocks, hoperations'.trans hoperations⟩
  have hfrom : maps₁.From input := hmaps.of_eq hsame.1 hsame.2
  refine ⟨hfrom.blocks, fun {id' operation' results'} hlookup ↦ ?_⟩
  replace hlookup : (maps₁.operations.insert id (operation, results))[id']? =
    some (operation', results') := hlookup
  rw [EntityMap.getElem?_insert_eq] at hlookup
  split_ifs at hlookup with hid
  · subst hid
    obtain ⟨rfl, -⟩ := Prod.mk.inj (Option.some.inj hlookup)
    exact hinventory (run_localEntry_eq_ok.1 hentry).1
  · exact hfrom.operations hlookup

theorem Maps.From.addBlock {blockInventory : EntityMap Block}
    {parameterInventory : EntityMap Parameter} {operationInventory : EntityMap Operation}
    {declared : EntityId × Nat}
    (hblocks : ∀ {id block}, blockInventory[id]? = some block →
      block ∈ input.blocks ∧ block.entityId = id)
    (hoperations : ∀ {id operation}, operationInventory[id]? = some operation →
      operation ∈ input.operations ∧ operation.entityId = id)
    (h : (Maps.addBlock blockInventory parameterInventory operationInventory maps declared).run s =
      .ok (maps', s'))
    (hmaps : maps.From input) : maps'.From input := by
  obtain ⟨id, slot⟩ := declared
  obtain ⟨block, _, hentry, h⟩ := run_bind_eq_ok.1 h
  obtain ⟨_, _, -, h⟩ := run_bind_eq_ok.1 h
  obtain ⟨maps₁, _, hparameters, h⟩ := run_bind_eq_ok.1 h
  have hinserted : Maps.From input
      { maps with blocks := maps.blocks.insert id (block, UInt32.ofNat slot) } := by
    refine ⟨fun {id' block' slot'} hlookup ↦ ?_, hmaps.operations⟩
    replace hlookup : (maps.blocks.insert id (block, UInt32.ofNat slot))[id']? =
      some (block', slot') := hlookup
    rw [EntityMap.getElem?_insert_eq] at hlookup
    split_ifs at hlookup with hid
    · subst hid
      obtain ⟨rfl, -⟩ := Prod.mk.inj (Option.some.inj hlookup)
      exact hblocks (run_localEntry_eq_ok.1 hentry).1
    · exact hmaps.blocks hlookup
  refine foldlM_rule (P := Maps.From input)
    (fun _ _ _ _ _ _ hstep hfrom ↦ hfrom.addOperation hoperations hstep) h ?_
  refine foldlM_rule (P := Maps.From input) ?_ hparameters hinserted
  intro maps₂ parameterId maps₃ _ _ _ hstep hfrom
  obtain ⟨⟨_, maps₄⟩, _, hadd, hstep⟩ := run_bind_eq_ok.1 hstep
  obtain ⟨rfl, -⟩ := run_pure_eq_ok.1 hstep
  obtain ⟨hblocks', hoperations'⟩ := addParameter_eq_ok hadd
  exact hfrom.of_eq hblocks' hoperations'

theorem getElem?_inventory {α : Type} {id : α → EntityId} {values : List α}
    (hnodup : (values.map id).Nodup) {k : EntityId} {v : α}
    (h : (EntityMap.ofEntries (values.map fun v ↦ (id v, v)))[k]? = some v) :
    v ∈ values ∧ id v = k := by
  rw [EntityMap.getElem?_ofEntries (by rwa [List.map_map])] at h
  obtain ⟨v', hv', heq⟩ := List.mem_map.1 h
  obtain ⟨rfl, rfl⟩ := Prod.mk.inj heq
  exact ⟨hv', rfl⟩

/-- The maps of a function are made from its inventory. -/
theorem from_of_build (hblocks : (input.blocks.map (·.entityId)).Nodup)
    (hoperations : (input.operations.map (·.entityId)).Nodup)
    (h : (Maps.build input).run s = .ok (maps, s')) : maps.From input := by
  obtain ⟨maps₁, _, hparameters, h⟩ := run_bind_eq_ok.1 h
  obtain ⟨maps₂, _, hfold, h⟩ := run_bind_eq_ok.1 h
  obtain ⟨_, _, -, h⟩ := run_bind_eq_ok.1 h
  obtain ⟨rfl, -⟩ := run_pure_eq_ok.1 h
  have hempty : Maps.empty.From input := ⟨fun h ↦ by simp [Maps.empty] at h,
    fun h ↦ by simp [Maps.empty] at h⟩
  refine foldlM_rule (P := Maps.From input) (fun _ _ _ _ _ _ hstep hfrom ↦
    hfrom.addBlock (getElem?_inventory hblocks) (getElem?_inventory hoperations) hstep) hfold ?_
  exact foldlM_rule (P := Maps.From input)
    (fun _ _ _ _ _ _ hstep hfrom ↦ hfrom.addFunctionParameter hstep) hparameters hempty

end Maps

/-! ### The calls of emitted code -/

section Emission

variable {input : LoweringInput} {maps : Maps} {contracts : List ContractDefinition} {s s' : Nat}

theorem tag_eq_iff {a b : Opcode} : a.tag = b.tag ↔ a = b := by
  refine ⟨fun h ↦ ?_, congrArg _⟩
  have ha : Opcode.fromTag b.tag.toNat = some a := Opcode.fromTag_eq_some.2 (congrArg _ h)
  exact Option.some.inj (ha.symm.trans (Opcode.fromTag_eq_some.2 rfl))

/-- The code of an operation enters what the operation enters. -/
theorem calledFunction_of_emitInstruction (contracts : List ContractDefinition) {id : EntityId}
    {instruction : Instruction} (h : (emitInstruction true maps id).run s = .ok (instruction, s')) :
    ∃ operation results, maps.operations[id]? = some (operation, results) ∧
      calledFunction contracts instruction = calledBy contracts operation := by
  obtain ⟨⟨operation, results⟩, _, hentry, h⟩ := run_bind_eq_ok.1 h
  obtain ⟨operands, _, -, h⟩ := run_bind_eq_ok.1 h
  obtain ⟨_, _, -, h⟩ := run_bind_eq_ok.1 h
  obtain ⟨rfl, -⟩ := run_pure_eq_ok.1 h
  refine ⟨operation, results, (run_localEntry_eq_ok.1 hentry).1, ?_⟩
  show calledFunction contracts ⟨operation.opcode.tag, operands, results, operation.immediate⟩ = _
  simp only [calledFunction, tag_eq_iff]
  obtain ⟨_, _, _, opcode, _, _, immediate⟩ := operation
  cases immediate <;> cases opcode <;> rfl

/-- The instructions of a block are those of the operations that it lists. -/
theorem instructions_of_emitBlock {blockId : EntityId} {emitted : BytecodeBlock}
    (h : (emitBlock true maps blockId).run s = .ok (emitted, s')) :
    ∃ block slot, maps.blocks[blockId]? = some (block, slot) ∧
      List.Forall₂ (fun id instruction ↦ ∃ s s',
        (emitInstruction true maps id).run s = .ok (instruction, s'))
        block.operations emitted.instructions := by
  obtain ⟨⟨block, slot⟩, _, hentry, h⟩ := run_bind_eq_ok.1 h
  obtain ⟨_, _, -, h⟩ := run_bind_eq_ok.1 h
  obtain ⟨instructions, _, hinstructions, h⟩ := run_bind_eq_ok.1 h
  obtain ⟨_, _, -, h⟩ := run_bind_eq_ok.1 h
  obtain ⟨rfl, -⟩ := run_pure_eq_ok.1 h
  exact ⟨block, slot, (run_localEntry_eq_ok.1 hentry).1, StateT.forall₂_of_mapM hinstructions⟩

variable {bytecode : BytecodeFunction}

theorem blocks_of_emitFunction (hextended : input.profile.isExtended)
    (h : (emitFunction input maps).run s = .ok (bytecode, s')) :
    List.Forall₂ (fun id emitted ↦ ∃ s s', (emitBlock true maps id).run s = .ok (emitted, s'))
      input.function.blocks bytecode.blocks := by
  obtain ⟨blocks, _, hblocks, h⟩ := run_bind_eq_ok.1 h
  obtain ⟨_, _, -, h⟩ := run_bind_eq_ok.1 h
  obtain ⟨rfl, -⟩ := run_pure_eq_ok.1 h
  rw [hextended] at hblocks
  exact StateT.forall₂_of_mapM hblocks

theorem eq_of_nodup_map {α : Type} {id : α → EntityId} {values : List α}
    (hnodup : (values.map id).Nodup) {v w : α} (hv : v ∈ values) (hw : w ∈ values)
    (h : id v = id w) : v = w := List.inj_on_of_nodup_map hnodup hv hw h

/-- **The code of a valid function enters what its operations enter.** -/
theorem mem_calledFunctions_iff {report : Check.CfgReport}
    {w w' : Nat} (hextended : input.profile.isExtended) (hgraph : validateGraph input = .ok report)
    (hbuild : (Maps.build input).run w = .ok (maps, w'))
    (hemit : (emitFunction input maps).run s = .ok (bytecode, s')) {callee : EntityId} :
    callee ∈ calledFunctions bytecode contracts ↔
      ∃ operation ∈ input.operations, calledBy contracts operation = some callee := by
  rw [validateGraph, Except.mapError_eq_ok] at hgraph
  obtain ⟨hnodup, hnodup', hlisted⟩ := Check.listed_of_validateFunctionGraph hgraph
  have hfrom := from_of_build hnodup hnodup' hbuild
  have hblocks := blocks_of_emitFunction hextended hemit
  simp only [calledFunctions, List.mem_flatMap, List.mem_filterMap]
  constructor
  · rintro ⟨emitted, hemitted, instruction, hinstruction, hcalled⟩
    obtain ⟨blockId, -, _, _, hblock⟩ := hblocks.flip.exists_of_mem hemitted
    obtain ⟨block, slot, -, hoperations⟩ := instructions_of_emitBlock hblock
    obtain ⟨operationId, -, _, _, hoperation⟩ := hoperations.flip.exists_of_mem hinstruction
    obtain ⟨operation, results, hlookup, hsame⟩ :=
      calledFunction_of_emitInstruction contracts hoperation
    exact ⟨operation, (hfrom.operations hlookup).1, hsame ▸ hcalled⟩
  · rintro ⟨operation, hoperation, hcalled⟩
    obtain ⟨block, hblock, hdeclared, hlist⟩ := hlisted operation hoperation
    obtain ⟨emitted, hemitted, _, _, hemitBlock⟩ := hblocks.exists_of_mem hdeclared
    obtain ⟨block', slot, hlookup, hoperations⟩ := instructions_of_emitBlock hemitBlock
    obtain ⟨hblock', hid⟩ := hfrom.blocks hlookup
    obtain rfl := eq_of_nodup_map hnodup hblock' hblock hid
    obtain ⟨instruction, hinstruction, _, _, hemitted'⟩ := hoperations.exists_of_mem hlist
    obtain ⟨operation', results, hlookup', hsame⟩ :=
      calledFunction_of_emitInstruction contracts hemitted'
    obtain ⟨hoperation', hid'⟩ := hfrom.operations hlookup'
    obtain rfl := eq_of_nodup_map hnodup' hoperation' hoperation hid'
    exact ⟨emitted, hemitted, instruction, hinstruction, hsame ▸ hcalled⟩

end Emission

/-- A walk that passes has passed at every operation of a valid function. -/
theorem visited_of_forOperations {input : LoweringInput} {maps : Maps} {report : Check.CfgReport}
    {visit : Operation → Lowering Unit} {w w' s s' : Nat}
    (hgraph : validateGraph input = .ok report) (hbuild : (Maps.build input).run w = .ok (maps, w'))
    (h : (forOperations input.function.blocks maps visit).run s = .ok ((), s'))
    {operation : Operation} (hoperation : operation ∈ input.operations) :
    ∃ s s', (visit operation).run s = .ok ((), s') := by
  rw [validateGraph, Except.mapError_eq_ok] at hgraph
  obtain ⟨hnodup, hnodup', hlisted⟩ := Check.listed_of_validateFunctionGraph hgraph
  have hfrom := from_of_build hnodup hnodup' hbuild
  obtain ⟨block, hblock, hdeclared, hlist⟩ := hlisted operation hoperation
  obtain ⟨_, _, hhere⟩ := StateT.exists_of_forM h hdeclared
  obtain ⟨⟨block', slot⟩, _, hentry, hwalk⟩ := run_bind_eq_ok.1 hhere
  obtain ⟨hblock', hid⟩ := hfrom.blocks (run_localEntry_eq_ok.1 hentry).1
  obtain rfl := eq_of_nodup_map hnodup hblock' hblock hid
  obtain ⟨_, _, hthere⟩ := StateT.exists_of_forM hwalk hlist
  obtain ⟨⟨operation', results⟩, s₁, hentry', hvisit⟩ := run_bind_eq_ok.1 hthere
  obtain ⟨hoperation', hid'⟩ := hfrom.operations (run_localEntry_eq_ok.1 hentry').1
  obtain rfl := eq_of_nodup_map hnodup' hoperation' hoperation hid'
  exact ⟨s₁, _, hvisit⟩

/-! ### The callees -/

section Callees

variable {root : LoweringInput} {graph : FunctionGraph} {bytecode : BytecodeFunction}
  {done done' : EntityMap BytecodeFunction} {pending : List EntityId} {s s' : Nat}

/-- Everything that a lowering asks of a function that is called. -/
structure LoweringInput.Passes (root : LoweringInput) (graph : FunctionGraph) : Prop where
  valid : ∃ report, validateGraph (root.narrow graph) = .ok report
  closed : checkProfile graph = .ok ()
  judged : ∃ maps, (∃ s s', (Maps.build (root.narrow graph)).run s = .ok (maps, s')) ∧
    ∀ operation ∈ (root.narrow graph).operations, ∃ s s',
      (judgeOperation (root.context graph.entityId) maps operation).run s = .ok ((), s')

theorem lowerCallee_eq_ok (hextended : root.profile.isExtended)
    (h : (lowerCallee root graph).run s = .ok (bytecode, s')) :
    root.Passes graph ∧
      ∀ callee, callee ∈ calledFunctions bytecode root.contracts ↔ callee ∈ root.callsOf graph := by
  obtain ⟨report, _, hvalid, h⟩ := run_bind_eq_ok.1 h
  obtain ⟨_, _, hclosed, h⟩ := run_bind_eq_ok.1 h
  obtain ⟨maps, _, hbuild, h⟩ := run_bind_eq_ok.1 h
  obtain ⟨_, _, hjudge, hemit⟩ := run_bind_eq_ok.1 h
  obtain ⟨hvalid, -⟩ := run_ofExcept_eq_ok.1 hvalid
  obtain ⟨hclosed, -⟩ := run_ofExcept_eq_ok.1 hclosed
  have hprofile : (root.narrow graph).profile.isExtended := hextended
  obtain ⟨_, _, -, hwalk⟩ := run_bind_eq_ok.1 hjudge
  exact ⟨⟨⟨report, hvalid⟩, hclosed, maps, ⟨_, _, hbuild⟩,
      fun _ ↦ visited_of_forOperations hvalid hbuild hwalk⟩,
    fun _ ↦ mem_calledFunctions_iff hprofile hvalid hbuild hemit⟩

/-- The entry and what is lowered. -/
def covered (root : LoweringInput) (done : EntityMap BytecodeFunction) : Set EntityId :=
  {function | isLowered root done function}

theorem covered_insert {function : EntityId} :
    covered root (done.insert function bytecode) = insert function (covered root done) := by
  ext f
  simp only [covered, isLowered, Set.mem_insert_iff, Set.mem_ofPred_eq, decide_eq_true_eq,
    Std.ExtTreeMap.mem_insert, Std.LawfulEqCmp.compare_eq_iff_eq]
  tauto

/-- What is dropped from the front of the queue is covered. -/
theorem Closing.dropWhile {seeds : Set EntityId}
    (h : Closing root.calls seeds (covered root done) pending) :
    Closing root.calls seeds (covered root done) (pending.dropWhile (isLowered root done)) := by
  induction pending with
  | nil => exact h
  | cons function pending ih =>
    rw [List.dropWhile_cons]
    split_ifs with hlowered
    · exact ih (h.skip hlowered)
    · exact h

/-- **The callees of a lowering are closed under calls**, and each of them has passed. -/
theorem lowerCallees_covers (hextended : root.profile.isExtended)
    (h : (lowerCallees root done pending).run s = .ok (done', s')) {seeds : Set EntityId}
    (hclosing : Closing root.calls seeds (covered root done) pending)
    (hpasses : ∀ f ∈ done, ∃ graph, root.functions.find? (·.entityId = f) = some graph ∧
      root.Passes graph) :
    Closing root.calls seeds (covered root done') [] ∧
      ∀ f ∈ done', ∃ graph, root.functions.find? (·.entityId = f) = some graph ∧
        root.Passes graph := by
  fun_induction lowerCallees root done pending generalizing s with
  | case1 done pending hpending =>
    obtain ⟨rfl, -⟩ := run_pure_eq_ok.1 h
    exact ⟨hpending ▸ Closing.dropWhile hclosing, hpasses⟩
  | case2 done pending function waiting hpending hfind => cases h
  | case3 done pending function waiting hpending graph hfind ih =>
    obtain ⟨bytecode, s₁, hlower, h⟩ := run_bind_eq_ok.1 h
    obtain ⟨hgraph, hcalled⟩ := lowerCallee_eq_ok hextended hlower
    have hwaiting := Closing.dropWhile hclosing
    rw [hpending] at hwaiting
    have hentry : function ≠ root.function.entityId := by
      have hhead := List.head?_dropWhile_not (isLowered root done) pending
      rw [hpending] at hhead
      simp [isLowered] at hhead
      exact hhead.1
    have hcalls : root.calls function = root.callsOf graph := by
      ext callee
      simp [LoweringInput.calls, LoweringInput.graphOf, hentry, hfind]
    refine ih bytecode h ?_ fun f hf ↦ ?_
    · rw [covered_insert]
      refine (hwaiting.visit (fun y hy ↦ hcalls ▸ (hcalled y).1 hy) fun y hy ↦
        .inr (List.mem_append_right _ ((hcalled y).2 (hcalls ▸ hy)))).congr fun x ↦ ?_
      simp only [List.mem_append, List.mem_reverse, or_comm]
    · rw [Std.ExtTreeMap.mem_insert, Std.LawfulEqCmp.compare_eq_iff_eq] at hf
      obtain rfl | hf := hf
      · exact ⟨graph, hfind, hgraph⟩
      · exact hpasses f hf

end Callees

/-! ### The whole of a lowering -/

section Whole

variable {derive : Bytes → Digest} {root : LoweringInput} {result : LoweredFunction}

/-- What has happened when a lowering succeeds. -/
theorem stages_of_lowerFunction (h : lowerFunction derive root = .ok result) :
    (∃ report, validateGraph root.own = .ok report) ∧
      requireCanonicalReferencedConstants root.own = .ok () ∧
      ∃ maps, (∃ s s', (Maps.build root.own).run s = .ok (maps, s')) ∧
        (∃ s s', (checkOperations root.own root maps).run s = .ok ((), s')) ∧
        ∃ s s', (emitAll root.own root maps).run s =
          .ok ((result.bytecode, result.callees), s') := by
  obtain ⟨report, hgraph, h⟩ := Except.bind_eq_ok.1 h
  obtain ⟨key, -, h⟩ := Except.bind_eq_ok.1 h
  obtain ⟨_, -, h⟩ := Except.bind_eq_ok.1 h
  obtain ⟨work, -, h⟩ := Except.bind_eq_ok.1 h
  obtain ⟨⟨⟨bytecode, callees⟩, work'⟩, hrun, h⟩ := Except.bind_eq_ok.1 h
  obtain ⟨bytes, -, h⟩ := Except.bind_eq_ok.1 h
  obtain rfl := Except.ok.inj h
  obtain ⟨maps, _, hbuild, hrun⟩ := run_bind_eq_ok.1 hrun
  obtain ⟨_, _, hcheck, hrun⟩ := run_bind_eq_ok.1 hrun
  obtain ⟨_, _, hcanonical, hemit⟩ := run_bind_eq_ok.1 hrun
  obtain ⟨hcanonical, -⟩ := run_ofExcept_eq_ok.1 hcanonical
  exact ⟨⟨report, hgraph⟩, hcanonical, maps, ⟨_, _, hbuild⟩, ⟨_, _, hcheck⟩, _, _, hemit⟩

theorem mem_own_of_mem_narrow {operation : Operation}
    (h : operation ∈ (root.narrow root.function).operations) : operation ∈ root.own.operations := by
  rw [own]
  split_ifs
  · exact h
  · exact (List.mem_filter.1 h).1

theorem namesCanonical_own (operation : Operation) :
    namesCanonical root.own operation = namesCanonical root operation := by
  rw [own]
  split_ifs <;> rfl

/-- The entry is asked for the canonical form of its constants. -/
theorem namesCanonical_entry (h : lowerFunction derive root = .ok result) :
    root.NamesCanonical root.function.entityId := by
  obtain ⟨-, hcanonical, -⟩ := stages_of_lowerFunction h
  intro graph hgraph operation hoperation
  rw [LoweringInput.graphOf, if_pos rfl] at hgraph
  obtain rfl := Option.some.inj hgraph
  have hpassed := Except.forM_eq_ok.1 hcanonical operation (mem_own_of_mem_narrow hoperation)
  rw [rejectIf, Except.rejectIf_eq_ok, namesCanonical_own] at hpassed
  simpa using hpassed

/-- Under the restricted profile nothing is called. -/
theorem calls_of_restricted (hrestricted : root.profile.isExtended = false)
    (h : lowerFunction derive root = .ok result) : root.calls root.function.entityId = ∅ := by
  obtain ⟨⟨report, hgraph⟩, -, maps, ⟨_, _, hbuild⟩, ⟨_, _, hcheck⟩, -⟩ := stages_of_lowerFunction h
  have hown : root.own = root := by
    rw [own, hrestricted]
    rfl
  rw [hown] at hgraph hbuild hcheck
  rw [checkOperations, hrestricted] at hcheck
  refine Set.eq_empty_of_forall_notMem ?_
  rintro callee ⟨graph, hfound, operation, hoperation, hcalled⟩
  rw [LoweringInput.graphOf, if_pos rfl] at hfound
  obtain rfl := Option.some.inj hfound
  obtain ⟨_, _, hvisit⟩ :=
    visited_of_forOperations hgraph hbuild hcheck (List.mem_filter.1 hoperation).1
  obtain ⟨_, _, hopcode, -⟩ := run_bind_eq_ok.1 hvisit
  obtain ⟨_, _, _, opcode, _, _, immediate⟩ := operation
  cases opcode <;> first | cases hcalled | cases hopcode

/-- **A lowering covers what it calls.** Every function that is called, directly or not, was found,
and has passed all that a lowering asks of it. -/
theorem passes_of_called (h : lowerFunction derive root = .ok result) {function : EntityId}
    (hcalled : root.Called function) (hne : function ≠ root.function.entityId) :
    ∃ graph, root.functions.find? (·.entityId = function) = some graph ∧ root.Passes graph := by
  cases hextended : root.profile.isExtended with
  | false =>
    obtain rfl | ⟨callee, hcallee, -⟩ := Relation.ReflTransGen.cases_head hcalled
    · exact absurd rfl hne
    · rw [calls_of_restricted hextended h] at hcallee
      exact hcallee.elim
  | true =>
    obtain ⟨⟨report, hgraph⟩, -, maps, ⟨_, _, hbuild⟩, -, _, _, hemit⟩ := stages_of_lowerFunction h
    have hown := own_of_isExtended hextended
    rw [hown] at hgraph hbuild hemit
    obtain ⟨bytecode, s₁, hbytecode, hemit⟩ := run_bind_eq_ok.1 hemit
    have hprofile : (root.narrow root.function).profile.isExtended = true := hextended
    rw [if_pos hprofile] at hemit
    obtain ⟨done, _, hlower, -⟩ := run_bind_eq_ok.1 hemit
    have hcalls : ∀ callee, callee ∈ calledFunctions bytecode root.contracts ↔
        callee ∈ root.calls root.function.entityId := by
      intro callee
      rw [mem_calledFunctions_iff hprofile hgraph hbuild hbytecode]
      simp [LoweringInput.calls, LoweringInput.graphOf, LoweringInput.callsOf]
    have hentry : covered root ∅ = insert root.function.entityId ∅ := by
      ext f
      simp [covered, isLowered]
    have hstart : Closing root.calls {f | f ∈ [root.function.entityId]} (covered root ∅)
        (calledFunctions bytecode root.contracts).reverse := by
      rw [hentry]
      refine (Closing.start.visit (fun y hy ↦ (hcalls y).1 hy) fun y hy ↦
        .inr (List.mem_append_right _ ((hcalls y).2 hy))).congr fun x ↦ ?_
      simp
    obtain ⟨hclosing, hpasses⟩ := lowerCallees_covers hextended hlower hstart fun f hf ↦
      (Std.ExtTreeMap.not_mem_empty hf).elim
    have hcovered : function ∈ covered root done := by
      rw [hclosing.eq_reachable]
      exact ⟨root.function.entityId, List.mem_singleton_self _, hcalled⟩
    have hmem : function = root.function.entityId ∨ function ∈ done := by
      simpa [covered, isLowered] using hcovered
    exact hpasses function (hmem.resolve_left hne)

/-- **Where the constants of a lowered program have canonical forms.** When a lowering succeeds, the
constants that the entry and the called functions name have canonical forms iff those that the
called functions name have; and every called function has passed all the other checks. -/
theorem lower_constants_canonical_iff (h : lowerFunction derive root = .ok result) :
    ((∀ function, root.Called function → root.NamesCanonical function) ↔
      ∀ function, root.Called function → function ≠ root.function.entityId →
        root.NamesCanonical function) ∧
    ∀ function, root.Called function → function ≠ root.function.entityId →
      ∃ graph, root.functions.find? (·.entityId = function) = some graph ∧ root.Passes graph := by
  refine ⟨⟨fun hall function hcalled _ ↦ hall function hcalled, fun hall function hcalled ↦ ?_⟩,
    fun function ↦ passes_of_called h⟩
  by_cases hentry : function = root.function.entityId
  · rw [hentry]
    exact namesCanonical_entry h
  · exact hall function hcalled hentry

end Whole

/-! ### A callee with a map out of order -/

/-- The two Booleans as keys, the greater one first. -/
def outOfOrderMap : ConstantDefinition where
  entityId := .splat 7
  value := ⟨.orderedMap .bool .unit,
    .map [⟨⟨.bool, .bool true⟩, ⟨.unit, .unit⟩⟩, ⟨⟨.bool, .bool false⟩, ⟨.unit, .unit⟩⟩]⟩

/-- A function that calls another one, which names the map. -/
def outOfOrderRequest : LoweringInput :=
  let entry := [calls (.splat 3) (.splat 2) 0 (.splat 4)]
  let callee : List Operation := [⟨.splat 6, .splat 5, 0, .constantRef, [],
    [.orderedMap .bool .unit], .entity (.splat 7)⟩]
  { request .extendedV1 [trapping (.splat 1) (.splat 2) entry,
      trapping (.splat 4) (.splat 5) callee] (entry ++ callee) with
    constants := [outOfOrderMap] }

theorem lowers_outOfOrderRequest :
    ∃ result, lowerFunction (fun _ ↦ .splat 9) outOfOrderRequest = .ok result := by
  have hok : (lowerFunction (fun _ ↦ .splat 9) outOfOrderRequest).isOk = true := by
    decide +kernel
  cases h : lowerFunction (fun _ ↦ .splat 9) outOfOrderRequest with
  | ok result => exact ⟨result, rfl⟩
  | error e =>
    rw [h] at hok
    cases hok

theorem called_outOfOrderRequest : outOfOrderRequest.Called (.splat 4) :=
  .single ⟨outOfOrderRequest.function, if_pos rfl, calls (.splat 3) (.splat 2) 0 (.splat 4),
    List.mem_filter.2 ⟨List.mem_cons_self, by decide⟩, rfl⟩

theorem not_namesCanonical_outOfOrderRequest : ¬ outOfOrderRequest.NamesCanonical (.splat 4) := by
  intro hcanonical
  have hnamed := hcanonical _ (if_neg (by decide)) ⟨.splat 6, .splat 5, 0, .constantRef, [],
    [.orderedMap .bool .unit], .entity (.splat 7)⟩
    (List.mem_filter.2 ⟨List.mem_cons_of_mem _ List.mem_cons_self, by decide⟩)
  revert hnamed
  with_unfolding_all decide

/-- The lowering succeeds, though the called function names a constant without a canonical form and
cannot be lowered itself. -/
theorem lower_outOfOrder :
    ¬ ((∃ result, lowerFunction (fun _ ↦ .splat 9) outOfOrderRequest = .ok result) →
        ∀ function, outOfOrderRequest.Called function →
          outOfOrderRequest.NamesCanonical function) ∧
      (fun _ ↦ ()) <$> lowerFunction (fun _ ↦ .splat 9)
          { outOfOrderRequest with function := (trapping (.splat 4) (.splat 5) []).1 } =
        .error (.lower .immediateMismatch) :=
  ⟨fun hclaim ↦ not_namesCanonical_outOfOrderRequest
    (hclaim lowers_outOfOrderRequest (.splat 4) called_outOfOrderRequest), by with_unfolding_all decide⟩

/-- What keeps the constants of this program from being canonical is in a called function. -/
theorem lower_constants_canonical_iff_outOfOrder :
    ¬ ∀ function, outOfOrderRequest.Called function →
      function ≠ outOfOrderRequest.function.entityId →
        outOfOrderRequest.NamesCanonical function := by
  obtain ⟨result, hresult⟩ := lowers_outOfOrderRequest
  intro hcallees
  have hall := (lower_constants_canonical_iff hresult).1.2 hcallees
  exact not_namesCanonical_outOfOrderRequest (hall (.splat 4) called_outOfOrderRequest)

end Sley.Vm.Lower
