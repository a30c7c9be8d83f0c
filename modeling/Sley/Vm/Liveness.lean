import Mathlib
import Sley.Vm.Bytecode

/-!
# Register liveness

`sley-vm/src/execute/liveness.rs`: which operands of an instruction, and which registers after a
terminator, are read for the last time. Liveness is computed register by register: from each block
that reads the register before it defines it, the walk goes back over the predecessors to the block
that defines the register.

`LiveAt` says what is to be found: some path from a point of the code reads the register before it
rewrites it. **What the tables mark as dead is not live** (`not_liveAt_of_isDead`,
`not_liveAt_of_deadAfterTerminator`), whatever the bytecode: no use is made of single assignment.
-/

namespace Sley.Vm

open List (forall_mem_cons mem_append mem_filter mem_insert_of_mem nil_append not_mem_nil range)

/-- A set of registers for each block, as the set of its pairs. -/
abbrev BlockSets := List (Nat × Register)

/-- Per-function liveness facts. -/
structure FnLiveness where
  /-- Per block, per instruction: bit `k` set when operand `k` is dead after the instruction, and the
  register appears exactly once among its operands. -/
  deadOperands : List (List UInt64)
  /-- The number of blocks in the table below. -/
  blocks : Nat
  /-- Per block: registers live out of the block. -/
  liveOut : BlockSets

/-- Nothing is reported dead. -/
instance : Inhabited FnLiveness := ⟨[], 0, []⟩

namespace FnLiveness

def deadAfterTerminator (live : FnLiveness) (block : Nat) (register : Register) : Bool :=
  block < live.blocks && (block, register) ∉ live.liveOut

/-- The dead-operand mask of one instruction. -/
def mask (live : FnLiveness) (block instruction : Nat) : UInt64 :=
  ((live.deadOperands[block]?.bind (·[instruction]?)).getD 0)

end FnLiveness

/-- Whether a mask marks operand `k`: `k < 64 && mask & (1 << k) != 0`. -/
def isDead (mask : UInt64) (k : Nat) : Bool := k < 64 && mask.toNat.testBit k

namespace BytecodeTerminator

def successors : BytecodeTerminator → List Nat
  | ret _ | trap _ _ => []
  | branch edge => [edge.target.toNat]
  | condBranch _ ifTrue ifFalse => [ifTrue.target.toNat, ifFalse.target.toNat]
  | variantSwitch _ cases => cases.map (·.edge.target.toNat)

/-- The registers among the arguments of a switch edge. -/
def switchReads (arguments : List BytecodeSwitchArgument) : List Register :=
  arguments.filterMap fun
    | .value register => some register
    | .casePayload => none

/-- `terminator_reads`. -/
def reads : BytecodeTerminator → List Register
  | ret value => [value]
  | branch edge => edge.arguments
  | condBranch condition ifTrue ifFalse => condition :: (ifTrue.arguments ++ ifFalse.arguments)
  | variantSwitch value cases => value :: cases.flatMap (switchReads ·.edge.arguments)
  | trap _ payload => payload.toList

end BytecodeTerminator

/-! ### The computation -/

section Compute

variable (blocks : List BytecodeBlock)

/-- The blocks that have `target` as a successor. -/
def predecessors (target : Nat) : List Nat :=
  (range blocks.length).filter fun index ↦
    blocks[index]?.any fun block ↦ target ∈ block.terminator.successors

def BytecodeBlock.defines (block : BytecodeBlock) (register : Register) : Bool :=
  register ∈ block.parameterRegisters || block.instructions.any (register ∈ ·.results)

/-- The defining block of a register; the last one stays in the table. -/
def definedIn (register : Register) : Option Nat :=
  (range blocks.length).reverse.find? fun index ↦ blocks[index]?.any (·.defines register)

/-- The sets under construction. -/
structure LiveSets where
  liveIn : BlockSets
  liveOut : BlockSets

/-- The register is live out of a predecessor, and into it unless it is defined there. -/
def visitPredecessor (register : Register) (state : LiveSets × List Nat) (predecessor : Nat) :
    LiveSets × List Nat :=
  let (sets, work) := state
  let sets := { sets with liveOut := sets.liveOut.insert (predecessor, register) }
  if definedIn blocks register = some predecessor then (sets, work)
  else if (predecessor, register) ∈ sets.liveIn then (sets, work)
  else ({ sets with liveIn := sets.liveIn.insert (predecessor, register) }, predecessor :: work)

/-- The walk for one register; the head of `work` is the top of its stack. -/
def walk (register : Register) : Nat → LiveSets → List Nat → LiveSets
  | fuel + 1, sets, at_ :: work =>
    let (sets, work) := (predecessors blocks at_).foldl (visitPredecessor blocks register) (sets, work)
    walk register fuel sets work
  | _, sets, _ => sets

/-- The reads of the rest of a block that the registers in `local_` do not satisfy. -/
def upwardFrom (terminator : BytecodeTerminator) (local_ : List Register) :
    List Instruction → List Register
  | [] => terminator.reads.filter (· ∉ local_)
  | instruction :: instructions =>
    instruction.operands.filter (· ∉ local_) ++
      upwardFrom terminator (local_ ++ instruction.results) instructions

def BytecodeBlock.upward (block : BytecodeBlock) : List Register :=
  upwardFrom block.terminator block.parameterRegisters block.instructions

/-- A block queues a register at most once, so there is a round for each block. -/
def exposeRead (index : Nat) (sets : LiveSets) (register : Register) : LiveSets :=
  if (index, register) ∈ sets.liveIn then sets
  else walk blocks register (blocks.length + 1)
    { sets with liveIn := sets.liveIn.insert (index, register) } [index]

def liveSets : LiveSets :=
  blocks.zipIdx.foldl (fun sets (block, index) ↦ block.upward.foldl (exposeRead blocks index) sets)
    ⟨[], []⟩

/-- The mask of an instruction, where `later` has what is read after it in its block. -/
def operandMask (liveOut : BlockSets) (index : Nat) (later : List Register)
    (operands : List Register) : UInt64 :=
  if operands.length ≤ 64 then
    operands.zipIdx.foldl (fun mask (register, k) ↦
      if operands.count register = 1 ∧ register ∉ later ∧ (index, register) ∉ liveOut then
        mask ||| 1 <<< UInt64.ofNat k
      else mask) 0
  else 0

/-- The masks of a block, and what is read from its first instruction on. -/
def operandMasks (liveOut : BlockSets) (index : Nat) (terminator : BytecodeTerminator) :
    List Instruction → List UInt64 × List Register
  | [] => ([], terminator.reads)
  | instruction :: instructions =>
    let (masks, later) := operandMasks liveOut index terminator instructions
    (operandMask liveOut index later instruction.operands :: masks, later ++ instruction.operands)

/-- `compute`: the liveness of one function's blocks; nothing is dead when a target is out of
range. -/
def computeLiveness : FnLiveness :=
  if blocks.all fun block ↦ block.terminator.successors.all (· < blocks.length) then
    let sets := liveSets blocks
    { deadOperands := blocks.zipIdx.map fun (block, index) ↦
        (operandMasks sets.liveOut index block.terminator block.instructions).1
      blocks := blocks.length
      liveOut := sets.liveOut }
  else default

end Compute

/-! ### The walk over the predecessors -/

section Sets

variable {blocks : List BytecodeBlock} {register : Register} {sets sets' sets'' : LiveSets}
  {work work' work'' : List Nat} {ps : List Nat}

theorem mem_predecessors {target index : Nat} : index ∈ predecessors blocks target ↔
    ∃ block, blocks[index]? = some block ∧ target ∈ block.terminator.successors := by
  rw [predecessors, mem_filter, List.mem_range]
  cases hblock : blocks[index]? with
  | none => simp
  | some block =>
    have hlt := (List.getElem?_eq_some_iff.1 hblock).1
    simp [hlt]

theorem defines_of_definedIn {index : Nat} (h : definedIn blocks register = some index) :
    ∃ block, blocks[index]? = some block ∧ block.defines register = true := by
  have := List.find?_some h
  cases hblock : blocks[index]? with
  | none => simp [hblock] at this
  | some block => exact ⟨block, rfl, by simpa [hblock] using this⟩

/-- The blocks that a register is not live into yet. -/
def missing (blocks : List BytecodeBlock) (register : Register) (sets : LiveSets) : Nat :=
  ((range blocks.length).filter fun block ↦ (block, register) ∉ sets.liveIn).length

/-- What a visit of predecessors does: it only adds, each predecessor has the register live out of
it, and a block that the register is new to has been queued. -/
structure Visited (blocks : List BytecodeBlock) (register : Register) (ps : List Nat)
    (sets : LiveSets) (work : List Nat) (sets' : LiveSets) (work' : List Nat) : Prop where
  liveIn_subset : sets.liveIn ⊆ sets'.liveIn
  liveOut_subset : sets.liveOut ⊆ sets'.liveOut
  work_subset : work ⊆ work'
  visited : ∀ p ∈ ps, (p, register) ∈ sets'.liveOut
  liveIn_new : ∀ b r, (b, r) ∈ sets'.liveIn → (b, r) ∈ sets.liveIn ∨ r = register ∧ b ∈ work'
  liveOut_new : ∀ b r, (b, r) ∈ sets'.liveOut →
    (b, r) ∈ sets.liveOut ∨ definedIn blocks r = some b ∨ (b, r) ∈ sets'.liveIn
  count : work'.length + missing blocks register sets' ≤ work.length + missing blocks register sets

theorem Visited.trans {ps' : List Nat} (h : Visited blocks register ps sets work sets' work')
    (h' : Visited blocks register ps' sets' work' sets'' work'') :
    Visited blocks register (ps ++ ps') sets work sets'' work'' where
  liveIn_subset := List.Subset.trans h.liveIn_subset h'.liveIn_subset
  liveOut_subset := List.Subset.trans h.liveOut_subset h'.liveOut_subset
  work_subset := List.Subset.trans h.work_subset h'.work_subset
  visited p hp := (List.mem_append.1 hp).elim (fun hp ↦ h'.liveOut_subset (h.visited p hp))
    (h'.visited p)
  liveIn_new b r hb := by
    obtain hb | hb := h'.liveIn_new b r hb
    · exact (h.liveIn_new b r hb).imp_right fun hw ↦ ⟨hw.1, h'.work_subset hw.2⟩
    · exact .inr hb
  liveOut_new b r hb := by
    obtain hb | hb := h'.liveOut_new b r hb
    · exact (h.liveOut_new b r hb).imp_right (Or.imp_right fun hw ↦ h'.liveIn_subset hw)
    · exact .inr hb
  count := Nat.le_trans h'.count h.count

theorem missing_insert {p : Nat} (hp : p < blocks.length) (hnew : (p, register) ∉ sets.liveIn)
    (hin : sets'.liveIn = sets.liveIn.insert (p, register)) :
    missing blocks register sets' + 1 ≤ missing blocks register sets := by
  have hsub : (range blocks.length).filter (fun b ↦ (b, register) ∉ sets'.liveIn) =
      ((range blocks.length).filter (fun b ↦ (b, register) ∉ sets.liveIn)).filter
        (fun b ↦ (b, register) ∉ sets'.liveIn) := by
    rw [List.filter_filter]
    refine List.filter_congr fun b _ ↦ ?_
    rw [← Bool.decide_and]
    refine decide_eq_decide.2 ⟨fun hb ↦ ⟨hb, fun h ↦ hb ?_⟩, And.left⟩
    rw [hin]
    exact mem_insert_of_mem h
  rw [missing, missing, hsub, Nat.succ_le_iff, List.length_filter_lt_length_iff_exists]
  refine ⟨p, mem_filter.2 ⟨List.mem_range.2 hp, decide_eq_true hnew⟩, ?_⟩
  simp [hin]

theorem visited_visitPredecessor {p : Nat} (hp : p < blocks.length) :
    Visited blocks register [p] sets work (visitPredecessor blocks register (sets, work) p).1
      (visitPredecessor blocks register (sets, work) p).2 := by
  have hout : sets.liveOut ⊆ sets.liveOut.insert (p, register) := fun _ h ↦
    mem_insert_of_mem h
  have hvisited : ∀ q ∈ [p], (q, register) ∈ sets.liveOut.insert (p, register) := by
    intro q hq
    rw [List.mem_singleton.1 hq]
    exact List.mem_insert_self
  have hnew (b : Nat) (r : Register) (h : (b, r) ∈ sets.liveOut.insert (p, register)) :
      (b, r) ∈ sets.liveOut ∨ b = p ∧ r = register := by
    rw [List.mem_insert_iff, Prod.mk.injEq] at h
    exact h.symm
  rw [visitPredecessor]
  simp only
  split_ifs with hdefined hknown
  · refine ⟨fun _ h ↦ h, hout, fun _ h ↦ h, hvisited, fun _ _ h ↦ .inl h, fun b r h ↦ ?_, Nat.le_refl _⟩
    obtain h | ⟨rfl, rfl⟩ := hnew b r h
    · exact .inl h
    · exact .inr (.inl hdefined)
  · refine ⟨fun _ h ↦ h, hout, fun _ h ↦ h, hvisited, fun _ _ h ↦ .inl h, fun b r h ↦ ?_, Nat.le_refl _⟩
    obtain h | ⟨rfl, rfl⟩ := hnew b r h
    · exact .inl h
    · exact .inr (.inr hknown)
  · refine ⟨fun _ h ↦ mem_insert_of_mem h, hout, fun _ h ↦ List.mem_cons_of_mem _ h, hvisited,
      fun b r h ↦ ?_, fun b r h ↦ ?_, ?_⟩
    · rw [List.mem_insert_iff, Prod.mk.injEq] at h
      obtain ⟨rfl, rfl⟩ | h := h
      · exact .inr ⟨rfl, List.mem_cons_self⟩
      · exact .inl h
    · obtain h | ⟨rfl, rfl⟩ := hnew b r h
      · exact .inl h
      · exact .inr (.inr List.mem_insert_self)
    · have hcount : missing blocks register
          ⟨sets.liveIn.insert (p, register), sets.liveOut.insert (p, register)⟩ + 1 ≤
            missing blocks register sets := missing_insert hp hknown rfl
      show work.length + 1 + missing blocks register
        ⟨sets.liveIn.insert (p, register), sets.liveOut.insert (p, register)⟩ ≤ _
      omega

theorem visited_foldl (hps : ∀ p ∈ ps, p < blocks.length) :
    Visited blocks register ps sets work (ps.foldl (visitPredecessor blocks register) (sets, work)).1
      (ps.foldl (visitPredecessor blocks register) (sets, work)).2 := by
  induction ps generalizing sets work with
  | nil => exact ⟨fun _ h ↦ h, fun _ h ↦ h, fun _ h ↦ h, nofun, fun _ _ h ↦ .inl h,
      fun _ _ h ↦ .inl h, Nat.le_refl _⟩
  | cons p ps ih =>
    exact (visited_visitPredecessor (hps p List.mem_cons_self)).trans
      (ih fun q hq ↦ hps q (List.mem_cons_of_mem _ hq))

/-- The walk for a register on its way: but for the blocks that it has queued, a register that is
live into a block is live out of its predecessors. -/
structure Walking (blocks : List BytecodeBlock) (register : Register) (sets : LiveSets)
    (work : List Nat) : Prop where
  liveIn : ∀ b r, (b, r) ∈ sets.liveIn →
    r = register ∧ b ∈ work ∨ ∀ p ∈ predecessors blocks b, (p, r) ∈ sets.liveOut
  liveOut : ∀ b r, (b, r) ∈ sets.liveOut → definedIn blocks r = some b ∨ (b, r) ∈ sets.liveIn

theorem Walking.visit {at_ : Nat} (h : Walking blocks register sets (at_ :: work))
    (hvisited : Visited blocks register (predecessors blocks at_) sets work sets' work') :
    Walking blocks register sets' work' where
  liveIn b r hb := by
    obtain hb | hb := hvisited.liveIn_new b r hb
    · obtain ⟨rfl, hw⟩ | hpred := h.liveIn b r hb
      · obtain rfl | hw := List.mem_cons.1 hw
        · exact .inr hvisited.visited
        · exact .inl ⟨rfl, hvisited.work_subset hw⟩
      · exact .inr fun p hp ↦ hvisited.liveOut_subset (hpred p hp)
    · exact .inl hb
  liveOut b r hb := by
    obtain hb | hb := hvisited.liveOut_new b r hb
    · exact (h.liveOut b r hb).imp_right fun hb ↦ hvisited.liveIn_subset hb
    · exact hb

/-- **The walk ends, and closes the sets.** -/
theorem walking_walk (fuel : Nat) (h : Walking blocks register sets work)
    (hfuel : work.length + missing blocks register sets ≤ fuel) :
    Walking blocks register (walk blocks register fuel sets work) [] ∧
      sets.liveIn ⊆ (walk blocks register fuel sets work).liveIn := by
  induction fuel generalizing sets work with
  | zero =>
    obtain rfl : work = [] := List.length_eq_zero_iff.1 (by omega)
    exact ⟨h, fun _ h ↦ h⟩
  | succ fuel ih =>
    cases work with
    | nil => exact ⟨h, fun _ h ↦ h⟩
    | cons at_ work =>
      have hvisited : Visited blocks register (predecessors blocks at_) sets work _ _ :=
        visited_foldl fun p hp ↦ by
          obtain ⟨block, hblock, -⟩ := mem_predecessors.1 hp
          exact (List.getElem?_eq_some_iff.1 hblock).1
      have hcount := hvisited.count
      rw [List.length_cons] at hfuel
      obtain ⟨hwalking, hsub⟩ := ih (h.visit hvisited) (by omega)
      exact ⟨hwalking, List.Subset.trans hvisited.liveIn_subset hsub⟩

theorem Walking.congr (register' : Register) (h : Walking blocks register sets []) :
    Walking blocks register' sets [] :=
  ⟨fun b r hb ↦ .inr ((h.liveIn b r hb).resolve_left fun hw ↦ not_mem_nil hw.2), h.liveOut⟩

theorem walking_exposeRead (index : Nat) (h : Walking blocks register sets []) :
    Walking blocks register (exposeRead blocks index sets register) [] ∧
      sets.liveIn ⊆ (exposeRead blocks index sets register).liveIn ∧
      (index, register) ∈ (exposeRead blocks index sets register).liveIn := by
  rw [exposeRead]
  split_ifs with hknown
  · exact ⟨h, fun _ h ↦ h, hknown⟩
  · have hstart : Walking blocks register
        { sets with liveIn := sets.liveIn.insert (index, register) } [index] := by
      refine ⟨fun b r hb ↦ ?_, fun b r hb ↦ (h.liveOut b r hb).imp_right mem_insert_of_mem⟩
      rw [List.mem_insert_iff, Prod.mk.injEq] at hb
      obtain ⟨rfl, rfl⟩ | hb := hb
      · exact .inl ⟨rfl, List.mem_singleton_self _⟩
      · exact .inr ((h.liveIn b r hb).resolve_left fun hw ↦ not_mem_nil hw.2)
    have hmissing : missing blocks register
        { sets with liveIn := sets.liveIn.insert (index, register) } ≤ blocks.length := by
      rw [missing]
      exact Nat.le_trans (List.length_filter_le _ _) (Nat.le_of_eq List.length_range)
    obtain ⟨hwalking, hsub⟩ := walking_walk (blocks.length + 1) hstart (by
      rw [List.length_singleton]
      omega)
    exact ⟨hwalking, fun _ hb ↦ hsub (mem_insert_of_mem hb), hsub List.mem_insert_self⟩

/-- **The sets of a function**: a register that a block reads before it defines it is live into the
block, and a register that is live into a block is live out of its predecessors. -/
theorem walking_liveSets (blocks : List BytecodeBlock) : Walking blocks 0 (liveSets blocks) [] ∧
    ∀ index block, blocks[index]? = some block → ∀ r ∈ block.upward,
      (index, r) ∈ (liveSets blocks).liveIn := by
  have hblock (index : Nat) (registers : List Register) (sets : LiveSets)
      (h : Walking blocks 0 sets []) :
      Walking blocks 0 (registers.foldl (exposeRead blocks index) sets) [] ∧
        sets.liveIn ⊆ (registers.foldl (exposeRead blocks index) sets).liveIn ∧
        ∀ r ∈ registers, (index, r) ∈ (registers.foldl (exposeRead blocks index) sets).liveIn := by
    induction registers generalizing sets with
    | nil => exact ⟨h, fun _ h ↦ h, nofun⟩
    | cons r registers ih =>
      obtain ⟨hwalking, hsub, hmem⟩ := walking_exposeRead index (h.congr r)
      obtain ⟨hwalking', hsub', hmem'⟩ := ih _ (hwalking.congr 0)
      exact ⟨hwalking', List.Subset.trans hsub hsub', forall_mem_cons.2 ⟨hsub' hmem, hmem'⟩⟩
  have hall (entries : List (BytecodeBlock × Nat)) (sets : LiveSets)
      (h : Walking blocks 0 sets []) :
      Walking blocks 0 (entries.foldl (fun sets (block, index) ↦
          block.upward.foldl (exposeRead blocks index) sets) sets) [] ∧
        sets.liveIn ⊆ (entries.foldl (fun sets (block, index) ↦
          block.upward.foldl (exposeRead blocks index) sets) sets).liveIn ∧
        ∀ entry ∈ entries, ∀ r ∈ entry.1.upward,
          (entry.2, r) ∈ (entries.foldl (fun sets (block, index) ↦
            block.upward.foldl (exposeRead blocks index) sets) sets).liveIn := by
    induction entries generalizing sets with
    | nil => exact ⟨h, fun _ h ↦ h, nofun⟩
    | cons entry entries ih =>
      obtain ⟨hwalking, hsub, hmem⟩ := hblock entry.2 entry.1.upward sets h
      obtain ⟨hwalking', hsub', hmem'⟩ := ih _ hwalking
      exact ⟨hwalking', List.Subset.trans hsub hsub',
        forall_mem_cons.2 ⟨fun r hr ↦ hsub' (hmem r hr), hmem'⟩⟩
  obtain ⟨hwalking, -, hmem⟩ := hall blocks.zipIdx ⟨[], []⟩ ⟨nofun, nofun⟩
  refine ⟨hwalking, fun index block hblock r hr ↦ hmem (block, index) ?_ r hr⟩
  rw [List.mem_zipIdx_iff_getElem?]
  exact hblock

end Sets

/-! ### Liveness -/

/-- Some path from the point before instruction `pc` of a block, or before its terminator, reads the
register before it rewrites it. -/
inductive LiveAt (blocks : List BytecodeBlock) : Nat → Nat → Register → Prop
  | operand {b pc block instruction r} (hblock : blocks[b]? = some block)
      (hinstruction : block.instructions[pc]? = some instruction)
      (hr : r ∈ instruction.operands) : LiveAt blocks b pc r
  | step {b pc block instruction r} (hblock : blocks[b]? = some block)
      (hinstruction : block.instructions[pc]? = some instruction)
      (hr : r ∉ instruction.results) (hnext : LiveAt blocks b (pc + 1) r) : LiveAt blocks b pc r
  | terminator {b block r} (hblock : blocks[b]? = some block) (hr : r ∈ block.terminator.reads) :
      LiveAt blocks b block.instructions.length r
  | edge {b s block target r} (hblock : blocks[b]? = some block)
      (hs : s ∈ block.terminator.successors) (htarget : blocks[s]? = some target)
      (hr : r ∉ target.parameterRegisters) (hnext : LiveAt blocks s 0 r) :
      LiveAt blocks b block.instructions.length r

section Sound

variable {blocks : List BytecodeBlock} {b pc s : Nat} {r : Register}

variable {terminator : BytecodeTerminator} {instructions : List Instruction} {liveOut : BlockSets}
  {block target : BytecodeBlock}

/-- What is read upwards does not depend on registers that were defined before. -/
theorem mem_upwardFrom {local_ : List Register} : r ∈ upwardFrom terminator local_ instructions ↔
      r ∈ upwardFrom terminator [] instructions ∧ r ∉ local_ := by
  induction instructions generalizing local_ with
  | nil => simp [upwardFrom]
  | cons instruction instructions ih =>
    simp only [upwardFrom, mem_append, mem_filter, nil_append, not_mem_nil,
      not_false_eq_true, decide_true, and_true, decide_eq_true_eq]
    rw [@ih (local_ ++ instruction.results), @ih instruction.results, mem_append]
    tauto

/-- Where a register stands at a point of a block: it is read in the rest of the block, or it is live
out of the block and not rewritten in the rest. -/
def Exposed (blocks : List BytecodeBlock) (b pc : Nat) (r : Register) : Prop :=
  ∃ block, blocks[b]? = some block ∧
    (r ∈ upwardFrom block.terminator [] (block.instructions.drop pc) ∨
      (b, r) ∈ (liveSets blocks).liveOut ∧
        ∀ instruction ∈ block.instructions.drop pc, r ∉ instruction.results)

/-- A register that is exposed at a successor is live out. -/
theorem mem_liveOut (hblock : blocks[b]? = some block)
    (hs : s ∈ block.terminator.successors) (htarget : blocks[s]? = some target)
    (hr : r ∉ target.parameterRegisters) (h : Exposed blocks s 0 r) :
    (b, r) ∈ (liveSets blocks).liveOut := by
  obtain ⟨target', htarget', h⟩ := h
  obtain rfl := Option.some.inj (htarget.symm.trans htarget')
  obtain ⟨hwalking, hupward⟩ := walking_liveSets blocks
  have hlive : (s, r) ∈ (liveSets blocks).liveIn := by
    obtain hread | ⟨hout, hrest⟩ := h
    · refine hupward s target htarget r ?_
      rw [BytecodeBlock.upward, mem_upwardFrom]
      exact ⟨hread, hr⟩
    · -- the walk went on through the block, which does not define the register
      refine (hwalking.liveOut s r hout).resolve_left fun hdefined ↦ ?_
      obtain ⟨block', hblock', hdefines⟩ := defines_of_definedIn hdefined
      obtain rfl := Option.some.inj (htarget.symm.trans hblock')
      simp only [BytecodeBlock.defines, Bool.or_eq_true, decide_eq_true_eq, List.any_eq_true]
        at hdefines
      obtain hparameter | ⟨instruction, hinstruction, hresult⟩ := hdefines
      · exact hr hparameter
      · exact hrest instruction hinstruction hresult
  exact ((hwalking.liveIn s r hlive).resolve_left fun hw ↦ not_mem_nil hw.2) b
    (mem_predecessors.2 ⟨block, hblock, hs⟩)

theorem LiveAt.exposed (h : LiveAt blocks b pc r) : Exposed blocks b pc r := by
  induction h with
  | @operand b pc block instruction r hblock hinstruction hr =>
    obtain ⟨hlt, heq⟩ := List.getElem?_eq_some_iff.1 hinstruction
    refine ⟨block, hblock, .inl ?_⟩
    rw [List.drop_eq_getElem_cons hlt, heq]
    simp [upwardFrom, hr]
  | @step b pc block instruction r hblock hinstruction hr _ ih =>
    obtain ⟨block', hblock', ih⟩ := ih
    obtain rfl := Option.some.inj (hblock.symm.trans hblock')
    obtain ⟨hlt, heq⟩ := List.getElem?_eq_some_iff.1 hinstruction
    refine ⟨block, hblock, ?_⟩
    rw [List.drop_eq_getElem_cons hlt, heq]
    refine ih.imp (fun hr' ↦ ?_) (And.imp_right fun hrest ↦ forall_mem_cons.2 ⟨hr, hrest⟩)
    rw [upwardFrom, mem_append, nil_append, mem_upwardFrom]
    exact .inr ⟨hr', hr⟩
  | @terminator b block r hblock hr =>
    refine ⟨block, hblock, .inl ?_⟩
    rw [List.drop_length]
    simp [upwardFrom, hr]
  | @edge b s block target r hblock hs htarget hr _ ih =>
    exact ⟨block, hblock, .inr ⟨mem_liveOut hblock hs htarget hr ih, by simp⟩⟩

/-- **A register that is dead after a terminator is live at no successor**, unless the successor
rewrites it on entry. -/
theorem not_liveAt_of_deadAfterTerminator
    (hdead : (computeLiveness blocks).deadAfterTerminator b r = true)
    (hblock : blocks[b]? = some block) (hs : s ∈ block.terminator.successors)
    (htarget : blocks[s]? = some target) (hr : r ∉ target.parameterRegisters) :
    ¬ LiveAt blocks s 0 r := by
  intro hlive
  have hout := mem_liveOut hblock hs htarget hr hlive.exposed
  rw [computeLiveness] at hdead
  split_ifs at hdead
  · simp [FnLiveness.deadAfterTerminator, hout] at hdead
  · simp [FnLiveness.deadAfterTerminator, default] at hdead

/-! ### Masks -/

theorem testBit_setBit {mask : UInt64} {j k : Nat} (hj : j < 64) :
    (mask ||| 1 <<< UInt64.ofNat j).toNat.testBit k = (mask.toNat.testBit k || decide (j = k)) := by
  have hlt : 2 ^ j < 2 ^ 64 := Nat.pow_lt_pow_right (by decide) hj
  have hsmall : j < 2 ^ 64 := by omega
  rw [UInt64.toNat_or, UInt64.toNat_shiftLeft, UInt64.toNat_ofNat_of_lt' hsmall,
    Nat.mod_eq_of_lt hj, UInt64.toNat_one, Nat.one_shiftLeft, Nat.mod_eq_of_lt hlt,
    Nat.testBit_or, Nat.testBit_two_pow]

/-- A bit of a mask marks an operand that appears once, is not read later in the block and is not
live out of it. -/
theorem of_isDead_operandMask {index k : Nat} {later operands : List Register}
    (h : isDead (operandMask liveOut index later operands) k = true) :
    ∃ r, operands[k]? = some r ∧ operands.count r = 1 ∧ r ∉ later ∧ (index, r) ∉ liveOut := by
  rw [isDead, Bool.and_eq_true] at h
  replace h := h.2
  rw [operandMask] at h
  split_ifs at h with hlength
  · have hfold (entries : List (Register × Nat)) (mask : UInt64)
        (hentries : ∀ entry ∈ entries, entry.2 < 64)
        (hbit : (entries.foldl (fun mask (register, k) ↦
          if operands.count register = 1 ∧ register ∉ later ∧ (index, register) ∉ liveOut then
            mask ||| 1 <<< UInt64.ofNat k
          else mask) mask).toNat.testBit k = true) :
        mask.toNat.testBit k = true ∨ ∃ r, (r, k) ∈ entries ∧ operands.count r = 1 ∧ r ∉ later ∧
          (index, r) ∉ liveOut := by
      induction entries generalizing mask with
      | nil => exact .inl hbit
      | cons entry entries ih =>
        obtain ⟨r, j⟩ := entry
        obtain ⟨hj, hentries⟩ := forall_mem_cons.1 hentries
        rw [List.foldl_cons] at hbit
        obtain hmask | ⟨r', hr', hrest⟩ := ih _ hentries hbit
        · simp only at hmask
          split_ifs at hmask with hcond
          · rw [testBit_setBit hj, Bool.or_eq_true, decide_eq_true_eq] at hmask
            obtain hmask | rfl := hmask
            · exact .inl hmask
            · exact .inr ⟨r, List.mem_cons_self, hcond⟩
          · exact .inl hmask
        · exact .inr ⟨r', List.mem_cons_of_mem _ hr', hrest⟩
    obtain hzero | ⟨r, hr, hrest⟩ := hfold operands.zipIdx 0 (fun entry hentry ↦ by
      have := List.snd_lt_of_mem_zipIdx hentry
      omega) h
    · simp at hzero
    · exact ⟨r, List.mem_zipIdx_iff_getElem?.1 hr, hrest⟩
  · simp at h

theorem subset_operandMasks {index : Nat} (h : r ∈ upwardFrom terminator [] instructions) :
    r ∈ (operandMasks liveOut index terminator instructions).2 := by
  induction instructions with
  | nil => exact (mem_filter.1 h).1
  | cons instruction instructions ih =>
    rw [upwardFrom, mem_append, nil_append, mem_upwardFrom] at h
    show r ∈ (operandMasks liveOut index terminator instructions).2 ++ instruction.operands
    rw [mem_append]
    exact h.symm.imp (fun h ↦ ih h.1) fun h ↦ (mem_filter.1 h).1

theorem getElem?_operandMasks {index : Nat} :
    (operandMasks liveOut index terminator instructions).1[pc]? =
      instructions[pc]?.map fun instruction ↦ operandMask liveOut index
        (operandMasks liveOut index terminator (instructions.drop (pc + 1))).2
        instruction.operands := by
  induction instructions generalizing pc with
  | nil => simp [operandMasks]
  | cons instruction instructions ih =>
    cases pc with
    | zero => rfl
    | succ pc => exact ih

/-- **An operand that a mask marks appears once and is not live after its instruction.** -/
theorem not_liveAt_of_isDead {block : BytecodeBlock} {instruction : Instruction} {k : Nat}
    (hdead : isDead ((computeLiveness blocks).mask b pc) k = true)
    (hblock : blocks[b]? = some block)
    (hinstruction : block.instructions[pc]? = some instruction) :
    ∃ r, instruction.operands[k]? = some r ∧ instruction.operands.count r = 1 ∧
      ¬ LiveAt blocks b (pc + 1) r := by
  rw [computeLiveness] at hdead
  split_ifs at hdead
  · simp only [FnLiveness.mask, List.getElem?_map, List.getElem?_zipIdx, hblock, Option.map_some,
      Option.bind_some, Nat.zero_add, getElem?_operandMasks, hinstruction, Option.getD_some] at hdead
    obtain ⟨r, hr, hcount, hlater, hout⟩ := of_isDead_operandMask hdead
    refine ⟨r, hr, hcount, fun hlive ↦ ?_⟩
    obtain ⟨block', hblock', hexposed⟩ := hlive.exposed
    obtain rfl := Option.some.inj (hblock.symm.trans hblock')
    obtain hread | hlive := hexposed
    · exact hlater (subset_operandMasks hread)
    · exact hout hlive.1
  · simp [FnLiveness.mask, isDead, default] at hdead

end Sound

end Sley.Vm
