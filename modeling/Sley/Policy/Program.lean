import Mathlib
import Sley.Lib.OrderedMap
import Sley.Lib.SortUnique
import Sley.Lib.Worklist
import Sley.Mutate.Object
import Sley.Policy.References
import Sley.Ssmc.Order

/-!
# Candidate programs

The validator's projection of an object inventory (`sley-policy/src/candidate_program.rs`): the kind
of every entity, the reference edges between them and the closure of changes against the edges.

**An edge is a reference of the body of its dependent** (`CandidateProgram.mem_edges_iff`), so two
inventories that hold the same object hold the same edges from it. **The closure of some seeds is
what depends on them, directly or not** (`CandidateProgram.mem_affectedClosure_iff`).

The typed vectors of the shared semantic projection are a conversion of the objects, which stand for
them; what the projection refuses is kept.
-/

namespace Sley.Policy

open Scb1 Ssmc Mutate
open Except hiding ok error
open List (mem_append mem_cons mem_singleton)

def maxProgramEntities : Nat := 65535

def maxProgramEdges : Nat := 4000000

def maxProgramGraphWork : Nat := 100000000

def charge (work amount : Nat) : Except CandidateProgramError Nat := do
  rejectIf (work + amount > maxProgramGraphWork) .resourceLimit
  return work + amount

theorem charge_eq_ok {work amount work' : Nat} :
    charge work amount = .ok work' ↔ work' = work + amount ∧ work' ≤ maxProgramGraphWork := by
  simp only [charge, bind_eq_ok, rejectIf_eq_ok, exists_const, gt_iff_lt, Nat.not_lt, pure_eq_ok]
  constructor
  · rintro ⟨hle, rfl⟩
    exact ⟨rfl, hle⟩
  · rintro ⟨rfl, hle⟩
    exact ⟨hle, rfl⟩

/-! ### Edges -/

@[ext]
structure ProgramEdge where
  dependent : EntityId
  dependency : EntityId
  relationshipTag : UInt32
  deriving DecidableEq

namespace ProgramEdge

/-- Dependents first, then dependencies, then relationships. -/
def sortKey (edge : ProgramEdge) : EntityId × EntityId × UInt32 :=
  (edge.dependent, edge.dependency, edge.relationshipTag)

instance : Ord ProgramEdge := ⟨fun a b ↦ compare a.sortKey b.sortKey⟩

instance : Std.TransOrd ProgramEdge where
  eq_swap {a b} := show compare a.sortKey b.sortKey = (compare b.sortKey a.sortKey).swap from
    Std.OrientedCmp.eq_swap
  isLE_trans {a _ c} hab hbc := show (compare a.sortKey c.sortKey).isLE from
    Std.TransCmp.isLE_trans hab hbc

instance : Std.LawfulEqOrd ProgramEdge where
  eq_of_compare {a b} h := by
    have hcompare : compare a.sortKey b.sortKey = .eq := h
    have hkey : a.sortKey = b.sortKey := Std.LawfulEqCmp.eq_of_compare hcompare
    obtain ⟨hdependent, htail⟩ := Prod.mk.inj hkey
    obtain ⟨hdependency, htag⟩ := Prod.mk.inj htail
    exact ProgramEdge.ext hdependent hdependency htag

end ProgramEdge

/-- `GraphCollector`: the edges that were collected, and the work that was charged. -/
structure Collector where
  edges : Std.ExtTreeSet ProgramEdge
  work : Nat

/-- Carry out one step of the walk over the body of `dependent`. -/
def Collector.step (kinds : EntityMap UInt16) (dependent : EntityId) (collector : Collector) :
    CollectStep → Except CandidateProgramError Collector
  | .charge => do
    let work ← charge collector.work 1
    return { collector with work }
  | .fail error => .error error
  | .add dependency relationshipTag expectedKinds => do
    let work ← charge collector.work 1
    let actual ← ofOption .unresolvedReference kinds[dependency]?
    rejectIf (expectedKinds &&& kindBit actual = 0) .wrongEntityKind
    let edges := collector.edges.insert ⟨dependent, dependency, relationshipTag⟩
    rejectIf (edges.size > maxProgramEdges) .resourceLimit
    return { edges, work }

def Collector.collect (kinds : EntityMap UInt16) (collector : Collector) (object : EntityObject) :
    Except CandidateProgramError Collector :=
  (collectSteps object.record.body).foldlM (Collector.step kinds object.record.entityId) collector

/-- The edges that a step of a walk over the body of `dependent` adds. -/
def CollectStep.Adds (dependent : EntityId) (step : CollectStep) (edge : ProgramEdge) : Prop :=
  edge.dependent = dependent ∧
    ∃ expectedKinds, step = .add edge.dependency edge.relationshipTag expectedKinds

/-- The reference edges of an object. -/
def references (object : EntityObject) : Set ProgramEdge :=
  {edge | ∃ step ∈ collectSteps object.record.body, step.Adds object.record.entityId edge}

variable {collector collector' : Collector} {kinds : EntityMap UInt16} {object : EntityObject}

theorem Collector.mem_edges_of_step {dependent : EntityId} {step : CollectStep}
    (h : collector.step kinds dependent step = .ok collector') (edge : ProgramEdge) :
    edge ∈ collector'.edges ↔ edge ∈ collector.edges ∨ step.Adds dependent edge := by
  cases step with
  | charge =>
    obtain ⟨work, -, hout⟩ := Except.bind_eq_ok.1 h
    obtain rfl := Except.pure_eq_ok.1 hout
    simp [CollectStep.Adds]
  | fail error => cases h
  | add dependency relationshipTag expectedKinds =>
    simp only [Collector.step, bind_eq_ok, rejectIf_eq_ok, Unique.exists_iff, pure_eq_ok] at h
    obtain ⟨work, -, actual, -, -, -, rfl⟩ := h
    have hadds : (CollectStep.add dependency relationshipTag expectedKinds).Adds dependent edge ↔
        edge = ⟨dependent, dependency, relationshipTag⟩ := by
      constructor
      · rintro ⟨hdependent, _, heq⟩
        obtain ⟨hdependency, htag, -⟩ := CollectStep.add.inj heq
        exact ProgramEdge.ext hdependent hdependency.symm htag.symm
      · rintro rfl
        exact ⟨rfl, _, rfl⟩
    rw [hadds, OrderedSet.mem_insert, or_comm]

/-- Every reference of an object that was walked over resolves. -/
theorem Collector.mem_kinds_of_collect (h : collector.collect kinds object = .ok collector')
    {edge : ProgramEdge} (hedge : edge ∈ references object) : edge.dependency ∈ kinds := by
  obtain ⟨step, hstep, -, expectedKinds, rfl⟩ := hedge
  obtain ⟨_, _, hadd⟩ := exists_of_foldlM_eq_ok h hstep
  simp only [Collector.step, bind_eq_ok, ofOption_eq_ok] at hadd
  obtain ⟨_, -, actual, hactual, -⟩ := hadd
  exact OrderedMap.mem_iff_exists.2 ⟨actual, hactual⟩

theorem Collector.mem_edges_of_collect (h : collector.collect kinds object = .ok collector')
    (edge : ProgramEdge) :
    edge ∈ collector'.edges ↔ edge ∈ collector.edges ∨ edge ∈ references object :=
  foldlM_collects (P := fun collector edge ↦ edge ∈ collector.edges)
    (Q := fun step edge ↦ step.Adds object.record.entityId edge)
    (fun _ _ _ h edge ↦ mem_edges_of_step h edge) h edge

/-! ### The projection -/

/-- `project_body` refuses an unknown operation code. -/
def projectBody : EntityBodyValue → Except CandidateProgramError Unit
  | ⟨.operation, (value : OperationBody)⟩ =>
    rejectIf (Opcode.fromTag value.opcode.toNat).isNone .opcodeUnknown
  | _ => .ok ()

/-- The loop of the shared semantic projection. -/
def projectObjects (previous : Option EntityId) :
    List EntityObject → Except CandidateProgramError Unit
  | [] => .ok ()
  | object :: objects => do
    rejectIf (∃ prior ∈ previous, compare prior object.record.entityId ≠ .lt)
      .setNotCanonical
    projectBody object.record.body
    projectObjects (some object.record.entityId) objects

def projectSemanticInventory (objects : List EntityObject) : Except CandidateProgramError Unit := do
  rejectIf (objects.length > maxProgramEntities) .resourceLimit
  projectObjects none objects

/-- The kind of one object more. -/
def insertKind (kinds : EntityMap UInt16) (object : EntityObject) :
    Except CandidateProgramError (EntityMap UInt16) := do
  rejectIf (object.record.entityId ∈ kinds) .duplicateEntity
  return kinds.insert object.record.entityId object.record.body.kindTag

theorem getElem?_of_insertKind {kinds kinds' : EntityMap UInt16}
    (h : insertKind kinds object = .ok kinds') (id : EntityId) (kind : UInt16) :
    kinds'[id]? = some kind ↔ kinds[id]? = some kind ∨
      object.record.entityId = id ∧ object.record.body.kindTag = kind := by
  simp only [insertKind, bind_eq_ok, rejectIf_eq_ok, Unique.exists_iff, pure_eq_ok] at h
  obtain ⟨hnew, rfl⟩ := h
  rw [EntityMap.getElem?_insert_eq]
  by_cases hid : id = object.record.entityId
  · subst hid
    have hnone : kinds[object.record.entityId]? = none := EntityMap.not_mem_iff.1 hnew
    simp [hnone]
  · simp [hid, Ne.symm hid]

structure CandidateProgram where
  objects : List EntityObject
  kinds : EntityMap UInt16
  edges : List ProgramEdge
  graphWork : Nat

namespace CandidateProgram

def project (objects : List EntityObject) : Except CandidateProgramError CandidateProgram := do
  projectSemanticInventory objects
  let kinds ← objects.foldlM insertKind ∅
  let collector ← objects.foldlM (Collector.collect kinds) ⟨∅, 0⟩
  return { objects, kinds, edges := collector.edges.toList, graphWork := collector.work }

variable {objects : List EntityObject} {program : CandidateProgram}

section

variable (h : project objects = .ok program)

include h

theorem objects_of_project : program.objects = objects := by
  simp only [project, bind_eq_ok, pure_eq_ok] at h
  obtain ⟨-, -, kinds, -, collector, -, rfl⟩ := h
  rfl

/-- **The kinds are those of the objects.** -/
theorem kinds_of_project (id : EntityId) (kind : UInt16) : program.kinds[id]? = some kind ↔
      ∃ object ∈ objects, object.record.entityId = id ∧ object.record.body.kindTag = kind := by
  simp only [project, bind_eq_ok, pure_eq_ok] at h
  obtain ⟨-, -, kinds, hkinds, collector, -, rfl⟩ := h
  have hcollect := foldlM_collects
    (P := fun (kinds : EntityMap UInt16) (entry : EntityId × UInt16) ↦
      kinds[entry.1]? = some entry.2)
    (Q := fun (object : EntityObject) entry ↦
      object.record.entityId = entry.1 ∧ object.record.body.kindTag = entry.2)
    (fun _ _ _ h entry ↦ getElem?_of_insertKind h entry.1 entry.2) hkinds (id, kind)
  simpa using hcollect

theorem mem_kinds_of_project {id : EntityId} :
    id ∈ program.kinds ↔ ∃ object ∈ objects, object.record.entityId = id := by
  rw [OrderedMap.mem_iff_exists]
  constructor
  · rintro ⟨kind, hkind⟩
    obtain ⟨object, hobject, hid, -⟩ := (kinds_of_project h id kind).1 hkind
    exact ⟨object, hobject, hid⟩
  · rintro ⟨object, hobject, hid⟩
    exact ⟨_, (kinds_of_project h id _).2 ⟨object, hobject, hid, rfl⟩⟩

/-- **The edges are the references of the objects.** -/
theorem mem_edges_iff (edge : ProgramEdge) :
    edge ∈ program.edges ↔ ∃ object ∈ objects, edge ∈ references object := by
  simp only [project, bind_eq_ok, pure_eq_ok] at h
  obtain ⟨-, -, kinds, -, collector, hcollector, rfl⟩ := h
  have hcollect := foldlM_collects
    (P := fun (collector : Collector) edge ↦ edge ∈ collector.edges)
    (Q := fun object edge ↦ edge ∈ references object)
    (fun _ _ _ h edge ↦ Collector.mem_edges_of_collect h edge) hcollector edge
  simpa using hcollect

/-- Every edge leads to an entity of the program. -/
theorem dependency_mem_kinds {edge : ProgramEdge}
    (hedge : edge ∈ program.edges) : edge.dependency ∈ program.kinds := by
  obtain ⟨object, hobject, hreference⟩ := (mem_edges_iff h edge).1 hedge
  simp only [project, bind_eq_ok, pure_eq_ok] at h
  obtain ⟨-, -, kinds, -, collector, hcollector, rfl⟩ := h
  obtain ⟨_, _, hcollect⟩ := exists_of_foldlM_eq_ok hcollector hobject
  exact Collector.mem_kinds_of_collect hcollect hreference

end

/-- The bodies of the policy bindings. -/
def policyBindings (program : CandidateProgram) : List PolicyBindingBody :=
  program.objects.filterMap fun object ↦ match object.record.body with
    | ⟨.policyBinding, (value : PolicyBindingBody)⟩ => some value
    | _ => none

/-- The bodies of the dependency bindings. -/
def dependencyBindings (program : CandidateProgram) : List DependencyBindingBody :=
  program.objects.filterMap fun object ↦ match object.record.body with
    | ⟨.dependencyBinding, (value : DependencyBindingBody)⟩ => some value
    | _ => none

def dependencyRoots (program : CandidateProgram) : List StateRoot :=
  ((program.dependencyBindings.map DependencyBindingBody.dependencyRoot).mergeSort
    fun a b ↦ (compare a b).isLE).destutter fun a b ↦ a ≠ b

/-! ### The closure -/

/-- Note the dependent of one edge more. -/
def pushDependent (reverse : EntityMap (List EntityId)) (edge : ProgramEdge) :
    EntityMap (List EntityId) :=
  reverse.insert edge.dependency (reverse.getD edge.dependency [] ++ [edge.dependent])

/-- The dependents of every dependency, sorted and without repetition. -/
def reverseEdges (program : CandidateProgram) : EntityMap (List EntityId) :=
  (program.edges.foldl pushDependent ∅).map fun _ dependents ↦
    (dependents.mergeSort fun a b ↦ (compare a b).isLE).destutter fun a b ↦ a ≠ b

end CandidateProgram

/-- A closure on its way. -/
structure ClosureState where
  visited : EntitySet
  queue : List EntityId
  work : Nat

/-- Queue a seed that was not visited. -/
def ClosureState.seed (state : ClosureState) (seed : EntityId) : ClosureState :=
  if seed ∈ state.visited then state
  else { state with visited := state.visited.insert seed, queue := state.queue ++ [seed] }

/-- Queue a dependent that was not visited. -/
def ClosureState.visitDependent (state : ClosureState) (dependent : EntityId) :
    Except CandidateProgramError ClosureState := do
  let work ← charge state.work 1
  if dependent ∈ state.visited then
    return { state with work }
  else
    rejectIf ((state.visited.insert dependent).size > maxProgramEntities) .resourceLimit
    return { visited := state.visited.insert dependent, queue := state.queue ++ [dependent], work }

/-- Serve a dependency that was taken from the queue. -/
def ClosureState.serve (reverse : EntityMap (List EntityId)) (state : ClosureState)
    (dependency : EntityId) : Except CandidateProgramError ClosureState := do
  let work ← charge state.work 1
  (reverse.getD dependency []).foldlM ClosureState.visitDependent { state with work }

namespace ClosureState

/-- What a run over some dependents leaves: it queues those that were not visited. -/
structure Visits (dependents : List EntityId) (state state' : ClosureState)
    (found : List EntityId) : Prop where
  queue : state'.queue = state.queue ++ found
  visited : ∀ y, y ∈ state'.visited ↔ y ∈ state.visited ∨ y ∈ found
  mem_dependents : ∀ y ∈ found, y ∈ dependents
  mem_visited : ∀ y ∈ dependents, y ∈ state'.visited
  work_le : state.work ≤ state'.work

variable {state state' : ClosureState}

theorem visitDependent_spec {dependent : EntityId}
    (h : state.visitDependent dependent = .ok state') :
    ∃ found, Visits [dependent] state state' found := by
  simp only [visitDependent, bind_eq_ok, charge_eq_ok] at h
  obtain ⟨work, ⟨rfl, -⟩, h⟩ := h
  split at h
  · rename_i hmem
    obtain rfl := Except.pure_eq_ok.1 h
    refine ⟨[], ?_, ?_, ?_, ?_, ?_⟩
    · simp
    · simp
    · simp
    · simpa using hmem
    · exact Nat.le_succ _
  · simp only [bind_eq_ok, rejectIf_eq_ok, Unique.exists_iff, pure_eq_ok] at h
    obtain ⟨-, rfl⟩ := h
    refine ⟨[dependent], rfl, fun y ↦ ?_, fun _ hy ↦ hy, fun y hy ↦ ?_, Nat.le_succ _⟩
    · rw [EntitySet.mem_insert_iff, mem_singleton, or_comm]
    · exact EntitySet.mem_insert_iff.2 (.inl (mem_singleton.1 hy))

theorem visitDependents_spec {dependents : List EntityId}
    (h : dependents.foldlM visitDependent state = .ok state') :
    ∃ found, Visits dependents state state' found := by
  induction dependents generalizing state with
  | nil =>
    obtain rfl := Except.pure_eq_ok.1 h
    exact ⟨[], by simp, by simp, by simp, by simp, le_rfl⟩
  | cons dependent dependents ih =>
    rw [List.foldlM_cons, bind_eq_ok] at h
    obtain ⟨state₁, hfirst, hrest⟩ := h
    obtain ⟨found, hfound⟩ := visitDependent_spec hfirst
    obtain ⟨found', hfound'⟩ := ih hrest
    refine ⟨found ++ found', ?_, fun y ↦ ?_, fun y hy ↦ ?_, fun y hy ↦ ?_,
      hfound.work_le.trans hfound'.work_le⟩
    · rw [hfound'.queue, hfound.queue, List.append_assoc]
    · rw [hfound'.visited, hfound.visited, mem_append, or_assoc]
    · obtain hy | hy := mem_append.1 hy
      · exact mem_cons.2 (.inl (mem_singleton.1 (hfound.mem_dependents y hy)))
      · exact List.mem_cons_of_mem _ (hfound'.mem_dependents y hy)
    · obtain rfl | hy := mem_cons.1 hy
      · exact (hfound'.visited y).2 (.inl (hfound.mem_visited y (List.mem_singleton_self y)))
      · exact hfound'.mem_visited y hy

/-- Serving an entity costs work, and the work is bounded. -/
theorem serve_spec {reverse : EntityMap (List EntityId)}
    {dependency : EntityId} (h : state.serve reverse dependency = .ok state') :
    state.work < state'.work ∧ state.work < maxProgramGraphWork ∧
      ∃ found, Visits (reverse.getD dependency []) state state' found := by
  simp only [serve, bind_eq_ok, charge_eq_ok] at h
  obtain ⟨work, ⟨rfl, hmax⟩, h⟩ := h
  obtain ⟨found, hfound⟩ := visitDependents_spec h
  have hlt : state.work < state'.work := hfound.work_le
  exact ⟨hlt, hmax, found, hfound.queue, hfound.visited, hfound.mem_dependents, hfound.mem_visited,
    hlt.le⟩

end ClosureState

def closureLoop (reverse : EntityMap (List EntityId)) (state : ClosureState) :
    Except CandidateProgramError EntitySet :=
  match state.queue with
  | [] => .ok state.visited
  | dependency :: queue =>
    match _hserve : ClosureState.serve reverse { state with queue } dependency with
    | .error error => .error error
    | .ok state' => closureLoop reverse state'
termination_by maxProgramGraphWork - state.work
decreasing_by
  obtain ⟨hlt, hmax, -⟩ := ClosureState.serve_spec _hserve
  exact Nat.sub_lt_sub_left hmax hlt

/-- The loop keeps the search closing: what is queued was visited, and what was visited and is not
queued is done. -/
theorem closureLoop_eq_reachable {reverse : EntityMap (List EntityId)} {state : ClosureState}
    {visited : EntitySet} {next : EntityId → Set EntityId} {seeds done : Set EntityId}
    (hnext : ∀ x y, y ∈ reverse.getD x [] ↔ y ∈ next x)
    (h : closureLoop reverse state = .ok visited)
    (hvisited : ∀ y, y ∈ state.visited ↔ y ∈ done ∪ {y | y ∈ state.queue})
    (hclosing : Closing next seeds done state.queue) :
    {y | y ∈ visited} = reachable next seeds := by
  fun_induction closureLoop reverse state generalizing done with
  | case1 state hqueue =>
    obtain rfl := Except.ok.inj h
    rw [hqueue] at hvisited hclosing
    rw [← hclosing.eq_reachable]
    exact Set.ext fun y ↦ (hvisited y).trans (by simp)
  | case2 state dependency queue hqueue error herror => cases h
  | case3 state dependency queue hqueue state' hserve ih =>
    obtain ⟨-, -, found, hfound⟩ := ClosureState.serve_spec hserve
    have hqueue' : state'.queue = queue ++ found := hfound.queue
    have hvisited' : ∀ y, y ∈ state'.visited ↔
        y ∈ insert dependency done ∪ {y | y ∈ state'.queue} := by
      intro y
      rw [hfound.visited, hvisited, hqueue, hqueue']
      simp only [Set.mem_union, Set.mem_ofPred_eq, mem_cons, Set.mem_insert_iff,
        mem_append]
      tauto
    refine ih h hvisited' ?_
    rw [hqueue'] at hvisited' ⊢
    rw [hqueue] at hclosing
    refine hclosing.visit (fun y hy ↦ (hnext _ _).1 (hfound.mem_dependents y hy)) fun y hy ↦ ?_
    exact (hvisited' y).1 (hfound.mem_visited y ((hnext _ _).2 hy))

/-- The queue of a start holds what was visited: the seeds. -/
theorem ClosureState.seeds_spec {seeds : List EntityId} {state : ClosureState}
    (hstate : ∀ y, y ∈ state.visited ↔ y ∈ state.queue) (y : EntityId) :
    (y ∈ (seeds.foldl seed state).visited ↔ y ∈ (seeds.foldl seed state).queue) ∧
      (y ∈ (seeds.foldl seed state).queue ↔ y ∈ state.queue ∨ y ∈ seeds) := by
  induction seeds generalizing state with
  | nil => exact ⟨hstate y, by simp⟩
  | cons id seeds ih =>
    rw [List.foldl_cons, seed]
    split
    · rename_i hmem
      refine ⟨(ih hstate).1, (ih hstate).2.trans ?_⟩
      rw [mem_cons, ← or_assoc]
      refine or_congr_left ⟨.inl, ?_⟩
      rintro (hy | rfl)
      exacts [hy, (hstate y).1 hmem]
    · have hinsert : ∀ y, y ∈ state.visited.insert id ↔ y ∈ state.queue ++ [id] := by
        intro y
        rw [EntitySet.mem_insert_iff, hstate, mem_append, mem_singleton, or_comm]
      refine ⟨(ih hinsert).1, (ih hinsert).2.trans ?_⟩
      rw [mem_append, mem_singleton, mem_cons, or_assoc]

namespace CandidateProgram

variable (program : CandidateProgram)

def affectedClosure (seeds : List EntityId) : Except CandidateProgramError (List EntityId) := do
  rejectIf (seeds.length > maxProgramEntities) .resourceLimit
  let visited ← closureLoop program.reverseEdges (seeds.foldl ClosureState.seed ⟨∅, [], 0⟩)
  return visited.toList

/-- The requirements of the policy bindings whose subject is in the closure. -/
def requiredCapabilities (closure : List EntityId) : List EntityId :=
  (EntitySet.ofIds (program.policyBindings.flatMap fun binding ↦
    if binding.subject ∈ closure then binding.requirements.values else [])).toList

def affectedFunctions (closure : List EntityId) : List EntityId :=
  closure.filter fun entity ↦ program.kinds[entity]? = some EntityKind.function.kindTag

/-- What depends on an entity directly. -/
def dependents (dependency : EntityId) : Set EntityId :=
  {dependent | ∃ relationshipTag, ⟨dependent, dependency, relationshipTag⟩ ∈ program.edges}

variable {program}

theorem mem_pushDependents {edges : List ProgramEdge} {reverse : EntityMap (List EntityId)}
    {x y : EntityId} :
    y ∈ (edges.foldl pushDependent reverse).getD x [] ↔
      y ∈ reverse.getD x [] ∨ ∃ edge ∈ edges, edge.dependency = x ∧ edge.dependent = y := by
  induction edges generalizing reverse with
  | nil => simp
  | cons edge edges ih =>
    rw [List.foldl_cons, ih, List.exists_mem_cons_iff, ← or_assoc]
    refine or_congr_left ?_
    rw [pushDependent, Std.ExtTreeMap.getD_insert]
    by_cases hx : edge.dependency = x
    · subst hx
      simp [eq_comm]
    · simp [hx]

theorem mem_reverseEdges {x y : EntityId} :
    y ∈ program.reverseEdges.getD x [] ↔ y ∈ program.dependents x := by
  have hmem : y ∈ program.reverseEdges.getD x [] ↔
      y ∈ (program.edges.foldl pushDependent ∅).getD x [] := by
    rw [reverseEdges, Std.ExtTreeMap.getD_eq_getD_getElem?, Std.ExtTreeMap.getElem?_map,
      Std.ExtTreeMap.getD_eq_getD_getElem?]
    cases (program.edges.foldl pushDependent ∅)[x]? with
    | none => rfl
    | some dependents => simp [mem_destutter_ne_iff]
  rw [hmem, mem_pushDependents]
  constructor
  · rintro (hy | ⟨⟨dependent, dependency, tag⟩, hedge, rfl, rfl⟩)
    · simp at hy
    · exact ⟨tag, hedge⟩
  · rintro ⟨tag, hedge⟩
    exact .inr ⟨_, hedge, rfl, rfl⟩

/-- **The closure of some seeds is what depends on them, directly or not.** -/
theorem mem_affectedClosure_iff {seeds closure : List EntityId}
    (h : program.affectedClosure seeds = .ok closure) {entity : EntityId} :
    entity ∈ closure ↔ entity ∈ reachable program.dependents {seed | seed ∈ seeds} := by
  simp only [affectedClosure, bind_eq_ok, rejectIf_eq_ok, Unique.exists_iff, pure_eq_ok] at h
  obtain ⟨-, visited, hvisited, rfl⟩ := h
  have hstart : ∀ y, y ∈ (⟨∅, [], 0⟩ : ClosureState).visited ↔
      y ∈ (⟨∅, [], 0⟩ : ClosureState).queue := by simp
  have hseeds : ∀ y, _ ∧ (y ∈ (seeds.foldl ClosureState.seed ⟨∅, [], 0⟩).queue ↔ _) :=
    ClosureState.seeds_spec hstart
  have hqueue : {y | y ∈ (seeds.foldl ClosureState.seed ⟨∅, [], 0⟩).queue} =
      {seed | seed ∈ seeds} := Set.ext fun y ↦ (hseeds y).2.trans (by simp)
  have hreach := closureLoop_eq_reachable (fun _ _ ↦ mem_reverseEdges) hvisited
    (fun y ↦ (hseeds y).1.trans (by simp)) Closing.start
  rw [hqueue] at hreach
  rw [Std.ExtTreeSet.mem_toList]
  exact Set.ext_iff.1 hreach entity

end CandidateProgram

end Sley.Policy
