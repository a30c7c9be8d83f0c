import Sley.Lib.OrderedMap
import Sley.Lib.Outcome
import Sley.Query.Dependencies
import Sley.Ssmc.Order

/-!
# The impact index

The edges between the definitions of a request and the traversal of them
(`sley-query/src/lib.rs`). The builder carries out the walk over each definition in turn; **what it
collects are the edges of the definitions** (`ImpactIndex.mem_direct_iff`), in their canonical order.
-/

namespace Sley.Query

open Ssmc Mutate
open Except hiding ok error

def maxImpactEntities : Nat := 65535

def maxImpactEdges : Nat := 4000000

def maxImpactSeeds : Nat := 65535

def maxImpactWork : Nat := 100000000

/-- `charge_work`. -/
def chargeWork (work amount : Nat) : Except ImpactErrorCode Nat := do
  rejectIf (work + amount ≥ 2 ^ 64) .resourceLimit
  rejectIf (work + amount > maxImpactWork) .resourceLimit
  return work + amount

theorem chargeWork_eq_ok {work amount work' : Nat} :
    chargeWork work amount = .ok work' ↔ work' = work + amount ∧ work' ≤ maxImpactWork := by
  simp only [chargeWork, bind_eq_ok, rejectIf_eq_ok, Unique.exists_iff,
    pure_eq_ok, gt_iff_lt, ge_iff_le, Nat.not_lt, Nat.not_le]
  constructor
  · rintro ⟨-, hle, rfl⟩
    exact ⟨rfl, hle⟩
  · rintro ⟨rfl, hle⟩
    exact ⟨lt_of_le_of_lt hle (by decide), hle, rfl⟩

/-! ### Edges -/

/-- One canonical direct edge: changing `dependency` may affect `dependent`. -/
@[ext]
structure ImpactEdge where
  dependent : EntityId
  dependency : EntityId
  kind : ImpactKind
  deriving DecidableEq

namespace ImpactEdge

/-- The derived order of the source: the kinds are declared in the order of their tags. -/
def sortKey (edge : ImpactEdge) : EntityId × EntityId × UInt32 :=
  (edge.dependent, edge.dependency, edge.kind.tag)

theorem sortKey_injective : Function.Injective sortKey := by
  intro a b h
  obtain ⟨hdependent, htail⟩ := Prod.mk.inj h
  obtain ⟨hdependency, htag⟩ := Prod.mk.inj htail
  exact ImpactEdge.ext hdependent hdependency (ImpactKind.tag_injective htag)

instance : Ord ImpactEdge := ⟨fun a b ↦ compare a.sortKey b.sortKey⟩

instance : Std.TransOrd ImpactEdge where
  eq_swap {a b} := show compare a.sortKey b.sortKey = (compare b.sortKey a.sortKey).swap from
    Std.OrientedCmp.eq_swap
  isLE_trans {a _ c} hab hbc := show (compare a.sortKey c.sortKey).isLE from
    Std.TransCmp.isLE_trans hab hbc

instance : Std.LawfulEqOrd ImpactEdge where
  eq_of_compare {a b} h := by
    have hcompare : compare a.sortKey b.sortKey = .eq := h
    exact sortKey_injective (Std.LawfulEqCmp.eq_of_compare hcompare)

end ImpactEdge

/-- The edges that a step of a walk over `dependent` adds. -/
def ImpactStep.Adds (dependent : EntityId) (step : ImpactStep) (edge : ImpactEdge) : Prop :=
  edge.dependent = dependent ∧ ∃ expected, step = .add edge.dependency edge.kind expected

/-- The edges of a definition. -/
def edges (entity : ImpactEntity) : Set ImpactEdge :=
  {edge | ∃ step ∈ collectSteps entity, step.Adds entity.entityId edge}

/-! ### Building the index -/

/-- `EdgeBuilder`: the edges that were collected, and the work that was charged. -/
structure EdgeBuilder where
  edges : Std.ExtTreeSet ImpactEdge
  work : Nat

namespace EdgeBuilder

/-- Carry out one step of the walk over `dependent`. -/
def step (kinds : EntityMap EntityKind) (dependent : EntityId) (builder : EdgeBuilder) :
    ImpactStep → Except ImpactErrorCode EdgeBuilder
  | .charge => do
    let work ← chargeWork builder.work 1
    return { builder with work }
  | .fail code => .error code
  | .add dependency kind expected => do
    let work ← chargeWork builder.work 1
    let actual ← ofOption .unresolvedEntity kinds[dependency]?
    rejectIf (expected.any (· ≠ actual)) .wrongEntityKind
    let edges := builder.edges.insert ⟨dependent, dependency, kind⟩
    rejectIf (edges.size > maxImpactEdges) .resourceLimit
    return { edges, work }

def collect (kinds : EntityMap EntityKind) (builder : EdgeBuilder) (entity : ImpactEntity) :
    Except ImpactErrorCode EdgeBuilder :=
  (collectSteps entity).foldlM (step kinds entity.entityId) builder

variable {kinds : EntityMap EntityKind} {builder builder' : EdgeBuilder}

theorem mem_edges_of_step {dependent : EntityId} {s : ImpactStep}
    (h : builder.step kinds dependent s = .ok builder') (edge : ImpactEdge) :
    edge ∈ builder'.edges ↔ edge ∈ builder.edges ∨ s.Adds dependent edge := by
  cases s with
  | charge =>
    obtain ⟨work, -, hout⟩ := Except.bind_eq_ok.1 h
    obtain rfl := Except.pure_eq_ok.1 hout
    simp [ImpactStep.Adds]
  | fail code => cases h
  | add dependency kind expected =>
    simp only [step, bind_eq_ok, rejectIf_eq_ok, Unique.exists_iff, pure_eq_ok] at h
    obtain ⟨work, -, actual, -, -, -, rfl⟩ := h
    have hadds : (ImpactStep.add dependency kind expected).Adds dependent edge ↔
        edge = ⟨dependent, dependency, kind⟩ := by
      constructor
      · rintro ⟨hdependent, _, heq⟩
        obtain ⟨hdependency, hkind, -⟩ := ImpactStep.add.inj heq
        exact ImpactEdge.ext hdependent hdependency.symm hkind.symm
      · rintro rfl
        exact ⟨rfl, _, rfl⟩
    rw [hadds, OrderedSet.mem_insert, or_comm]

theorem mem_edges_of_collect {entity : ImpactEntity}
    (h : builder.collect kinds entity = .ok builder') (edge : ImpactEdge) :
    edge ∈ builder'.edges ↔ edge ∈ builder.edges ∨ edge ∈ Query.edges entity :=
  foldlM_collects (P := fun builder edge ↦ edge ∈ builder.edges)
    (Q := fun step edge ↦ step.Adds entity.entityId edge)
    (fun _ _ _ h edge ↦ mem_edges_of_step h edge) h edge

end EdgeBuilder

/-- Derived direct and reverse impact index. -/
structure ImpactIndex where
  kinds : EntityMap EntityKind
  direct : List ImpactEdge
  reverse : EntityMap (List ImpactEdge)

namespace ImpactIndex

/-- The identities ascend; each kind is noted. -/
def scan (state : Option EntityId × EntityMap EntityKind × Nat) (entity : ImpactEntity) :
    Except ImpactErrorCode (Option EntityId × EntityMap EntityKind × Nat) := do
  let (prior, kinds, work) := state
  let work ← chargeWork work 1
  rejectIf (prior.any fun value ↦ (compare value entity.entityId).isGE) .setNotCanonical
  return (some entity.entityId, kinds.insert entity.entityId entity.kind, work)

/-- File an edge under its dependency. -/
def pushReverse (reverse : EntityMap (List ImpactEdge)) (edge : ImpactEdge) :
    EntityMap (List ImpactEdge) :=
  reverse.insert edge.dependency (reverse.getD edge.dependency [] ++ [edge])

/-- `ImpactIndex::build`. -/
def build (entities : List ImpactEntity) : Except ImpactErrorCode ImpactIndex := do
  rejectIf (entities.length > maxImpactEntities) .resourceLimit
  let (_, kinds, work) ← entities.foldlM scan (none, ∅, 0)
  let builder ← entities.foldlM (EdgeBuilder.collect kinds) ⟨∅, work⟩
  let direct := builder.edges.toList
  return { kinds, direct, reverse := direct.foldl pushReverse ∅ }

/-- `reverse_edges`. -/
def reverseEdges (index : ImpactIndex) (dependency : EntityId) : List ImpactEdge :=
  index.reverse.getD dependency []

variable {entities : List ImpactEntity} {index : ImpactIndex}

/-- **The direct edges are the edges of the definitions.** -/
theorem mem_direct_iff (h : build entities = .ok index) (edge : ImpactEdge) :
    edge ∈ index.direct ↔ ∃ entity ∈ entities, edge ∈ edges entity := by
  simp only [build, bind_eq_ok, pure_eq_ok] at h
  obtain ⟨-, -, ⟨prior, kinds, work⟩, -, builder, hbuilder, rfl⟩ := h
  rw [Std.ExtTreeSet.mem_toList, foldlM_collects
    (P := fun builder edge ↦ edge ∈ builder.edges) (Q := fun entity edge ↦ edge ∈ edges entity)
    (fun _ _ _ h edge ↦ EdgeBuilder.mem_edges_of_collect h edge) hbuilder edge]
  simp

/-- They are in canonical order. -/
theorem direct_sorted (h : build entities = .ok index) :
    index.direct.Pairwise (compare · · = .lt) := by
  simp only [build, bind_eq_ok, pure_eq_ok] at h
  obtain ⟨-, -, ⟨prior, kinds, work⟩, -, builder, hbuilder, rfl⟩ := h
  exact Std.ExtTreeSet.ordered_toList

end ImpactIndex

/-! ### The traversal -/

/-- A traversal on its way. -/
structure Traversal where
  visited : EntitySet
  queue : List EntityId
  work : Nat

namespace Traversal

/-- What is done with an element of the queue; it costs work, and the work is bounded. -/
structure Server where
  serve : Traversal → EntityId → Except ImpactErrorCode Traversal
  work_lt : ∀ {traversal id traversal'}, serve traversal id = .ok traversal' →
    traversal.work < traversal'.work ∧ traversal.work < maxImpactWork

/-- Serve the queue until it is empty. -/
def Server.run (server : Server) (traversal : Traversal) : Except ImpactErrorCode Traversal :=
  match traversal.queue with
  | [] => .ok traversal
  | id :: queue =>
    match _hserve : server.serve { traversal with queue } id with
    | .error code => .error code
    | .ok next => server.run next
termination_by maxImpactWork - traversal.work
decreasing_by
  obtain ⟨hlt, hmax⟩ := server.work_lt _hserve
  exact Nat.sub_lt_sub_left hmax hlt

/-- **The rule of a traversal.** What every service keeps decides the end, whether the queue is
empty or a service is refused. -/
theorem Server.run_rule (server : Server) {P : Traversal → Prop}
    {Q : Except ImpactErrorCode Traversal → Prop}
    (hdone : ∀ t, P t → t.queue = [] → Q (.ok t))
    (hrefused : ∀ t id queue code, P t → t.queue = id :: queue →
      server.serve { t with queue } id = .error code → Q (.error code))
    (hserve : ∀ t id queue t', P t → t.queue = id :: queue →
      server.serve { t with queue } id = .ok t' → P t') {t : Traversal} (h : P t) :
    Q (server.run t) := by
  fun_induction run server t with
  | case1 t hqueue => exact hdone t h hqueue
  | case2 t id queue hqueue code hcode => exact hrefused t id queue code h hqueue hcode
  | case3 t id queue hqueue next hnext ih => exact ih (hserve t id queue next h hqueue hnext)

/-- Steps that do not lower the work do not lower it together. -/
theorem work_le_of_foldlM {α : Type} {f : Traversal → α → Except ImpactErrorCode Traversal}
    (hf : ∀ {t a t'}, f t a = .ok t' → t.work ≤ t'.work) {xs : List α} {t t' : Traversal}
    (h : xs.foldlM f t = .ok t') : t.work ≤ t'.work := by
  induction xs generalizing t with
  | nil =>
    obtain rfl := Except.pure_eq_ok.1 h
    exact le_rfl
  | cons x xs ih =>
    rw [List.foldlM_cons, bind_eq_ok] at h
    obtain ⟨next, hfirst, hrest⟩ := h
    exact (hf hfirst).trans (ih hrest)

/-- Queue a seed; the seeds ascend and are bound. -/
def seed (index : ImpactIndex) (state : Option EntityId × Traversal) (seed : EntityId) :
    Except ImpactErrorCode (Option EntityId × Traversal) := do
  let (prior, traversal) := state
  let work ← chargeWork traversal.work 1
  rejectIf (prior.any fun value ↦ (compare value seed).isGE) .setNotCanonical
  rejectIf (seed ∉ index.kinds) .unresolvedEntity
  return (some seed, ⟨traversal.visited.insert seed, traversal.queue ++ [seed], work⟩)

/-- Queue the dependent of an edge when it is new. -/
def follow (traversal : Traversal) (edge : ImpactEdge) : Except ImpactErrorCode Traversal := do
  let work ← chargeWork traversal.work 1
  if edge.dependent ∈ traversal.visited then
    return { traversal with work }
  else
    let visited := traversal.visited.insert edge.dependent
    rejectIf (visited.size > maxImpactEntities) .resourceLimit
    return ⟨visited, traversal.queue ++ [edge.dependent], work⟩

theorem work_le_of_follow {traversal traversal' : Traversal} {edge : ImpactEdge}
    (h : traversal.follow edge = .ok traversal') : traversal.work ≤ traversal'.work := by
  simp only [follow, bind_eq_ok, chargeWork_eq_ok] at h
  obtain ⟨work, ⟨rfl, -⟩, h⟩ := h
  split at h
  · obtain rfl := Except.pure_eq_ok.1 h
    exact Nat.le_succ _
  · obtain ⟨-, -, h⟩ := Except.bind_eq_ok.1 h
    obtain rfl := Except.pure_eq_ok.1 h
    exact Nat.le_succ _

end Traversal

namespace ImpactIndex

/-- The dependents of a dependency that was taken from the queue are queued. -/
def server (index : ImpactIndex) : Traversal.Server where
  serve traversal dependency := do
    let work ← chargeWork traversal.work 1
    (index.reverseEdges dependency).foldlM Traversal.follow { traversal with work }
  work_lt h := by
    simp only [bind_eq_ok, chargeWork_eq_ok] at h
    obtain ⟨work, ⟨rfl, hmax⟩, h⟩ := h
    exact ⟨Traversal.work_le_of_foldlM Traversal.work_le_of_follow h, hmax⟩

/-- `transitive_impact`: what depends on the seeds, directly or not, and the seeds. -/
def transitiveImpact (index : ImpactIndex) (seeds : List EntityId) :
    Except ImpactErrorCode (List EntityId) := do
  rejectIf (seeds.length > maxImpactSeeds) .resourceLimit
  let (_, traversal) ← seeds.foldlM (Traversal.seed index) (none, ⟨∅, [], 0⟩)
  let traversal ← index.server.run traversal
  return traversal.visited.toList

end ImpactIndex

end Sley.Query
