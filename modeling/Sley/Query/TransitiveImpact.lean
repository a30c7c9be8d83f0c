import Mathlib
import Sley.Lib.SortUnique
import Sley.Lib.Worklist
import Sley.Query.Impact

/-!
# The closure under impact

The traversal of an index that was built. A seed is queued once, and so is every dependent that was
not known, so that **the work is settled in advance**: one unit for each seed, and for each identity
reached one unit and one for each of its reverse edges. Within the limit the traversal ends with
what reaches a seed along the direct edges, and beyond it the traversal is refused; no other limit
is ever met.
-/

namespace Sley.Query

open Ssmc Mutate
open Except hiding ok error
open EntitySet (mem_insert_iff)
open List (append_assoc foldlM_cons foldl_cons length_cons mem_append mem_filter nodup_nil)

theorem chargeWork_eq (work amount : Nat) : chargeWork work amount =
      if work + amount ≤ maxImpactWork then .ok (work + amount) else .error .resourceLimit := by
  have hmax : maxImpactWork < 2 ^ 64 := by decide
  rw [chargeWork]
  by_cases hle : work + amount ≤ maxImpactWork
  · rw [rejectIf_neg (by omega), rejectIf_neg (by omega), if_pos hle]
    rfl
  · rw [if_neg hle]
    by_cases hoverflow : work + amount ≥ 2 ^ 64
    · rw [rejectIf_pos hoverflow]
      rfl
    · rw [rejectIf_neg hoverflow, rejectIf_pos (by omega)]
      rfl

/-! ### The index that is built -/

namespace ImpactIndex

variable {entities : List ImpactEntity} {index : ImpactIndex} {id : EntityId}

variable {state state' : Option EntityId × EntityMap EntityKind × Nat}

theorem scan_eq_ok {entity : ImpactEntity} (h : scan state entity = .ok state') :
    state'.2.1 = state.2.1.insert entity.entityId entity.kind := by
  simp only [scan, bind_eq_ok, pure_eq_ok] at h
  obtain ⟨-, -, -, -, rfl⟩ := h
  rfl

/-- The scan notes the identities of the entities. -/
theorem scanned (h : entities.foldlM scan state = .ok state') :
    (∀ id, id ∈ state'.2.1 ↔ id ∈ state.2.1 ∨ ∃ entity ∈ entities, entity.entityId = id) ∧
      state'.2.1.size ≤ state.2.1.size + entities.length := by
  induction entities generalizing state with
  | nil =>
    obtain rfl := Except.pure_eq_ok.1 h
    simp
  | cons entity entities ih =>
    rw [foldlM_cons, bind_eq_ok] at h
    obtain ⟨next, hscan, hrest⟩ := h
    obtain ⟨hmem, hsize⟩ := ih hrest
    rw [scan_eq_ok hscan] at hmem hsize
    refine ⟨fun id ↦ ?_, ?_⟩
    · rw [hmem, EntityMap.mem_insert_iff, List.exists_mem_cons_iff, eq_comm (a := id)]
      tauto
    · have := Std.ExtTreeMap.size_insert_le (t := state.2.1) (k := entity.entityId)
        (v := entity.kind)
      rw [length_cons]
      omega

/-- The bound identities are those of the entities. -/
theorem mem_kinds_iff (h : build entities = .ok index) :
    id ∈ index.kinds ↔ ∃ entity ∈ entities, entity.entityId = id := by
  simp only [build, bind_eq_ok, pure_eq_ok] at h
  obtain ⟨-, -, ⟨prior, kinds, work⟩, hscan, builder, -, rfl⟩ := h
  show id ∈ kinds ↔ _
  rw [(scanned hscan).1]
  simp

theorem size_kinds_le (h : build entities = .ok index) : index.kinds.size ≤ maxImpactEntities := by
  simp only [build, bind_eq_ok, pure_eq_ok, rejectIf_eq_ok] at h
  obtain ⟨-, hlength, ⟨prior, kinds, work⟩, hscan, builder, -, rfl⟩ := h
  have hsize := (scanned hscan).2
  simp only [Std.ExtTreeMap.size_empty] at hsize
  show kinds.size ≤ maxImpactEntities
  omega

theorem getD_foldl_pushReverse (direct : List ImpactEdge) (reverse : EntityMap (List ImpactEdge))
    (dependency : EntityId) :
    (direct.foldl pushReverse reverse).getD dependency [] =
      reverse.getD dependency [] ++ direct.filter (·.dependency = dependency) := by
  induction direct generalizing reverse with
  | nil => simp
  | cons edge direct ih =>
    rw [foldl_cons, ih, pushReverse, Std.ExtTreeMap.getD_insert, List.filter_cons]
    by_cases heq : edge.dependency = dependency
    · subst heq
      simp
    · simp [Std.LawfulEqCmp.compare_eq_iff_eq, heq]

/-- **The reverse edges are the direct ones, filed by dependency.** -/
theorem reverseEdges_eq (h : build entities = .ok index) (dependency : EntityId) :
    index.reverseEdges dependency = index.direct.filter (·.dependency = dependency) := by
  simp only [build, bind_eq_ok, pure_eq_ok] at h
  obtain ⟨-, -, ⟨prior, kinds, work⟩, -, builder, -, rfl⟩ := h
  rw [reverseEdges, getD_foldl_pushReverse]
  simp

/-- The dependents are bound. -/
theorem dependent_mem_kinds (h : build entities = .ok index) {edge : ImpactEdge}
    (hedge : edge ∈ index.direct) : edge.dependent ∈ index.kinds := by
  obtain ⟨entity, hentity, step, -, hadds, -⟩ := (mem_direct_iff h edge).1 hedge
  exact (mem_kinds_iff h).2 ⟨entity, hentity, hadds.symm⟩

end ImpactIndex

/-! ### Following the edges of one identity -/

namespace Traversal

/-- `follow` without its limits. -/
def followed (traversal : Traversal) (edge : ImpactEdge) : Traversal :=
  if edge.dependent ∈ traversal.visited then { traversal with work := traversal.work + 1 }
  else ⟨traversal.visited.insert edge.dependent, traversal.queue ++ [edge.dependent],
    traversal.work + 1⟩

variable {t t' : Traversal} {edge : ImpactEdge} {es : List ImpactEdge}

theorem work_followed : (t.followed edge).work = t.work + 1 := by
  rw [followed]
  split <;> rfl

theorem mem_visited_followed {id : EntityId} :
    id ∈ (t.followed edge).visited ↔ id = edge.dependent ∨ id ∈ t.visited := by
  rw [followed]
  split
  · rename_i hmem
    exact ⟨.inr, fun h ↦ h.elim (fun heq ↦ heq ▸ hmem) fun hid ↦ hid⟩
  · exact mem_insert_iff

variable {kinds : EntityMap EntityKind}

/-- Where everything visited is bound, work is the only limit. -/
theorem follow_eq (hsize : kinds.size ≤ maxImpactEntities)
    (hvisited : ∀ id ∈ t.visited, id ∈ kinds) (hedge : edge.dependent ∈ kinds) :
    t.follow edge =
      if t.work + 1 ≤ maxImpactWork then .ok (t.followed edge) else .error .resourceLimit := by
  rw [follow, chargeWork_eq]
  by_cases hwork : t.work + 1 ≤ maxImpactWork
  · rw [if_pos hwork, if_pos hwork, followed]
    show (if _ then _ else _) = _
    by_cases hmem : edge.dependent ∈ t.visited
    · rw [if_pos hmem, if_pos hmem]
      rfl
    · rw [if_neg hmem, if_neg hmem]
      have hle : (t.visited.insert edge.dependent).size ≤ kinds.size := by
        rw [← Std.ExtTreeSet.length_toList]
        refine EntityMap.length_le_size (EntitySet.nodup_toList _) fun id hid ↦ ?_
        rw [Std.ExtTreeSet.mem_toList, mem_insert_iff] at hid
        exact hid.elim (fun heq ↦ heq ▸ hedge) (hvisited id)
      rw [rejectIf_neg (by omega)]
      rfl
  · rw [if_neg hwork, if_neg hwork]
    rfl

theorem foldlM_follow_eq (hsize : kinds.size ≤ maxImpactEntities)
    (hvisited : ∀ id ∈ t.visited, id ∈ kinds) (hes : ∀ edge ∈ es, edge.dependent ∈ kinds)
    (hwork : t.work ≤ maxImpactWork) :
    es.foldlM follow t =
      if t.work + es.length ≤ maxImpactWork then .ok (es.foldl followed t)
      else .error .resourceLimit := by
  induction es generalizing t with
  | nil => exact (if_pos hwork).symm
  | cons edge es ih =>
    obtain ⟨hedge, hes⟩ := List.forall_mem_cons.1 hes
    rw [foldlM_cons, follow_eq hsize hvisited hedge, length_cons]
    by_cases hnext : t.work + 1 ≤ maxImpactWork
    · rw [if_pos hnext]
      show es.foldlM follow (t.followed edge) = _
      rw [ih (fun id hid ↦ ?_) hes (work_followed ▸ hnext), work_followed, foldl_cons]
      · congr 2
        omega
      · exact (mem_visited_followed.1 hid).elim (fun heq ↦ heq ▸ hedge) (hvisited id)
    · rw [if_neg hnext, if_neg (by omega)]
      rfl

theorem work_foldl_followed : (es.foldl followed t).work = t.work + es.length := by
  induction es generalizing t with
  | nil => rfl
  | cons edge es ih =>
    rw [foldl_cons, ih, work_followed, length_cons]
    omega

/-- What is queued of some candidates: those that were not known, each of them once. -/
structure Finds (t : Traversal) (candidates : List EntityId) (t' : Traversal)
    (found : List EntityId) : Prop where
  queue_eq : t'.queue = t.queue ++ found
  nodup : found.Nodup
  isNew : ∀ id ∈ found, id ∉ t.visited ∧ id ∈ candidates
  mem_visited : ∀ id, id ∈ t'.visited ↔ id ∈ t.visited ∨ id ∈ found
  subset_visited : ∀ id ∈ candidates, id ∈ t'.visited

namespace Finds

variable {t₁ t₂ : Traversal} {candidates candidates' found found' : List EntityId} {id : EntityId}

theorem refl (t : Traversal) : t.Finds [] t [] := ⟨by simp, nodup_nil, by simp, by simp, by simp⟩

/-- What is no candidate only costs. -/
theorem idle (t : Traversal) (work : Nat) : t.Finds [] { t with work } [] :=
  ⟨by simp, nodup_nil, by simp, by simp, by simp⟩

/-- A candidate that is known is left. -/
theorem known (h : id ∈ t.visited) (work : Nat) : t.Finds [id] { t with work } [] :=
  ⟨by simp, nodup_nil, by simp, by simp, by simpa using h⟩

/-- A candidate that is not known is queued. -/
theorem new (h : id ∉ t.visited) (work : Nat) :
    t.Finds [id] ⟨t.visited.insert id, t.queue ++ [id], work⟩ [id] := by
  refine ⟨rfl, List.nodup_singleton id, by simpa using h, fun other ↦ ?_, by simp⟩
  rw [mem_insert_iff, List.mem_singleton, or_comm]

theorem trans (h : t.Finds candidates t₁ found) (h' : t₁.Finds candidates' t₂ found') :
    t.Finds (candidates ++ candidates') t₂ (found ++ found') := by
  refine ⟨by rw [h'.queue_eq, h.queue_eq, append_assoc], ?_, fun id hid ↦ ?_, fun id ↦ ?_,
    fun id hid ↦ ?_⟩
  · refine List.nodup_append'.2 ⟨h.nodup, h'.nodup, fun id hid hid' ↦ ?_⟩
    exact (h'.isNew id hid').1 ((h.mem_visited id).2 (.inr hid))
  · obtain hid | hid := mem_append.1 hid
    · exact ⟨(h.isNew id hid).1, List.mem_append_left _ (h.isNew id hid).2⟩
    · obtain ⟨hnew, hcandidate⟩ := h'.isNew id hid
      exact ⟨fun hknown ↦ hnew ((h.mem_visited id).2 (.inl hknown)),
        List.mem_append_right _ hcandidate⟩
  · rw [h'.mem_visited, h.mem_visited, mem_append, or_assoc]
  · obtain hid | hid := mem_append.1 hid
    · exact (h'.mem_visited id).2 (.inl (h.subset_visited id hid))
    · exact h'.subset_visited id hid

/-- **Serving an element whose successors are the candidates** moves it to what is done. -/
theorem closing {next : EntityId → Set EntityId} {seeds done : Set EntityId}
    {queue : List EntityId} (h : t.Finds candidates t' found)
    (hqueue : t.queue = queue) (hclosing : Closing next seeds done (id :: queue))
    (hvisited : ∀ other, other ∈ t.visited ↔ other ∈ done ∨ other ∈ id :: queue)
    (hcandidates : ∀ other, other ∈ candidates ↔ other ∈ next id) :
    Closing next seeds (insert id done) t'.queue ∧
      ∀ other, other ∈ t'.visited ↔ other ∈ insert id done ∨ other ∈ t'.queue := by
  have hknown : ∀ other, other ∈ t'.visited ↔ other ∈ insert id done ∨ other ∈ t'.queue := by
    intro other
    rw [h.mem_visited, hvisited, h.queue_eq, hqueue, Set.mem_insert_iff, List.mem_cons, mem_append]
    tauto
  refine ⟨?_, hknown⟩
  rw [h.queue_eq, hqueue]
  refine hclosing.visit (fun other hother ↦ (hcandidates other).1 (h.isNew other hother).2)
    fun other hother ↦ ?_
  have := (hknown other).1 (h.subset_visited other ((hcandidates other).2 hother))
  rwa [h.queue_eq, hqueue] at this

end Finds

theorem exists_finds (t : Traversal) (es : List ImpactEdge) :
    ∃ found, t.Finds (es.map (·.dependent)) (es.foldl followed t) found := by
  induction es generalizing t with
  | nil => exact ⟨[], .refl t⟩
  | cons edge es ih =>
    obtain ⟨found, hfound⟩ := ih (t.followed edge)
    by_cases hknown : edge.dependent ∈ t.visited
    · have hfirst : t.Finds [edge.dependent] (t.followed edge) [] := by
        rw [followed, if_pos hknown]
        exact .known hknown _
      exact ⟨_, hfirst.trans hfound⟩
    · have hfirst : t.Finds [edge.dependent] (t.followed edge) [edge.dependent] := by
        rw [followed, if_neg hknown]
        exact .new hknown _
      exact ⟨_, hfirst.trans hfound⟩

end Traversal

/-! ### The seeds -/

namespace ImpactIndex

variable {index : ImpactIndex} {seeds : List EntityId}

/-- Ascending bound seeds are queued as they stand. -/
theorem foldlM_seed_eq {prior : Option EntityId} {t : Traversal}
    (hsorted : (prior.toList ++ seeds).Pairwise (compare · · = .lt))
    (hbound : ∀ seed ∈ seeds, seed ∈ index.kinds)
    (hwork : t.work + seeds.length ≤ maxImpactWork) :
    ∃ last visited, seeds.foldlM (Traversal.seed index) (prior, t) =
        .ok (last, ⟨visited, t.queue ++ seeds, t.work + seeds.length⟩) ∧
      ∀ id, id ∈ visited ↔ id ∈ t.visited ∨ id ∈ seeds := by
  induction seeds generalizing prior t with
  | nil => exact ⟨prior, t.visited, by simp; rfl, by simp⟩
  | cons seed seeds ih =>
    obtain ⟨hseed, hbound⟩ := List.forall_mem_cons.1 hbound
    rw [length_cons] at hwork
    have hascends : ¬ prior.any fun value ↦ (compare value seed).isGE := by
      cases prior with
      | none => simp
      | some value =>
        have hlt := (List.pairwise_cons.1 hsorted).1 seed List.mem_cons_self
        simp [hlt]
    have htail : (Option.toList (some seed) ++ seeds).Pairwise (compare · · = .lt) :=
      (List.pairwise_append.1 hsorted).2.1
    have hstep : Traversal.seed index (prior, t) seed =
        .ok (some seed, ⟨t.visited.insert seed, t.queue ++ [seed], t.work + 1⟩) := by
      rw [Traversal.seed, chargeWork_eq, if_pos (by omega)]
      show (do
        Except.rejectIf _ _
        Except.rejectIf _ _
        return _) = _
      rw [rejectIf_neg hascends, rejectIf_neg (not_not.2 hseed)]
      rfl
    obtain ⟨last, visited, hfold, hmem⟩ := ih
      (t := ⟨t.visited.insert seed, t.queue ++ [seed], t.work + 1⟩) htail hbound
      (by show t.work + 1 + seeds.length ≤ _; omega)
    refine ⟨last, visited, ?_, fun id ↦ ?_⟩
    · rw [foldlM_cons, hstep]
      show seeds.foldlM _ _ = _
      rw [hfold]
      congr 3
      · exact append_assoc _ _ _
      · rw [length_cons]
        show t.work + 1 + seeds.length = _
        omega
    · rw [hmem, mem_insert_iff, List.mem_cons]
      tauto

/-! ### Serving the queue -/

/-- What depends on an identity directly. -/
def dependents (index : ImpactIndex) (dependency : EntityId) : Set EntityId :=
  {id | ∃ edge ∈ index.direct, edge.dependency = dependency ∧ edge.dependent = id}

/-- What serving an identity costs. -/
def cost (index : ImpactIndex) (id : EntityId) : Nat := 1 + (index.reverseEdges id).length

/-- What serving the seeds and all of `ids` costs. -/
def totalCost (index : ImpactIndex) (seeds ids : List EntityId) : Nat :=
  seeds.length + (ids.map index.cost).sum

theorem totalCost_append_singleton (served : List EntityId) (id : EntityId) :
    index.totalCost seeds (served ++ [id]) = index.totalCost seeds served + index.cost id := by
  rw [totalCost, totalCost, List.map_append, List.sum_append, List.map_singleton,
    List.sum_singleton, Nat.add_assoc]

/-- A traversal on its way: what was served, what it cost, and what is still queued. -/
structure Underway (index : ImpactIndex) (seeds : List EntityId) (t : Traversal)
    (served : List EntityId) : Prop where
  nodup : (served ++ t.queue).Nodup
  mem_visited : ∀ id, id ∈ t.visited ↔ id ∈ served ++ t.queue
  closing : Closing index.dependents {id | id ∈ seeds} {id | id ∈ served} t.queue
  work_eq : t.work = index.totalCost seeds served
  work_le : t.work ≤ maxImpactWork

variable {entities : List ImpactEntity} {t t' : Traversal} {served queue : List EntityId}
  {id : EntityId}

section

variable (h : build entities = .ok index)

include h

/-- Serving the first of the queue fails at the work limit only. -/
theorem serve_eq (hvisited : ∀ id ∈ t.visited, id ∈ index.kinds) : index.server.serve t id =
      if t.work + index.cost id ≤ maxImpactWork then
        .ok ((index.reverseEdges id).foldl Traversal.followed { t with work := t.work + 1 })
      else .error .resourceLimit := by
  have hedges : ∀ edge ∈ index.reverseEdges id, edge.dependent ∈ index.kinds := by
    intro edge hedge
    rw [reverseEdges_eq h, mem_filter] at hedge
    exact dependent_mem_kinds h hedge.1
  show chargeWork t.work 1 >>= _ = _
  rw [chargeWork_eq, cost]
  by_cases hwork : t.work + 1 ≤ maxImpactWork
  · rw [if_pos hwork]
    show (index.reverseEdges id).foldlM Traversal.follow { t with work := t.work + 1 } = _
    rw [Traversal.foldlM_follow_eq (t := { t with work := t.work + 1 }) (size_kinds_le h) hvisited
      hedges hwork, Nat.add_assoc]
  · rw [if_neg hwork, if_neg (by omega)]
    rfl

theorem mem_dependents_iff {x : EntityId} :
    x ∈ (index.reverseEdges id).map (·.dependent) ↔ x ∈ index.dependents id := by
  simp only [reverseEdges_eq h, List.mem_map, mem_filter, decide_eq_true_eq, and_assoc]
  rfl

/-- Serving the first of the queue. -/
theorem Underway.serve (ht : index.Underway seeds t served) (hqueue : t.queue = id :: queue)
    (hwork : t.work + index.cost id ≤ maxImpactWork) :
    index.Underway seeds ((index.reverseEdges id).foldl Traversal.followed
      { t with queue, work := t.work + 1 }) (served ++ [id]) := by
  obtain ⟨found, hfound⟩ := Traversal.exists_finds { t with queue, work := t.work + 1 }
    (index.reverseEdges id)
  have hwork' : ((index.reverseEdges id).foldl Traversal.followed
      { t with queue, work := t.work + 1 }).work = t.work + index.cost id := by
    rw [Traversal.work_foldl_followed, cost]
    show t.work + 1 + _ = _
    omega
  obtain ⟨hnodup, hvisited, hclosing, htotal, -⟩ := ht
  rw [hqueue] at hnodup hvisited hclosing
  have hserved : {x | x ∈ served ++ [id]} = insert id {x | x ∈ served} := by
    ext x
    simp [or_comm]
  obtain ⟨hclosing, hknown⟩ := hfound.closing rfl hclosing
    (fun x ↦ (hvisited x).trans mem_append) fun x ↦ mem_dependents_iff h
  rw [← hserved] at hclosing hknown
  refine ⟨?_, fun x ↦ (hknown x).trans mem_append.symm, hclosing, ?_, hwork' ▸ hwork⟩
  · rw [hfound.queue_eq, append_assoc, List.singleton_append, ← List.cons_append, ← append_assoc]
    refine List.nodup_append'.2 ⟨hnodup, hfound.nodup, fun x hx hfoundx ↦ ?_⟩
    exact (hfound.isNew x hfoundx).1 ((hvisited x).2 hx)
  · rw [hwork', htotal, totalCost_append_singleton]

end

/-- What was served and is queued is reached. -/
theorem Underway.subset_reachable (ht : index.Underway seeds t served) {id : EntityId}
    (hid : id ∈ served ++ t.queue) : id ∈ reachable index.dependents {id | id ∈ seeds} :=
  ht.closing.subset_reachable (mem_append.1 hid)

theorem totalCost_le_of_subset {ids ids' : List EntityId} (hnodup : ids.Nodup)
    (h : ∀ id ∈ ids, id ∈ ids') : index.totalCost seeds ids ≤ index.totalCost seeds ids' := by
  obtain ⟨rest, hperm, hsub⟩ := hnodup.subperm h
  refine Nat.add_le_add_left ?_ _
  calc (ids.map index.cost).sum = (rest.map index.cost).sum := (hperm.map _).sum_eq.symm
    _ ≤ (ids'.map index.cost).sum := (hsub.map _).sum_le_sum fun _ _ ↦ Nat.zero_le _

variable {ids : List EntityId}

/-- **Where what is reached is known, so is the end of a traversal.** -/
theorem Underway.run (h : build entities = .ok index) (hids : ids.Nodup)
    (hreached : ∀ id, id ∈ ids ↔ id ∈ reachable index.dependents {id | id ∈ seeds})
    (hbound : ∀ id ∈ ids, id ∈ index.kinds) (ht : index.Underway seeds t served) :
    (∃ t', index.server.run t = .ok t' ∧ (∀ id, id ∈ t'.visited ↔ id ∈ ids) ∧
        index.totalCost seeds ids ≤ maxImpactWork) ∨
      index.server.run t = .error .resourceLimit ∧ maxImpactWork < index.totalCost seeds ids := by
  have hsubset : ∀ {t served}, index.Underway seeds t served →
      ∀ id ∈ served ++ t.queue, id ∈ ids := fun ht id hid ↦
    (hreached id).2 (ht.subset_reachable hid)
  fun_induction Traversal.Server.run index.server t generalizing served with
  | case1 t hqueue =>
    obtain ⟨hnodup, hvisited, hclosing, htotal, hwork⟩ := ht
    rw [hqueue] at hclosing
    rw [hqueue, List.append_nil] at hvisited hnodup
    have hserved : ∀ id, id ∈ served ↔ id ∈ ids := fun id ↦ by
      rw [hreached, ← hclosing.eq_reachable]
      rfl
    refine .inl ⟨t, rfl, fun id ↦ (hvisited id).trans (hserved id), ?_⟩
    exact (totalCost_le_of_subset hids fun id hid ↦ (hserved id).2 hid).trans (htotal ▸ hwork)
  | case2 t id queue hqueue code hserve =>
    have hvisited : ∀ x ∈ t.visited, x ∈ index.kinds := fun x hx ↦
      hbound x (hsubset ht x ((ht.mem_visited x).1 hx))
    rw [serve_eq (t := { t with queue }) h hvisited] at hserve
    split at hserve
    · cases hserve
    · rename_i hlimit
      obtain rfl := Except.error.inj hserve
      refine .inr ⟨rfl, ?_⟩
      have hmore := ht.nodup
      rw [hqueue, List.append_cons] at hmore
      have hle : index.totalCost seeds _ ≤ _ := totalCost_le_of_subset
        (List.nodup_append'.1 hmore).1 fun x hx ↦ hsubset ht x (by
          rw [hqueue, List.append_cons]
          exact List.mem_append_left _ hx)
      rw [totalCost_append_singleton, ← ht.work_eq] at hle
      simp only at hlimit
      omega
  | case3 t id queue hqueue next hserve ih =>
    have hvisited : ∀ x ∈ t.visited, x ∈ index.kinds := fun x hx ↦
      hbound x (hsubset ht x ((ht.mem_visited x).1 hx))
    rw [serve_eq (t := { t with queue }) h hvisited] at hserve
    split at hserve
    · obtain rfl := Except.ok.inj hserve
      have hnext := Underway.serve h ht hqueue ‹_›
      exact ih hnext
    · cases hserve

/-! ### The closure -/

/-- A direct edge leads from the one to the other. -/
def DependsDirectly (index : ImpactIndex) (dependent dependency : EntityId) : Prop :=
  ∃ edge ∈ index.direct, edge.dependent = dependent ∧ edge.dependency = dependency

/-- The seeds ascend and are bound. -/
def Seeds (index : ImpactIndex) (seeds : List EntityId) : Prop :=
  seeds.Pairwise (compare · · = .lt) ∧ ∀ seed ∈ seeds, seed ∈ index.kinds

/-- The identities are those from which a seed is reached, in order. -/
def IsClosure (index : ImpactIndex) (seeds ids : List EntityId) : Prop :=
  ids.Pairwise (compare · · = .lt) ∧
    ∀ id, id ∈ ids ↔ ∃ seed ∈ seeds, Relation.ReflTransGen index.DependsDirectly id seed

theorem mem_reachable_iff : id ∈ reachable index.dependents {id | id ∈ seeds} ↔
      ∃ seed ∈ seeds, Relation.ReflTransGen index.DependsDirectly id seed := by
  have hswap : (fun a b ↦ b ∈ index.dependents a) = Function.swap index.DependsDirectly := by
    funext a b
    refine propext ⟨?_, ?_⟩
    · rintro ⟨edge, hedge, rfl, rfl⟩
      exact ⟨edge, hedge, rfl, rfl⟩
    · rintro ⟨edge, hedge, rfl, rfl⟩
      exact ⟨edge, hedge, rfl, rfl⟩
  refine exists_congr fun seed ↦ and_congr_right fun _ ↦ ?_
  rw [hswap, Relation.reflTransGen_swap]

theorem nodup_of_ascends (h : ids.Pairwise (compare · · = .lt)) : ids.Nodup :=
  h.imp fun hlt heq ↦ by simp [heq] at hlt

section

variable (h : build entities = .ok index)

include h

/-- What reaches a bound seed is bound. -/
theorem mem_kinds_of_reaches {seed : EntityId}
    (hseed : seed ∈ index.kinds) (hreach : Relation.ReflTransGen index.DependsDirectly id seed) :
    id ∈ index.kinds := by
  obtain rfl | ⟨_, ⟨edge, hedge, rfl, -⟩, -⟩ := Relation.ReflTransGen.cases_head_iff.1 hreach
  · exact hseed
  · exact dependent_mem_kinds h hedge

theorem exists_isClosure (hseeds : index.Seeds seeds) : ∃ ids, index.IsClosure seeds ids := by
  classical
  refine ⟨index.kinds.keys.filter fun id ↦
    ∃ seed ∈ seeds, Relation.ReflTransGen index.DependsDirectly id seed, ?_, fun id ↦ ?_⟩
  · exact Std.ExtTreeMap.ordered_keys.filter _
  · rw [mem_filter, decide_eq_true_eq, Std.ExtTreeMap.mem_keys]
    refine and_iff_right_of_imp ?_
    rintro ⟨seed, hseed, hreach⟩
    exact mem_kinds_of_reaches h (hseeds.2 seed hseed) hreach

/-- **The outcome of a traversal.** -/
theorem transitiveImpact_eq (hseeds : index.Seeds seeds) (hids : index.IsClosure seeds ids) :
    index.transitiveImpact seeds =
      if index.totalCost seeds ids ≤ maxImpactWork then .ok ids else .error .resourceLimit := by
  obtain ⟨hsorted, hmem⟩ := hids
  have hlength : seeds.length ≤ maxImpactEntities :=
    (EntityMap.length_le_size (nodup_of_ascends hseeds.1) hseeds.2).trans (size_kinds_le h)
  have hmax : maxImpactEntities ≤ maxImpactSeeds ∧ maxImpactEntities ≤ maxImpactWork := by decide
  obtain ⟨last, visited, hfold, hvisited⟩ := @foldlM_seed_eq _ _ none ⟨∅, [], 0⟩
    hseeds.1 hseeds.2 (by show 0 + _ ≤ _; omega)
  rw [transitiveImpact, rejectIf_neg (by omega)]
  show (do
    let state ← seeds.foldlM (Traversal.seed index) (none, ⟨∅, [], 0⟩)
    let traversal ← index.server.run state.2
    return traversal.visited.toList) = _
  rw [hfold]
  show (index.server.run ⟨visited, [] ++ seeds, 0 + seeds.length⟩ >>= _) = _
  have hstart : index.Underway seeds ⟨visited, [] ++ seeds, 0 + seeds.length⟩ [] := by
    refine ⟨nodup_of_ascends hseeds.1, fun id ↦ ?_, ?_, ?_, ?_⟩
    · rw [hvisited]
      simp
    · have hclosing : Closing index.dependents {id | id ∈ seeds} ∅ seeds := Closing.start
      simpa using hclosing
    · simp [totalCost]
    · show 0 + seeds.length ≤ _
      omega
  obtain ⟨t', hrun, hclosure, hcost⟩ | ⟨hrun, hcost⟩ := hstart.run h (nodup_of_ascends hsorted)
    (fun id ↦ (hmem id).trans mem_reachable_iff.symm) (fun id hid ↦ by
      obtain ⟨seed, hseed, hreach⟩ := (hmem id).1 hid
      exact mem_kinds_of_reaches h (hseeds.2 seed hseed) hreach)
  · rw [hrun, if_pos hcost]
    have hascends : Ascends (fun id ↦ id) t'.visited.toList := EntitySet.sorted_toList _
    refine congrArg Except.ok (hascends.eq_of_mem_iff hsorted fun id ↦ ?_)
    rw [Std.ExtTreeSet.mem_toList, hclosure]
  · rw [hrun, if_neg (by omega)]
    rfl

end

/-- **Impact closure is exact.** -/
theorem transitiveImpact_exact (h : build entities = .ok index) :
    (∀ dependency, index.reverseEdges dependency =
      index.direct.filter (·.dependency = dependency)) ∧
    (∀ seeds, index.Seeds seeds → ∃ ids, index.IsClosure seeds ids ∧
      index.transitiveImpact seeds =
        if index.totalCost seeds ids ≤ maxImpactWork then .ok ids else .error .resourceLimit) ∧
    (∀ seeds seeds' ids ids', index.Seeds seeds → index.Seeds seeds' → seeds ⊆ seeds' →
      index.transitiveImpact seeds = .ok ids → index.transitiveImpact seeds' = .ok ids' →
        ids ⊆ ids') ∧
    ∀ seeds ids, index.Seeds seeds → index.transitiveImpact seeds = .ok ids →
      index.Seeds ids ∧ index.transitiveImpact ids =
        if index.totalCost ids ids ≤ maxImpactWork then .ok ids else .error .resourceLimit := by
  have hclosure : ∀ {seeds ids}, index.Seeds seeds → index.transitiveImpact seeds = .ok ids →
      index.IsClosure seeds ids := by
    intro seeds ids hseeds hids
    obtain ⟨ids', hids'⟩ := exists_isClosure h hseeds
    rw [transitiveImpact_eq h hseeds hids'] at hids
    split at hids
    · obtain rfl := Except.ok.inj hids
      exact hids'
    · cases hids
  refine ⟨reverseEdges_eq h, fun seeds hseeds ↦ ?_, ?_, ?_⟩
  · obtain ⟨ids, hids⟩ := exists_isClosure h hseeds
    exact ⟨ids, hids, transitiveImpact_eq h hseeds hids⟩
  · intro seeds seeds' ids ids' hseeds hseeds' hsub hids hids' id hid
    obtain ⟨seed, hseed, hreach⟩ := ((hclosure hseeds hids).2 id).1 hid
    exact ((hclosure hseeds' hids').2 id).2 ⟨seed, hsub hseed, hreach⟩
  · intro seeds ids hseeds hids
    obtain ⟨hsorted, hmem⟩ := hclosure hseeds hids
    have hagain : index.Seeds ids := by
      refine ⟨hsorted, fun id hid ↦ ?_⟩
      obtain ⟨seed, hseed, hreach⟩ := (hmem id).1 hid
      exact mem_kinds_of_reaches h (hseeds.2 seed hseed) hreach
    refine ⟨hagain, transitiveImpact_eq h hagain ⟨hsorted, fun id ↦ ⟨fun hid ↦ ?_, ?_⟩⟩⟩
    · exact ⟨id, hid, .refl⟩
    · rintro ⟨middle, hmiddle, hreach⟩
      obtain ⟨seed, hseed, hreach'⟩ := (hmem middle).1 hmiddle
      exact (hmem id).2 ⟨seed, hseed, hreach.trans hreach'⟩

/-! ### Two namespaces that depend on each other -/

namespace TwoNamespaces

def root : ImpactEntity :=
  ⟨.splat 1, ⟨.namespace_, (⟨none, ⟨[.splat 2], by decide⟩⟩ : NamespaceBody)⟩⟩

def member : ImpactEntity :=
  ⟨.splat 2, ⟨.namespace_, (⟨some (.splat 1), ⟨[], by decide⟩⟩ : NamespaceBody)⟩⟩

theorem exists_index : ∃ index, build [root, member] = .ok index := by
  have hok : (build [root, member]).isOk = true := by with_unfolding_all decide
  cases h : build [root, member] with
  | ok index => exact ⟨index, rfl⟩
  | error e =>
    rw [h] at hok
    cases hok

end TwoNamespaces

open TwoNamespaces in
/-- The root is in the closure of its member. -/
theorem transitiveImpact_exact_twoNamespaces :
    ∃ index, build [root, member] = .ok index ∧ ∃ ids, .splat 1 ∈ ids ∧
      index.transitiveImpact [.splat 2] =
        if index.totalCost [.splat 2] ids ≤ maxImpactWork then .ok ids
        else .error .resourceLimit := by
  obtain ⟨index, hindex⟩ := exists_index
  have hseeds : index.Seeds [.splat 2] := by
    refine ⟨List.pairwise_singleton _ _, fun seed hseed ↦ ?_⟩
    obtain rfl := List.mem_singleton.1 hseed
    exact (mem_kinds_iff hindex).2 ⟨member, by simp, rfl⟩
  obtain ⟨ids, hclosure, hrun⟩ := (transitiveImpact_exact hindex).2.1 _ hseeds
  refine ⟨index, hindex, ids, (hclosure.2 _).2 ⟨.splat 2, List.mem_cons_self, .single ?_⟩, hrun⟩
  refine ⟨⟨.splat 1, .splat 2, .ownership⟩, (mem_direct_iff hindex _).2 ?_, rfl, rfl⟩
  exact ⟨root, List.mem_cons_self, .add (.splat 2) .ownership none, by decide, rfl, none, rfl⟩

end ImpactIndex

end Sley.Query
