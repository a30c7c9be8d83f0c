import Mathlib
import Sley.Lib.Failures
import Sley.Lib.OrderedMap

/-!
# Worklists

A worklist visits what it has queued and queues what a visit finds. `Closing` says where such a
search stands: what is done and what is queued is reachable, and what is done has its successors
among the two. **When the queue is empty, what is done is the least set that contains the seeds and
is closed under the successors** (`Closing.isLeast`), whatever the order in which the queue is
served. Cycles and shared successors are allowed.

`VisitGraph.explore` is the search that skips what it has seen when it takes it from the queue, with
visits that may fail and that carry a state along.
-/

universe u v w

variable {α : Type u} {σ : Type v} {ε : Type v}

/-! ### Closing a set -/

section Closing

variable {next : α → Set α} {seeds done : Set α} {queue : List α}

/-- A set that contains the seeds and is closed under the successors. -/
structure IsClosedUnder (next : α → Set α) (seeds S : Set α) : Prop where
  seeds_subset : seeds ⊆ S
  next_subset : ∀ x ∈ S, next x ⊆ S

/-- What can be reached from the seeds. -/
def reachable (next : α → Set α) (seeds : Set α) : Set α :=
  {y | ∃ x ∈ seeds, Relation.ReflTransGen (fun a b ↦ b ∈ next a) x y}

theorem IsClosedUnder.mem_of_reflTransGen {S : Set α} (h : IsClosedUnder next seeds S) {x y : α}
    (hx : x ∈ S) (hxy : Relation.ReflTransGen (fun a b ↦ b ∈ next a) x y) : y ∈ S := by
  induction hxy with
  | refl => exact hx
  | tail _ hz ih => exact h.next_subset _ ih hz

theorem isLeast_reachable : IsLeast {S | IsClosedUnder next seeds S} (reachable next seeds) := by
  refine ⟨⟨fun x hx ↦ ⟨x, hx, .refl⟩, ?_⟩, ?_⟩
  · rintro y ⟨x, hx, hxy⟩ z hz
    exact ⟨x, hx, hxy.tail hz⟩
  · rintro S hS y ⟨x, hx, hxy⟩
    exact hS.mem_of_reflTransGen (hS.seeds_subset hx) hxy

/-- Where two graphs find the same but for the seeds, what is reached in either is closed under
both. -/
theorem isClosed_union {next' : α → Set α}
    (hagree : ∀ x, ∀ y ∉ seeds, y ∈ next x ↔ y ∈ next' x) :
    IsClosedUnder (fun x ↦ next x ∪ next' x) seeds
      (reachable next seeds ∪ reachable next' seeds) := by
  have hleft : IsClosedUnder next seeds (reachable next seeds) := isLeast_reachable.1
  have hright : IsClosedUnder next' seeds (reachable next' seeds) := isLeast_reachable.1
  refine ⟨fun x hx ↦ .inl (hleft.seeds_subset hx), fun x hx y hy ↦ ?_⟩
  by_cases hseed : y ∈ seeds
  · exact .inl (hleft.seeds_subset hseed)
  · have hboth : y ∈ next x ∧ y ∈ next' x := by
      obtain hy | hy := hy
      · exact ⟨hy, (hagree x y hseed).1 hy⟩
      · exact ⟨(hagree x y hseed).2 hy, hy⟩
    exact hx.imp (fun h ↦ hleft.next_subset x h hboth.1) fun h ↦ hright.next_subset x h hboth.2

/-- A search on its way: what is done and what is still queued. -/
structure Closing (next : α → Set α) (seeds done : Set α) (queue : List α) : Prop where
  seeds_subset : seeds ⊆ done ∪ {x | x ∈ queue}
  next_subset : ∀ x ∈ done, next x ⊆ done ∪ {x | x ∈ queue}
  subset_reachable : done ∪ {x | x ∈ queue} ⊆ reachable next seeds

theorem Closing.start : Closing next {x | x ∈ queue} ∅ queue where
  seeds_subset := Set.subset_union_right
  next_subset _ hx := hx.elim
  subset_reachable := by
    rw [Set.empty_union]
    exact isLeast_reachable.1.seeds_subset

/-- The order of the queue does not matter. -/
theorem Closing.congr {queue' : List α} (h : Closing next seeds done queue)
    (hqueue : ∀ x, x ∈ queue' ↔ x ∈ queue) : Closing next seeds done queue' := by
  have hsame : {x | x ∈ queue'} = {x | x ∈ queue} := Set.ext hqueue
  obtain ⟨hseeds, hnext, hreach⟩ := h
  exact ⟨hsame ▸ hseeds, hsame ▸ hnext, hsame ▸ hreach⟩

/-- A queued element that is done already is dropped. -/
theorem Closing.skip {x : α} (h : Closing next seeds done (x :: queue)) (hx : x ∈ done) :
    Closing next seeds done queue := by
  have hsame : done ∪ {y | y ∈ x :: queue} = done ∪ {y | y ∈ queue} := by
    ext y
    simp only [Set.mem_union, Set.mem_ofPred_eq, List.mem_cons]
    constructor
    · rintro (hy | rfl | hy)
      exacts [.inl hy, .inl hx, .inr hy]
    · exact Or.imp_right .inr
  obtain ⟨hseeds, hnext, hreach⟩ := h
  rw [hsame] at hseeds hreach
  exact ⟨hseeds, fun y hy ↦ hsame ▸ hnext y hy, hreach⟩

/-- A visit moves an element over and queues those of its successors that are not known yet. -/
theorem Closing.visit {x : α} {found : List α} (h : Closing next seeds done (x :: queue))
    (hfound : ∀ y ∈ found, y ∈ next x)
    (hnext : next x ⊆ insert x done ∪ {y | y ∈ queue ++ found}) :
    Closing next seeds (insert x done) (queue ++ found) := by
  have hsub : done ∪ {y | y ∈ x :: queue} ⊆ insert x done ∪ {y | y ∈ queue ++ found} := by
    rintro y (hy | hy)
    · exact .inl (.inr hy)
    · obtain rfl | hy := List.mem_cons.1 hy
      · exact .inl (.inl rfl)
      · exact .inr (List.mem_append_left _ hy)
  have hx : x ∈ reachable next seeds := h.subset_reachable (.inr List.mem_cons_self)
  refine ⟨h.seeds_subset.trans hsub, ?_, ?_⟩
  · rintro y (rfl | hy) z hz
    · exact hnext hz
    · exact hsub (h.next_subset y hy hz)
  · rintro y ((rfl | hy) | hy)
    · exact hx
    · exact h.subset_reachable (.inl hy)
    · obtain hy | hy := List.mem_append.1 hy
      · exact h.subset_reachable (.inr (List.mem_cons_of_mem _ hy))
      · exact isLeast_reachable.1.next_subset x hx (hfound y hy)

/-- **A search that has emptied its queue has reached everything, and nothing else.** -/
theorem Closing.eq_reachable (h : Closing next seeds done []) : done = reachable next seeds := by
  obtain ⟨hseeds, hnext, hreach⟩ := h
  have hsame : done ∪ {x : α | x ∈ []} = done := by
    simp
  rw [hsame] at hseeds hreach
  refine hreach.antisymm (isLeast_reachable.2 ⟨hseeds, fun x hx ↦ ?_⟩)
  have := hnext x hx
  rwa [hsame] at this

end Closing

/-! ### The search -/

section VisitGraph

variable [Ord α]

/-- A graph of known nodes; a visit says which elements it queues. -/
structure VisitGraph (α : Type u) (σ ε : Type v) [Ord α] where
  nodes : Std.ExtTreeSet α
  missing : ε
  visit : α → σ → Except ε (List α × σ)

namespace VisitGraph

open OrderedSet (mem_insert)

variable [Std.TransOrd α]

/-- Insertion of a new node leaves fewer of them. -/
theorem length_unseen_lt [Std.LawfulEqOrd α] {nodes seen : Std.ExtTreeSet α} {x : α}
    (hx : x ∈ nodes) (hseen : x ∉ seen) :
    (nodes.toList.filter (· ∉ seen.insert x)).length < (nodes.toList.filter (· ∉ seen)).length := by
  have hfilter : nodes.toList.filter (· ∉ seen.insert x) =
      (nodes.toList.filter (· ∉ seen)).filter (· ∉ seen.insert x) := by
    rw [List.filter_filter]
    refine List.filter_congr fun y _ ↦ ?_
    rw [← Bool.decide_and]
    refine decide_eq_decide.2 ⟨fun hy ↦ ⟨hy, fun h ↦ hy ?_⟩, And.left⟩
    exact mem_insert.2 (.inr h)
  rw [hfilter, List.length_filter_lt_length_iff_exists]
  refine ⟨x, List.mem_filter.2 ⟨Std.ExtTreeSet.mem_toList.2 hx, decide_eq_true hseen⟩, ?_⟩
  simp

/-- Take an element from the queue, skip it when it was seen, else visit it. -/
def explore [Std.LawfulEqOrd α] (g : VisitGraph α σ ε) (seen : Std.ExtTreeSet α) (queue : List α)
    (s : σ) : Except ε (Std.ExtTreeSet α × σ) :=
  match queue with
  | [] => .ok (seen, s)
  | x :: queue =>
    if x ∈ seen then g.explore seen queue s
    else if x ∈ g.nodes then
      match g.visit x s with
      | .error e => .error e
      | .ok (found, s) => g.explore (seen.insert x) (queue ++ found) s
    else .error g.missing
termination_by ((g.nodes.toList.filter (· ∉ seen)).length, queue.length)
decreasing_by
  · exact Prod.Lex.right _ (Nat.lt_succ_self _)
  · exact Prod.Lex.left _ _ (length_unseen_lt ‹_› ‹_›)

variable [Std.LawfulEqOrd α] {g g' : VisitGraph α σ ε} {x : α} {seen seen' : Std.ExtTreeSet α}
  {queue : List α} {s s' : σ}

theorem explore_nil : g.explore seen [] s = .ok (seen, s) := by
  rw [explore]

theorem explore_skip (hx : x ∈ seen) : g.explore seen (x :: queue) s = g.explore seen queue s := by
  rw [explore, if_pos hx]

theorem explore_visit {found : List α} (hseen : x ∉ seen) (hx : x ∈ g.nodes)
    (hvisit : g.visit x s = .ok (found, s')) :
    g.explore seen (x :: queue) s = g.explore (seen.insert x) (queue ++ found) s' := by
  rw [explore, if_neg hseen, if_pos hx, hvisit]

/-- **The rule of a search.** What holds of the pair of seen elements and state, and is kept by
every visit, holds at the end. -/
theorem explore_rule {P : Std.ExtTreeSet α → List α → σ → Prop}
    (hskip : ∀ seen queue s x, x ∈ seen → P seen (x :: queue) s → P seen queue s)
    (hvisit : ∀ seen queue s x found s', x ∉ seen → x ∈ g.nodes →
      g.visit x s = .ok (found, s') → P seen (x :: queue) s → P (seen.insert x) (queue ++ found) s')
    (h : g.explore seen queue s = .ok (seen', s')) (hstart : P seen queue s) :
    P seen' [] s' := by
  fun_induction explore g seen queue s with
  | case1 seen s =>
    obtain ⟨rfl, rfl⟩ := Prod.mk.inj (Except.ok.inj h)
    exact hstart
  | case2 seen s x queue hseen ih => exact ih h (hskip _ _ _ _ hseen hstart)
  | case3 seen s x queue hseen hx e he => cases h
  | case4 seen s x queue hseen hx found s₁ hfound ih =>
    exact ih h (hvisit _ _ _ _ _ _ hseen hx hfound hstart)
  | case5 seen s x queue hseen hx => cases h

theorem mem_of_explore (h : g.explore seen queue s = .ok (seen', s')) (hx : x ∈ seen) : x ∈ seen' :=
  explore_rule (P := fun seen _ _ ↦ x ∈ seen) (fun _ _ _ _ _ hx ↦ hx)
    (fun _ _ _ _ _ _ _ _ _ hx ↦ mem_insert.2 (.inr hx)) h hx

/-- Only nodes are seen. -/
theorem mem_nodes_of_explore (h : g.explore ∅ queue s = .ok (seen', s')) (hx : x ∈ seen') :
    x ∈ g.nodes := by
  refine explore_rule (P := fun seen _ _ ↦ ∀ x ∈ seen, x ∈ g.nodes) (fun _ _ _ _ _ hP ↦ hP) ?_ h
    (fun x hx ↦ (Std.ExtTreeSet.not_mem_empty hx).elim) x hx
  intro seen queue s x found s' _ hnode _ hP y hy
  obtain rfl | hy := mem_insert.1 hy
  exacts [hnode, hP y hy]

/-- **What a search has seen is what can be reached from its queue.** -/
theorem explore_eq_reachable {next : α → Set α}
    (hnext : ∀ x s found s', g.visit x s = .ok (found, s') → ∀ y, y ∈ found ↔ y ∈ next x)
    (h : g.explore ∅ queue s = .ok (seen', s')) :
    {x | x ∈ seen'} = reachable next {x | x ∈ queue} := by
  have hempty : {x : α | x ∈ (∅ : Std.ExtTreeSet α)} = ∅ :=
    Set.eq_empty_of_forall_notMem fun _ ↦ Std.ExtTreeSet.not_mem_empty
  refine Closing.eq_reachable (explore_rule
    (P := fun seen queue' _ ↦ Closing next {x | x ∈ queue} {x | x ∈ seen} queue')
    (fun _ _ _ _ hseen hP ↦ hP.skip hseen) ?_ h (hempty ▸ Closing.start))
  intro seen queue s x found s' _ _ hvisit hP
  have hinsert : {y | y ∈ seen.insert x} = insert x {y | y ∈ seen} :=
    Set.ext fun y ↦ mem_insert
  have hfound := hnext _ _ _ _ hvisit
  rw [hinsert]
  exact hP.visit (fun y ↦ (hfound y).1) fun y hy ↦
    .inr (List.mem_append_right _ ((hfound y).2 hy))

/-- A search fails at a visit or for a node that is not there. -/
theorem explore_avoids {E : Set ε} (hmissing : g.missing ∉ E)
    (hvisit : ∀ x s, (g.visit x s).Avoids E) (seen : Std.ExtTreeSet α) (queue : List α) (s : σ) :
    (g.explore seen queue s).Avoids E := by
  fun_induction explore g seen queue s with
  | case1 seen s => exact Except.avoids_ok _
  | case2 seen s x queue hseen ih => exact ih
  | case3 seen s x queue hseen hx e he => exact Except.avoids_error_iff.2 (hvisit x s e he)
  | case4 seen s x queue hseen hx found s₁ hfound ih => exact ih
  | case5 seen s x queue hseen hx => exact Except.avoids_error_iff.2 hmissing

/-- Another graph that does the same at everything seen is searched alike. -/
theorem explore_congr (h : g.explore seen queue s = .ok (seen', s'))
    (hnodes : ∀ x ∈ seen', x ∈ g'.nodes)
    (hvisit : ∀ x ∈ seen', ∀ s r, g.visit x s = .ok r → g'.visit x s = .ok r) :
    g'.explore seen queue s = .ok (seen', s') := by
  fun_induction explore g seen queue s with
  | case1 seen s => exact explore_nil.trans h
  | case2 seen s x queue hseen ih => exact (explore_skip hseen).trans (ih h)
  | case3 seen s x queue hseen hx e he => cases h
  | case4 seen s x queue hseen hx found s₁ hfound ih =>
    have hx' : x ∈ seen' := mem_of_explore h (mem_insert.2 (.inl rfl))
    exact (explore_visit hseen (hnodes x hx') (hvisit x hx' s _ hfound)).trans (ih h)
  | case5 seen s x queue hseen hx => cases h

end VisitGraph

end VisitGraph
