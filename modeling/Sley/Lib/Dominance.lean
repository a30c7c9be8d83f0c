import Mathlib
import Sley.Lib.Worklist

/-!
# Dominators

A node dominates another when it lies on every path to it from the entry. The dominators are the
greatest solution of a system of equations, one for each reachable node, and are found by sweeps
that evaluate the equations in some order, each with what the ones before it have found.

Two invariants carry the sweeps: a set `Covers` the dominators, and it `Excludes` what a path of
bounded length avoids. **A sweep lengthens the paths by one** (`Excludes.sweep`), whatever its order
and however irreducible the graph. A set that a sweep leaves alone is therefore exact
(`dominates_iff_mem_of_sweep`), and as many sweeps as there are nodes besides the entry leave a set
that a sweep leaves alone (`sweep_eq_self`).
-/

universe u

variable {α : Type u} {next : α → Set α} {entry d v p : α} {k : ℕ} {D : α → Set α}

/-! ### Paths -/

/-- A path from `entry`, by the nodes that it visits. -/
inductive IsPath (next : α → Set α) (entry : α) : α → List α → Prop
  | start : IsPath next entry entry [entry]
  | step {p v : α} {path : List α} :
      IsPath next entry p path → v ∈ next p → IsPath next entry v (path ++ [v])

variable {path : List α} {order : List α}

theorem IsPath.mem_reachable (h : IsPath next entry v path) : v ∈ reachable next {entry} := by
  induction h with
  | start => exact isLeast_reachable.1.seeds_subset rfl
  | step _ hv ih => exact isLeast_reachable.1.next_subset _ ih hv

theorem IsPath.subset_reachable (h : IsPath next entry v path) (hd : d ∈ path) :
    d ∈ reachable next {entry} := by
  induction h with
  | start => exact List.mem_singleton.1 hd ▸ isLeast_reachable.1.seeds_subset rfl
  | step hpath hv ih =>
    obtain hd | hd := List.mem_append.1 hd
    · exact ih hd
    · exact List.mem_singleton.1 hd ▸ (hpath.step hv).mem_reachable

theorem exists_isPath (h : v ∈ reachable next {entry}) : ∃ path, IsPath next entry v path := by
  obtain ⟨_, rfl, hpath⟩ := h
  induction hpath with
  | refl => exact ⟨_, .start⟩
  | tail _ hv ih =>
    obtain ⟨path, hpath⟩ := ih
    exact ⟨_, hpath.step hv⟩

/-- `d` lies on every path to `v`. -/
def Dominates (next : α → Set α) (entry d v : α) : Prop :=
  ∀ path, IsPath next entry v path → d ∈ path

/-- A dominator that is not the node itself dominates every predecessor. -/
theorem Dominates.pred (h : Dominates next entry d v) (hne : d ≠ v) (hv : v ∈ next p) :
    Dominates next entry d p := by
  intro path hpath
  obtain hd | hd := List.mem_append.1 (h _ (hpath.step hv))
  · exact hd
  · exact absurd (List.mem_singleton.1 hd) hne

/-- Where the nodes of a graph are renamed without one being lost, so are its paths. -/
theorem IsPath.map {β : Type*} {next' : β → Set β} (f : α → β)
    (hf : ∀ p v, v ∈ next p → f v ∈ next' (f p)) (h : IsPath next entry v path) :
    IsPath next' (f entry) (f v) (path.map f) := by
  induction h with
  | start => exact .start
  | step _ hv ih =>
    rw [List.map_append]
    exact ih.step (hf _ _ hv)

/-- A path of the renamed graph is the renaming of a path. -/
theorem IsPath.exists_map {β : Type*} {next' : β → Set β} (f : α → β)
    (hf : ∀ p w, w ∈ next' (f p) → ∃ v ∈ next p, f v = w) {w : β} {path' : List β}
    (h : IsPath next' (f entry) w path') :
    ∃ v path, IsPath next entry v path ∧ f v = w ∧ path.map f = path' := by
  induction h with
  | start => exact ⟨entry, _, .start, rfl, rfl⟩
  | step _ hw ih =>
    obtain ⟨p, path, hpath, rfl, rfl⟩ := ih
    obtain ⟨v, hv, rfl⟩ := hf p _ hw
    exact ⟨v, _, hpath.step hv, rfl, List.map_append⟩

/-! ### What a bounded path avoids -/

/-- The nodes at the end of a path of at most `k` edges that avoids `d`. -/
def avoiding (next : α → Set α) (entry d : α) : ℕ → Set α
  | 0 => {v | v = entry ∧ v ≠ d}
  | k + 1 => avoiding next entry d k ∪ {v | v ≠ d ∧ ∃ p ∈ avoiding next entry d k, v ∈ next p}

theorem avoiding_mono : Monotone (avoiding next entry d) :=
  monotone_nat_of_le_succ fun _ ↦ Set.subset_union_left

theorem ne_of_mem_avoiding (h : v ∈ avoiding next entry d k) : v ≠ d := by
  induction k with
  | zero => exact h.2
  | succ k ih => exact h.elim ih And.left

/-- Besides the entry, a bounded path arrives from a predecessor. -/
theorem exists_pred_of_mem_avoiding (hne : v ≠ entry) (h : v ∈ avoiding next entry d (k + 1)) :
    v ≠ d ∧ ∃ p ∈ avoiding next entry d k, v ∈ next p := by
  induction k with
  | zero => exact h.resolve_left fun h ↦ hne h.1
  | succ k ih =>
    obtain h | h := h
    · obtain ⟨hvd, p, hp, hv⟩ := ih h
      exact ⟨hvd, p, avoiding_mono k.le_succ hp, hv⟩
    · exact h

theorem exists_isPath_of_mem_avoiding (h : v ∈ avoiding next entry d k) :
    ∃ path, IsPath next entry v path ∧ d ∉ path := by
  induction k generalizing v with
  | zero =>
    obtain ⟨rfl, hne⟩ := h
    exact ⟨_, .start, fun hd ↦ hne (List.mem_singleton.1 hd).symm⟩
  | succ k ih =>
    obtain h | ⟨hne, p, hp, hv⟩ := h
    · exact ih h
    · obtain ⟨path, hpath, hd⟩ := ih hp
      refine ⟨_, hpath.step hv, fun h ↦ ?_⟩
      obtain h | h := List.mem_append.1 h
      · exact hd h
      · exact hne (List.mem_singleton.1 h).symm

theorem exists_mem_avoiding (h : IsPath next entry v path) (hd : d ∉ path) :
    ∃ k, v ∈ avoiding next entry d k := by
  induction h with
  | start => exact ⟨0, rfl, fun h ↦ hd (List.mem_singleton.2 h.symm)⟩
  | step _ hv ih =>
    obtain ⟨k, hk⟩ := ih fun h ↦ hd (List.mem_append_left _ h)
    refine ⟨k + 1, .inr ⟨fun h ↦ hd ?_, _, hk, hv⟩⟩
    exact List.mem_append_right _ (List.mem_singleton.2 h.symm)

theorem dominates_iff : Dominates next entry d v ↔ ∀ k, v ∉ avoiding next entry d k := by
  constructor
  · intro h k hv
    obtain ⟨path, hpath, hd⟩ := exists_isPath_of_mem_avoiding hv
    exact hd (h path hpath)
  · intro h path hpath
    by_contra hd
    obtain ⟨k, hk⟩ := exists_mem_avoiding hpath hd
    exact h k hk

/-- A path that avoids a node need not be longer than there are other nodes besides the entry. -/
theorem avoiding_subset [Finite α] (k : ℕ) :
    avoiding next entry d k ⊆ avoiding next entry d (Nat.card α - 1) := by
  have hcard (k : ℕ) : (avoiding next entry d k).ncard ≤ Nat.card α - 1 := by
    rw [← Set.ncard_univ, ← Set.ncard_sdiff_singleton_of_mem (Set.mem_univ d)]
    exact Set.ncard_le_ncard fun v hv ↦ ⟨Set.mem_univ v, ne_of_mem_avoiding hv⟩
  have hstable (k : ℕ) (h : (avoiding next entry d k).ncard = (avoiding next entry d (k + 1)).ncard) :
      (avoiding next entry d (k + 1)).ncard = (avoiding next entry d (k + 2)).ncard := by
    have heq : avoiding next entry d k = avoiding next entry d (k + 1) :=
      Set.eq_of_subset_of_ncard_le (avoiding_mono k.le_succ) h.ge
    conv_rhs => rw [avoiding, ← heq]
    rfl
  obtain hle | hlt := le_total k (Nat.card α - 1)
  · exact avoiding_mono hle
  · have hmono : Monotone fun k ↦ (avoiding next entry d k).ncard :=
      fun _ _ h ↦ Set.ncard_le_ncard (avoiding_mono h)
    have hncard := Nat.stabilises_of_monotone hmono hcard hstable hlt
    exact (Set.eq_of_subset_of_ncard_le (avoiding_mono hlt) hncard.le).ge

/-! ### Sweeps -/

/-- Every dominator is still held. -/
def Covers (next : α → Set α) (entry : α) (D : α → Set α) : Prop :=
  ∀ v ∈ reachable next {entry}, ∀ d, Dominates next entry d v → d ∈ D v

/-- What a path of at most `k` edges avoids is not held any more. -/
def Excludes (next : α → Set α) (entry : α) (k : ℕ) (D : α → Set α) : Prop :=
  ∀ d v, v ∈ avoiding next entry d k → d ∉ D v

/-- The right side of the equation of `v`. -/
def meet (next : α → Set α) (entry : α) (D : α → Set α) (v : α) : Set α :=
  {d | d = v ∨ ∀ p ∈ reachable next {entry}, v ∈ next p → d ∈ D p}

open Classical in
/-- Evaluate the equation of `v`, if it has one. -/
noncomputable def refineAt (next : α → Set α) (entry : α) (D : α → Set α) (v : α) : α → Set α :=
  fun w ↦ if w = v ∧ v ∈ reachable next {entry} ∧ v ≠ entry then meet next entry D v else D w

/-- Evaluate the equations in some order. -/
noncomputable def sweep (next : α → Set α) (entry : α) (order : List α) (D : α → Set α) :
    α → Set α :=
  order.foldl (refineAt next entry) D

theorem refineAt_self (hv : v ∈ reachable next {entry}) (hne : v ≠ entry) :
    refineAt next entry D v v = meet next entry D v :=
  if_pos ⟨rfl, hv, hne⟩

theorem refineAt_of_ne {w : α} (h : w ≠ v) : refineAt next entry D v w = D w :=
  if_neg fun hw ↦ h hw.1

theorem refineAt_of_skip (h : ¬ (v ∈ reachable next {entry} ∧ v ≠ entry)) :
    refineAt next entry D v = D :=
  funext fun _ ↦ if_neg fun hw ↦ h hw.2

theorem Covers.mem_meet (h : Covers next entry D) (hd : Dominates next entry d v) :
    d ∈ meet next entry D v := by
  by_cases hne : d = v
  · exact .inl hne
  · exact .inr fun p hp hv ↦ h p hp d (hd.pred hne hv)

theorem Covers.refine (h : Covers next entry D) (v : α) :
    Covers next entry (refineAt next entry D v) := by
  intro w hw d hd
  rw [refineAt]
  split_ifs with hwv
  · obtain ⟨rfl, -⟩ := hwv
    exact h.mem_meet hd
  · exact h w hw d hd

theorem Covers.sweep (h : Covers next entry D) (order : List α) :
    Covers next entry (sweep next entry order D) := by
  induction order generalizing D with
  | nil => exact h
  | cons v order ih => exact ih (h.refine v)

section

variable (h : Excludes next entry k D)

include h

/-- **The equation of a node lengthens the paths that its set is known to exclude by one.** -/
theorem Excludes.not_mem_meet (hne : v ≠ entry)
    (hv : v ∈ avoiding next entry d (k + 1)) : d ∉ meet next entry D v := by
  obtain ⟨hvd, p, hp, hpv⟩ := exists_pred_of_mem_avoiding hne hv
  obtain ⟨path, hpath, -⟩ := exists_isPath_of_mem_avoiding hp
  rintro (rfl | hd)
  · exact hvd rfl
  · exact h d p hp (hd p hpath.mem_reachable hpv)

theorem Excludes.refine (v : α) : Excludes next entry k (refineAt next entry D v) := by
  intro d w hw
  rw [refineAt]
  split_ifs with hwv
  · obtain ⟨rfl, -, hne⟩ := hwv
    exact h.not_mem_meet hne (avoiding_mono k.le_succ hw)
  · exact h d w hw

theorem Excludes.not_mem_refineAt
    (hv : v ∈ avoiding next entry d (k + 1)) : d ∉ refineAt next entry D v v := by
  obtain ⟨path, hpath, -⟩ := exists_isPath_of_mem_avoiding hv
  by_cases hne : v = entry
  · rw [refineAt_of_skip fun h ↦ h.2 hne]
    exact h d v (avoiding_mono k.zero_le ⟨hne, ne_of_mem_avoiding hv⟩)
  · rw [refineAt_self hpath.mem_reachable hne]
    exact h.not_mem_meet hne hv

/-- The nodes that a sweep has passed are one edge ahead of the others. -/
theorem Excludes.sweep_of_done {done : Set α}
    (hdone : ∀ w ∈ done, ∀ d, w ∈ avoiding next entry d (k + 1) → d ∉ D w) :
    ∀ w, w ∈ done ∨ w ∈ order →
      ∀ d, w ∈ avoiding next entry d (k + 1) → d ∉ sweep next entry order D w := by
  induction order generalizing D done with
  | nil => exact fun w hw ↦ hdone w (hw.resolve_right List.not_mem_nil)
  | cons v order ih =>
    have hdone' : ∀ w ∈ insert v done, ∀ d, w ∈ avoiding next entry d (k + 1) →
        d ∉ refineAt next entry D v w := by
      rintro w hw d hwd
      by_cases hwv : w = v
      · subst hwv
        exact h.not_mem_refineAt hwd
      · rw [refineAt_of_ne hwv]
        exact hdone w (hw.resolve_left hwv) d hwd
    refine fun w hw ↦ ih (h.refine v) hdone' w ?_
    rw [List.mem_cons] at hw
    rcases hw with hw | rfl | hw
    exacts [.inl (.inr hw), .inl (.inl rfl), .inr hw]

/-- **A sweep over all nodes lengthens the paths that are known to be excluded by one.** -/
theorem Excludes.sweep (horder : ∀ v, v ∈ order) :
    Excludes next entry (k + 1) (sweep next entry order D) :=
  fun d w hw ↦
    h.sweep_of_done (fun _ (hw : _ ∈ (∅ : Set _)) ↦ hw.elim) w (.inr (horder w)) d hw

end

/-- What the entry does not reach has no equation. -/
theorem sweep_of_not_mem_reachable (hv : v ∉ reachable next {entry}) (order : List α) :
    sweep next entry order D v = D v := by
  induction order generalizing D with
  | nil => rfl
  | cons u order ih =>
    refine ih.trans (if_neg fun h ↦ hv ?_)
    rw [h.1]
    exact h.2.1

/-! ### Exactness and convergence -/

/-- What every path excludes does not dominate. -/
theorem Excludes.dominates (h : ∀ k, Excludes next entry k D) (hd : d ∈ D v) :
    Dominates next entry d v :=
  dominates_iff.2 fun k hv ↦ h k d v hv hd

/-- **A set that a sweep leaves alone is exact.** -/
theorem dominates_iff_mem_of_sweep (horder : ∀ v, v ∈ order)
    (hcovers : Covers next entry D) (hexcludes : Excludes next entry 0 D)
    (hsweep : sweep next entry order D = D) (hv : v ∈ reachable next {entry}) :
    d ∈ D v ↔ Dominates next entry d v := by
  have hall (k : ℕ) : Excludes next entry k D := by
    induction k with
    | zero => exact hexcludes
    | succ k ih => exact hsweep ▸ ih.sweep horder
  exact ⟨Excludes.dominates hall, hcovers v hv d⟩

/-- **What has excluded every path that is as long as there are other nodes is left alone**: every
equation holds of it. -/
theorem meet_eq_self [Finite α] (hcovers : Covers next entry D)
    (hexcludes : Excludes next entry (Nat.card α - 1) D) (hv : v ∈ reachable next {entry})
    (hne : v ≠ entry) : meet next entry D v = D v := by
  have hall (k : ℕ) : Excludes next entry k D :=
    fun d v hv ↦ hexcludes d v (avoiding_subset k hv)
  refine Set.Subset.antisymm (fun d hd ↦ hcovers v hv d (dominates_iff.2 fun k hk ↦ ?_)) ?_
  · exact (hall k).not_mem_meet hne (avoiding_mono k.le_succ hk) hd
  · exact fun d hd ↦ hcovers.mem_meet (Excludes.dominates hall hd)

theorem refineAt_eq_self [Finite α] (hcovers : Covers next entry D)
    (hexcludes : Excludes next entry (Nat.card α - 1) D) (v : α) :
    refineAt next entry D v = D := by
  funext w
  rw [refineAt]
  split_ifs with hw
  · rw [meet_eq_self hcovers hexcludes hw.2.1 hw.2.2, hw.1]
  · rfl
