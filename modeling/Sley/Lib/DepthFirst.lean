import Mathlib

/-!
# Depth-first walks with an explicit stack

A depth-first walk keeps a stack of elements to enter and of marks, each for the end of a visit. It
takes the top of the stack: a mark completes its element; an element that is completed is passed
over; one that is active, which is to say that its mark is still in the stack, is refused; any other
is entered, and its successors are pushed above its mark. The same element may wait in the stack many
times.

`Invariant` says where such a walk stands, over any relation. **An element is met while it is active
only if it lies on a cycle** (`Invariant.cycle`): what stands above a mark is reached from its
element. **A walk that empties its stack has entered what can be reached, each element once, and there
is no cycle in it** (`Invariant.finish`): an element is completed after all that it leads to, so the
elements are well founded in the order of their completion.
-/

universe u

namespace DepthFirst

open Relation
open List (mem_append mem_cons mem_cons_of_mem mem_cons_self nodup_cons not_mem_nil)

variable {α : Type u} {r : α → α → Prop} {start a : α} {entered next : List α}
  {completed active done done' : Set α} {stack : List (α × Bool)}

/-- What the element of a mark leads to is done, or stands above the mark. -/
def Waits (r : α → α → Prop) : Set α → List (α × Bool) → Prop
  | _, [] => True
  | done, (a, false) :: stack => Waits r (insert a done) stack
  | done, (a, true) :: stack => (∀ b, r a b → b ∈ done) ∧ Waits r (insert a done) stack

theorem Waits.mono (h : Waits r done stack) (hsub : done ⊆ done') : Waits r done' stack := by
  induction stack generalizing done done' with
  | nil => trivial
  | cons top stack ih =>
    obtain ⟨a, _ | _⟩ := top
    · exact ih (show Waits r (insert a done) stack from h) (Set.insert_subset_insert hsub)
    · exact ⟨fun b hb ↦ hsub (h.1 b hb), ih h.2 (Set.insert_subset_insert hsub)⟩

theorem Waits.push (h : Waits r (done ∪ {b | b ∈ next}) stack) :
    Waits r done (next.map (·, false) ++ stack) := by
  induction next generalizing done with
  | nil => exact h.mono (by simp)
  | cons b next ih =>
    refine ih (h.mono fun c hc ↦ ?_)
    obtain hc | hc := hc
    · exact .inl (.inr hc)
    · obtain rfl | hc := mem_cons.1 hc
      · exact .inl (.inl rfl)
      · exact .inr hc

/-- The first of the elements is the start, and every other is led to from one before it. -/
def Discovered (r : α → α → Prop) (start : α) (entered : List α) : Prop :=
  ∀ before a after, entered = before ++ a :: after →
    (before = [] ∧ a = start) ∨ ∃ b ∈ before, r b a

theorem Discovered.concat (h : Discovered r start entered)
    (ha : (entered = [] ∧ a = start) ∨ ∃ b ∈ entered, r b a) :
    Discovered r start (entered ++ [a]) := by
  intro before b after hsplit
  obtain rfl | ⟨after, last, rfl⟩ := List.eq_nil_or_concat' after
  · obtain ⟨rfl, hlast⟩ := List.append_inj' hsplit rfl
    obtain rfl := List.singleton_inj.1 hlast
    exact ha
  · rw [← List.cons_append, ← List.append_assoc] at hsplit
    obtain ⟨hentered, -⟩ := List.append_inj' hsplit rfl
    exact h before b after hentered

/-- Where a walk from `start` along `r` stands. -/
structure Invariant (r : α → α → Prop) (start : α) (entered : List α) (completed active : Set α)
    (stack : List (α × Bool)) : Prop where
  nodup : entered.Nodup
  mem_entered : ∀ a, a ∈ entered ↔ a ∈ completed ∨ a ∈ active
  mem_active : ∀ a, a ∈ active ↔ (a, true) ∈ stack
  marks : (stack.filter (·.2)).Nodup
  /-- What stands above a mark is reached from its element. -/
  above : stack.Pairwise fun above below ↦ below.2 = true → TransGen r below.1 above.1
  waits : Waits r completed stack
  acc : ∀ a ∈ completed, Acc (fun b a ↦ r a b) a
  closed : ∀ a ∈ completed, ∀ b, r a b → b ∈ completed
  reached : ∀ a ∈ entered, ReflTransGen r start a
  first : entered = [] → stack = [(start, false)]
  found : ∀ a, (a, false) ∈ stack → (entered = [] ∧ a = start) ∨ ∃ b ∈ entered, r b a
  discovered : Discovered r start entered

/-- A well-founded element is on no cycle. -/
theorem not_transGen_of_acc (h : Acc (fun b a ↦ r a b) a) : ¬ TransGen r a a := by
  induction h with
  | intro a _ ih =>
    intro hcycle
    obtain ⟨b, hab, hba⟩ := TransGen.head'_iff.1 hcycle
    exact ih b hab (TransGen.tail' hba hab)

namespace Invariant

theorem initial : Invariant r start [] ∅ ∅ [(start, false)] where
  nodup := List.nodup_nil
  mem_entered a := by simp
  mem_active a := by simp
  marks := by simp
  above := List.pairwise_singleton _ _
  waits := trivial
  acc _ h := h.elim
  closed _ h := h.elim
  reached _ h := (not_mem_nil h).elim
  first _ := rfl
  found a h := .inl ⟨rfl, by simpa using h⟩
  discovered before a after h := by simp at h

/-- What waits in the stack is reached. -/
theorem reached_of_mem (h : Invariant r start entered completed active stack)
    (ha : (a, false) ∈ stack) : ReflTransGen r start a := by
  obtain ⟨-, rfl⟩ | ⟨b, hb, hba⟩ := h.found a ha
  · exact .refl
  · exact (h.reached b hb).tail hba

/-- The end of a visit. -/
theorem exit (h : Invariant r start entered completed active ((a, true) :: stack)) :
    Invariant r start entered (insert a completed) (active \ {a}) stack := by
  have hmark : (a, true) ∉ stack := fun hmem ↦ by
    have hmarks := h.marks
    rw [List.filter_cons_of_pos rfl] at hmarks
    exact (nodup_cons.1 hmarks).1 (List.mem_filter.2 ⟨hmem, rfl⟩)
  have hactive : a ∈ active := (h.mem_active a).2 mem_cons_self
  refine { h with
    mem_entered := fun b ↦ ?_, mem_active := fun b ↦ ?_, marks := ?_, above := h.above.of_cons
    waits := h.waits.2, acc := ?_, closed := ?_, first := fun hnil ↦ ?_
    found := fun b hb ↦ h.found b (mem_cons_of_mem _ hb) }
  · rw [h.mem_entered, Set.mem_insert_iff, Set.mem_sdiff, Set.mem_singleton_iff]
    by_cases hba : b = a
    · simp [hba, hactive]
    · simp [hba]
  · rw [Set.mem_sdiff, h.mem_active, mem_cons, Set.mem_singleton_iff, Prod.mk.injEq]
    constructor
    · rintro ⟨⟨rfl, -⟩ | hb, hne⟩
      · exact absurd rfl hne
      · exact hb
    · exact fun hb ↦ ⟨.inr hb, fun hba ↦ hmark (hba ▸ hb)⟩
  · exact h.marks.sublist ((List.sublist_cons_self _ _).filter _)
  · rintro b (rfl | hb)
    · exact Acc.intro _ fun c hc ↦ h.acc c (h.waits.1 c hc)
    · exact h.acc b hb
  · rintro b (rfl | hb) c hc
    · exact .inr (h.waits.1 c hc)
    · exact .inr (h.closed b hb c hc)
  · exact absurd ((h.mem_entered a).2 (.inr hactive)) (by simp [hnil])

section

variable (h : Invariant r start entered completed active ((a, false) :: stack))

include h

/-- An element that is completed is passed over. -/
theorem skip (ha : a ∈ completed) : Invariant r start entered completed active stack := by
  have hwaits : Waits r (insert a completed) stack := h.waits
  rw [Set.insert_eq_of_mem ha] at hwaits
  refine { h with
    mem_active := fun b ↦ ?_, marks := ?_, above := h.above.of_cons, waits := hwaits
    first := fun hnil ↦ ?_, found := fun b hb ↦ h.found b (mem_cons_of_mem _ hb) }
  · rw [h.mem_active, mem_cons]
    simp
  · exact h.marks.sublist ((List.sublist_cons_self _ _).filter _)
  · exact absurd ((h.mem_entered a).2 (.inl ha)) (by simp [hnil])

/-- **An element that is met while it is active lies on a cycle.** -/
theorem cycle (ha : a ∈ active) : ReflTransGen r start a ∧ TransGen r a a := by
  have hmark : (a, true) ∈ stack := by simpa using (h.mem_active a).1 ha
  exact ⟨h.reached a ((h.mem_entered a).2 (.inr ha)),
    (List.pairwise_cons.1 h.above).1 (a, true) hmark rfl⟩

/-- An element that is neither completed nor active is entered. -/
theorem enter (hcompleted : a ∉ completed) (hactive : a ∉ active) (hnext : ∀ b, b ∈ next ↔ r a b) :
    Invariant r start (entered ++ [a]) completed (insert a active)
      (next.map (·, false) ++ (a, true) :: stack) := by
  have hnew : a ∉ entered := fun hmem ↦ ((h.mem_entered a).1 hmem).elim hcompleted hactive
  have habove := List.pairwise_cons.1 h.above
  have hpushed : ∀ b mark, (b, mark) ∈ next.map (·, false) ↔ b ∈ next ∧ mark = false := by
    intro b mark
    simp [eq_comm]
  refine { h with
    nodup := ?_, mem_entered := fun b ↦ ?_, mem_active := fun b ↦ ?_, marks := ?_, above := ?_
    waits := ?_, reached := fun b hb ↦ ?_, first := fun hnil ↦ ?_, found := fun b hb ↦ ?_
    discovered := h.discovered.concat (h.found a mem_cons_self) }
  · exact List.nodup_append_comm.1 (nodup_cons.2 ⟨hnew, h.nodup⟩)
  · rw [mem_append, List.mem_singleton, h.mem_entered, Set.mem_insert_iff, or_assoc,
      or_comm (a := b ∈ active)]
  · rw [Set.mem_insert_iff, h.mem_active, mem_append, hpushed, mem_cons, mem_cons]
    simp
  · have hnone : (next.map (·, false)).filter (·.2) = [] :=
      List.filter_eq_nil_iff.2 fun top htop ↦ by
        obtain ⟨-, hmark⟩ := (hpushed top.1 top.2).1 htop
        simp [hmark]
    rw [List.filter_append, hnone, List.nil_append, List.filter_cons_of_pos rfl, nodup_cons]
    refine ⟨fun hmem ↦ hactive ?_, h.marks⟩
    exact (h.mem_active a).2 (mem_cons_of_mem _ (List.mem_filter.1 hmem).1)
  · refine List.pairwise_append.2 ⟨?_, List.pairwise_cons.2 ⟨habove.1, habove.2⟩, ?_⟩
    · refine List.pairwise_of_forall_mem_list fun top _ below hbelow hmark ↦ ?_
      exact absurd (((hpushed below.1 below.2).1 hbelow).2.symm.trans hmark) (by decide)
    · intro top htop below hbelow hmark
      have hstep : r a top.1 := (hnext top.1).1 ((hpushed top.1 top.2).1 htop).1
      obtain rfl | hbelow := mem_cons.1 hbelow
      · exact .single hstep
      · exact (habove.1 below hbelow hmark).tail hstep
  · refine Waits.push ⟨fun b hb ↦ .inr ((hnext b).2 hb), ?_⟩
    exact Waits.mono (show Waits r (insert a completed) stack from h.waits)
      (Set.insert_subset_insert Set.subset_union_left)
  · obtain hb | rfl := (mem_append.1 hb).imp_right List.mem_singleton.1
    · exact h.reached b hb
    · exact h.reached_of_mem mem_cons_self
  · simp at hnil
  · obtain hb | hb := mem_append.1 hb
    · exact .inr ⟨a, by simp, (hnext b).1 ((hpushed b false).1 hb).1⟩
    · have hb : (b, false) ∈ stack := by simpa using hb
      obtain ⟨hnil, -⟩ | ⟨c, hc, hcb⟩ := h.found b (mem_cons_of_mem _ hb)
      · rw [(List.cons.inj (h.first hnil)).2] at hb
        exact (not_mem_nil hb).elim
      · exact .inr ⟨c, List.mem_append_left _ hc, hcb⟩

/-- An element is entered only where there is room for one that is reached. -/
theorem length_lt (hcompleted : a ∉ completed) (hactive : a ∉ active) {n : ℕ}
    (hn : {b | ReflTransGen r start b}.encard ≤ n) : entered.length < n := by
  have hnew : a ∉ entered := fun hmem ↦ ((h.mem_entered a).1 hmem).elim hcompleted hactive
  have hsub : {b | b ∈ a :: entered} ⊆ {b | ReflTransGen r start b} := by
    rintro b hb
    obtain rfl | hb := mem_cons.1 hb
    · exact h.reached_of_mem mem_cons_self
    · exact h.reached b hb
  have hcard : {b | b ∈ a :: entered}.encard = (a :: entered).length := by
    classical
    rw [← List.coe_toFinset, Set.encard_coe_eq_coe_finsetCard,
      List.toFinset_card_of_nodup (nodup_cons.2 ⟨hnew, h.nodup⟩)]
  have hle := (Set.encard_le_encard hsub).trans hn
  rw [hcard, Nat.cast_le] at hle
  exact hle

end

/-- **A walk that is through** has entered what is reached, each element once and after an element
that leads to it, and has met no cycle. -/
theorem finish (h : Invariant r start entered completed active []) :
    entered.Nodup ∧ (∀ a, a ∈ entered ↔ ReflTransGen r start a) ∧ Discovered r start entered ∧
      ∀ a, ReflTransGen r start a → ¬ TransGen r a a := by
  have hcompleted : ∀ a, a ∈ entered ↔ a ∈ completed := fun a ↦ by
    rw [h.mem_entered, h.mem_active]
    simp
  have hstart : start ∈ completed := by
    cases hentered : entered with
    | nil => exact absurd (h.first hentered) (by simp)
    | cons a rest =>
      obtain ⟨-, rfl⟩ | ⟨b, hb, -⟩ := h.discovered [] a rest hentered
      · exact (hcompleted a).1 (hentered ▸ mem_cons_self)
      · exact (not_mem_nil hb).elim
  have hreached : ∀ a, ReflTransGen r start a → a ∈ completed := by
    intro a ha
    induction ha with
    | refl => exact hstart
    | tail _ hbc ih => exact h.closed _ ih _ hbc
  refine ⟨h.nodup, fun a ↦ ⟨h.reached a, fun ha ↦ (hcompleted a).2 (hreached a ha)⟩, h.discovered,
    fun a ha ↦ not_transGen_of_acc (h.acc a (hreached a ha))⟩

end Invariant

end DepthFirst
