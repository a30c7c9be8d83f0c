import Mathlib

/-!
# Passes over what waits

Elements have keys, and need the elements of other keys done before them. A pass goes through the
pending elements in order, does each one whose needs are done and leaves the others waiting; passes
follow one another until one does nothing. **What is done is done once, after what it needs, and
nothing is left waiting exactly when the needs among the pending elements have no cycle**
(`schedule_perm`, `ordered_schedule`, `schedule_waiting_eq_nil_iff`).
-/

universe u v

namespace Deferral

variable {α : Type u} {κ : Type v} [DecidableEq κ] (key : α → κ) (needs : α → List κ)

/-- One pass: what it does, in order, and what it leaves waiting. -/
def pass : (done : List κ) → (pending : List α) → List α × List α
  | _, [] => ([], [])
  | done, a :: pending =>
    if ∀ k ∈ needs a, k ∈ done then
      let rest := pass (key a :: done) pending
      (a :: rest.1, rest.2)
    else
      let rest := pass done pending
      (rest.1, a :: rest.2)

theorem pass_perm (done : List κ) (pending : List α) :
    ((pass key needs done pending).1 ++ (pass key needs done pending).2).Perm pending := by
  induction pending generalizing done with
  | nil => exact List.Perm.nil
  | cons a pending ih =>
    rw [pass]
    split
    · exact (ih _).cons a
    · exact List.perm_middle.trans ((ih _).cons a)

theorem length_pass (done : List κ) (pending : List α) :
    (pass key needs done pending).1.length + (pass key needs done pending).2.length =
      pending.length := by
  rw [← List.length_append]
  exact (pass_perm key needs done pending).length_eq

/-- Passes until one does nothing: what they do, in order, and what is left waiting. -/
def schedule (done : List κ) (pending : List α) : List α × List α :=
  match _hpass : pass key needs done pending with
  | ([], waiting) => ([], waiting)
  | (a :: first, waiting) =>
    let rest := schedule (done ++ (a :: first).map key) waiting
    (a :: first ++ rest.1, rest.2)
termination_by pending.length
decreasing_by
  have hlen := length_pass key needs done pending
  rw [_hpass] at hlen
  simp only [List.length_cons] at hlen
  omega

variable {key needs} {done : List κ} {pending first waiting order : List α} {a : α}

theorem schedule_of_pass_nil (h : pass key needs done pending = ([], waiting)) :
    schedule key needs done pending = ([], waiting) := by
  rw [schedule]
  split
  · rename_i hpass
    rw [hpass] at h
    exact h
  · rename_i hpass
    rw [hpass] at h
    cases h

theorem schedule_of_pass_cons (h : pass key needs done pending = (a :: first, waiting)) :
    schedule key needs done pending =
      (a :: first ++ (schedule key needs (done ++ (a :: first).map key) waiting).1,
        (schedule key needs (done ++ (a :: first).map key) waiting).2) := by
  rw [schedule]
  split
  · rename_i hpass
    rw [hpass] at h
    cases h
  · rename_i hpass
    rw [hpass] at h
    cases h
    rfl

/-- The rule of the passes: what holds when a pass does nothing, and carries over a pass that does
something, holds of the run. -/
theorem schedule_rule {P : List κ → List α → List α × List α → Prop}
    (hstop : ∀ done pending waiting, pass key needs done pending = ([], waiting) →
      P done pending ([], waiting))
    (hpass : ∀ done pending first waiting run, pass key needs done pending = (first, waiting) →
      P (done ++ first.map key) waiting run → P done pending (first ++ run.1, run.2)) :
    P done pending (schedule key needs done pending) := by
  induction hn : pending.length using Nat.strong_induction_on generalizing done pending with
  | _ n ih =>
    have hlen := length_pass key needs done pending
    match h : pass key needs done pending with
    | ([], waiting) =>
      rw [schedule_of_pass_nil h]
      exact hstop done pending waiting h
    | (a :: first, waiting) =>
      rw [schedule_of_pass_cons h]
      refine hpass done pending _ waiting _ h (ih _ ?_ rfl)
      rw [h] at hlen
      simp only [List.length_cons] at hlen
      omega

/-- **Everything is done once or left waiting.** -/
theorem schedule_perm (done : List κ) (pending : List α) :
    ((schedule key needs done pending).1 ++ (schedule key needs done pending).2).Perm pending := by
  refine schedule_rule (P := fun _ pending run ↦ (run.1 ++ run.2).Perm pending) ?_ ?_
  · intro done pending waiting h
    have hperm := pass_perm key needs done pending
    rwa [h] at hperm
  · intro done pending first waiting run h ih
    have hperm := pass_perm key needs done pending
    rw [h] at hperm
    rw [List.append_assoc]
    exact (ih.append_left _).trans hperm

/-! ### What is done -/

/-- Each element of a list comes after what it needs and is not done before. -/
def Ordered (key : α → κ) (needs : α → List κ) (done : List κ) (order : List α) : Prop :=
  ∀ before a after, order = before ++ a :: after → ∀ k ∈ needs a, k ∈ done ++ before.map key

section

omit [DecidableEq κ]

theorem Ordered.nil : Ordered key needs done [] := fun before _ _ h ↦ by
  cases before <;> cases h

theorem Ordered.cons (ha : ∀ k ∈ needs a, k ∈ done)
    (h : Ordered key needs (key a :: done) order) : Ordered key needs done (a :: order) := by
  intro before c after hsplit k hk
  cases before with
  | nil =>
    obtain ⟨rfl, -⟩ := List.cons.inj hsplit
    exact List.mem_append_left _ (ha k hk)
  | cons first before =>
    obtain ⟨rfl, hrest⟩ := List.cons.inj hsplit
    exact List.perm_middle.mem_iff.2 (h before c after hrest k hk)

theorem Ordered.append (h : Ordered key needs done first)
    (h' : Ordered key needs (done ++ first.map key) order) :
    Ordered key needs done (first ++ order) := by
  intro before a after hsplit k hk
  obtain ⟨rest, rfl, hrest⟩ | ⟨rest, rfl, hrest⟩ := List.append_eq_append_iff.1 hsplit
  · have hmem := h' rest a after hrest k hk
    rwa [List.map_append, ← List.append_assoc]
  · cases rest with
    | nil =>
      have hmem := h' [] a after hrest.symm k hk
      rwa [List.append_nil, List.map_nil, List.append_nil] at hmem
    | cons c rest =>
      obtain ⟨rfl, -⟩ := List.cons.inj hrest
      exact h before a rest rfl k hk

end

theorem ordered_pass (done : List κ) (pending : List α) :
    Ordered key needs done (pass key needs done pending).1 := by
  induction pending generalizing done with
  | nil => exact .nil
  | cons a pending ih =>
    rw [pass]
    split
    · rename_i ha
      exact .cons ha (ih _)
    · exact ih done

/-- **What is done comes after what it needs.** -/
theorem ordered_schedule (done : List κ) (pending : List α) :
    Ordered key needs done (schedule key needs done pending).1 := by
  refine schedule_rule (P := fun done _ run ↦ Ordered key needs done run.1) (fun _ _ _ _ ↦ .nil) ?_
  intro done pending first waiting run h ih
  have hfirst : Ordered key needs done (pass key needs done pending).1 := ordered_pass done pending
  rw [h] at hfirst
  exact hfirst.append ih

/-! ### What waits -/

theorem needs_of_pass_nil (h : (pass key needs done pending).1 = []) (ha : a ∈ pending) :
    ∃ k ∈ needs a, k ∉ done := by
  induction pending with
  | nil => cases ha
  | cons c pending ih =>
    rw [pass] at h
    split at h
    · cases h
    · rename_i hc
      obtain rfl | ha := List.mem_cons.1 ha
      · simpa using hc
      · exact ih h ha

/-- What is left waiting needs something that is not done. -/
theorem needs_of_waiting (ha : a ∈ (schedule key needs done pending).2) :
    ∃ k ∈ needs a, k ∉ done ++ (schedule key needs done pending).1.map key := by
  revert ha
  refine schedule_rule (P := fun done _ run ↦ a ∈ run.2 →
    ∃ k ∈ needs a, k ∉ done ++ run.1.map key) ?_ ?_
  · intro done pending waiting h ha
    have hperm := pass_perm key needs done pending
    rw [h] at hperm
    obtain ⟨k, hk, hdone⟩ := needs_of_pass_nil (by rw [h]) (hperm.mem_iff.1 ha)
    exact ⟨k, hk, by simpa using hdone⟩
  · intro done pending first waiting run _ ih ha
    obtain ⟨k, hk, hdone⟩ := ih ha
    refine ⟨k, hk, ?_⟩
    rwa [List.map_append, ← List.append_assoc]

/-! ### Cycles -/

/-- Among the pending elements, one needs the other. -/
def Needs (key : α → κ) (needs : α → List κ) (pending : List α) (a b : α) : Prop :=
  a ∈ pending ∧ b ∈ pending ∧ key b ∈ needs a

/-- Some pending element needs itself, through others. -/
def Cyclic (key : α → κ) (needs : α → List κ) (pending : List α) : Prop :=
  ∃ a, Relation.TransGen (Needs key needs pending) a a

theorem not_transGen_of_acc {r : α → α → Prop} (h : Acc (flip r) a) :
    ¬ Relation.TransGen r a a := by
  induction h with
  | intro a _ ih =>
    intro hcycle
    obtain ⟨b, hab, hback⟩ := Relation.TransGen.head'_iff.1 hcycle
    exact ih b hab (.tail' hback hab)

section

omit [DecidableEq κ]

/-- A list in order has no cycle. -/
theorem not_cyclic_of_ordered (h : Ordered key needs [] order)
    (hkey : ∀ a ∈ pending, ∀ b ∈ order, key b = key a → b = a)
    (hmem : ∀ a ∈ pending, a ∈ order) : ¬ Cyclic key needs pending := by
  have hacc : ∀ n before (a : α) after, before.length = n → order = before ++ a :: after →
      Acc (flip (Needs key needs pending)) a := by
    intro n
    induction n using Nat.strong_induction_on with
    | _ n ih =>
      rintro before a after rfl hsplit
      refine .intro a fun b hb ↦ ?_
      have hbefore := h before a after hsplit _ hb.2.2
      rw [List.nil_append] at hbefore
      obtain ⟨c, hc, hcb⟩ := List.mem_map.1 hbefore
      obtain rfl : c = b := hkey b hb.2.1 c (by simp [hsplit, hc]) hcb
      obtain ⟨before', after', rfl⟩ := List.append_of_mem hc
      refine ih before'.length (by simp) before' c (after' ++ a :: after) rfl ?_
      rw [hsplit, List.append_assoc, List.cons_append]
  rintro ⟨a, hcycle⟩
  obtain ⟨b, hab, -⟩ := Relation.TransGen.head'_iff.1 hcycle
  obtain ⟨before, after, hsplit⟩ := List.append_of_mem (hmem a hab.1)
  exact not_transGen_of_acc (hacc _ before a after rfl hsplit) hcycle

/-- Elements each of which needs another of them form a cycle. -/
theorem cyclic_of_forall_needs (hne : waiting ≠ [])
    (h : ∀ a ∈ waiting, ∃ b ∈ waiting, Needs key needs pending a b) :
    Cyclic key needs pending := by
  by_contra hacyclic
  let below : {a // a ∈ waiting} → {a // a ∈ waiting} → Prop := fun b a ↦
    Relation.TransGen (Needs key needs pending) a.1 b.1
  have : Finite {a // a ∈ waiting} := List.finite_toSet waiting
  have : IsTrans _ below := ⟨fun _ _ _ hab hbc ↦ hbc.trans hab⟩
  have : Std.Irrefl below := ⟨fun a haa ↦ hacyclic ⟨a, haa⟩⟩
  have hwf : WellFounded below := Finite.wellFounded_of_trans_of_irrefl below
  obtain ⟨first, hfirst⟩ := List.exists_mem_of_ne_nil waiting hne
  obtain ⟨a, -, hmin⟩ := hwf.has_min Set.univ ⟨⟨first, hfirst⟩, trivial⟩
  obtain ⟨b, hb, hab⟩ := h a.1 a.2
  exact hmin ⟨b, hb⟩ trivial (.single hab)

end

/-- **Nothing is left waiting exactly when the needs have no cycle.** -/
theorem schedule_waiting_eq_nil_iff
    (hkey : ∀ a ∈ pending, ∀ b ∈ pending, key b = key a → b = a)
    (hneeds : ∀ a ∈ pending, ∀ k ∈ needs a, ∃ b ∈ pending, key b = k) :
    (schedule key needs [] pending).2 = [] ↔ ¬ Cyclic key needs pending := by
  have hperm : ((schedule key needs [] pending).1 ++ (schedule key needs [] pending).2).Perm
      pending := schedule_perm [] pending
  constructor
  · intro hnone
    rw [hnone, List.append_nil] at hperm
    exact not_cyclic_of_ordered (ordered_schedule [] pending)
      (fun a ha b hb ↦ hkey a ha b (hperm.mem_iff.1 hb)) fun a ha ↦ hperm.mem_iff.2 ha
  · intro hacyclic
    by_contra hne
    refine hacyclic (cyclic_of_forall_needs hne fun a ha ↦ ?_)
    obtain ⟨k, hk, hrun⟩ := needs_of_waiting ha
    have hpending : a ∈ pending := hperm.mem_iff.1 (List.mem_append_right _ ha)
    obtain ⟨b, hb, rfl⟩ := hneeds a hpending k hk
    have hnot : b ∉ (schedule key needs [] pending).1 := fun hmem ↦
      hrun (List.mem_append_right _ (List.mem_map_of_mem hmem))
    exact ⟨b, (List.mem_append.1 (hperm.mem_iff.2 hb)).resolve_left hnot, hpending, hb, hk⟩

end Deferral
