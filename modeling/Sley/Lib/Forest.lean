import Sley.Lib.Worklist

/-!
# Forests

A partial function that names the parent of an element. `EndsAt parent a r` says that the parents of
`a` lead to `r`, which has none. **An element whose parents end is on no cycle, and ends in one
place only** (`EndsAt.not_transGen`, `EndsAt.unique`), and what a search finds below a root are the
elements that end there (`reachable_eq_endsAt`).

A lineage is the list of an element and its parents to the last. **The first element of a lineage
that another lineage shares is their nearest common element** (`Lineage.isNearestCommon_of_find`),
and there is only one (`IsNearestCommon.unique`).
-/

universe u

section Forest

variable {α : Type u} {parent : α → Option α} {a b r r' : α}

/-- The parents of `a` end at `r`. -/
def EndsAt (parent : α → Option α) (a r : α) : Prop :=
  Relation.ReflTransGen (fun a b ↦ parent a = some b) a r ∧ parent r = none

namespace EndsAt

theorem refl (h : parent r = none) : EndsAt parent r r := ⟨.refl, h⟩

theorem head (hab : parent a = some b) (h : EndsAt parent b r) : EndsAt parent a r :=
  ⟨.head hab h.1, h.2⟩

section

variable (h : EndsAt parent a r)

include h

/-- The first step is taken. -/
theorem of_parent (hab : parent a = some b) : EndsAt parent b r := by
  obtain ⟨hchain, hroot⟩ := h
  obtain rfl | ⟨c, hac, hchain⟩ := hchain.cases_head
  · rw [hab] at hroot
    cases hroot
  · obtain rfl : b = c := Option.some.inj (hab.symm.trans hac)
    exact ⟨hchain, hroot⟩

theorem of_transGen
    (hab : Relation.TransGen (fun a b ↦ parent a = some b) a b) : EndsAt parent b r := by
  induction hab with
  | single hab => exact h.of_parent hab
  | tail _ hbc ih => exact ih.of_parent hbc

/-- An element without a parent ends where it is. -/
theorem eq_of_parent_eq_none (ha : parent a = none) : a = r := by
  obtain rfl | ⟨c, hac, -⟩ := h.1.cases_head
  · rfl
  · rw [ha] at hac
    cases hac

/-- **The parents end in one place only.** -/
theorem unique (h' : EndsAt parent a r') : r = r' := by
  obtain ⟨hchain, hroot⟩ := h
  induction hchain using Relation.ReflTransGen.head_induction_on with
  | refl => exact h'.eq_of_parent_eq_none hroot
  | head hac _ ih => exact ih (h'.of_parent hac)

/-- **An element whose parents end is on no cycle.** -/
theorem not_transGen : ¬ Relation.TransGen (fun a b ↦ parent a = some b) a a := by
  obtain ⟨hchain, hroot⟩ := h
  induction hchain using Relation.ReflTransGen.head_induction_on with
  | refl =>
    intro hcycle
    obtain ⟨c, hrc, -⟩ := Relation.TransGen.head'_iff.1 hcycle
    rw [hroot] at hrc
    cases hrc
  | head hac _ ih =>
    intro hcycle
    obtain ⟨c', hac', hback⟩ := Relation.TransGen.head'_iff.1 hcycle
    obtain rfl := Option.some.inj (hac.symm.trans hac')
    exact ih (.tail' hback hac)

end

end EndsAt

/-- **What is found below a root is what ends there**, where the successors of an element are those
whose parent it is. -/
theorem reachable_eq_endsAt {next : α → Set α} (hnext : ∀ a b, b ∈ next a ↔ parent b = some a)
    (hroot : parent r = none) : reachable next {r} = {a | EndsAt parent a r} := by
  ext a
  constructor
  · rintro ⟨_, rfl, hreach⟩
    induction hreach with
    | refl => exact .refl hroot
    | tail _ hstep ih => exact ih.head ((hnext _ _).1 hstep)
  · rintro ⟨hchain, -⟩
    refine ⟨r, rfl, ?_⟩
    induction hchain using Relation.ReflTransGen.head_induction_on with
    | refl => exact .refl
    | head hac _ ih => exact ih.tail ((hnext _ _).2 hac)

/-! ### Lineages -/

/-- The parents of `a` lead to `b`, or `b` is `a`. -/
abbrev Ancestor (parent : α → Option α) (a b : α) : Prop :=
  Relation.ReflTransGen (fun a b ↦ parent a = some b) a b

/-- An element and its parents, to the one that has none. -/
inductive Lineage (parent : α → Option α) : α → List α → Prop
  | root {a : α} (h : parent a = none) : Lineage parent a [a]
  | step {a b : α} {as : List α} (h : parent a = some b) (rest : Lineage parent b as) :
    Lineage parent a (a :: as)

/-- An element on both lineages that every such element is an ancestor of. -/
structure IsNearestCommon (parent : α → Option α) (a b c : α) : Prop where
  left : Ancestor parent a c
  right : Ancestor parent b c
  nearest : ∀ x, Ancestor parent a x → Ancestor parent b x → Ancestor parent c x

namespace Lineage

variable {as bs : List α} {x c : α}

section

variable (h : Lineage parent a as)

include h

theorem head?_eq : as.head? = some a := by
  cases h <;> rfl

theorem exists_endsAt : ∃ r, EndsAt parent a r := by
  induction h with
  | root h => exact ⟨_, .refl h⟩
  | step h _ ih =>
    obtain ⟨r, hr⟩ := ih
    exact ⟨r, hr.head h⟩

/-- **A lineage lists the ancestors.** -/
theorem mem_iff : x ∈ as ↔ Ancestor parent a x := by
  induction h with
  | root h =>
    rw [List.mem_singleton]
    refine ⟨fun hx ↦ hx ▸ .refl, fun hx ↦ ?_⟩
    obtain rfl | ⟨b, hab, -⟩ := hx.cases_head
    · rfl
    · rw [h] at hab
      cases hab
  | step h _ ih =>
    rw [List.mem_cons, ih]
    constructor
    · rintro (rfl | hx)
      · exact .refl
      · exact .head h hx
    · intro hx
      obtain rfl | ⟨b, hab, hx⟩ := hx.cases_head
      · exact .inl rfl
      · rw [h] at hab
        exact .inr (Option.some.inj hab ▸ hx)

/-- **A lineage does not come back.** -/
theorem nodup : as.Nodup := by
  induction h with
  | root => exact List.nodup_singleton _
  | step h rest ih =>
    refine List.nodup_cons.2 ⟨fun hmem ↦ ?_, ih⟩
    obtain ⟨r, hr⟩ := (Lineage.step h rest).exists_endsAt
    exact hr.not_transGen (.head' h (rest.mem_iff.1 hmem))

theorem isChain : as.IsChain (fun a b ↦ parent a = some b) := by
  induction h with
  | root => exact .singleton _
  | step h rest ih =>
    cases rest with
    | root => exact .cons_cons h ih
    | step => exact .cons_cons h ih

end

/-- What follows an element of a lineage are its ancestors. -/
theorem of_append (h : Lineage parent a (as ++ c :: bs)) : Lineage parent c (c :: bs) := by
  generalize hsplit : as ++ c :: bs = whole at h
  induction h generalizing as with
  | root h =>
    obtain ⟨rfl, heq⟩ | ⟨-, heq⟩ := List.append_eq_singleton_iff.1 hsplit
    · obtain ⟨rfl, rfl⟩ := List.cons.inj heq
      exact .root h
    · cases heq
  | step h rest ih =>
    cases as with
    | nil =>
      obtain ⟨rfl, rfl⟩ := List.cons.inj hsplit
      exact .step h rest
    | cons first as => exact ih (List.cons.inj hsplit).2

theorem isNearestCommon_of_find (h : Lineage parent a as) (h' : Lineage parent b bs)
    {p : α → Bool} (hp : ∀ x, p x = true ↔ x ∈ bs) (hfind : as.find? p = some c) :
    IsNearestCommon parent a b c := by
  obtain ⟨hc, before, after, rfl, hbefore⟩ := List.find?_eq_some_iff_append.1 hfind
  refine ⟨h.mem_iff.1 (by simp), h'.mem_iff.1 ((hp c).1 hc), fun x hax hbx ↦ ?_⟩
  have hx := (hp x).2 (h'.mem_iff.2 hbx)
  obtain hmem | hmem := List.mem_append.1 (h.mem_iff.2 hax)
  · have hnot := hbefore x hmem
    rw [hx] at hnot
    cases hnot
  · exact h.of_append.mem_iff.1 hmem

end Lineage

theorem IsNearestCommon.symm {c : α} (h : IsNearestCommon parent a b c) :
    IsNearestCommon parent b a c :=
  ⟨h.right, h.left, fun x hb ha ↦ h.nearest x ha hb⟩

/-- **There is one nearest common element**, where the parents of one of the two end. -/
theorem IsNearestCommon.unique {c c' : α} (hends : EndsAt parent a r)
    (h : IsNearestCommon parent a b c) (h' : IsNearestCommon parent a b c') : c = c' := by
  have hforth := h.nearest c' h'.left h'.right
  have hback := h'.nearest c h.left h.right
  obtain rfl | hforth := Relation.reflTransGen_iff_eq_or_transGen.1 hforth
  · rfl
  · have hc : ∃ r, EndsAt parent c r := by
      obtain rfl | hac := Relation.reflTransGen_iff_eq_or_transGen.1 h.left
      · exact ⟨r, hends⟩
      · exact ⟨r, hends.of_transGen hac⟩
    obtain ⟨r, hr⟩ := hc
    exact absurd (hforth.trans_left hback) hr.not_transGen

end Forest
