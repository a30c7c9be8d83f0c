import Mathlib

/-!
# Identities that are never used twice

A ledger has identities that are bound and identities that are dead. One step may bind and unbind as
it likes, as long as **what it unbinds is dead from then on and nothing dead is bound**
(`Ledger.Step`). What follows for whole histories is here: the dead only grow, an identity that was
bound is bound or dead for ever, and a dead one is never bound again.
-/

variable {ι : Type*}

/-- The identities in use and the ones that were. -/
structure Ledger (ι : Type*) where
  bound : Set ι
  dead : Set ι

namespace Ledger

/-- One step of a ledger. -/
structure Step (l l' : Ledger ι) : Prop where
  /-- Exactly what is unbound dies. -/
  dead_eq : l'.dead = l.dead ∪ (l.bound \ l'.bound)
  disjoint : Disjoint l'.dead l'.bound

variable {l l' : Ledger ι}

theorem dead_subset (h : Relation.ReflTransGen Step l l') : l.dead ⊆ l'.dead := by
  induction h with
  | refl => exact subset_rfl
  | tail _ hstep ih =>
    rw [hstep.dead_eq]
    exact ih.trans Set.subset_union_left

/-- **An identity that was bound is bound or dead.** -/
theorem bound_subset (h : Relation.ReflTransGen Step l l') : l.bound ⊆ l'.bound ∪ l'.dead := by
  induction h with
  | refl => exact Set.subset_union_left
  | @tail mid last _ hstep ih =>
    intro i hi
    rw [hstep.dead_eq]
    by_cases hlast : i ∈ last.bound
    · exact .inl hlast
    · cases ih hi with
      | inl hmid => exact .inr (.inr ⟨hmid, hlast⟩)
      | inr hdead => exact .inr (.inl hdead)

/-- **A dead identity is not bound again.** -/
theorem disjoint_bound (h : Relation.TransGen Step l l') : Disjoint l.dead l'.bound := by
  obtain ⟨mid, hrun, hstep⟩ := Relation.TransGen.tail'_iff.1 h
  refine hstep.disjoint.mono_left ?_
  exact (dead_subset hrun).trans (hstep.dead_eq ▸ Set.subset_union_left)

end Ledger

/-- In a list each of whose members steps to the one before, the later run to the earlier. -/
theorem List.IsChain.pairwise_transGen {α : Type*} {r : α → α → Prop} {xs : List α}
    (h : xs.IsChain fun a b ↦ r b a) : xs.Pairwise fun a b ↦ Relation.TransGen r b a := by
  have : IsTrans α fun a b ↦ Relation.TransGen r b a := ⟨fun _ _ _ hab hbc ↦ hbc.trans hab⟩
  exact List.isChain_iff_pairwise.1 (h.imp fun _ _ hab ↦ .single hab)
