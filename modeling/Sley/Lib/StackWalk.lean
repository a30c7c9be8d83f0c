import Mathlib

/-!
# Walks on an explicit stack

A walk takes an element from a stack and refuses it, or pushes what it leads to. What an element
leads to is smaller than the element, all of it together, so that every walk ends. **A judgment that
says of an element what one visit says, and the same of what it leads to, says what the walk says**
(`StackWalk.passes_iff_of_judges`), whatever the order in which the stack is served.
-/

universe u

variable {α : Type u}

/-- One visit of a walk: what the element leads to, if it is not refused. -/
structure StackWalk (α : Type u) where
  visit : α → Option (List α)
  shrinks : ∃ size : α → ℕ, ∀ {a found}, visit a = some found → (found.map size).sum < size a

namespace StackWalk

variable {w : StackWalk α} {a b : α} {found stack : List α}

noncomputable def size (w : StackWalk α) : α → ℕ := w.shrinks.choose

theorem sum_size_lt (h : w.visit a = some found) : (found.map w.size).sum < w.size a :=
  w.shrinks.choose_spec h

/-- The walk of a stack. What was pushed last is taken first. -/
def passes (w : StackWalk α) : List α → Bool
  | [] => true
  | a :: stack =>
    match _h : w.visit a with
    | none => false
    | some found => w.passes (found.reverse ++ stack)
termination_by stack => (stack.map w.size).sum
decreasing_by
  have := w.sum_size_lt _h
  simp only [List.unattach_reverse, List.unattach_attach, List.map_append, List.map_reverse,
    List.sum_append, List.sum_reverse, List.map_cons, List.sum_cons]
  omega

/-- A judgment that says of an element what one visit says, and the same of what it leads to. -/
def Judges (w : StackWalk α) (P : α → Prop) : Prop :=
  ∀ a, P a ↔ ∃ found, w.visit a = some found ∧ ∀ b ∈ found, P b

/-- **A judgment that agrees with one visit agrees with the walk.** -/
theorem passes_iff_of_judges {P : α → Prop} (hP : w.Judges P) :
    w.passes stack = true ↔ ∀ a ∈ stack, P a := by
  induction hn : (stack.map w.size).sum using Nat.strongRecOn generalizing stack with
  | ind n ih =>
  subst hn
  cases stack with
  | nil => simp [passes]
  | cons a stack =>
    rw [passes, List.forall_mem_cons, hP a]
    split
    · simp_all
    · rename_i found hfound
      have hlt := w.sum_size_lt hfound
      rw [ih _ (by simp only [List.map_append, List.map_reverse, List.sum_append,
        List.sum_reverse, List.map_cons, List.sum_cons]; omega) rfl]
      simp [hfound, or_imp, forall_and]

end StackWalk

/-! ### All that is reached -/

/-- What holds of all that is reached holds at the start, and of all that is reached from there. -/
theorem forall_reflTransGen_iff {r : α → α → Prop} {P : α → Prop} {a : α} :
    (∀ b, Relation.ReflTransGen r a b → P b) ↔
      P a ∧ ∀ b, r a b → ∀ c, Relation.ReflTransGen r b c → P c := by
  refine ⟨fun h ↦ ⟨h a .refl, fun b hab c hbc ↦ h c (.head hab hbc)⟩, ?_⟩
  rintro ⟨hstart, hnext⟩ b hb
  obtain rfl | ⟨c, hac, hcb⟩ := hb.cases_head
  · exact hstart
  · exact hnext c hac b hcb
