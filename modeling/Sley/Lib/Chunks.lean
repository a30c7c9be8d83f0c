import Mathlib

/-!
# Splitting a list into chunks

`chunks n xs` cuts `xs` into consecutive pieces of `n` elements, the last one shorter. Behind one
another the pieces are the list again (`flatten_chunks`), and there is no piece exactly when the list
is empty (`chunks_eq_nil_iff`).

The other half is about pieces that name their positions: **a list over such pieces with every
position in its place is the original one** (`eq_of_positions`).
-/

namespace Sley

variable {α : Type*} {n : Nat} {xs : List α}

/-- Cuts a list into pieces of so many elements. -/
def chunks (n : Nat) : List α → List (List α)
  | [] => []
  | x :: xs => (x :: xs.take (n - 1)) :: chunks n (xs.drop (n - 1))
termination_by xs => xs.length
decreasing_by
  rw [List.length_drop, List.length_cons]
  omega

@[simp]
theorem chunks_nil : chunks n ([] : List α) = [] := by rw [chunks]

theorem chunks_cons (x : α) (xs : List α) :
    chunks n (x :: xs) = (x :: xs.take (n - 1)) :: chunks n (xs.drop (n - 1)) := by
  rw [chunks]

theorem chunks_eq_nil_iff : chunks n xs = [] ↔ xs = [] := by
  cases xs with
  | nil => simp
  | cons x xs => simp [chunks_cons]

theorem flatten_chunks (n : Nat) (xs : List α) : (chunks n xs).flatten = xs := by
  induction xs using chunks.induct n with
  | case1 => simp
  | case2 x xs ih =>
    rw [chunks_cons, List.flatten_cons, ih, List.cons_append, List.take_append_drop]

theorem length_le_of_mem_chunks (hn : 0 < n) : ∀ piece ∈ chunks n xs, piece.length ≤ n := by
  induction xs using chunks.induct n with
  | case1 => simp
  | case2 x xs ih =>
    rw [chunks_cons, List.forall_mem_cons]
    refine ⟨?_, ih⟩
    have := List.length_take_le (n - 1) xs
    rw [List.length_cons]
    omega

theorem length_chunks_le (n : Nat) (xs : List α) : (chunks n xs).length ≤ xs.length := by
  induction xs using chunks.induct n with
  | case1 => simp
  | case2 x xs ih =>
    rw [List.length_drop] at ih
    rw [chunks_cons, List.length_cons, List.length_cons]
    omega

/-- Pieces that name their positions, each in its place. -/
theorem eq_of_positions {ps qs : List α} {position : α → Nat}
    (hps : ∀ (i : Nat) (h : i < ps.length), position ps[i] = i)
    (hqs : ∀ (i : Nat) (h : i < qs.length), position qs[i] = i)
    (hmem : ∀ q ∈ qs, q ∈ ps) (hlen : qs.length = ps.length) : qs = ps := by
  refine List.ext_getElem hlen fun i hi hi' ↦ ?_
  obtain ⟨j, hj, heq⟩ := List.getElem_of_mem (hmem qs[i] (List.getElem_mem hi))
  have hposition : j = i := by rw [← hps j hj, heq, hqs i hi]
  subst hposition
  exact heq.symm

end Sley
