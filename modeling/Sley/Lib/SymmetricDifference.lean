import Mathlib
import Sley.Lib.OrderedMap

/-!
# The symmetric difference of two ascending lists

`symmetricDifference s t` walks over two lists at once: equal heads are dropped together, otherwise
the smaller head is emitted, marked by the side it comes from. Swapping the lists swaps the marks,
whatever the lists are. **On ascending lists the walk emits what is in one of them only**, in
ascending order.
-/

variable {α : Type*} [Ord α]

/-- What is in `s` alone, on the left, and what is in `t` alone, on the right. -/
def symmetricDifference (s t : List α) : List (α ⊕ α) :=
  match s, t with
  | [], [] => []
  | a :: s, [] => .inl a :: symmetricDifference s []
  | [], b :: t => .inr b :: symmetricDifference [] t
  | a :: s, b :: t =>
    match compare a b with
    | .lt => .inl a :: symmetricDifference s (b :: t)
    | .eq => symmetricDifference s t
    | .gt => .inr b :: symmetricDifference (a :: s) t
termination_by s.length + t.length

namespace symmetricDifference

open List (map_cons mem_cons mem_map pairwise_cons rel_of_pairwise_cons)
open Std.OrientedCmp (lt_of_gt not_lt_of_lt)
open Std.OrientedOrd (eq_swap)

section Swap

variable [Std.OrientedOrd α]

theorem swap (s t : List α) : symmetricDifference t s = (symmetricDifference s t).map Sum.swap := by
  fun_induction symmetricDifference s t with
  | case1 => simp [symmetricDifference]
  | case2 a s ih => rw [symmetricDifference, ih, map_cons, Sum.swap_inl]
  | case3 b t ih => rw [symmetricDifference, ih, map_cons, Sum.swap_inr]
  | case4 a s b t h ih =>
    have hswap : compare b a = .gt := by rw [eq_swap, h, Ordering.swap_lt]
    simp only [symmetricDifference, hswap, ih, map_cons, Sum.swap_inl]
  | case5 a s b t h ih =>
    have hswap : compare b a = .eq := by rw [eq_swap, h, Ordering.swap_eq]
    simp only [symmetricDifference, hswap, ih]
  | case6 a s b t h ih =>
    have hswap : compare b a = .lt := by rw [eq_swap, h, Ordering.swap_gt]
    simp only [symmetricDifference, hswap, ih, map_cons, Sum.swap_inr]

end Swap

variable [Std.TransOrd α] [Std.LawfulEqOrd α] {s t : List α}

omit [Std.LawfulEqOrd α] in
/-- An element below the head of an ascending list is not in the list. -/
theorem not_mem_of_lt {a b : α} (hlt : compare a b = .lt)
    (ht : (b :: t).Pairwise (compare · · = .lt)) : a ∉ b :: t := by
  intro ha
  obtain rfl | ha := mem_cons.1 ha
  · exact not_lt_of_lt hlt hlt
  · exact not_lt_of_lt hlt (rel_of_pairwise_cons ht ha)

/-- **What is emitted on the left is in the left list only.** -/
theorem inl_mem_iff (hs : s.Pairwise (compare · · = .lt)) (ht : t.Pairwise (compare · · = .lt))
    (x : α) : .inl x ∈ symmetricDifference s t ↔ x ∈ s ∧ x ∉ t := by
  fun_induction symmetricDifference s t with
  | case1 => simp
  | case2 a s ih => simp [ih hs.of_cons ht]
  | case3 b t ih => simp [ih hs ht.of_cons]
  | case4 a s b t h ih =>
    have ha := not_mem_of_lt h ht
    rw [mem_cons, ih hs.of_cons ht, Sum.inl.injEq, mem_cons (a := x) (b := a)]
    constructor
    · rintro (rfl | ⟨hx, hxt⟩)
      exacts [⟨.inl rfl, ha⟩, ⟨.inr hx, hxt⟩]
    · rintro ⟨rfl | hx, hxt⟩
      exacts [.inl rfl, .inr ⟨hx, hxt⟩]
  | case5 a s b t h ih =>
    obtain rfl := Std.LawfulEqCmp.eq_of_compare h
    have ha : a ∉ s := fun hmem ↦ by
      have hlt : compare a a = .lt := rel_of_pairwise_cons hs hmem
      exact not_lt_of_lt hlt hlt
    rw [ih hs.of_cons ht.of_cons, mem_cons, mem_cons]
    constructor
    · rintro ⟨hx, hxt⟩
      exact ⟨.inr hx, fun hmem ↦ hmem.elim (fun heq ↦ ha (heq ▸ hx)) hxt⟩
    · rintro ⟨rfl | hx, hxt⟩
      exacts [absurd (.inl rfl) hxt, ⟨hx, fun hmem ↦ hxt (.inr hmem)⟩]
  | case6 a s b t h ih =>
    have hb : b ∉ a :: s := not_mem_of_lt (lt_of_gt h) hs
    rw [mem_cons, or_iff_right (by simp), ih hs ht.of_cons, mem_cons (a := x) (b := b)]
    refine and_congr_right fun hx ↦ not_congr (or_iff_right fun heq ↦ ?_).symm
    exact hb (heq ▸ hx)

/-- What is emitted on the right is in the right list only. -/
theorem inr_mem_iff (hs : s.Pairwise (compare · · = .lt)) (ht : t.Pairwise (compare · · = .lt))
    (x : α) : .inr x ∈ symmetricDifference s t ↔ x ∈ t ∧ x ∉ s := by
  rw [← inl_mem_iff ht hs x, swap s t, mem_map]
  constructor
  · intro h
    exact ⟨_, h, rfl⟩
  · rintro ⟨y, hy, heq⟩
    rwa [← Sum.swap_swap y, heq] at hy

/-- The element that is emitted. -/
def value : α ⊕ α → α := Sum.elim id id

theorem value_mem (hs : s.Pairwise (compare · · = .lt)) (ht : t.Pairwise (compare · · = .lt))
    {x : α ⊕ α} (hx : x ∈ symmetricDifference s t) : value x ∈ s ∨ value x ∈ t := by
  cases x with
  | inl a => exact .inl ((inl_mem_iff hs ht a).1 hx).1
  | inr b => exact .inr ((inr_mem_iff hs ht b).1 hx).1

/-- The elements ascend; none is emitted twice, not even on both sides. -/
theorem sorted (hs : s.Pairwise (compare · · = .lt)) (ht : t.Pairwise (compare · · = .lt)) :
    ((symmetricDifference s t).map value).Pairwise (compare · · = .lt) := by
  fun_induction symmetricDifference s t with
  | case1 => exact .nil
  | case2 a s ih =>
    refine pairwise_cons.2 ⟨?_, ih hs.of_cons ht⟩
    intro y hy
    obtain ⟨x, hx, rfl⟩ := mem_map.1 hy
    obtain hx | hx := value_mem hs.of_cons ht hx
    · exact rel_of_pairwise_cons hs hx
    · cases hx
  | case3 b t ih =>
    refine pairwise_cons.2 ⟨?_, ih hs ht.of_cons⟩
    intro y hy
    obtain ⟨x, hx, rfl⟩ := mem_map.1 hy
    obtain hx | hx := value_mem hs ht.of_cons hx
    · cases hx
    · exact rel_of_pairwise_cons ht hx
  | case4 a s b t h ih =>
    refine pairwise_cons.2 ⟨?_, ih hs.of_cons ht⟩
    intro y hy
    obtain ⟨x, hx, rfl⟩ := mem_map.1 hy
    obtain hx | hx := value_mem hs.of_cons ht hx
    · exact rel_of_pairwise_cons hs hx
    · obtain hx | hx := mem_cons.1 hx
      · exact hx ▸ h
      · exact Std.TransCmp.lt_trans h (rel_of_pairwise_cons ht hx)
  | case5 a s b t h ih => exact ih hs.of_cons ht.of_cons
  | case6 a s b t h ih =>
    have hlt : compare b a = .lt := lt_of_gt h
    refine pairwise_cons.2 ⟨?_, ih hs ht.of_cons⟩
    intro y hy
    obtain ⟨x, hx, rfl⟩ := mem_map.1 hy
    obtain hx | hx := value_mem hs ht.of_cons hx
    · obtain hx | hx := mem_cons.1 hx
      · exact hx ▸ hlt
      · exact Std.TransCmp.lt_trans hlt (rel_of_pairwise_cons hs hx)
    · exact rel_of_pairwise_cons ht hx

end symmetricDifference
