import Mathlib

/-!
# Orders judged one value at a time

That a comparison of trees is a total order is an induction over one of the trees, and what the
induction carries is the order **as one value sees it** (`OrderAt`): against every other value the
comparison is antisymmetric, is `eq` for the value itself and no other, and is transitive from the
value on. The rules follow the ways a comparison is put together: from an order that is known, by
what tells the values apart, from left to right and item by item.
-/

variable {α β : Type*}

/-- What it takes, seen from one value, that `cmp` orders the values. -/
structure OrderAt (cmp : α → α → Ordering) (a : α) : Prop where
  eq_swap (b : α) : cmp a b = (cmp b a).swap
  eq_iff (b : α) : cmp a b = .eq ↔ a = b
  lt_of_lt_of_isLE {b c : α} : cmp a b = .lt → (cmp b c).isLE → cmp a c = .lt

namespace OrderAt

variable {cmp : α → α → Ordering} {cmp' : β → β → Ordering} {a : α}

/-- Comparing a value with itself. -/
theorem self (h : OrderAt cmp a) : cmp a a = .eq := (h.eq_iff a).2 rfl

theorem isLE_trans (h : OrderAt cmp a) {b c : α} (hab : (cmp a b).isLE) (hbc : (cmp b c).isLE) :
    (cmp a c).isLE := by
  obtain hlt | heq := Ordering.isLE_iff_eq_lt_or_eq_eq.1 hab
  · rw [h.lt_of_lt_of_isLE hlt hbc]
    rfl
  · obtain rfl := (h.eq_iff b).1 heq
    exact hbc

/-! ### From every value -/

theorem transCmp (h : ∀ a, OrderAt cmp a) : Std.TransCmp cmp where
  eq_swap {a b} := (h a).eq_swap b
  isLE_trans {a _ _} hab hbc := (h a).isLE_trans hab hbc

theorem lawfulEqCmp (h : ∀ a, OrderAt cmp a) : Std.LawfulEqCmp cmp where
  compare_self {a} := (h a).self
  eq_of_compare {a b} heq := ((h a).eq_iff b).1 heq

/-- An order that is known is one from every value. -/
theorem compare [Ord α] [Std.TransOrd α] [Std.LawfulEqOrd α] (a : α) :
    OrderAt (Ord.compare (α := α)) a where
  eq_swap _ := Std.OrientedCmp.eq_swap
  eq_iff _ := Std.LawfulEqCmp.compare_eq_iff_eq
  lt_of_lt_of_isLE hab hbc := Std.TransCmp.lt_of_lt_of_isLE hab hbc

/-! ### Put together -/

/-- By what tells the values apart. -/
theorem comap {f : α → β} (hf : Function.Injective f) (h : OrderAt cmp' (f a)) :
    OrderAt (fun a b ↦ cmp' (f a) (f b)) a where
  eq_swap b := h.eq_swap (f b)
  eq_iff b := (h.eq_iff (f b)).trans hf.eq_iff
  lt_of_lt_of_isLE hab hbc := h.lt_of_lt_of_isLE hab hbc

/-- From left to right. -/
theorem lex {p : α × β} (h : OrderAt cmp p.1) (h' : OrderAt cmp' p.2) :
    OrderAt (fun p q : α × β ↦ (cmp p.1 q.1).then (cmp' p.2 q.2)) p where
  eq_swap q := by
    show (cmp p.1 q.1).then (cmp' p.2 q.2) = ((cmp q.1 p.1).then (cmp' q.2 p.2)).swap
    rw [Ordering.swap_then, ← h.eq_swap, ← h'.eq_swap]
  eq_iff q := by
    show (cmp p.1 q.1).then (cmp' p.2 q.2) = .eq ↔ _
    rw [Ordering.then_eq_eq, h.eq_iff, h'.eq_iff, Prod.ext_iff]
  lt_of_lt_of_isLE {q r} hab hbc := by
    show (cmp p.1 r.1).then (cmp' p.2 r.2) = .lt
    rw [Ordering.then_eq_lt] at hab ⊢
    rw [Ordering.isLE_then_iff_or] at hbc
    obtain hlt | ⟨heq, hlt⟩ := hab
    · refine .inl (h.lt_of_lt_of_isLE hlt ?_)
      obtain hbc | ⟨hbc, -⟩ := hbc <;> rw [hbc] <;> rfl
    · -- the left components agree, so the order is that of the next ones
      rw [(h.eq_iff q.1).1 heq]
      exact hbc.imp_right fun ⟨heq, hle⟩ ↦ ⟨heq, h'.lt_of_lt_of_isLE hlt hle⟩

/-- Item by item; a proper prefix comes first. -/
theorem list {as : List α} (h : ∀ a ∈ as, OrderAt cmp a) : OrderAt (List.compareLex cmp) as := by
  induction as with
  | nil =>
    constructor
    · intro bs
      cases bs <;> rfl
    · intro bs
      cases bs with
      | nil => exact iff_of_true List.compareLex_nil_nil rfl
      | cons b bs => exact iff_of_false (by rw [List.compareLex_nil_cons]; decide) (by simp)
    · intro bs cs hab hbc
      cases bs with
      | nil => rw [List.compareLex_nil_nil] at hab; cases hab
      | cons b bs =>
        cases cs with
        | nil => rw [List.compareLex_cons_nil] at hbc; cases hbc
        | cons c cs => rfl
  | cons a as ih =>
    have hlex := OrderAt.lex (p := (a, as)) (h a List.mem_cons_self)
      (ih fun b hb ↦ h b (List.mem_cons_of_mem _ hb))
    constructor
    · intro bs
      cases bs with
      | nil => rfl
      | cons b bs =>
        rw [List.compareLex_cons_cons, List.compareLex_cons_cons]
        exact hlex.eq_swap (b, bs)
    · intro bs
      cases bs with
      | nil => exact iff_of_false (by rw [List.compareLex_cons_nil]; decide) (by simp)
      | cons b bs =>
        rw [List.compareLex_cons_cons, List.cons.injEq, ← Prod.mk.injEq]
        exact hlex.eq_iff (b, bs)
    · intro bs cs hab hbc
      cases bs with
      | nil => rw [List.compareLex_cons_nil] at hab; cases hab
      | cons b bs =>
        cases cs with
        | nil => rw [List.compareLex_cons_nil] at hbc; cases hbc
        | cons c cs =>
          rw [List.compareLex_cons_cons] at hab hbc ⊢
          exact hlex.lt_of_lt_of_isLE (b := (b, bs)) (c := (c, cs)) hab hbc

end OrderAt
