import Mathlib
import Sley.Lib.Outcome

/-!
# A cursor over a list

An input that never changes and a position in it: the state of every strict reader. The position
carries its bound as a field, so a cursor cannot point past its input.

**Consumption is a relation**, `Cursor.Consumes c xs c'`: reading from `c` the items `xs` ends in
`c'`. It composes along appends (`Consumes.trans`), its end is determined by its start and the
items read (`Consumes.unique`), and it exists exactly when the items are the next ones of the input
(`exists_consumes_iff`). Specifications of readers are stated with it, so a reader made of smaller
ones is specified by transitivity and never by index arithmetic.
-/

/-- An input together with a position inside it. -/
structure Cursor (α : Type*) where
  input : List α
  position : Nat
  position_le : position ≤ input.length

namespace Cursor

variable {α : Type*}

/-- A cursor at the start of `input`. -/
def new (input : List α) : Cursor α := ⟨input, 0, Nat.zero_le _⟩

/-- What has not been read yet. -/
def rest (c : Cursor α) : List α := c.input.drop c.position

/-- How much has not been read yet. -/
def remaining (c : Cursor α) : Nat := c.input.length - c.position

/-- All of the input has been read. -/
def isFinished (c : Cursor α) : Bool := c.position == c.input.length

/-- Read exactly `n` items, if there are that many. -/
def take? (c : Cursor α) (n : Nat) : Option (List α × Cursor α) :=
  if h : c.position + n ≤ c.input.length then
    some ((c.input.drop c.position).take n, ⟨c.input, c.position + n, h⟩)
  else
    none

/-- Reading the items `xs` from `c` ends in `c'`. -/
structure Consumes (c : Cursor α) (xs : List α) (c' : Cursor α) : Prop where
  input_eq : c'.input = c.input
  position_eq : c'.position = c.position + xs.length
  rest_eq : c.rest = xs ++ c'.rest

@[simp]
theorem new_rest (input : List α) : (new input).rest = input := by
  simp [new, rest]

theorem length_rest (c : Cursor α) : c.rest.length = c.input.length - c.position := by
  simp [rest]

theorem remaining_eq (c : Cursor α) : c.remaining = c.rest.length := (length_rest c).symm

@[ext]
theorem ext {c d : Cursor α} (hi : c.input = d.input) (hp : c.position = d.position) : c = d := by
  cases c
  cases d
  simp_all

theorem isFinished_iff {c : Cursor α} : c.isFinished = true ↔ c.rest = [] := by
  have := c.position_le
  rw [isFinished, beq_iff_eq, rest, List.drop_eq_nil_iff]
  omega

namespace Consumes

variable {c c' c'' d : Cursor α} {xs ys : List α}

theorem refl (c : Cursor α) : c.Consumes [] c := ⟨rfl, rfl, rfl⟩

theorem trans (h : c.Consumes xs c') (h' : c'.Consumes ys c'') : c.Consumes (xs ++ ys) c'' where
  input_eq := h'.input_eq.trans h.input_eq
  position_eq := by rw [h'.position_eq, h.position_eq, List.length_append, Nat.add_assoc]
  rest_eq := by rw [h.rest_eq, h'.rest_eq, List.append_assoc]

/-- The end of a read is determined by its start and by how much was read. -/
theorem unique (h : c.Consumes xs c') (h' : c.Consumes xs d) : c' = d :=
  Cursor.ext (h.input_eq.trans h'.input_eq.symm) (h.position_eq.trans h'.position_eq.symm)

theorem length_le (h : c.Consumes xs c') : xs.length ≤ c.rest.length := by
  rw [h.rest_eq, List.length_append]
  omega

end Consumes

/-- Skip `xs`, given that it comes next. -/
theorem exists_consumes_of_rest {c : Cursor α} {xs ys : List α} (h : c.rest = xs ++ ys) :
    ∃ c', c.Consumes xs c' ∧ c'.rest = ys := by
  have hlen : c.position + xs.length ≤ c.input.length := by
    have := congrArg List.length h
    rw [length_rest, List.length_append] at this
    have := c.position_le
    omega
  have hrest : c.input.drop (c.position + xs.length) = ys := by
    rw [← List.drop_drop]
    show c.rest.drop xs.length = ys
    rw [h, List.drop_left]
  exact ⟨⟨c.input, c.position + xs.length, hlen⟩, ⟨rfl, rfl, by rw [h, rest, hrest]⟩, hrest⟩

/-- A read of a composite splits at any point of it. -/
theorem Consumes.split {c c'' : Cursor α} {xs ys : List α} (h : c.Consumes (xs ++ ys) c'') :
    ∃ c', c.Consumes xs c' ∧ c'.Consumes ys c'' := by
  obtain ⟨c', hc, hrest⟩ := exists_consumes_of_rest
    (show c.rest = xs ++ (ys ++ c''.rest) by rw [h.rest_eq, List.append_assoc])
  refine ⟨c', hc, h.input_eq.trans hc.input_eq.symm, ?_, hrest⟩
  rw [h.position_eq, hc.position_eq, List.length_append, Nat.add_assoc]

theorem consumes_append_iff {c c'' : Cursor α} {xs ys : List α} :
    c.Consumes (xs ++ ys) c'' ↔ ∃ c', c.Consumes xs c' ∧ c'.Consumes ys c'' :=
  ⟨Consumes.split, fun ⟨_, h, h'⟩ ↦ h.trans h'⟩

/-- **`take?` reads what comes next**, and nothing else. -/
theorem take?_eq_some_iff {c c' : Cursor α} {n : Nat} {xs : List α} :
    c.take? n = some (xs, c') ↔ xs.length = n ∧ c.Consumes xs c' := by
  unfold take?
  split
  · rename_i hle
    have hlen : ((c.input.drop c.position).take n).length = n := by
      simp
      omega
    have hcons : c.Consumes ((c.input.drop c.position).take n) ⟨c.input, c.position + n, hle⟩ := by
      refine ⟨rfl, by rw [hlen], ?_⟩
      show c.input.drop c.position = _ ++ c.input.drop (c.position + n)
      rw [← List.drop_drop, List.take_append_drop]
    constructor
    · intro h
      obtain ⟨rfl, rfl⟩ := Prod.mk.inj (Option.some.inj h)
      exact ⟨hlen, hcons⟩
    · rintro ⟨hn, h⟩
      -- both reads start at `c` and are `n` long, so they read the same items
      have hxs : (c.input.drop c.position).take n = xs := by
        have : c.rest.take n = xs := by rw [h.rest_eq, ← hn, List.take_left]
        exact this
      rw [hxs] at hcons ⊢
      rw [hcons.unique h]
  · rename_i hle
    constructor
    · intro h
      cases h
    · rintro ⟨hn, h⟩
      have hle := h.length_le
      rw [length_rest] at hle
      have := c.position_le
      omega

end Cursor
