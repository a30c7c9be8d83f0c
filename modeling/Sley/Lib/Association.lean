import Mathlib

/-!
# Lists as finite maps

A list whose items have keys is a partial function of the keys: a key has the first item that has
it. Where no key repeats, **the function does not depend on the order of the list**, and taking a key
out or putting an item in updates it at that key alone.
-/

section Association

variable {α κ : Type*} [DecidableEq κ] {key : α → κ} {xs ys : List α} {a : α} {x : κ}

/-- What a list holds under a key. -/
def heldUnder (key : α → κ) (xs : List α) (x : κ) : Option α := xs.find? (key · = x)

theorem heldUnder_eq_none_iff : heldUnder key xs x = none ↔ ∀ a ∈ xs, key a ≠ x := by
  simp [heldUnder]

theorem heldUnder_eq_some_iff (h : (xs.map key).Nodup) :
    heldUnder key xs x = some a ↔ a ∈ xs ∧ key a = x := by
  constructor
  · intro hfound
    exact ⟨List.mem_of_find?_eq_some hfound, by simpa using List.find?_some hfound⟩
  · rintro ⟨ha, rfl⟩
    have hsome : heldUnder key xs (key a) ≠ none := fun hnone ↦
      heldUnder_eq_none_iff.1 hnone a ha rfl
    obtain ⟨b, hb⟩ := Option.ne_none_iff_exists'.1 hsome
    have hkey : key b = key a := by simpa using List.find?_some hb
    rw [hb, List.inj_on_of_nodup_map h (List.mem_of_find?_eq_some hb) ha hkey]

/-- **The order does not matter** where no key repeats. -/
theorem heldUnder_perm (h : (xs.map key).Nodup) (hperm : xs.Perm ys) :
    heldUnder key xs = heldUnder key ys := by
  funext x
  refine Option.ext fun a ↦ ?_
  rw [heldUnder_eq_some_iff h, heldUnder_eq_some_iff ((hperm.map key).nodup_iff.1 h), hperm.mem_iff]

theorem heldUnder_append :
    heldUnder key (xs ++ ys) x = (heldUnder key xs x).or (heldUnder key ys x) :=
  List.find?_append

/-- Taking a key out leaves the others. -/
theorem heldUnder_filter_ne :
    heldUnder key (xs.filter (key · ≠ x)) = Function.update (heldUnder key xs) x none := by
  funext y
  rw [heldUnder, List.find?_filter]
  by_cases hy : y = x
  · subst hy
    rw [Function.update_self]
    simp
  · rw [Function.update_of_ne hy]
    refine congrArg (xs.find? ·) (funext fun b ↦ ?_)
    by_cases hb : key b = y
    · simp [hb, hy]
    · simp [hb]

/-- Putting an item in the place of those with its key leaves the others. -/
theorem heldUnder_put (ha : key a = x) : heldUnder key (xs.filter (key · ≠ x) ++ [a]) =
    Function.update (heldUnder key xs) x (some a) := by
  funext y
  rw [heldUnder_append, heldUnder_filter_ne]
  by_cases hy : y = x
  · subst hy
    rw [Function.update_self, Function.update_self, Option.none_or]
    simp [heldUnder, ha]
  · have hne : ¬ x = y := fun h ↦ hy h.symm
    rw [Function.update_of_ne hy, Function.update_of_ne hy]
    simp [heldUnder, ha, hne]

end Association
