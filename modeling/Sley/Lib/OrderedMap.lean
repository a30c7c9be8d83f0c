import Mathlib

/-!
# Ordered maps and sets by their lookups

The extensional tree maps and sets of the standard library compare keys with `compare`. Where the
order is lawful this is equality, and **every update is described by what it does to lookups**, with
an `if` on equality of keys. Pairs are ordered lexicographically.
-/

variable {κ κ' ν : Type*}

instance prodOrd [Ord κ] [Ord κ'] : Ord (κ × κ') := lexOrd

instance prodTransOrd [Ord κ] [Ord κ'] [Std.TransOrd κ] [Std.TransOrd κ'] :
    Std.TransOrd (κ × κ') :=
  inferInstanceAs (Std.TransCmp (compareLex (compareOn Prod.fst) (compareOn Prod.snd)))

instance prodLawfulEqOrd [Ord κ] [Ord κ'] [Std.LawfulEqOrd κ] [Std.LawfulEqOrd κ'] :
    Std.LawfulEqOrd (κ × κ') where
  compare_self {a} := Ordering.then_eq_eq.2
    ⟨Std.ReflCmp.compare_self (a := a.1), Std.ReflCmp.compare_self (a := a.2)⟩
  eq_of_compare {a b} h := by
    obtain ⟨hfst, hsnd⟩ := Ordering.then_eq_eq.1
      (show (compare a.1 b.1).then (compare a.2 b.2) = .eq from h)
    exact Prod.ext (Std.LawfulEqCmp.eq_of_compare hfst) (Std.LawfulEqCmp.eq_of_compare hsnd)

variable [Ord κ] [Std.TransOrd κ] [Std.LawfulEqOrd κ]

namespace OrderedMap

variable [DecidableEq κ] {m : Std.ExtTreeMap κ ν} {k other : κ} {v : ν}

theorem getElem?_insert : (m.insert k v)[other]? = if other = k then some v else m[other]? := by
  rw [Std.ExtTreeMap.getElem?_insert]
  simp only [Std.LawfulEqCmp.compare_eq_iff_eq, eq_comm (a := other)]

theorem getElem?_erase : (m.erase k)[other]? = if other = k then none else m[other]? := by
  rw [Std.ExtTreeMap.getElem?_erase]
  simp only [Std.LawfulEqCmp.compare_eq_iff_eq, eq_comm (a := other)]

section

omit [Std.LawfulEqOrd κ] [DecidableEq κ]

theorem mem_iff_exists : k ∈ m ↔ ∃ v, m[k]? = some v := by
  rw [Std.ExtTreeMap.mem_iff_isSome_getElem?, Option.isSome_iff_exists]

theorem not_mem_iff : k ∉ m ↔ m[k]? = none := by
  rw [Std.ExtTreeMap.mem_iff_isSome_getElem?, Bool.not_eq_true, Option.isSome_eq_false_iff,
    Option.isNone_iff_eq_none]

end

end OrderedMap

namespace OrderedSet

variable {s : Std.ExtTreeSet κ} {k other : κ}

theorem mem_insert : other ∈ s.insert k ↔ other = k ∨ other ∈ s := by
  rw [Std.ExtTreeSet.mem_insert, Std.LawfulEqCmp.compare_eq_iff_eq, eq_comm]

theorem mem_erase : other ∈ s.erase k ↔ other ≠ k ∧ other ∈ s := by
  rw [Std.ExtTreeSet.mem_erase, ne_eq, Std.LawfulEqCmp.compare_eq_iff_eq, eq_comm]

end OrderedSet
