import Mathlib

/-!
# Sorting by a key that must not repeat

Canonical collections are built in one way everywhere: sort the input by a key, and refuse it when
two neighbours have the same key. **The result is characterised without the algorithm**: it is the
one arrangement of the input whose keys ascend strictly (`sortUnique_eq_some`). Hence it does not
depend on the order of the input, and a list that already ascends is left as it is.
-/

section SortUnique

variable {α κ : Type*} [Ord κ] {key : α → κ} {xs xs' ys : List α}

/-- The keys ascend strictly. -/
def Ascends (key : α → κ) (xs : List α) : Prop :=
  xs.Pairwise fun a b ↦ compare (key a) (key b) = .lt

/-- Sort by `key`; nothing when two neighbours then have one key. -/
def sortUnique [DecidableEq κ] (key : α → κ) (xs : List α) : Option (List α) :=
  let sorted := xs.mergeSort fun a b ↦ (compare (key a) (key b)).isLE
  if sorted.IsChain fun a b ↦ key a ≠ key b then some sorted else none

variable [Std.TransOrd κ]

/-- What sorting by a key leaves is sorted by it. -/
theorem pairwise_mergeSort_key (key : α → κ) (xs : List α) :
    (xs.mergeSort fun a b ↦ (compare (key a) (key b)).isLE).Pairwise
      fun a b ↦ (compare (key a) (key b)).isLE := by
  refine List.pairwise_mergeSort (fun a b c ↦ Std.TransCmp.isLE_trans) (fun a b ↦ ?_) xs
  rw [Std.OrientedOrd.eq_swap (a := key b)]
  cases compare (key a) (key b) <;> rfl

/-- An ascending arrangement is determined by what it arranges. -/
theorem Ascends.eq_of_perm (h : Ascends key xs) (h' : Ascends key ys) (hperm : xs.Perm ys) :
    xs = ys := by
  refine List.Perm.eq_of_pairwise (fun a b _ _ hab hba ↦ ?_) h h' hperm
  exact (Std.OrientedCmp.not_lt_of_lt hab hba).elim

theorem Ascends.nodup_keys (h : Ascends key xs) : (xs.map key).Nodup := by
  rw [List.Nodup, List.pairwise_map]
  refine List.Pairwise.imp (fun {a b} hlt hab ↦ ?_) h
  rw [hab] at hlt
  exact Std.OrientedCmp.not_lt_of_lt hlt hlt

/-- Ascending lists are told apart by their members. -/
theorem Ascends.eq_of_mem_iff (h : Ascends key xs) (h' : Ascends key ys)
    (hmem : ∀ a, a ∈ xs ↔ a ∈ ys) : xs = ys :=
  h.eq_of_perm h' <| (List.perm_ext_iff_of_nodup (List.Nodup.of_map key h.nodup_keys)
      (List.Nodup.of_map key h'.nodup_keys)).2 hmem

/-- A list that ascends from neighbour to neighbour ascends. -/
theorem ascends_iff_isChain :
    Ascends key xs ↔ xs.IsChain fun a b ↦ compare (key a) (key b) = .lt := by
  have : IsTrans α fun a b ↦ compare (key a) (key b) = .lt :=
    ⟨fun _ _ _ hab hbc ↦ Std.TransCmp.lt_trans hab hbc⟩
  exact List.isChain_iff_pairwise.symm

variable [Std.LawfulEqOrd κ]

/-- Sorting finds the one ascending arrangement, when there is one. -/
theorem mergeSort_eq_of_ascends (hperm : ys.Perm xs) (h : Ascends key ys) :
    (xs.mergeSort fun a b ↦ (compare (key a) (key b)).isLE) = ys := by
  have hsorted := pairwise_mergeSort_key key xs
  -- neighbours with one key would be the same member, since the keys of `ys` are distinct
  refine List.Perm.eq_of_pairwise (fun a b ha hb hab hba ↦ ?_) hsorted
    (List.Pairwise.imp (fun {a b} hlt ↦ by rw [hlt]; rfl) h)
    ((List.mergeSort_perm xs _).trans hperm.symm)
  have hkey : key a = key b := Std.LawfulEqCmp.eq_of_compare (Std.OrientedCmp.isLE_antisymm hab hba)
  rw [List.mem_mergeSort, ← hperm.mem_iff] at ha
  exact List.inj_on_of_nodup_map h.nodup_keys ha hb hkey

/-- Sorting by keys that do not repeat makes them ascend. -/
theorem ascends_mergeSort (hnodup : (xs.map key).Nodup) :
    Ascends key (xs.mergeSort fun a b ↦ (compare (key a) (key b)).isLE) := by
  have hperm := List.mergeSort_perm xs fun a b ↦ (compare (key a) (key b)).isLE
  have hne := List.pairwise_map.1 ((hperm.map key).nodup_iff.2 hnodup)
  refine ((pairwise_mergeSort_key key xs).and hne).imp fun {a b} ⟨hle, hne⟩ ↦ ?_
  exact (Ordering.isLE_iff_eq_lt_or_eq_eq.1 hle).resolve_right fun heq ↦
    hne (Std.LawfulEqCmp.eq_of_compare heq)

/-- **The sorted list is the one ascending arrangement of the input.** -/
theorem sortUnique_eq_some [DecidableEq κ] :
    sortUnique key xs = some ys ↔ ys.Perm xs ∧ Ascends key ys := by
  constructor
  · intro h
    simp only [sortUnique, Option.ite_none_right_eq_some, Option.some.injEq] at h
    obtain ⟨hchain, rfl⟩ := h
    refine ⟨List.mergeSort_perm _ _, ascends_iff_isChain.2 ?_⟩
    rw [List.isChain_iff_getElem] at hchain ⊢
    intro i hi
    have hle := List.pairwise_iff_getElem.1 (pairwise_mergeSort_key key xs) i (i + 1) (by omega) hi
      (by omega)
    refine Ordering.isLE_iff_eq_lt_or_eq_eq.1 hle |>.resolve_right fun heq ↦ ?_
    exact hchain i hi (Std.LawfulEqCmp.eq_of_compare heq)
  · intro ⟨hperm, hasc⟩
    rw [sortUnique, mergeSort_eq_of_ascends hperm hasc, if_pos]
    refine (ascends_iff_isChain.1 hasc).imp fun a b hlt hab ↦ ?_
    rw [hab] at hlt
    exact Std.OrientedCmp.not_lt_of_lt hlt hlt

/-- The order of the input does not matter. -/
theorem sortUnique_congr [DecidableEq κ] (h : xs.Perm xs') :
    sortUnique key xs = sortUnique key xs' := by
  ext ys
  rw [sortUnique_eq_some, sortUnique_eq_some]
  exact and_congr_left fun _ ↦ ⟨fun hys ↦ hys.trans h, fun hys ↦ hys.trans h.symm⟩

/-- Keys that do not repeat can be sorted, and no others. -/
theorem sortUnique_eq_none_iff [DecidableEq κ] :
    sortUnique key xs = none ↔ ¬ (xs.map key).Nodup := by
  rw [Option.eq_none_iff_forall_ne_some, ← not_exists_not, not_iff_not]
  simp only [ne_eq, not_not]
  constructor
  · rintro ⟨ys, hys⟩
    obtain ⟨hperm, hasc⟩ := sortUnique_eq_some.1 hys
    exact (hperm.map key).nodup_iff.1 hasc.nodup_keys
  · intro hnodup
    exact ⟨_, sortUnique_eq_some.2 ⟨List.mergeSort_perm _ _, ascends_mergeSort hnodup⟩⟩

end SortUnique

section SortDedup

variable {α : Type*} [DecidableEq α] {a b : α} {xs : List α}

theorem mem_destutter'_ne_iff : a ∈ xs.destutter' (· ≠ ·) b ↔ a = b ∨ a ∈ xs := by
  induction xs generalizing b with
  | nil => rw [List.destutter'_nil, List.mem_singleton, List.mem_nil_iff, or_false]
  | cons c xs ih =>
    rw [List.destutter'_cons, List.mem_cons]
    split
    · rw [List.mem_cons, ih]
    · rename_i hbc
      rw [ih, not_not.1 hbc, ← or_assoc, or_self]

/-- Dropping repetitions keeps the members. -/
theorem mem_destutter_ne_iff : a ∈ xs.destutter (· ≠ ·) ↔ a ∈ xs := by
  cases xs with
  | nil => rfl
  | cons b xs => rw [List.destutter_cons', mem_destutter'_ne_iff, List.mem_cons]

end SortDedup
