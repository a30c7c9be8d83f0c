import Mathlib
import Sley.Lib.Outcome
import Sley.Ssmc.Types

/-!
# The order of identities

Identities are ordered by their bytes, and the ordered maps and sets of the source are keyed by
them. A `BTreeMap` is an extensional tree map here: **two maps with the same lookups are equal**, so
nothing depends on the order in which they were filled.
-/

namespace Sley.Ssmc

open Std.DTreeMap.Internal.Impl (foldr_eq_foldr values)
open Std.DTreeMap.Internal.Impl.Const (toList)

variable {kind : IdKind}

instance : Ord (Id kind) := ⟨fun a b ↦ compare a.bytes b.bytes⟩

instance : Std.TransOrd (Id kind) where
  eq_swap {a b} := show compare a.bytes b.bytes = (compare b.bytes a.bytes).swap from
    Std.OrientedCmp.eq_swap
  isLE_trans {a _ c} hab hbc := show (compare a.bytes c.bytes).isLE from
    Std.TransCmp.isLE_trans hab hbc

instance : Std.LawfulEqOrd (Id kind) where
  eq_of_compare {a b} h := by
    obtain ⟨bytes, hlen⟩ := a
    obtain ⟨bytes', hlen'⟩ := b
    obtain rfl : bytes = bytes' := Std.LawfulEqCmp.eq_of_compare h
    rfl

/-- `BTreeMap<EntityId, _>`. -/
abbrev EntityMap (ν : Type) := Std.ExtTreeMap EntityId ν

/-- `BTreeSet<EntityId>`. -/
abbrev EntitySet := Std.ExtTreeSet EntityId

namespace EntityMap

variable {ν : Type} {m : EntityMap ν} {id other : EntityId} {v : ν}

theorem getElem?_insert_eq : (m.insert id v)[other]? = if other = id then some v else m[other]? := by
  rw [Std.ExtTreeMap.getElem?_insert]
  simp only [Std.LawfulEqCmp.compare_eq_iff_eq, eq_comm (a := other)]

theorem getElem?_erase_eq : (m.erase id)[other]? = if other = id then none else m[other]? := by
  rw [Std.ExtTreeMap.getElem?_erase]
  simp only [Std.LawfulEqCmp.compare_eq_iff_eq, eq_comm (a := other)]

theorem mem_iff_exists : id ∈ m ↔ ∃ v, m[id]? = some v := by
  rw [Std.ExtTreeMap.mem_iff_isSome_getElem?, Option.isSome_iff_exists]

theorem not_mem_iff : id ∉ m ↔ m[id]? = none := by
  rw [Std.ExtTreeMap.mem_iff_isSome_getElem?, Bool.not_eq_true, Option.isSome_eq_false_iff,
    Option.isNone_iff_eq_none]

theorem mem_insert_iff : other ∈ m.insert id v ↔ other = id ∨ other ∈ m := by
  rw [Std.ExtTreeMap.mem_insert, Std.LawfulEqCmp.compare_eq_iff_eq, eq_comm]

/-- `into_values`, in the order of the keys. -/
def intoValues (m : EntityMap ν) : List ν := m.toList.map Prod.snd

theorem mem_intoValues_iff : v ∈ m.intoValues ↔ ∃ id : EntityId, m[id]? = some v := by
  simp only [intoValues, List.mem_map, Prod.exists, exists_eq_right,
    Std.ExtTreeMap.mem_toList_iff_getElem?_eq_some]

/-- The values are those of the entries, in order. -/
theorem values_eq (m : EntityMap ν) : m.values = m.intoValues := by
  obtain ⟨m⟩ := m
  obtain ⟨m⟩ := m
  induction m using Quotient.ind with
  | _ m =>
    show m.inner.values = (toList m.inner).map Prod.snd
    rw [values, toList, foldr_eq_foldr, foldr_eq_foldr]
    induction m.inner.toListModel with
    | nil => rfl
    | cons p ps ih => rw [List.foldr_cons, List.foldr_cons, List.map_cons, ih]

/-- Values that carry their key come out in its order. -/
theorem sorted_intoValues {key : ν → EntityId}
    (h : ∀ {id : EntityId} {v : ν}, m[id]? = some v → key v = id) :
    (m.intoValues.map key).Pairwise (compare · · = .lt) := by
  have hkeys : m.intoValues.map key = m.toList.map Prod.fst := by
    rw [intoValues, List.map_map]
    refine List.map_congr_left fun p hp ↦ ?_
    exact h (Std.ExtTreeMap.mem_toList_iff_getElem?_eq_some.1 hp)
  rw [hkeys, List.pairwise_map]
  exact Std.ExtTreeMap.ordered_keys_toList

/-- `collect` into a map; a later entry of one key replaces an earlier one. -/
def ofEntries (entries : List (EntityId × ν)) : EntityMap ν := Std.ExtTreeMap.ofList entries

variable {entries : List (EntityId × ν)}

/-- A list with distinct keys is looked up as it stands. -/
theorem getElem?_ofEntries (h : (entries.map Prod.fst).Nodup) :
    (ofEntries entries)[id]? = some v ↔ (id, v) ∈ entries := by
  have hdistinct : entries.Pairwise fun a b ↦ ¬ compare a.1 b.1 = .eq :=
    (List.pairwise_map.1 h).imp fun hne heq ↦ hne (Std.LawfulEqCmp.eq_of_compare heq)
  constructor
  · intro hlookup
    have hmem : id ∈ ofEntries entries := by
      rw [mem_iff_exists]
      exact ⟨v, hlookup⟩
    rw [ofEntries, Std.ExtTreeMap.mem_ofList, List.contains_iff_mem] at hmem
    obtain ⟨⟨_, w⟩, hw, rfl⟩ := List.mem_map.1 hmem
    have hfound : (ofEntries entries)[_]? = some w :=
      Std.ExtTreeMap.getElem?_ofList_of_mem Std.ReflCmp.compare_self hdistinct hw
    rw [hlookup] at hfound
    rwa [Option.some.inj hfound]
  · intro hmem
    exact Std.ExtTreeMap.getElem?_ofList_of_mem Std.ReflCmp.compare_self hdistinct hmem

/-- Distinct keys are at most as many as the map has. -/
theorem length_le_size {ids : List EntityId} (hnodup : ids.Nodup) (h : ∀ id ∈ ids, id ∈ m) :
    ids.length ≤ m.size := by
  rw [← Std.ExtTreeMap.length_keys]
  exact (hnodup.subperm fun id hid ↦ Std.ExtTreeMap.mem_keys.2 (h id hid)).length_le

theorem mem_ofEntries : id ∈ ofEntries entries ↔ id ∈ entries.map Prod.fst := by
  rw [ofEntries, Std.ExtTreeMap.mem_ofList, List.contains_iff_mem]

end EntityMap

namespace EntitySet

variable {s : EntitySet} {id other : EntityId}

theorem mem_insert_iff : other ∈ s.insert id ↔ other = id ∨ other ∈ s := by
  rw [Std.ExtTreeSet.mem_insert, Std.LawfulEqCmp.compare_eq_iff_eq, eq_comm]

/-- `collect` into a set. -/
def ofIds (ids : List EntityId) : EntitySet := Std.ExtTreeSet.ofList ids

variable {ids : List EntityId}

theorem mem_ofIds : id ∈ ofIds ids ↔ id ∈ ids := by
  rw [ofIds, Std.ExtTreeSet.mem_ofList, List.contains_iff_mem]

theorem sorted_toList (s : EntitySet) : s.toList.Pairwise (compare · · = .lt) :=
  Std.ExtTreeSet.ordered_toList

theorem nodup_toList (s : EntitySet) : s.toList.Nodup :=
  s.sorted_toList.imp fun hlt heq ↦ by simp [heq] at hlt

theorem mem_erase_iff : other ∈ s.erase id ↔ other ≠ id ∧ other ∈ s := by
  rw [Std.ExtTreeSet.mem_erase, ne_eq, Std.LawfulEqCmp.compare_eq_iff_eq, eq_comm]

theorem mem_foldl_erase {set : EntitySet} {id : EntityId} :
    id ∈ ids.foldl (fun set id ↦ set.erase id) set ↔ id ∈ set ∧ id ∉ ids := by
  induction ids generalizing set with
  | nil => simp
  | cons first ids ih =>
    rw [List.foldl_cons, ih, mem_erase_iff, List.mem_cons, not_or]
    tauto

theorem mem_foldl_insert {set : EntitySet} {id : EntityId} :
    id ∈ ids.foldl (fun set id ↦ set.insert id) set ↔ id ∈ set ∨ id ∈ ids := by
  rw [List.foldl_collects (P := fun (set : EntitySet) id ↦ id ∈ set)
    (Q := fun (added id : EntityId) ↦ id = added) fun set added id ↦ ?_]
  · simp
  · rw [mem_insert_iff, or_comm]

end EntitySet

end Sley.Ssmc
