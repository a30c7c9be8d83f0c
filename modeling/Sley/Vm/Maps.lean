import Sley.Check.Constants
import Sley.Lib.Association
import Sley.Mutate.ConstNested
import Sley.Vm.NestedValues
import Sley.Vm.OwnedAgrees

/-!
# Maps at run time

A map is a list of entries in the order of the canonical bytes of its keys. The five instructions on
maps are those of a finite map from such bytes to values (`MapLaw`), and what they produce has its
entries in strict order again, as has every map inside of it (`Canonical`). The values that a
program begins with have this order from the codec: **a constant with a canonical encoding is
canonical at every depth** (`canonical_of_requireCanonicalEncoding`). The judgment on types does not
look at the order, and a map out of order makes the search by halving miss its keys
(`mapOperations_outOfOrder`).
-/

namespace Sley.Vm

open Ssmc UInt64 Action Operation Mutate Mutate.ConstEncoding
open Scb1 (Bytes)
open List (mem_append mem_cons mem_cons_of_mem mem_cons_self mem_flatMap mem_map mem_map_of_mem
  mem_singleton)
open Prod (fst snd)
open Layout (children)
open Function (update update_apply)
open Option (bind_eq_some_iff mem_toList)

/-! ### Every map inside of a value -/

/-- A value is nested in another one, or is it. -/
def Within (part value : ConstValue) : Prop :=
  Relation.ReflTransGen (fun value part ↦ part ∈ nestedValues value) value part

/-- Every map inside of a value is in canonical order. -/
def Canonical (value : ConstValue) : Prop := ∀ part, Within part value → CanonicalMap part

variable {value : ConstValue}

theorem canonical_iff :
    Canonical value ↔ CanonicalMap value ∧ ∀ part ∈ nestedValues value, Canonical part := by
  constructor
  · intro h
    exact ⟨h value .refl, fun part hpart deep hdeep ↦ h deep (.head hpart hdeep)⟩
  · rintro ⟨hvalue, hparts⟩ part hpart
    obtain rfl | ⟨next, hnext, hpart⟩ := Relation.ReflTransGen.cases_head hpart
    · exact hvalue
    · exact hparts next hnext part hpart

theorem Canonical.nested {value part : ConstValue} (h : Canonical value)
    (hpart : part ∈ nestedValues value) : Canonical part :=
  (canonical_iff.1 h).2 part hpart

/-- A value that is no map is canonical with its parts. -/
theorem canonical_of_nested (hmap : mapEntries value = none)
    (h : ∀ part ∈ nestedValues value, Canonical part) : Canonical value :=
  canonical_iff.2 ⟨fun entries hentries ↦ by simp [hmap] at hentries, h⟩

/-- `require_canonical_encoding`: the complete canonical measurement of the codec succeeds. -/
def requireCanonicalEncoding (value : ConstValue) : Option Unit :=
  (measure (.value value) 0).toOption.map fun _ ↦ ()

theorem requireCanonicalEncoding_eq_some :
    requireCanonicalEncoding value = some () ↔ Encodes (.value value) := by
  rw [requireCanonicalEncoding, Encodes]
  cases hmeasure : measure (.value value) 0 with
  | error e =>
    refine ⟨nofun, fun ⟨bs, hbs⟩ ↦ ?_⟩
    have hok := measure_eq_ok.2 ⟨bs, hbs, rfl⟩
    rw [hmeasure] at hok
    cases hok
  | ok n =>
    obtain ⟨bs, hbs, -⟩ := measure_eq_ok.1 hmeasure
    exact ⟨fun _ ↦ ⟨bs, hbs⟩, fun _ ↦ rfl⟩

theorem Encodes.nested {value part : ConstValue} (h : Encodes (.value value))
    (hpart : part ∈ nestedValues value) : Encodes (.value part) := by
  obtain ⟨valueType, data⟩ := value
  cases data with
  | sequence values =>
    exact (h.payload rfl).item (mem_map_of_mem hpart)
  | record record =>
    obtain ⟨field, hfield, rfl⟩ := mem_map.1 hpart
    have hfields : Encodes (.sequence (.fields record.fields)) :=
      (h.payload rfl).of_child rfl (by simp [children])
    exact (hfields.item (mem_map_of_mem hfield)).of_child rfl (by simp [children])
  | variant variant =>
    have hoption : Encodes (.option variant.payload) :=
      (h.payload rfl).of_child rfl (by simp [children])
    have hsome := mem_toList.1 hpart
    exact hoption.of_child rfl (by simp [children, hsome])
  | map entries =>
    obtain ⟨entry, hentry, hpart⟩ := mem_flatMap.1 hpart
    have hnode : Encodes (.entry entry) := (h.payload rfl).item (mem_map_of_mem hentry)
    obtain rfl | hpart := mem_cons.1 hpart
    · exact hnode.of_child rfl (by simp [children])
    · obtain rfl := mem_singleton.1 hpart
      exact hnode.of_child rfl (by simp [children])
  | option payload =>
    have hsome := mem_toList.1 hpart
    exact (h.payload rfl).of_child rfl (by simp [children, hsome])
  | result result =>
    cases result with
    | ok held =>
      obtain rfl := mem_singleton.1 hpart
      exact (h.payload rfl).of_child rfl (by simp [children, resultPayload])
    | err held =>
      obtain rfl := mem_singleton.1 hpart
      exact (h.payload rfl).of_child rfl (by simp [children, resultPayload])
  | _ => cases hpart

theorem Encodes.canonicalMap (h : Encodes (.value value)) : CanonicalMap value := by
  intro entries hentries
  obtain ⟨valueType, data⟩ := value
  cases data with
  | map held =>
    obtain rfl := Option.some.inj hentries
    obtain ⟨ks, hks, hasc⟩ := (h.payload rfl).ordered
    refine ⟨ks.zip held, keyedEntries_eq_some.2 ⟨?_, ?_⟩, ?_⟩
    · exact List.map_snd_zip (by rw [hks.length_eq])
    · intro pair hpair
      have hwire := List.forall₂_zip hks.flip hpair
      exact keyBytes_eq_some.2 (encode_eq_ok.2 hwire)
    · have hkeys : (ks.zip held).map fst = ks := List.map_fst_zip (by rw [hks.length_eq])
      rw [Ascending, ← hkeys, List.isChain_map] at hasc
      exact ascends_iff_isChain.2 hasc
  | _ => cases hentries

/-- **A constant with a canonical encoding is canonical at every depth.** -/
theorem canonical_of_requireCanonicalEncoding
    (h : requireCanonicalEncoding value = some ()) : Canonical value := by
  intro part hpart
  have hencodes : Encodes (.value part) := by
    induction hpart with
    | refl => exact requireCanonicalEncoding_eq_some.1 h
    | tail _ hpart ih => exact Encodes.nested ih hpart
  exact Encodes.canonicalMap hencodes

/-! ### What a map holds -/

theorem canonical_map_iff {valueType : TypeExpr} {entries : List MapEntryConst} :
    Canonical ⟨valueType, .map entries⟩ ↔
      CanonicalEntries entries ∧ ∀ entry ∈ entries, Canonical entry.key ∧ Canonical entry.value := by
  have hmap : CanonicalMap ⟨valueType, .map entries⟩ ↔ CanonicalEntries entries :=
    ⟨fun h ↦ h entries rfl, fun h _ hentries ↦ Option.some.inj hentries ▸ h⟩
  rw [canonical_iff, hmap]
  refine and_congr_right fun _ ↦ ⟨fun h entry hentry ↦ ?_, fun h part hpart ↦ ?_⟩
  · exact ⟨h _ (mem_flatMap.2 ⟨entry, hentry, mem_cons_self⟩),
      h _ (mem_flatMap.2 ⟨entry, hentry, mem_cons_of_mem _ mem_cons_self⟩)⟩
  · obtain ⟨entry, hentry, hpart⟩ := mem_flatMap.1 hpart
    obtain rfl | hpart := mem_cons.1 hpart
    · exact (h entry hentry).1
    · obtain rfl := mem_singleton.1 hpart
      exact (h entry hentry).2

/-- The value under the bytes of a key. -/
def contents (entries : List MapEntryConst) (query : Bytes) : Option ConstValue :=
  ((keyedEntries entries).bind fun keyed ↦ heldUnder fst keyed query).map (·.2.value)

section Contents

variable {entries entries' sorted : List MapEntryConst} {keyed : List (Bytes × MapEntryConst)}
  {query : Bytes} {entry : MapEntryConst} {value : ConstValue}

theorem contents_eq (hkeyed : keyedEntries entries = some keyed) :
    contents entries = fun query ↦ (heldUnder fst keyed query).map (·.2.value) := by
  funext query
  rw [contents, hkeyed, Option.bind_some]

theorem map_update {κ α β : Type} [DecidableEq κ] {f : κ → Option α} {x : κ} {v : Option α}
    {g : α → β} : (fun y ↦ (update f x v y).map g) = update (fun y ↦ (f y).map g) x (v.map g) := by
  funext y
  rw [update_apply, update_apply]
  split_ifs <;> rfl

section

variable (hkeyed : keyedEntries entries = some keyed)

include hkeyed

/-- Sorting entries whose keys have different bytes gives the canonical map that holds the same. -/
theorem canonicalEntries_of_sortedMap
    (hnodup : (keyed.map fst).Nodup) (h : sortedMap entries = some sorted) :
    CanonicalEntries sorted ∧ contents sorted = contents entries ∧ sorted.Perm entries := by
  obtain ⟨rfl, hall⟩ := keyedEntries_eq_some.1 hkeyed
  rw [sortedMap, hkeyed] at h
  obtain rfl := Option.some.inj h
  have hperm := List.mergeSort_perm keyed fun left right ↦ (compare left.1 right.1).isLE
  have hasc : Ascends fst (keyed.mergeSort fun left right ↦ (compare left.1 right.1).isLE) :=
    ascends_mergeSort hnodup
  have hsorted := keyedEntries_eq_some.2
    ⟨rfl, fun pair hpair ↦ hall pair (hperm.mem_iff.1 hpair)⟩
  refine ⟨⟨_, hsorted, hasc⟩, ?_, hperm.map _⟩
  rw [contents_eq hsorted, contents_eq hkeyed, heldUnder_perm hasc.nodup_keys hperm]

theorem keyedEntries_filter : keyedEntries ((keyed.filter (·.1 ≠ query)).map snd) =
      some (keyed.filter (·.1 ≠ query)) := by
  obtain ⟨-, hall⟩ := keyedEntries_eq_some.1 hkeyed
  exact keyedEntries_eq_some.2 ⟨rfl, fun pair hpair ↦ hall pair (List.mem_of_mem_filter hpair)⟩

theorem keyedEntries_put (hquery : keyBytes entry.key = some query) :
    keyedEntries ((keyed.filter (·.1 ≠ query)).map snd ++ [entry]) =
      some (keyed.filter (·.1 ≠ query) ++ [(query, entry)]) := by
  obtain ⟨-, hall⟩ := keyedEntries_eq_some.1 hkeyed
  refine keyedEntries_eq_some.2 ⟨by rw [List.map_append]; rfl, fun pair hpair ↦ ?_⟩
  obtain hpair | hpair := mem_append.1 hpair
  · exact hall pair (List.mem_of_mem_filter hpair)
  · obtain rfl := mem_singleton.1 hpair
    exact hquery

end

theorem nodup_filter (hnodup : (keyed.map fst).Nodup) :
    ((keyed.filter (·.1 ≠ query)).map fst).Nodup :=
  hnodup.sublist (List.filter_sublist.map _)

theorem nodup_put (hnodup : (keyed.map fst).Nodup) :
    ((keyed.filter (·.1 ≠ query) ++ [(query, entry)]).map fst).Nodup := by
  rw [List.map_append, List.map_singleton]
  refine List.nodup_append.2 ⟨nodup_filter hnodup, List.pairwise_singleton _ _, ?_⟩
  rintro a ha b hb rfl
  obtain ⟨pair, hpair, rfl⟩ := mem_map.1 ha
  exact of_decide_eq_true (List.mem_filter.1 hpair).2 (mem_singleton.1 hb)

end Contents

/-! ### The laws of the operations -/

/-- The five instructions on maps. -/
def isMapOperation : Opcode → Bool
  | .mapNew | .mapGet | .mapContains | .mapInsert | .mapRemove => true
  | _ => false

/-- The operands of `map_new` as pairs, by the bytes of their keys. -/
def pairsOf : List ConstValue → Option (List (Bytes × ConstValue))
  | [] => some []
  | [_] => none
  | key :: value :: rest => do return (← keyBytes key, value) :: (← pairsOf rest)

/-- What a new map is: it holds the pairs, if their keys are different; and it is refused where two of
the first pairs have one key. -/
def NewMapLaw (values : List ConstValue) (resultType ok error : TypeExpr) (result : ConstValue) :
    Prop :=
  (∃ pairs entries, pairsOf values = some pairs ∧ (pairs.map fst).Nodup ∧
    result = ⟨resultType, .result (.ok ⟨ok, .map entries⟩)⟩ ∧
    contents entries = fun query ↦ (heldUnder fst pairs query).map snd) ∨
  ∃ first pairs, first <+: values ∧ pairsOf first = some pairs ∧ ¬ (pairs.map fst).Nodup ∧
    result = failureValue resultType error .duplicateKey 1

/-- What the operations on maps are, as operations on finite maps. -/
def MapLaw (opcode : Opcode) (values : List ConstValue) (resultType : TypeExpr)
    (result : ConstValue) : Prop :=
  match opcode, values with
  | .mapNew, values => ∃ ok error, resultTypesOf resultType = some (ok, error) ∧
    NewMapLaw values resultType ok error result
  | .mapGet, [map, key] => ∃ entries query, mapEntries map = some entries ∧
    keyBytes key = some query ∧ result = ⟨resultType, .option (contents entries query)⟩
  | .mapContains, [map, key] => ∃ entries query, mapEntries map = some entries ∧
    keyBytes key = some query ∧ result = boolValue (contents entries query).isSome
  | .mapInsert, [map, key, value] => ∃ entries query entries', mapEntries map = some entries ∧
    keyBytes key = some query ∧ result = ⟨resultType, .map entries'⟩ ∧
    contents entries' = update (contents entries) query (some value)
  | .mapRemove, [map, key] => ∃ entries query entries', mapEntries map = some entries ∧
    keyBytes key = some query ∧ result = ⟨resultType, .map entries'⟩ ∧
    contents entries' = update (contents entries) query none
  | _, _ => False

section Laws

variable {source : ExecutionSource} {immediate : Immediate} {resultType : TypeExpr}
  {cells cells' : Cells} {result : ConstValue} {entries : List MapEntryConst}
  {keyed : List (Bytes × MapEntryConst)} {query : Bytes} {key value map : ConstValue}

theorem contents_filter (hkeyed : keyedEntries entries = some keyed) :
    contents ((keyed.filter (·.1 ≠ query)).map snd) = update (contents entries) query none := by
  rw [contents_eq (keyedEntries_filter hkeyed), contents_eq hkeyed, heldUnder_filter_ne, map_update]
  rfl

theorem contents_put {entry : MapEntryConst} (hkeyed : keyedEntries entries = some keyed)
    (hquery : keyBytes entry.key = some query) :
    contents ((keyed.filter (·.1 ≠ query)).map snd ++ [entry]) =
      update (contents entries) query (some entry.value) := by
  have hput : heldUnder fst (keyed.filter (·.1 ≠ query) ++ [(query, entry)]) = _ :=
    heldUnder_put rfl
  rw [contents_eq (keyedEntries_put hkeyed hquery), contents_eq hkeyed, hput, map_update]
  rfl

theorem mem_of_contents (h : contents entries query = some value) :
    ∃ entry ∈ entries, entry.value = value := by
  obtain ⟨pair, hpair, rfl⟩ := Option.map_eq_some_iff.1 h
  obtain ⟨keyed, hkeyed, hfound⟩ := bind_eq_some_iff.1 hpair
  obtain ⟨rfl, -⟩ := keyedEntries_eq_some.1 hkeyed
  exact ⟨pair.2, mem_map_of_mem (List.mem_of_find?_eq_some hfound), rfl⟩

variable {values : List ConstValue}

/-- The entries of a new map, whose keys are behind those that have been seen. -/
theorem newEntries_eq_some {seen : List Bytes} (h : newEntries seen values = some (some entries)) :
    ∃ keyed, keyedEntries entries = some keyed ∧
      pairsOf values = some (keyed.map fun pair ↦ (pair.1, pair.2.value)) ∧
      (keyed.map fst).Nodup ∧ (∀ bytes ∈ keyed.map fst, bytes ∉ seen) ∧
      ∀ entry ∈ entries, entry.key ∈ values ∧ entry.value ∈ values := by
  induction seen, values using newEntries.induct generalizing entries with
  | case1 seen =>
    obtain rfl := Option.some.inj (Option.some.inj h)
    exact ⟨[], rfl, rfl, List.nodup_nil, fun _ h ↦ absurd h List.not_mem_nil,
      fun _ h ↦ absurd h List.not_mem_nil⟩
  | case2 seen value => cases h
  | case3 seen key value rest ih =>
    rw [newEntries, Option.bind_eq_bind, bind_eq_some_iff] at h
    obtain ⟨bytes, hbytes, h⟩ := h
    split_ifs at h with hseen
    · cases Option.some.inj h
    obtain ⟨held, hheld, h⟩ := bind_eq_some_iff.1 h
    obtain ⟨entries, rfl, rfl⟩ := Option.map_eq_some_iff.1 (Option.some.inj h)
    obtain ⟨keyed, hkeyed, hpairs, hnodup, hfresh, hmem⟩ := ih bytes hheld
    have hnew : bytes ∉ keyed.map fst := fun hmem ↦
      hfresh bytes hmem (List.mem_append_right _ (List.mem_singleton_self _))
    refine ⟨(bytes, ⟨key, value⟩) :: keyed, ?_, ?_, ?_, ?_, ?_⟩
    · rw [keyedEntries_cons, hbytes, hkeyed]
      rfl
    · rw [pairsOf, hbytes, hpairs]
      rfl
    · exact List.nodup_cons.2 ⟨hnew, hnodup⟩
    · rintro other hother hin
      obtain rfl | hother := mem_cons.1 hother
      · exact hseen hin
      · exact hfresh other hother (List.mem_append_left _ hin)
    · rintro entry hentry
      obtain rfl | hentry := mem_cons.1 hentry
      · exact ⟨mem_cons_self, mem_cons_of_mem _ mem_cons_self⟩
      · obtain ⟨hkey, hvalue⟩ := hmem entry hentry
        exact ⟨mem_cons_of_mem _ (mem_cons_of_mem _ hkey),
          mem_cons_of_mem _ (mem_cons_of_mem _ hvalue)⟩

/-- A new map is refused for a key that comes again. -/
theorem newEntries_eq_none {seen : List Bytes} (h : newEntries seen values = some none) :
    ∃ first pairs, first <+: values ∧ pairsOf first = some pairs ∧
      ((pairs.map fst).Nodup → ∃ bytes ∈ pairs.map fst, bytes ∈ seen) := by
  induction seen, values using newEntries.induct with
  | case1 seen => cases Option.some.inj h
  | case2 seen value => cases h
  | case3 seen key value rest ih =>
    rw [newEntries, Option.bind_eq_bind, bind_eq_some_iff] at h
    obtain ⟨bytes, hbytes, h⟩ := h
    split_ifs at h with hseen
    · refine ⟨[key, value], [(bytes, value)], ⟨rest, rfl⟩, ?_, fun _ ↦ ⟨bytes, ?_, hseen⟩⟩
      · rw [pairsOf, hbytes]
        rfl
      · exact List.mem_singleton_self _
    obtain ⟨held, hheld, h⟩ := bind_eq_some_iff.1 h
    obtain rfl := Option.map_eq_none_iff.1 (Option.some.inj h)
    obtain ⟨first, pairs, hprefix, hpairs, hrepeats⟩ := ih bytes hheld
    refine ⟨key :: value :: first, (bytes, value) :: pairs, ?_, ?_, fun hnodup ↦ ?_⟩
    · exact List.cons_prefix_cons.2 ⟨rfl, List.cons_prefix_cons.2 ⟨rfl, hprefix⟩⟩
    · rw [pairsOf, hbytes, hpairs]
      rfl
    · obtain ⟨hnew, hnodup⟩ := List.nodup_cons.1 hnodup
      obtain ⟨other, hother, hin⟩ := hrepeats hnodup
      obtain hin | hin := mem_append.1 hin
      · exact ⟨other, mem_cons_of_mem _ hother, hin⟩
      · obtain rfl := mem_singleton.1 hin
        exact absurd hother hnew

theorem keyed_of_canonical {valueType : TypeExpr}
    (h : Canonical ⟨valueType, .map entries⟩) (hkeyed : keyedEntries entries = some keyed) :
    (keyed.map fst).Nodup := by
  obtain ⟨keyed', hkeyed', hasc⟩ := (canonical_map_iff.1 h).1
  obtain rfl := Option.some.inj (hkeyed.symm.trans hkeyed')
  exact hasc.nodup_keys

/-- A map made by sorting entries that are canonical on their own. -/
theorem canonical_mapValue {keyed : List (Bytes × MapEntryConst)}
    (hkeyed : keyedEntries entries = some keyed) (hnodup : (keyed.map fst).Nodup)
    (hentries : ∀ entry ∈ entries, Canonical entry.key ∧ Canonical entry.value)
    (h : mapValue resultType entries = some result) :
    ∃ sorted, result = ⟨resultType, .map sorted⟩ ∧ contents sorted = contents entries ∧
      Canonical result := by
  obtain ⟨sorted, hsorted, h⟩ := bind_eq_some_iff.1 h
  obtain rfl := Option.some.inj h
  obtain ⟨hcanonical, hcontents, hperm⟩ := canonicalEntries_of_sortedMap hkeyed hnodup hsorted
  refine ⟨sorted, rfl, hcontents, canonical_map_iff.2 ⟨hcanonical, fun entry hentry ↦ ?_⟩⟩
  exact hentries entry (hperm.mem_iff.1 hentry)

theorem mapEntries_eq_some (h : mapEntries map = some entries) :
    ∃ valueType, map = ⟨valueType, .map entries⟩ := by
  obtain ⟨valueType, data⟩ := map
  cases data with
  | map held =>
    obtain rfl := Option.some.inj h
    exact ⟨valueType, rfl⟩
  | _ => cases h

theorem canonical_boolValue {held : Bool} : Canonical (boolValue held) :=
  canonical_of_nested rfl nofun

theorem mapNew_law (hvalues : ∀ v ∈ values, Canonical v)
    (h : executeBorrowed source .mapNew immediate values resultType cells = some (result, cells')) :
    MapLaw .mapNew values resultType result ∧ Canonical result ∧ cells' = cells := by
  unfold executeBorrowed at h
  obtain ⟨⟨ok, error⟩, htypes, h⟩ := bind_eq_some_iff.1 h
  obtain ⟨entries?, hentries, h⟩ := bind_eq_some_iff.1 h
  cases entries? with
  | none =>
    obtain ⟨rfl, rfl⟩ := Prod.mk.inj (Option.some.inj h)
    obtain ⟨first, pairs, hprefix, hpairs, hrepeats⟩ := newEntries_eq_none hentries
    have hnot : ¬ (pairs.map fst).Nodup := fun hnodup ↦ by
      obtain ⟨_, -, hin⟩ := hrepeats hnodup
      cases hin
    have hpart : ∀ part ∈ nestedValues (failureValue resultType error .duplicateKey 1),
        Canonical part := fun part hpart ↦ by
      obtain rfl := mem_singleton.1 hpart
      exact canonical_of_nested rfl nofun
    exact ⟨⟨ok, error, htypes, .inr ⟨first, pairs, hprefix, hpairs, hnot, rfl⟩⟩,
      canonical_of_nested rfl hpart, rfl⟩
  | some entries =>
    obtain ⟨map, hmap, h⟩ := bind_eq_some_iff.1 h
    obtain ⟨rfl, rfl⟩ := Prod.mk.inj (Option.some.inj h)
    obtain ⟨keyed, hkeyed, hpairs, hnodup, -, hmem⟩ := newEntries_eq_some hentries
    have hparts : ∀ entry ∈ entries, Canonical entry.key ∧ Canonical entry.value :=
      fun entry hentry ↦ (hmem entry hentry).imp (hvalues _) (hvalues _)
    obtain ⟨sorted, rfl, hcontents, hcanonical⟩ := canonical_mapValue hkeyed hnodup hparts hmap
    have hpart : ∀ part ∈ nestedValues ⟨resultType, .result (.ok ⟨ok, .map sorted⟩)⟩,
        Canonical part := fun part hpart ↦ by
      obtain rfl := mem_singleton.1 hpart
      exact hcanonical
    refine ⟨⟨ok, error, htypes, .inl ⟨_, sorted, hpairs, ?_, rfl, ?_⟩⟩,
      canonical_of_nested rfl hpart, rfl⟩
    · rwa [List.map_map]
    · rw [hcontents, contents_eq hkeyed]
      funext query
      rw [heldUnder, heldUnder, List.find?_map, Option.map_map]
      rfl

theorem mapFind_law {opcode : Opcode} (hopcode : opcode = .mapGet ∨
      opcode = .mapContains) (hvalues : ∀ v ∈ values, Canonical v)
    (h : executeBorrowed source opcode immediate values resultType cells = some (result, cells')) :
    MapLaw opcode values resultType result ∧ Canonical result ∧ cells' = cells := by
  match values with
  | [] | [_] | _ :: _ :: _ :: _ =>
    obtain rfl | rfl := hopcode <;> cases h
  | [map, key] =>
    have hmapCanonical : Canonical map := hvalues map mem_cons_self
    obtain rfl | rfl := hopcode
    · unfold executeBorrowed at h
      obtain ⟨query, hquery, h⟩ := bind_eq_some_iff.1 h
      obtain ⟨entries, hentries, h⟩ := bind_eq_some_iff.1 h
      obtain ⟨keyed, hkeyed, h⟩ := bind_eq_some_iff.1 h
      obtain ⟨rfl, rfl⟩ := Prod.mk.inj (Option.some.inj h)
      have hcontents : ((keyed.find? (·.1 = query)).map (·.2.value)) = contents entries query := by
        rw [contents_eq hkeyed]
        rfl
      rw [hcontents]
      refine ⟨⟨entries, query, hentries, hquery, rfl⟩, canonical_of_nested rfl ?_, rfl⟩
      intro part hpart
      obtain ⟨valueType, rfl⟩ := mapEntries_eq_some hentries
      obtain ⟨entry, hentry, rfl⟩ := mem_of_contents (mem_toList.1 hpart)
      exact ((canonical_map_iff.1 hmapCanonical).2 entry hentry).2
    · unfold executeBorrowed at h
      obtain ⟨query, hquery, h⟩ := bind_eq_some_iff.1 h
      obtain ⟨entries, hentries, h⟩ := bind_eq_some_iff.1 h
      obtain ⟨keyed, hkeyed, h⟩ := bind_eq_some_iff.1 h
      obtain ⟨rfl, rfl⟩ := Prod.mk.inj (Option.some.inj h)
      have hcontents : keyed.any (·.1 = query) = (contents entries query).isSome := by
        rw [contents_eq hkeyed, Option.isSome_map, heldUnder, Bool.eq_iff_iff, List.any_eq_true,
          List.find?_isSome]
      rw [hcontents]
      exact ⟨⟨entries, query, hentries, hquery, rfl⟩, canonical_boolValue, rfl⟩

theorem mapInsert_law (hvalues : ∀ v ∈ values, Canonical v)
    (h : executeBorrowed source .mapInsert immediate values resultType cells =
      some (result, cells')) :
    MapLaw .mapInsert values resultType result ∧ Canonical result ∧ cells' = cells := by
  match values with
  | [] | [_] | [_, _] | _ :: _ :: _ :: _ :: _ => cases h
  | [map, key, value] =>
    unfold executeBorrowed at h
    obtain ⟨query, hquery, h⟩ := bind_eq_some_iff.1 h
    obtain ⟨entries, hentries, h⟩ := bind_eq_some_iff.1 h
    obtain ⟨keyed, hkeyed, h⟩ := bind_eq_some_iff.1 h
    obtain ⟨_, hmap, h⟩ := bind_eq_some_iff.1 h
    obtain ⟨rfl, rfl⟩ := Prod.mk.inj (Option.some.inj h)
    obtain ⟨valueType, rfl⟩ := mapEntries_eq_some hentries
    have hmapCanonical := hvalues _ mem_cons_self
    have hkeyed' : keyedEntries (_ ++ [⟨key, value⟩]) = _ := keyedEntries_put hkeyed hquery
    have hnodup := keyed_of_canonical hmapCanonical hkeyed
    obtain ⟨sorted, rfl, hcontents, hcanonical⟩ :=
      canonical_mapValue hkeyed' (nodup_put hnodup) (fun entry hentry ↦ by
        obtain hentry | hentry := mem_append.1 hentry
        · obtain ⟨pair, hpair, rfl⟩ := mem_map.1 hentry
          obtain ⟨rfl, -⟩ := keyedEntries_eq_some.1 hkeyed
          exact (canonical_map_iff.1 hmapCanonical).2 _
            (mem_map_of_mem (List.mem_of_mem_filter hpair))
        · obtain rfl := mem_singleton.1 hentry
          exact ⟨hvalues key (by simp), hvalues value (by simp)⟩) hmap
    refine ⟨⟨entries, query, sorted, hentries, hquery, rfl, ?_⟩, hcanonical, rfl⟩
    rw [hcontents, contents_put hkeyed hquery]

theorem mapRemove_law (hvalues : ∀ v ∈ values, Canonical v)
    (h : executeBorrowed source .mapRemove immediate values resultType cells =
      some (result, cells')) :
    MapLaw .mapRemove values resultType result ∧ Canonical result ∧ cells' = cells := by
  match values with
  | [] | [_] | _ :: _ :: _ :: _ => cases h
  | [map, key] =>
    unfold executeBorrowed at h
    obtain ⟨query, hquery, h⟩ := bind_eq_some_iff.1 h
    obtain ⟨entries, hentries, h⟩ := bind_eq_some_iff.1 h
    obtain ⟨keyed, hkeyed, h⟩ := bind_eq_some_iff.1 h
    obtain ⟨_, hmap, h⟩ := bind_eq_some_iff.1 h
    obtain ⟨rfl, rfl⟩ := Prod.mk.inj (Option.some.inj h)
    obtain ⟨valueType, rfl⟩ := mapEntries_eq_some hentries
    have hmapCanonical := hvalues _ mem_cons_self
    have hnodup := keyed_of_canonical hmapCanonical hkeyed
    obtain ⟨sorted, rfl, hcontents, hcanonical⟩ :=
      canonical_mapValue (keyedEntries_filter hkeyed) (nodup_filter hnodup) (fun entry hentry ↦ by
        obtain ⟨pair, hpair, rfl⟩ := mem_map.1 hentry
        obtain ⟨rfl, -⟩ := keyedEntries_eq_some.1 hkeyed
        exact (canonical_map_iff.1 hmapCanonical).2 _
          (mem_map_of_mem (List.mem_of_mem_filter hpair))) hmap
    refine ⟨⟨entries, query, sorted, hentries, hquery, rfl, ?_⟩, hcanonical, rfl⟩
    rw [hcontents, contents_filter hkeyed]

/-- **The reference arms keep the laws, and canonical values.** -/
theorem executeBorrowed_mapLaw {opcode : Opcode}
    (hopcode : isMapOperation opcode = true) (hvalues : ∀ v ∈ values, Canonical v)
    (h : executeBorrowed source opcode immediate values resultType cells = some (result, cells')) :
    MapLaw opcode values resultType result ∧ Canonical result ∧ cells' = cells := by
  cases opcode
  case mapNew => exact mapNew_law hvalues h
  case mapGet => exact mapFind_law (.inl rfl) hvalues h
  case mapContains => exact mapFind_law (.inr rfl) hvalues h
  case mapInsert => exact mapInsert_law hvalues h
  case mapRemove => exact mapRemove_law hvalues h
  all_goals cases hopcode

end Laws

end Sley.Vm
