import Mathlib
import Sley.Vm.Owned

/-!
# Parts of values

What a part of a value has of its whole: its size, and that it is narrow; and what becomes of the
size of a list of parts when one of them is replaced, added or taken away. **The size of a list does
not depend on its order** (`sizes_perm`, `entrySizes_perm`), so each update is a swap to the front.
Whatever an instruction computes is built from narrow parts and is narrow
(`narrow_executeBorrowed`).
-/

namespace Sley.Vm

open Ssmc
open Scb1 (Bytes)
open List (mem_cons_self)
open Option (bind_eq_some_iff map_eq_some_iff)

variable {value part : ConstValue} {index : ℕ}

variable {entries : List MapEntryConst} {fields : List RecordField} {values : List ConstValue}
  {source : ExecutionSource} {items : List ConstValue} {resultType : TypeExpr}

theorem size_le_sizes (h : values[index]? = some part) : size part ≤ sizes values := by
  induction values generalizing index with
  | nil => cases h
  | cons head values ih =>
    rw [sizes]
    cases index with
    | zero =>
      obtain rfl := Option.some.inj h
      exact Nat.le_add_right _ _
    | succ index => exact le_add_left (ih h)

theorem size_le_fieldSizes {fields : List FieldConst} {field : FieldConst}
    (h : fields[index]? = some field) : size field.value ≤ fieldSizes fields := by
  induction fields generalizing index with
  | nil => cases h
  | cons head fields ih =>
    obtain ⟨_, held⟩ := head
    rw [fieldSizes]
    cases index with
    | zero =>
      obtain rfl := Option.some.inj h
      show size held ≤ _
      omega
    | succ index => exact le_add_left (ih h)

/-- The parts of a list count in any order. -/
theorem sizes_perm {values values' : List ConstValue} (h : values.Perm values') :
    sizes values = sizes values' := by
  induction h with
  | nil => rfl
  | cons _ _ ih => rw [sizes, sizes, ih]
  | swap => simp only [sizes, Nat.add_left_comm]
  | trans _ _ ih ih' => exact ih.trans ih'

theorem entrySizes_perm {entries entries' : List MapEntryConst} (h : entries.Perm entries') :
    entrySizes entries = entrySizes entries' := by
  induction h with
  | nil => rfl
  | cons entry _ ih => obtain ⟨_, _⟩ := entry; rw [entrySizes, entrySizes, ih]
  | swap entry entry' => obtain ⟨_, _⟩ := entry; obtain ⟨_, _⟩ := entry'; simp only [entrySizes]; omega
  | trans _ _ ih ih' => exact ih.trans ih'

theorem sizes_set {old item : ConstValue} (h : items[index]? = some old) :
    sizes (items.set index item) + size old = sizes items + size item := by
  obtain ⟨hlt, rfl⟩ := List.getElem?_eq_some_iff.1 h
  have hset := sizes_perm (List.set_perm_cons_eraseIdx hlt item)
  have hitems := sizes_perm (List.getElem_cons_eraseIdx_perm hlt)
  rw [sizes] at hset hitems
  omega

/-- What an entry counts for in its map. -/
def entrySize (entry : MapEntryConst) : ℕ := size entry.key + size entry.value

theorem entrySizes_cons {entry : MapEntryConst} :
    entrySizes (entry :: entries) = entrySize entry + entrySizes entries := by
  obtain ⟨key, value⟩ := entry
  exact entrySizes.eq_2 key value entries

theorem entrySizes_eraseIdx {old : MapEntryConst} (h : entries[index]? = some old) :
    entrySizes (entries.eraseIdx index) + entrySize old = entrySizes entries := by
  obtain ⟨hlt, rfl⟩ := List.getElem?_eq_some_iff.1 h
  have hentries := entrySizes_perm (List.getElem_cons_eraseIdx_perm hlt)
  rw [entrySizes_cons] at hentries
  omega

theorem entrySizes_set {old entry : MapEntryConst} (h : entries[index]? = some old) :
    entrySizes (entries.set index entry) + entrySize old = entrySizes entries + entrySize entry := by
  have hset := entrySizes_perm
    (List.set_perm_cons_eraseIdx (List.getElem?_eq_some_iff.1 h).1 entry)
  have herase := entrySizes_eraseIdx h
  rw [entrySizes_cons] at hset
  omega

theorem entrySizes_insertIdx {entry : MapEntryConst} (h : index ≤ entries.length) :
    entrySizes (entries.insertIdx index entry) = entrySizes entries + entrySize entry := by
  have hinsert := entrySizes_perm (List.perm_insertIdx entry entries h)
  rw [entrySizes_cons] at hinsert
  omega

theorem size_partAt (h : partAt value index = some part) : size part < size value := by
  obtain ⟨valueType, data⟩ := value
  cases data with
  | sequence values =>
    have := size_le_sizes h
    rw [size, dataSize]
    omega
  | record record =>
    obtain ⟨_, fields⟩ := record
    obtain ⟨field, hfield, rfl⟩ := map_eq_some_iff.1 h
    have : size field.value ≤ fieldSizes fields := size_le_fieldSizes hfield
    rw [size, dataSize]
    omega
  | _ => cases h

theorem narrow_partAt (hnarrow : Narrow value) (h : partAt value index = some part) :
    Narrow part := by
  obtain ⟨valueType, data⟩ := value
  cases data with
  | sequence values => exact narrow_sequence.1 hnarrow _ (List.mem_of_getElem? h)
  | record record =>
    obtain ⟨_, fields⟩ := record
    obtain ⟨field, hfield, rfl⟩ := map_eq_some_iff.1 h
    exact (narrow_record.1 hnarrow).2 _ (List.mem_of_getElem? hfield)
  | _ => cases h

theorem narrow_itemsOf (hnarrow : Narrow value)
    (h : itemsOf value = some items) : ∀ item ∈ items, Narrow item := by
  obtain ⟨valueType, data⟩ := value
  cases data with
  | sequence values =>
    obtain rfl := Option.some.inj h
    exact narrow_sequence.1 hnarrow
  | _ => cases h

theorem narrow_mapEntries (hnarrow : Narrow value) (h : mapEntries value = some entries) :
    ∀ entry ∈ entries, Narrow entry.key ∧ Narrow entry.value := by
  obtain ⟨valueType, data⟩ := value
  cases data with
  | map held =>
    obtain rfl := Option.some.inj h
    exact narrow_map.1 hnarrow
  | _ => cases h

theorem fieldSizes_zipWith (h : fields.length = items.length) :
    fieldSizes (fields.zipWith (fun field value ↦ ⟨field.memberId, value⟩) items) =
      32 * items.length + sizes items := by
  induction fields generalizing items with
  | nil =>
    obtain rfl := List.length_eq_zero_iff.1 h.symm
    rfl
  | cons field fields ih =>
    cases items with
    | nil => cases h
    | cons item items =>
      rw [List.zipWith_cons_cons, fieldSizes, ih (Nat.succ.inj h), sizes, List.length_cons]
      omega

/-! ### What the reference arms keep -/

theorem mem_of_mapM {α β : Type} {f : α → Option β} {xs : List α} {ys : List β}
    (h : xs.mapM f = some ys) : ∀ y ∈ ys, ∃ x ∈ xs, f x = some y := by
  induction xs generalizing ys with
  | nil =>
    obtain rfl := Option.some.inj h
    simp
  | cons x xs ih =>
    rw [List.mapM_cons, Option.bind_eq_bind, bind_eq_some_iff] at h
    obtain ⟨y, hy, h⟩ := h
    obtain ⟨ys, hys, h⟩ := bind_eq_some_iff.1 h
    obtain rfl := Option.some.inj h
    refine List.forall_mem_cons.2 ⟨⟨x, mem_cons_self, hy⟩, fun z hz ↦ ?_⟩
    obtain ⟨w, hw, hz⟩ := ih hys z hz
    exact ⟨w, List.mem_cons_of_mem _ hw, hz⟩

theorem mem_of_keyedEntries {keyed : List (Bytes × MapEntryConst)}
    (h : keyedEntries entries = some keyed) : ∀ e ∈ keyed, e.2 ∈ entries := by
  intro e he
  obtain ⟨entry, hentry, he⟩ := mem_of_mapM h e he
  obtain ⟨key, -, he⟩ := bind_eq_some_iff.1 he
  obtain rfl := Option.some.inj he
  exact hentry

theorem mem_of_sortedMap {entries sorted : List MapEntryConst}
    (h : sortedMap entries = some sorted) : ∀ e ∈ sorted, e ∈ entries := by
  intro e he
  obtain ⟨keyed, hkeyed, h⟩ := bind_eq_some_iff.1 h
  obtain rfl := Option.some.inj h
  obtain ⟨keyedEntry, hmem, rfl⟩ := List.mem_map.1 he
  exact mem_of_keyedEntries hkeyed _ (List.mem_mergeSort.1 hmem)

theorem narrow_mapValue {value : ConstValue} (h : mapValue resultType entries = some value)
    (hentries : ∀ e ∈ entries, Narrow e.key ∧ Narrow e.value) : Narrow value := by
  obtain ⟨sorted, hsorted, h⟩ := bind_eq_some_iff.1 h
  obtain rfl := Option.some.inj h
  exact narrow_map.2 fun e he ↦ hentries e (mem_of_sortedMap hsorted e he)

theorem mem_of_newEntries {seen : List Bytes} (h : newEntries seen values = some (some entries)) :
    ∀ e ∈ entries, e.key ∈ values ∧ e.value ∈ values := by
  induction seen, values using newEntries.induct generalizing entries with
  | case1 =>
    obtain rfl := Option.some.inj (Option.some.inj h)
    simp
  | case2 => cases h
  | case3 seen key value rest ih =>
    obtain ⟨bytes, -, h⟩ := bind_eq_some_iff.1 h
    split_ifs at h
    · cases h
    obtain ⟨later, hlater, h⟩ := bind_eq_some_iff.1 h
    obtain ⟨later, rfl, rfl⟩ := map_eq_some_iff.1 (Option.some.inj h)
    refine List.forall_mem_cons.2 ⟨by simp, fun e he ↦ ?_⟩
    have := ih bytes hlater e he
    simp [this]

theorem length_of_recordFields {definition : EntityId}
    (h : source.recordFields definition = some fields) :
    fields.length ≤ maxMembers := by
  rw [ExecutionSource.recordFields] at h
  split at h
  · rename_i hdefinition
    obtain rfl := Option.some.inj h
    exact source.fields_le hdefinition
  · cases h

/-- A new record has the fields of its definition. -/
theorem narrow_newRecord {definition : EntityId}
    (hfields : source.recordFields definition = some fields) (hvalues : ∀ v ∈ values, Narrow v) :
    Narrow ⟨resultType, .record ⟨definition,
      fields.zipWith (fun field value ↦ ⟨field.memberId, value⟩) values⟩⟩ := by
  refine narrow_record.2 ⟨?_, fun field hfield ↦ ?_⟩
  · rw [List.length_zipWith]
    exact (Nat.min_le_left _ _).trans (length_of_recordFields hfields)
  · obtain ⟨index, hindex⟩ := List.mem_iff_getElem?.1 hfield
    obtain ⟨_, value, -, hvalue, rfl⟩ := List.getElem?_zipWith_eq_some.1 hindex
    exact hvalues _ (List.mem_of_getElem? hvalue)

/-- **The reference arms make narrow values of narrow values**, and leave narrow cells. -/
theorem narrow_executeBorrowed {opcode : Opcode} {immediate : Immediate}
    {operands : List ConstValue} {cells cells' : Cells} {value : ConstValue}
    (h : executeBorrowed source opcode immediate operands resultType cells = some (value, cells'))
    (hoperands : ∀ v ∈ operands, Narrow v) (hcells : ∀ v ∈ cells, Narrow v) :
    Narrow value ∧ ∀ v ∈ cells', Narrow v := by
  unfold executeBorrowed at h
  split at h
  all_goals simp only [Option.bind_eq_bind, bind_eq_some_iff, Option.pure_def,
    Option.some.injEq, Prod.mk.injEq, reduceCtorEq] at h
  case h_1 =>
    obtain ⟨id, -, constant, hfind, rfl, rfl⟩ := h
    exact ⟨source.constants_narrow constant (List.mem_of_find?_eq_some hfind), hcells⟩
  case h_2 =>
    obtain ⟨definition, -, fields, hfields, h⟩ := h
    split_ifs at h with hlength
    · cases h
    · cases h
      exact ⟨narrow_newRecord hfields hoperands, hcells⟩
  case h_3 =>
    obtain ⟨member, -, field, hfind, rfl, rfl⟩ := h
    exact ⟨(narrow_record.1 (hoperands _ mem_cons_self)).2 field
      (List.mem_of_find?_eq_some hfind), hcells⟩
  case h_4 =>
    obtain ⟨variant, -, h⟩ := h
    split at h
    · cases h
      exact ⟨by simp, hcells⟩
    · cases h
      exact ⟨by simpa using hoperands, hcells⟩
    · cases h
  case h_5 =>
    obtain ⟨variant, -, rfl, rfl⟩ := h
    refine ⟨narrow_option.2 fun v hv ↦ ?_, hcells⟩
    split_ifs at hv
    · exact narrow_variant.1 (hoperands _ mem_cons_self) v hv
    · cases hv
  case h_6 =>
    obtain ⟨⟨ok, error⟩, -, entries, hentries, h⟩ := h
    cases entries with
    | none =>
      cases h
      exact ⟨trivial, hcells⟩
    | some entries =>
      obtain ⟨built, hbuilt, h⟩ := bind_eq_some_iff.1 h
      cases h
      refine ⟨narrow_ok.2 (narrow_mapValue hbuilt fun e he ↦ ?_), hcells⟩
      exact (mem_of_newEntries hentries e he).imp (hoperands _) (hoperands _)
  case h_7 =>
    obtain ⟨query, -, entries, hentries, keyed, hkeyed, rfl, rfl⟩ := h
    refine ⟨narrow_option.2 fun v hv ↦ ?_, hcells⟩
    obtain ⟨entry, hentry, rfl⟩ := map_eq_some_iff.1 hv
    have hmem := mem_of_keyedEntries hkeyed _ (List.mem_of_find?_eq_some hentry)
    exact (narrow_mapEntries (hoperands _ mem_cons_self) hentries _ hmem).2
  case h_8 =>
    obtain ⟨query, -, entries, hentries, keyed, hkeyed, rfl, rfl⟩ := h
    exact ⟨trivial, hcells⟩
  case h_9 =>
    obtain ⟨query, -, entries, hentries, keyed, hkeyed, built, hbuilt, rfl, rfl⟩ := h
    refine ⟨narrow_mapValue hbuilt fun e he ↦ ?_, hcells⟩
    rw [List.mem_append, List.mem_singleton] at he
    obtain he | rfl := he
    · obtain ⟨keyedEntry, hkeyedEntry, rfl⟩ := List.mem_map.1 he
      have hmem := mem_of_keyedEntries hkeyed _ (List.mem_of_mem_filter hkeyedEntry)
      exact narrow_mapEntries (hoperands _ mem_cons_self) hentries _ hmem
    · exact ⟨hoperands _ (by simp), hoperands _ (by simp)⟩
  case h_10 =>
    obtain ⟨query, -, entries, hentries, keyed, hkeyed, built, hbuilt, rfl, rfl⟩ := h
    refine ⟨narrow_mapValue hbuilt fun e he ↦ ?_, hcells⟩
    obtain ⟨keyedEntry, hkeyedEntry, rfl⟩ := List.mem_map.1 he
    have hmem := mem_of_keyedEntries hkeyed _ (List.mem_of_mem_filter hkeyedEntry)
    exact narrow_mapEntries (hoperands _ mem_cons_self) hentries _ hmem
  case h_11 =>
    obtain ⟨rfl, rfl⟩ := h
    refine ⟨trivial, fun v hv ↦ ?_⟩
    rw [List.mem_append, List.mem_singleton] at hv
    obtain hv | rfl := hv
    · exact hcells v hv
    · exact hoperands _ mem_cons_self
  case h_12 =>
    obtain ⟨cell, hcell, rfl, rfl⟩ := h
    exact ⟨hcells _ (List.mem_of_getElem? hcell), hcells⟩
  case h_13 =>
    split_ifs at h
    cases h
    refine ⟨trivial, fun v hv ↦ ?_⟩
    obtain hv | rfl := List.mem_or_eq_of_mem_set hv
    · exact hcells v hv
    · exact hoperands _ (by simp)
  case h_14 =>
    obtain ⟨global, -, constant, hconstant, rfl, rfl⟩ := h
    obtain ⟨definition, -, hconstant⟩ := bind_eq_some_iff.1 hconstant
    obtain ⟨found, hfind, hconstant⟩ := bind_eq_some_iff.1 hconstant
    split_ifs at hconstant
    obtain rfl := Option.some.inj hconstant
    exact ⟨source.constants_narrow _ (List.mem_of_find?_eq_some hfind), hcells⟩
  case h_15 =>
    obtain ⟨reference, -, rfl, rfl⟩ := h
    exact ⟨trivial, hcells⟩
  case h_16 | h_17 =>
    obtain ⟨rfl, rfl⟩ := h
    exact ⟨narrow_sequence.2 hoperands, hcells⟩
  case h_18 =>
    obtain ⟨index, -, item, hitem, rfl, rfl⟩ := h
    exact ⟨narrow_sequence.1 (hoperands _ mem_cons_self) _ (List.mem_of_getElem? hitem), hcells⟩
  case h_20 =>
    obtain ⟨rfl, rfl⟩ := h
    refine ⟨narrow_option.2 fun v hv ↦ ?_, hcells⟩
    exact narrow_sequence.1 (hoperands _ mem_cons_self) _ (List.mem_of_getElem? hv)
  case h_21 =>
    obtain ⟨⟨ok, error⟩, -, h⟩ := h
    split_ifs at h
    · cases h
      refine ⟨narrow_ok.2 (narrow_sequence.2 fun v hv ↦ ?_), hcells⟩
      obtain hv | rfl := List.mem_or_eq_of_mem_set hv
      · exact narrow_sequence.1 (hoperands _ mem_cons_self) v hv
      · exact hoperands _ (by simp)
    · cases h
      exact ⟨trivial, hcells⟩
  case h_25 | h_27 | h_28 =>
    obtain ⟨rfl, rfl⟩ := h
    exact ⟨by simpa using hoperands, hcells⟩
  case h_19 | h_22 | h_23 | h_24 | h_26 =>
    obtain ⟨rfl, rfl⟩ := h
    exact ⟨by simp [Narrow, NarrowData, boolValue], hcells⟩
  case h_52 =>
    obtain ⟨calculated, hcalculated, rfl, rfl⟩ := h
    exact ⟨source.calculate_narrow hcalculated hoperands, hcells⟩

end Sley.Vm
