import Sley.Lib.BinarySearch
import Sley.Vm.OwnedMeaning

/-!
# The owned arms agree with the reference arms

What the owned arms compute (`Owned.meaning`) against the reference arms. Two things differ: the
owned arms search the entries of a map by halving where the reference arms look at each of them, and
the ones that construct a value fault when its units do not fit 64 bits. **For a map in the order
of its canonical keys both ways of searching find the same entry** (`search_locates`), and an
update at the place that was found is the sorted map of the reference (`sortedMap_putAt`).
-/

namespace Sley.Vm

open Ssmc UInt64 Action Operation Mutate Mutate.ConstEncoding
open Scb1 (Bytes sizedBytes taggedBytes)
open Option (bind_eq_bind bind_some map_some pure_def)
open Leb128 (encode)
open Prod (fst snd)

/-! ### Canonical keys -/

theorem keyBytes_eq_some {value : ConstValue} {bytes : Bytes} :
    keyBytes value = some bytes ↔ encode (.value value) 0 = .ok bytes := by
  rw [← encodeAtDepth_encode, keyBytes]
  cases encodeAtDepth 0 (fun value ↦ encode (.value value) 0) value <;> simp [Except.toOption]

/-- What is in front of a byte string of a length in the bytes of a value; `type` are the bytes of
its type. -/
def bytesHeader (type : Bytes) (length : ℕ) : Bytes :=
  let tag := encode (ConstData.tag (.bytes [])).toNat
  encode 2 ++ (encode 1 ++ sizedBytes type ++ (encode 2 ++
    (encode (tag.length + sized (sized length)) ++
      (tag ++ (encode (sized length) ++ encode length)))))

theorem keyBytes_bytes {valueType : TypeExpr} {held bytes : Bytes}
    (h : keyBytes ⟨valueType, .bytes held⟩ = some bytes) :
    ∃ type, encode (.type valueType) 1 = .ok type ∧
      bytes = bytesHeader type held.length ++ held := by
  rw [keyBytes_eq_some, encode_eq_ok, wire_container (.value _) rfl rfl] at h
  obtain ⟨-, -, ps, hps, rfl⟩ := h
  simp only [List.forall₂_cons_left_iff, List.forall₂_nil_left_iff] at hps
  obtain ⟨type, _, htype, ⟨data, _, hdata, rfl, rfl⟩, rfl⟩ := hps
  rw [wire_container (.data _) rfl rfl] at hdata
  obtain ⟨-, -, payload, hpayload, rfl⟩ := hdata
  obtain ⟨-, l, hl, hbytes⟩ := wire_iff.1 hpayload
  have hframe := (layout_eq_ok.1 hl).2.2
  simp only [Node.frame, Except.bind_eq_ok, Except.rejectIf_eq_ok, Except.pure_eq_ok] at hframe
  obtain ⟨-, -, rfl⟩ := hframe
  obtain rfl : payload = sizedBytes held := hbytes
  refine ⟨type, encode_eq_ok.2 htype, ?_⟩
  simp only [bytesHeader, fieldBytes, taggedBytes, List.length_cons, List.length_nil,
    List.append_nil, List.append_assoc, Nat.zero_add]
  have hpayload : sizedBytes (sizedBytes held) =
      encode (sized held.length) ++ (encode held.length ++ held) := by
    rw [sizedBytes, length_sizedBytes, sizedBytes]
  have hdata (tag : Bytes) : sizedBytes (tag ++ sizedBytes (sizedBytes held)) =
      encode (tag.length + sized (sized held.length)) ++
        (tag ++ (encode (sized held.length) ++ (encode held.length ++ held))) := by
    rw [sizedBytes, List.length_append, length_sizedBytes, length_sizedBytes, hpayload]
  rw [hdata]
  rfl

/-- Byte strings of one type and one length share the header. -/
theorem compare_keyBytes {valueType : TypeExpr} {left right leftBytes rightBytes : Bytes}
    (hleft : keyBytes ⟨valueType, .bytes left⟩ = some leftBytes)
    (hright : keyBytes ⟨valueType, .bytes right⟩ = some rightBytes)
    (hlength : left.length = right.length) :
    compare leftBytes rightBytes = compare left right := by
  obtain ⟨type, htype, rfl⟩ := keyBytes_bytes hleft
  obtain ⟨type', htype', rfl⟩ := keyBytes_bytes hright
  obtain rfl := Except.ok.inj (htype.symm.trans htype')
  have hheader : compare (bytesHeader type right.length) (bytesHeader type right.length) = .eq :=
    Std.ReflCmp.compare_self
  rw [hlength, compare_append rfl, hheader]
  rfl

theorem keyOrder_eq {stored queryValue : ConstValue} {bytes query : Bytes}
    (hstored : keyBytes stored = some bytes) (hquery : keyBytes queryValue = some query) :
    keyOrder stored queryValue query = some (compare bytes query) := by
  obtain ⟨valueType, data⟩ := stored
  obtain ⟨queryType, queryData⟩ := queryValue
  rw [keyOrder]
  split
  · rename_i left right hleft hright
    obtain rfl : data = .bytes left := hleft
    obtain rfl : queryData = .bytes right := hright
    split_ifs with hsame
    · obtain ⟨hlength, rfl⟩ : left.length = right.length ∧ valueType = queryType := hsame
      rw [compare_keyBytes hstored hquery hlength]
    · rw [hstored]
      rfl
  · rw [hstored]
    rfl

/-! ### Maps in canonical order -/

/-- Entries in the strict order of the canonical bytes of their keys. -/
def CanonicalEntries (entries : List MapEntryConst) : Prop :=
  ∃ keyed, keyedEntries entries = some keyed ∧ Ascends fst keyed

/-- A map in canonical order. -/
def CanonicalMap (value : ConstValue) : Prop :=
  ∀ entries, mapEntries value = some entries → CanonicalEntries entries

section Keyed

variable {entries : List MapEntryConst} {keyed : List (Bytes × MapEntryConst)} {query : Bytes}
  {entry : MapEntryConst} {result : Except ℕ ℕ}

theorem keyedEntries_cons : keyedEntries (entry :: entries) = keyBytes entry.key >>= fun bytes ↦
      keyedEntries entries >>= fun keyed ↦ some ((bytes, entry) :: keyed) := by
  rw [keyedEntries, List.mapM_cons, bind_assoc]
  rfl

theorem keyedEntries_eq_some : keyedEntries entries = some keyed ↔
    keyed.map snd = entries ∧ ∀ pair ∈ keyed, keyBytes pair.2.key = some pair.1 := by
  induction entries generalizing keyed with
  | nil =>
    constructor
    · intro h
      obtain rfl := Option.some.inj h
      exact ⟨rfl, nofun⟩
    · rintro ⟨h, -⟩
      rw [List.map_eq_nil_iff.1 h]
      rfl
  | cons entry entries ih =>
    rw [keyedEntries_cons]
    simp only [bind_eq_bind, Option.bind_eq_some_iff, Option.some.injEq]
    constructor
    · rintro ⟨bytes, hbytes, keyed, hkeyed, rfl⟩
      obtain ⟨rfl, hall⟩ := ih.1 hkeyed
      exact ⟨rfl, List.forall_mem_cons.2 ⟨hbytes, hall⟩⟩
    · rintro ⟨hmap, hall⟩
      obtain ⟨⟨bytes, held⟩, keyed, rfl, rfl, rfl⟩ := List.map_eq_cons_iff.1 hmap
      obtain ⟨hbytes, hall⟩ := List.forall_mem_cons.1 hall
      exact ⟨bytes, hbytes, keyed, ih.2 ⟨rfl, hall⟩, rfl⟩

theorem searchIn_eq_bisect {queryValue : ConstValue} {fuel low high : ℕ} :
    searchIn entries queryValue query fuel low high =
      bisect (fun i ↦ entries[i]? >>= fun entry ↦ keyOrder entry.key queryValue query)
        fuel low high := by
  induction fuel generalizing low high with
  | zero => rfl
  | succ fuel ih =>
    rw [searchIn, bisect, bind_assoc]
    simp only [ih] <;> rfl

section

variable (hkeyed : keyedEntries entries = some keyed)

include hkeyed

/-- **In a map of canonical order both ways of searching find the same entry.** -/
theorem search_locates {queryValue : ConstValue}
    (hasc : Ascends fst keyed) (hquery : keyBytes queryValue = some query) :
    ∃ result, search entries queryValue query = some result ∧ Locates fst keyed query result := by
  obtain ⟨rfl, hall⟩ := keyedEntries_eq_some.1 hkeyed
  rw [search, searchIn_eq_bisect]
  refine bisect_locates hasc (fun i pair hpair ↦ ?_) (by simp) (Nat.zero_le _) (by simp) nofun
    (by simp)
  rw [List.getElem?_map, hpair]
  exact keyOrder_eq (hall pair (List.mem_of_getElem? hpair)) hquery

/-- Sorting finds the canonical order. -/
theorem sortedMap_eq {sorted : List (Bytes × MapEntryConst)} (hperm : sorted.Perm keyed)
    (hasc : Ascends fst sorted) : sortedMap entries = some (sorted.map snd) := by
  rw [sortedMap, hkeyed, bind_eq_bind, bind_some, mergeSort_eq_of_ascends hperm hasc]
  rfl

/-- What an insertion leaves is the sorted map of the reference. -/
theorem sortedMap_putAt (hasc : Ascends fst keyed) (hquery : keyBytes entry.key = some query)
    (h : Locates fst keyed query result) :
    sortedMap ((keyed.filter (·.1 ≠ query)).map snd ++ [entry]) =
      some (putAt entries entry result) := by
  obtain ⟨rfl, hall⟩ := keyedEntries_eq_some.1 hkeyed
  obtain ⟨hput, hperm⟩ := h.ascends_put hasc (a := (query, entry)) rfl
  have hentries : keyedEntries ((keyed.filter (·.1 ≠ query)).map snd ++ [entry]) =
      some (keyed.filter (·.1 ≠ query) ++ [(query, entry)]) := by
    refine keyedEntries_eq_some.2 ⟨by rw [List.map_append]; rfl, fun pair hpair ↦ ?_⟩
    obtain hpair | hpair := List.mem_append.1 hpair
    · exact hall pair (List.mem_of_mem_filter hpair)
    · obtain rfl := List.mem_singleton.1 hpair
      exact hquery
  rw [sortedMap_eq hentries hperm hput]
  cases result with
  | ok i => rw [putAt, putAt, List.map_set]
  | error i => rw [putAt, putAt, List.map_insertIdx]

/-- What a removal leaves is the sorted map of the reference. -/
theorem sortedMap_dropAt (hasc : Ascends fst keyed) (h : Locates fst keyed query result) :
    sortedMap ((keyed.filter (·.1 ≠ query)).map snd) = some (dropAt entries result) := by
  obtain ⟨rfl, hall⟩ := keyedEntries_eq_some.1 hkeyed
  have hfilter := h.filter_eq hasc
  have hentries : keyedEntries ((keyed.filter (·.1 ≠ query)).map snd) =
      some (keyed.filter (·.1 ≠ query)) :=
    keyedEntries_eq_some.2 ⟨rfl, fun pair hpair ↦ hall pair (List.mem_of_mem_filter hpair)⟩
  rw [sortedMap_eq hentries (List.Perm.refl _) (hasc.sublist List.filter_sublist), hfilter]
  cases result with
  | ok i => rw [dropAt, dropAt, List.eraseIdx_map]
  | error i => rfl

end

end Keyed

/-! ### The arms -/

namespace Owned

/-- What an owned arm computes against the reference arm: the same result, or a fault where there is
none or its units do not fit. `some none` defers. -/
def Agrees (cells : Cells) : Option (Option ConstValue) → Option (ConstValue × Cells) → Prop
  | some none, _ => True
  | some (some shown), borrowed => borrowed = some (shown, cells)
  | none, borrowed => ∀ result ∈ borrowed, 2 ^ 64 ≤ size result.1

section Agrees

variable {cells : Cells} {source : ExecutionSource} {file : Register → Option ConstValue}
  {immediate : Immediate} {values : List ConstValue} {resultType : TypeExpr}

variable {register : Register} {registers : List Register} {borrowed : Option (ConstValue × Cells)}
  {held : ConstValue} {mapHeld keyHeld : ConstValue} {entries : List MapEntryConst}

theorem agrees_of_eq {x : Option ConstValue}
    (h : borrowed = x.map (·, cells)) : Agrees cells (some <$> x) borrowed := by
  subst h
  cases x with
  | none => exact nofun
  | some shown => exact rfl

theorem agrees_fits {shown : ConstValue} :
    Agrees cells (some <$> fits shown) (some (shown, cells)) := by
  rw [fits]
  split_ifs with hlt
  · exact rfl
  · rintro _ hresult
    obtain rfl := Option.some.inj hresult
    exact Nat.not_lt.1 hlt

theorem agrees_mapFind {map key : Register}
    (result : Option MapEntryConst → ConstValue) (hmap : file map = some mapHeld)
    (hkey : file key = some keyHeld) (hcanonical : CanonicalMap mapHeld)
    (hborrowed : borrowed = keyBytes keyHeld >>= fun query ↦ mapEntries mapHeld >>= fun entries ↦
      keyedEntries entries >>= fun keyed ↦
        some (result ((keyed.find? (·.1 = query)).map snd), cells)) :
    Agrees cells (some <$> (file key >>= fun keyValue ↦ keyBytes keyValue >>= fun query ↦
      file map >>= fun mapValue ↦ mapEntries mapValue >>= fun entries ↦
        search entries keyValue query >>= fun found ↦
          some (result (found.toOption.bind (entries[·]?))))) borrowed := by
  refine agrees_of_eq (hborrowed.trans ?_)
  rw [hmap, hkey]
  simp only [bind_eq_bind, bind_some]
  cases hquery : keyBytes keyHeld with
  | none => rfl
  | some query =>
    cases hentries : mapEntries mapHeld with
    | none => rfl
    | some entries =>
      obtain ⟨keyed, hkeyed, hasc⟩ := hcanonical entries hentries
      obtain ⟨found, hfound, hlocates⟩ := search_locates hkeyed hasc hquery
      obtain ⟨rfl, -⟩ := keyedEntries_eq_some.1 hkeyed
      simp only [bind_some, hkeyed, hfound, hlocates.find?_eq hasc, map_some,
        Option.map_bind, List.getElem?_map]
      rfl

theorem inserted_eq {query : Bytes} {entry : MapEntryConst} :
    inserted entries query entry = (search entries entry.key query).map (putAt entries entry) := by
  rw [inserted]
  cases search entries entry.key query with
  | none => rfl
  | some result => cases result <;> rfl

theorem removed_eq {query : Bytes} {key : ConstValue} :
    removed entries key query = (search entries key query).map (dropAt entries) := by
  rw [removed]
  cases search entries key query with
  | none => rfl
  | some result => cases result <;> rfl

theorem agrees_mapInsert {map key value : Register} {mapHeld keyHeld held : ConstValue}
    (hmap : file map = some mapHeld) (hkey : file key = some keyHeld)
    (hvalue : file value = some held) (hcanonical : CanonicalMap mapHeld) :
    Agrees cells (some <$> (file key >>= fun keyValue ↦ file value >>= fun item ↦
      file map >>= fun mapValue ↦ keyBytes keyValue >>= fun query ↦
        mapEntries mapValue >>= fun entries ↦ inserted entries query ⟨keyValue, item⟩ >>=
          fun entries' ↦ some ⟨resultType, .map entries'⟩))
      (executeBorrowed source .mapInsert immediate [mapHeld, keyHeld, held] resultType cells) := by
  refine agrees_of_eq ?_
  unfold executeBorrowed
  rw [hmap, hkey, hvalue]
  simp only [bind_eq_bind, bind_some]
  cases hquery : keyBytes keyHeld with
  | none => rfl
  | some query =>
    cases hentries : mapEntries mapHeld with
    | none => rfl
    | some entries =>
      obtain ⟨keyed, hkeyed, hasc⟩ := hcanonical entries hentries
      obtain ⟨found, hfound, hlocates⟩ := search_locates hkeyed hasc hquery
      have hsorted : sortedMap (_ ++ [⟨keyHeld, held⟩]) = _ :=
        sortedMap_putAt hkeyed hasc hquery hlocates
      simp only [bind_some, hkeyed, mapValue, hsorted, inserted_eq, hfound,
        map_some, pure_def, bind_eq_bind]

theorem agrees_mapRemove {map key : Register}
    (hmap : file map = some mapHeld) (hkey : file key = some keyHeld)
    (hcanonical : CanonicalMap mapHeld) :
    Agrees cells (some <$> (file key >>= fun keyValue ↦ keyBytes keyValue >>= fun query ↦
      file map >>= fun mapValue ↦ mapEntries mapValue >>= fun entries ↦
        removed entries keyValue query >>= fun entries' ↦ some ⟨resultType, .map entries'⟩))
      (executeBorrowed source .mapRemove immediate [mapHeld, keyHeld] resultType cells) := by
  refine agrees_of_eq ?_
  unfold executeBorrowed
  rw [hmap, hkey]
  simp only [bind_eq_bind, bind_some]
  cases hquery : keyBytes keyHeld with
  | none => rfl
  | some query =>
    cases hentries : mapEntries mapHeld with
    | none => rfl
    | some entries =>
      obtain ⟨keyed, hkeyed, hasc⟩ := hcanonical entries hentries
      obtain ⟨found, hfound, hlocates⟩ := search_locates hkeyed hasc hquery
      have hsorted := sortedMap_dropAt hkeyed hasc hlocates
      simp only [bind_some, hkeyed, mapValue, hsorted, removed_eq, hfound,
        map_some, pure_def, bind_eq_bind]

theorem agrees_payload (h : file register = some held) {data : ConstValue → ConstData} :
    Agrees cells (some <$> (file register >>= fun payload ↦ fits ⟨resultType, data payload⟩))
      (some (⟨resultType, data held⟩, cells)) := by
  rw [h]
  exact agrees_fits

theorem mapM_cons_eq_some (h : (register :: registers).mapM file = some values) :
    ∃ held rest, file register = some held ∧ registers.mapM file = some rest ∧
      values = held :: rest := by
  rw [List.mapM_cons] at h
  obtain ⟨held, hheld, h⟩ := Option.bind_eq_some_iff.1 h
  obtain ⟨rest, hrest, h⟩ := Option.bind_eq_some_iff.1 h
  exact ⟨held, rest, hheld, hrest, (Option.some.inj h).symm⟩

theorem mapM_nil_eq_some (h : ([] : List Register).mapM file = some values) : values = [] := by
  rw [List.mapM_nil] at h
  exact (Option.some.inj h).symm

theorem mapM_one_eq_some (h : [register].mapM file = some values) :
    ∃ held, file register = some held ∧ values = [held] := by
  obtain ⟨held, _, hheld, hrest, rfl⟩ := mapM_cons_eq_some h
  obtain rfl := mapM_nil_eq_some hrest
  exact ⟨held, hheld, rfl⟩

theorem mapM_two_eq_some {first second : Register}
    (h : [first, second].mapM file = some values) :
    ∃ held held', file first = some held ∧ file second = some held' ∧ values = [held, held'] := by
  obtain ⟨held, _, hheld, hrest, rfl⟩ := mapM_cons_eq_some h
  obtain ⟨held', hheld', rfl⟩ := mapM_one_eq_some hrest
  exact ⟨held, held', hheld, hheld', rfl⟩

theorem mapM_three_eq_some {first second third : Register}
    (h : [first, second, third].mapM file = some values) :
    ∃ held held' held'', file first = some held ∧ file second = some held' ∧
      file third = some held'' ∧ values = [held, held', held''] := by
  obtain ⟨held, _, hheld, hrest, rfl⟩ := mapM_cons_eq_some h
  obtain ⟨held', held'', hheld', hheld'', rfl⟩ := mapM_two_eq_some hrest
  exact ⟨held, held', held'', hheld, hheld', hheld'', rfl⟩

section

variable (h : registers.mapM file = some values)

include h

theorem agrees_sequenceNew : Agrees cells (some <$> (registers.mapM file >>= fun items ↦
      fits ⟨resultType, .sequence items⟩)) (some (⟨resultType, .sequence values⟩, cells)) := by
  rw [h]
  exact agrees_fits

theorem agrees_recordNew : Agrees cells (some <$> (entityOf immediate >>= fun definition ↦
      source.recordFields definition >>= fun fields ↦
        if fields.length ≠ registers.length then none else
          registers.mapM file >>= fun values ↦ fits ⟨resultType, .record ⟨definition,
            fields.zipWith (fun field value ↦ ⟨field.memberId, value⟩) values⟩⟩))
      (executeBorrowed source .recordNew immediate values resultType cells) := by
  unfold executeBorrowed
  cases hdefinition : entityOf immediate with
  | none => exact nofun
  | some definition =>
    cases hfields : source.recordFields definition with
    | none =>
      simp only [bind_eq_bind, bind_some, hfields, Option.bind_none]
      exact nofun
    | some fields =>
      have hlength : registers.length = values.length := (length_of_mapM h).symm
      simp only [bind_eq_bind, bind_some, hfields, h, hlength]
      split_ifs
      · exact nofun
      · exact agrees_fits

theorem agrees_variantNew :
    Agrees cells (if registers.length ≤ 1 then some <$> (variantOf immediate >>= fun variant ↦
        payloadFrom file registers >>= fun payload ↦
          fits ⟨resultType, .variant ⟨variant.definition, variant.memberId, payload⟩⟩)
        else some none)
      (executeBorrowed source .variantNew immediate values resultType cells) := by
  unfold executeBorrowed
  match registers with
  | [] =>
    obtain rfl := mapM_nil_eq_some h
    cases variantOf immediate with
    | none => exact fun result h ↦ absurd h (Option.not_mem_none result)
    | some variant => exact agrees_fits
  | [register] =>
    obtain ⟨held, hheld, rfl⟩ := mapM_one_eq_some h
    rw [payloadFrom, hheld]
    cases variantOf immediate with
    | none => exact fun result h ↦ absurd h (Option.not_mem_none result)
    | some variant => exact agrees_fits
  | _ :: _ :: _ => exact trivial

end

theorem agrees_tupleGet (h : file register = some held) :
    Agrees cells (some <$> (indexOf immediate >>= fun index ↦ file register >>= fun value ↦
      (selectItem index value).map snd))
      (executeBorrowed source .tupleGet immediate [held] resultType cells) := by
  refine agrees_of_eq ?_
  obtain ⟨valueType, data⟩ := held
  rw [h]
  cases hindex : indexOf immediate with
  | none => cases data <;> first | rfl | (unfold executeBorrowed; rw [hindex]; rfl)
  | some index =>
    cases data with
    | sequence items =>
      unfold executeBorrowed
      simp only [hindex, selectItem, itemsOf, bind_eq_bind, bind_some]
      cases items[index.toNat]? <;> rfl
    | _ => rfl

theorem agrees_recordGet (h : file register = some held) :
    Agrees cells (some <$> (memberOf immediate >>= fun member ↦ file register >>= fun value ↦
      (selectField member value).map snd))
      (executeBorrowed source .recordGet immediate [held] resultType cells) := by
  refine agrees_of_eq ?_
  obtain ⟨valueType, data⟩ := held
  rw [h]
  cases hmember : memberOf immediate with
  | none => cases data <;> first | rfl | (unfold executeBorrowed; rw [hmember]; rfl)
  | some member =>
    cases data with
    | record record =>
      unfold executeBorrowed
      simp only [hmember, selectField, fieldsOf, bind_eq_bind,
        bind_some, List.find?_eq_bind_findIdx?_getElem?]
      cases record.fields.findIdx? (·.memberId = member) with
      | none => rfl
      | some position =>
        simp only [bind_some]
        cases record.fields[position]? <;> rfl
    | _ => rfl

theorem agrees_vectorGet {vector index : Register} {held position : ConstValue}
    (hvector : file vector = some held) (hindex : file index = some position) :
    Agrees cells (some <$> (file index >>= fun value ↦ uIntOf value >>= fun position ↦
      file vector >>= fun value ↦ itemsOf value >>= fun items ↦
        some ⟨resultType, .option items[position.toNat]?⟩))
      (executeBorrowed source .vectorGet immediate [held, position] resultType cells) := by
  refine agrees_of_eq ?_
  obtain ⟨valueType, data⟩ := held
  obtain ⟨positionType, positionData⟩ := position
  rw [hvector, hindex]
  cases positionData with
  | uInt position => cases data <;> rfl
  | _ => cases data <;> rfl

theorem agrees_vectorSet {vector index replacement : Register} {held position item : ConstValue}
    (hvector : file vector = some held) (hindex : file index = some position)
    (hreplacement : file replacement = some item) :
    Agrees cells (some <$> (file index >>= fun value ↦ uIntOf value >>= fun position ↦
      resultTypesOf resultType >>= fun types ↦ file vector >>= fun value ↦ itemsOf value >>=
        fun items ↦ replaced resultType types.1 types.2 position items (file replacement)))
      (executeBorrowed source .vectorSet immediate [held, position, item] resultType cells) := by
  refine agrees_of_eq ?_
  obtain ⟨valueType, data⟩ := held
  obtain ⟨positionType, positionData⟩ := position
  rw [hvector, hindex, hreplacement]
  cases positionData with
  | uInt position =>
    cases htypes : resultTypesOf resultType with
    | none => cases data <;> first | rfl | (unfold executeBorrowed; rw [htypes]; rfl)
    | some types =>
      cases data with
      | sequence items =>
        unfold executeBorrowed
        simp only [htypes, uIntOf, itemsOf, replaced, bind_eq_bind, bind_some]
        split_ifs <;> rfl
      | _ => rfl
  | _ => cases data <;> rfl

/-- The instructions that search a map. -/
def searchesMap : Opcode → Bool
  | .mapGet | .mapContains | .mapInsert | .mapRemove => true
  | _ => false

/-- **The owned arms compute what the reference arms compute.** -/
theorem meaning_agrees {opcode : Opcode} {instruction : Instruction}
    (hvalues : instruction.operands.mapM file = some values)
    (hmap : searchesMap opcode = true → ∀ map ∈ values.head?, CanonicalMap map) :
    Agrees cells (meaning source file opcode instruction resultType)
      (executeBorrowed source opcode instruction.immediate values resultType cells) := by
  obtain ⟨tag, operands, results, immediate⟩ := instruction
  replace hvalues : operands.mapM file = some values := hvalues
  cases opcode
  case constantRef =>
    match operands with
    | [] =>
      obtain rfl := mapM_nil_eq_some hvalues
      refine agrees_of_eq ?_
      unfold executeBorrowed
      cases entityOf immediate with
      | none => rfl
      | some id =>
        simp only [bind_eq_bind, bind_some]
        cases source.constants.find? (·.entityId = id) <;> rfl
    | _ :: _ => exact trivial
  case tupleNew => exact agrees_sequenceNew hvalues
  case vectorNew => exact agrees_sequenceNew hvalues
  case recordNew => exact agrees_recordNew hvalues
  case variantNew => exact agrees_variantNew hvalues
  case optionSome | resultOk | resultErr =>
    match operands with
    | [register] =>
      obtain ⟨held, hheld, rfl⟩ := mapM_one_eq_some hvalues
      exact agrees_payload hheld
    | [] | _ :: _ :: _ => exact trivial
  case tupleGet =>
    match operands with
    | [register] =>
      obtain ⟨held, hheld, rfl⟩ := mapM_one_eq_some hvalues
      exact agrees_tupleGet hheld
    | [] | _ :: _ :: _ => exact trivial
  case recordGet =>
    match operands with
    | [register] =>
      obtain ⟨held, hheld, rfl⟩ := mapM_one_eq_some hvalues
      exact agrees_recordGet hheld
    | [] | _ :: _ :: _ => exact trivial
  case vectorGet =>
    match operands with
    | [vector, index] =>
      obtain ⟨held, position, hheld, hposition, rfl⟩ := mapM_two_eq_some hvalues
      exact agrees_vectorGet hheld hposition
    | [] | [_] | _ :: _ :: _ :: _ => exact trivial
  case vectorSet =>
    match operands with
    | [vector, index, replacement] =>
      obtain ⟨held, position, item, hheld, hposition, hitem, rfl⟩ := mapM_three_eq_some hvalues
      exact agrees_vectorSet hheld hposition hitem
    | [] | [_] | [_, _] | _ :: _ :: _ :: _ :: _ => exact trivial
  case mapGet =>
    match operands with
    | [map, key] =>
      obtain ⟨mapHeld, keyHeld, hmapHeld, hkeyHeld, rfl⟩ := mapM_two_eq_some hvalues
      have hfind {borrowed : Option (ConstValue × Cells)} (h : borrowed = _) :
          Agrees cells _ borrowed :=
        agrees_mapFind (fun entry ↦ ConstValue.mk resultType (.option (entry.map (·.value))))
          hmapHeld hkeyHeld (hmap rfl mapHeld rfl) h
      refine hfind ?_
      unfold executeBorrowed
      simp only [Option.map_map]
      rfl
    | [] | [_] | _ :: _ :: _ :: _ => exact trivial
  case mapContains =>
    match operands with
    | [map, key] =>
      obtain ⟨mapHeld, keyHeld, hmapHeld, hkeyHeld, rfl⟩ := mapM_two_eq_some hvalues
      refine agrees_mapFind (fun entry ↦ boolValue entry.isSome) hmapHeld hkeyHeld
        (hmap rfl mapHeld rfl) ?_
      unfold executeBorrowed
      simp only [Option.isSome_map, List.isSome_find?]
      rfl
    | [] | [_] | _ :: _ :: _ :: _ => exact trivial
  case mapInsert =>
    match operands with
    | [map, key, value] =>
      obtain ⟨mapHeld, keyHeld, held, hmapHeld, hkeyHeld, hheld, rfl⟩ := mapM_three_eq_some hvalues
      exact agrees_mapInsert hmapHeld hkeyHeld hheld (hmap rfl mapHeld rfl)
    | [] | [_] | [_, _] | _ :: _ :: _ :: _ :: _ => exact trivial
  case mapRemove =>
    match operands with
    | [map, key] =>
      obtain ⟨mapHeld, keyHeld, hmapHeld, hkeyHeld, rfl⟩ := mapM_two_eq_some hvalues
      exact agrees_mapRemove hmapHeld hkeyHeld (hmap rfl mapHeld rfl)
    | [] | [_] | _ :: _ :: _ :: _ => exact trivial
  all_goals exact trivial

end Agrees

end Owned

/-! ### Owned execution -/

/-- What owned execution does agrees with a result of the reference arm: it defers and changes
nothing, or produces a runtime value that presents the same result, or faults where there is none or
its units do not fit. -/
def OwnedAgrees (start : Runtime) (borrowed : Option (ConstValue × Cells)) :
    Except Stop (Option RuntimeValue) × Runtime → Prop
  | (.ok none, runtime) => runtime = start
  | (.ok (some value), runtime) => ∃ shown, borrowed = some (shown, runtime.cells) ∧
      value.Presents shown
  | (.error reason, _) => reason = .fault ∧ ∀ result ∈ borrowed, 2 ^ 64 ≤ size result.1

/-- **Owned execution agrees with the reference arms**, and all that it caches is exact: whatever the
instruction, its operands and their representation, and whichever of the operands that appear once
the mask marks, where the map that is searched is in canonical order. -/
theorem owned_agrees {unique : Bool} {source : ExecutionSource} {opcode : Opcode}
    {instruction : Instruction} {mask : UInt64} {resultType : TypeExpr} {start : Runtime}
    {values : List ConstValue} (hready : Ready mask instruction.operands start)
    (hvalues : instruction.operands.mapM start.file = some values)
    (hmap : Owned.searchesMap opcode = true → ∀ map ∈ values.head?, CanonicalMap map) :
    OwnedAgrees start
      (executeBorrowed source opcode instruction.immediate values resultType start.cells)
      (Owned.execute unique source opcode instruction mask resultType start) := by
  have hagrees : Owned.Agrees start.cells
      (Owned.meaning source start.file opcode instruction resultType)
      (executeBorrowed source opcode instruction.immediate values resultType start.cells) :=
    Owned.meaning_agrees hvalues hmap
  have hfollows : Follows .fault (Owned.Produced mask instruction.operands start) (Faulted start)
      (Owned.meaning source start.file opcode instruction resultType)
      (Owned.execute unique source opcode instruction mask resultType start) :=
    Owned.follows_execute hready
  generalize Owned.meaning source start.file opcode instruction resultType = meaning at *
  generalize Owned.execute unique source opcode instruction mask resultType start = result at *
  cases hfollows with
  | none => exact ⟨rfl, hagrees⟩
  | @some shown value runtime hproduced =>
    cases shown with
    | none =>
      cases value with
      | none => exact hproduced
      | some value => exact hproduced.elim
    | some shown =>
      cases value with
      | none => exact hproduced.elim
      | some value =>
        obtain ⟨hpresents, hkept⟩ := hproduced
        refine ⟨shown, ?_, hpresents⟩
        rw [hkept.eq]
        exact hagrees

/-! ### Fixed runs -/

/-- A program without definitions. -/
def quietSource : ExecutionSource where
  extended := true
  definition := fun _ ↦ none
  constants := []
  globals := []
  contracts := []
  pushUse := fun _ _ _ ↦ none
  bridgeElements := fun _ _ ↦ none
  calculate := fun _ _ _ _ ↦ none
  fields_le := nofun
  constants_narrow := nofun
  calculate_narrow := nofun

/-- A frame whose registers hold some constants. -/
def holding (values : List ConstValue) : Runtime where
  instructionCount := 0
  fuelUsed := 0
  liveValueUnits := 0
  peakValueUnits := 0
  registers := values.map fun value ↦ some (.new value)
  block := 0
  cells := []
  maxCallDepth := 0
  peakCallDepth := 0
  returned := none

def number (value : Nat) : ConstValue := ⟨.uInt ⟨8⟩, .uInt (BitVec.ofNat 128 value)⟩

/-- A map from numbers to nothing. -/
def numbers (keys : List Nat) : ConstValue :=
  ⟨.orderedMap (.uInt ⟨8⟩) .unit, .map (keys.map fun key ↦ ⟨number key, ⟨.unit, .unit⟩⟩)⟩

theorem canonicalMap_numbers (key : Nat) (h : (keyBytes (number key)).isSome) :
    CanonicalMap (numbers [key]) := by
  intro entries hentries
  obtain rfl := Option.some.inj hentries
  obtain ⟨bytes, hbytes⟩ := Option.isSome_iff_exists.1 h
  refine ⟨[(bytes, ⟨number key, ⟨.unit, .unit⟩⟩)], ?_, List.pairwise_singleton _ _⟩
  exact keyedEntries_eq_some.2 ⟨rfl, by simpa using hbytes⟩

def insertInstruction : Instruction := ⟨Opcode.mapInsert.tag, [0, 1, 2], [3], .none⟩

theorem owned_agrees_insert :
    OwnedAgrees (holding [numbers [1], number 2, ⟨.unit, .unit⟩])
      (executeBorrowed quietSource .mapInsert .none [numbers [1], number 2, ⟨.unit, .unit⟩]
        (.orderedMap (.uInt ⟨8⟩) .unit) [])
      (Owned.execute true quietSource .mapInsert insertInstruction 3
        (.orderedMap (.uInt ⟨8⟩) .unit) (holding [numbers [1], number 2, ⟨.unit, .unit⟩])) := by
  have hholds {value : ConstValue} (hnarrow : Narrow value)
      (hlt : (valueUnitsConst value).toNat < 2 ^ 64 - 1) : (RuntimeValue.new value).Holds value :=
    (RuntimeValue.presents_new hnarrow).holds hlt
  refine owned_agrees ⟨fun k r _ hr ↦ ?_, fun r hr value hvalue ↦ ?_⟩ rfl fun _ map hmap ↦ ?_
  · have hnodup : insertInstruction.operands.Nodup := by decide
    exact List.count_eq_one_of_mem hnodup (List.mem_of_getElem? hr)
  · simp only [insertInstruction, List.mem_cons, List.not_mem_nil, or_false] at hr
    obtain rfl | rfl | rfl := hr
    · obtain rfl := Option.some.inj hvalue
      exact ⟨_, hholds (by simp [numbers, number, Narrow, NarrowData]) (by decide)⟩
    · obtain rfl := Option.some.inj hvalue
      exact ⟨_, hholds trivial (by decide)⟩
    · obtain rfl := Option.some.inj hvalue
      exact ⟨_, hholds trivial (by decide)⟩
  · obtain rfl := Option.some.inj hmap
    exact canonicalMap_numbers 1 (by with_unfolding_all decide)

def containsInstruction : Instruction := ⟨Opcode.mapContains.tag, [0, 1], [2], .none⟩

/-- A byte string of `2 ^ 63` bytes. -/
def hugeBytes : ConstValue := ⟨.bytes, .bytes (List.replicate (2 ^ 63) 0)⟩

def pairInstruction : Instruction := ⟨Opcode.vectorNew.tag, [0, 0], [1], .none⟩

/-- In a map out of order the search by halving misses a key, and a pair of huge byte strings has
too many units for the owned arm. -/
theorem owned_differs :
    (((Owned.execute false quietSource .mapContains containsInstruction 0 .bool
        (holding [numbers [2, 1], number 2])).1.toOption.join.bind RuntimeValue.value =
          some (boolValue false)) ∧
      executeBorrowed quietSource .mapContains .none [numbers [2, 1], number 2] .bool [] =
        some (boolValue true, [])) ∧
    ((Owned.execute false quietSource .vectorNew pairInstruction 0 (.vector .bytes)
        (holding [hugeBytes])).1 = .error .fault ∧
      executeBorrowed quietSource .vectorNew .none [hugeBytes, hugeBytes] (.vector .bytes) [] =
        some (⟨.vector .bytes, .sequence [hugeBytes, hugeBytes]⟩, [])) := by
  refine ⟨⟨by with_unfolding_all decide, by with_unfolding_all decide⟩, ?_, rfl⟩
  have hsize : size hugeBytes = 2 ^ 63 + 3 := by
    rw [hugeBytes, size, dataSize, List.length_replicate, typeSize]
    omega
  have hholds : (RuntimeValue.new hugeBytes).Holds hugeBytes := by
    have hnarrow : Narrow hugeBytes := trivial
    refine (RuntimeValue.presents_new hnarrow).holds ?_
    rw [RuntimeValue.new, RuntimeValue.withUnits, toNat_valueUnitsConst, hsize]
    decide
  have hready : Ready 0 pairInstruction.operands (holding [hugeBytes]) := by
    refine ⟨fun k r hk ↦ ?_, fun r hr value hvalue ↦ ?_⟩
    · simp [isDead] at hk
    · obtain rfl : r = 0 := by simpa [pairInstruction] using hr
      obtain rfl := Option.some.inj hvalue
      exact ⟨_, hholds⟩
  have hfollows : Follows .fault _ _
      (Owned.meaning quietSource (holding [hugeBytes]).file .vectorNew pairInstruction
        (.vector .bytes))
      (Owned.execute false quietSource .vectorNew pairInstruction 0 (.vector .bytes)
        (holding [hugeBytes])) := Owned.follows_execute hready
  have hmeaning : Owned.meaning quietSource (holding [hugeBytes]).file .vectorNew pairInstruction
      (.vector .bytes) = none := by
    have hmeaning (v : ConstValue) : Owned.meaning quietSource (holding [v]).file .vectorNew
        pairInstruction (.vector .bytes) = some <$> fits ⟨.vector .bytes, .sequence [v, v]⟩ := rfl
    have hpair (v : ConstValue) : size ⟨.vector .bytes, .sequence [v, v]⟩ = 6 + 2 * size v := by
      simp only [size, typeSize, dataSize, sizes, List.length_cons, List.length_nil]
      omega
    rw [hmeaning, fits, hpair, hsize, if_neg (by decide)]
    rfl
  rw [hmeaning] at hfollows
  generalize Owned.execute _ _ _ _ _ _ _ = result at *
  cases hfollows with
  | none => rfl

end Sley.Vm
