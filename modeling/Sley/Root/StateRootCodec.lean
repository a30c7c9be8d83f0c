import Sley.Root.StateRoot

/-!
# State roots round-trip

The encoder and the strict decoder of the state-root payload are two views of one relation: **the
decoder accepts exactly the encodings of records in canonical order** (`decodePayload_eq_ok`), and
the envelope around the payload is determined by it (`decodeEnvelope_eq_ok`). So what the builder
emits is imported as it was built, and what is imported is what the encoder writes.
-/

namespace Sley.Root

open Scb1 Schema
open Except hiding ok error
open Cursor (exists_consumes_of_rest new new_rest)
open List (append_nil length_append length_map)
open StateT (run_bind_eq_ok run_ofExcept_eq_ok run_pure_eq_ok)
open Leb128 (encode encode_ne_nil)
open Id (splat)
open Prod (fst mk)

/-! ### Collections -/

variable {kind : IdKind}

theorem exactArray_eq_ok {input : Bytes} {id : Id kind} :
    exactArray input = .ok id ↔ id.bytes = input := by
  unfold exactArray
  split
  · rw [Except.ok.injEq, eq_comm, Id.ext_iff]
  · rename_i h
    simp only [reduceCtorEq, false_iff]
    rintro rfl
    exact h id.length_eq

theorem length_bytes_le (id : Id kind) : id.bytes.length ≤ maxStandaloneBytes := by
  rw [id.length_eq]
  decide

theorem readSizedId_eq_ok {r r' : Reader} {id : Id kind} :
    (readSizedId kind).run r = .ok (id, r') ↔ r.Consumes (sizedBytes id.bytes) r' := by
  simp only [readSizedId, run_bind_eq_ok, run_ofExcept_eq_ok, exactArray_eq_ok,
    Reader.readSizedPayload_eq_ok]
  constructor
  · rintro ⟨_, _, ⟨-, hcons⟩, rfl, rfl⟩
    exact hcons
  · intro hcons
    exact ⟨_, _, ⟨length_bytes_le id, hcons⟩, rfl, rfl⟩

section Ascending

variable {κ β : Type} [Ord κ] [DecidableEq κ] [Std.LawfulEqOrd κ]

theorem checkKeyOrder_eq_ok {previous : Option κ} {key : κ} {u : Unit} :
    checkKeyOrder previous key = .ok u ↔ ∀ q ∈ previous, compare q key = .lt := by
  simp only [checkKeyOrder, bind_eq_ok, rejectIf_eq_ok, exists_const]
  cases previous with
  | none => simp
  | some q =>
    simp only [Option.any_some, decide_eq_true_eq, Option.some.injEq, Option.mem_some_iff,
      forall_eq']
    rw [← Std.LawfulEqOrd.compare_eq_iff_eq (a := q)]
    cases compare q key <;> simp

/-- What one element is: the key it is ordered by and the bytes it is written as. -/
structure ElementSpec (readKey : ScbReader κ) (readRest : κ → ScbReader β) (key : β → κ)
    (bytes : β → Bytes) : Prop where
  read_iff : ∀ {r r' : Reader} {k : κ} {v : β},
    (∃ r₁, readKey.run r = .ok (k, r₁) ∧ (readRest k).run r₁ = .ok (v, r')) ↔
      k = key v ∧ r.Consumes (bytes v) r'

variable [Std.TransOrd κ] {readKey : ScbReader κ} {readRest : κ → ScbReader β} {key : β → κ}
  {bytes : β → Bytes}

/-- **The loop reads the elements whose keys ascend**, from above the key before the first. -/
theorem readAscending_eq_ok (spec : ElementSpec readKey readRest key bytes) {n : Nat}
    {previous : Option κ} {elements : List β} {r r' : Reader} :
    (readAscending readKey readRest n previous).run r = .ok (elements, r') ↔
      elements.length = n ∧ (∀ q ∈ previous, ∀ v ∈ elements, compare q (key v) = .lt) ∧
        Ascends key elements ∧ r.Consumes (elements.flatMap bytes) r' := by
  induction n generalizing previous elements r r' with
  | zero =>
    rw [readAscending, run_pure_eq_ok, List.length_eq_zero_iff]
    constructor
    · rintro ⟨rfl, rfl⟩
      exact ⟨rfl, by simp, .nil, Cursor.Consumes.refl _⟩
    · rintro ⟨rfl, -, -, hcons⟩
      exact ⟨rfl, hcons.unique (Cursor.Consumes.refl _)⟩
  | succ n ih =>
    simp only [readAscending, run_bind_eq_ok, run_ofExcept_eq_ok,
      checkKeyOrder_eq_ok, ih, run_pure_eq_ok]
    constructor
    · rintro ⟨k, r₁, hkey, _, _, ⟨hprev, rfl⟩, v, r₂, hrest, vs, r₃, ⟨hlen, hlt, hasc, hcons⟩, rfl,
        rfl⟩
      obtain ⟨rfl, hv⟩ := spec.read_iff.1 ⟨_, hkey, hrest⟩
      have hbelow : ∀ w ∈ vs, compare (key v) (key w) = .lt := hlt _ rfl
      refine ⟨by rw [List.length_cons, hlen], fun q hq ↦ ?_, List.pairwise_cons.2 ⟨hbelow, hasc⟩,
        by rw [List.flatMap_cons]; exact hv.trans hcons⟩
      exact List.forall_mem_cons.2 ⟨hprev q hq, fun w hw ↦
        Std.TransCmp.lt_trans (hprev q hq) (hbelow w hw)⟩
    · rintro ⟨hlen, hprev, hasc, hcons⟩
      obtain ⟨v, vs, rfl⟩ := List.exists_cons_of_length_eq_add_one hlen
      obtain ⟨hbelow, hasc⟩ := List.pairwise_cons.1 hasc
      rw [List.flatMap_cons, Cursor.consumes_append_iff] at hcons
      obtain ⟨r₂, hv, hcons⟩ := hcons
      obtain ⟨r₁, hkey, hrest⟩ := spec.read_iff.2 ⟨rfl, hv⟩
      refine ⟨key v, r₁, hkey, (), r₁, ⟨fun q hq ↦ hprev q hq v List.mem_cons_self, rfl⟩, v, r₂,
        hrest, vs, r', ⟨Nat.succ.inj hlen, ?_, hasc, hcons⟩, rfl, rfl⟩
      intro q hq
      obtain rfl := Option.mem_some_iff.1 hq
      exact hbelow

theorem length_flatMap_ge {unit : Nat} (hunit : ∀ v, unit ≤ (bytes v).length) (vs : List β) :
    vs.length * unit ≤ (vs.flatMap bytes).length := by
  induction vs with
  | nil => simp
  | cons v vs ih =>
    have := hunit v
    rw [List.length_cons, List.flatMap_cons, length_append, Nat.add_one_mul]
    omega

/-- A collection is its count and its elements, in order. -/
theorem decodeAscending_eq_ok (spec : ElementSpec readKey readRest key bytes) {unit : Nat}
    (hpos : 0 < unit) (hunit : ∀ v, unit ≤ (bytes v).length) {input : Bytes} {elements : List β} :
    decodeAscending unit readKey readRest input = .ok elements ↔
      elements.length ≤ maxCollectionElements ∧ Ascends key elements ∧
        input = encode elements.length ++ elements.flatMap bytes := by
  simp only [decodeAscending, bind_eq_ok, Prod.exists, Reader.readListCount_eq_ok,
    rejectIf_eq_ok, exists_const, readAscending_eq_ok spec, Reader.checkFinished_eq_ok,
    pure_eq_ok, gt_iff_lt, Nat.not_lt, Cursor.remaining_eq]
  constructor
  · rintro ⟨_, r, ⟨hmax, hcount⟩, -, _, r', ⟨rfl, -, hasc, hcons⟩, hfin, rfl⟩
    have hinput := (hcount.trans hcons).rest_eq
    rw [new_rest, hfin, append_nil] at hinput
    exact ⟨hmax, hasc, hinput⟩
  · rintro ⟨hmax, hasc, rfl⟩
    obtain ⟨r', hcons, hfin⟩ := exists_consumes_of_rest (c := new _)
      (show (new (encode elements.length ++ elements.flatMap bytes)).rest = _ ++ []
        by rw [new_rest, append_nil])
    obtain ⟨r, hcount, hcons⟩ := hcons.split
    refine ⟨_, r, ⟨hmax, hcount⟩, ?_, _, r', ⟨rfl, by simp, hasc, hcons⟩, hfin, rfl⟩
    rw [Nat.le_div_iff_mul_le hpos]
    exact (length_flatMap_ge hunit elements).trans hcons.length_le

end Ascending

/-- A binding as it is written. -/
def bindingBytes (binding : EntityId × ObjectId) : Bytes :=
  entryBytes (binding.1.bytes, binding.2.bytes)

variable {input : Bytes}

theorem decodeBindings_eq_ok {bindings : List (EntityId × ObjectId)} :
    decodeBindings input = .ok bindings ↔
      bindings.length ≤ maxCollectionElements ∧ Ascends fst bindings ∧
        input = encode bindings.length ++ bindings.flatMap bindingBytes := by
  refine decodeAscending_eq_ok ⟨fun {r r' k v} ↦ ?_⟩ (by decide) fun v ↦ ?_
  · simp only [run_bind_eq_ok, run_pure_eq_ok, readSizedId_eq_ok, bindingBytes,
      entryBytes, Cursor.consumes_append_iff]
    constructor
    · rintro ⟨r₁, hkey, object, _, hvalue, rfl, rfl⟩
      exact ⟨rfl, r₁, hkey, hvalue⟩
    · rintro ⟨rfl, r₁, hkey, hvalue⟩
      exact ⟨r₁, hkey, v.2, r', hvalue, rfl, rfl⟩
  · rw [bindingBytes, entryBytes, sizedBytes, sizedBytes]
    simp only [length_append, v.1.length_eq, v.2.length_eq]
    omega

theorem decodeFixedSet_eq_ok {kind : IdKind} {ids : List (Id kind)} :
    decodeFixedSet kind input = .ok ids ↔ ids.length ≤ maxCollectionElements ∧ Ascends id ids ∧
        input = encode ids.length ++ ids.flatMap fun v ↦ sizedBytes v.bytes := by
  refine decodeAscending_eq_ok ⟨fun {r r' k v} ↦ ?_⟩ (by decide) fun v ↦ ?_
  · simp only [run_pure_eq_ok, readSizedId_eq_ok, id]
    constructor
    · rintro ⟨_, hkey, rfl, rfl⟩
      exact ⟨rfl, hkey⟩
    · rintro ⟨rfl, hkey⟩
      exact ⟨r', hkey, rfl, rfl⟩
  · have : (encode v.bytes.length).length = 1 := by
      rw [v.length_eq, Leb128.encode_of_lt (by decide), List.length_singleton]
    rw [sizedBytes, length_append, this, v.length_eq]

theorem decodeFlag_eq_ok {element : Bytes} {flag : UInt32} :
    decodeFlag element = .ok flag ↔ element = encode flag.toNat := by
  simp only [decodeFlag, bind_eq_ok, Prod.exists, Reader.readTag_eq_ok,
    Reader.checkFinished_eq_ok, exists_const, pure_eq_ok]
  constructor
  · rintro ⟨_, r, hcons, hfin, rfl⟩
    have hinput := hcons.rest_eq
    rwa [new_rest, hfin, append_nil] at hinput
  · rintro rfl
    obtain ⟨r, hcons, hfin⟩ := exists_consumes_of_rest
      (show (new (encode flag.toNat)).rest = _ ++ [] by
        rw [new_rest, append_nil])
    exact ⟨_, r, hcons, hfin, rfl⟩

/-- Flags are ordered by the bytes they are written as. -/
def flagKey (flag : UInt32) : Bytes := encode flag.toNat

theorem length_flagKey_le (flag : UInt32) : (flagKey flag).length ≤ maxStandaloneBytes :=
  (Leb128.length_encode_le (k := 5) (by decide) (flag.toNat_lt.trans (by decide))).trans
    (by decide)

theorem decodeU32SetPayload_eq_ok {flags : List UInt32} : decodeU32SetPayload input = .ok flags ↔
      flags.length ≤ maxCollectionElements ∧ Ascends flagKey flags ∧
        input = encode flags.length ++ flags.flatMap fun v ↦ sizedBytes (flagKey v) := by
  refine decodeAscending_eq_ok ⟨fun {r r' k v} ↦ ?_⟩ (by decide) fun v ↦ ?_
  · simp only [Reader.readSizedPayload_eq_ok, run_ofExcept_eq_ok, decodeFlag_eq_ok]
    constructor
    · rintro ⟨_, ⟨-, hcons⟩, rfl, rfl⟩
      exact ⟨rfl, hcons⟩
    · rintro ⟨rfl, hcons⟩
      exact ⟨r', ⟨length_flagKey_le v, hcons⟩, rfl, rfl⟩
  · have := List.length_pos_iff.2 (encode_ne_nil (flagKey v).length)
    rw [sizedBytes, length_append]
    omega

/-! ### The payload -/

namespace StateRootRecord

/-- The collections of the record are in canonical order. -/
structure Canonical (record : StateRootRecord) : Prop where
  bindings : Ascends fst record.entityBindings
  entryPoints : Ascends id record.entryPoints
  dependencyRoots : Ascends id record.dependencyRoots
  interpretationFlags : Ascends flagKey record.interpretationFlags

/-- The nine fields of a record, given its four collections as they are written. -/
def fields (record : StateRootRecord) (bindings entryPoints dependencyRoots flags : Bytes) :
    List Field :=
  [(1, record.workspaceId.bytes), (2, record.schemaEpochId.bytes), (3, bindings), (4, entryPoints),
    (5, dependencyRoots), (6, record.contractRoot.bytes), (7, record.testRoot.bytes),
    (8, record.policyRoot.bytes), (9, flags)]

end StateRootRecord

theorem encodeIdSet_eq_ok {kind : IdKind} {ids : List (Id kind)} {bs : Bytes} :
    encodeIdSet ids = .ok bs ↔ ids.length ≤ maxCollectionElements ∧
      bs = encode ids.length ++ ids.flatMap fun v ↦ sizedBytes v.bytes := by
  rw [encodeIdSet, encodeList_eq_ok, length_map, List.flatMap_map]
  refine and_congr_right fun _ ↦ and_iff_right ?_
  intro bytes hbytes
  obtain ⟨v, -, rfl⟩ := List.mem_map.1 hbytes
  exact length_bytes_le v

theorem encodeU32Set_eq_ok {flags : List UInt32} {bs : Bytes} :
    encodeU32Set flags = .ok bs ↔ flags.length ≤ maxCollectionElements ∧
      bs = encode flags.length ++ flags.flatMap fun v ↦ sizedBytes (flagKey v) := by
  simp only [encodeU32Set, encodeUvar_tag, encodeList_eq_ok, length_map, List.flatMap_map]
  refine and_congr_right fun _ ↦ and_iff_right ?_
  intro bytes hbytes
  obtain ⟨v, -, rfl⟩ := List.mem_map.1 hbytes
  exact length_flagKey_le v

theorem map_bindings_ascends {bindings : List (EntityId × ObjectId)}
    (h : Ascends fst bindings) :
    Ascends fst (bindings.map fun b ↦ (b.1.bytes, b.2.bytes)) :=
  List.pairwise_map.2 h

variable {record : StateRootRecord} {payload : Bytes} {fields fields' : List Field}

/-- The encoding of a record whose bindings are in order. -/
theorem encodePayload_eq_ok (h : Ascends fst record.entityBindings) :
    encodePayload record = .ok payload ↔ ∃ bindings entryPoints dependencyRoots flags,
        (record.entityBindings.length ≤ maxCollectionElements ∧ bindings =
          encode record.entityBindings.length ++ record.entityBindings.flatMap bindingBytes) ∧
        encodeIdSet record.entryPoints = .ok entryPoints ∧
        encodeIdSet record.dependencyRoots = .ok dependencyRoots ∧
        encodeU32Set record.interpretationFlags = .ok flags ∧
        (∀ f ∈ record.fields bindings entryPoints dependencyRoots flags,
          f.2.length ≤ maxStandaloneBytes) ∧
        payload = encode 9 ++ (record.fields bindings entryPoints dependencyRoots flags).flatMap
            fun f ↦ taggedBytes f.1 f.2 := by
  have hmap : ∀ {bs : Bytes}, encodeMap (record.entityBindings.map fun b ↦
      (b.1.bytes, b.2.bytes)) = .ok bs ↔ record.entityBindings.length ≤ maxCollectionElements ∧
        bs = encode record.entityBindings.length ++ record.entityBindings.flatMap bindingBytes := by
    intro bs
    rw [encodeMap_eq_ok (map_bindings_ascends h), length_map, List.flatMap_map]
    refine and_congr_right fun _ ↦ and_iff_right ?_
    intro e he
    obtain ⟨b, -, rfl⟩ := List.mem_map.1 he
    exact ⟨length_bytes_le _, length_bytes_le _⟩
  have hrecord : ∀ {b e d f : Bytes}, encodeRecord (record.fields b e d f) = .ok payload ↔
      (∀ g ∈ record.fields b e d f, g.2.length ≤ maxStandaloneBytes) ∧ payload = encode 9 ++
          (record.fields b e d f).flatMap fun g ↦ taggedBytes g.1 g.2 := by
    intro b e d f
    rw [encodeRecord_eq_ok (by simp only [StateRootRecord.fields, List.map]; decide)]
    exact and_iff_right (show 9 ≤ maxRecordFields by decide)
  simp only [encodePayload, mapError_eq_ok, bind_eq_ok, hmap]
  constructor
  · rintro ⟨b, hb, e, he, d, hd, f, hf, hfields⟩
    exact ⟨b, e, d, f, hb, he, hd, hf, hrecord.1 hfields⟩
  · rintro ⟨b, e, d, f, hb, he, hd, hf, hfields⟩
    exact ⟨b, hb, e, he, d, hd, f, hf, hrecord.2 hfields⟩

/-- What is encoded is within the limits that the builder checks first. -/
theorem encodePayload_lengths
    (hasc : Ascends fst record.entityBindings) (h : encodePayload record = .ok payload) :
    record.entityBindings.length ≤ maxCollectionElements ∧
      record.entryPoints.length ≤ maxCollectionElements ∧
      record.dependencyRoots.length ≤ maxCollectionElements := by
  obtain ⟨b, e, d, f, ⟨hb, -⟩, he, hd, -⟩ := (encodePayload_eq_ok hasc).1 h
  exact ⟨hb, (encodeIdSet_eq_ok.1 he).1, (encodeIdSet_eq_ok.1 hd).1⟩

theorem fillFields_collect {fields acc : List Field} :
    fillFields (fun tag value fields ↦ .ok (fields ++ [(tag, value)])) fields acc =
      .ok (acc ++ fields) := by
  induction fields generalizing acc with
  | nil => rw [fillFields, append_nil]
  | cons f fs ih => rw [fillFields, ok_bind, ih, List.append_assoc, List.singleton_append]

theorem two_le_length_taggedBytes (f : Field) : 2 ≤ (taggedBytes f.1 f.2).length := by
  have htag := List.length_pos_iff.2 (encode_ne_nil f.1.toNat)
  have hlen := List.length_pos_iff.2 (encode_ne_nil f.2.length)
  rw [taggedBytes, sizedBytes, length_append, length_append]
  omega

theorem recordFields_eq_ok {input : Bytes} {fields : List Field} : recordFields input = .ok fields ↔
      9 ≤ fields.length ∧ fields.length ≤ maxRecordFields ∧ AscendingFields none fields ∧
        (∀ f ∈ fields, f.2.length ≤ maxStandaloneBytes) ∧
        input = encode fields.length ++ fields.flatMap fun f ↦ taggedBytes f.1 f.2 := by
  simp only [recordFields, bind_eq_ok, Prod.exists, Reader.readRecordFieldCount_eq_ok,
    rejectIf_eq_ok, exists_const, foldFields_eq_ok, fillFields_collect, List.nil_append,
    Except.ok.injEq, Reader.checkFinished_eq_ok, pure_eq_ok, gt_iff_lt, Nat.not_lt,
    Cursor.remaining_eq]
  constructor
  · rintro ⟨_, r, ⟨hmax, hcount⟩, hmin, -, _, r', ⟨fs, rfl, hasc, hlen, hcons, rfl⟩, hfin, rfl⟩
    have hinput := (hcount.trans hcons).rest_eq
    rw [new_rest, hfin, append_nil] at hinput
    exact ⟨hmin, hmax, hasc, hlen, hinput⟩
  · rintro ⟨hmin, hmax, hasc, hlen, rfl⟩
    obtain ⟨r', hcons, hfin⟩ := exists_consumes_of_rest (c := new _)
      (show (new (encode fields.length ++
          fields.flatMap fun f ↦ taggedBytes f.1 f.2)).rest = _ ++ []
        by rw [new_rest, append_nil])
    obtain ⟨r, hcount, hcons⟩ := hcons.split
    refine ⟨_, r, ⟨hmax, hcount⟩, hmin, ?_, _, r', ⟨fields, rfl, hasc, hlen, hcons, rfl⟩, hfin, rfl⟩
    rw [Nat.le_div_iff_mul_le (by decide)]
    exact (length_flatMap_ge two_le_length_taggedBytes fields).trans hcons.length_le

/-- A removed field and what is left are together what was there. -/
theorem required_perm {tag : UInt32} (h : (required tag).run fields = .ok (payload, fields')) :
    fields.Perm ((tag, payload) :: fields') := by
  simp only [required, StateT.run] at h
  split at h
  · rename_i field hfind
    obtain ⟨rfl, rfl⟩ := mk.inj (Except.ok.inj h)
    obtain ⟨htag, before, after, rfl, hbefore⟩ := List.find?_eq_some_iff_append.1 hfind
    have htag : field.1 = tag := by simpa using htag
    have hskip : ∀ f ∈ before, ¬ decide (f.1 = tag) = true := fun f hf ↦ by
      simpa using hbefore f hf
    rw [List.eraseP_append_right _ hskip, List.eraseP_cons_of_pos (by simpa using htag), ← htag]
    exact List.perm_middle
  · cases h

theorem required_cons (tag : UInt32) (payload : Bytes) (fields : List Field) :
    (required tag).run ((tag, payload) :: fields) = .ok (payload, fields) := by
  simp [required, StateT.run]

theorem requiredWith_eq_ok {α : Type} {tag : UInt32} {decode : Bytes → Scb1.Result α} {value : α} :
    (requiredWith tag decode).run fields = .ok (value, fields') ↔
      ∃ payload, (required tag).run fields = .ok (payload, fields') ∧
        decode payload = .ok value := by
  simp only [requiredWith, run_bind_eq_ok, run_ofExcept_eq_ok]
  constructor
  · rintro ⟨payload, _, hreq, hdec, rfl⟩
    exact ⟨payload, hreq, hdec⟩
  · rintro ⟨payload, hreq, hdec⟩
    exact ⟨payload, _, hreq, hdec, rfl⟩

/-- **Nothing is left exactly when the fields are the nine of the record.** -/
theorem takeRecord_eq_ok {fields : List Field} (hasc : AscendingFields none fields) :
    takeRecord.run fields = .ok (record, []) ↔ ∃ bindings entryPoints dependencyRoots flags,
        decodeBindings bindings = .ok record.entityBindings ∧
        decodeFixedSet .entity entryPoints = .ok record.entryPoints ∧
        decodeFixedSet .stateRoot dependencyRoots = .ok record.dependencyRoots ∧
        decodeU32SetPayload flags = .ok record.interpretationFlags ∧
        fields = record.fields bindings entryPoints dependencyRoots flags := by
  simp only [takeRecord, run_bind_eq_ok, requiredWith_eq_ok, run_pure_eq_ok, exactArray_eq_ok]
  constructor
  · rintro ⟨w, _, ⟨_, h1, rfl⟩, s, _, ⟨_, h2, rfl⟩, b, _, ⟨p3, h3, hb⟩, e, _, ⟨p4, h4, he⟩,
      d, _, ⟨p5, h5, hd⟩, c, _, ⟨_, h6, rfl⟩, t, _, ⟨_, h7, rfl⟩, p, _, ⟨_, h8, rfl⟩, f, _,
      ⟨p9, h9, hf⟩, rfl, rfl⟩
    refine ⟨p3, p4, p5, p9, hb, he, hd, hf, ?_⟩
    -- the nine removals together take the whole list, and both sides ascend by tag
    have hperm := required_perm h9
    replace hperm := (required_perm h8).trans (hperm.cons _)
    replace hperm := (required_perm h7).trans (hperm.cons _)
    replace hperm := (required_perm h6).trans (hperm.cons _)
    replace hperm := (required_perm h5).trans (hperm.cons _)
    replace hperm := (required_perm h4).trans (hperm.cons _)
    replace hperm := (required_perm h3).trans (hperm.cons _)
    replace hperm := (required_perm h2).trans (hperm.cons _)
    replace hperm := (required_perm h1).trans (hperm.cons _)
    refine List.Perm.eq_of_pairwise (fun f g _ _ hfg hgf ↦ ?_) (List.pairwise_map.1 hasc.sorted)
      (List.pairwise_map.1 (by simp only [StateRootRecord.fields, List.map]; decide)) hperm
    exact (UInt32.lt_asymm hfg hgf).elim
  · rintro ⟨p3, p4, p5, p9, hb, he, hd, hf, rfl⟩
    exact ⟨_, _, ⟨_, required_cons .., rfl⟩, _, _, ⟨_, required_cons .., rfl⟩, _, _, ⟨_,
      required_cons .., hb⟩, _, _, ⟨_, required_cons .., he⟩, _, _, ⟨_, required_cons .., hd⟩, _, _,
      ⟨_, required_cons .., rfl⟩, _, _, ⟨_, required_cons .., rfl⟩, _, _, ⟨_, required_cons ..,
      rfl⟩, _, _, ⟨_, required_cons .., hf⟩, rfl, rfl⟩

theorem fields_ascending (record : StateRootRecord) (b e d f : Bytes) :
    AscendingFields none (record.fields b e d f) := by
  simp only [StateRootRecord.fields, AscendingFields, Option.mem_some_iff, forall_eq',
    Option.not_mem_none, false_imp_iff, implies_true]
  decide

theorem validateRecordSemantics_eq_ok {u : Unit} :
    validateRecordSemantics record = .ok u ↔ record.interpretationFlags = [] ∧
      ∀ entry ∈ record.entryPoints, entry ∈ record.entityBindings.map fst := by
  simp only [validateRecordSemantics, bind_eq_ok, rejectIf_eq_ok, exists_const,
    not_exists, not_and, not_not]

/-- **The decoder accepts exactly the encodings of records in canonical order.** -/
theorem decodePayload_eq_ok {input : Bytes} {enforceSemantics : Bool} :
    decodePayload input enforceSemantics = .ok record ↔
      record.Canonical ∧ encodePayload record = .ok input ∧
        (enforceSemantics → validateRecordSemantics record = .ok ()) := by
  have hdecode : decodePayload input enforceSemantics = .ok record ↔
      (∃ fields, recordFields input = .ok fields ∧ takeRecord.run fields = .ok (record, [])) ∧
        (enforceSemantics → validateRecordSemantics record = .ok ()) := by
    simp only [decodePayload, bind_eq_ok, Prod.exists, rejectIf_eq_ok, exists_const, not_not]
    constructor
    · rintro ⟨fields, hfields, out, _, htake, rfl, h⟩
      cases enforceSemantics with
      | false =>
        obtain rfl := pure_eq_ok.1 h
        exact ⟨⟨fields, hfields, htake⟩, by simp⟩
      | true =>
        obtain ⟨u, hvalid, h⟩ := bind_eq_ok.1 h
        obtain rfl := pure_eq_ok.1 h
        exact ⟨⟨fields, hfields, htake⟩, fun _ ↦ mapError_eq_ok.1 hvalid⟩
    · rintro ⟨⟨fields, hfields, htake⟩, hvalid⟩
      refine ⟨fields, hfields, record, [], htake, rfl, ?_⟩
      cases enforceSemantics with
      | false => rfl
      | true => rw [if_pos rfl, hvalid rfl]; rfl
  rw [hdecode, ← and_assoc]
  refine and_congr_left fun _ ↦ ?_
  constructor
  · rintro ⟨fields, hfields, htake⟩
    obtain ⟨-, -, hasc, hlen, rfl⟩ := recordFields_eq_ok.1 hfields
    obtain ⟨b, e, d, f, hb, he, hd, hf, rfl⟩ := (takeRecord_eq_ok hasc).1 htake
    obtain ⟨hbmax, hbasc, rfl⟩ := decodeBindings_eq_ok.1 hb
    obtain ⟨hemax, heasc, rfl⟩ := decodeFixedSet_eq_ok.1 he
    obtain ⟨hdmax, hdasc, rfl⟩ := decodeFixedSet_eq_ok.1 hd
    obtain ⟨hfmax, hfasc, rfl⟩ := decodeU32SetPayload_eq_ok.1 hf
    refine ⟨⟨hbasc, heasc, hdasc, hfasc⟩, (encodePayload_eq_ok hbasc).2 ⟨_, _, _, _, ⟨hbmax, rfl⟩,
      encodeIdSet_eq_ok.2 ⟨hemax, rfl⟩, encodeIdSet_eq_ok.2 ⟨hdmax, rfl⟩,
      encodeU32Set_eq_ok.2 ⟨hfmax, rfl⟩, hlen, rfl⟩⟩
  · rintro ⟨hcanon, hencode⟩
    obtain ⟨b, e, d, f, ⟨hbmax, rfl⟩, he, hd, hf, hlen, rfl⟩ :=
      (encodePayload_eq_ok hcanon.bindings).1 hencode
    obtain ⟨hemax, rfl⟩ := encodeIdSet_eq_ok.1 he
    obtain ⟨hdmax, rfl⟩ := encodeIdSet_eq_ok.1 hd
    obtain ⟨hfmax, rfl⟩ := encodeU32Set_eq_ok.1 hf
    refine ⟨_, recordFields_eq_ok.2 ⟨?_, ?_, fields_ascending .., hlen, rfl⟩,
      (takeRecord_eq_ok (fields_ascending ..)).2 ⟨_, _, _, _, decodeBindings_eq_ok.2 ⟨hbmax,
        hcanon.bindings, rfl⟩, decodeFixedSet_eq_ok.2 ⟨hemax, hcanon.entryPoints, rfl⟩,
        decodeFixedSet_eq_ok.2 ⟨hdmax, hcanon.dependencyRoots, rfl⟩,
        decodeU32SetPayload_eq_ok.2 ⟨hfmax, hcanon.interpretationFlags, rfl⟩, rfl⟩⟩
    · exact le_refl 9
    · exact show 9 ≤ maxRecordFields by decide

/-! ### The envelope -/

theorem readEnvelope_eq_ok {r r' : Reader} {epochId : SchemaEpochId} {payload found : Bytes} :
    readEnvelope.run r = .ok ((epochId, payload, found), r') ↔
      payload.length ≤ maxStandaloneBytes ∧ found.length = 32 ∧
        r.Consumes (rootPreimage epochId payload ++ found) r' := by
  have hversion : ∀ {r r' : Reader},
      StateT.run (Reader.readUvarWidth · 64) r = .ok (formatVersion, r') ↔
        r.Consumes (encodeUvar formatVersion) r' := by
    intro r r'
    exact Reader.readUvarWidth_eq_ok.trans (and_iff_right (by decide))
  have htag : ∀ {r r' : Reader},
      StateT.run (Reader.readUvarWidth · 32) r = .ok (contractTag.toUInt64, r') ↔
        r.Consumes (encodeUvar contractTag.toUInt64) r' := by
    intro r r'
    exact Reader.readUvarWidth_eq_ok.trans (and_iff_right (by decide))
  have hexact : ∀ {r r' : Reader} {n : Nat} {bs : Bytes},
      (Reader.readExactBytes n).run r = .ok (bs, r') ↔ bs.length = n ∧ r.Consumes bs r' :=
    Reader.takeExact_eq_ok
  have hcount (h : payload.length ≤ maxStandaloneBytes) :
      rootPreimage epochId payload = magic ++ encodeUvar formatVersion ++
        encodeUvar contractTag.toUInt64 ++ epochId.bytes ++ sizedBytes payload := by
    rw [rootPreimage, encodeCount_eq (lt_of_le_of_lt h (by decide)), sizedBytes,
      List.append_assoc _ (encode _)]
  simp only [readEnvelope, run_bind_eq_ok, Reader.expect_eq_ok, hexact, hversion, htag,
    run_ofExcept_eq_ok, exactArray_eq_ok, Reader.readSizedPayload_eq_ok,
    run_pure_eq_ok, mk.injEq]
  constructor
  · rintro ⟨_, r₁, ⟨-, -, hm⟩, _, r₂, ⟨-, hv⟩, _, r₃, ⟨-, ht⟩, _, r₄, ⟨-, he⟩, _, _, ⟨rfl, rfl⟩,
      _, r₅, ⟨hlen, hp⟩, _, r₆, ⟨hfound, hd⟩, ⟨rfl, rfl, rfl⟩, rfl⟩
    refine ⟨hlen, hfound, ?_⟩
    rw [hcount hlen]
    exact ((((hm.trans hv).trans ht).trans he).trans hp).trans hd
  · rintro ⟨hlen, hfound, hcons⟩
    rw [hcount hlen] at hcons
    simp only [Cursor.consumes_append_iff] at hcons
    obtain ⟨r₅, ⟨r₄, ⟨r₃, ⟨r₂, ⟨r₁, hm, hv⟩, ht⟩, he⟩, hp⟩, hd⟩ := hcons
    exact ⟨_, r₁, ⟨rfl, trivial, hm⟩, _, r₂, ⟨rfl, hv⟩, _, r₃, ⟨rfl, ht⟩, _, r₄, ⟨epochId.length_eq,
      he⟩, _, _, ⟨rfl, rfl⟩, _, r₅, ⟨hlen, hp⟩, _, r', ⟨hfound, hd⟩, ⟨rfl, rfl, rfl⟩, rfl⟩

/-- The record has the builder's inputs, in some order. -/
structure StateRootBuilder.Describes (b : StateRootBuilder) (record : StateRootRecord) : Prop where
  workspaceId : record.workspaceId = b.workspaceId
  entityBindings : record.entityBindings.Perm b.entityBindings
  entryPoints : record.entryPoints.Perm b.entryPoints
  dependencyRoots : record.dependencyRoots.Perm b.dependencyRoots
  contractRoot : record.contractRoot = b.contractRoot
  testRoot : record.testRoot = b.testRoot
  policyRoot : record.policyRoot = b.policyRoot
  interpretationFlags : record.interpretationFlags.Perm b.interpretationFlags

/-- Two builders with the same inputs, in any order. -/
structure StateRootBuilder.Rearranges (b b' : StateRootBuilder) : Prop where
  workspaceId : b'.workspaceId = b.workspaceId
  entityBindings : b'.entityBindings.Perm b.entityBindings
  entryPoints : b'.entryPoints.Perm b.entryPoints
  dependencyRoots : b'.dependencyRoots.Perm b.dependencyRoots
  contractRoot : b'.contractRoot = b.contractRoot
  testRoot : b'.testRoot = b.testRoot
  policyRoot : b'.policyRoot = b.policyRoot
  interpretationFlags : b'.interpretationFlags.Perm b.interpretationFlags

theorem StateRootBuilder.Rearranges.describes {b b' : StateRootBuilder}
    (h : b.Rearranges b') (hb : b.Describes record) : b'.Describes record where
  workspaceId := hb.workspaceId.trans h.workspaceId.symm
  entityBindings := hb.entityBindings.trans h.entityBindings.symm
  entryPoints := hb.entryPoints.trans h.entryPoints.symm
  dependencyRoots := hb.dependencyRoots.trans h.dependencyRoots.symm
  contractRoot := hb.contractRoot.trans h.contractRoot.symm
  testRoot := hb.testRoot.trans h.testRoot.symm
  policyRoot := hb.policyRoot.trans h.policyRoot.symm
  interpretationFlags := hb.interpretationFlags.trans h.interpretationFlags.symm

section

variable [Blake3]

theorem storedBytes_eq_ok {epochId : SchemaEpochId} {payload stored : Bytes} {root : StateRoot} :
    storedBytes epochId payload = .ok (stored, root) ↔
      stored.length ≤ maxStandaloneBytes ∧ root = StateRoot.derive (rootPreimage epochId payload) ∧
        stored = rootPreimage epochId payload ++ root.bytes := by
  simp only [storedBytes, bind_eq_ok, rejectIf_eq_ok, exists_const,
    pure_eq_ok, mk.injEq, gt_iff_lt, Nat.not_lt]
  constructor
  · rintro ⟨hle, rfl, rfl⟩
    exact ⟨hle, rfl, rfl⟩
  · rintro ⟨hle, rfl, rfl⟩
    exact ⟨hle, rfl, rfl⟩

/-- The envelope is determined by the epoch and the payload in it. -/
theorem decodeEnvelope_eq_ok {input payload : Bytes} {epochId : SchemaEpochId} {root : StateRoot} :
    decodeEnvelope input = .ok (epochId, payload, root) ↔
      storedBytes epochId payload = .ok (input, root) := by
  have hwhole : ∀ {found : Bytes} {r : Reader},
      (new input).Consumes (rootPreimage epochId payload ++ found) r → r.rest = [] →
        input = rootPreimage epochId payload ++ found := by
    intro found r hcons hfin
    have hinput := hcons.rest_eq
    rwa [new_rest, hfin, append_nil] at hinput
  simp only [decodeEnvelope, bind_eq_ok, Prod.exists, rejectIf_eq_ok, exists_const,
    readEnvelope_eq_ok, Reader.checkFinished_eq_ok, pure_eq_ok, mk.injEq, not_not,
    gt_iff_lt, Nat.not_lt, storedBytes_eq_ok]
  constructor
  · rintro ⟨hle, _, _, found, r, ⟨-, hfound, hcons⟩, hfin, hdigest, rfl, rfl, rfl⟩
    have hinput := hwhole hcons hfin
    have hpre := ((Reader.eq_append_trailer_iff hfound).1 hinput).2.1
    rw [hpre] at hdigest ⊢
    exact ⟨hle, rfl, hdigest ▸ hinput⟩
  · rintro ⟨hle, rfl, hinput⟩
    have hpre := ((Reader.eq_append_trailer_iff (Id.length_eq _)).1 hinput).2.1
    obtain ⟨r, hcons, hfin⟩ := exists_consumes_of_rest (c := new input)
      (show (new input).rest = (rootPreimage epochId payload ++ Id.bytes _) ++ [] by
        rw [new_rest, append_nil, ← hinput])
    have hpayload : payload.length ≤ maxStandaloneBytes := by
      refine le_trans ?_ hle
      rw [hinput, rootPreimage]
      simp only [length_append]
      omega
    refine ⟨hle, epochId, payload, _, r, ⟨hpayload, Id.length_eq _, hcons⟩, hfin, ?_, rfl, rfl, ?_⟩
    · rw [hpre]
    · rw [hpre]

/-! ### Building and importing -/

/-- What a registry accepts: a record in canonical order that keeps the epoch's rules, with the
bytes and the digest that its encoding determines. -/
structure ValidRoot (registry : StateRootRegistry) (a : AcceptedStateRoot) : Prop where
  canonical : a.record.Canonical
  semantics : validateRecordSemantics a.record = .ok ()
  encoded : ∃ payload, encodePayload a.record = .ok payload ∧
    authorize registry a.record.schemaEpochId payload = .ok () ∧
    storedBytes a.record.schemaEpochId payload = .ok (a.storedBytes, a.root)

variable {registry : StateRootRegistry}

/-- **Import accepts exactly the bytes of valid roots.** -/
theorem importStateRoot_eq_ok {input : Bytes} {a : AcceptedStateRoot} :
    importStateRoot registry input = .ok a ↔ a.storedBytes = input ∧ ValidRoot registry a := by
  simp only [importStateRoot, bind_eq_ok, mapError_eq_ok, Prod.exists,
    decodeEnvelope_eq_ok, decodePayload_eq_ok, rejectIf_eq_ok, Unique.exists_iff,
    pure_eq_ok, not_not, Bool.false_eq_true, false_imp_iff, and_true]
  constructor
  · rintro ⟨_, payload, root, hstored, record, ⟨hcanon, hencode⟩, rfl, hvalid, hauth, rfl⟩
    exact ⟨rfl, hcanon, hvalid, payload, hencode, hauth, hstored⟩
  · rintro ⟨rfl, hcanon, hvalid, payload, hencode, hauth, hstored⟩
    exact ⟨_, payload, a.root, hstored, a.record, ⟨hcanon, hencode⟩, rfl, hvalid, hauth, rfl⟩

/-- **The builder returns the one valid root of its inputs.** -/
theorem build_eq_ok [ConformanceEpoch] {b : StateRootBuilder} {a : AcceptedStateRoot} :
    b.build registry = .ok a ↔
      b.Describes a.record ∧ ConformanceEpoch.epochId = .ok a.record.schemaEpochId ∧
        ValidRoot registry a := by
  simp only [StateRootBuilder.build, checkBuilderCount, rejectUnknownFlags, sortBindings,
    sortUniqueInputs, bind_eq_ok, rejectIf_eq_ok, ofOption_eq_ok,
    sortUnique_eq_some, mapError_eq_ok, Unique.exists_iff, Prod.exists, pure_eq_ok, gt_iff_lt, Nat.not_lt, not_not]
  constructor
  · rintro ⟨-, -, -, -, hflags, bindings, ⟨hb, hbasc⟩, entries, ⟨he, heasc⟩, deps, ⟨hd, hdasc⟩,
      flags, ⟨hf, -⟩, hbound, epochId, hepoch, payload, hencode, hauth, stored, root, hstored, rfl⟩
    rw [hflags] at hf
    obtain rfl := hf.eq_nil
    refine ⟨⟨rfl, hb, he, hd, rfl, rfl, rfl, hflags ▸ hf⟩, hepoch, ⟨hbasc, heasc, hdasc, .nil⟩, ?_, payload,
      hencode, hauth, hstored⟩
    rw [validateRecordSemantics_eq_ok]
    exact ⟨rfl, fun entry hentry ↦ by_contra fun h ↦ hbound ⟨entry, hentry, h⟩⟩
  · rintro ⟨hdesc, hepoch, hcanon, hvalid, payload, hencode, hauth, hstored⟩
    obtain ⟨hflags, hbound⟩ := validateRecordSemantics_eq_ok.1 hvalid
    obtain ⟨hblen, helen, hdlen⟩ := encodePayload_lengths hcanon.bindings hencode
    have hbflags : b.interpretationFlags = [] := by
      have := hdesc.interpretationFlags
      rw [hflags] at this
      exact this.symm.eq_nil
    obtain ⟨root, stored, ⟨w, s, bs, es, ds, c, t, p, fs⟩⟩ := a
    obtain ⟨rfl, hbs, hes, hds, rfl, rfl, rfl, hfs⟩ := hdesc
    refine ⟨hbs.length_eq ▸ hblen, hes.length_eq ▸ helen, hds.length_eq ▸ hdlen, ?_, hbflags,
      bs, ⟨hbs, hcanon.bindings⟩, es, ⟨hes, hcanon.entryPoints⟩, ds, ⟨hds, hcanon.dependencyRoots⟩,
      fs, ⟨hfs, ?_⟩, ?_, s, hepoch, payload, hencode, hauth, stored, root, hstored, rfl⟩
    · rw [hbflags]
      decide
    · rw [show fs = [] from hflags]
      exact .nil
    · rintro ⟨entry, hentry, h⟩
      exact h (hbound entry hentry)

/-- **The state-root codec.** What the builder accepts does not depend on the order of its inputs,
and import of the bytes returns it; and the bytes of anything imported are the encoding of its
record, with the digest of that encoding as its root. -/
theorem stateRoot_roundTrip [ConformanceEpoch] (registry : StateRootRegistry) :
    (∀ (b : StateRootBuilder) (a : AcceptedStateRoot), b.build registry = .ok a →
      (∀ b', b.Rearranges b' → b'.build registry = .ok a) ∧
        importStateRoot registry a.storedBytes = .ok a) ∧
    ∀ (input : Bytes) (a : AcceptedStateRoot), importStateRoot registry input = .ok a →
      a.storedBytes = input ∧ encodeStateRoot a.record = .ok (input, a.root) := by
  constructor
  · intro b a h
    obtain ⟨hdesc, hepoch, hvalid⟩ := build_eq_ok.1 h
    refine ⟨fun b' hb' ↦ build_eq_ok.2 ⟨hb'.describes hdesc, hepoch, hvalid⟩, ?_⟩
    exact importStateRoot_eq_ok.2 ⟨rfl, hvalid⟩
  · intro input a h
    obtain ⟨rfl, -, -, payload, hencode, -, hstored⟩ := importStateRoot_eq_ok.1 h
    refine ⟨rfl, ?_⟩
    rw [encodeStateRoot, hencode, Except.ok_bind, hstored]

end

/-! ### The frozen vector -/

/-- The frozen conformance epoch ID. -/
def frozenEpochId : SchemaEpochId where
  bytes :=
    [0xa7, 0xfc, 0xf9, 0x7a, 0x85, 0xd4, 0x1e, 0xf9, 0xb1, 0xc8, 0x93, 0x94, 0xa3, 0x24, 0xf2, 0xdc,
      0x7e, 0xc8, 0x75, 0xb9, 0xde, 0xd4, 0x8a, 0x78, 0x31, 0x04, 0x31, 0x48, 0x57, 0xdc, 0x87, 0x0e]
  length_eq := rfl

/-- The frozen root of `frozenBuilder`. -/
def frozenRoot : Digest where
  bytes :=
    [0xd3, 0x91, 0x4c, 0xbf, 0xfc, 0xde, 0x44, 0x99, 0x59, 0xd6, 0xa3, 0x5e, 0xdd, 0xb1, 0x62, 0x93,
      0xc3, 0x42, 0x4f, 0x49, 0x80, 0xe6, 0x4e, 0x68, 0x7a, 0x4f, 0x47, 0x35, 0x8a, 0xd2, 0x77, 0x0a]
  length_eq := rfl

/-- A BLAKE3 that agrees with the hash function on the preimage of the frozen vector. -/
@[reducible]
def frozenBlake3 : Blake3 := ⟨fun _ ↦ frozenRoot⟩

def frozenBuilder : StateRootBuilder where
  workspaceId := splat 1
  entityBindings := [(splat 3, splat 30), (splat 2, splat 31)]
  entryPoints := [splat 2]
  dependencyRoots := [splat 41, splat 40]
  contractRoot := splat 20
  testRoot := splat 21
  policyRoot := splat 22
  interpretationFlags := []

def frozenRecord : StateRootRecord where
  workspaceId := splat 1
  schemaEpochId := frozenEpochId
  entityBindings := [(splat 2, splat 31), (splat 3, splat 30)]
  entryPoints := [splat 2]
  dependencyRoots := [splat 40, splat 41]
  contractRoot := splat 20
  testRoot := splat 21
  policyRoot := splat 22
  interpretationFlags := []

/-- `conformance_registry`: one entry, for the frozen epoch. -/
def frozenRegistry : StateRootRegistry where
  entries := [⟨frozenEpochId, [expectedDescriptor], ⟨frozenEpochId⟩, rfl⟩]
  sorted := List.pairwise_singleton _ _

theorem frozenRecord_canonical : frozenRecord.Canonical := by
  constructor <;> simp only [Ascends, frozenRecord] <;> decide

theorem frozenRecord_semantics : validateRecordSemantics frozenRecord = .ok () := by
  decide

theorem exists_encodePayload_frozenRecord :
    ∃ payload, encodePayload frozenRecord = .ok payload ∧ payload.length ≤ 1000 := by
  refine ⟨_, (encodePayload_eq_ok frozenRecord_canonical.bindings).2 ⟨_, _, _, _, ⟨by decide, rfl⟩,
    encodeIdSet_eq_ok.2 ⟨by decide, rfl⟩, encodeIdSet_eq_ok.2 ⟨by decide, rfl⟩,
    encodeU32Set_eq_ok.2 ⟨by decide, rfl⟩, by decide +kernel, rfl⟩, by decide +kernel⟩

/-- The registry authorizes the payload of every canonical record of the frozen epoch. -/
theorem authorize_frozenRegistry {record : StateRootRecord} {payload : Bytes}
    (hcanonical : record.Canonical) (hsemantics : validateRecordSemantics record = .ok ())
    (hepoch : record.schemaEpochId = frozenEpochId) (h : encodePayload record = .ok payload) :
    authorize frozenRegistry frozenEpochId payload = .ok () := by
  have hlookup : frozenRegistry.lookup frozenEpochId =
      .ok ⟨frozenEpochId, [expectedDescriptor], ⟨frozenEpochId⟩, rfl⟩ := rfl
  have hdecode : decodePayload payload true = .ok record :=
    decodePayload_eq_ok.2 ⟨hcanonical, h, fun _ ↦ hsemantics⟩
  have hcontract : EpochDecoder.decodeContract (StateRootEpoch1Decoder.mk frozenEpochId)
      contractTag payload = .ok () := by
    simp only [EpochDecoder.decodeContract, bind_eq_ok, rejectIf_eq_ok]
    exact ⟨(), by decide, record, hdecode, not_not.2 hepoch⟩
  simp only [authorize, bind_eq_ok, mapError_eq_ok, rejectIf_eq_ok, exists_const]
  refine ⟨expectedDescriptor, rfl, by simp, SchemaEpochRegistry.decodeContract_eq_ok.2
    ⟨_, hlookup, ⟨expectedDescriptor, List.mem_singleton_self _, rfl⟩, hcontract⟩⟩

/-- A small canonical record of the frozen epoch has a valid root. -/
theorem validRoot_frozenRegistry [Blake3] {record : StateRootRecord} {payload : Bytes}
    (hcanonical : record.Canonical) (hsemantics : validateRecordSemantics record = .ok ())
    (hepoch : record.schemaEpochId = frozenEpochId) (h : encodePayload record = .ok payload)
    (hlen : payload.length ≤ 1000) :
    ValidRoot frozenRegistry
      ⟨StateRoot.derive (rootPreimage frozenEpochId payload), rootPreimage frozenEpochId payload ++
        (StateRoot.derive (rootPreimage frozenEpochId payload)).bytes, record⟩ := by
  have hsmall : (rootPreimage frozenEpochId payload ++
      (StateRoot.derive (rootPreimage frozenEpochId payload)).bytes).length ≤
        maxStandaloneBytes := by
    have hcount : (encodeCount payload.length).length ≤ 2 := by
      rw [encodeCount_eq (by omega)]
      exact Leb128.length_encode_le (by decide) (by omega)
    have hmax : 2000 ≤ maxStandaloneBytes := by decide
    have hfixed : (magic ++ encodeUvar formatVersion ++
        encodeUvar contractTag.toUInt64).length = 11 := by
      with_unfolding_all decide
    simp only [rootPreimage, length_append, Id.length_eq] at hfixed ⊢
    omega
  exact ⟨hcanonical, hsemantics, payload, h, hepoch.symm ▸
    authorize_frozenRegistry hcanonical hsemantics hepoch h,
    hepoch.symm ▸ storedBytes_eq_ok.2 ⟨hsmall, rfl, rfl⟩⟩

theorem exists_validRoot_frozenRecord : letI := frozenBlake3
    ∃ a, a.record = frozenRecord ∧ ValidRoot frozenRegistry a := by
  let _ := frozenBlake3
  obtain ⟨payload, hencode, hlen⟩ := exists_encodePayload_frozenRecord
  exact ⟨_, rfl, validRoot_frozenRegistry frozenRecord_canonical frozenRecord_semantics rfl hencode
    hlen⟩

/-- The frozen vector builds, rearranged or not, and round-trips. -/
theorem stateRoot_roundTrip_frozen :
    letI := frozenBlake3
    letI : ConformanceEpoch := ⟨.ok frozenEpochId⟩
    ∃ a, frozenBuilder.build frozenRegistry = .ok a ∧ a.root.bytes = frozenRoot.bytes ∧
      StateRootBuilder.build { frozenBuilder with
        entityBindings := frozenBuilder.entityBindings.reverse } frozenRegistry = .ok a ∧
      importStateRoot frozenRegistry a.storedBytes = .ok a ∧
      encodeStateRoot a.record = .ok (a.storedBytes, a.root) := by
  let _ := frozenBlake3
  let _ : ConformanceEpoch := ⟨.ok frozenEpochId⟩
  obtain ⟨a, hrecord, hvalid⟩ := exists_validRoot_frozenRecord
  have hdesc : frozenBuilder.Describes a.record := by
    rw [hrecord]
    exact ⟨rfl, List.Perm.swap .., List.Perm.refl _, List.Perm.swap .., rfl, rfl, rfl,
      List.Perm.refl _⟩
  have hbuild : frozenBuilder.build frozenRegistry = .ok a :=
    build_eq_ok.2 ⟨hdesc, by rw [hrecord]; rfl, hvalid⟩
  obtain ⟨hforth, hback⟩ := stateRoot_roundTrip frozenRegistry
  obtain ⟨hperm, himport⟩ := hforth frozenBuilder a hbuild
  obtain ⟨-, hencode⟩ := hback _ a himport
  refine ⟨a, hbuild, ?_, hperm _ ?_, himport, hencode⟩
  · obtain ⟨payload, -, -, hstored⟩ := hvalid.encoded
    rw [(storedBytes_eq_ok.1 hstored).2.1]
    rfl
  · exact ⟨rfl, List.reverse_perm _, List.Perm.refl _, List.Perm.refl _, rfl, rfl, rfl,
      List.Perm.refl _⟩

end Sley.Root
