import Sley.Protocol.Limits
import Sley.Scb1.Canonical

/-!
# Hellos

What a peer offers before anything else (`sley-protocol/src/lib.rs`, `Hello`): versions, epochs,
limits, methods, features, adapters and effects, with the checks on their shape. The checks bound
every list, so that **a hello that is valid has an encoding, and is decoded from exactly that
encoding** (`Hello.encode_eq_ok`, `Hello.decode_eq_ok`).

Records of equally many fields are self-delimiting (`recordBytes_append_inj`), which is why a bare
concatenation of hellos can be taken apart again.
-/

namespace Sley.Protocol

open Scb1 Ssmc Txn
open Except (bind_eq_ok)
open LimitProfile (decode_eq_ok encode_eq)
open List (append_assoc length_map)
open Reader (list listBytes list_eq_ok)

/-- List ceilings inside hello records. -/
def maxHelloList : Nat := 4096

/-- `values.windows(2).all(|pair| pair[0] < pair[1])`. -/
def strictlyIncreasing {α : Type} [Ord α] (values : List α) : Bool :=
  (values.zip (values.drop 1)).all fun pair ↦ compare pair.1 pair.2 == .lt

def uvarList (values : List UInt32) : Result Bytes :=
  scb (encodeList (values.map fun value ↦ encodeUvar value.toUInt64))

def fixedList {kind : IdKind} (values : List (Id kind)) : Result Bytes :=
  scb (encodeList (values.map Id.bytes))

/-- Every failure of a hello's parts is one of its payload. -/
def payload {α : Type} (x : Result α) : Result α := x.mapError fun _ ↦ .payloadInvalid

@[simp]
theorem payload_eq_ok {α : Type} {x : Result α} {a : α} : payload x = .ok a ↔ x = .ok a :=
  Except.mapError_eq_ok

def u32List (input : Bytes) : Result (List UInt32) := do
  let items ← payload (list maxHelloList input)
  items.mapM fun item ↦ payload (singleU32 item)

def fixed32List {kind : IdKind} (input : Bytes) : Result (List (Id kind)) := do
  let items ← payload (list maxHelloList input)
  items.mapM fun item ↦ payload (fixed32 item)

/-- A peer's hello. -/
structure Hello where
  protocolVersions : List UInt32
  schemaEpochs : List SchemaEpochId
  limits : LimitProfile
  methods : List UInt32
  features : UInt32
  adapters : List Digest
  effects : List Digest
  deriving DecidableEq

namespace Hello

/-- The offer of a known method is refused: it is reserved, and not one of the native test methods
in a hello that offers version 3 and sets their feature bit. -/
def refuses (self : Hello) (tag : UInt32) : Bool :=
  match Method.fromTag tag with
  | .ok method =>
    method.isReserved && !(method.isNativeTest &&
      self.protocolVersions.contains protocolVersionV3 && self.features &&& featureNativeTestsV1 != 0)
  | .error _ => false

/-- Validates the declared shape: strictly increasing sets, known features, valid limits, bounded
lists. -/
def validate (self : Hello) : Result Unit := do
  Except.rejectIf
    (self.protocolVersions.isEmpty ∨
      self.protocolVersions.length > maxHelloList ∨
      ¬ strictlyIncreasing self.protocolVersions ∨
      self.schemaEpochs.isEmpty ∨
      self.schemaEpochs.length > maxHelloList ∨
      self.methods.isEmpty ∨
      self.methods.length > maxHelloList ∨
      ¬ strictlyIncreasing self.methods ∨
      self.adapters.length > maxHelloList ∨
      ¬ strictlyIncreasing self.adapters ∨
      self.effects.length > maxHelloList ∨
      ¬ strictlyIncreasing self.effects ∨
      self.features &&& ~~~featureMask ≠ 0 ∨
      self.methods.any self.refuses)
    .payloadInvalid
  self.limits.validate

/-- Encodes the hello record. -/
def encode (self : Hello) : Result Bytes := do
  self.validate
  let protocolVersions ← uvarList self.protocolVersions
  let schemaEpochs ← fixedList self.schemaEpochs
  let limits ← self.limits.encode
  let methods ← uvarList self.methods
  let adapters ← fixedList self.adapters
  let effects ← fixedList self.effects
  scb (encodeRecord
    [(1, protocolVersions),
      (2, schemaEpochs),
      (3, limits),
      (4, methods),
      (5, encodeUvar self.features.toUInt64),
      (6, adapters),
      (7, effects)])

/-- Decodes and validates a hello record. -/
def decode (input : Bytes) : Result Hello := do
  match ← payload (Reader.record 7 input) with
  | [f₁, f₂, f₃, f₄, f₅, f₆, f₇] =>
    let protocolVersions ← u32List f₁
    let schemaEpochs ← fixed32List f₂
    let limits ← payload (LimitProfile.decode f₃)
    let methods ← u32List f₄
    let features ← payload (singleU32 f₅)
    let adapters ← fixed32List f₆
    let effects ← fixed32List f₇
    let hello : Hello :=
      { protocolVersions, schemaEpochs, limits, methods, features, adapters, effects }
    hello.validate
    return hello
  | _ => .error .internalInvariant

end Hello

/-! ### Lists -/

section Lists

variable {input : Bytes}

theorem strictlyIncreasing_eq_true_iff {α : Type} [Ord α] [Std.TransOrd α] {values : List α} :
    strictlyIncreasing values = true ↔ values.Pairwise (compare · · = .lt) := by
  have hchain : strictlyIncreasing values = true ↔ values.IsChain (compare · · = .lt) := by
    induction values with
    | nil => simp [strictlyIncreasing]
    | cons value values ih =>
      cases values with
      | nil => simp [strictlyIncreasing]
      | cons next values =>
        rw [List.isChain_cons_cons, ← ih]
        simp [strictlyIncreasing]
  rw [hchain]
  exact (show Ascends id values ↔ _ from ascends_iff_isChain).symm

theorem length_listBytes_le {items : List Bytes} {n : Nat} (hn : n ≤ maxStandaloneBytes)
    (hcount : items.length ≤ maxHelloList) (hle : ∀ item ∈ items, item.length ≤ n) :
    (listBytes items).length ≤ 10 + items.length * (n + 10) := by
  have hsized : ∀ item ∈ items, (sizedBytes item).length ≤ n + 10 := by
    intro item hitem
    have hlen := hle item hitem
    have hcount : (Leb128.encode item.length).length ≤ 10 :=
      Leb128.length_encode_le (by decide) ((hlen.trans hn).trans_lt (by decide))
    rw [sizedBytes, List.length_append]
    omega
  rw [listBytes, List.length_append, List.length_flatMap]
  refine Nat.add_le_add (Leb128.length_encode_le (by decide) (hcount.trans_lt (by decide))) ?_
  have hsum := List.sum_le_card_nsmul (items.map fun item ↦ (sizedBytes item).length) (n + 10)
    (by
      intro len hlen
      obtain ⟨item, hitem, rfl⟩ := List.mem_map.1 hlen
      exact hsized item hitem)
  rwa [length_map, smul_eq_mul] at hsum

theorem encodeList_eq {items : List Bytes} (hcount : items.length ≤ maxHelloList)
    (hle : ∀ item ∈ items, item.length ≤ 32) :
    scb (encodeList items) = .ok (listBytes items) := by
  refine scb_eq_ok.2 (encodeList_eq_ok.2 ⟨hcount.trans (by decide), fun item hitem ↦ ?_, rfl⟩)
  exact (hle item hitem).trans (by decide)

theorem length_uvars_le {values : List UInt32} :
    ∀ item ∈ values.map fun value ↦ encodeUvar value.toUInt64, item.length ≤ 32 := by
  intro item hitem
  obtain ⟨value, -, rfl⟩ := List.mem_map.1 hitem
  exact (length_encodeUvar _).trans (by decide)

variable {values : List (Id kind)} {kind : IdKind}

theorem length_ids_le : ∀ item ∈ values.map Id.bytes, item.length ≤ 32 := by
  intro item hitem
  obtain ⟨value, -, rfl⟩ := List.mem_map.1 hitem
  exact value.length_eq.le

theorem uvarList_eq {values : List UInt32} (h : values.length ≤ maxHelloList) : uvarList values =
      .ok (listBytes (values.map fun value ↦ encodeUvar value.toUInt64)) :=
  encodeList_eq (by rwa [length_map]) length_uvars_le

theorem fixedList_eq (h : values.length ≤ maxHelloList) :
    fixedList values = .ok (listBytes (values.map Id.bytes)) :=
  encodeList_eq (by rwa [length_map]) length_ids_le

/-- A list of small integers is read back, up to the ceiling. -/
theorem u32List_eq_ok {values : List UInt32} :
    u32List input = .ok values ↔ values.length ≤ maxHelloList ∧
      input = listBytes (values.map fun value ↦ encodeUvar value.toUInt64) := by
  simp only [u32List, bind_eq_ok, payload_eq_ok, list_eq_ok (show maxHelloList < 2 ^ 64 by decide),
    mapM_eq_ok_of_eq_ok (fun value : UInt32 ↦ encodeUvar value.toUInt64)
      fun _ _ ↦ payload_eq_ok.trans singleU32_eq_ok]
  constructor
  · rintro ⟨_, ⟨hcount, -, rfl⟩, rfl⟩
    exact ⟨by rwa [length_map] at hcount, rfl⟩
  · rintro ⟨hcount, rfl⟩
    refine ⟨_, ⟨by rwa [length_map], fun item hitem ↦ ?_, rfl⟩, rfl⟩
    exact (length_uvars_le item hitem).trans_lt (by decide)

theorem fixed32List_eq_ok : fixed32List input = .ok values ↔ values.length ≤ maxHelloList ∧
      input = listBytes (values.map Id.bytes) := by
  simp only [fixed32List, bind_eq_ok, payload_eq_ok,
    list_eq_ok (show maxHelloList < 2 ^ 64 by decide),
    mapM_eq_ok_of_eq_ok Id.bytes fun _ _ ↦ payload_eq_ok.trans fixed32_eq_ok]
  constructor
  · rintro ⟨_, ⟨hcount, -, rfl⟩, rfl⟩
    exact ⟨by rwa [length_map] at hcount, rfl⟩
  · rintro ⟨hcount, rfl⟩
    refine ⟨_, ⟨by rwa [length_map], fun item hitem ↦ ?_, rfl⟩, rfl⟩
    exact (length_ids_le item hitem).trans_lt (by decide)

end Lists

/-! ### The record -/

/-- What makes a hello valid. -/
structure Hello.Valid (hello : Hello) : Prop where
  versions_ne : hello.protocolVersions ≠ []
  versions_le : hello.protocolVersions.length ≤ maxHelloList
  versions_asc : hello.protocolVersions.Pairwise (compare · · = .lt)
  epochs_ne : hello.schemaEpochs ≠ []
  epochs_le : hello.schemaEpochs.length ≤ maxHelloList
  methods_ne : hello.methods ≠ []
  methods_le : hello.methods.length ≤ maxHelloList
  methods_asc : hello.methods.Pairwise (compare · · = .lt)
  adapters_le : hello.adapters.length ≤ maxHelloList
  adapters_asc : hello.adapters.Pairwise (compare · · = .lt)
  effects_le : hello.effects.length ≤ maxHelloList
  effects_asc : hello.effects.Pairwise (compare · · = .lt)
  features_known : hello.features &&& ~~~featureMask = 0
  methods_offered : ∀ tag ∈ hello.methods, hello.refuses tag = false
  limits : hello.limits.validate = .ok ()

namespace Hello

variable {self : Hello} {input bs : Bytes}

theorem validate_eq_ok {u : Unit} : self.validate = .ok u ↔ self.Valid := by
  cases u
  simp only [validate, bind_eq_ok, Except.rejectIf_eq_ok, exists_const, not_or, not_not,
    Bool.not_eq_true, List.isEmpty_eq_false_iff, gt_iff_lt, Nat.not_lt,
    strictlyIncreasing_eq_true_iff, List.any_eq_false, ne_eq]
  constructor
  · rintro ⟨⟨h₁, h₂, h₃, h₄, h₅, h₆, h₇, h₈, h₉, h₁₀, h₁₁, h₁₂, h₁₃, h₁₄⟩, h₁₅⟩
    exact ⟨h₁, h₂, h₃, h₄, h₅, h₆, h₇, h₈, h₉, h₁₀, h₁₁, h₁₂, h₁₃, h₁₄, h₁₅⟩
  · rintro ⟨h₁, h₂, h₃, h₄, h₅, h₆, h₇, h₈, h₉, h₁₀, h₁₁, h₁₂, h₁₃, h₁₄, h₁₅⟩
    exact ⟨⟨h₁, h₂, h₃, h₄, h₅, h₆, h₇, h₈, h₉, h₁₀, h₁₁, h₁₂, h₁₃, h₁₄⟩, h₁₅⟩

/-- The payloads of the record. -/
def fields (self : Hello) : List Bytes :=
  [listBytes (self.protocolVersions.map fun value ↦ encodeUvar value.toUInt64),
    listBytes (self.schemaEpochs.map Id.bytes), recordBytes self.limits.fields,
    listBytes (self.methods.map fun value ↦ encodeUvar value.toUInt64),
    encodeUvar self.features.toUInt64, listBytes (self.adapters.map Id.bytes),
    listBytes (self.effects.map Id.bytes)]

theorem length_list_le {items : List Bytes} (hcount : items.length ≤ maxHelloList)
    (hle : ∀ item ∈ items, item.length ≤ 32) : (listBytes items).length ≤ 200000 := by
  refine (length_listBytes_le (by decide) hcount hle).trans ?_
  have : maxHelloList = 4096 := rfl
  omega

theorem length_fields_le (h : self.Valid) : ∀ field ∈ self.fields, field.length ≤ 200000 := by
  have huvars : ∀ values : List UInt32, values.length ≤ maxHelloList →
      (listBytes (values.map fun value ↦ encodeUvar value.toUInt64)).length ≤ 200000 :=
    fun values hle ↦ length_list_le (by rwa [length_map]) length_uvars_le
  simp only [fields, List.forall_mem_cons]
  refine ⟨huvars _ h.versions_le, length_list_le (by rw [length_map]; exact h.epochs_le)
    length_ids_le, (LimitProfile.length_encode_le encode_eq).trans (by decide),
    huvars _ h.methods_le, (length_encodeUvar _).trans (by decide),
    length_list_le (by rw [length_map]; exact h.adapters_le) length_ids_le,
    length_list_le (by rw [length_map]; exact h.effects_le) length_ids_le, ?_⟩
  exact fun _ h ↦ (List.not_mem_nil h).elim

/-- **The hellos with an encoding are the valid ones.** -/
theorem encode_eq_ok : self.encode = .ok bs ↔ self.Valid ∧ bs = recordBytes self.fields := by
  rw [encode, bind_eq_ok]
  simp only [validate_eq_ok, exists_const]
  refine and_congr_right fun h ↦ ?_
  have hrecord : encodeRecord (numbered 1 self.fields) = .ok (recordBytes self.fields) :=
    encodeRecord_numbered (show 7 ≤ maxRecordFields by decide) fun field hfield ↦
      (length_fields_le h field hfield).trans (by decide)
  rw [uvarList_eq h.versions_le, fixedList_eq h.epochs_le, encode_eq,
    uvarList_eq h.methods_le, fixedList_eq h.adapters_le, fixedList_eq h.effects_le]
  show scb (encodeRecord (numbered 1 self.fields)) = _ ↔ _
  rw [hrecord, scb_eq_ok, Except.ok.injEq, eq_comm]

/-- **A hello is read back from its encoding and from nothing else.** -/
theorem decode_eq_ok : decode input = .ok self ↔ self.encode = .ok input := by
  rw [encode_eq_ok, decode, bind_eq_ok]
  simp only [payload_eq_ok, Reader.record_eq_ok (show 7 < 2 ^ 31 by decide)]
  constructor
  · rintro ⟨fields, ⟨-, -, rfl⟩, h⟩
    split at h
    · simp only [bind_eq_ok, u32List_eq_ok, fixed32List_eq_ok, payload_eq_ok,
        decode_eq_ok, encode_eq, Except.ok.injEq, singleU32_eq_ok,
        validate_eq_ok, exists_const, Except.pure_eq_ok] at h
      obtain ⟨_, ⟨-, rfl⟩, _, ⟨-, rfl⟩, _, rfl, _, ⟨-, rfl⟩, _, rfl, _, ⟨-, rfl⟩, _, ⟨-, rfl⟩,
        hvalid, rfl⟩ := h
      exact ⟨hvalid, rfl⟩
    · cases h
  · rintro ⟨h, rfl⟩
    refine ⟨self.fields, ⟨rfl, fun field hfield ↦ ?_, rfl⟩, ?_⟩
    · exact (length_fields_le h field hfield).trans_lt (by decide)
    · simp only [fields, bind_eq_ok, u32List_eq_ok, fixed32List_eq_ok, payload_eq_ok,
        decode_eq_ok, encode_eq, Except.ok.injEq, singleU32_eq_ok,
        validate_eq_ok, exists_const, Except.pure_eq_ok]
      exact ⟨_, ⟨h.versions_le, rfl⟩, _, ⟨h.epochs_le, rfl⟩, _, rfl, _, ⟨h.methods_le, rfl⟩, _, rfl,
        _, ⟨h.adapters_le, rfl⟩, _, ⟨h.effects_le, rfl⟩, h, rfl⟩

theorem length_encode_le (h : self.encode = .ok bs) : bs.length ≤ 2000000 := by
  obtain ⟨hvalid, rfl⟩ := encode_eq_ok.1 h
  have hcount : self.fields.length ≤ maxRecordFields := show 7 ≤ maxRecordFields by decide
  have hlen := length_recordBytes_le (by decide) hcount (length_fields_le hvalid)
  rw [show self.fields.length = 7 from rfl] at hlen
  omega

end Hello

/-! ### Concatenations of records -/

variable {fields fields' : List Bytes}

theorem numbered_append_inj {index : Nat} {x y : Bytes} (hlen : fields.length = fields'.length)
    (h : ((numbered index fields).flatMap fun field ↦ taggedBytes field.1 field.2) ++ x =
      ((numbered index fields').flatMap fun field ↦ taggedBytes field.1 field.2) ++ y) :
    fields = fields' ∧ x = y := by
  induction fields generalizing fields' index with
  | nil =>
    obtain rfl := List.length_eq_zero_iff.1 hlen.symm
    exact ⟨rfl, h⟩
  | cons field fields ih =>
    obtain ⟨field', fields', rfl⟩ := List.exists_cons_of_length_eq_add_one hlen.symm
    rw [numbered, numbered, List.flatMap_cons, List.flatMap_cons, append_assoc,
      append_assoc, taggedBytes, taggedBytes, append_assoc, append_assoc] at h
    obtain ⟨rfl, hrest⟩ := selfDelimiting_sizedBytes (Leb128.encode_append_inj h).2
    obtain ⟨rfl, rfl⟩ := ih (Nat.succ.inj hlen) hrest
    exact ⟨rfl, rfl⟩

/-- **Records with equally many fields are self-delimiting.** -/
theorem recordBytes_append_inj {x y : Bytes} (hlen : fields.length = fields'.length)
    (h : recordBytes fields ++ x = recordBytes fields' ++ y) : fields = fields' ∧ x = y := by
  rw [recordBytes, recordBytes, append_assoc, append_assoc] at h
  exact numbered_append_inj hlen (Leb128.encode_append_inj h).2

end Sley.Protocol
