import Sley.Mutate.BodyCodec
import Sley.Scb1.Fields
import Sley.Ssmc.Identity

/-!
# Entity objects

The stored form of one entity (`sley-mutate/src/object.rs`): a record of its identity, its body and
optional metadata, in an envelope that names the schema epoch and ends in the digest of everything
before it.

**Import inverts build, within the decoder's allocation budget.** Bytes are imported exactly when
they are what `buildEntityObject` makes of the record they hold and the decoder can pay for the
body (`importEntityObject_eq_ok`). Building is bounded by the encoded size alone, so there are
bodies that can be built and not read back; the last section has one.
-/

namespace Sley.Mutate

open Scb1 Ssmc
open Except hiding ok error
open List (length_append replicate)
open Reader (expect readText readUvar readWhole readWhole_eq_ok)
open ObjectId (derive)

/-- Exact SCB1 standalone magic used by SSMC1 entity objects, `SLEYSCB1`. -/
def entityObjectMagic : Bytes := [0x53, 0x4c, 0x45, 0x59, 0x53, 0x43, 0x42, 0x31]

def entityObjectFormatVersion : UInt64 := 1

def entityObjectContractTag : UInt64 := 200

/-- Maximum UTF-8 bytes in optional normalized label metadata. -/
def maxEntityObjectLabelBytes : Nat := 1024

/-- Typed SSMC1 entity-object payload. -/
structure EntityObjectRecord where
  entityId : EntityId
  body : EntityBodyValue
  label : Option String
  semanticFingerprint : Option SemanticFingerprint
  deriving DecidableEq

/-- Canonical entity-object bytes with a verified digest trailer. -/
structure EntityObject where
  schemaEpochId : SchemaEpochId
  record : EntityObjectRecord
  objectId : ObjectId
  preimage : Bytes
  storedBytes : Bytes
  deriving DecidableEq

variable [HostLayout] [Blake3] [UnicodeNormalization]

/-! ### The record -/

/-- The label as its field holds it. -/
def encodeLabel (label : String) : Result Bytes := do
  rejectIf ((textBytes label).length > maxEntityObjectLabelBytes) .resourceLimit
  encodeNormalizedLabel label

/-- Absent metadata has no field. -/
def labelFields : Option String → Result (List Field)
  | some label => do
    let encoded ← encodeLabel label
    return [(3, encoded)]
  | none => return []

def fingerprintFields : Option SemanticFingerprint → List Field
  | some fingerprint => [(4, fingerprint.bytes)]
  | none => []

/-- The fields of a record, in tag order. -/
def encodeObjectFields (record : EntityObjectRecord) : Result (List Field) := do
  let body ← encodeExact record.body
  let label ← labelFields record.label
  return (1, record.entityId.bytes) :: (2, body) ::
    (label ++ fingerprintFields record.semanticFingerprint)

def encodeObjectRecord (record : EntityObjectRecord) : Result Bytes := do
  let fields ← encodeObjectFields record
  encodeRecord fields

def decodeLabel (input : Bytes) : Result String := do
  let label ← readWhole readText input
  rejectIf ((textBytes label).length > maxEntityObjectLabelBytes) .resourceLimit
  let encoded ← encodeNormalizedLabel label
  rejectIf (encoded ≠ input) .labelNotNfc
  return label

def decodeFixed (kind : IdKind) (input : Bytes) : Result (Id kind) :=
  readWhole (readId kind) input

/-- The fields of a record that have been met. -/
structure ObjectSlots where
  entityId : Option EntityId := none
  body : Option EntityBodyValue := none
  label : Option String := none
  semanticFingerprint : Option SemanticFingerprint := none

namespace ObjectSlots

/-- Decode a field into its slot. -/
def fill (tag : UInt32) (payload : Bytes) (slots : ObjectSlots) : Result ObjectSlots :=
  match tag.toNat with
  | 1 => (fun id ↦ { slots with entityId := some id }) <$> decodeFixed .entity payload
  | 2 => (fun body ↦ { slots with body := some body }) <$> decodeExact EntityBodyValue payload
  | 3 => (fun label ↦ { slots with label := some label }) <$> decodeLabel payload
  | 4 => (fun fingerprint ↦ { slots with semanticFingerprint := some fingerprint }) <$>
    decodeFixed .semanticFingerprint payload
  | _ => .error .fieldUnknown

/-- The record, if no required slot is empty. -/
def toRecord (slots : ObjectSlots) : Result EntityObjectRecord := do
  let entityId ← ofOption .fieldMissing slots.entityId
  let body ← ofOption .fieldMissing slots.body
  return ⟨entityId, body, slots.label, slots.semanticFingerprint⟩

end ObjectSlots

/-- The fields of an object record, into their slots. -/
def readObjectRecord : ScbReader ObjectSlots := do
  let count ← Reader.readRecordFieldCount
  StateT.ofExcept (rejectIf (¬ (2 ≤ count ∧ count ≤ 4))
    (if count < 2 then .fieldMissing else .fieldUnknown))
  foldFields ObjectSlots.fill count none {}

def decodeObjectRecord (input : Bytes) : Result EntityObjectRecord := do
  let slots ← readWhole readObjectRecord input
  slots.toRecord

/-! ### The envelope -/

def buildPreimage (schemaEpochId : SchemaEpochId) (payload : Bytes) : Result Bytes := do
  let preimage := entityObjectMagic ++ encodeUvar entityObjectFormatVersion ++
    encodeUvar entityObjectContractTag ++ schemaEpochId.bytes ++ encodeCount payload.length ++ payload
  rejectIf (preimage.length + 32 > maxStandaloneBytes) .resourceLimit
  return preimage

/-- Builds one canonical SSMC1 entity object for an explicit schema epoch. -/
def buildEntityObject (schemaEpochId : SchemaEpochId) (record : EntityObjectRecord) :
    Result EntityObject := do
  let payload ← encodeObjectRecord record
  let preimage ← buildPreimage schemaEpochId payload
  let objectId := derive preimage
  let storedBytes := preimage ++ objectId.bytes
  rejectIf (storedBytes.length > maxStandaloneBytes) .resourceLimit
  return { schemaEpochId, record, objectId, preimage, storedBytes }

/-- The header of a preimage under an expected epoch, and the payload behind it. -/
def readObjectEnvelope (expected : SchemaEpochId) : ScbReader (SchemaEpochId × Bytes) := do
  let _ ← expect (Reader.readExactBytes entityObjectMagic.length) entityObjectMagic
    .magicInvalid
  let _ ← expect (readUvar · 64) entityObjectFormatVersion .versionUnsupported
  let _ ← expect (readUvar · 32) entityObjectContractTag .contractUnknown
  let schemaEpochId ← expect (readId .schemaEpoch) expected .epochMismatch
  let payload ← Reader.readSizedPayload
  return (schemaEpochId, payload)

/-- Imports one canonical SSMC1 entity object under an exact expected epoch. -/
def importEntityObject (expected : SchemaEpochId) (input : Bytes) : Result EntityObject := do
  rejectIf (input.length > maxStandaloneBytes) .resourceLimit
  rejectIf (input.length < 32) .lengthOverflow
  let preimage := input.take (input.length - 32)
  let digest := input.drop (input.length - 32)
  let (schemaEpochId, payload) ← readWhole (readObjectEnvelope expected) preimage
  let objectId := derive preimage
  rejectIf (digest ≠ objectId.bytes) .digestMismatch
  let record ← decodeObjectRecord payload
  return { schemaEpochId, record, objectId, preimage, storedBytes := input }

/-! ### The fields of a record -/

omit [HostLayout] [Blake3] [UnicodeNormalization] in
theorem decodeFixed_eq_ok {kind : IdKind} {input : Bytes} {id : Id kind} :
    decodeFixed kind input = .ok id ↔ id.bytes = input := by
  rw [decodeFixed, readWhole_eq_ok fun id bs ↦ id.bytes = bs]
  · refine and_iff_right_of_imp ?_
    rintro rfl
    rw [id.length_eq]
    decide
  · intro r r' v
    rw [readId_eq_ok]
    simp

section

omit [HostLayout] [Blake3]

theorem encodeLabel_eq_ok {label : String} {bs : Bytes} : encodeLabel label = .ok bs ↔
      (textBytes label).length ≤ maxEntityObjectLabelBytes ∧
        encodeNormalizedLabel label = .ok bs := by
  simp only [encodeLabel, bind_eq_ok, rejectIf_eq_ok, exists_const, gt_iff_lt, Nat.not_lt]

theorem decodeLabel_eq_ok {input : Bytes} {label : String} : decodeLabel input = .ok label ↔
      input.length ≤ maxStandaloneBytes ∧ encodeLabel label = .ok input := by
  have htext : ∀ {bs : Bytes} {text : String}, readWhole readText bs = .ok text ↔
      bs.length ≤ maxStandaloneBytes ∧
        ((textBytes text).length ≤ maxBytePayload ∧ bs = sizedBytes (textBytes text)) := by
    refine readWhole_eq_ok (fun text bs ↦ (textBytes text).length ≤ maxBytePayload ∧
      bs = sizedBytes (textBytes text)) fun {r r' v} ↦ ?_
    rw [Reader.readText_eq_ok]
    constructor
    · rintro ⟨hlen, hcons⟩
      exact ⟨_, ⟨hlen, rfl⟩, hcons⟩
    · rintro ⟨_, ⟨hlen, rfl⟩, hcons⟩
      exact ⟨hlen, hcons⟩
  simp only [decodeLabel, bind_eq_ok, rejectIf_eq_ok, exists_const, not_not,
    pure_eq_ok, gt_iff_lt, Nat.not_lt, htext, encodeLabel_eq_ok]
  constructor
  · rintro ⟨_, ⟨hlen, -⟩, hlabel, _, henc, rfl, rfl⟩
    exact ⟨hlen, hlabel, henc⟩
  · rintro ⟨hlen, hlabel, henc⟩
    exact ⟨label, ⟨hlen, (encodeNormalizedLabel_eq_ok.1 henc).2⟩, hlabel, _, henc, rfl, rfl⟩

theorem labelFields_eq_ok {label : Option String} {fields : List Field} :
    labelFields label = .ok fields ↔ (label = none ∧ fields = []) ∨
        ∃ text p, label = some text ∧ encodeLabel text = .ok p ∧ fields = [(3, p)] := by
  cases label with
  | none => simp [labelFields, pure_eq_ok]
  | some text =>
    simp only [labelFields, bind_eq_ok, pure_eq_ok, reduceCtorEq, false_and, false_or,
      Option.some.injEq]
    constructor
    · intro ⟨p, hp, hfields⟩
      exact ⟨text, p, rfl, hp, hfields⟩
    · rintro ⟨_, p, rfl, hp, hfields⟩
      exact ⟨p, hp, hfields⟩

end

omit [Blake3] in
theorem encodeObjectFields_eq_ok {record : EntityObjectRecord} {fields : List Field} :
    encodeObjectFields record = .ok fields ↔
      ∃ body label, encodeExact record.body = .ok body ∧ labelFields record.label = .ok label ∧
        fields = (1, record.entityId.bytes) :: (2, body) ::
          (label ++ fingerprintFields record.semanticFingerprint) := by
  simp only [encodeObjectFields, bind_eq_ok, pure_eq_ok]
  constructor
  · intro ⟨body, hbody, label, hlabel, hfields⟩
    exact ⟨body, label, hbody, hlabel, hfields⟩
  · intro ⟨body, label, hbody, hlabel, hfields⟩
    exact ⟨body, hbody, label, hlabel, hfields⟩

namespace ObjectSlots

/-- The slots of a record. -/
def ofRecord (record : EntityObjectRecord) : ObjectSlots :=
  ⟨some record.entityId, some record.body, record.label, record.semanticFingerprint⟩

variable {fields : List Field} {record : EntityObjectRecord} {slots slots' : ObjectSlots}

omit [HostLayout] [Blake3] [UnicodeNormalization] in
theorem toRecord_eq_ok {slots : ObjectSlots} :
    slots.toRecord = .ok record ↔ slots = ofRecord record := by
  obtain ⟨entityId, body, label, fingerprint⟩ := slots
  obtain ⟨entityId', body', label', fingerprint'⟩ := record
  simp only [toRecord, ofRecord, bind_eq_ok, ofOption_eq_ok, pure_eq_ok,
    ObjectSlots.mk.injEq, EntityObjectRecord.mk.injEq]
  constructor
  · rintro ⟨_, rfl, _, rfl, rfl, rfl, rfl, rfl⟩
    exact ⟨rfl, rfl, rfl, rfl⟩
  · rintro ⟨rfl, rfl, rfl, rfl⟩
    exact ⟨_, rfl, _, rfl, rfl, rfl, rfl, rfl⟩

/-- Filling one slot leaves the others alone, and knows four tags. -/
structure Frame (tag : Nat) (slots slots' : ObjectSlots) : Prop where
  known : 1 ≤ tag ∧ tag ≤ 4
  entityId_eq : tag ≠ 1 → slots'.entityId = slots.entityId
  body_eq : tag ≠ 2 → slots'.body = slots.body
  label_eq : tag ≠ 3 → slots'.label = slots.label
  semanticFingerprint_eq : tag ≠ 4 → slots'.semanticFingerprint = slots.semanticFingerprint

section

omit [Blake3]

theorem fill_frame {tag : UInt32} {p : Bytes}
    (h : fill tag p slots = .ok slots') : Frame tag.toNat slots slots' := by
  unfold fill at h
  split at h
  case h_5 => cases h
  all_goals
    rename_i htag
    obtain ⟨value, -, rfl⟩ := map_eq_ok.1 h
    rw [htag]
    constructor
    case known => decide
  all_goals first
    | exact fun _ ↦ rfl
    | exact fun hne ↦ absurd rfl hne

/-- Fields above a tag do not touch the slots up to it. -/
theorem fillFields_frame {bound : UInt32}
    (hasc : AscendingFields (some bound) fields) (h : fillFields fill fields slots = .ok slots') :
    (1 ≤ bound.toNat → slots'.entityId = slots.entityId) ∧
      (2 ≤ bound.toNat → slots'.body = slots.body) ∧
      (3 ≤ bound.toNat → slots'.label = slots.label) ∧
      (4 ≤ bound.toNat → fields = []) := by
  induction fields generalizing bound slots with
  | nil =>
    obtain rfl := Except.ok.inj h
    exact ⟨fun _ ↦ rfl, fun _ ↦ rfl, fun _ ↦ rfl, fun _ ↦ rfl⟩
  | cons f fs ih =>
    obtain ⟨mid, hmid, hrest⟩ := fillFields_cons_eq_ok.1 h
    obtain ⟨⟨-, hfour⟩, hid, hbody, hlabel, -⟩ := fill_frame hmid
    obtain ⟨hid', hbody', hlabel', -⟩ := ih hasc.2 hrest
    have hlt : bound.toNat < f.1.toNat := UInt32.lt_iff_toNat_lt.1 (hasc.1 bound rfl)
    refine ⟨fun hb ↦ ?_, fun hb ↦ ?_, fun hb ↦ ?_, fun hb ↦ ?_⟩
    · rw [hid' (by omega), hid (by omega)]
    · rw [hbody' (by omega), hbody (by omega)]
    · rw [hlabel' (by omega), hlabel (by omega)]
    · omega

theorem fillFields_known
    (h : fillFields fill fields slots = .ok slots') : ∀ f ∈ fields, 1 ≤ f.1.toNat := by
  induction fields generalizing slots with
  | nil => simp
  | cons f fs ih =>
    obtain ⟨mid, hmid, hrest⟩ := fillFields_cons_eq_ok.1 h
    exact List.forall_mem_cons.2 ⟨(fill_frame hmid).known.1, ih hrest⟩

/-- The metadata fields that lead from the required slots to those of a record. -/
theorem fillFields_metadata {id : EntityId} {body : EntityBodyValue}
    (hasc : AscendingFields (some 2) fields)
    (h : fillFields fill fields ⟨some id, some body, none, none⟩ = .ok (ofRecord record)) :
    record.entityId = id ∧ record.body = body ∧ ∃ label, labelFields record.label = .ok label ∧
        fields = label ++ fingerprintFields record.semanticFingerprint := by
  obtain ⟨entityId', body', label', fingerprint'⟩ := record
  -- the last field: a fingerprint or nothing
  have hlast : ∀ {rest : List Field} {label : Option String},
      AscendingFields (some 3) rest →
      fillFields fill rest ⟨some id, some body, label, none⟩ =
        .ok (ofRecord ⟨entityId', body', label', fingerprint'⟩) →
      entityId' = id ∧ body' = body ∧ label' = label ∧ rest = fingerprintFields fingerprint' := by
    intro rest label hasc h
    obtain ⟨p, rest, rfl, hasc₄⟩ | hasc₄ := hasc.unconsNext (k := 4) rfl
    · obtain ⟨mid, hmid, hrest⟩ := fillFields_cons_eq_ok.1 h
      obtain ⟨fingerprint, hfp, rfl⟩ := map_eq_ok.1 hmid
      obtain rfl := (fillFields_frame hasc₄ hrest).2.2.2 (by decide)
      obtain rfl := decodeFixed_eq_ok.1 hfp
      simp only [fillFields, Except.ok.injEq, ofRecord, ObjectSlots.mk.injEq,
        Option.some.injEq] at hrest
      obtain ⟨rfl, rfl, rfl, rfl⟩ := hrest
      exact ⟨rfl, rfl, rfl, rfl⟩
    · obtain rfl := (fillFields_frame hasc₄ h).2.2.2 (by decide)
      simp only [fillFields, Except.ok.injEq, ofRecord, ObjectSlots.mk.injEq,
        Option.some.injEq] at h
      obtain ⟨rfl, rfl, rfl, rfl⟩ := h
      exact ⟨rfl, rfl, rfl, rfl⟩
  obtain ⟨p, rest, rfl, hasc₃⟩ | hasc₃ := hasc.unconsNext (k := 3) rfl
  · obtain ⟨mid, hmid, hrest⟩ := fillFields_cons_eq_ok.1 h
    obtain ⟨text, htext, rfl⟩ := map_eq_ok.1 hmid
    obtain ⟨rfl, rfl, rfl, rfl⟩ := hlast hasc₃ hrest
    have hlabel := (decodeLabel_eq_ok.1 htext).2
    exact ⟨rfl, rfl, [(3, p)], labelFields_eq_ok.2 (.inr ⟨text, p, rfl, hlabel, rfl⟩), rfl⟩
  · obtain ⟨rfl, rfl, rfl, rfl⟩ := hlast hasc₃ h
    exact ⟨rfl, rfl, [], labelFields_eq_ok.2 (.inl ⟨rfl, rfl⟩), rfl⟩

/-- **The fields that fill the slots of a record are the ones it is written as.** -/
theorem fillFields_eq_ok (hasc : AscendingFields none fields)
    (hle : ∀ f ∈ fields, f.2.length ≤ maxStandaloneBytes) :
    fillFields fill fields {} = .ok (ofRecord record) ↔
      encodeObjectFields record = .ok fields ∧ cost record.body ≤ maxTotalAllocation := by
  rw [encodeObjectFields_eq_ok]
  constructor
  · intro h
    have hone : ∀ f ∈ fields, (1 : UInt32) ≤ f.1 := fun f hf ↦
      UInt32.le_iff_toNat_le.2 (fillFields_known h f hf)
    obtain ⟨p, rest, rfl, hasc₁⟩ | hasc₁ := hasc.uncons hone
    swap
    · have hid := (fillFields_frame hasc₁ h).1 (by decide)
      cases hid
    obtain ⟨mid, hmid, hrest⟩ := fillFields_cons_eq_ok.1 h
    obtain ⟨id, hid, rfl⟩ := map_eq_ok.1 hmid
    obtain ⟨q, rest, rfl, hasc₂⟩ | hasc₂ := hasc₁.unconsNext (k := 2) rfl
    swap
    · have hbody := (fillFields_frame hasc₂ hrest).2.1 (by decide)
      cases hbody
    obtain ⟨mid, hmid, hrest⟩ := fillFields_cons_eq_ok.1 hrest
    obtain ⟨body, hbody, rfl⟩ := map_eq_ok.1 hmid
    obtain ⟨henc, hcost⟩ := decodeExact_eq_ok.1 hbody
    obtain ⟨rfl, rfl, label, hlabel, rfl⟩ := fillFields_metadata hasc₂ hrest
    obtain rfl := decodeFixed_eq_ok.1 hid
    exact ⟨⟨q, label, henc, hlabel, rfl⟩, hcost⟩
  · rintro ⟨⟨body, label, hbody, hlabel, rfl⟩, hcost⟩
    obtain ⟨entityId, value, text, fingerprint⟩ := record
    have hid : fill 1 entityId.bytes {} = .ok { entityId := some entityId } :=
      map_eq_ok.2 ⟨_, decodeFixed_eq_ok.2 rfl, rfl⟩
    have hvalue : fill 2 body { entityId := some entityId } =
        .ok { entityId := some entityId, body := some value } :=
      map_eq_ok.2 ⟨_, decodeExact_eq_ok.2 ⟨hbody, hcost⟩, rfl⟩
    have hfingerprint : ∀ slots : ObjectSlots, slots.semanticFingerprint = none →
        fillFields fill (fingerprintFields fingerprint) slots =
          .ok { slots with semanticFingerprint := fingerprint } := by
      intro slots hslots
      cases fingerprint with
      | none =>
        obtain ⟨_, _, _, _⟩ := slots
        obtain rfl : _ = none := hslots
        rfl
      | some fingerprint =>
        exact fillFields_cons_eq_ok.2
          ⟨_, map_eq_ok.2 ⟨_, decodeFixed_eq_ok.2 rfl, rfl⟩, rfl⟩
    refine fillFields_cons_eq_ok.2 ⟨_, hid, fillFields_cons_eq_ok.2 ⟨_, hvalue, ?_⟩⟩
    obtain ⟨rfl, rfl⟩ | ⟨text, p, rfl, hp, rfl⟩ := labelFields_eq_ok.1 hlabel
    · exact hfingerprint _ rfl
    · have hmem : ((3, p) : Field) ∈ (1, entityId.bytes) :: (2, body) ::
          ([(3, p)] ++ fingerprintFields fingerprint) := by simp
      have hlabel : fill 3 p { entityId := some entityId, body := some value } =
          .ok { entityId := some entityId, body := some value, label := some text } :=
        map_eq_ok.2 ⟨_, decodeLabel_eq_ok.2 ⟨hle _ hmem, hp⟩, rfl⟩
      exact fillFields_cons_eq_ok.2 ⟨_, hlabel, hfingerprint _ rfl⟩

end

end ObjectSlots

/-! ### Records -/

variable {record : EntityObjectRecord} {schemaEpochId : SchemaEpochId}

omit [Blake3] in
theorem encodeObjectFields_ascending {fields : List Field}
    (h : encodeObjectFields record = .ok fields) :
    AscendingFields none fields ∧ 2 ≤ fields.length ∧ fields.length ≤ 4 := by
  obtain ⟨body, label, -, hlabel, rfl⟩ := encodeObjectFields_eq_ok.1 h
  obtain ⟨-, rfl⟩ | ⟨text, p, -, -, rfl⟩ := labelFields_eq_ok.1 hlabel
  all_goals
    cases record.semanticFingerprint
    all_goals
      refine ⟨?_, by simp [fingerprintFields], by simp [fingerprintFields]⟩
      simp [AscendingFields, fingerprintFields]

/-- What the loop reads for some slots. -/
def EmitsSlots (slots : ObjectSlots) (bs : Bytes) : Prop :=
  ∃ fields : List Field, (2 ≤ fields.length ∧ fields.length ≤ 4) ∧ AscendingFields none fields ∧
    (∀ f ∈ fields, f.2.length ≤ maxStandaloneBytes) ∧
    fillFields ObjectSlots.fill fields {} = .ok slots ∧
    bs = Leb128.encode fields.length ++ fields.flatMap fun f ↦ taggedBytes f.1 f.2

omit [Blake3] in
theorem readObjectRecord_eq_ok {slots : ObjectSlots} {r r' : Reader} :
    readObjectRecord.run r = .ok (slots, r') ↔ ∃ bs, EmitsSlots slots bs ∧ r.Consumes bs r' := by
  simp only [readObjectRecord, StateT.run_bind_eq_ok, Reader.readRecordFieldCount_eq_ok,
    StateT.run_ofExcept_eq_ok, rejectIf_eq_ok, not_not, foldFields_eq_ok]
  constructor
  · rintro ⟨n, r₁, ⟨-, hcount⟩, _, _, ⟨hn, rfl⟩, fields, rfl, hasc, hle, hcons, hfill⟩
    exact ⟨_, ⟨fields, hn, hasc, hle, hfill, rfl⟩, hcount.trans hcons⟩
  · rintro ⟨_, ⟨fields, hn, hasc, hle, hfill, rfl⟩, hcons⟩
    obtain ⟨r₁, hcount, hcons⟩ := Cursor.consumes_append_iff.1 hcons
    have hmax : fields.length ≤ maxRecordFields := hn.2.trans (by decide)
    exact ⟨_, r₁, ⟨hmax, hcount⟩, (), r₁, ⟨hn, rfl⟩, fields, rfl, hasc, hle, hcons, hfill⟩

omit [Blake3] in
/-- **Records are read back**, as far as the budget goes. -/
theorem decodeObjectRecord_eq_ok {input : Bytes} : decodeObjectRecord input = .ok record ↔
      input.length ≤ maxStandaloneBytes ∧ encodeObjectRecord record = .ok input ∧
        cost record.body ≤ maxTotalAllocation := by
  simp only [decodeObjectRecord, bind_eq_ok, ObjectSlots.toRecord_eq_ok, exists_eq_right,
    readWhole_eq_ok EmitsSlots readObjectRecord_eq_ok]
  refine and_congr_right fun _ ↦ ?_
  constructor
  · rintro ⟨fields, hn, hasc, hle, hfill, rfl⟩
    obtain ⟨hfields, hcost⟩ := (ObjectSlots.fillFields_eq_ok hasc hle).1 hfill
    refine ⟨bind_eq_ok.2 ⟨fields, hfields, ?_⟩, hcost⟩
    exact (encodeRecord_eq_ok hasc.sorted).2 ⟨hn.2.trans (by decide), hle, rfl⟩
  · rintro ⟨hrecord, hcost⟩
    obtain ⟨fields, hfields, hbytes⟩ := bind_eq_ok.1 hrecord
    obtain ⟨hasc, hn⟩ := encodeObjectFields_ascending hfields
    obtain ⟨-, hle, rfl⟩ := (encodeRecord_eq_ok hasc.sorted).1 hbytes
    exact ⟨fields, hn, hasc, hle, (ObjectSlots.fillFields_eq_ok hasc hle).2 ⟨hfields, hcost⟩, rfl⟩

/-! ### Envelopes -/

/-- The bytes before the digest. -/
def preimageBytes (schemaEpochId : SchemaEpochId) (payload : Bytes) : Bytes :=
  entityObjectMagic ++ (encodeUvar entityObjectFormatVersion ++
    (encodeUvar entityObjectContractTag ++ (schemaEpochId.bytes ++ sizedBytes payload)))

section

omit [HostLayout] [Blake3] [UnicodeNormalization]

theorem buildPreimage_eq_ok {payload preimage : Bytes} :
    buildPreimage schemaEpochId payload = .ok preimage ↔ preimage.length + 32 ≤ maxStandaloneBytes ∧
        preimage = preimageBytes schemaEpochId payload := by
  simp only [buildPreimage, bind_eq_ok, rejectIf_eq_ok, exists_const,
    pure_eq_ok, gt_iff_lt, Nat.not_lt]
  -- a payload within the limit has a length that fits in 64 bits
  have hlength : payload.length ≤ maxStandaloneBytes →
      entityObjectMagic ++ encodeUvar entityObjectFormatVersion ++
        encodeUvar entityObjectContractTag ++ schemaEpochId.bytes ++
        encodeCount payload.length ++ payload = preimageBytes schemaEpochId payload := by
    intro hle
    rw [encodeCount_eq (lt_of_le_of_lt hle (by decide))]
    simp only [preimageBytes, sizedBytes, List.append_assoc]
  constructor
  · rintro ⟨hle, rfl⟩
    refine ⟨hle, hlength ?_⟩
    simp only [length_append] at hle
    omega
  · rintro ⟨hle, rfl⟩
    have hpayload : payload.length ≤ maxStandaloneBytes := by
      simp only [preimageBytes, sizedBytes, length_append] at hle
      omega
    rw [hlength hpayload]
    exact ⟨hle, rfl⟩

theorem readObjectEnvelope_eq_ok {expected : SchemaEpochId} {e : SchemaEpochId × Bytes}
    {r r' : Reader} :
    (readObjectEnvelope expected).run r = .ok (e, r') ↔
      ∃ bs, (e.1 = expected ∧ e.2.length ≤ maxStandaloneBytes ∧
        bs = preimageBytes expected e.2) ∧ r.Consumes bs r' := by
  obtain ⟨epoch, payload⟩ := e
  have hversion : ∀ {r r' : Reader}, readUvar r 64 = .ok (entityObjectFormatVersion, r') ↔
      r.Consumes (encodeUvar entityObjectFormatVersion) r' := by
    intro r r'
    rw [Reader.readUvar_eq_ok]
    exact ⟨fun h ↦ h.2.2, fun h ↦ ⟨by decide, by decide, h⟩⟩
  have htag : ∀ {r r' : Reader}, readUvar r 32 = .ok (entityObjectContractTag, r') ↔
      r.Consumes (encodeUvar entityObjectContractTag) r' := by
    intro r r'
    rw [Reader.readUvar_eq_ok]
    exact ⟨fun h ↦ h.2.2, fun h ↦ ⟨by decide, by decide, h⟩⟩
  simp only [readObjectEnvelope, StateT.run_bind_eq_ok, Reader.expect_eq_ok,
    StateT.run_pure_eq_ok, Reader.readSizedPayload_eq_ok, readId_eq_ok, Prod.mk.injEq]
  constructor
  · rintro ⟨_, r₁, ⟨-, hm⟩, _, r₂, ⟨-, hv⟩, _, r₃, ⟨-, ht⟩, _, r₄, ⟨rfl, he⟩, _, r₅,
      ⟨hlen, hp⟩, ⟨rfl, rfl⟩, rfl⟩
    have hmagic := (Reader.takeExact_eq_ok.1 hm).2
    exact ⟨_, ⟨rfl, hlen, rfl⟩,
      hmagic.trans ((hversion.1 hv).trans ((htag.1 ht).trans (he.trans hp)))⟩
  · rintro ⟨_, ⟨rfl, hlen, rfl⟩, hcons⟩
    simp only [preimageBytes, Cursor.consumes_append_iff] at hcons
    obtain ⟨r₁, hm, r₂, hv, r₃, ht, r₄, he, hp⟩ := hcons
    exact ⟨_, r₁, ⟨rfl, Reader.takeExact_eq_ok.2 ⟨rfl, hm⟩⟩, _, r₂, ⟨rfl, hversion.2 hv⟩, _, r₃,
      ⟨rfl, htag.2 ht⟩, _, r₄, ⟨rfl, he⟩, _, r', ⟨hlen, hp⟩, ⟨rfl, rfl⟩, rfl⟩

end

/-- The object around an encoded record. -/
def objectAround (schemaEpochId : SchemaEpochId) (record : EntityObjectRecord) (payload : Bytes) :
    EntityObject :=
  let preimage := preimageBytes schemaEpochId payload
  let objectId := derive preimage
  { schemaEpochId, record, objectId, preimage, storedBytes := preimage ++ objectId.bytes }

theorem buildEntityObject_eq_ok {object : EntityObject} :
    buildEntityObject schemaEpochId record = .ok object ↔
      ∃ payload, encodeObjectRecord record = .ok payload ∧
        (preimageBytes schemaEpochId payload).length + 32 ≤ maxStandaloneBytes ∧
        object = objectAround schemaEpochId record payload := by
  simp only [buildEntityObject, bind_eq_ok, buildPreimage_eq_ok, rejectIf_eq_ok,
    exists_const, pure_eq_ok, gt_iff_lt, Nat.not_lt, length_append, Id.length_eq]
  constructor
  · rintro ⟨payload, hpayload, _, ⟨hle, rfl⟩, -, rfl⟩
    exact ⟨payload, hpayload, hle, rfl⟩
  · rintro ⟨payload, hpayload, hle, rfl⟩
    exact ⟨payload, hpayload, _, ⟨hle, rfl⟩, hle, rfl⟩

/-- **Import inverts build.** -/
theorem importEntityObject_eq_ok {expected : SchemaEpochId} {input : Bytes}
    {object : EntityObject} :
    importEntityObject expected input = .ok object ↔
      buildEntityObject expected object.record = .ok object ∧ object.storedBytes = input ∧
        cost object.record.body ≤ maxTotalAllocation := by
  rw [buildEntityObject_eq_ok]
  simp only [importEntityObject, bind_eq_ok, rejectIf_eq_ok, exists_const,
    Prod.exists, decodeObjectRecord_eq_ok, pure_eq_ok, gt_iff_lt, Nat.not_lt, not_not,
    readWhole_eq_ok _ readObjectEnvelope_eq_ok]
  constructor
  · rintro ⟨hle, hlen, epoch, payload, ⟨-, hepoch, hpayload, hpre⟩, hdigest, record,
      ⟨-, hrecord, hcost⟩, rfl⟩
    obtain rfl : epoch = expected := hepoch
    have hinput : input = preimageBytes epoch payload ++
        (derive (preimageBytes epoch payload)).bytes := by
      calc
        input = input.take (input.length - 32) ++ input.drop (input.length - 32) :=
          (List.take_append_drop _ _).symm
        _ = _ := by rw [hdigest, hpre]
    have hfits : (preimageBytes epoch payload).length + 32 ≤ maxStandaloneBytes := by
      rw [hinput, length_append, Id.length_eq] at hle
      exact hle
    refine ⟨⟨payload, hrecord, hfits, ?_⟩, rfl, hcost⟩
    rw [objectAround, hpre, ← hinput]
  · rintro ⟨⟨payload, hpayload, hfits, hobject⟩, rfl, hcost⟩
    have hstored : object.storedBytes = preimageBytes expected payload ++
        (derive (preimageBytes expected payload)).bytes := by rw [hobject]; rfl
    have hlength : object.storedBytes.length - 32 = (preimageBytes expected payload).length := by
      rw [hstored, length_append, Id.length_eq, Nat.add_sub_cancel]
    have htake : object.storedBytes.take (object.storedBytes.length - 32) =
        preimageBytes expected payload := by
      rw [hlength, hstored, List.take_left]
    have hdrop : object.storedBytes.drop (object.storedBytes.length - 32) =
        (derive (preimageBytes expected payload)).bytes := by
      rw [hlength, hstored, List.drop_left]
    have hle : payload.length ≤ maxStandaloneBytes := by
      simp only [preimageBytes, sizedBytes, length_append] at hfits
      omega
    rw [htake, hdrop]
    refine ⟨?_, ?_, expected, payload, ⟨by omega, rfl, hle, rfl⟩, rfl, object.record,
      ⟨hle, hpayload, hcost⟩, ?_⟩
    · rw [hstored, length_append, Id.length_eq]
      exact hfits
    · rw [hstored, length_append, Id.length_eq]
      omega
    · rw [hstored, hobject]
      rfl

/-- **Entity objects round-trip.** A built object is imported as the same object exactly when the
decoder can pay for its body; bytes that are imported are what building the decoded record gives. -/
theorem entityObject_roundTrip (epoch : SchemaEpochId) :
    (∀ (record : EntityObjectRecord) (object : EntityObject),
      buildEntityObject epoch record = .ok object → object.record = record ∧
        (importEntityObject epoch object.storedBytes = .ok object ↔
          cost record.body ≤ maxTotalAllocation)) ∧
    ∀ (input : Bytes) (object : EntityObject), importEntityObject epoch input = .ok object →
      buildEntityObject epoch object.record = .ok object ∧ object.storedBytes = input := by
  constructor
  · intro record object hbuild
    have hrecord : object.record = record := by
      obtain ⟨payload, -, -, rfl⟩ := buildEntityObject_eq_ok.1 hbuild
      rfl
    subst hrecord
    refine ⟨rfl, ?_⟩
    rw [importEntityObject_eq_ok, and_iff_right hbuild, and_iff_right rfl]
  · intro input object himport
    obtain ⟨hbuild, hstored, -⟩ := importEntityObject_eq_ok.1 himport
    exact ⟨hbuild, hstored⟩

omit [HostLayout] [Blake3] [UnicodeNormalization] in
theorem RecordFields.encode_cons {β τ : Type} {fields : RecordFields τ} {enc : β → Result Bytes}
    {dec : Bytes → Decoder β} {tag : UInt32} {v : β × τ} {p : Bytes} {ps : List Bytes}
    (hp : enc v.1 = .ok p) (hps : fields.encode v.2 = .ok ps) :
    (cons tag enc dec fields).encode v = .ok (p :: ps) := by
  simp only [RecordFields.cons, hp, hps, ok_bind]
  rfl

/-- An entry point with a label and a fingerprint. -/
def cafeRecord : EntityObjectRecord where
  entityId := Id.splat 1
  body := ⟨.entryPoint, { function := Id.splat 2, exposure := .protocol }⟩
  label := some "Café"
  semanticFingerprint := some (Id.splat 7)

def cafePayload : Bytes :=
  [4, 1, 32] ++ replicate 32 1 ++ [2, 40, 16, 38, 2, 1, 32] ++ replicate 32 2 ++
    [2, 1, 2, 3, 6, 5, 67, 97, 102, 195, 169, 4, 32] ++ replicate 32 7

omit [Blake3] in
theorem encode_cafeRecord (h : UnicodeNormalization.nfc "Café" = "Café") :
    encodeObjectRecord cafeRecord = .ok cafePayload := by
  have hsorted := (RecordShape.wellFormed_iff.1 entryPointLayout.wellFormed).1
  have hbody : encodeExact cafeRecord.body =
      .ok ([16, 38, 2, 1, 32] ++ replicate 32 2 ++ [2, 1, 2]) := by
    have hfields : (entryPointLayout.shape.fields 1).encode
        (entryPointLayout.equiv ⟨Id.splat 2, .protocol⟩) = .ok [replicate 32 2, [2]] :=
      RecordFields.encode_cons (by decide) <|
        RecordFields.encode_cons (by with_unfolding_all decide) rfl
    have hrecord : (entryPointLayout.shape.fields 1).encodeRecordValue 1
        (entryPointLayout.equiv ⟨Id.splat 2, .protocol⟩) =
          .ok ([2, 1, 32] ++ replicate 32 2 ++ [2, 1, 2]) :=
      ((entryPointLayout.shape.exact_fields hsorted 1).encodeRecordValue_eq_ok
        (show 2 ≤ maxRecordFields by decide)).2
        ⟨by decide, _, hfields, by decide, by with_unfolding_all decide⟩
    exact encodeAtDepth_eq_ok.2 ⟨by decide, encodeUnionValue_eq_ok.2 ⟨by decide, _,
      encodeAtDepth_eq_ok.2 ⟨by decide, hrecord, by decide⟩, by decide, by with_unfolding_all decide⟩, by decide⟩
  have hlabel : labelFields cafeRecord.label = .ok [(3, [5, 67, 97, 102, 195, 169])] :=
    labelFields_eq_ok.2 (.inr ⟨_, _, rfl, encodeLabel_eq_ok.2 ⟨by decide,
      encodeNormalizedLabel_eq_ok.2 ⟨h, by with_unfolding_all decide, by with_unfolding_all decide⟩⟩, rfl⟩)
  have hfields := encodeObjectFields_eq_ok.2 ⟨_, _, hbody, hlabel, rfl⟩
  exact bind_eq_ok.2 ⟨_, hfields,
    (encodeRecord_eq_ok (encodeObjectFields_ascending hfields).1.sorted).2
      ⟨by decide, by decide, by with_unfolding_all decide⟩⟩

/-- The digest of the entry point's preimage. -/
@[reducible]
def cafeBlake3 : Blake3 where
  hash _ := ⟨[127, 234, 114, 51, 4, 175, 94, 146, 243, 133, 69, 1, 113, 155, 42, 193, 96, 136, 36,
    198, 139, 64, 233, 242, 43, 163, 43, 0, 213, 25, 243, 113], rfl⟩

/-- Composed text is left as it is. -/
@[reducible]
def composedText : UnicodeNormalization := ⟨id⟩

omit [HostLayout] [Blake3] [UnicodeNormalization] in
theorem entityObject_roundTrip_cafe :
    letI := hostLayout64
    letI := cafeBlake3
    letI := composedText
    ∃ object, buildEntityObject (Id.splat 9) cafeRecord = .ok object ∧
      importEntityObject (Id.splat 9) object.storedBytes = .ok object := by
  let _ := hostLayout64
  let _ := cafeBlake3
  let _ := composedText
  have hbuild : buildEntityObject (Id.splat 9) cafeRecord =
      .ok (objectAround (Id.splat 9) cafeRecord cafePayload) :=
    buildEntityObject_eq_ok.2 ⟨_, encode_cafeRecord rfl, by decide +kernel, rfl⟩
  exact ⟨_, hbuild, ((entityObject_roundTrip (Id.splat 9)).1 _ _ hbuild).2.2 (by decide)⟩

/-! ### Objects that are built and not read back -/

section Oversized

open ConstEncoding

section

omit [HostLayout] [Blake3] [UnicodeNormalization]

theorem length_sizedBytes_le {p : Bytes} (h : p.length ≤ maxStandaloneBytes) :
    (sizedBytes p).length ≤ p.length + 10 := by
  have hlt : p.length < 2 ^ (7 * 10) := lt_of_le_of_lt h (by decide)
  have := Leb128.length_encode_le (by decide) hlt
  rw [sizedBytes, length_append]
  omega

theorem length_taggedBytes_le (tag : UInt32) {p : Bytes} (h : p.length ≤ maxStandaloneBytes) :
    (taggedBytes tag p).length ≤ p.length + 20 := by
  have hlt : tag.toNat < 2 ^ (7 * 10) := lt_of_lt_of_le tag.toNat_lt (by decide)
  have := Leb128.length_encode_le (by decide) hlt
  have := length_sizedBytes_le h
  rw [taggedBytes, length_append]
  omega

/-- Fields within the limit make a record, with at most 20 bytes in front of each payload. -/
theorem encode_fields (fields : List Field) (hsorted : (fields.map Prod.fst).Pairwise (· < ·))
    (hcount : fields.length ≤ maxRecordFields)
    (hle : ∀ f ∈ fields, f.2.length ≤ maxStandaloneBytes) :
    ∃ bs, encodeRecord fields = .ok bs ∧
      bs.length ≤ 10 + (fields.map fun f ↦ f.2.length + 20).sum := by
  have hfields : (fields.flatMap fun f ↦ taggedBytes f.1 f.2).length ≤
      (fields.map fun f ↦ f.2.length + 20).sum := by
    clear hsorted hcount
    induction fields with
    | nil => simp
    | cons f fields ih =>
      obtain ⟨hf, hle⟩ := List.forall_mem_cons.1 hle
      rw [List.flatMap_cons, length_append, List.map_cons, List.sum_cons]
      exact Nat.add_le_add (length_taggedBytes_le f.1 hf) (ih hle)
  refine ⟨_, (encodeRecord_eq_ok hsorted).2 ⟨hcount, hle, rfl⟩, ?_⟩
  rw [length_append]
  refine Nat.add_le_add (Leb128.length_encode_le (by decide) ?_) hfields
  exact lt_of_le_of_lt hcount (by decide)

/-- A record whose fields are written is written. -/
theorem encode_recordCodec {α τ : Type} {shape : RecordShape τ} {e : α ≃ τ}
    (hshape : shape.wellFormed = true) {d : Nat} {v : α} (hd : d < maxNestingDepth)
    {ps : List Bytes} (hps : (shape.fields d).encode (e v) = .ok ps)
    (hle : ∀ p ∈ ps, p.length ≤ maxStandaloneBytes) :
    ∃ bs, (recordCodec shape e hshape).encodeValue d v = .ok bs ∧
      bs.length ≤ 10 + (ps.map fun p ↦ p.length + 20).sum := by
  obtain ⟨hsorted, hcount⟩ := RecordShape.wellFormed_iff.1 hshape
  have hlen : ps.length = shape.tags.length := by
    rw [(shape.exact_fields hsorted d).length_eq hps, shape.fields_tags]
  have hfst : (shape.tags.zip ps).map Prod.fst = shape.tags := List.map_fst_zip (by omega)
  have hsnd : (shape.tags.zip ps).map Prod.snd = ps := List.map_snd_zip (by omega)
  obtain ⟨bs, hbs, hbound⟩ := encode_fields (shape.tags.zip ps)
    (by rw [hfst]; exact hsorted) (by rw [List.length_zip, hlen, Nat.min_self]; exact hcount)
    (fun f hf ↦ hle _ (by rw [← hsnd]; exact List.mem_map_of_mem hf))
  refine ⟨bs, ?_, hbound.trans (Nat.le_of_eq ?_)⟩
  · rw [← shape.fields_tags d] at hbs
    exact bind_eq_ok.2 ⟨(), rejectIf_neg (Nat.not_le.2 hd) _,
      bind_eq_ok.2 ⟨ps, hps, hbs⟩⟩
  · rw [← hsnd, List.map_map, hsnd]
    rfl

end

/-- The tuple of `n` units. -/
def wideType (n : Nat) : TypeExpr := .tuple (replicate n .unit)

omit [Blake3] [UnicodeNormalization] in
theorem encode_wideType {n d : Nat} (hn : n ≤ maxCollectionElements)
    (hdepth : d + 2 < maxNestingDepth) :
    ∃ bs, encodeNested d (wideType n) = .ok bs ∧ bs.length ≤ 4000000 := by
  have hn' : n ≤ 1000000 := hn
  -- the bytes of one unit, and of the framed units
  have hunit : encode (.type .unit) (d + 2) = .ok (taggedBytes 1 []) :=
    (encode_union rfl rfl (by rw [show taggedBytes 1 [] = [1, 0] by with_unfolding_all decide]; decide)).2
      (encodeUnionValue_eq_ok.2 ⟨hdepth, [], rfl, by decide, rfl⟩)
  have hframed : ((replicate n (taggedBytes 1 [])).flatMap sizedBytes).length = 3 * n := by
    rw [List.length_flatMap, List.map_replicate, List.sum_replicate_nat,
      show (sizedBytes (taggedBytes 1 [])).length = 3 by with_unfolding_all decide, Nat.mul_comm]
  have hcount := Leb128.length_encode_le (n := n) (k := 10) (by decide)
    (lt_of_le_of_lt hn' (by decide))
  let items := Leb128.encode n ++ (replicate n (taggedBytes 1 [])).flatMap sizedBytes
  have hitems : items.length ≤ 3 * n + 10 := by
    rw [length_append, hframed]
    omega
  have hmax : items.length ≤ maxStandaloneBytes := hitems.trans (by
    have : maxStandaloneBytes = 67108864 := rfl
    omega)
  have hsequence : encode (.sequence (.types (replicate n .unit))) (d + 1) = .ok items := by
    refine (encode_sequence hmax).2 ⟨by omega, ?_, trivial, replicate n (taggedBytes 1 []), ?_, ?_⟩
    · simpa [Sequence.nodes] using hn
    · rw [Sequence.nodes, List.map_replicate, List.forall₂_iff_get]
      simp [hunit]
    · simp [Sequence.nodes, items]
  have htagged := length_taggedBytes_le 9 hmax
  have htotal : (taggedBytes 9 items).length ≤ 4000000 := by omega
  have henc : encode (.type (wideType n)) d = .ok (taggedBytes 9 items) := by
    refine (encode_union rfl rfl (htotal.trans (by decide))).2 ?_
    exact encodeUnionValue_eq_ok.2 ⟨by omega, items, hsequence, hmax, rfl⟩
  exact ⟨_, encodeAtDepth_eq_ok.2 ⟨by omega, henc, htotal.trans (by decide)⟩, htotal⟩

/-- An effect whose four types are tuples of a million units. -/
def wideEffect : EffectDefBody where
  effectKind := .stdoutWrite
  scopeType := wideType 1000000
  requestType := wideType 1000000
  responseType := wideType 1000000
  failureType := wideType 1000000
  visibility := .package

def wideRecord : EntityObjectRecord where
  entityId := Id.splat 1
  body := ⟨.effectDef, wideEffect⟩
  label := none
  semanticFingerprint := none

omit [Blake3] [UnicodeNormalization] in
theorem encode_wideEffect {d : Nat} (hd : d + 4 < maxNestingDepth) :
    ∃ bs, encodeNested d wideRecord.body = .ok bs ∧ bs.length ≤ 30000000 := by
  obtain ⟨wide, hwide, hlen⟩ := encode_wideType (n := 1000000) (d := d + 2) (by decide) (by omega)
  have hkind : encodeNested (d + 2) EffectKind.stdoutWrite = .ok [1] :=
    encodeAtDepth_eq_ok.2 ⟨by omega, show Except.ok _ = Except.ok _ by with_unfolding_all decide, by decide⟩
  have hvisibility : encodeNested (d + 2) Visibility.package = .ok [2] :=
    encodeAtDepth_eq_ok.2 ⟨by omega, show Except.ok _ = Except.ok _ by with_unfolding_all decide, by decide⟩
  let ps := [[1], wide, wide, wide, wide, [2]]
  have hps : ∀ p ∈ ps, p.length ≤ maxStandaloneBytes := by
    have : wide.length ≤ maxStandaloneBytes := hlen.trans (by decide)
    simp [ps, this]
    decide
  have hfields : (effectDefLayout.shape.fields (d + 1)).encode
      (effectDefLayout.equiv wideEffect) = .ok ps :=
    RecordFields.encode_cons hkind <| RecordFields.encode_cons hwide <|
      RecordFields.encode_cons hwide <| RecordFields.encode_cons hwide <|
      RecordFields.encode_cons hwide <| RecordFields.encode_cons hvisibility rfl
  obtain ⟨body, hencoded, hbody⟩ := encode_recordCodec (e := effectDefLayout.equiv)
    effectDefLayout.wellFormed (by omega) hfields hps
  have hsum : (ps.map fun p ↦ p.length + 20).sum = 4 * (wide.length + 20) + 42 := by
    simp only [ps, List.map_cons, List.map_nil, List.sum_cons, List.sum_nil, List.length_cons,
      List.length_nil]
    omega
  rw [hsum] at hbody
  have hmax : body.length ≤ maxStandaloneBytes :=
    (show body.length ≤ 25000000 by omega).trans (by decide)
  have hnested : encodeNested (d + 1) wideRecord.body.body = .ok body :=
    encodeAtDepth_eq_ok.2 ⟨by omega, hencoded, hmax⟩
  have htagged := length_taggedBytes_le 11 hmax
  have htotal : (taggedBytes 11 body).length ≤ 30000000 := by omega
  refine ⟨taggedBytes 11 body, encodeAtDepth_eq_ok.2 ⟨by omega, ?_, htotal.trans (by decide)⟩,
    htotal⟩
  exact encodeUnionValue_eq_ok.2 ⟨by omega, body, hnested, hmax, rfl⟩

/-- A body that is encoded in 30 million bytes is the body of an object without metadata. -/
theorem exists_object_of_encodeExact {record : EntityObjectRecord} (hlabel : record.label = none)
    (hfingerprint : record.semanticFingerprint = none) {body : Bytes}
    (hbody : encodeExact record.body = .ok body) (hlen : body.length ≤ 30000000)
    (epoch : SchemaEpochId) : ∃ object, buildEntityObject epoch record = .ok object := by
  let id : EntityId := record.entityId
  have hfields : encodeObjectFields record = .ok [(1, id.bytes), (2, body)] :=
    encodeObjectFields_eq_ok.2 ⟨body, [], hbody, by rw [hlabel]; rfl, by rw [hfingerprint]; rfl⟩
  have hid : id.bytes.length ≤ maxStandaloneBytes := by
    rw [id.length_eq]
    decide
  have hmax : body.length ≤ maxStandaloneBytes := hlen.trans (by decide)
  let payload := Leb128.encode 2 ++ (taggedBytes 1 id.bytes ++ taggedBytes 2 body)
  have hpayload : encodeObjectRecord record = .ok payload := by
    refine bind_eq_ok.2 ⟨_, hfields,
      (encodeRecord_eq_ok (encodeObjectFields_ascending hfields).1.sorted).2
        ⟨show 2 ≤ maxRecordFields by decide, by simp [hid, hmax], ?_⟩⟩
    simp [payload]
  have hlength : payload.length ≤ 40000000 := by
    have hcount : (Leb128.encode 2).length = 1 := by with_unfolding_all decide
    have hfirst := length_taggedBytes_le 1 hid
    have hsecond := length_taggedBytes_le 2 hmax
    rw [id.length_eq] at hfirst
    rw [length_append, length_append, hcount]
    omega
  refine ⟨_, buildEntityObject_eq_ok.2 ⟨payload, hpayload, ?_, rfl⟩⟩
  have hheader : (encodeUvar entityObjectFormatVersion).length = 1 ∧
      (encodeUvar entityObjectContractTag).length = 2 := by with_unfolding_all decide
  have hsized := length_sizedBytes_le (hlength.trans (by decide : _ ≤ maxStandaloneBytes))
  have hmagic : entityObjectMagic.length = 8 := rfl
  have hlimit : maxStandaloneBytes = 67108864 := rfl
  simp only [preimageBytes, length_append, Id.length_eq, hheader, hmagic]
  omega

theorem build_wideRecord (epoch : SchemaEpochId) :
    ∃ object, buildEntityObject epoch wideRecord = .ok object := by
  obtain ⟨body, hbody, hlen⟩ := encode_wideEffect (d := 0) (by decide)
  exact exists_object_of_encodeExact rfl rfl hbody hlen epoch

omit [Blake3] [UnicodeNormalization] in
theorem cost_wideRecord (h : 34 ≤ HostLayout.typeExpr) :
    maxTotalAllocation < cost wideRecord.body := by
  have hwide : 34000000 ≤ typeCost (wideType 1000000) := by
    rw [wideType, typeCost, List.length_replicate]
    have : 1000000 * 34 ≤ 1000000 * HostSize.size TypeExpr := Nat.mul_le_mul_left _ h
    omega
  have hcost : cost wideRecord.body = 0 + (typeCost (wideType 1000000) +
      (typeCost (wideType 1000000) + (typeCost (wideType 1000000) +
        (typeCost (wideType 1000000) + (0 + 0))))) := rfl
  have hlimit : maxTotalAllocation = 134217728 := rfl
  omega

end Oversized

omit [HostLayout] [Blake3] [UnicodeNormalization] in
/-- **The importer does not read back every object the builder makes**, on any host whose
`TypeExpr` takes at least 34 bytes: the wide record is built, and importing the bytes never gives
it back. -/
theorem not_entityObject_roundTrip_wide :
    ¬ ∃ (layout : HostLayout) (_ : Blake3) (_ : UnicodeNormalization), 34 ≤ layout.typeExpr ∧
      ∀ (epoch : SchemaEpochId) (record : EntityObjectRecord) (object : EntityObject),
        buildEntityObject epoch record = .ok object →
        ∃ imported, importEntityObject epoch object.storedBytes = .ok imported ∧
          imported.record = record ∧ imported.objectId = object.objectId := by
  rintro ⟨layout, _, _, hsize, h⟩
  obtain ⟨object, hbuild⟩ := build_wideRecord (Id.splat 0)
  obtain ⟨imported, himport, hrecord, -⟩ := h _ _ _ hbuild
  obtain ⟨-, -, hcost⟩ := importEntityObject_eq_ok.1 himport
  rw [hrecord] at hcost
  exact absurd hcost (Nat.not_le.2 (cost_wideRecord hsize))

end Sley.Mutate
