import Sley.Mutate.CandidateCodec

/-!
# Candidate records and their envelope

The stored form of a candidate (the last part of `sley-mutate/src/codec.rs`): its record, framed
behind a magic and a version, and the digest of all that.

Both sides validate the record, the writer before it encodes and the reader after it decodes, so
**bytes are imported exactly when they are what `buildCandidate` makes of the record they hold and
the decoder can pay for it** (`importCandidate_eq_ok`). As with entity objects the builder is bounded
by the encoded size alone; the last section has a candidate that is built and not read back.
-/

namespace Sley.Mutate

open Scb1 Ssmc
open Except hiding ok error
open CandidateError (ofScb ofScb_eq_ok)
open List (length_append map_cons map_nil sum_cons sum_nil)
open RecordFields (encode_cons)
open Id (length_eq splat)
open CandidateLayout (boundPrecondition mutationOperation)
open CandidateId (derive)

/-- Exact magic of a stored candidate, `SLEYCAN1`. -/
def candidateMagic : Bytes := [0x53, 0x4c, 0x45, 0x59, 0x43, 0x41, 0x4e, 0x31]

def candidateEnvelopeVersion : UInt64 := 1

variable [HostLayout] [CandidateLayout] [Blake3]

instance : HostSize MutationOperation := ⟨mutationOperation⟩

instance : HostSize BoundPrecondition := ⟨boundPrecondition⟩

/-- Candidate bytes with a verified digest trailer. -/
structure ImportedCandidate where
  record : CandidateRecord
  candidateId : CandidateId
  preimage : Bytes
  storedBytes : Bytes

/-! ### Records -/

def candidateShape : RecordShape (UInt32 × WorkspaceId × TransactionId × StateRoot ×
    SchemaEpochId × PolicyRootId × PrincipalId × CapabilitySummaryDigest ×
    List MutationOperation × List BoundPrecondition × ValidationProfileId × CandidateNonce ×
    CandidateExpiry × Unit) :=
  .cons 1 UInt32 <| .cons 2 WorkspaceId <| .cons 3 TransactionId <| .cons 4 StateRoot <|
    .cons 5 SchemaEpochId <| .cons 6 PolicyRootId <| .cons 7 PrincipalId <|
    .cons 8 CapabilitySummaryDigest <| .cons 9 (List MutationOperation) <|
    .cons 10 (List BoundPrecondition) <| .cons 11 ValidationProfileId <|
    .cons 12 CandidateNonce <| .cons 13 CandidateExpiry .nil

def candidateEquiv : CandidateRecord ≃ UInt32 × WorkspaceId × TransactionId × StateRoot ×
    SchemaEpochId × PolicyRootId × PrincipalId × CapabilitySummaryDigest ×
    List MutationOperation × List BoundPrecondition × ValidationProfileId × CandidateNonce ×
    CandidateExpiry × Unit where
  toFun v := (v.formatVersion, v.workspaceId, v.baseTransactionId, v.baseRoot, v.schemaEpochId,
    v.policyRootId, v.principalId, v.capabilitySummaryDigest, v.operations, v.preconditions,
    v.validationProfileId, v.candidateNonce, v.expiry, ())
  invFun t := ⟨t.1, t.2.1, t.2.2.1, t.2.2.2.1, t.2.2.2.2.1, t.2.2.2.2.2.1, t.2.2.2.2.2.2.1,
    t.2.2.2.2.2.2.2.1, t.2.2.2.2.2.2.2.2.1, t.2.2.2.2.2.2.2.2.2.1, t.2.2.2.2.2.2.2.2.2.2.1,
    t.2.2.2.2.2.2.2.2.2.2.2.1, t.2.2.2.2.2.2.2.2.2.2.2.2.1⟩
  left_inv _ := rfl
  right_inv _ := rfl

/-- The fields of a record, before the judgment on it. -/
@[reducible]
def candidateRecordCodec : MutationValueCodec CandidateRecord :=
  recordCodec candidateShape candidateEquiv

/-- `CandidateRecord::encode_value`. -/
def encodeCandidateValue (depth : Nat) (record : CandidateRecord) : Result Bytes := do
  checkContainerDepth depth
  match record.validate with
  | .error _ => .error .unionInvalid
  | .ok _ => candidateRecordCodec.encodeValue depth record

def encodeCandidateRecord (record : CandidateRecord) : Except CandidateError Bytes := do
  record.validate
  ofScb (encodeAtDepth 0 (encodeCandidateValue 0) record)

def decodeCandidateRecord (input : Bytes) : Except CandidateError CandidateRecord := do
  let record ← ofScb (@decodeExact CandidateRecord candidateRecordCodec input)
  record.validate
  return record

/-- What the reader allocates for a record. -/
def candidateCost (record : CandidateRecord) : Nat := candidateRecordCodec.cost record

variable {record : CandidateRecord} {candidate : ImportedCandidate}

theorem encodeCandidateRecord_eq_ok {bs : Bytes} : encodeCandidateRecord record = .ok bs ↔
      record.validate = .ok () ∧ @encodeExact _ candidateRecordCodec record = .ok bs := by
  simp only [encodeCandidateRecord, bind_eq_ok, ofScb_eq_ok,
    Unique.exists_iff, encodeExact, encodeNested, encodeAtDepth_eq_ok]
  refine and_congr_right fun hvalid ↦ and_congr_right fun _ ↦ and_congr_left fun _ ↦ ?_
  simp only [encodeCandidateValue, hvalid, checkContainerDepth]
  rfl

theorem decodeCandidateRecord_eq_ok {input : Bytes} : decodeCandidateRecord input = .ok record ↔
      encodeCandidateRecord record = .ok input ∧ candidateCost record ≤ maxTotalAllocation := by
  let _ := candidateRecordCodec
  simp only [decodeCandidateRecord, bind_eq_ok, ofScb_eq_ok,
    Unique.exists_iff, pure_eq_ok, encodeCandidateRecord_eq_ok, decodeExact_eq_ok]
  constructor
  · rintro ⟨_, ⟨henc, hcost⟩, hvalid, rfl⟩
    exact ⟨⟨hvalid, henc⟩, hcost⟩
  · rintro ⟨⟨hvalid, henc⟩, hcost⟩
    exact ⟨record, ⟨henc, hcost⟩, hvalid, rfl⟩

/-! ### The envelope -/

/-- `candidate_preimage`. -/
def candidatePreimage (record : Bytes) : Except CandidateError Bytes := do
  rejectIf (record.length > maxStandaloneBytes) (.scb .resourceLimit)
  let preimage := candidateMagic ++ encodeUvar candidateEnvelopeVersion ++
    encodeCount record.length ++ record
  rejectIf (preimage.length > maxStandaloneBytes) (.scb .resourceLimit)
  return preimage

def buildCandidate (record : CandidateRecord) : Except CandidateError ImportedCandidate := do
  let recordBytes ← encodeCandidateRecord record
  let preimage ← candidatePreimage recordBytes
  let candidateId := derive preimage
  let storedBytes := preimage ++ candidateId.bytes
  rejectIf (storedBytes.length > maxStandaloneBytes) (.scb .resourceLimit)
  return { record, candidateId, preimage, storedBytes }

/-- The record bytes behind the header of a preimage. -/
def readCandidateEnvelope : ScbReader Bytes := do
  let _ ← Reader.expect (Reader.readExactBytes candidateMagic.length) candidateMagic .magicInvalid
  let _ ← Reader.expect (Reader.readUvar · 64) candidateEnvelopeVersion .versionUnsupported
  Reader.readSizedPayload

def importCandidate (input : Bytes) : Except CandidateError ImportedCandidate := do
  rejectIf (input.length > maxStandaloneBytes) (.scb .resourceLimit)
  rejectIf (input.length < 32) (.scb .lengthOverflow)
  let preimage := input.take (input.length - 32)
  let digest := input.drop (input.length - 32)
  let recordBytes ← ofScb (Reader.readWhole readCandidateEnvelope preimage)
  let candidateId := derive preimage
  rejectIf (digest ≠ candidateId.bytes) (.scb .digestMismatch)
  let record ← decodeCandidateRecord recordBytes
  return { record, candidateId, preimage, storedBytes := input }

/-- The bytes before the digest. -/
def candidatePreimageBytes (record : Bytes) : Bytes :=
  candidateMagic ++ (encodeUvar candidateEnvelopeVersion ++ sizedBytes record)

section

omit [HostLayout] [CandidateLayout] [Blake3]

theorem candidatePreimage_eq_ok {record preimage : Bytes} :
    candidatePreimage record = .ok preimage ↔
      preimage.length ≤ maxStandaloneBytes ∧ preimage = candidatePreimageBytes record := by
  simp only [candidatePreimage, bind_eq_ok, rejectIf_eq_ok, exists_const,
    pure_eq_ok, gt_iff_lt, Nat.not_lt]
  have hlength : record.length ≤ maxStandaloneBytes →
      candidateMagic ++ encodeUvar candidateEnvelopeVersion ++ encodeCount record.length ++ record =
        candidatePreimageBytes record := by
    intro hle
    rw [encodeCount_eq (lt_of_le_of_lt hle (by decide))]
    simp only [candidatePreimageBytes, sizedBytes, List.append_assoc]
  constructor
  · rintro ⟨hrecord, hle, rfl⟩
    exact ⟨hle, hlength hrecord⟩
  · rintro ⟨hle, rfl⟩
    have hrecord : record.length ≤ maxStandaloneBytes := by
      simp only [candidatePreimageBytes, sizedBytes, length_append] at hle
      omega
    rw [hlength hrecord]
    exact ⟨hrecord, hle, rfl⟩

theorem readCandidateEnvelope_eq_ok {record : Bytes} {r r' : Reader} :
    readCandidateEnvelope.run r = .ok (record, r') ↔
      ∃ bs, (record.length ≤ maxStandaloneBytes ∧ bs = candidatePreimageBytes record) ∧
        r.Consumes bs r' := by
  have hversion : ∀ {r r' : Reader}, Reader.readUvar r 64 = .ok (candidateEnvelopeVersion, r') ↔
      r.Consumes (encodeUvar candidateEnvelopeVersion) r' := by
    intro r r'
    rw [Reader.readUvar_eq_ok]
    exact ⟨fun h ↦ h.2.2, fun h ↦ ⟨by decide, by decide, h⟩⟩
  simp only [readCandidateEnvelope, StateT.run_bind_eq_ok, Reader.expect_eq_ok,
    Reader.readSizedPayload_eq_ok]
  constructor
  · rintro ⟨_, r₁, ⟨-, hm⟩, _, r₂, ⟨-, hv⟩, hlen, hp⟩
    have hmagic := (Reader.takeExact_eq_ok.1 hm).2
    exact ⟨_, ⟨hlen, rfl⟩, hmagic.trans ((hversion.1 hv).trans hp)⟩
  · rintro ⟨_, ⟨hlen, rfl⟩, hcons⟩
    simp only [candidatePreimageBytes, Cursor.consumes_append_iff] at hcons
    obtain ⟨r₁, hm, r₂, hv, hp⟩ := hcons
    exact ⟨_, r₁, ⟨rfl, Reader.takeExact_eq_ok.2 ⟨rfl, hm⟩⟩, _, r₂, ⟨rfl, hversion.2 hv⟩, hlen, hp⟩

end

/-- The candidate around an encoded record. -/
def candidateAround (record : CandidateRecord) (recordBytes : Bytes) : ImportedCandidate :=
  let preimage := candidatePreimageBytes recordBytes
  let candidateId := derive preimage
  { record, candidateId, preimage, storedBytes := preimage ++ candidateId.bytes }

theorem buildCandidate_eq_ok : buildCandidate record = .ok candidate ↔
      ∃ bs, encodeCandidateRecord record = .ok bs ∧
        (candidatePreimageBytes bs).length + 32 ≤ maxStandaloneBytes ∧
        candidate = candidateAround record bs := by
  simp only [buildCandidate, bind_eq_ok, candidatePreimage_eq_ok, rejectIf_eq_ok,
    exists_const, pure_eq_ok, gt_iff_lt, Nat.not_lt, length_append, length_eq]
  constructor
  · rintro ⟨bs, hbs, _, ⟨-, rfl⟩, hle, rfl⟩
    exact ⟨bs, hbs, hle, rfl⟩
  · rintro ⟨bs, hbs, hle, rfl⟩
    exact ⟨bs, hbs, _, ⟨by omega, rfl⟩, hle, rfl⟩

/-- **Import inverts build.** -/
theorem importCandidate_eq_ok {input : Bytes} : importCandidate input = .ok candidate ↔
      buildCandidate candidate.record = .ok candidate ∧ candidate.storedBytes = input ∧
        candidateCost candidate.record ≤ maxTotalAllocation := by
  rw [buildCandidate_eq_ok]
  simp only [importCandidate, bind_eq_ok, rejectIf_eq_ok, exists_const,
    ofScb_eq_ok, decodeCandidateRecord_eq_ok, pure_eq_ok, gt_iff_lt,
    Nat.not_lt, not_not, Reader.readWhole_eq_ok _ readCandidateEnvelope_eq_ok]
  constructor
  · rintro ⟨hle, hlen, bs, ⟨-, -, hpre⟩, hdigest, record, ⟨hrecord, hcost⟩, rfl⟩
    have hinput := (Reader.eq_append_trailer_iff (derive _).length_eq).2
      ⟨hlen, hpre, hdigest⟩
    rw [hpre] at hinput
    refine ⟨⟨bs, hrecord, ?_, ?_⟩, rfl, hcost⟩
    · rw [hinput, length_append, length_eq] at hle
      exact hle
    · rw [candidateAround, hpre, ← hinput]
  · rintro ⟨⟨bs, hbs, hfits, hcandidate⟩, rfl, hcost⟩
    have hstored : candidate.storedBytes = candidatePreimageBytes bs ++
        (derive (candidatePreimageBytes bs)).bytes := by rw [hcandidate]; rfl
    obtain ⟨hlen, htake, hdrop⟩ := (Reader.eq_append_trailer_iff (length_eq _)).1 hstored
    have hle : bs.length ≤ maxStandaloneBytes := by
      simp only [candidatePreimageBytes, sizedBytes, length_append] at hfits
      omega
    rw [htake, hdrop]
    refine ⟨?_, hlen, bs, ⟨by omega, hle, rfl⟩, rfl, candidate.record, ⟨hbs, hcost⟩, ?_⟩
    · rw [hstored, length_append, length_eq]
      exact hfits
    · rw [hstored, hcandidate]
      rfl

/-- **Candidates round-trip.** A built candidate is imported as the same candidate exactly when the
decoder can pay for its record; a record whose bytes are imported is valid, and building it gives
those bytes. -/
theorem candidate_roundTrip :
    (∀ (record : CandidateRecord) (candidate : ImportedCandidate),
      buildCandidate record = .ok candidate → candidate.record = record ∧
        (importCandidate candidate.storedBytes = .ok candidate ↔
          candidateCost record ≤ maxTotalAllocation)) ∧
    ∀ (input : Bytes) (candidate : ImportedCandidate), importCandidate input = .ok candidate →
      candidate.record.validate = .ok () ∧ buildCandidate candidate.record = .ok candidate ∧
        candidate.storedBytes = input := by
  constructor
  · intro record candidate hbuild
    have hrecord : candidate.record = record := by
      obtain ⟨_, -, -, rfl⟩ := buildCandidate_eq_ok.1 hbuild
      rfl
    subst hrecord
    refine ⟨rfl, ?_⟩
    rw [importCandidate_eq_ok, and_iff_right hbuild, and_iff_right rfl]
  · intro input candidate himport
    obtain ⟨hbuild, hstored, -⟩ := importCandidate_eq_ok.1 himport
    obtain ⟨bs, hbs, -, -⟩ := buildCandidate_eq_ok.1 hbuild
    exact ⟨(encodeCandidateRecord_eq_ok.1 hbs).1, hbuild, hstored⟩

/-! ### Candidates of one operation -/

section Sole

omit [HostLayout] [CandidateLayout] in
/-- An accepted profile has an identity. -/
theorem exists_validationProfileId {profile : ValidationProfileRecord}
    (h : profile.isAccepted = true) : ∃ id, validationProfileId profile = .ok id := by
  have hphases : profile = .fullV1 ∨ profile = .productionV1 := of_decide_eq_true h
  -- the two profiles differ in their version
  obtain ⟨version, hfields⟩ : ∃ version : UInt8,
      (profileShape.fields 0).encode (profileEquiv profile) = .ok [[version],
        [14, 1, 1, 1, 2, 1, 3, 1, 4, 1, 5, 1, 6, 1, 7, 1, 8, 1, 9, 1, 10, 1, 11, 1, 12, 1, 13, 1,
          14], [255, 255, 3], [255, 255, 3], [128, 128, 128, 32], [128, 128, 128, 32],
        [128, 173, 226, 4], [255, 255, 3]] := by
    rcases hphases with rfl | rfl
    · exact ⟨1, by with_unfolding_all decide⟩
    · exact ⟨2, by with_unfolding_all decide⟩
  obtain ⟨bs, hbs, hlen⟩ := encode_recordCodec (v := profile) (by rfl) (by decide)
    hfields (by simp; decide)
  have hle : bs.length ≤ maxStandaloneBytes := hlen.trans (by simp; decide)
  refine ⟨_, Except.bind_eq_ok.2 ⟨bs, CandidateError.ofScb_eq_ok.2 ?_, rfl⟩⟩
  refine encodeAtDepth_eq_ok.2 ⟨by decide, ?_, hle⟩
  simp only [encodeProfile, h]
  exact hbs

/-- An operation on an existing entity, alone in its candidate. -/
def soleOperation (mutationClass : MutationClass) (targetKind : UInt16)
    (payload : MutationPayload) : MutationOperation where
  ordinal := 0
  mutationClass := mutationClass
  targetKind := targetKind
  targetEntity := splat 1
  fieldTag := none
  payload := payload
  preconditionOrdinal := 0

def solePrecondition (objectId : ObjectId) : BoundPrecondition :=
  ⟨0, .exactEntityVersion, .exactEntityVersion ⟨splat 1, objectId⟩⟩

def soleRecord (profile : ValidationProfileId) (objectId : ObjectId)
    (operation : MutationOperation) : CandidateRecord where
  formatVersion := 1
  workspaceId := splat 1
  baseTransactionId := splat 2
  baseRoot := splat 3
  schemaEpochId := splat 4
  policyRootId := splat 5
  principalId := splat 6
  capabilitySummaryDigest := splat 7
  operations := [operation]
  preconditions := [solePrecondition objectId]
  validationProfileId := profile
  candidateNonce := splat 8
  expiry := ⟨1, 1⟩

variable {profile : ValidationProfileId} {objectId : ObjectId} {mutationClass : MutationClass}
  {targetKind : UInt16} {payload : MutationPayload} {row : MutationOperationDescriptor}

omit [CandidateLayout] in
theorem validate_soleRecord (mutationClass : MutationClass) (targetKind : UInt16)
    (payload : MutationPayload) (objectId : ObjectId)
    (hprofile : fullValidationProfileId = .ok profile)
    (hclass : mutationClass ≠ .createEntity)
    (hrow : mutationOperationDescriptor mutationClass targetKind none = some row)
    (hpreimage : row.preimage = .exactEntityVersion)
    (hmatch : payload.matchesDescriptor mutationClass targetKind none row.valueType = true) :
    (soleRecord profile objectId (soleOperation mutationClass targetKind payload)).validate = .ok () := by
  obtain ⟨production, hproduction⟩ :
      ∃ id, productionValidationProfileId = .ok id := exists_validationProfileId (by decide)
  simp [CandidateRecord.validate, soleRecord, soleOperation, solePrecondition,
    CandidateExpiry.validate, CandidateRecord.validateOperations, CandidateRecord.validateOperation,
    hprofile, hproduction, descriptorFieldTag, hrow, hmatch, hclass, hpreimage,
    validatePrecondition, PreconditionPayload.requirement, bind_eq_ok, ofOption, rejectIf]
  decide

section

omit [HostLayout] [CandidateLayout] [Blake3]

theorem encodeNested_id {kind : IdKind} {d : Nat} (hd : d ≤ maxNestingDepth) (id : Id kind) :
    encodeNested d id = .ok id.bytes :=
  encodeAtDepth_eq_ok.2 ⟨hd, rfl, by rw [id.length_eq]; decide⟩

theorem length_encodeU32_le (v : UInt32) : (encodeU32 v).length ≤ 10 := by
  rw [encodeU32, encodeUvar_tag]
  exact Leb128.length_encode_le (by decide) (v.toNat_lt.trans (by decide))

theorem encodeNested_tag {α : Type} [MutationValueCodec α] {d : Nat} (hd : d ≤ maxNestingDepth) {v : α}
    {tag : UInt32} (h : encodeValue d v = .ok (encodeU32 tag)) :
    encodeNested d v = .ok (encodeU32 tag) :=
  encodeAtDepth_eq_ok.2 ⟨hd, h, (length_encodeU32_le tag).trans (by decide)⟩

end

omit [CandidateLayout] [Blake3] in
theorem encode_soleOperation {p : Bytes} (hlen : p.length ≤ 31000000)
    (hp : encodeMutationPayload mutationClass targetKind none payload 3 = .ok p) :
    ∃ bs, encodeNested 2 (soleOperation mutationClass targetKind payload) = .ok bs ∧
      bs.length ≤ 32000000 := by
  let fields : List Field := [(1, encodeU32 0), (2, encodeU32 mutationClass.tag.toUInt32), (3,
    encodeU32 targetKind.toUInt32), (4, List.replicate 32 1), (5, [0, 0]), (6, p), (7, encodeU32 0)]
  have hoperation : encodeOperation 2 (soleOperation mutationClass targetKind payload) =
      encodeRecord fields := by
    have hzero : encodeNested 3 (0 : UInt32) = .ok (encodeU32 0) := encodeNested_tag (by decide) rfl
    have hclass : encodeNested 3 mutationClass = .ok (encodeU32 mutationClass.tag.toUInt32) :=
      encodeNested_tag (by decide) rfl
    have hkind : encodeKind 3 targetKind = .ok (encodeU32 targetKind.toUInt32) :=
      encodeNested_tag (by decide) rfl
    have htarget : encodeNested 3 (splat 1 : EntityId) = .ok (List.replicate 32 1) :=
      encodeNested_id (by decide) _
    have hfield : encodeNested 3 (none : Option UInt32) = .ok [0, 0] := by with_unfolding_all decide
    simp only [encodeOperation, soleOperation, hp, hzero, hclass, hkind, htarget, hfield]
    rfl
  have hle : ∀ f ∈ fields, f.2.length ≤ maxStandaloneBytes := by
    have h (v : UInt32) := (length_encodeU32_le v).trans (show 10 ≤ maxStandaloneBytes by decide)
    have hp := hlen.trans (show 31000000 ≤ maxStandaloneBytes by decide)
    simp [fields, h, hp]
    decide
  obtain ⟨bs, hbs, hbound⟩ := encode_fields fields
    (show ([1, 2, 3, 4, 5, 6, 7] : List UInt32).Pairwise (· < ·) by decide)
    (show 7 ≤ maxRecordFields by decide) hle
  have htotal : bs.length ≤ 32000000 := by
    have h₁ := length_encodeU32_le 0
    have h₂ := length_encodeU32_le mutationClass.tag.toUInt32
    have h₃ := length_encodeU32_le targetKind.toUInt32
    simp only [fields, map_cons, map_nil, sum_cons, sum_nil,
      List.length_replicate, List.length_cons, List.length_nil] at hbound
    omega
  exact ⟨bs, encodeAtDepth_eq_ok.2 ⟨by decide, hoperation.trans hbs, htotal.trans (by decide)⟩,
    htotal⟩

section

omit [HostLayout] [CandidateLayout] [Blake3]

theorem encode_solePrecondition (objectId : ObjectId) :
    ∃ bs, encodeNested 2 (solePrecondition objectId) = .ok bs ∧ bs.length ≤ 1000 := by
  let version : ExactEntityVersion := ⟨splat 1, objectId⟩
  obtain ⟨inner, hinner, hlen⟩ : ∃ bs, encodeValue 4 version = .ok bs ∧ bs.length ≤ 10 +
      (([List.replicate 32 1, objectId.bytes] : List Bytes).map (·.length + 20)).sum := by
    refine encode_recordCodec rfl (by decide)
      (encode_cons (encodeNested_id (by decide) _) <|
        encode_cons (encodeNested_id (by decide) _) rfl) ?_
    simp only [List.forall_mem_cons, objectId.length_eq]
    decide
  simp only [map_cons, map_nil, sum_cons, sum_nil, objectId.length_eq,
    List.length_replicate] at hlen
  have hinner' : encodeNested 4 version = .ok inner :=
    encodeAtDepth_eq_ok.2 ⟨by decide, hinner, hlen.trans (by decide)⟩
  have hle : inner.length ≤ maxStandaloneBytes := hlen.trans (by decide)
  have htagged := length_taggedBytes_le 2 hle
  have hsmall : (taggedBytes 2 inner).length ≤ 200 :=
    htagged.trans ((Nat.add_le_add_right hlen 20).trans (by decide))
  have hpayload : encodeNested 3 (solePrecondition objectId).payload = .ok (taggedBytes 2 inner) :=
    encodeAtDepth_eq_ok.2 ⟨by decide, encodeUnionValue_eq_ok.2 ⟨by decide, inner, hinner', hle, rfl⟩,
      hsmall.trans (by decide)⟩
  have hmax : ∀ p ∈ [encodeU32 0, encodeU32 2, taggedBytes 2 inner],
      p.length ≤ maxStandaloneBytes := by
    have h (v : UInt32) := (length_encodeU32_le v).trans (show 10 ≤ maxStandaloneBytes by decide)
    simp [h, hsmall.trans (show 200 ≤ maxStandaloneBytes by decide)]
  obtain ⟨bs, hbs, hbound⟩ : ∃ bs, boundPreconditionCodec.encodeValue 2 (solePrecondition objectId) =
      .ok bs ∧ bs.length ≤ 10 +
        (([encodeU32 0, encodeU32 2, taggedBytes 2 inner] : List Bytes).map (·.length + 20)).sum :=
    encode_recordCodec rfl (by decide)
      (encode_cons (encodeNested_tag (by decide) rfl) <|
        encode_cons (encodeNested_tag (by decide) rfl) <|
        encode_cons hpayload rfl) hmax
  have htotal : bs.length ≤ 1000 := by
    have h₁ := length_encodeU32_le 0
    have h₂ := length_encodeU32_le 2
    simp only [map_cons, map_nil, sum_cons, sum_nil] at hbound
    omega
  exact ⟨bs, encodeAtDepth_eq_ok.2 ⟨by decide, hbs, htotal.trans (by decide)⟩, htotal⟩

/-- A list of one written element is written. -/
theorem encode_singleton {α : Type} [MutationValueCodec α] [HostSize α] {v : α} {p : Bytes}
    (h : encodeNested 2 v = .ok p) (hlen : p.length ≤ 32000000) :
    ∃ bs, encodeNested 1 [v] = .ok bs ∧ bs.length ≤ p.length + 20 := by
  have hle : p.length ≤ maxStandaloneBytes := hlen.trans (by decide)
  have hsized := length_sizedBytes_le hle
  have hcount : (Leb128.encode 1).length = 1 := by with_unfolding_all decide
  have hbound : (Leb128.encode 1 ++ [p].flatMap sizedBytes).length ≤ p.length + 20 := by
    rw [length_append, hcount, List.flatMap_cons, List.flatMap_nil, List.append_nil]
    omega
  refine ⟨_, encodeAtDepth_eq_ok.2 ⟨by decide, encodeVec_eq_ok.2 ⟨by decide,
    show 1 ≤ maxCollectionElements by decide, [p], .cons h .nil, rfl⟩, ?_⟩, hbound⟩
  exact hbound.trans ((Nat.add_le_add_right hlen 20).trans (by decide))

theorem encode_soleExpiry :
    ∃ bs, encodeNested 1 (CandidateExpiry.mk 1 1) = .ok bs ∧ bs.length ≤ 100 := by
  obtain ⟨bs, hbs, hlen⟩ : ∃ bs, encodeValue 1 (CandidateExpiry.mk 1 1) = .ok bs ∧
      bs.length ≤ 10 + (([[1], [1]] : List Bytes).map (·.length + 20)).sum :=
    encode_recordCodec rfl (by decide) (encode_cons (by with_unfolding_all decide) <|
      encode_cons (by with_unfolding_all decide) rfl) (by decide)
  exact ⟨bs, encodeAtDepth_eq_ok.2 ⟨by decide, hbs, hlen.trans (by decide)⟩, hlen.trans (by decide)⟩

end

/-- A candidate is built once its lists are written. -/
theorem build_of_lists {record : CandidateRecord} {operations preconditions expiry : Bytes}
    (hvalid : record.validate = .ok ())
    (hoperations : encodeNested 1 record.operations = .ok operations)
    (hpreconditions : encodeNested 1 record.preconditions = .ok preconditions)
    (hexpiry : encodeNested 1 record.expiry = .ok expiry)
    (hoperationsLen : operations.length ≤ 32000020) (hpreconditionsLen : preconditions.length ≤ 1020)
    (hexpiryLen : expiry.length ≤ 100) : ∃ candidate, buildCandidate record = .ok candidate := by
  obtain ⟨version, hversion, hversionLen⟩ :
      ∃ bs, encodeNested 1 record.formatVersion = .ok bs ∧ bs.length ≤ 10 :=
    ⟨_, encodeNested_tag (by decide) rfl, length_encodeU32_le record.formatVersion⟩
  let ps : List Bytes := [version, record.workspaceId.bytes, record.baseTransactionId.bytes,
    record.baseRoot.bytes, record.schemaEpochId.bytes, record.policyRootId.bytes,
    record.principalId.bytes, record.capabilitySummaryDigest.bytes, operations, preconditions,
    record.validationProfileId.bytes, record.candidateNonce.bytes, expiry]
  have hfields : (candidateShape.fields 0).encode (candidateEquiv record) = .ok ps :=
    encode_cons hversion <|
    encode_cons (encodeNested_id (by decide) _) <|
    encode_cons (encodeNested_id (by decide) _) <|
    encode_cons (encodeNested_id (by decide) _) <|
    encode_cons (encodeNested_id (by decide) _) <|
    encode_cons (encodeNested_id (by decide) _) <|
    encode_cons (encodeNested_id (by decide) _) <|
    encode_cons (encodeNested_id (by decide) _) <|
    encode_cons hoperations <| encode_cons hpreconditions <|
    encode_cons (encodeNested_id (by decide) _) <|
    encode_cons (encodeNested_id (by decide) _) <|
    encode_cons hexpiry rfl
  have hmax : ∀ p ∈ ps, p.length ≤ 33000000 := by
    simp only [ps, List.forall_mem_cons, length_eq]
    refine ⟨by omega, ?_⟩
    simp
    omega
  obtain ⟨bs, hbs, hbound⟩ := encode_recordCodec (v := record) (by rfl) (by decide) hfields
    fun p hp ↦ (hmax p hp).trans (by decide)
  have hsum : (ps.map fun p ↦ p.length + 20).sum = version.length + (operations.length +
      (preconditions.length + (expiry.length + 548))) := by
    simp only [ps, map_cons, map_nil, sum_cons, sum_nil, length_eq]
    ring
  rw [hsum] at hbound
  have htotal : bs.length ≤ 34000000 :=
    hbound.trans (Nat.add_le_add_left (Nat.add_le_add hversionLen (Nat.add_le_add hoperationsLen
      (Nat.add_le_add hpreconditionsLen (Nat.add_le_add_right hexpiryLen 548)))) 10
        |>.trans (by decide))
  have hencoded : encodeCandidateRecord record = .ok bs := by
    refine encodeCandidateRecord_eq_ok.2 ⟨hvalid, encodeAtDepth_eq_ok.2 ⟨by decide, hbs, ?_⟩⟩
    exact htotal.trans (by decide)
  refine ⟨_, buildCandidate_eq_ok.2 ⟨bs, hencoded, ?_, rfl⟩⟩
  have hheader : candidateMagic.length = 8 ∧ (encodeUvar candidateEnvelopeVersion).length = 1 := by
    with_unfolding_all decide
  have hsized := length_sizedBytes_le (htotal.trans (by decide : _ ≤ maxStandaloneBytes))
  have hlimit : maxStandaloneBytes = 67108864 := rfl
  simp only [candidatePreimageBytes, length_append, hheader]
  omega

/-- A candidate of one operation is built once its payload is written, whatever its header. -/
theorem build_soleRecord {record : CandidateRecord} {p : Bytes} (hlen : p.length ≤ 31000000)
    (hp : encodeMutationPayload mutationClass targetKind none payload 3 = .ok p)
    (hvalid : record.validate = .ok ())
    (hoperations : record.operations = [soleOperation mutationClass targetKind payload])
    (hpreconditions : record.preconditions = [solePrecondition objectId])
    (hexpiry : record.expiry = ⟨1, 1⟩) :
    ∃ candidate, buildCandidate record = .ok candidate := by
  obtain ⟨operation, hoperation, hoperationLen⟩ := encode_soleOperation hlen hp
  obtain ⟨operations, hencoded, hoperationsLen⟩ := encode_singleton hoperation hoperationLen
  obtain ⟨precondition, hprecondition, hpreconditionLen⟩ := encode_solePrecondition objectId
  obtain ⟨preconditions, hencoded', hpreconditionsLen⟩ :=
    encode_singleton hprecondition (hpreconditionLen.trans (by decide))
  obtain ⟨expiry, hencoded'', hexpiryLen⟩ := encode_soleExpiry
  rw [← hoperations] at hencoded
  rw [← hpreconditions] at hencoded'
  rw [← hexpiry] at hencoded''
  exact build_of_lists hvalid hencoded hencoded' hencoded'' (hoperationsLen.trans (by omega))
    (hpreconditionsLen.trans (by omega)) hexpiryLen

omit [Blake3] in
/-- The reader pays for the two slots and the payload. -/
theorem candidateCost_soleRecord :
    candidateCost (soleRecord profile objectId (soleOperation mutationClass targetKind payload)) =
      mutationOperation + payloadValueCost payload +
        boundPrecondition := by
  have hcost : candidateCost (soleRecord profile objectId (soleOperation mutationClass targetKind payload)) =
      0 + (0 + (0 + (0 + (0 + (0 + (0 + (0 +
        ((1 * mutationOperation + (payloadValueCost payload + 0)) +
          ((1 * boundPrecondition + ((0 + (0 + ((0 + (0 + 0)) + 0))) + 0)) +
            (0 + (0 + ((0 + (0 + 0)) + 0)))))))))))) := rfl
  rw [hcost]
  omega

end Sole

/-- The digests of the two profiles and of the candidate below. -/
@[reducible]
def deleteBlake3 : Blake3 where
  hash input :=
    if input.take 18 = textBytes "sley2.candidate.v1" then
      ⟨[198, 111, 150, 154, 93, 173, 147, 58, 63, 130, 121, 162, 13, 38, 111, 114, 176, 201, 142,
        19, 215, 81, 67, 86, 253, 227, 85, 44, 208, 30, 74, 201], rfl⟩
    -- the version of a profile stands behind domain, magic and header
    else if input.getD 40 0 = 1 then
      ⟨[125, 143, 255, 249, 122, 63, 218, 252, 73, 180, 50, 157, 71, 176, 177, 47, 4, 117, 156, 49,
        36, 39, 64, 36, 1, 100, 131, 162, 99, 38, 93, 84], rfl⟩
    else
      ⟨[1, 142, 234, 72, 36, 237, 65, 218, 167, 130, 206, 170, 32, 74, 19, 63, 21, 64, 127, 153, 78,
        25, 45, 44, 61, 182, 120, 254, 153, 152, 169, 241], rfl⟩

/-- Sizes of the two element types on a 64-bit host. -/
@[reducible]
def candidateLayout64 : CandidateLayout where
  mutationOperation := 512
  boundPrecondition := 88

omit [HostLayout] [CandidateLayout] [Blake3] in
/-- A candidate that deletes an entry point. -/
theorem candidate_roundTrip_delete :
    letI := hostLayout64
    letI := candidateLayout64
    letI := deleteBlake3
    ∃ profile candidate, fullValidationProfileId = .ok profile ∧
      buildCandidate (soleRecord profile (Id.splat 10)
        (soleOperation .deleteEntityBinding 16 .deleteEntityBinding)) = .ok candidate ∧
      importCandidate candidate.storedBytes = .ok candidate := by
  let _ := hostLayout64
  let _ := candidateLayout64
  let _ := deleteBlake3
  obtain ⟨profile, hprofile⟩ : ∃ id, fullValidationProfileId = .ok id :=
    exists_validationProfileId (by decide)
  obtain ⟨candidate, hbuild⟩ := build_soleRecord (p := [3, 0]) (by decide) (by with_unfolding_all decide)
    (validate_soleRecord .deleteEntityBinding 16 .deleteEntityBinding (Id.splat 10) hprofile
      (by decide) rfl rfl rfl) rfl rfl rfl
  exact ⟨profile, candidate, hprofile, hbuild,
    (candidate_roundTrip.1 _ _ hbuild).2.2 (by rw [candidateCost_soleRecord]; decide)⟩

/-! ### A candidate that is built and not read back -/

omit [HostLayout] [CandidateLayout] [Blake3] in
/-- **The importer does not read back every candidate the builder makes**, on any host whose
`TypeExpr` takes at least 34 bytes: a candidate that replaces an effect by the wide one is built, and
importing the bytes never gives it back. -/
theorem not_candidate_roundTrip_wide :
    ¬ ∃ (layout : HostLayout) (_ : CandidateLayout) (_ : Blake3), 34 ≤ layout.typeExpr ∧
      ∀ (record : CandidateRecord) (candidate : ImportedCandidate),
        record.validate = .ok () → buildCandidate record = .ok candidate →
        ∃ imported, importCandidate candidate.storedBytes = .ok imported ∧
          imported.record = record ∧ imported.candidateId = candidate.candidateId := by
  rintro ⟨layout, _, _, hsize, h⟩
  obtain ⟨profile, hprofile⟩ : ∃ id, fullValidationProfileId = .ok id :=
    exists_validationProfileId (by decide)
  let payload : MutationPayload := .replaceEntityVersion wideRecord.body
  have hvalid := validate_soleRecord .replaceEntityVersion 11 payload (Id.splat 10) hprofile
    (by decide) rfl rfl rfl
  obtain ⟨body, hbody, hlen⟩ := encode_wideEffect (d := 4) (by decide)
  have hmax : body.length ≤ maxStandaloneBytes := hlen.trans (by decide)
  have hpayload : encodeMutationPayload .replaceEntityVersion 11 none payload 3 =
      .ok (taggedBytes 2 body) := by
    refine Except.bind_eq_ok.2 ⟨(), rfl, Except.bind_eq_ok.2 ⟨(none, _), rfl, ?_⟩⟩
    refine Except.bind_eq_ok.2 ⟨(), rfl, Except.bind_eq_ok.2 ⟨body, hbody, ?_⟩⟩
    exact encodeUnion_eq_ok.2 ⟨hmax, rfl⟩
  have htagged := length_taggedBytes_le 2 hmax
  obtain ⟨candidate, hbuild⟩ := build_soleRecord (by omega) hpayload hvalid rfl rfl rfl
  obtain ⟨imported, himport, hrecord, -⟩ := h _ _ hvalid hbuild
  obtain ⟨-, -, hcost⟩ := importCandidate_eq_ok.1 himport
  rw [hrecord, candidateCost_soleRecord] at hcost
  have hwide : maxTotalAllocation < payloadValueCost payload := cost_wideRecord hsize
  omega

end Sley.Mutate
