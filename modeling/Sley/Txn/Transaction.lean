import Sley.Txn.Wire

/-!
# Transactions

The canonical transaction cores of `sley-txn/src/codec.rs` and `native_codec.rs`. A transaction names
its parent, the candidate it applied, the root it committed, the bindings that changed and the
tombstones after it. A native transaction is the same record under a second format with one field
more, the approval of its test evidence.

**Import inverts build on records whose lists the reader admits** (`importTransaction_eq_ok`,
`importNativeTransaction_eq_ok`). The one list that the builder does not bound is the list of
ordinals of a changed binding.
-/

namespace Sley.Txn

open Scb1 Mutate
open Except hiding ok error

/-! ### Records -/

/-- Closed transaction kind. -/
inductive TransactionKind
  | trustedGenesis
  | ordinaryCandidate
  deriving DecidableEq, Repr

def TransactionKind.tag : TransactionKind → UInt32
  | trustedGenesis => 1
  | ordinaryCandidate => 2

def TransactionKind.fromTag (tag : UInt32) : Option TransactionKind :=
  if tag = 1 then some trustedGenesis
  else if tag = 2 then some ordinaryCandidate
  else none

/-- Deterministic transaction profile metadata. -/
structure CommitMetadata where
  commitProfile : UInt32
  semanticProfile : UInt32
  durabilityProfile : UInt32
  deriving DecidableEq

namespace CommitMetadata

/-- The metadata of a program without semantic operations. -/
def restrictedV1 : CommitMetadata := ⟨1, 1, 1⟩

/-- The metadata of a program the full operation analysis judged. -/
def extendedOperationsV1 : CommitMetadata := ⟨1, 2, 1⟩

/-- Native admission atop a fresh full judgment. -/
def nativeV1 : CommitMetadata := ⟨2, 3, 1⟩

def forProgram (carriesOperations : Bool) : CommitMetadata :=
  if carriesOperations then extendedOperationsV1 else restrictedV1

end CommitMetadata

/-- Canonical parent-bound transaction core. -/
structure TransactionRecord where
  formatVersion : UInt32
  transactionKind : TransactionKind
  workspaceId : WorkspaceId
  parentTransactionIds : List TransactionId
  parentRoots : List StateRoot
  schemaEpochId : SchemaEpochId
  policyRootId : PolicyRootId
  principalId : Option PrincipalId
  candidateId : Option CandidateId
  candidateResultId : Option CandidateResultId
  validationContextDigest : Option ValidationContextDigest
  validationProfileId : Option ValidationProfileId
  committedRoot : StateRoot
  changedEntityBindings : List ChangedBinding
  capabilitySummaryDigest : Option CapabilitySummaryDigest
  selectedTests : List EntityId
  testResultRefs : List TestReportId
  tombstonedEntities : List EntityId
  commitMetadata : CommitMetadata
  deriving DecidableEq

/-- Native transaction record: the first nineteen fields and the approval. -/
structure NativeTransactionRecord extends TransactionRecord where
  nativeApprovalId : NativeTestApprovalId
  deriving DecidableEq

/-! ### Validation -/

def transactionFormatVersion : UInt32 := 1

def nativeFormatVersion : UInt32 := 2

/-- `validate_sorted_ids`. -/
def validateSortedIds {kind : IdKind} (values : List (Id kind)) (code : TransactionErrorCode) :
    CodecResult Unit :=
  rejectIf (values.length > maxTransactionItems ∨
    ¬ values.IsChain fun a b ↦ compare a b = .lt) (.transaction code)

/-- The ordinals of a binding ascend and are not those of a binding before it. -/
def validateOrdinals (kind : TransactionKind) :
    List ChangedBinding → List UInt32 → CodecResult Unit
  | [], _ => .ok ()
  | binding :: bindings, ordinals => do
    rejectIf ((binding.preimage = none ∧ binding.postimage = none) ∨
        binding.preimage = binding.postimage ∨
        ¬ binding.mutationOrdinals.IsChain (· < ·) ∨
        (kind = .ordinaryCandidate ∧ binding.mutationOrdinals = []) ∨
        ∃ ordinal ∈ binding.mutationOrdinals, ordinal ∈ ordinals)
      (.transaction .changedBindingInvalid)
    validateOrdinals kind bindings (ordinals ++ binding.mutationOrdinals)

def validateChangedBindings (bindings : List ChangedBinding) (kind : TransactionKind) :
    CodecResult Unit := do
  rejectIf (bindings.length > maxTransactionItems ∨
      ¬ bindings.IsChain fun a b ↦ compare a.entityId b.entityId = .lt)
    (.transaction .changedBindingInvalid)
  validateOrdinals kind bindings []

/-- Which of the fields of an ordinary transaction are present. -/
def TransactionRecord.ordinaryFields (record : TransactionRecord) : List Bool :=
  [record.principalId.isSome, record.candidateId.isSome, record.candidateResultId.isSome,
    record.validationContextDigest.isSome, record.validationProfileId.isSome,
    record.capabilitySummaryDigest.isSome]

/-- A genesis performs no analysis, so it has the restricted triple. -/
def validateCommitMetadata (kind : TransactionKind) (metadata : CommitMetadata) :
    CodecResult Unit :=
  match kind with
  | .trustedGenesis => rejectIf (metadata ≠ .restrictedV1) (.transaction .fieldShape)
  | .ordinaryCandidate =>
    rejectIf (metadata ≠ .restrictedV1 ∧ metadata ≠ .extendedOperationsV1)
      (.transaction .fieldShape)

/-- A genesis has no parent and no candidate, an ordinary transaction one of each. -/
def TransactionRecord.validateParents (record : TransactionRecord) : CodecResult Unit :=
  match record.transactionKind with
  | .trustedGenesis =>
    rejectIf (record.parentTransactionIds ≠ [] ∨ true ∈ record.ordinaryFields ∨
      ∃ binding ∈ record.changedEntityBindings, binding.mutationOrdinals ≠ [])
      (.transaction .genesisInvalid)
  | .ordinaryCandidate =>
    rejectIf (record.parentTransactionIds.length ≠ 1 ∨ false ∈ record.ordinaryFields)
      (.transaction .parentShape)

def validateTransactionRecord (record : TransactionRecord) : CodecResult Unit := do
  rejectIf (record.formatVersion ≠ transactionFormatVersion) (.transaction .formatVersion)
  rejectIf (record.parentTransactionIds.length ≠ record.parentRoots.length)
    (.transaction .parentShape)
  validateSortedIds record.selectedTests .fieldShape
  validateSortedIds record.tombstonedEntities .tombstoneInvalid
  validateSortedIds record.testResultRefs .fieldShape
  validateChangedBindings record.changedEntityBindings record.transactionKind
  validateCommitMetadata record.transactionKind record.commitMetadata
  rejectIf (record.selectedTests ≠ [] ∨ record.testResultRefs ≠ [])
    (.transaction .testEvidenceUnsupported)
  record.validateParents

def validateNativeTransactionRecord (record : NativeTransactionRecord) : CodecResult Unit := do
  rejectIf (record.formatVersion ≠ nativeFormatVersion) (.transaction .formatVersion)
  rejectIf (record.parentTransactionIds.length ≠ record.parentRoots.length)
    (.transaction .parentShape)
  validateSortedIds record.selectedTests .fieldShape
  validateSortedIds record.tombstonedEntities .tombstoneInvalid
  rejectIf (record.testResultRefs.length ≠ 1) (.transaction .fieldShape)
  validateChangedBindings record.changedEntityBindings record.transactionKind
  rejectIf (record.transactionKind ≠ .ordinaryCandidate) (.transaction .fieldShape)
  rejectIf (record.commitMetadata ≠ .nativeV1) (.transaction .fieldShape)
  rejectIf (record.parentTransactionIds.length ≠ 1 ∨ false ∈ record.ordinaryFields)
    (.transaction .parentShape)

/-! ### Writing -/

def encodeChangedBinding (binding : ChangedBinding) : Scb1.Result Bytes := do
  let preimage ← encodeOptionFixed binding.preimage
  let postimage ← encodeOptionFixed binding.postimage
  let ordinals ← encodeList (binding.mutationOrdinals.map fun value ↦ encodeUvar value.toUInt64)
  encodeRecord (numbered 1 [binding.entityId.bytes, preimage, postimage, ordinals])

def encodeCommitMetadata (metadata : CommitMetadata) : Scb1.Result Bytes :=
  encodeRecord (numbered 1
    [encodeUvar metadata.commitProfile.toUInt64, encodeUvar metadata.semanticProfile.toUInt64,
      encodeUvar metadata.durabilityProfile.toUInt64])

/-- The payloads of the nineteen common fields. -/
def transactionFields (record : TransactionRecord) : Scb1.Result (List Bytes) := do
  let parents ← encodeFixedList record.parentTransactionIds
  let parentRoots ← encodeFixedList record.parentRoots
  let changed ← record.changedEntityBindings.mapM encodeChangedBinding
  let selected ← encodeFixedList record.selectedTests
  let reports ← encodeFixedList record.testResultRefs
  let tombstones ← encodeFixedList record.tombstonedEntities
  let principalId ← encodeOptionFixed record.principalId
  let candidateId ← encodeOptionFixed record.candidateId
  let candidateResultId ← encodeOptionFixed record.candidateResultId
  let validationContextDigest ← encodeOptionFixed record.validationContextDigest
  let validationProfileId ← encodeOptionFixed record.validationProfileId
  let changed ← encodeList changed
  let capabilitySummaryDigest ← encodeOptionFixed record.capabilitySummaryDigest
  let metadata ← encodeCommitMetadata record.commitMetadata
  return [encodeUvar record.formatVersion.toUInt64, encodeUvar record.transactionKind.tag.toUInt64,
    record.workspaceId.bytes, parents, parentRoots, record.schemaEpochId.bytes,
    record.policyRootId.bytes, principalId, candidateId, candidateResultId,
    validationContextDigest, validationProfileId, record.committedRoot.bytes, changed,
    capabilitySummaryDigest, selected, reports, tombstones, metadata]

def encodeTransactionRecord (record : TransactionRecord) : Scb1.Result Bytes := do
  let fields ← transactionFields record
  encodeRecord (numbered 1 fields)

def encodeNativeTransactionRecord (record : NativeTransactionRecord) : Scb1.Result Bytes := do
  let fields ← transactionFields record.toTransactionRecord
  encodeRecord (numbered 1 (fields ++ [record.nativeApprovalId.bytes]))

/-! ### Reading -/

def decodeChangedBinding (payload : Bytes) : CodecResult ChangedBinding := do
  match ← decodeRequiredRecord 4 payload with
  | [entityId, preimage, postimage, ordinals] =>
    let entityId ← readFixed .entity entityId
    let preimage ← decodeOptionFixed .object preimage
    let postimage ← decodeOptionFixed .object postimage
    let ordinals ← decodeListPayloads ordinals
    let mutationOrdinals ← ordinals.mapM readU32
    return { entityId, preimage, postimage, mutationOrdinals }
  | _ => .error (.scb .fieldMissing)

def decodeChangedBindings (input : Bytes) : CodecResult (List ChangedBinding) := do
  let payloads ← decodeListPayloads input
  payloads.mapM decodeChangedBinding

def decodeCommitMetadata (input : Bytes) : CodecResult CommitMetadata := do
  match ← decodeRequiredRecord 3 input with
  | [commitProfile, semanticProfile, durabilityProfile] =>
    let commitProfile ← readU32 commitProfile
    let semanticProfile ← readU32 semanticProfile
    let durabilityProfile ← readU32 durabilityProfile
    return { commitProfile, semanticProfile, durabilityProfile }
  | _ => .error (.scb .fieldMissing)

def decodeTransactionKind (input : Bytes) : CodecResult TransactionKind := do
  let tag ← readU32 input
  ofOption (.transaction .kindInvalid) (TransactionKind.fromTag tag)

/-- The nineteen common fields, and what stands behind them. -/
def decodeTransactionFields : List Bytes → CodecResult (TransactionRecord × List Bytes)
  | f₁ :: f₂ :: f₃ :: f₄ :: f₅ :: f₆ :: f₇ :: f₈ :: f₉ :: f₁₀ :: f₁₁ :: f₁₂ :: f₁₃ :: f₁₄ :: f₁₅ ::
      f₁₆ :: f₁₇ :: f₁₈ :: f₁₉ :: rest => do
    let formatVersion ← readU32 f₁
    let transactionKind ← decodeTransactionKind f₂
    let workspaceId ← readFixed .workspace f₃
    let parentTransactionIds ← decodeFixedList .transaction f₄
    let parentRoots ← decodeFixedList .stateRoot f₅
    let schemaEpochId ← readFixed .schemaEpoch f₆
    let policyRootId ← readFixed .policyRoot f₇
    let principalId ← decodeOptionFixed .principal f₈
    let candidateId ← decodeOptionFixed .candidate f₉
    let candidateResultId ← decodeOptionFixed .candidateResult f₁₀
    let validationContextDigest ← decodeOptionFixed .validationContext f₁₁
    let validationProfileId ← decodeOptionFixed .validationProfile f₁₂
    let committedRoot ← readFixed .stateRoot f₁₃
    let changedEntityBindings ← decodeChangedBindings f₁₄
    let capabilitySummaryDigest ← decodeOptionFixed .capabilitySummary f₁₅
    let selectedTests ← decodeFixedList .entity f₁₆
    let testResultRefs ← decodeFixedList .testReport f₁₇
    let tombstonedEntities ← decodeFixedList .entity f₁₈
    let commitMetadata ← decodeCommitMetadata f₁₉
    return ({
      formatVersion, transactionKind, workspaceId, parentTransactionIds, parentRoots, schemaEpochId
      policyRootId, principalId, candidateId, candidateResultId, validationContextDigest
      validationProfileId, committedRoot, changedEntityBindings, capabilitySummaryDigest
      selectedTests, testResultRefs, tombstonedEntities, commitMetadata }, rest)
  | _ => .error (.scb .fieldMissing)

def decodeTransactionRecord (input : Bytes) : CodecResult TransactionRecord := do
  let fields ← decodeRequiredRecord 19 input
  let (record, _) ← decodeTransactionFields fields
  return record

def decodeNativeTransactionRecord (input : Bytes) : CodecResult NativeTransactionRecord := do
  let fields ← decodeRequiredRecord 20 input
  match ← decodeTransactionFields fields with
  | (record, [approval]) =>
    let nativeApprovalId ← readFixed .nativeTestApproval approval
    return { record with nativeApprovalId }
  | _ => .error (.scb .fieldMissing)

/-! ### Building and importing -/

/-- `SLEYTXN1`. -/
def transactionMagic : Bytes := [0x53, 0x4c, 0x45, 0x59, 0x54, 0x58, 0x4e, 0x31]

/-- `SLEYTXN2`. -/
def nativeTransactionMagic : Bytes := [0x53, 0x4c, 0x45, 0x59, 0x54, 0x58, 0x4e, 0x32]

/-- Canonical transaction bytes and derived identity, of either format. -/
structure Imported (ρ : Type) where
  record : ρ
  transactionId : TransactionId
  preimage : Bytes
  storedBytes : Bytes
  deriving DecidableEq

abbrev ImportedTransaction := Imported TransactionRecord

abbrev ImportedNativeTransaction := Imported NativeTransactionRecord

section

variable [Blake3] {ρ : Type}

/-- What `build_transaction` and `build_native_transaction` share. -/
def buildCore (magic : Bytes) (validate : ρ → CodecResult Unit) (encode : ρ → Scb1.Result Bytes)
    (record : ρ) : CodecResult (Imported ρ) := do
  validate record
  let payload ← ofScb (encode record)
  let preimage ← ofScb (encodeEnvelope magic payload)
  let transactionId := TransactionId.derive preimage
  let storedBytes ← ofScb (appendDigest preimage transactionId)
  return { record, transactionId, preimage, storedBytes }

/-- What `import_transaction` and `import_native_transaction` share. -/
def importCore (magic : Bytes) (validate : ρ → CodecResult Unit) (decode : Bytes → CodecResult ρ)
    (input : Bytes) : CodecResult (Imported ρ) := do
  let envelope ← decodeEnvelope input magic
  let transactionId := TransactionId.derive envelope.preimage
  rejectIf (envelope.trailer ≠ transactionId.bytes) (.scb .digestMismatch)
  let record ← decode envelope.payload
  validate record
  return { record, transactionId, preimage := envelope.preimage, storedBytes := input }

def buildTransaction : TransactionRecord → CodecResult ImportedTransaction :=
  buildCore transactionMagic validateTransactionRecord encodeTransactionRecord

def importTransaction : Bytes → CodecResult ImportedTransaction :=
  importCore transactionMagic validateTransactionRecord decodeTransactionRecord

def buildNativeTransaction : NativeTransactionRecord → CodecResult ImportedNativeTransaction :=
  buildCore nativeTransactionMagic validateNativeTransactionRecord encodeNativeTransactionRecord

def importNativeTransaction : Bytes → CodecResult ImportedNativeTransaction :=
  importCore nativeTransactionMagic validateNativeTransactionRecord decodeNativeTransactionRecord

end

/-! ### Records are read back -/

theorem length_le_of_encodeRecord {payloads : List Bytes} {bs : Bytes}
    (hn : 1 + payloads.length ≤ 2 ^ 32) (h : encodeRecord (numbered 1 payloads) = .ok bs) :
    ∀ p ∈ payloads, p.length ≤ maxStandaloneBytes :=
  forall_mem_numbered.1 ((encodeRecord_eq_ok (sorted_numbered hn).2).1 h).2.1

variable {record : TransactionRecord} {input : Bytes} {bindings : List ChangedBinding} {u : Unit}

theorem decodeCommitMetadata_eq_ok {metadata : CommitMetadata} :
    decodeCommitMetadata input = .ok metadata ↔
      input.length ≤ maxStandaloneBytes ∧ encodeCommitMetadata metadata = .ok input := by
  simp only [decodeCommitMetadata, bind_eq_ok,
    decodeRequiredRecord_eq_ok (show 3 ≤ maxRecordFields by decide), encodeCommitMetadata]
  constructor
  · rintro ⟨payloads, ⟨hlen, hinput, hencode⟩, h⟩
    obtain ⟨a, b, c, rfl⟩ := List.length_eq_three.1 hlen
    simp only [bind_eq_ok, readU32_eq_ok, pure_eq_ok] at h
    obtain ⟨_, rfl, _, rfl, _, rfl, rfl⟩ := h
    exact ⟨hinput, hencode⟩
  · rintro ⟨hinput, hencode⟩
    refine ⟨_, ⟨rfl, hinput, hencode⟩, ?_⟩
    simp only [bind_eq_ok, readU32_eq_ok, pure_eq_ok]
    exact ⟨_, rfl, _, rfl, _, rfl, rfl⟩

theorem decodeTransactionKind_eq_ok {kind : TransactionKind} :
    decodeTransactionKind input = .ok kind ↔ input = encodeUvar kind.tag.toUInt64 := by
  simp only [decodeTransactionKind, bind_eq_ok, readU32_eq_ok, ofOption_eq_ok,
    TransactionKind.fromTag]
  constructor
  · rintro ⟨tag, rfl, h⟩
    split at h
    · obtain rfl := Option.some.inj h
      simp [*, TransactionKind.tag]
    · split at h
      · obtain rfl := Option.some.inj h
        simp [*, TransactionKind.tag]
      · cases h
  · rintro rfl
    exact ⟨kind.tag, rfl, by cases kind <;> rfl⟩

theorem decodeChangedBinding_eq_ok {payload : Bytes} {binding : ChangedBinding} :
    decodeChangedBinding payload = .ok binding ↔
      binding.mutationOrdinals.length ≤ maxTransactionItems ∧
        payload.length ≤ maxStandaloneBytes ∧ encodeChangedBinding binding = .ok payload := by
  simp only [decodeChangedBinding, bind_eq_ok,
    decodeRequiredRecord_eq_ok (show 4 ≤ maxRecordFields by decide), encodeChangedBinding]
  constructor
  · rintro ⟨payloads, ⟨hlen, hinput, hencode⟩, h⟩
    obtain ⟨a, b, c, d, rfl⟩ := List.length_eq_four.1 hlen
    simp only [bind_eq_ok, readFixed_eq_ok, decodeOptionFixed_eq_ok,
      decodeListPayloads_eq_ok, mapM_eq_ok_of_eq_ok (fun v : UInt32 ↦ encodeUvar v.toUInt64)
        fun _ _ ↦ readU32_eq_ok, pure_eq_ok] at h
    obtain ⟨_, rfl, _, hpre, _, hpost, _, ⟨hitems, -, hlist⟩, ordinals, rfl, rfl⟩ := h
    rw [List.length_map] at hitems
    exact ⟨hitems, hinput, b, hpre, c, hpost, d, hlist, hencode⟩
  · rintro ⟨hitems, hinput, b, hpre, c, hpost, d, hlist, hencode⟩
    refine ⟨_, ⟨rfl, hinput, hencode⟩, ?_⟩
    have hd := length_le_of_encodeRecord (by simp) hencode d (by simp)
    simp only [bind_eq_ok, readFixed_eq_ok, decodeOptionFixed_eq_ok,
      decodeListPayloads_eq_ok, mapM_eq_ok_of_eq_ok (fun v : UInt32 ↦ encodeUvar v.toUInt64)
        fun _ _ ↦ readU32_eq_ok, pure_eq_ok]
    exact ⟨_, rfl, _, hpre, _, hpost, _, ⟨by rwa [List.length_map], hd, hlist⟩, _, rfl, rfl⟩

/-- Elements that are written one by one are read back one by one. -/
theorem mapM_eq_ok_iff_mapM {α β ε ε' : Type} {read : α → Except ε β} {write : β → Except ε' α}
    {P : β → Prop} {Q : α → Prop} (h : ∀ {a b}, Q a → (read a = .ok b ↔ P b ∧ write b = .ok a))
    {xs : List α} {ys : List β} (hxs : ∀ a ∈ xs, Q a) :
    xs.mapM read = .ok ys ↔ (∀ b ∈ ys, P b) ∧ ys.mapM write = .ok xs := by
  rw [mapM_eq_ok, mapM_eq_ok]
  constructor
  · intro hall
    induction hall with
    | nil => exact ⟨by simp, .nil⟩
    | cons hx _ ih =>
      obtain ⟨hq, hqs⟩ := List.forall_mem_cons.1 hxs
      obtain ⟨hp, hw⟩ := (h hq).1 hx
      obtain ⟨hps, hws⟩ := ih hqs
      exact ⟨List.forall_mem_cons.2 ⟨hp, hps⟩, .cons hw hws⟩
  · rintro ⟨hps, hall⟩
    induction hall with
    | nil => exact .nil
    | cons hw _ ih =>
      obtain ⟨hq, hqs⟩ := List.forall_mem_cons.1 hxs
      obtain ⟨hp, hps⟩ := List.forall_mem_cons.1 hps
      exact .cons ((h hq).2 ⟨hp, hw⟩) (ih hqs hps)

/-- A list of records is read back, element by element. -/
theorem decodeRecords_eq_ok {β : Type} {read : Bytes → CodecResult β}
    {write : β → Scb1.Result Bytes} {P : β → Prop}
    (h : ∀ {payload value}, read payload = .ok value ↔
      P value ∧ payload.length ≤ maxStandaloneBytes ∧ write value = .ok payload) {values : List β} :
    (decodeListPayloads input >>= fun payloads ↦ payloads.mapM read) = .ok values ↔
      (values.length ≤ maxTransactionItems ∧ ∀ value ∈ values, P value) ∧
      input.length ≤ maxStandaloneBytes ∧
      ∃ payloads, values.mapM write = .ok payloads ∧ encodeList payloads = .ok input := by
  have helements : ∀ {payloads : List Bytes}, encodeList payloads = .ok input →
      (payloads.mapM read = .ok values ↔
        (∀ value ∈ values, P value) ∧ values.mapM write = .ok payloads) := by
    intro payloads hlist
    refine mapM_eq_ok_iff_mapM (Q := fun p ↦ p.length ≤ maxStandaloneBytes) (fun hle ↦ ?_)
      (encodeList_eq_ok.1 hlist).2.1
    rw [h, and_iff_right hle]
  simp only [bind_eq_ok, decodeListPayloads_eq_ok]
  constructor
  · rintro ⟨payloads, ⟨hitems, hinput, hlist⟩, h⟩
    obtain ⟨hall, hwrite⟩ := (helements hlist).1 h
    have hlength : values.length = payloads.length := (Except.mapM_eq_ok.1 hwrite).length_eq
    exact ⟨⟨hlength ▸ hitems, hall⟩, hinput, payloads, hwrite, hlist⟩
  · rintro ⟨⟨hitems, hall⟩, hinput, payloads, hwrite, hlist⟩
    have hlength : values.length = payloads.length := (Except.mapM_eq_ok.1 hwrite).length_eq
    exact ⟨payloads, ⟨hlength ▸ hitems, hinput, hlist⟩, (helements hlist).2 ⟨hall, hwrite⟩⟩

theorem decodeChangedBindings_eq_ok : decodeChangedBindings input = .ok bindings ↔
      (bindings.length ≤ maxTransactionItems ∧
        ∀ binding ∈ bindings, binding.mutationOrdinals.length ≤ maxTransactionItems) ∧
      input.length ≤ maxStandaloneBytes ∧
      ∃ payloads, bindings.mapM encodeChangedBinding = .ok payloads ∧
        encodeList payloads = .ok input :=
  decodeRecords_eq_ok decodeChangedBinding_eq_ok

/-- What the readers admit of the lists of a transaction. -/
structure TransactionRecord.WithinLimits (record : TransactionRecord) : Prop where
  parentTransactionIds : record.parentTransactionIds.length ≤ maxTransactionItems
  parentRoots : record.parentRoots.length ≤ maxTransactionItems
  changed : record.changedEntityBindings.length ≤ maxTransactionItems
  ordinals : ∀ binding ∈ record.changedEntityBindings,
    binding.mutationOrdinals.length ≤ maxTransactionItems
  selectedTests : record.selectedTests.length ≤ maxTransactionItems
  testResultRefs : record.testResultRefs.length ≤ maxTransactionItems
  tombstonedEntities : record.tombstonedEntities.length ≤ maxTransactionItems

/-- **The common fields are read back.** -/
theorem decodeTransactionFields_eq_ok {payloads rest : List Bytes}
    (hle : ∀ p ∈ payloads, p.length ≤ maxStandaloneBytes) :
    decodeTransactionFields payloads = .ok (record, rest) ↔
      record.WithinLimits ∧ ∃ fields, transactionFields record = .ok fields ∧
        payloads = fields ++ rest := by
  constructor
  · intro h
    unfold decodeTransactionFields at h
    split at h
    · simp only [bind_eq_ok, readU32_eq_ok, decodeTransactionKind_eq_ok, readFixed_eq_ok,
        decodeFixedList_eq_ok, decodeOptionFixed_eq_ok, decodeChangedBindings_eq_ok,
        decodeCommitMetadata_eq_ok, pure_eq_ok, Prod.mk.injEq] at h
      obtain ⟨_, rfl, _, rfl, _, rfl, _, ⟨hparents, -, eparents⟩, _, ⟨hroots, -, eroots⟩, _, rfl,
        _, rfl, _, eprincipal, _, ecandidate, _, eresult, _, econtext, _, eprofile, _, rfl, _,
        ⟨⟨hchanged, hordinals⟩, -, changed, echanged, elist⟩, _, esummary, _,
        ⟨hselected, -, eselected⟩, _, ⟨hreports, -, ereports⟩, _, ⟨htombs, -, etombs⟩, _,
        ⟨-, emetadata⟩, rfl, rfl⟩ := h
      refine ⟨⟨hparents, hroots, hchanged, hordinals, hselected, hreports, htombs⟩, ?_⟩
      simp only [transactionFields, eparents, eroots, echanged, eselected, ereports, etombs,
        eprincipal, ecandidate, eresult, econtext, eprofile, elist, esummary, emetadata, ok_bind]
      exact ⟨_, rfl, rfl⟩
    · cases h
  · rintro ⟨hlimits, fields, hfields, rfl⟩
    simp only [transactionFields, bind_eq_ok, pure_eq_ok] at hfields
    obtain ⟨parents, eparents, roots, eroots, changed, echanged, selected, eselected, reports,
      ereports, tombs, etombs, principal, eprincipal, candidate, ecandidate, result, eresult,
      context, econtext, profile, eprofile, list, elist, summary, esummary, metadata, emetadata,
      rfl⟩ := hfields
    simp only [List.cons_append, List.nil_append, decodeTransactionFields, bind_eq_ok,
      readU32_eq_ok, decodeTransactionKind_eq_ok, readFixed_eq_ok, decodeFixedList_eq_ok,
      decodeOptionFixed_eq_ok, decodeChangedBindings_eq_ok, decodeCommitMetadata_eq_ok,
      pure_eq_ok, Prod.mk.injEq]
    have hlength : ∀ {p : Bytes}, p ∈ [parents, roots, list, selected, reports, tombs, metadata] →
        p.length ≤ maxStandaloneBytes := by
      intro p hp
      refine hle p ?_
      simp only [List.mem_cons, List.not_mem_nil, or_false] at hp
      obtain rfl | rfl | rfl | rfl | rfl | rfl | rfl := hp <;> simp
    exact ⟨_, rfl, _, rfl, _, rfl, _, ⟨hlimits.1, hlength (by simp), eparents⟩, _,
      ⟨hlimits.2, hlength (by simp), eroots⟩, _, rfl, _, rfl, _, eprincipal, _, ecandidate, _,
      eresult, _, econtext, _, eprofile, _, rfl, _,
      ⟨⟨hlimits.3, hlimits.4⟩, hlength (by simp), changed, echanged, elist⟩, _, esummary, _,
      ⟨hlimits.5, hlength (by simp), eselected⟩, _, ⟨hlimits.6, hlength (by simp), ereports⟩, _,
      ⟨hlimits.7, hlength (by simp), etombs⟩, _, ⟨hlength (by simp), emetadata⟩, rfl, trivial⟩

theorem length_transactionFields {fields : List Bytes}
    (h : transactionFields record = .ok fields) : fields.length = 19 := by
  simp only [transactionFields, bind_eq_ok, pure_eq_ok] at h
  obtain ⟨_, -, _, -, _, -, _, -, _, -, _, -, _, -, _, -, _, -, _, -, _, -, _, -, _, -, _, -, rfl⟩ :=
    h
  rfl

theorem decodeTransactionRecord_eq_ok : decodeTransactionRecord input = .ok record ↔
      record.WithinLimits ∧ input.length ≤ maxStandaloneBytes ∧
        encodeTransactionRecord record = .ok input := by
  simp only [decodeTransactionRecord, bind_eq_ok,
    decodeRequiredRecord_eq_ok (show 19 ≤ maxRecordFields by decide), encodeTransactionRecord,
    Prod.exists, pure_eq_ok]
  constructor
  · rintro ⟨payloads, ⟨hlen, hinput, hencode⟩, _, rest, h, rfl⟩
    obtain ⟨hlimits, fields, hfields, rfl⟩ := (decodeTransactionFields_eq_ok
      (length_le_of_encodeRecord (by rw [hlen]; decide) hencode)).1 h
    -- the record has nineteen fields, so nothing stands behind them
    rw [List.length_append, length_transactionFields hfields] at hlen
    obtain rfl := List.length_eq_zero_iff.1 (Nat.add_left_cancel hlen)
    rw [List.append_nil] at hencode
    exact ⟨hlimits, hinput, fields, hfields, hencode⟩
  · rintro ⟨hlimits, hinput, fields, hfields, hencode⟩
    have hlen := length_transactionFields hfields
    refine ⟨fields, ⟨hlen, hinput, hencode⟩, record, [], ?_, rfl⟩
    rw [decodeTransactionFields_eq_ok (length_le_of_encodeRecord (by rw [hlen]; decide) hencode)]
    exact ⟨hlimits, fields, hfields, (List.append_nil fields).symm⟩

/-! ### What the validators bound -/

theorem validateSortedIds_eq_ok {kind : IdKind} {values : List (Id kind)}
    {code : TransactionErrorCode} :
    validateSortedIds values code = .ok u ↔
      values.length ≤ maxTransactionItems ∧ Ascends id values := by
  rw [validateSortedIds, rejectIf_eq_ok, not_or, not_not, Nat.not_lt, ascends_iff_isChain]
  rfl

theorem length_le_of_validateChangedBindings
    {kind : TransactionKind} (h : validateChangedBindings bindings kind = .ok u) :
    bindings.length ≤ maxTransactionItems := by
  simp only [validateChangedBindings, bind_eq_ok, rejectIf_eq_ok, exists_const,
    not_or, gt_iff_lt, Nat.not_lt] at h
  exact h.1.1

/-- A record has at most one parent. -/
theorem TransactionRecord.length_parents_le
    (h : validateTransactionRecord record = .ok u) : record.parentTransactionIds.length ≤ 1 := by
  simp only [validateTransactionRecord, bind_eq_ok, Unique.exists_iff] at h
  obtain ⟨-, -, -, -, -, -, -, -, hkind⟩ := h
  unfold TransactionRecord.validateParents at hkind
  split at hkind <;> simp only [rejectIf_eq_ok, not_or, not_not] at hkind
  · rw [hkind.1]
    exact Nat.zero_le 1
  · exact hkind.1.le

theorem TransactionRecord.withinLimits (h : validateTransactionRecord record = .ok u)
    (hordinals : ∀ binding ∈ record.changedEntityBindings,
      binding.mutationOrdinals.length ≤ maxTransactionItems) : record.WithinLimits := by
  have hparents := record.length_parents_le h
  simp only [validateTransactionRecord, bind_eq_ok, rejectIf_eq_ok,
    Unique.exists_iff, validateSortedIds_eq_ok, not_not] at h
  obtain ⟨-, hroots, ⟨hselected, -⟩, ⟨htombs, -⟩, ⟨hreports, -⟩, hchanged, -, -, -⟩ := h
  exact ⟨hparents.trans (by decide), hroots ▸ hparents.trans (by decide),
    length_le_of_validateChangedBindings hchanged, hordinals, hselected, hreports, htombs⟩

/-! ### Import inverts build -/

section

variable [Blake3] {ρ : Type}

variable {validate : ρ → CodecResult Unit} {encode : ρ → Scb1.Result Bytes}
  {transaction : ImportedTransaction}

theorem importCore_eq_ok {magic : Bytes} {decode : Bytes → CodecResult ρ} {P : ρ → Prop}
    (h : ∀ {input record}, decode input = .ok record ↔
      P record ∧ input.length ≤ maxStandaloneBytes ∧ encode record = .ok input)
    {input : Bytes} {transaction : Imported ρ} :
    importCore magic validate decode input = .ok transaction ↔
      buildCore magic validate encode transaction.record = .ok transaction ∧
        transaction.storedBytes = input ∧ P transaction.record := by
  simp only [importCore, buildCore, bind_eq_ok, decodeEnvelope_eq_ok, rejectIf_eq_ok,
    Unique.exists_iff, h, pure_eq_ok, ofScb_eq_ok, not_not, appendDigest, gt_iff_lt, Nat.not_lt]
  constructor
  · rintro ⟨⟨preimage, trailer, payload⟩, ⟨henvelope, -, rfl⟩, htrailer, record, ⟨hP, -, hencode⟩,
      hvalidate, rfl⟩
    simp only at henvelope htrailer hencode ⊢
    subst htrailer
    refine ⟨⟨hvalidate, payload, hencode, preimage, henvelope, _, ⟨?_, rfl⟩, rfl⟩, trivial, hP⟩
    rw [Id.length_eq]
    exact (encodeEnvelope_eq_ok.1 henvelope).1
  · rintro ⟨⟨hvalidate, payload, hencode, preimage, henvelope, _, ⟨-, rfl⟩, htransaction⟩, rfl, hP⟩
    have hpayload : payload.length ≤ maxStandaloneBytes := by
      obtain ⟨hfits, rfl⟩ := encodeEnvelope_eq_ok.1 henvelope
      exact length_le_of_envelopeBytes hfits
    refine ⟨⟨preimage, (TransactionId.derive preimage).bytes, payload⟩, ⟨henvelope, Id.length_eq _,
      by rw [htransaction]⟩, rfl, transaction.record, ⟨hP, hpayload, hencode⟩, hvalidate, ?_⟩
    rw [htransaction]

theorem buildCore_eq_ok {magic : Bytes} {record : ρ} {transaction : Imported ρ}
    (h : buildCore magic validate encode record = .ok transaction) :
    transaction.record = record ∧ validate record = .ok () := by
  simp only [buildCore, bind_eq_ok, Unique.exists_iff, pure_eq_ok] at h
  obtain ⟨hvalidate, _, -, _, -, _, -, rfl⟩ := h
  exact ⟨rfl, hvalidate⟩

theorem importTransaction_eq_ok {input : Bytes} : importTransaction input = .ok transaction ↔
      buildTransaction transaction.record = .ok transaction ∧ transaction.storedBytes = input ∧
        transaction.record.WithinLimits :=
  importCore_eq_ok decodeTransactionRecord_eq_ok

/-- **A transaction that is built is read back**, when no entry lists too many ordinals. -/
theorem importTransaction_of_buildTransaction {record : TransactionRecord}
    (h : buildTransaction record = .ok transaction)
    (hordinals : ∀ binding ∈ record.changedEntityBindings,
      binding.mutationOrdinals.length ≤ maxTransactionItems) :
    importTransaction transaction.storedBytes = .ok transaction := by
  obtain ⟨rfl, hvalidate⟩ := buildCore_eq_ok h
  exact importTransaction_eq_ok.2
    ⟨h, rfl, TransactionRecord.withinLimits hvalidate hordinals⟩

end

end Sley.Txn
