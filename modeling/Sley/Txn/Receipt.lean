import Sley.Policy.CandidateValidation
import Sley.Txn.Transaction

/-!
# Receipts

A receipt is what a repository persists of a transaction: the transaction, the candidate and its
result, the committed root and the policy, each as its exact bytes, and the objects that the changed
bindings need (`sley-txn/src/codec.rs`, `native_codec.rs`). Building a receipt imports everything it
embeds, so the parts of a receipt are always the readings of its bytes.

The readers of policy roots, candidate results and native test evidence are parameters,
`ReceiptParts`; nothing is assumed of them.
-/

namespace Sley.Txn

open Scb1 Mutate Root Policy
open Except hiding ok error
open ReceiptId (derive)

/-- One exact object needed by changed-binding postimages. -/
structure ObjectManifestEntry where
  objectId : ObjectId
  storedLength : UInt64
  deriving DecidableEq

/-- Complete persisted receipt evidence. -/
structure TransactionReceiptRecord where
  formatVersion : UInt32
  transactionId : TransactionId
  storedTransaction : Bytes
  storedCandidate : Option Bytes
  storedCandidateResult : Option Bytes
  storedStateRoot : Bytes
  storedPolicyRoot : Bytes
  objectManifest : List ObjectManifestEntry
  durabilityProfile : UInt32
  deriving DecidableEq

/-- Native receipt record: the first nine fields and the test evidence. -/
structure NativeTransactionReceiptRecord extends TransactionReceiptRecord where
  storedEvidenceBundle : Bytes
  storedAdmissionContext : Bytes
  storedCommitStatement : Bytes
  deriving DecidableEq

/-- One pinned native test with its exact proposed objects. -/
structure NativeEvidencePin where
  testEntity : EntityId
  testObject : ObjectId
  targetFunction : EntityId
  targetObject : ObjectId
  deriving DecidableEq

/-- What the verified evidence of a native receipt binds. -/
structure NativeEvidenceSummary where
  staticSelected : List EntityId
  pins : List NativeEvidencePin

/-- The readers of embedded parts that are not embedded here. -/
class ReceiptParts where
  importPolicyRoot : Bytes → CodecResult AcceptedPolicyRoot
  importCandidateResult : Bytes → CodecResult ImportedCandidateResult
  /-- `verify_native_evidence_bindings`. -/
  verifyNativeEvidence : TransactionId → NativeTransactionRecord → Bytes → Bytes → Bytes →
    CodecResult NativeEvidenceSummary

section

variable [HostLayout]

/-- Strictly verified complete persisted receipt and all nested records. -/
structure ImportedTransactionReceipt where
  record : TransactionReceiptRecord
  receiptId : ReceiptId
  preimage : Bytes
  storedBytes : Bytes
  transaction : ImportedTransaction
  candidate : Option ImportedCandidate
  candidateResult : Option ImportedCandidateResult
  stateRoot : AcceptedStateRoot
  policyRoot : AcceptedPolicyRoot

/-- Strictly verified native receipt. -/
structure ImportedNativeTransactionReceipt where
  record : NativeTransactionReceiptRecord
  receiptId : ReceiptId
  preimage : Bytes
  storedBytes : Bytes
  transaction : ImportedNativeTransaction
  candidate : ImportedCandidate
  candidateResult : ImportedCandidateResult
  stateRoot : AcceptedStateRoot
  policyRoot : AcceptedPolicyRoot

/-- A receipt of either format. -/
inductive ImportedReceipt
  | v1 (receipt : ImportedTransactionReceipt)
  | v2 (receipt : ImportedNativeTransactionReceipt)

namespace ImportedReceipt

/-- The nineteen common fields of the nested transaction. -/
def transactionRecord : ImportedReceipt → TransactionRecord
  | v1 receipt => receipt.transaction.record
  | v2 receipt => receipt.transaction.record.toTransactionRecord

def transactionId : ImportedReceipt → TransactionId
  | v1 receipt => receipt.transaction.transactionId
  | v2 receipt => receipt.transaction.transactionId

def stateRoot : ImportedReceipt → AcceptedStateRoot
  | v1 receipt => receipt.stateRoot
  | v2 receipt => receipt.stateRoot

def policyRoot : ImportedReceipt → AcceptedPolicyRoot
  | v1 receipt => receipt.policyRoot
  | v2 receipt => receipt.policyRoot

def candidate : ImportedReceipt → Option ImportedCandidate
  | v1 receipt => receipt.candidate
  | v2 receipt => some receipt.candidate

def storedBytes : ImportedReceipt → Bytes
  | v1 receipt => receipt.storedBytes
  | v2 receipt => receipt.storedBytes

def objectManifest : ImportedReceipt → List ObjectManifestEntry
  | v1 receipt => receipt.record.objectManifest
  | v2 receipt => receipt.record.objectManifest

def tombstonedEntities (receipt : ImportedReceipt) : List EntityId :=
  receipt.transactionRecord.tombstonedEntities

/-- The bindings of the committed root. -/
def bindings (receipt : ImportedReceipt) : Bindings := receipt.stateRoot.record.entityBindings

end ImportedReceipt

end

/-! ### Cross-binding -/

def durabilityProfileReceiptBeforeHeadV1 : UInt32 := 1

def validateManifest (entries : List ObjectManifestEntry) : CodecResult Unit :=
  rejectIf (entries.length > maxTransactionItems ∨
      (¬ entries.IsChain fun a b ↦ compare a.objectId b.objectId = .lt) ∨
      ∃ entry ∈ entries, entry.storedLength < 32 ∨ entry.storedLength.toNat > maxStandaloneBytes)
    (.transaction .objectInventoryMismatch)

/-- The manifest lists the objects of the postimages. -/
def validateManifestBinding (transaction : TransactionRecord)
    (manifest : List ObjectManifestEntry) : CodecResult Unit :=
  let expected := transaction.changedEntityBindings.filterMap ChangedBinding.postimage
  let actual := manifest.map ObjectManifestEntry.objectId
  rejectIf ((∃ objectId ∈ expected, objectId ∉ actual) ∨
      ∃ objectId ∈ actual, objectId ∉ expected)
    (.transaction .objectInventoryMismatch)

/-- The roots a receipt embeds are the ones its transaction names. -/
def validateRoots (transaction : TransactionRecord) (stateRoot : AcceptedStateRoot)
    (policyRoot : AcceptedPolicyRoot) (durabilityProfile : UInt32) : CodecResult Unit :=
  rejectIf (transaction.committedRoot ≠ stateRoot.root ∨
      transaction.workspaceId ≠ stateRoot.record.workspaceId ∨
      transaction.schemaEpochId ≠ stateRoot.record.schemaEpochId ∨
      transaction.policyRootId ≠ stateRoot.record.policyRoot ∨
      transaction.policyRootId ≠ policyRoot.root ∨
      transaction.workspaceId ≠ policyRoot.record.workspaceId ∨
      transaction.commitMetadata.durabilityProfile ≠ durabilityProfile)
    (.transaction .receiptBindingMismatch)

section

variable [HostLayout]

/-- `validate_ordinary_nested` and `validate_native_ordinary_nested`: the candidate and its result
are the ones the transaction names. The result names `selectedTests`, which are the tests of the
transaction in format 1 and the approved static subset in a native receipt. -/
def validateOrdinaryNested (transaction : TransactionRecord) (candidate : ImportedCandidate)
    (result : ImportedCandidateResult) (selectedTests : List EntityId) : CodecResult Unit := do
  rejectIf (result.record.decision ≠ .valid) (.transaction .resultNotValid)
  let parentTransactionId ← ofOption (.transaction .parentShape)
    transaction.parentTransactionIds.head?
  let parentRoot ← ofOption (.transaction .parentShape) transaction.parentRoots.head?
  rejectIf (result.record.selectedTests ≠ selectedTests ∨
      transaction.candidateId ≠ some candidate.candidateId ∨
      transaction.candidateResultId ≠ some result.candidateResultId ∨
      transaction.validationContextDigest ≠ some result.record.validationContextDigest ∨
      transaction.validationProfileId ≠ some result.record.validationProfileId ∨
      some transaction.committedRoot ≠ result.record.candidateRoot ∨
      result.record.candidateId ≠ some candidate.candidateId ∨
      candidate.record.baseTransactionId ≠ parentTransactionId ∨
      candidate.record.baseRoot ≠ parentRoot ∨
      candidate.record.workspaceId ≠ transaction.workspaceId ∨
      candidate.record.schemaEpochId ≠ transaction.schemaEpochId ∨
      candidate.record.policyRootId ≠ transaction.policyRootId ∨
      transaction.principalId ≠ some candidate.record.principalId ∨
      transaction.capabilitySummaryDigest ≠ some candidate.record.capabilitySummaryDigest ∨
      transaction.validationProfileId ≠ some candidate.record.validationProfileId)
    (.transaction .resultBindingMismatch)

variable [CandidateLayout] [Blake3] [ConformanceRegistry] [ReceiptParts]

/-- The committed root of a receipt, under the registry of the conformance epoch. -/
def importReceiptRoot (storedStateRoot : Bytes) : CodecResult AcceptedStateRoot := do
  let registry ← ConformanceRegistry.registry.mapError fun error ↦ .stateRoot (.schema error)
  (importStateRoot registry storedStateRoot).mapError .stateRoot

/-- An optional embedded part, read if it is there. -/
def importOption {α : Type} (read : Bytes → CodecResult α) : Option Bytes → CodecResult (Option α)
  | none => .ok none
  | some bytes => do
    let value ← read bytes
    return some value

structure NestedReceipt where
  transaction : ImportedTransaction
  candidate : Option ImportedCandidate
  candidateResult : Option ImportedCandidateResult
  stateRoot : AcceptedStateRoot
  policyRoot : AcceptedPolicyRoot

/-- What the kind of a transaction asks of the candidate of its receipt. -/
def validateNested (transaction : TransactionRecord) (candidate : Option ImportedCandidate)
    (candidateResult : Option ImportedCandidateResult) : CodecResult Unit :=
  match transaction.transactionKind with
  | .trustedGenesis =>
    rejectIf (candidate.isSome ∨ candidateResult.isSome) (.transaction .genesisInvalid)
  | .ordinaryCandidate => do
    let candidate ← ofOption (.transaction .receiptBindingMismatch) candidate
    let result ← ofOption (.transaction .receiptBindingMismatch) candidateResult
    validateOrdinaryNested transaction candidate result transaction.selectedTests

def validateReceiptRecord (record : TransactionReceiptRecord) : CodecResult NestedReceipt := do
  rejectIf (record.formatVersion ≠ transactionFormatVersion) (.transaction .formatVersion)
  rejectIf (record.durabilityProfile ≠ durabilityProfileReceiptBeforeHeadV1)
    (.transaction .fieldShape)
  validateManifest record.objectManifest
  let transaction ← importTransaction record.storedTransaction
  rejectIf (transaction.transactionId ≠ record.transactionId)
    (.transaction .receiptBindingMismatch)
  let stateRoot ← importReceiptRoot record.storedStateRoot
  let policyRoot ← ReceiptParts.importPolicyRoot record.storedPolicyRoot
  validateRoots transaction.record stateRoot policyRoot record.durabilityProfile
  let candidate ← importOption (fun bytes ↦ (importCandidate bytes).mapError .candidate)
    record.storedCandidate
  let candidateResult ← importOption ReceiptParts.importCandidateResult
    record.storedCandidateResult
  validateNested transaction.record candidate candidateResult
  validateManifestBinding transaction.record record.objectManifest
  return { transaction, candidate, candidateResult, stateRoot, policyRoot }

end

/-! ### Bytes -/

def encodeManifestEntry (entry : ObjectManifestEntry) : Scb1.Result Bytes :=
  encodeRecord (numbered 1 [entry.objectId.bytes, encodeUvar entry.storedLength])

/-- The payloads of the nine common fields. -/
def receiptFields (record : TransactionReceiptRecord) : Scb1.Result (List Bytes) := do
  let manifest ← record.objectManifest.mapM encodeManifestEntry
  let storedTransaction ← encodeBytes record.storedTransaction
  let storedCandidate ← encodeOptionBytes record.storedCandidate
  let storedCandidateResult ← encodeOptionBytes record.storedCandidateResult
  let storedStateRoot ← encodeBytes record.storedStateRoot
  let storedPolicyRoot ← encodeBytes record.storedPolicyRoot
  let manifest ← encodeList manifest
  return [encodeUvar record.formatVersion.toUInt64, record.transactionId.bytes, storedTransaction,
    storedCandidate, storedCandidateResult, storedStateRoot, storedPolicyRoot, manifest,
    encodeUvar record.durabilityProfile.toUInt64]

def encodeReceiptRecord (record : TransactionReceiptRecord) : Scb1.Result Bytes := do
  let fields ← receiptFields record
  encodeRecord (numbered 1 fields)

def encodeNativeReceiptRecord (record : NativeTransactionReceiptRecord) : Scb1.Result Bytes := do
  let fields ← receiptFields record.toTransactionReceiptRecord
  let storedEvidenceBundle ← encodeBytes record.storedEvidenceBundle
  let storedAdmissionContext ← encodeBytes record.storedAdmissionContext
  let storedCommitStatement ← encodeBytes record.storedCommitStatement
  encodeRecord (numbered 1
    (fields ++ [storedEvidenceBundle, storedAdmissionContext, storedCommitStatement]))

def decodeManifestEntry (payload : Bytes) : CodecResult ObjectManifestEntry := do
  match ← decodeRequiredRecord 2 payload with
  | [objectId, storedLength] =>
    let objectId ← readFixed .object objectId
    let storedLength ← readU64 storedLength
    return { objectId, storedLength }
  | _ => .error (.scb .fieldMissing)

/-- The nine common fields, and what stands behind them. -/
def decodeReceiptFields : List Bytes → CodecResult (TransactionReceiptRecord × List Bytes)
  | f₁ :: f₂ :: f₃ :: f₄ :: f₅ :: f₆ :: f₇ :: f₈ :: f₉ :: rest => do
    let payloads ← decodeListPayloads f₈
    let objectManifest ← payloads.mapM decodeManifestEntry
    let formatVersion ← readU32 f₁
    let transactionId ← readFixed .transaction f₂
    let storedTransaction ← readBytes f₃
    let storedCandidate ← decodeOptionBytes f₄
    let storedCandidateResult ← decodeOptionBytes f₅
    let storedStateRoot ← readBytes f₆
    let storedPolicyRoot ← readBytes f₇
    let durabilityProfile ← readU32 f₉
    return ({
      formatVersion, transactionId, storedTransaction, storedCandidate, storedCandidateResult
      storedStateRoot, storedPolicyRoot, objectManifest, durabilityProfile }, rest)
  | _ => .error (.scb .fieldMissing)

def decodeReceiptRecord (input : Bytes) : CodecResult TransactionReceiptRecord := do
  let fields ← decodeRequiredRecord 9 input
  let (record, _) ← decodeReceiptFields fields
  return record

def decodeNativeReceiptRecord (input : Bytes) : CodecResult NativeTransactionReceiptRecord := do
  let fields ← decodeRequiredRecord 12 input
  match ← decodeReceiptFields fields with
  | (record, [bundle, context, statement]) =>
    let storedEvidenceBundle ← readBytes bundle
    let storedAdmissionContext ← readBytes context
    let storedCommitStatement ← readBytes statement
    return { record with storedEvidenceBundle, storedAdmissionContext, storedCommitStatement }
  | _ => .error (.scb .fieldMissing)

theorem decodeManifestEntry_eq_ok {payload : Bytes} {entry : ObjectManifestEntry} :
    decodeManifestEntry payload = .ok entry ↔
      True ∧ payload.length ≤ maxStandaloneBytes ∧ encodeManifestEntry entry = .ok payload := by
  simp only [decodeManifestEntry, bind_eq_ok,
    decodeRequiredRecord_eq_ok (show 2 ≤ maxRecordFields by decide), encodeManifestEntry, true_and]
  constructor
  · rintro ⟨payloads, ⟨hlen, hinput, hencode⟩, h⟩
    obtain ⟨a, b, rfl⟩ := List.length_eq_two.1 hlen
    simp only [bind_eq_ok, readFixed_eq_ok, readU64_eq_ok, pure_eq_ok] at h
    obtain ⟨_, rfl, _, rfl, rfl⟩ := h
    exact ⟨hinput, hencode⟩
  · rintro ⟨hinput, hencode⟩
    refine ⟨_, ⟨rfl, hinput, hencode⟩, ?_⟩
    simp only [bind_eq_ok, readFixed_eq_ok, readU64_eq_ok, pure_eq_ok]
    exact ⟨_, rfl, _, rfl, rfl⟩

variable {record : TransactionReceiptRecord}

/-- **The common fields of a receipt are read back.** -/
theorem decodeReceiptFields_eq_ok {payloads rest : List Bytes}
    (hle : ∀ p ∈ payloads, p.length ≤ maxStandaloneBytes) :
    decodeReceiptFields payloads = .ok (record, rest) ↔
      record.objectManifest.length ≤ maxTransactionItems ∧
        ∃ fields, receiptFields record = .ok fields ∧ payloads = fields ++ rest := by
  have hmanifest : ∀ {input : Bytes} {entries : List ObjectManifestEntry},
      (∃ ps, decodeListPayloads input = .ok ps ∧ ps.mapM decodeManifestEntry = .ok entries) ↔
        entries.length ≤ maxTransactionItems ∧ input.length ≤ maxStandaloneBytes ∧
          ∃ ps, entries.mapM encodeManifestEntry = .ok ps ∧ encodeList ps = .ok input := by
    intro input entries
    rw [← bind_eq_ok, decodeRecords_eq_ok decodeManifestEntry_eq_ok]
    simp
  constructor
  · intro h
    unfold decodeReceiptFields at h
    split at h
    · simp only [bind_eq_ok, readU32_eq_ok, readFixed_eq_ok, readBytes_eq_ok,
        decodeOptionBytes_eq_ok, pure_eq_ok, Prod.mk.injEq] at h
      obtain ⟨ps, hps, entries, hentries, _, rfl, _, rfl, _, etransaction, _, ⟨-, ecandidate⟩, _,
        ⟨-, eresult⟩, _, eroot, _, epolicy, _, rfl, rfl, rfl⟩ := h
      obtain ⟨hitems, -, ps, eentries, elist⟩ := hmanifest.1 ⟨ps, hps, hentries⟩
      refine ⟨hitems, ?_⟩
      simp only [receiptFields, eentries, elist, etransaction, ecandidate, eresult, eroot, epolicy,
        ok_bind]
      exact ⟨_, rfl, rfl⟩
    · cases h
  · rintro ⟨hitems, fields, hfields, rfl⟩
    simp only [receiptFields, bind_eq_ok, pure_eq_ok] at hfields
    obtain ⟨ps, eentries, transaction, etransaction, candidate, ecandidate, result, eresult, root,
      eroot, policy, epolicy, list, elist, rfl⟩ := hfields
    have hlength : ∀ {p : Bytes}, p ∈ [candidate, result, list] →
        p.length ≤ maxStandaloneBytes := by
      intro p hp
      refine hle p ?_
      simp only [List.mem_cons, List.not_mem_nil, or_false] at hp
      simp only [List.cons_append, List.mem_cons]
      tauto
    obtain ⟨ps, hps, hentries⟩ := hmanifest.2 ⟨hitems, hlength (by simp), ps, eentries, elist⟩
    simp only [List.cons_append, List.nil_append, decodeReceiptFields, bind_eq_ok, readU32_eq_ok,
      readFixed_eq_ok, readBytes_eq_ok, decodeOptionBytes_eq_ok, pure_eq_ok, Prod.mk.injEq]
    exact ⟨ps, hps, _, hentries, _, rfl, _, rfl, _, etransaction, _, ⟨hlength (by simp),
      ecandidate⟩, _, ⟨hlength (by simp), eresult⟩, _, eroot, _, epolicy, _, rfl, rfl, trivial⟩

theorem length_receiptFields {fields : List Bytes}
    (h : receiptFields record = .ok fields) : fields.length = 9 := by
  simp only [receiptFields, bind_eq_ok, pure_eq_ok] at h
  obtain ⟨_, -, _, -, _, -, _, -, _, -, _, -, _, -, rfl⟩ := h
  rfl

theorem decodeReceiptRecord_eq_ok {input : Bytes} : decodeReceiptRecord input = .ok record ↔
      record.objectManifest.length ≤ maxTransactionItems ∧ input.length ≤ maxStandaloneBytes ∧
        encodeReceiptRecord record = .ok input := by
  simp only [decodeReceiptRecord, bind_eq_ok,
    decodeRequiredRecord_eq_ok (show 9 ≤ maxRecordFields by decide), encodeReceiptRecord,
    Prod.exists, pure_eq_ok]
  constructor
  · rintro ⟨payloads, ⟨hlen, hinput, hencode⟩, _, rest, h, rfl⟩
    obtain ⟨hitems, fields, hfields, rfl⟩ := (decodeReceiptFields_eq_ok
      (length_le_of_encodeRecord (by rw [hlen]; decide) hencode)).1 h
    -- the record has nine fields, so nothing stands behind them
    rw [List.length_append, length_receiptFields hfields] at hlen
    obtain rfl := List.length_eq_zero_iff.1 (Nat.add_left_cancel hlen)
    rw [List.append_nil] at hencode
    exact ⟨hitems, hinput, fields, hfields, hencode⟩
  · rintro ⟨hitems, hinput, fields, hfields, hencode⟩
    have hlen := length_receiptFields hfields
    refine ⟨fields, ⟨hlen, hinput, hencode⟩, record, [], ?_, rfl⟩
    rw [decodeReceiptFields_eq_ok (length_le_of_encodeRecord (by rw [hlen]; decide) hencode)]
    exact ⟨hitems, fields, hfields, (List.append_nil fields).symm⟩

/-- `SLEYRCP1`. -/
def receiptMagic : Bytes := [0x53, 0x4c, 0x45, 0x59, 0x52, 0x43, 0x50, 0x31]

/-- `SLEYRCP2`. -/
def nativeReceiptMagic : Bytes := [0x53, 0x4c, 0x45, 0x59, 0x52, 0x43, 0x50, 0x32]

/-! ### Building and importing -/

section

variable [HostLayout] [CandidateLayout] [Blake3] [ConformanceRegistry] [ReceiptParts]

/-- A receipt around the parts its record embeds. -/
def NestedReceipt.toReceipt (nested : NestedReceipt) (record : TransactionReceiptRecord)
    (preimage storedBytes : Bytes) : ImportedTransactionReceipt where
  record := record
  receiptId := derive preimage
  preimage := preimage
  storedBytes := storedBytes
  transaction := nested.transaction
  candidate := nested.candidate
  candidateResult := nested.candidateResult
  stateRoot := nested.stateRoot
  policyRoot := nested.policyRoot

def buildTransactionReceipt (record : TransactionReceiptRecord) :
    CodecResult ImportedTransactionReceipt := do
  let nested ← validateReceiptRecord record
  let payload ← ofScb (encodeReceiptRecord record)
  let preimage ← ofScb (encodeEnvelope receiptMagic payload)
  let storedBytes ← ofScb (appendDigest preimage (derive preimage))
  return nested.toReceipt record preimage storedBytes

def importTransactionReceipt (input : Bytes) : CodecResult ImportedTransactionReceipt := do
  let envelope ← decodeEnvelope input receiptMagic
  rejectIf (envelope.trailer ≠ (derive envelope.preimage).bytes)
    (.scb .digestMismatch)
  let record ← decodeReceiptRecord envelope.payload
  let nested ← validateReceiptRecord record
  return nested.toReceipt record envelope.preimage input

def buildNativeTransactionReceipt (record : NativeTransactionReceiptRecord) :
    CodecResult ImportedNativeTransactionReceipt := do
  rejectIf (record.formatVersion ≠ nativeFormatVersion) (.transaction .formatVersion)
  rejectIf (record.durabilityProfile ≠ durabilityProfileReceiptBeforeHeadV1)
    (.transaction .fieldShape)
  validateManifest record.objectManifest
  let transaction ← importNativeTransaction record.storedTransaction
  rejectIf (transaction.transactionId ≠ record.transactionId)
    (.transaction .receiptBindingMismatch)
  let summary ← ReceiptParts.verifyNativeEvidence transaction.transactionId transaction.record
    record.storedEvidenceBundle record.storedAdmissionContext record.storedCommitStatement
  let stateRoot ← importReceiptRoot record.storedStateRoot
  let policyRoot ← ReceiptParts.importPolicyRoot record.storedPolicyRoot
  validateRoots transaction.record.toTransactionRecord stateRoot policyRoot
    record.durabilityProfile
  let candidate ← importOption (fun bytes ↦ (importCandidate bytes).mapError .candidate)
    record.storedCandidate
  let candidateResult ← importOption ReceiptParts.importCandidateResult
    record.storedCandidateResult
  rejectIf (transaction.record.transactionKind = .trustedGenesis)
    (.transaction .internalInvariant)
  let candidate ← ofOption (.transaction .receiptBindingMismatch) candidate
  let candidateResult ← ofOption (.transaction .receiptBindingMismatch) candidateResult
  validateOrdinaryNested transaction.record.toTransactionRecord candidate candidateResult
    summary.staticSelected
  validateManifestBinding transaction.record.toTransactionRecord record.objectManifest
  let payload ← ofScb (encodeNativeReceiptRecord record)
  let preimage ← ofScb (encodeEnvelope nativeReceiptMagic payload)
  let receiptId := derive preimage
  let storedBytes ← ofScb (appendDigest preimage receiptId)
  return {
    record, receiptId, preimage, storedBytes, transaction, candidate, candidateResult, stateRoot
    policyRoot }

def importNativeTransactionReceipt (input : Bytes) :
    CodecResult ImportedNativeTransactionReceipt := do
  let envelope ← decodeEnvelope input nativeReceiptMagic
  let receiptId := derive envelope.preimage
  rejectIf (envelope.trailer ≠ receiptId.bytes) (.scb .digestMismatch)
  let record ← decodeNativeReceiptRecord envelope.payload
  let rebuilt ← buildNativeTransactionReceipt record
  rejectIf (rebuilt.receiptId ≠ receiptId) (.transaction .receiptBindingMismatch)
  return rebuilt

/-- Imports either receipt format; the magic decides. -/
def importReceiptAny (input : Bytes) : CodecResult ImportedReceipt := do
  rejectIf (input.length < 8) (.scb .lengthOverflow)
  if input.take 8 = receiptMagic then do
    let receipt ← importTransactionReceipt input
    return .v1 receipt
  else if input.take 8 = nativeReceiptMagic then do
    let receipt ← importNativeTransactionReceipt input
    return .v2 receipt
  else
    .error (.scb .magicInvalid)

/-! ### What a receipt embeds -/

/-- The parts of a format-1 receipt are the readings of the bytes its record embeds. -/
structure ImportedTransactionReceipt.Embeds (receipt : ImportedTransactionReceipt) : Prop where
  transaction : importTransaction receipt.record.storedTransaction = .ok receipt.transaction
  stateRoot : importReceiptRoot receipt.record.storedStateRoot = .ok receipt.stateRoot
  policyRoot : ReceiptParts.importPolicyRoot receipt.record.storedPolicyRoot =
    .ok receipt.policyRoot
  roots : validateRoots receipt.transaction.record receipt.stateRoot receipt.policyRoot
    receipt.record.durabilityProfile = .ok ()
  candidate : importOption (fun bytes ↦ (importCandidate bytes).mapError .candidate)
    receipt.record.storedCandidate = .ok receipt.candidate
  nested : validateNested receipt.transaction.record receipt.candidate receipt.candidateResult =
    .ok ()

variable {receipt : ImportedTransactionReceipt}

theorem buildTransactionReceipt_embeds {record : TransactionReceiptRecord}
    (h : buildTransactionReceipt record = .ok receipt) :
    receipt.record = record ∧ receipt.Embeds := by
  simp only [buildTransactionReceipt, bind_eq_ok, pure_eq_ok] at h
  obtain ⟨nested, hnested, _, -, _, -, _, -, rfl⟩ := h
  simp only [validateReceiptRecord, bind_eq_ok, rejectIf_eq_ok, Unique.exists_iff,
    pure_eq_ok] at hnested
  obtain ⟨-, -, -, transaction, htransaction, -, stateRoot, hstateRoot, policyRoot, hpolicyRoot,
    hroots, candidate, hcandidate, _, -, hkind, -, rfl⟩ := hnested
  exact ⟨rfl, htransaction, hstateRoot, hpolicyRoot, hroots, hcandidate, hkind⟩

/-- **Import inverts build**, for a receipt of format 1. -/
theorem importTransactionReceipt_eq_ok {input : Bytes} :
    importTransactionReceipt input = .ok receipt ↔
      buildTransactionReceipt receipt.record = .ok receipt ∧ receipt.storedBytes = input ∧
        receipt.record.objectManifest.length ≤ maxTransactionItems := by
  simp only [importTransactionReceipt, buildTransactionReceipt, bind_eq_ok,
    decodeEnvelope_eq_ok, rejectIf_eq_ok, Unique.exists_iff, decodeReceiptRecord_eq_ok,
    pure_eq_ok, ofScb_eq_ok, not_not, appendDigest, gt_iff_lt, Nat.not_lt]
  constructor
  · rintro ⟨⟨preimage, trailer, payload⟩, ⟨henvelope, -, rfl⟩, htrailer, record,
      ⟨hitems, -, hencode⟩, nested, hnested, rfl⟩
    simp only at henvelope htrailer hencode ⊢
    subst htrailer
    refine ⟨⟨nested, hnested, payload, hencode, preimage, henvelope, _, ⟨?_, rfl⟩, rfl⟩, rfl,
      hitems⟩
    rw [Id.length_eq]
    exact (encodeEnvelope_eq_ok.1 henvelope).1
  · rintro ⟨⟨nested, hnested, payload, hencode, preimage, henvelope, _, ⟨-, rfl⟩, hreceipt⟩, rfl,
      hitems⟩
    have hpayload : payload.length ≤ maxStandaloneBytes := by
      obtain ⟨hfits, rfl⟩ := encodeEnvelope_eq_ok.1 henvelope
      exact length_le_of_envelopeBytes hfits
    have hstored : receipt.storedBytes = preimage ++ (derive preimage).bytes := by
      rw [hreceipt]
      rfl
    refine ⟨⟨preimage, (derive preimage).bytes, payload⟩, ⟨henvelope, Id.length_eq _,
      hstored⟩, rfl, receipt.record, ⟨hitems, hpayload, hencode⟩, nested, hnested, ?_⟩
    rw [hstored]
    exact hreceipt

/-- The bytes of a format-1 receipt are read as one, whichever reader is used. -/
theorem importReceiptAny_of_importTransactionReceipt {input : Bytes}
    (h : importTransactionReceipt input = .ok receipt) :
    importReceiptAny input = .ok (.v1 receipt) := by
  have hmagic : 8 ≤ input.length ∧ input.take 8 = receiptMagic := by
    simp only [importTransactionReceipt, bind_eq_ok, decodeEnvelope_eq_ok] at h
    obtain ⟨e, ⟨henvelope, -, rfl⟩, -⟩ := h
    obtain ⟨-, hpreimage⟩ := encodeEnvelope_eq_ok.1 henvelope
    rw [hpreimage, envelopeBytes, List.append_assoc]
    exact ⟨by rw [List.length_append]; exact Nat.le_add_right 8 _, rfl⟩
  rw [importReceiptAny, rejectIf_neg (Nat.not_lt.2 hmagic.1), ok_bind, if_pos hmagic.2, h, ok_bind]
  rfl

end

end Sley.Txn
