import Mathlib
import Sley.Txn.Receipt

/-!
# Genesis and commit

How a repository turns a candidate into the next transaction (`sley-txn/src/repository.rs`): it loads
and verifies the accepted parent, validates the candidate afresh against it, derives the changed
bindings and the next tombstones, and builds the receipt. Trusted genesis does the same for a root
that is supplied. What follows on disk, and in which order, is not the subject here: a function of
this module reads a repository and returns what it will persist.

The test evidence of a native commit is a parameter, `NativeAdmission`, of which nothing is assumed.
-/

namespace Sley.Txn

open Scb1 Mutate Root Policy
open Except (ofOption rejectIf)

/-! ### Failures -/

/-- Store failure. -/
inductive StoreErrorCode
  | storeIo
  | storeObjectNotFound
  | scbResourceLimit
  | scbDigestMismatch
  | scb (code : ScbErrorCode)
  | storeObjectSubstitution
  deriving DecidableEq, Repr

/-- Native commit-boundary failure. -/
inductive NativeCommitError
  | executorUnavailable
  | busyRetrySafe
  | abortedRetrySafe
  | resourceRefused
  | outcomeUnknown
  | attemptConflict
  | journalCorrupt
  | trustUnavailable
  | trustRejected
  | plan
  deriving DecidableEq, Repr

section

variable [HostLayout]

/-- Transaction, validation, storage or admission failure of a commit. -/
inductive CommitError
  | codec (error : TransactionCodecError)
  | store (code : StoreErrorCode)
  | validation (error : CandidateValidationError)
  | candidateRejected (output : CandidateValidationOutput)
  | staleRoot (expected actual : TransactionId)
  | transaction (code : TransactionErrorCode)
  | native (error : NativeCommitError)

/-- A transaction-owned failure of a commit. -/
def ofTransaction {α : Type} (x : Except TransactionErrorCode α) : Except CommitError α :=
  x.mapError .transaction

def ofCodec {α : Type} (x : CodecResult α) : Except CommitError α := x.mapError .codec

@[simp]
theorem ofTransaction_eq_ok {α : Type} {x : Except TransactionErrorCode α} {a : α} :
    ofTransaction x = .ok a ↔ x = .ok a := Except.mapError_eq_ok

@[simp]
theorem ofCodec_eq_ok {α : Type} {x : CodecResult α} {a : α} : ofCodec x = .ok a ↔ x = .ok a :=
  Except.mapError_eq_ok

end

/-! ### Relationship and inventory -/

section

variable [HostLayout]

/-- Format-agnostic accepted parent view. -/
structure AnyParent where
  transactionId : TransactionId
  stateRoot : AcceptedStateRoot
  policyRoot : AcceptedPolicyRoot
  tombstonedEntities : List EntityId

def AnyParent.ofAny (receipt : ImportedReceipt) : AnyParent where
  transactionId := receipt.transactionId
  stateRoot := receipt.stateRoot
  policyRoot := receipt.policyRoot
  tombstonedEntities := receipt.tombstonedEntities

def verifyOrdinaryRelationship (record : TransactionRecord) (candidate : Option ImportedCandidate)
    (ownBindings : Bindings) (parent : Option AnyParent) : Except CommitError Unit := do
  let parentId ← ofOption (.transaction .parentShape) record.parentTransactionIds.head?
  let parentRoot ← ofOption (.transaction .parentShape) record.parentRoots.head?
  let parent ← ofOption (.transaction .parentShape) parent
  rejectIf (parent.transactionId ≠ parentId ∨ parent.stateRoot.root ≠ parentRoot ∨
      parent.stateRoot.record.workspaceId ≠ record.workspaceId ∨
      parent.stateRoot.record.schemaEpochId ≠ record.schemaEpochId ∨
      parent.policyRoot.root ≠ record.policyRootId)
    (.transaction .parentShape)
  let candidate ← ofOption (.transaction .receiptBindingMismatch) candidate
  let expected ← ofTransaction (deriveBindingDiff parent.stateRoot.record.entityBindings
    ownBindings (some candidate.record.operations))
  rejectIf (expected ≠ record.changedEntityBindings) (.transaction .changedBindingInvalid)
  let expectedTombstones ← ofTransaction (nextTombstonesFromRecords parent.tombstonedEntities
    record.changedEntityBindings ownBindings)
  rejectIf (expectedTombstones ≠ record.tombstonedEntities)
    (.transaction .tombstoneInvalid)

def verifyTransactionRelationshipWithParent (receipt : ImportedTransactionReceipt)
    (parent : Option ImportedTransactionReceipt) : Except CommitError Unit := do
  let record := receipt.transaction.record
  match record.transactionKind with
  | .trustedGenesis =>
    rejectIf parent.isSome (.transaction .parentShape)
    let expected ← ofTransaction (deriveBindingDiff [] receipt.stateRoot.record.entityBindings none)
    rejectIf (expected ≠ record.changedEntityBindings) (.transaction .genesisInvalid)
  | .ordinaryCandidate =>
    verifyOrdinaryRelationship record receipt.candidate receipt.stateRoot.record.entityBindings
      (parent.map fun parent ↦ AnyParent.ofAny (.v1 parent))

def verifyManifestLengths (manifest : List ObjectManifestEntry) (objects : List EntityObject) :
    Except CommitError Unit :=
  rejectIf (∃ entry ∈ manifest,
      ((objects.reverse.find? fun object ↦ object.objectId = entry.objectId).map
        fun object ↦ object.storedBytes.length) ≠ some entry.storedLength.toNat)
    (.transaction .objectInventoryMismatch)

/-- Where the objects handed to inventory validation came from. -/
inductive ObjectProvenance
  | supplied
  | loadedFromRoot
  deriving DecidableEq

variable [Blake3] [UnicodeNormalization]

/-- The loop over objects and bindings; supplied objects are imported afresh. -/
def checkBoundObjects (epoch : SchemaEpochId) (provenance : ObjectProvenance) :
    List (EntityObject × EntityId × ObjectId) → Except CommitError Unit
  | [] => .ok ()
  | (object, entityId, objectId) :: rest => do
    if provenance = .supplied then
      let imported ← (importEntityObject epoch object.storedBytes).mapError
        fun error ↦ .codec (.scb error)
      rejectIf (imported ≠ object) (.transaction .objectInventoryMismatch)
    rejectIf (object.schemaEpochId ≠ epoch ∨ object.record.entityId ≠ entityId ∨
        object.objectId ≠ objectId)
      (.transaction .objectInventoryMismatch)
    checkBoundObjects epoch provenance rest

def validateInventoryOf (stateRoot : AcceptedStateRoot) (policyRoot : AcceptedPolicyRoot)
    (objects : List EntityObject) (tombstones : List EntityId) (provenance : ObjectProvenance) :
    Except CommitError Unit := do
  rejectIf (stateRoot.record.policyRoot ≠ policyRoot.root ∨
      stateRoot.record.workspaceId ≠ policyRoot.record.workspaceId ∨
      objects.length ≠ stateRoot.record.entityBindings.length ∨
      ¬ tombstones.IsChain fun a b ↦ compare a b = .lt)
    (.transaction .objectInventoryMismatch)
  checkBoundObjects stateRoot.record.schemaEpochId provenance
    (objects.zip stateRoot.record.entityBindings)
  rejectIf (∃ entityId ∈ tombstones,
      (findBinding stateRoot.record.entityBindings entityId).isSome)
    (.transaction .tombstoneInvalid)

def validateInventory (stateRoot : AcceptedStateRoot) (policyRoot : AcceptedPolicyRoot)
    (objects : List EntityObject) (tombstones : List EntityId) : Except CommitError Unit :=
  validateInventoryOf stateRoot policyRoot objects tombstones .supplied

def validateLoadedInventory (stateRoot : AcceptedStateRoot) (policyRoot : AcceptedPolicyRoot)
    (objects : List EntityObject) (tombstones : List EntityId) : Except CommitError Unit :=
  validateInventoryOf stateRoot policyRoot objects tombstones .loadedFromRoot

/-- The objects of the changed postimages, in order and without repeats. -/
def manifestForChanged (changed : List ChangedBinding) (objects : List EntityObject) :
    Except CommitError (List ObjectManifestEntry) := do
  let manifest ← (changed.filterMap ChangedBinding.postimage).mapM fun objectId ↦ do
    let object ← ofOption (.transaction .objectInventoryMismatch)
      (objects.reverse.find? fun object ↦ object.objectId = objectId)
    return { objectId, storedLength := UInt64.ofNat object.storedBytes.length :
      ObjectManifestEntry }
  return (manifest.mergeSort fun a b ↦ (compare a.objectId b.objectId).isLE).destutter
    fun a b ↦ a.objectId ≠ b.objectId

/-- The next tombstones, with what the proposed objects bind. -/
def nextTombstones (previous : List EntityId) (changed : List ChangedBinding)
    (proposedObjects : List EntityObject) : Except TransactionErrorCode (List EntityId) :=
  nextTombstonesFromRecords previous changed
    (proposedObjects.map fun object ↦ (object.record.entityId, object.objectId))

/-- `verify_bound_objects`: the object of every binding, from its bytes. -/
def verifyBoundObjects (receipt : ImportedReceipt) (byId : ObjectId → Option Bytes) :
    Except CommitError Unit := do
  let epoch := receipt.stateRoot.record.schemaEpochId
  let bound ← receipt.bindings.mapM fun (entityId, objectId) ↦ do
    let bytes ← ofOption (.transaction .objectInventoryMismatch) (byId objectId)
    let object ← (importEntityObject epoch bytes).mapError fun error ↦ .codec (.scb error)
    rejectIf (object.record.entityId ≠ entityId ∨ object.objectId ≠ objectId)
      (.transaction .objectInventoryMismatch)
    return object
  verifyManifestLengths receipt.objectManifest bound
  validateInventory receipt.stateRoot receipt.policyRoot bound receipt.tombstonedEntities

def verifyNativePins (bindings : Bindings) (pins : List NativeEvidencePin)
    (byId : ObjectId → Option Bytes) : Except CommitError Unit :=
  rejectIf (∃ pin ∈ pins, lookup bindings pin.testEntity ≠ some pin.testObject ∨
      lookup bindings pin.targetFunction ≠ some pin.targetObject ∨
      (byId pin.testObject).isNone ∨ (byId pin.targetObject).isNone)
    (.transaction .objectInventoryMismatch)

variable [ReceiptParts]

def verifyNativeReceiptAgainstObjects (receipt : ImportedNativeTransactionReceipt)
    (parent : Option ImportedReceipt) (byId : ObjectId → Option Bytes) :
    Except CommitError Unit := do
  let record := receipt.transaction.record
  rejectIf (record.transactionKind ≠ .ordinaryCandidate) (.transaction .parentShape)
  let summary ← ofCodec (ReceiptParts.verifyNativeEvidence receipt.transaction.transactionId record
    receipt.record.storedEvidenceBundle receipt.record.storedAdmissionContext
    receipt.record.storedCommitStatement)
  verifyOrdinaryRelationship record.toTransactionRecord (some receipt.candidate)
    receipt.stateRoot.record.entityBindings (parent.map AnyParent.ofAny)
  verifyBoundObjects (.v2 receipt) byId
  verifyNativePins receipt.stateRoot.record.entityBindings summary.pins byId

end

/-! ### Reading a repository -/

/-- What a repository holds: the accepted head, receipts and objects as bytes. -/
structure Repository where
  head : Option TransactionId
  receipts : TransactionId → Option Bytes
  objects : ObjectId → Option Bytes

/-- A revision with all of its objects, loaded and verified. -/
structure VerifiedRevision [HostLayout] where
  receipt : ImportedReceipt
  objects : List EntityObject

namespace VerifiedRevision

variable [HostLayout]

def transactionId (revision : VerifiedRevision) : TransactionId := revision.receipt.transactionId

def stateRoot (revision : VerifiedRevision) : AcceptedStateRoot := revision.receipt.stateRoot

def policyRoot (revision : VerifiedRevision) : AcceptedPolicyRoot := revision.receipt.policyRoot

def parentTransactionIds (revision : VerifiedRevision) : List TransactionId :=
  revision.receipt.transactionRecord.parentTransactionIds

end VerifiedRevision

section

variable [HostLayout] [CandidateLayout] [Blake3] [UnicodeNormalization] [ConformanceRegistry]
  [ReceiptParts]

namespace Repository

/-- One durable receipt, by `read`, under its own identity. -/
def readReceiptWith {ρ : Type} (read : Bytes → CodecResult ρ) (idOf : ρ → TransactionId)
    (repository : Repository) (transactionId : TransactionId) : Except CommitError ρ := do
  let bytes ← ofOption (.transaction .recoveryReceiptIncomplete)
    (repository.receipts transactionId)
  let receipt ← ofCodec (read bytes)
  rejectIf (idOf receipt ≠ transactionId) (.transaction .receiptBindingMismatch)
  return receipt

/-- `read_receipt_readonly`: format 1 only. -/
def readReceipt (repository : Repository) (transactionId : TransactionId) :
    Except CommitError ImportedTransactionReceipt :=
  repository.readReceiptWith importTransactionReceipt (·.transaction.transactionId) transactionId

/-- `read_receipt_any_readonly`. -/
def readReceiptAny (repository : Repository) (transactionId : TransactionId) :
    Except CommitError ImportedReceipt :=
  repository.readReceiptWith importReceiptAny ImportedReceipt.transactionId transactionId

/-- Every object the root binds, in binding order. -/
def loadObjects (repository : Repository) (root : AcceptedStateRoot) :
    Except CommitError (List EntityObject) :=
  root.record.entityBindings.mapM fun (entityId, objectId) ↦ do
    let bytes ← ofOption (.store .storeObjectNotFound) (repository.objects objectId)
    let object ← (importEntityObject root.record.schemaEpochId bytes).mapError
      fun error ↦ .store (.scb error)
    rejectIf (object.objectId ≠ objectId) (.store .storeObjectSubstitution)
    rejectIf (object.record.entityId ≠ entityId) (.transaction .objectInventoryMismatch)
    return object

/-- The objects of a revision, against its manifest, roots and tombstones. -/
def loadInventory (repository : Repository) (receipt : ImportedReceipt) :
    Except CommitError (List EntityObject) := do
  let objects ← repository.loadObjects receipt.stateRoot
  verifyManifestLengths receipt.objectManifest objects
  validateLoadedInventory receipt.stateRoot receipt.policyRoot objects receipt.tombstonedEntities
  return objects

/-- The receipt of the parent that a format-1 receipt names, in format 1. -/
def readParent (repository : Repository) (record : TransactionRecord) :
    Except CommitError (Option ImportedTransactionReceipt) :=
  match record.transactionKind with
  | .trustedGenesis => .ok none
  | .ordinaryCandidate => do
    let parentId ← ofOption (.transaction .parentShape) record.parentTransactionIds.head?
    let parent ← repository.readReceipt parentId
    return some parent

/-- `load_verified_revision`. -/
def loadAccepted (repository : Repository) (transactionId : TransactionId) :
    Except CommitError VerifiedRevision := do
  let receipt ← repository.readReceipt transactionId
  let parent ← repository.readParent receipt.transaction.record
  verifyTransactionRelationshipWithParent receipt parent
  let objects ← repository.loadInventory (.v1 receipt)
  return { receipt := .v1 receipt, objects }

/-- `load_verified_native_revision`. -/
def loadVerifiedNativeRevision (repository : Repository) (transactionId : TransactionId) :
    Except CommitError VerifiedRevision := do
  match ← repository.readReceiptAny transactionId with
  | .v1 _ => .error (.transaction .formatVersion)
  | .v2 receipt =>
    let objects ← repository.loadInventory (.v2 receipt)
    let parent ← receipt.transaction.record.parentTransactionIds.head?.mapM
      repository.readReceiptAny
    verifyNativeReceiptAgainstObjects receipt parent fun objectId ↦
      (objects.reverse.find? fun object ↦ object.objectId = objectId).map (·.storedBytes)
    return { receipt := .v2 receipt, objects }

end Repository

/-! ### Genesis -/

/-- Everything a genesis is trusted for. -/
structure TrustedGenesisInput where
  stateRoot : AcceptedStateRoot
  policyRoot : AcceptedPolicyRoot
  objects : List EntityObject
  tombstonedEntities : List EntityId

/-- What a successful judgment persists: objects, then the receipt, then the head. -/
structure Prepared (ρ : Type) where
  manifest : List ObjectManifestEntry
  objects : List EntityObject
  receipt : ρ

/-- `initialize_trusted_genesis`, up to what it persists. -/
def prepareGenesis (input : TrustedGenesisInput) :
    Except CommitError (Prepared ImportedTransactionReceipt) := do
  validateInventory input.stateRoot input.policyRoot input.objects input.tombstonedEntities
  let changedEntityBindings ← ofTransaction
    (deriveBindingDiff [] input.stateRoot.record.entityBindings none)
  let manifest ← manifestForChanged changedEntityBindings input.objects
  let transaction ← ofCodec (buildTransaction
    { formatVersion := 1
      transactionKind := .trustedGenesis
      workspaceId := input.stateRoot.record.workspaceId
      parentTransactionIds := []
      parentRoots := []
      schemaEpochId := input.stateRoot.record.schemaEpochId
      policyRootId := input.policyRoot.root
      principalId := none
      candidateId := none
      candidateResultId := none
      validationContextDigest := none
      validationProfileId := none
      committedRoot := input.stateRoot.root
      changedEntityBindings
      capabilitySummaryDigest := none
      selectedTests := []
      testResultRefs := []
      tombstonedEntities := input.tombstonedEntities
      commitMetadata := .restrictedV1 })
  let receipt ← ofCodec (buildTransactionReceipt
    { formatVersion := 1
      transactionId := transaction.transactionId
      storedTransaction := transaction.storedBytes
      storedCandidate := none
      storedCandidateResult := none
      storedStateRoot := input.stateRoot.storedBytes
      storedPolicyRoot := input.policyRoot.storedBytes
      objectManifest := manifest
      durabilityProfile := CommitMetadata.restrictedV1.durabilityProfile })
  return { manifest, objects := input.objects, receipt }

/-- What is settled before the objects of a genesis are persisted. -/
def planGenesis (input : TrustedGenesisInput) :
    Except CommitError (List ChangedBinding × List ObjectManifestEntry) := do
  validateInventory input.stateRoot input.policyRoot input.objects input.tombstonedEntities
  let changedEntityBindings ← ofTransaction
    (deriveBindingDiff [] input.stateRoot.record.entityBindings none)
  let manifest ← manifestForChanged changedEntityBindings input.objects
  return (changedEntityBindings, manifest)

/-- The receipt of a genesis, which is built after its objects are persisted. -/
def genesisReceipt (input : TrustedGenesisInput) (changedEntityBindings : List ChangedBinding)
    (manifest : List ObjectManifestEntry) : Except CommitError ImportedTransactionReceipt := do
  let transaction ← ofCodec (buildTransaction
    { formatVersion := 1
      transactionKind := .trustedGenesis
      workspaceId := input.stateRoot.record.workspaceId
      parentTransactionIds := []
      parentRoots := []
      schemaEpochId := input.stateRoot.record.schemaEpochId
      policyRootId := input.policyRoot.root
      principalId := none
      candidateId := none
      candidateResultId := none
      validationContextDigest := none
      validationProfileId := none
      committedRoot := input.stateRoot.root
      changedEntityBindings
      capabilitySummaryDigest := none
      selectedTests := []
      testResultRefs := []
      tombstonedEntities := input.tombstonedEntities
      commitMetadata := .restrictedV1 })
  ofCodec (buildTransactionReceipt
    { formatVersion := 1
      transactionId := transaction.transactionId
      storedTransaction := transaction.storedBytes
      storedCandidate := none
      storedCandidateResult := none
      storedStateRoot := input.stateRoot.storedBytes
      storedPolicyRoot := input.policyRoot.storedBytes
      objectManifest := manifest
      durabilityProfile := CommitMetadata.restrictedV1.durabilityProfile })

theorem prepareGenesis_eq (input : TrustedGenesisInput) : prepareGenesis input = do
      let (changedEntityBindings, manifest) ← planGenesis input
      let receipt ← genesisReceipt input changedEntityBindings manifest
      return { manifest, objects := input.objects, receipt } := by
  simp only [prepareGenesis, planGenesis, genesisReceipt, bind_assoc, pure_bind]

/-! ### Commit -/

section Commit

variable {Capability : Type} [ConformanceEpoch] [CandidateJudgment Capability]

structure CommitInput (Capability : Type) where
  expectedParent : TransactionId
  storedCandidate : Bytes
  principalId : PrincipalId
  capabilities : List Capability
  nowUnixMillis : UInt64
  limits : CandidateValidationLimits

/-- A fresh judgment of a candidate against an accepted base. -/
def judgeAgainst (base : VerifiedRevision) (input : CommitInput Capability) :
    Except CommitError
      (CandidateValidationContext Capability × ImportedCandidateResult × ValidatedCandidatePlan) := do
  let context ← (CandidateValidationContext.new
    { baseTransactionId := base.receipt.transactionId
      baseState := base.receipt.stateRoot
      baseObjects := base.objects
      tombstones := base.receipt.tombstonedEntities
      policy := base.receipt.policyRoot
      principalId := input.principalId
      capabilities := input.capabilities
      nowUnixMillis := input.nowUnixMillis
      limits := input.limits }).mapError .validation
  let validation ← (validateCandidateBytes context input.storedCandidate).mapError .validation
  rejectIf (¬ validation.isValid) (.candidateRejected validation)
  let plan ← ofOption (.transaction .internalInvariant) validation.plan
  return (context, validation.result, plan)

def operationEntityKindTag : UInt16 := 8

def carriesOperations (entities : List EntityObject) : Bool :=
  entities.any fun object ↦ object.record.body.kindTag = operationEntityKindTag

/-- What a plan records of the identities, after its base. -/
structure PlannedLedger where
  changedEntityBindings : List ChangedBinding
  manifest : List ObjectManifestEntry
  tombstones : List EntityId

def planLedger (base : VerifiedRevision) (plan : ValidatedCandidatePlan) :
    Except CommitError PlannedLedger := do
  let changedEntityBindings ← ofTransaction
    (deriveBindingDiff base.receipt.stateRoot.record.entityBindings
      plan.candidateRoot.record.entityBindings (some plan.candidate.record.operations))
  let manifest ← manifestForChanged changedEntityBindings plan.proposedState.entities
  let tombstones ← ofTransaction (nextTombstones base.receipt.tombstonedEntities
    changedEntityBindings plan.proposedState.entities)
  return { changedEntityBindings, manifest, tombstones }

/-- The transaction of a plan, apart from its tests, its format and its metadata. -/
def plannedTransaction (base : VerifiedRevision) (input : CommitInput Capability)
    (plan : ValidatedCandidatePlan) (result : ImportedCandidateResult) (ledger : PlannedLedger)
    (formatVersion : UInt32) (commitMetadata : CommitMetadata) (selectedTests : List EntityId)
    (testResultRefs : List TestReportId) : TransactionRecord where
  formatVersion := formatVersion
  transactionKind := .ordinaryCandidate
  workspaceId := plan.candidateRoot.record.workspaceId
  parentTransactionIds := [base.receipt.transactionId]
  parentRoots := [base.receipt.stateRoot.root]
  schemaEpochId := plan.candidateRoot.record.schemaEpochId
  policyRootId := base.receipt.policyRoot.root
  principalId := some input.principalId
  candidateId := some plan.candidate.candidateId
  candidateResultId := some result.candidateResultId
  validationContextDigest := some result.record.validationContextDigest
  validationProfileId := some result.record.validationProfileId
  committedRoot := plan.candidateRoot.root
  changedEntityBindings := ledger.changedEntityBindings
  capabilitySummaryDigest := some plan.candidate.record.capabilitySummaryDigest
  selectedTests := selectedTests
  testResultRefs := testResultRefs
  tombstonedEntities := ledger.tombstones
  commitMetadata := commitMetadata

/-- The common part of the receipt of a plan. -/
def plannedReceipt (base : VerifiedRevision) (plan : ValidatedCandidatePlan)
    (result : ImportedCandidateResult) (ledger : PlannedLedger) (formatVersion : UInt32)
    (transactionId : TransactionId) (storedTransaction : Bytes) : TransactionReceiptRecord where
  formatVersion := formatVersion
  transactionId := transactionId
  storedTransaction := storedTransaction
  storedCandidate := some plan.candidate.storedBytes
  storedCandidateResult := some result.storedBytes
  storedStateRoot := plan.candidateRoot.storedBytes
  storedPolicyRoot := base.receipt.policyRoot.storedBytes
  objectManifest := ledger.manifest
  durabilityProfile := durabilityProfileReceiptBeforeHeadV1

/-- `commit_inner`, up to what it persists. -/
def Repository.prepareCommit (repository : Repository) (input : CommitInput Capability) :
    Except CommitError (Prepared ImportedTransactionReceipt) := do
  let actual ← ofOption (.transaction .headMissing) repository.head
  rejectIf (actual ≠ input.expectedParent) (.staleRoot input.expectedParent actual)
  let base ← repository.loadAccepted actual
  let (_, result, plan) ← judgeAgainst base input
  rejectIf (result.record.selectedTests ≠ []) (.transaction .testEvidenceUnsupported)
  let commitMetadata := CommitMetadata.forProgram (carriesOperations plan.proposedState.entities)
  let ledger ← planLedger base plan
  let transaction ← ofCodec (buildTransaction (plannedTransaction base input plan result ledger 1
    commitMetadata result.record.selectedTests []))
  let receipt ← ofCodec (buildTransactionReceipt (plannedReceipt base plan result ledger 1
    transaction.transactionId transaction.storedBytes))
  return { manifest := ledger.manifest, objects := plan.proposedState.entities, receipt }

/-- What is settled before the objects of a commit are persisted. -/
structure CommitPlan where
  actual : TransactionId
  base : VerifiedRevision
  result : ImportedCandidateResult
  plan : ValidatedCandidatePlan
  ledger : PlannedLedger

def Repository.planCommit (repository : Repository) (input : CommitInput Capability) :
    Except CommitError CommitPlan := do
  let actual ← ofOption (.transaction .headMissing) repository.head
  rejectIf (actual ≠ input.expectedParent) (.staleRoot input.expectedParent actual)
  let base ← repository.loadAccepted actual
  let (_, result, plan) ← judgeAgainst base input
  rejectIf (result.record.selectedTests ≠ []) (.transaction .testEvidenceUnsupported)
  let ledger ← planLedger base plan
  return { actual, base, result, plan, ledger }

/-- The receipt of a commit, which is built after its objects are persisted. -/
def commitReceipt (input : CommitInput Capability) (planned : CommitPlan) :
    Except CommitError ImportedTransactionReceipt := do
  let commitMetadata := CommitMetadata.forProgram
    (carriesOperations planned.plan.proposedState.entities)
  let transaction ← ofCodec (buildTransaction (plannedTransaction planned.base input planned.plan
    planned.result planned.ledger 1 commitMetadata planned.result.record.selectedTests []))
  ofCodec (buildTransactionReceipt (plannedReceipt planned.base planned.plan planned.result
    planned.ledger 1 transaction.transactionId transaction.storedBytes))

theorem Repository.prepareCommit_eq (repository : Repository) (input : CommitInput Capability) :
    repository.prepareCommit input = do
      let planned ← repository.planCommit input
      let receipt ← commitReceipt input planned
      return {
        manifest := planned.ledger.manifest
        objects := planned.plan.proposedState.entities
        receipt } := by
  simp only [prepareCommit, planCommit, commitReceipt, bind_assoc, pure_bind]

/-! ### Native commit -/

/-- Accepted test evidence: the tests that ran, the report and the approval. -/
structure AcceptedEvidence where
  selectedTests : List EntityId
  reportId : TestReportId
  approvalId : NativeTestApprovalId

/-- The evidence of a receipt as bytes. -/
structure SignedEvidence where
  storedEvidenceBundle : Bytes
  storedAdmissionContext : Bytes
  storedCommitStatement : Bytes

/-- The plan, the journal, the executor and the signer of a native commit. -/
class NativeAdmission (Capability : Type) where
  /-- Select and run the tests of a valid plan; a rejection and every refusal is a failure. -/
  admission : VerifiedRevision → CandidateValidationContext Capability → ImportedCandidateResult →
    ValidatedCandidatePlan → Except CommitError AcceptedEvidence
  /-- Bundle the evidence and sign the admission of a transaction. -/
  sign : VerifiedRevision → CandidateValidationContext Capability → ImportedCandidateResult →
    ValidatedCandidatePlan → AcceptedEvidence → ImportedNativeTransaction →
    Except CommitError SignedEvidence

variable [NativeAdmission Capability]

/-- The verified revision a native commit builds on, of either format. -/
def Repository.loadParent (repository : Repository) (actual transactionId : TransactionId) :
    Except CommitError (ImportedReceipt × VerifiedRevision) := do
  let parent ← (repository.readReceiptAny transactionId).mapError fun error ↦
    if transactionId ≠ actual then .staleRoot transactionId actual else error
  let base ← match parent with
    | .v1 _ => repository.loadAccepted transactionId
    | .v2 _ => repository.loadVerifiedNativeRevision transactionId
  return (parent, base)

/-- `commit_native_inner`, up to what it persists. -/
def Repository.prepareNativeCommit (repository : Repository) (input : CommitInput Capability) :
    Except CommitError (Prepared ImportedNativeTransactionReceipt) := do
  let actual ← ofOption (.transaction .headMissing) repository.head
  let (parent, base) ← repository.loadParent actual input.expectedParent
  let (context, result, plan) ← judgeAgainst base input
  -- the parent may have moved since the attempt was admitted
  rejectIf (actual ≠ input.expectedParent) (.staleRoot input.expectedParent actual)
  let evidence ← NativeAdmission.admission base context result plan
  let ledger ← planLedger base plan
  let transaction ← ofCodec (buildNativeTransaction
    { plannedTransaction base input plan result ledger nativeFormatVersion .nativeV1
        evidence.selectedTests [evidence.reportId] with
      nativeApprovalId := evidence.approvalId })
  let signed ← NativeAdmission.sign base context result plan evidence transaction
  let receipt ← ofCodec (buildNativeTransactionReceipt
    { plannedReceipt base plan result ledger nativeFormatVersion transaction.transactionId
        transaction.storedBytes with
      storedEvidenceBundle := signed.storedEvidenceBundle
      storedAdmissionContext := signed.storedAdmissionContext
      storedCommitStatement := signed.storedCommitStatement })
  verifyNativeReceiptAgainstObjects receipt (some parent) fun objectId ↦
    (plan.proposedState.entities.reverse.find? fun object ↦ object.objectId = objectId).map
      (·.storedBytes)
  return { manifest := ledger.manifest, objects := plan.proposedState.entities, receipt }

end Commit

end

end Sley.Txn
