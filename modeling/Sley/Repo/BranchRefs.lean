import Sley.Lib.Crash
import Sley.Lib.SortUnique
import Sley.Repo.BranchRecord
import Sley.Txn.Commit

/-!
# Branches and their refs

Creating, advancing and recovering branches (`sley-repo/src/refs.rs`), each as a program on a disk
that may be cut short after any durable step. A branch is two files under the digest of its name:
the record of its origin, which is linked into place and never written again, and its ref, which is
linked when the branch is created and then replaced by a rename.

The lock on the refs is what makes one call run at a time; the lock files, the directories and their
counts are not modelled, so every path that exists is a regular file. What the calls ask of the
transactions of the repository is a parameter, `TransactionRepository`.
-/

namespace Sley.Repo

open Scb1 Ssmc Mutate Root Policy Txn
open Except (ofOption rejectIf)

/-! ### Paths -/

/-- `SLEYBNM1`. -/
def nameKeyMagic : Bytes := [0x53, 0x4c, 0x45, 0x59, 0x42, 0x4e, 0x4d, 0x31]

def nameKeyDomain : Bytes := textBytes "sley2.branch-name-path.v1"

/-- The domain-separated host-path key. -/
def BranchName.pathKey [Blake3] (name : BranchName) : Digest :=
  digest nameKeyDomain
    (nameKeyMagic ++ encodeUvar envelopeVersion ++ encodeCount name.bytes.length ++ name.bytes)

/-- Where the files of branches are, with the key of the name they are under. -/
inductive BranchPath
  | branch (key : Digest)
  | branchStage (token : Nat)
  | ref (key : Digest)
  | refStage (token : Nat)
  deriving DecidableEq

namespace BranchPath

def isBranchStage : BranchPath → Bool
  | branchStage _ => true
  | _ => false

def isRefStage : BranchPath → Bool
  | refStage _ => true
  | _ => false

/-- A file that a crash may leave and a recovery removes. -/
def isStage (path : BranchPath) : Bool := path.isBranchStage || path.isRefStage

def branchKey? : BranchPath → Option Digest
  | branch key => some key
  | _ => none

def refKey? : BranchPath → Option Digest
  | ref key => some key
  | _ => none

end BranchPath

abbrev BranchFiles := Disk BranchPath Bytes

/-- The keys of the origins, in ascending order. -/
def BranchFiles.branches (files : BranchFiles) : List Digest :=
  (files.keys.filterMap BranchPath.branchKey?).mergeSort fun a b ↦ (compare a b).isLE

/-- The keys of the visible refs, in ascending order. -/
def BranchFiles.refs (files : BranchFiles) : List Digest :=
  (files.keys.filterMap BranchPath.refKey?).mergeSort fun a b ↦ (compare a b).isLE

/-! ### The transactions of a repository -/

/-- The facts that a branch record states of a revision. -/
structure RecoveryRevisionClaim where
  transactionId : TransactionId
  workspaceId : WorkspaceId
  stateRoot : StateRoot
  schemaEpochId : SchemaEpochId
  policyRootId : PolicyRootId
  dependencyRoots : List StateRoot

structure RecoveryAncestryRequest where
  firstClaim : RecoveryRevisionClaim
  headClaim : RecoveryRevisionClaim

section

variable [HostLayout]

inductive RecoveryAncestryError
  | cycle
  | limitExceeded
  | claimMismatch (requestIndex claimIndex : Nat)
  | verification (error : CommitError)

/-- What branches ask of the transactions of their repository. -/
structure TransactionRepository where
  incompleteCloneMarkerPresent : Except CommitError Bool
  verifiedRevision : TransactionId → Except CommitError VerifiedRevision
  /-- The number of transactions verified. -/
  verifyBranchRecoveryAncestries : List RecoveryAncestryRequest → Except RecoveryAncestryError Nat

/-- Failure of a branch operation. -/
inductive BranchError
  | branch (code : BranchErrorCode)
  | transaction (error : CommitError)
  | io

abbrev BranchAction := Durably BranchFiles BranchError

/-- The code fails with a code of its own. -/
def ofBranch {α : Type} (x : BranchResult α) : BranchAction α := .ofExcept (x.mapError .branch)

/-- Stop with this code if the condition holds. -/
def branchRejectIf (c : Prop) [Decidable c] (code : BranchErrorCode) : BranchAction Unit :=
  ofBranch (rejectIf c code)

def requireNotIncompleteClone (transactions : TransactionRepository) : BranchAction Unit := do
  let present ← .ofExcept (transactions.incompleteCloneMarkerPresent.mapError .transaction)
  .ofExcept (rejectIf (present = true) (.transaction (.transaction .incompleteClone)))

/-- `verified_revision_with_maintenance`. -/
def verifiedRevision (transactions : TransactionRepository) (transactionId : TransactionId) :
    BranchAction VerifiedRevision :=
  .ofExcept ((transactions.verifiedRevision transactionId).mapError .transaction)

/-! ### Records of revisions -/

def originRecord (name : BranchName) (revision : VerifiedRevision) : BranchRecord where
  formatVersion := recordVersion
  branchName := name
  workspaceId := revision.stateRoot.record.workspaceId
  originTransactionId := revision.transactionId
  originStateRoot := revision.stateRoot.root
  schemaEpochId := revision.stateRoot.record.schemaEpochId
  policyRootId := revision.policyRoot.root
  dependencyRoots := revision.stateRoot.record.dependencyRoots

def refRecord (name : BranchName) (branchRecordDigest : BranchRecordDigest)
    (revision : VerifiedRevision) : BranchRefRecord where
  formatVersion := recordVersion
  branchName := name
  branchRecordDigest := branchRecordDigest
  workspaceId := revision.stateRoot.record.workspaceId
  headTransactionId := revision.transactionId
  headStateRoot := revision.stateRoot.root
  schemaEpochId := revision.stateRoot.record.schemaEpochId
  policyRootId := revision.policyRoot.root
  dependencyRoots := revision.stateRoot.record.dependencyRoots

def verifyOriginTarget (record : BranchRecord) (revision : VerifiedRevision) : BranchResult Unit :=
  rejectIf (record ≠ originRecord record.branchName revision) .branchOriginMismatch

def verifyRefTarget (record : BranchRefRecord) (revision : VerifiedRevision) : BranchResult Unit :=
  rejectIf (record ≠ refRecord record.branchName record.branchRecordDigest revision)
    .refTargetMismatch

def validateOriginRefBinding (origin : ImportedBranchRecord) (reference : ImportedBranchRef) :
    BranchResult Unit :=
  rejectIf (origin.record.branchName ≠ reference.record.branchName ∨
      origin.digest ≠ reference.record.branchRecordDigest)
    .refBranchBindingMismatch

/-! ### Files -/

def pathExists (path : BranchPath) : BranchAction Bool := .ofState fun files ↦
  .ok (files.lookup path).isSome

def boundedRead (path : BranchPath) (maximum : Nat) : BranchAction Bytes := .ofState fun files ↦
  match files.lookup path with
  | none => .error .io
  | some bytes => do
    rejectIf (bytes.length > maximum) (.branch .branchResourceLimit)
    return bytes

def syncAll : BranchAction Unit := .step Disk.sync

/-- The file under a stage name is reserved and filled. -/
def writeStage (stage : Nat → BranchPath) (bytes : Bytes) : BranchAction BranchPath :=
  Disk.stageFile (.branch .refIo) [] bytes stage

/-- Link a verified stage under its final name, where there may be the same file already. -/
def persistNoOverwrite (finalPath : BranchPath) (bytes : Bytes) (stage : Nat → BranchPath)
    (collisionCode : BranchErrorCode) (verify : Bytes → BranchResult Unit) :
    BranchAction Unit := do
  let stagePath ← writeStage stage bytes
  let staged ← boundedRead stagePath maxStandaloneBytes
  ofBranch (verify staged)
  if ← pathExists finalPath then
    let existing ← boundedRead finalPath maxStandaloneBytes
    branchRejectIf (existing ≠ bytes) collisionCode
    ofBranch (verify existing)
    syncAll
    .step (Disk.unlink stagePath)
    syncAll
  else
    .step (Disk.link stagePath finalPath)
    syncAll
    .step (Disk.unlink stagePath)
    syncAll
    let finalBytes ← boundedRead finalPath maxStandaloneBytes
    branchRejectIf (finalBytes ≠ bytes) collisionCode
    ofBranch (verify finalBytes)

/-- The bytes are read back as what they were written from. -/
def checkImport {ρ : Type} [DecidableEq ρ] (read : Bytes → BranchResult (ImportedRecord ρ))
    (expected : ImportedRecord ρ) (code : BranchErrorCode) (bytes : Bytes) : BranchResult Unit := do
  let imported ← read bytes
  rejectIf (imported ≠ expected) code

def redurabilizeRecord (path : BranchPath) (expected : Bytes)
    (verify : Bytes → BranchResult Unit) : BranchAction Unit := do
  let first ← boundedRead path maxStandaloneBytes
  branchRejectIf (first ≠ expected) .refInternalInvariant
  ofBranch (verify first)
  syncAll
  syncAll
  let second ← boundedRead path maxStandaloneBytes
  branchRejectIf (second ≠ expected) .refInternalInvariant
  ofBranch (verify second)

section

variable [Blake3]

def persistExpectedRef (path : BranchPath) (expected : ImportedBranchRef) : BranchAction Unit :=
  persistNoOverwrite path expected.storedBytes .refStage .refAlreadyExists
    (checkImport importBranchRef expected .refAlreadyExists)

def redurabilizeBranch (path : BranchPath) (expected : ImportedBranchRecord) : BranchAction Unit :=
  redurabilizeRecord path expected.storedBytes
    (checkImport importBranchRecord expected .branchOriginMismatch)

def redurabilizeRef (path : BranchPath) (expected : ImportedBranchRef) : BranchAction Unit :=
  redurabilizeRecord path expected.storedBytes
    (checkImport importBranchRef expected .refTargetMismatch)

/-- Rename a verified stage over the ref. -/
def replaceRef (path : BranchPath) (expected : ImportedBranchRef) : BranchAction Unit := do
  let stagePath ← writeStage .refStage expected.storedBytes
  let staged ← boundedRead stagePath maxStandaloneBytes
  ofBranch (checkImport importBranchRef expected .refInternalInvariant staged)
  .step (Disk.rename stagePath path)
  syncAll
  let bytes ← boundedRead path maxStandaloneBytes
  ofBranch (checkImport importBranchRef expected .refInternalInvariant bytes)

/-- The origin at a path, under its own name. -/
def readBranchAt (path : BranchPath) : BranchAction ImportedBranchRecord := do
  let bytes ← boundedRead path maxStandaloneBytes
  let imported ← ofBranch (importBranchRecord bytes)
  branchRejectIf (.branch imported.record.branchName.pathKey ≠ path) .refNameCollision
  return imported

def readRefAt (path : BranchPath) : BranchAction ImportedBranchRef := do
  let bytes ← boundedRead path maxStandaloneBytes
  let imported ← ofBranch (importBranchRef bytes)
  branchRejectIf (.ref imported.record.branchName.pathKey ≠ path) .refNameCollision
  return imported

/-! ### Resolving a branch -/

/-- One fully resolved visible branch. -/
structure ResolvedBranch where
  origin : ImportedBranchRecord
  reference : ImportedBranchRef
  revision : VerifiedRevision

def resolveLocked (transactions : TransactionRepository) (name : BranchName) :
    BranchAction ResolvedBranch := do
  let refExists ← pathExists (.ref name.pathKey)
  branchRejectIf (¬ refExists) .refNotFound
  let branchExists ← pathExists (.branch name.pathKey)
  branchRejectIf (¬ branchExists) .recoveryNamedRefIncomplete
  let origin ← readBranchAt (.branch name.pathKey)
  let reference ← readRefAt (.ref name.pathKey)
  branchRejectIf (origin.record.branchName ≠ name ∨ reference.record.branchName ≠ name)
    .refNameCollision
  ofBranch (validateOriginRefBinding origin reference)
  let originRevision ← verifiedRevision transactions origin.record.originTransactionId
  ofBranch (verifyOriginTarget origin.record originRevision)
  let revision ← verifiedRevision transactions reference.record.headTransactionId
  ofBranch (verifyRefTarget reference.record revision)
  branchRejectIf (reference.record.workspaceId ≠ origin.record.workspaceId) .branchOriginMismatch
  return { origin, reference, revision }

/-! ### Creating a branch -/

/-- What a branch operation did. -/
inductive BranchUpdateStatus
  | created
  | advanced
  | present
  deriving DecidableEq

def maxBranches : Nat := 4096

def maxBranchOrigins : Nat := 65536

def validateNewOriginCapacity : BranchAction Unit := .ofState fun files ↦
  rejectIf (files.branches.length ≥ maxBranchOrigins) (.branch .branchResourceLimit)

def validateNewVisibleCapacity : BranchAction Unit := .ofState fun files ↦
  rejectIf (files.refs.length ≥ maxBranches) (.branch .branchResourceLimit)

/-- The branch is there already. -/
def resolveExistingCreate (transactions : TransactionRepository) (requestedOrigin : TransactionId)
    (key : Digest) (origin : ImportedBranchRecord) (reference : ImportedBranchRef) :
    BranchAction BranchUpdateStatus := do
  ofBranch (validateOriginRefBinding origin reference)
  let originRevision ← verifiedRevision transactions origin.record.originTransactionId
  ofBranch (verifyOriginTarget origin.record originRevision)
  let current ← verifiedRevision transactions reference.record.headTransactionId
  ofBranch (verifyRefTarget reference.record current)
  branchRejectIf (reference.record.workspaceId ≠ origin.record.workspaceId ∨
      origin.record.originTransactionId ≠ requestedOrigin)
    .branchOriginMismatch
  branchRejectIf (reference.record.headTransactionId ≠ requestedOrigin) .refAlreadyExists
  redurabilizeBranch (.branch key) origin
  redurabilizeRef (.ref key) reference
  return .present

/-- Publish the first ref, and look at what is visible then. -/
def publishFirstRef (transactions : TransactionRepository) (name : BranchName)
    (desiredRef : ImportedBranchRef) : BranchAction BranchUpdateStatus := do
  persistExpectedRef (.ref name.pathKey) desiredRef
  let visible ← resolveLocked transactions name
  branchRejectIf (visible.reference ≠ desiredRef) .refInternalInvariant
  return .created

/-- The origin is there, and no ref. -/
def finishOrphanCreate (transactions : TransactionRepository) (name : BranchName)
    (requestedOrigin : TransactionId) (origin : ImportedBranchRecord) :
    BranchAction BranchUpdateStatus := do
  let revision ← verifiedRevision transactions origin.record.originTransactionId
  ofBranch (verifyOriginTarget origin.record revision)
  branchRejectIf (origin.record.originTransactionId ≠ requestedOrigin) .branchOriginMismatch
  validateNewVisibleCapacity
  redurabilizeBranch (.branch name.pathKey) origin
  let desiredRef ← ofBranch (buildBranchRef (refRecord name origin.digest revision))
  publishFirstRef transactions name desiredRef

def createFresh (transactions : TransactionRepository) (name : BranchName)
    (originTransactionId : TransactionId) : BranchAction BranchUpdateStatus := do
  let revision ← verifiedRevision transactions originTransactionId
  let desiredOrigin ← ofBranch (buildBranchRecord (originRecord name revision))
  let desiredRef ← ofBranch (buildBranchRef (refRecord name desiredOrigin.digest revision))
  validateNewOriginCapacity
  validateNewVisibleCapacity
  persistNoOverwrite (.branch name.pathKey) desiredOrigin.storedBytes .branchStage
    .branchOriginMismatch (checkImport importBranchRecord desiredOrigin .branchOriginMismatch)
  publishFirstRef transactions name desiredRef

/-- Creates one named branch at an already durable verified transaction. -/
def createBranch (transactions : TransactionRepository) (name : Bytes)
    (originTransactionId : TransactionId) : BranchAction BranchUpdateStatus := do
  let name ← ofBranch (BranchName.parse name)
  requireNotIncompleteClone transactions
  let branchExists ← pathExists (.branch name.pathKey)
  let refExists ← pathExists (.ref name.pathKey)
  branchRejectIf (refExists ∧ ¬ branchExists) .recoveryNamedRefIncomplete
  if branchExists then
    let origin ← readBranchAt (.branch name.pathKey)
    if refExists then
      let reference ← readRefAt (.ref name.pathKey)
      resolveExistingCreate transactions originTransactionId name.pathKey origin reference
    else
      finishOrphanCreate transactions name originTransactionId origin
  else
    createFresh transactions name originTransactionId

/-! ### Advancing a branch -/

/-- Advances one visible branch by an exact direct-parent compare-and-swap. -/
def advanceBranch (transactions : TransactionRepository) (name : Bytes)
    (expectedHead newHead : TransactionId) : BranchAction BranchUpdateStatus := do
  let name ← ofBranch (BranchName.parse name)
  requireNotIncompleteClone transactions
  let current ← resolveLocked transactions name
  if current.reference.record.headTransactionId = newHead then
    redurabilizeBranch (.branch name.pathKey) current.origin
    redurabilizeRef (.ref name.pathKey) current.reference
    return .present
  else
    branchRejectIf (current.reference.record.headTransactionId ≠ expectedHead) .refNamedCasStale
    let revision ← verifiedRevision transactions newHead
    branchRejectIf (revision.stateRoot.record.workspaceId ≠ current.origin.record.workspaceId)
      .branchOriginMismatch
    branchRejectIf (revision.parentTransactionIds.count expectedHead ≠ 1) .branchNotFastForward
    let desired ← ofBranch (buildBranchRef (refRecord name current.origin.digest revision))
    replaceRef (.ref name.pathKey) desired
    let visible ← resolveLocked transactions name
    branchRejectIf (visible.reference ≠ desired) .refInternalInvariant
    return .advanced

/-! ### Recovering the refs -/

/-- Ceilings of one recovery. -/
structure RefRecoveryLimits where
  originLeafEntries : Nat
  finalOrigins : Nat
  originStages : Nat
  originRecordBytes : Nat
  refLeafEntries : Nat
  refStages : Nat
  visibleRefRecordBytes : Nat
  orphanOrigins : Nat
  visibleBranches : Nat

def refRecoveryLimits : RefRecoveryLimits where
  originLeafEntries := 131072
  finalOrigins := 65536
  originStages := 65536
  originRecordBytes := 1073741824
  refLeafEntries := 69632
  refStages := 65536
  visibleRefRecordBytes := 268435456
  orphanOrigins := 65536
  visibleBranches := 4096

/-- What a recovery has read so far. -/
structure RefRecoveryUsage where
  originRecordBytes : Nat
  visibleRefRecordBytes : Nat
  orphanOrigins : Nat
  visibleBranches : Nat

/-- One immutable origin record with no visible ref. -/
structure OrphanBranchOrigin where
  branchName : BranchName
  branchRecordDigest : BranchRecordDigest
  originTransactionId : TransactionId

structure RefRecoveryReport where
  removedBranchStages : Nat
  removedRefStages : Nat
  visibleBranches : Nat
  orphanOrigins : List OrphanBranchOrigin
  verifiedAncestryTransactions : Nat

structure RecoveryVisibleBranch where
  origin : ImportedBranchRecord
  reference : ImportedBranchRef

structure RefRecordPreflight where
  visible : List RecoveryVisibleBranch
  orphanOrigins : List OrphanBranchOrigin

def ensureRefRecoveryLimit (value limit : Nat) : Except BranchError Unit :=
  rejectIf (value > limit) (.branch .branchResourceLimit)

/-- A file of a recovery: its length is charged before it is read. -/
def recoveryRead (files : BranchFiles) (path : BranchPath) : Except BranchError Bytes :=
  ofOption .io (files.lookup path)

def recoveryImport {ρ : Type} (read : Bytes → BranchResult ρ) (bytes : Bytes) :
    Except BranchError ρ := do
  rejectIf (bytes.length > maxStandaloneBytes) (.branch .branchResourceLimit)
  (read bytes).mapError .branch

def readRecoveryVisibleRef (files : BranchFiles) (limits : RefRecoveryLimits)
    (usage : RefRecoveryUsage) (key : Digest) :
    Except BranchError (RefRecoveryUsage × ImportedBranchRef) := do
  let bytes ← recoveryRead files (.ref key)
  ensureRefRecoveryLimit (usage.visibleBranches + 1) limits.visibleBranches
  ensureRefRecoveryLimit (usage.visibleRefRecordBytes + bytes.length) limits.visibleRefRecordBytes
  let reference ← recoveryImport importBranchRef bytes
  return ({ usage with
    visibleBranches := usage.visibleBranches + 1
    visibleRefRecordBytes := usage.visibleRefRecordBytes + bytes.length }, reference)

def readRecoveryVisibleOrigin (files : BranchFiles) (limits : RefRecoveryLimits)
    (usage : RefRecoveryUsage) (key : Digest) :
    Except BranchError (RefRecoveryUsage × ImportedBranchRecord) := do
  let bytes ← recoveryRead files (.branch key)
  ensureRefRecoveryLimit (usage.originRecordBytes + bytes.length) limits.originRecordBytes
  let origin ← recoveryImport importBranchRecord bytes
  return ({ usage with originRecordBytes := usage.originRecordBytes + bytes.length }, origin)

def readRecoveryOrphanOrigin (files : BranchFiles) (limits : RefRecoveryLimits)
    (usage : RefRecoveryUsage) (key : Digest) :
    Except BranchError (RefRecoveryUsage × ImportedBranchRecord) := do
  let bytes ← recoveryRead files (.branch key)
  ensureRefRecoveryLimit (usage.orphanOrigins + 1) limits.orphanOrigins
  ensureRefRecoveryLimit (usage.originRecordBytes + bytes.length) limits.originRecordBytes
  let origin ← recoveryImport importBranchRecord bytes
  return ({ usage with
    orphanOrigins := usage.orphanOrigins + 1
    originRecordBytes := usage.originRecordBytes + bytes.length }, origin)

/-- The branch of a visible ref: the origin under the same name. -/
def readRecoveryVisibleBranch (files : BranchFiles) (limits : RefRecoveryLimits)
    (originKeys : List Digest) (usage : RefRecoveryUsage) (reference : ImportedBranchRef) :
    Except BranchError (RefRecoveryUsage × RecoveryVisibleBranch) := do
  let key := reference.record.branchName.pathKey
  rejectIf (key ∉ originKeys) (.branch .recoveryNamedRefIncomplete)
  let (usage, origin) ← readRecoveryVisibleOrigin files limits usage key
  rejectIf (origin.record.branchName ≠ reference.record.branchName)
    (.branch .refNameCollision)
  (validateOriginRefBinding origin reference).mapError .branch
  return (usage, { origin, reference })

/-- One value after another, with the usage of all before. -/
def withUsage {γ β : Type}
    (read : RefRecoveryUsage → γ → Except BranchError (RefRecoveryUsage × β)) :
    RefRecoveryUsage → List γ → Except BranchError (RefRecoveryUsage × List β)
  | usage, [] => .ok (usage, [])
  | usage, x :: xs => do
    let (usage, value) ← read usage x
    let (usage, values) ← withUsage read usage xs
    return (usage, value :: values)

def preflightRefRecords (files : BranchFiles) (limits : RefRecoveryLimits)
    (originKeys refKeys : List Digest) : Except BranchError RefRecordPreflight := do
  let (usage, references) ← withUsage (readRecoveryVisibleRef files limits) ⟨0, 0, 0, 0⟩ refKeys
  let references ← ofOption (.branch .refNameCollision)
    (sortUnique (fun reference ↦ reference.record.branchName.bytes) references)
  let (usage, visible) ← withUsage (readRecoveryVisibleBranch files limits originKeys) usage
    references
  let consumed := visible.map fun branch ↦ branch.origin.record.branchName.pathKey
  let (_, orphans) ← withUsage (readRecoveryOrphanOrigin files limits) usage
    (originKeys.filter (· ∉ consumed))
  let orphanOrigins := orphans.map fun origin ↦
    ({ branchName := origin.record.branchName
       branchRecordDigest := origin.digest
       originTransactionId := origin.record.originTransactionId } : OrphanBranchOrigin)
  return {
    visible
    orphanOrigins := orphanOrigins.mergeSort fun a b ↦
      (compare a.branchName.bytes b.branchName.bytes).isLE }

def RecoveryVisibleBranch.ancestryRequest (branch : RecoveryVisibleBranch) :
    RecoveryAncestryRequest where
  firstClaim :=
    { transactionId := branch.origin.record.originTransactionId
      workspaceId := branch.origin.record.workspaceId
      stateRoot := branch.origin.record.originStateRoot
      schemaEpochId := branch.origin.record.schemaEpochId
      policyRootId := branch.origin.record.policyRootId
      dependencyRoots := branch.origin.record.dependencyRoots }
  headClaim :=
    { transactionId := branch.reference.record.headTransactionId
      workspaceId := branch.reference.record.workspaceId
      stateRoot := branch.reference.record.headStateRoot
      schemaEpochId := branch.reference.record.schemaEpochId
      policyRootId := branch.reference.record.policyRootId
      dependencyRoots := branch.reference.record.dependencyRoots }

def mapRecoveryAncestryError : RecoveryAncestryError → BranchError
  | .cycle => .branch .branchAncestryCycle
  | .limitExceeded => .branch .branchResourceLimit
  | .claimMismatch _ 0 => .branch .branchOriginMismatch
  | .claimMismatch _ 1 => .branch .refTargetMismatch
  | .claimMismatch _ _ => .branch .refInternalInvariant
  | .verification error => .transaction error

/-- The keys of the origins, and the stage files to remove. -/
def scanOrigins (files : BranchFiles) (limits : RefRecoveryLimits) :
    Except BranchError (List Digest × List BranchPath) := do
  let finals := files.branches
  let stages := files.keys.filter BranchPath.isBranchStage
  ensureRefRecoveryLimit (finals.length + stages.length) limits.originLeafEntries
  ensureRefRecoveryLimit finals.length limits.finalOrigins
  ensureRefRecoveryLimit stages.length limits.originStages
  return (finals, stages)

def scanRefs (files : BranchFiles) (limits : RefRecoveryLimits) :
    Except BranchError (List Digest × List BranchPath) := do
  let finals := files.refs
  let stages := files.keys.filter BranchPath.isRefStage
  ensureRefRecoveryLimit (finals.length + stages.length) limits.refLeafEntries
  ensureRefRecoveryLimit stages.length limits.refStages
  return (finals, stages)

/-- Remove what was planned, and flush. -/
def removePlannedStages (plan : List BranchPath) : BranchAction Unit := do
  plan.forM fun path ↦ .step (Disk.unlink path)
  syncAll

/-- `recover_refs_with_maintenance_and_limits`. -/
def recoverRefs (transactions : TransactionRepository) (limits : RefRecoveryLimits) :
    BranchAction RefRecoveryReport := do
  requireNotIncompleteClone transactions
  let (originKeys, originStages) ← .ofState fun files ↦ scanOrigins files limits
  let (refKeys, refStages) ← .ofState fun files ↦ scanRefs files limits
  let preflight ← .ofState fun files ↦ preflightRefRecords files limits originKeys refKeys
  let verified ← .ofExcept ((transactions.verifyBranchRecoveryAncestries
    (preflight.visible.map RecoveryVisibleBranch.ancestryRequest)).mapError
      mapRecoveryAncestryError)
  removePlannedStages originStages
  removePlannedStages refStages
  return {
    removedBranchStages := originStages.length
    removedRefStages := refStages.length
    visibleBranches := preflight.visible.length
    orphanOrigins := preflight.orphanOrigins
    verifiedAncestryTransactions := verified }

end

end

end Sley.Repo
