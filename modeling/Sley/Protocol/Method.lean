import Mathlib
import Sley.Lib.Outcome

/-!
# The method table of the machine protocol

Failure codes, versions, feature bits and the frozen method table (`sley-protocol/src/lib.rs`).
There are two tables: `Method.ALL` is the one of version 1, and `Method.V3_ALL` has in addition the
methods that later versions introduced. **Every method is in the second table under its own tag**
(`mem_V3_ALL`, `find?_tag_eq_some`), and in the first exactly when version 1 introduced it
(`mem_ALL_iff`).
-/

namespace Sley.Protocol

/-- `ProtocolErrorCode`; the source wraps it as `ProtocolError`. -/
inductive ProtocolErrorCode
  | versionUnsupported
  | frameInvalid
  | frameTooLarge
  | noCommonProfile
  | downgrade
  | requestIdConflict
  | sessionClosed
  | methodUnsupported
  | payloadInvalid
  | limitExceeded
  | cancelled
  | internalInvariant
  deriving DecidableEq, Repr

abbrev Result (α : Type) := Except ProtocolErrorCode α

/-! ### Versions, tags and feature bits -/

def protocolVersion : UInt32 := 1

def protocolVersionV2 : UInt32 := 2

def protocolVersionV3 : UInt32 := 3

def entityVersionTag : UInt32 := 306

def entitySignatureTag : UInt32 := 307

def testsSelectedTag : UInt32 := 601

def testsAffectedTag : UInt32 := 602

def testsReportReadTag : UInt32 := 605

def testsReplayTag : UInt32 := 606

def testsAttemptStatusTag : UInt32 := 607

def featureCancel : UInt32 := 1

def featureStream : UInt32 := 2

def featureJsonBridge : UInt32 := 4

def featureChecksum : UInt32 := 8

def featureExtendedExecute : UInt32 := 16

/-- The session negotiates the native test methods. -/
def featureNativeTestsV1 : UInt32 := 32

def featureMask : UInt32 :=
  featureCancel ||| featureStream ||| featureJsonBridge ||| featureChecksum |||
    featureExtendedExecute ||| featureNativeTestsV1

/-! ### Methods -/

/-- The frozen method table. -/
inductive Method
  | sessionOpen
  | sessionRenew
  | sessionClose
  | sessionCapabilities
  | sessionBudgets
  | workspaceCreate
  | workspaceOpen
  | refsList
  | refsResolve
  | revisionRead
  | branchCreate
  | branchAdvance
  | compare
  | mergeJudge
  | mergeCommit
  | exchangeExport
  | exchangeImport
  | gcDryRun
  | gcCollect
  | refsRecover
  | queryRoot
  | queryContinue
  | capsule
  | queryRestricted
  | handleExpand
  | diagnostics
  | candidateCreate
  | candidateAppend
  | candidateValidate
  | candidateInspect
  | candidateDiscard
  | commit
  | receiptRead
  | checkout
  | refMoveProtected
  | recovery
  | execute
  | testsSelected
  | testsAffected
  | cancel
  | report
  | testsReportRead
  | testsReplay
  | testsAttemptStatus
  | entityVersion
  | entitySignature
  deriving DecidableEq, Repr

namespace Method

/-- The version-1 table. -/
def ALL : List Method :=
  [sessionOpen, sessionRenew, sessionClose, sessionCapabilities, sessionBudgets, workspaceCreate,
    workspaceOpen, refsList, refsResolve, revisionRead, branchCreate, branchAdvance, compare,
    mergeJudge, mergeCommit, exchangeExport, exchangeImport, gcDryRun, gcCollect, refsRecover,
    queryRoot, queryContinue, capsule, queryRestricted, handleExpand, diagnostics, candidateCreate,
    candidateAppend, candidateValidate, candidateInspect, candidateDiscard, commit, receiptRead,
    checkout, refMoveProtected, recovery, execute, testsSelected, testsAffected, cancel, report]

/-- The version-3 table, in tag order. -/
def V3_ALL : List Method :=
  [sessionOpen, sessionRenew, sessionClose, sessionCapabilities, sessionBudgets, workspaceCreate,
    workspaceOpen, refsList, refsResolve, revisionRead, branchCreate, branchAdvance, compare,
    mergeJudge, mergeCommit, exchangeExport, exchangeImport, gcDryRun, gcCollect, refsRecover,
    queryRoot, queryContinue, capsule, queryRestricted, handleExpand, diagnostics, entityVersion,
    entitySignature, candidateCreate, candidateAppend, candidateValidate, candidateInspect,
    candidateDiscard, commit, receiptRead, checkout, refMoveProtected, recovery, execute,
    testsSelected, testsAffected, cancel, report, testsReportRead, testsReplay, testsAttemptStatus]

def tag : Method → UInt32
  | sessionOpen => 100
  | sessionRenew => 101
  | sessionClose => 102
  | sessionCapabilities => 103
  | sessionBudgets => 104
  | workspaceCreate => 200
  | workspaceOpen => 201
  | refsList => 202
  | refsResolve => 203
  | revisionRead => 204
  | branchCreate => 205
  | branchAdvance => 206
  | compare => 207
  | mergeJudge => 208
  | mergeCommit => 209
  | exchangeExport => 210
  | exchangeImport => 211
  | gcDryRun => 212
  | gcCollect => 213
  | refsRecover => 214
  | queryRoot => 300
  | queryContinue => 301
  | capsule => 302
  | queryRestricted => 303
  | handleExpand => 304
  | diagnostics => 305
  | candidateCreate => 400
  | candidateAppend => 401
  | candidateValidate => 402
  | candidateInspect => 403
  | candidateDiscard => 404
  | commit => 500
  | receiptRead => 501
  | checkout => 502
  | refMoveProtected => 503
  | recovery => 504
  | execute => 600
  | testsSelected => testsSelectedTag
  | testsAffected => testsAffectedTag
  | cancel => 603
  | report => 604
  | testsReportRead => testsReportReadTag
  | testsReplay => testsReplayTag
  | testsAttemptStatus => testsAttemptStatusTag
  | entityVersion => entityVersionTag
  | entitySignature => entitySignatureTag

def isReserved : Method → Bool
  | diagnostics | refMoveProtected | testsSelected | testsAffected | testsReportRead | testsReplay
  | testsAttemptStatus => true
  | _ => false

def isNativeTest : Method → Bool
  | testsSelected | testsAffected | testsReportRead | testsReplay | testsAttemptStatus => true
  | _ => false

/-- The protocol version that first admits a method. -/
def introducedIn : Method → UInt32
  | entityVersion | entitySignature => protocolVersionV2
  | testsReportRead | testsReplay | testsAttemptStatus => protocolVersionV3
  | _ => protocolVersion

/-- Resolves a frozen tag. -/
def fromTag (tag : UInt32) : Result Method :=
  Except.ofOption .methodUnsupported (ALL.find? fun method ↦ method.tag == tag)

/-- Resolves a tag under an explicitly selected protocol version. -/
def fromTagVersioned (tag version : UInt32) : Result Method := do
  Except.rejectIf
    (version ≠ protocolVersion ∧ version ≠ protocolVersionV2 ∧ version ≠ protocolVersionV3)
    .versionUnsupported
  let method ← Except.ofOption .methodUnsupported (V3_ALL.find? fun method ↦ method.tag == tag)
  Except.rejectIf (version < method.introducedIn) .methodUnsupported
  return method

theorem mem_V3_ALL (method : Method) : method ∈ V3_ALL := by
  cases method <;> decide

theorem mem_ALL_iff {method : Method} : method ∈ ALL ↔ method.introducedIn = protocolVersion := by
  cases method <;> decide

theorem tag_injective : Function.Injective tag := by
  have hnodup : (V3_ALL.map tag).Nodup := by decide
  intro method method' h
  exact List.inj_on_of_nodup_map hnodup (mem_V3_ALL _) (mem_V3_ALL _) h

/-- A tag is found in a table as the one method that has it. -/
theorem find?_tag_eq_some {table : List Method} {tag : UInt32} {method : Method} :
    (table.find? fun method ↦ method.tag == tag) = some method ↔
      method ∈ table ∧ method.tag = tag := by
  constructor
  · intro h
    exact ⟨List.mem_of_find?_eq_some h, by simpa using List.find?_some h⟩
  · rintro ⟨hmem, rfl⟩
    have hsome : (table.find? fun other ↦ other.tag == method.tag).isSome = true :=
      List.find?_isSome.2 ⟨method, hmem, beq_self_eq_true _⟩
    obtain ⟨other, hother⟩ := Option.isSome_iff_exists.1 hsome
    have htag : other.tag = method.tag := by simpa using List.find?_some hother
    rw [hother, tag_injective htag]

theorem fromTag_eq_ok {tag : UInt32} {method : Method} :
    fromTag tag = .ok method ↔ method.tag = tag ∧ method.introducedIn = protocolVersion := by
  rw [fromTag, Except.ofOption_eq_ok, find?_tag_eq_some, mem_ALL_iff, and_comm]

end Method

end Sley.Protocol
