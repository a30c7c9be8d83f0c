import Sley.Mutate.Apply
import Sley.Mutate.CandidateEnvelope
import Sley.Policy.References
import Sley.Root.StateRootCodec

/-!
# The validation of a candidate

The fourteen-phase judgment of `sley-policy/src/candidate_validation.rs` over an accepted base. The
phases that decide about identities and bytes are embedded: the import of the candidate, the
inventory of the trusted base, the freshness of the bindings, the identities of what is created, the
application of the operations and the root that is built of the result, twice.

What the checkers of phases 5 to 12 say about the program is a parameter, `CandidateJudgment`, and so
are the digests of the context and the bytes of the result. **Nothing is assumed of it**: every
statement holds whatever the checkers accept. `Judged` says what a judgment has passed.
-/

namespace Sley.Policy

open Scb1 Mutate Root
open Except (bind_eq_ok mapError_eq_ok rejectIf_eq_ok)
open Unique (exists_iff)
open Except (rejectIf)

/-! ### Failures -/

/-- Closed outer decision. -/
inductive CandidateDecision
  | valid
  | invalidEncoding
  | invalidSchema
  | staleRoot
  | staleEntity
  | invalidIdentity
  | invalidGraph
  | unresolvedReference
  | typeError
  | controlFlowError
  | effectError
  | capabilityDenied
  | contractError
  | resourceLimit
  | testPlanError
  | internalError
  deriving DecidableEq, Repr

/-- What may resolve a failure. -/
inductive DiagnosticRetryability
  | permanent
  | freshBase
  | freshAuthority
  | higherCeilings
  | internalRepair
  deriving DecidableEq, Repr

/-- What a failure is reported as: the symbol of the source that refused. -/
inductive FailureSource
  | candidate (error : CandidateError)
  | apply (error : CandidateApplyError)
  | stateRoot (error : StateRootError)
  | scb (code : ScbErrorCode)
  | contextStateRegistryInvalid
  | contextStateRootMismatch
  | contextInventoryMismatch
  | contextTombstoneSetInvalid
  | contextPolicyBindingInvalid
  | baseTransactionMismatch
  | baseRootMismatch
  | workspaceMismatch
  | schemaEpochMismatch
  | policyRootMismatch
  | expiryExpired
  | policyRootExpired
  | identityCollision
  | ssmcResourceLimit
  | rootRebuildMismatch
  | program (error : CandidateProgramError)
  | entryPointKindInvalid
  | dependencyRootChangeUnsupported
  | capabilityRequirementMissing
  | testPlanResourceLimit
  /-- A checker that is not embedded. -/
  | checker (symbol : Nat)
  deriving DecidableEq, Repr

structure Failure where
  phase : UInt32
  decision : CandidateDecision
  source : FailureSource
  retryability : DiagnosticRetryability
  deriving DecidableEq, Repr

def staleRootFailure (source : FailureSource) : Failure := ⟨3, .staleRoot, source, .freshBase⟩

def resourceFailure (phase : UInt32) (source : FailureSource) : Failure :=
  ⟨phase, .resourceLimit, source, .higherCeilings⟩

/-- A refusal of the trusted context in phase 2. -/
def contextFailure (source : FailureSource) (retryability : DiagnosticRetryability) : Failure :=
  ⟨2, .invalidSchema, source, retryability⟩

def candidateImportFailure (error : CandidateError) : Failure :=
  ⟨1, .invalidEncoding, .candidate error, .permanent⟩

def candidateApplyFailure : CandidateApplyError → Failure
  | .object .resourceLimit => resourceFailure 5 (.scb .resourceLimit)
  | .exactPreimageMismatch => ⟨5, .resourceLimit, .apply .exactPreimageMismatch, .internalRepair⟩
  | error => ⟨5, .invalidGraph, .apply error, .permanent⟩

def stateRootFailure (phase : UInt32) : StateRootError → Failure
  | .scb .resourceLimit => resourceFailure phase (.stateRoot (.scb .resourceLimit))
  | error => ⟨phase, .internalError, .stateRoot error, .internalRepair⟩

/-- Context-construction or result-rendering failure. -/
inductive CandidateValidationError
  | capability
  | result
  | scb (code : ScbErrorCode)
  deriving DecidableEq, Repr

/-! ### Limits -/

/-- Explicit local ceilings. -/
structure CandidateValidationLimits where
  maxOperations : UInt32
  maxPreconditions : UInt32
  maxCandidateBytes : UInt64
  maxDecodedValueBytes : UInt64
  maxGraphWork : UInt64
  maxSelectedTests : UInt32
  maxEntities : UInt32
  maxTestCallDepth : UInt64
  maxTestWallTimeoutMillis : UInt64

def maxContextEntities : UInt32 := 65535

def maxLocalTestLimit : UInt64 := 1000000000000000

namespace CandidateValidationLimits

/-- The widest ceilings the full profile permits. -/
def fullV1 : CandidateValidationLimits where
  maxOperations := ValidationProfileRecord.fullV1.maxOperations
  maxPreconditions := ValidationProfileRecord.fullV1.maxPreconditions
  maxCandidateBytes := ValidationProfileRecord.fullV1.maxCandidateBytes
  maxDecodedValueBytes := ValidationProfileRecord.fullV1.maxDecodedValueBytes
  maxGraphWork := ValidationProfileRecord.fullV1.maxGraphWork
  maxSelectedTests := ValidationProfileRecord.fullV1.maxSelectedTests
  maxEntities := maxContextEntities
  maxTestCallDepth := maxLocalTestLimit
  maxTestWallTimeoutMillis := maxLocalTestLimit

def effective (limits : CandidateValidationLimits) : CandidateValidationLimits where
  maxOperations := min limits.maxOperations fullV1.maxOperations
  maxPreconditions := min limits.maxPreconditions fullV1.maxPreconditions
  maxCandidateBytes := min (min limits.maxCandidateBytes fullV1.maxCandidateBytes)
    (UInt64.ofNat maxStandaloneBytes)
  maxDecodedValueBytes := min limits.maxDecodedValueBytes fullV1.maxDecodedValueBytes
  maxGraphWork := min limits.maxGraphWork fullV1.maxGraphWork
  maxSelectedTests := min limits.maxSelectedTests fullV1.maxSelectedTests
  maxEntities := min limits.maxEntities maxContextEntities
  maxTestCallDepth := min limits.maxTestCallDepth maxLocalTestLimit
  maxTestWallTimeoutMillis := min limits.maxTestWallTimeoutMillis maxLocalTestLimit

theorem effective_maxOperations_le (limits : CandidateValidationLimits) :
    limits.effective.maxOperations.toNat ≤ fullV1.maxOperations.toNat := by
  show (if limits.maxOperations ≤ fullV1.maxOperations then limits.maxOperations
    else fullV1.maxOperations).toNat ≤ fullV1.maxOperations.toNat
  split
  · rename_i hle
    exact UInt32.le_iff_toNat_le.1 hle
  · exact le_rfl

end CandidateValidationLimits

/-! ### The context -/

/-- What the embedded phases read of a policy root. -/
structure PolicyRootRecord where
  workspaceId : WorkspaceId
  expiryUnixMillis : Option UInt64
  deriving DecidableEq

/-- Registry-authorized protected policy root. -/
structure AcceptedPolicyRoot where
  root : PolicyRootId
  storedBytes : Bytes
  record : PolicyRootRecord
  deriving DecidableEq

/-- The arguments of `CandidateValidationContext::new`; a capability is a token and its key. -/
structure ContextInput (Capability : Type) where
  baseTransactionId : TransactionId
  baseState : AcceptedStateRoot
  baseObjects : List EntityObject
  tombstones : List EntityId
  policy : AcceptedPolicyRoot
  principalId : PrincipalId
  capabilities : List Capability
  nowUnixMillis : UInt64
  limits : CandidateValidationLimits

/-- Closed validator-owned context. -/
structure CandidateValidationContext (Capability : Type) extends ContextInput Capability where
  capabilitySummaryDigest : CapabilitySummaryDigest
  contextDigest : ValidationContextDigest

/-- What a commit reads of a result, and the sets of phase 5. -/
structure CandidateResultRecord where
  candidateId : Option CandidateId
  validationProfileId : ValidationProfileId
  validationContextDigest : ValidationContextDigest
  decision : CandidateDecision
  affectedClosure : List EntityId
  requiredCapabilities : List EntityId
  selectedTests : List EntityId
  candidateRoot : Option StateRoot
  deriving DecidableEq

structure ImportedCandidateResult where
  record : CandidateResultRecord
  candidateResultId : CandidateResultId
  storedBytes : Bytes
  deriving DecidableEq

section

variable [HostLayout]

/-- Validator-owned material for one fully valid candidate. -/
structure ValidatedCandidatePlan where
  candidate : ImportedCandidate
  proposedState : ProposedEntityState
  candidateRoot : AcceptedStateRoot

structure CandidateValidationOutput where
  result : ImportedCandidateResult
  plan : Option ValidatedCandidatePlan

def CandidateValidationOutput.isValid (output : CandidateValidationOutput) : Bool :=
  output.result.record.decision = .valid ∧ output.plan.isSome

/-- The checkers, projections and renderers that are not embedded. -/
class CandidateJudgment (Capability : Type) where
  /-- The capability summary and the public projection of a context, and their digests. -/
  projectContext : ContextInput Capability →
    Except CandidateValidationError (CapabilitySummaryDigest × ValidationContextDigest)
  /-- The program, types, graphs, effects and authority of phases 5 to 9. -/
  judgeProgram : CandidateValidationContext Capability → ImportedCandidate →
    ProposedEntityState → Except Failure Unit
  /-- Isolation, contracts, tests and resources of phases 9 to 12, over the provisional root; the
  tests that are selected. -/
  judgeRoot : CandidateValidationContext Capability → ImportedCandidate → ProposedEntityState →
    AcceptedStateRoot → Except Failure (List EntityId)
  /-- `finish_failure`. -/
  finishFailure : CandidateValidationContext Capability → Bytes → Failure →
    Except CandidateValidationError ImportedCandidateResult
  /-- `finish_valid`. -/
  finishValid : CandidateValidationContext Capability → ValidatedCandidatePlan → List EntityId →
    Except CandidateValidationError ImportedCandidateResult

end

/-- The registry of the frozen conformance epoch, `conformance_registry`. -/
class ConformanceRegistry where
  registry : Except Schema.SchemaErrorCode StateRootRegistry

section

variable {Capability : Type} [HostLayout] [CandidateJudgment Capability]

def CandidateValidationContext.new (input : ContextInput Capability) :
    Except CandidateValidationError (CandidateValidationContext Capability) := do
  let input := { input with limits := input.limits.effective }
  let (capabilitySummaryDigest, contextDigest) ← CandidateJudgment.projectContext input
  return { input with capabilitySummaryDigest, contextDigest }

end

/-! ### The embedded phases -/

section

variable {Capability : Type}

/-- Which object an identity is bound to, `binary_search_by_key` over sorted bindings. -/
def findBinding (bindings : List (EntityId × ObjectId)) (entityId : EntityId) : Option ObjectId :=
  (bindings.find? fun binding ↦ binding.1 = entityId).map Prod.snd

variable {bindings : List (EntityId × ObjectId)}

theorem findBinding_isSome {entityId : EntityId} :
    (findBinding bindings entityId).isSome ↔ entityId ∈ bindings.map Prod.fst := by
  simp only [findBinding, Option.isSome_map, List.find?_isSome, decide_eq_true_eq, List.mem_map]

/-- Where every entity is bound once, a binding that stands in the list is found. -/
theorem findBinding_eq_some
    (hnodup : (bindings.map Prod.fst).Nodup) {entityId : EntityId} {objectId : ObjectId} :
    findBinding bindings entityId = some objectId ↔ (entityId, objectId) ∈ bindings := by
  rw [findBinding, Option.map_eq_some_iff]
  constructor
  · rintro ⟨⟨entityId', objectId'⟩, hfind, rfl⟩
    obtain rfl : entityId' = entityId := by simpa using List.find?_some hfind
    exact List.mem_of_find?_eq_some hfind
  · intro hmem
    obtain ⟨binding, hfind⟩ : ∃ binding, bindings.find? (fun binding ↦ binding.1 = entityId) =
        some binding := by
      rw [← Option.isSome_iff_exists, List.find?_isSome]
      exact ⟨_, hmem, by simp⟩
    have hid : binding.1 = entityId := by simpa using List.find?_some hfind
    have hsame := List.inj_on_of_nodup_map hnodup (List.mem_of_find?_eq_some hfind) hmem hid
    exact ⟨binding, hfind, congrArg Prod.snd hsame⟩

/-- The loop of phase 2 over objects and bindings. -/
def checkInventory (epoch : SchemaEpochId) (previous : Option EntityId) :
    List (EntityObject × EntityId × ObjectId) → Except Failure Unit
  | [] => .ok ()
  | (object, entityId, objectId) :: rest => do
    rejectIf ((∃ prior ∈ previous, compare prior object.record.entityId ≠ .lt) ∨
        object.record.entityId ≠ entityId ∨ object.objectId ≠ objectId ∨
        object.schemaEpochId ≠ epoch)
      (contextFailure .contextInventoryMismatch .permanent)
    checkInventory epoch (some object.record.entityId) rest

/-- The loop passes over objects that are bound in their order. -/
theorem map_of_checkInventory {epoch : SchemaEpochId} {previous : Option EntityId}
    {objects : List EntityObject} (hlen : objects.length = bindings.length)
    (h : checkInventory epoch previous (objects.zip bindings) = .ok ()) :
    bindings = objects.map fun object ↦ (object.record.entityId, object.objectId) := by
  induction objects generalizing previous bindings with
  | nil => exact List.length_eq_zero_iff.1 hlen.symm
  | cons object objects ih =>
    cases bindings with
    | nil => cases hlen
    | cons binding bindings =>
      obtain ⟨entityId, objectId⟩ := binding
      simp only [List.zip_cons_cons, checkInventory, bind_eq_ok, rejectIf_eq_ok,
        exists_iff, not_or, not_not] at h
      obtain ⟨⟨-, rfl, rfl, -⟩, hrest⟩ := h
      rw [List.map_cons, ih (Nat.succ.inj hlen) hrest]

variable [HostLayout] [CandidateLayout] [Blake3] [UnicodeNormalization] [ConformanceEpoch]
  [ConformanceRegistry]

omit [CandidateLayout] [UnicodeNormalization] [ConformanceEpoch] in
def validatePhaseTwo (context : CandidateValidationContext Capability)
    (candidate : ImportedCandidate) : Except Failure Unit := do
  let limits := context.limits.effective
  let bindings := context.baseState.record.entityBindings
  rejectIf (candidate.storedBytes.length > limits.maxCandidateBytes.toNat ∨
      candidate.record.operations.length > limits.maxOperations.toNat ∨
      candidate.record.preconditions.length > limits.maxPreconditions.toNat ∨
      context.baseObjects.length > limits.maxEntities.toNat ∨
      bindings.length > limits.maxEntities.toNat)
    (resourceFailure 2 (.scb .resourceLimit))
  let registry ← ConformanceRegistry.registry.mapError fun _ ↦
    ⟨2, .internalError, .contextStateRegistryInvalid, .internalRepair⟩
  let importedState ← (importStateRoot registry context.baseState.storedBytes).mapError fun error ↦
    contextFailure (.stateRoot error) .freshAuthority
  rejectIf (importedState ≠ context.baseState)
    (contextFailure .contextStateRootMismatch .freshAuthority)
  rejectIf (context.baseObjects.length ≠ bindings.length)
    (contextFailure .contextInventoryMismatch .permanent)
  checkInventory context.baseState.record.schemaEpochId none (context.baseObjects.zip bindings)
  rejectIf ((¬ context.tombstones.IsChain fun a b ↦ compare a b = .lt) ∨
      ∃ tombstone ∈ context.tombstones, (findBinding bindings tombstone).isSome)
    (contextFailure .contextTombstoneSetInvalid .permanent)
  rejectIf (context.baseState.record.policyRoot ≠ context.policy.root ∨
      context.baseState.record.workspaceId ≠ context.policy.record.workspaceId)
    (contextFailure .contextPolicyBindingInvalid .freshAuthority)

/-- The entity and the version a precondition expects; an absent identity has none. -/
def expectedVersion : PreconditionPayload → Option (EntityId × ObjectId)
  | .expectedIdentityAbsent _ => none
  | .exactEntityVersion value => some (value.entityId, value.objectId)
  | .exactContainerVersion value => some (value.containerId, value.objectId)

def validatePhaseThree (context : CandidateValidationContext Capability)
    (candidate : ImportedCandidate) : Except Failure Unit := do
  let record := candidate.record
  rejectIf (record.baseTransactionId ≠ context.baseTransactionId)
    (staleRootFailure .baseTransactionMismatch)
  rejectIf (record.baseRoot ≠ context.baseState.root) (staleRootFailure .baseRootMismatch)
  rejectIf (record.workspaceId ≠ context.baseState.record.workspaceId)
    (staleRootFailure .workspaceMismatch)
  rejectIf (record.schemaEpochId ≠ context.baseState.record.schemaEpochId)
    (staleRootFailure .schemaEpochMismatch)
  rejectIf (record.policyRootId ≠ context.policy.root)
    (staleRootFailure .policyRootMismatch)
  rejectIf (context.nowUnixMillis ≥ record.expiry.notAfter)
    ⟨3, .staleRoot, .expiryExpired, .permanent⟩
  rejectIf (∃ expiry ∈ context.policy.record.expiryUnixMillis,
      context.nowUnixMillis ≥ expiry)
    ⟨3, .staleRoot, .policyRootExpired, .freshAuthority⟩
  rejectIf (∃ precondition ∈ record.preconditions,
      ∃ expected ∈ expectedVersion precondition.payload,
        findBinding context.baseState.record.entityBindings expected.1 ≠ some expected.2)
    ⟨3, .staleEntity, .apply .exactPreimageMismatch, .freshBase⟩

/-- The loop of phase 4; `createOrdinal` counts the creations so far. -/
def checkCreations (context : CandidateValidationContext Capability) (record : CandidateRecord) :
    Nat → List (MutationOperation × BoundPrecondition) → Except Failure Unit
  | _, [] => .ok ()
  | createOrdinal, (operation, precondition) :: rest =>
    if operation.mutationClass = .createEntity then do
      let expected := EntityId.derive record.workspaceId record.candidateNonce
        operation.targetKind.toUInt32 (UInt64.ofNat createOrdinal)
      rejectIf (createOrdinal + 1 ≥ 2 ^ 64) (resourceFailure 4 .ssmcResourceLimit)
      match precondition.payload with
      | .expectedIdentityAbsent absent =>
        rejectIf (operation.targetEntity ≠ expected ∨ absent.entityId ≠ expected)
          ⟨4, .invalidIdentity, .candidate .targetEntityMismatch, .permanent⟩
        rejectIf
          ((findBinding context.baseState.record.entityBindings expected).isSome ∨
            expected ∈ context.tombstones)
          ⟨4, .invalidIdentity, .identityCollision, .permanent⟩
        checkCreations context record (createOrdinal + 1) rest
      | _ => .error ⟨4, .invalidIdentity, .candidate .preconditionMismatch, .permanent⟩
    else
      checkCreations context record createOrdinal rest

def validatePhaseFour (context : CandidateValidationContext Capability)
    (candidate : ImportedCandidate) : Except Failure Unit :=
  checkCreations context candidate.record 0
    (candidate.record.operations.zip candidate.record.preconditions)

/-- The root of a proposed state, on the anchors of the base. -/
def buildCandidateStateRoot (base : AcceptedStateRoot) (proposed : ProposedEntityState) :
    Except StateRootError AcceptedStateRoot := do
  let registry ← ConformanceRegistry.registry.mapError .schema
  StateRootBuilder.build
    { workspaceId := base.record.workspaceId
      entityBindings := proposed.entities.map fun object ↦
        (object.record.entityId, object.objectId)
      entryPoints := proposed.entryPoints
      dependencyRoots := base.record.dependencyRoots
      contractRoot := base.record.contractRoot
      testRoot := base.record.testRoot
      policyRoot := base.record.policyRoot
      interpretationFlags := base.record.interpretationFlags } registry

/-! ### The judgment -/

variable [CandidateJudgment Capability]

/-- Phases 1 to 13, up to the plan and the tests that are selected. -/
def judgeCandidate (context : CandidateValidationContext Capability) (storedCandidate : Bytes) :
    Except Failure (ValidatedCandidatePlan × List EntityId) := do
  let candidate ← (importCandidate storedCandidate).mapError candidateImportFailure
  validatePhaseTwo context candidate
  validatePhaseThree context candidate
  validatePhaseFour context candidate
  let proposed ← (applyCandidateToSnapshot candidate.record.schemaEpochId candidate.record
    context.baseObjects context.baseState.record.entryPoints).mapError candidateApplyFailure
  CandidateJudgment.judgeProgram context candidate proposed
  let provisionalRoot ← (buildCandidateStateRoot context.baseState proposed).mapError
    (stateRootFailure 9)
  let selectedTests ← CandidateJudgment.judgeRoot context candidate proposed provisionalRoot
  let candidateRoot ← (buildCandidateStateRoot context.baseState proposed).mapError
    (stateRootFailure 13)
  rejectIf (candidateRoot ≠ provisionalRoot)
    ⟨13, .internalError, .rootRebuildMismatch, .internalRepair⟩
  return ({ candidate, proposedState := proposed, candidateRoot }, selectedTests)

def validateCandidateBytes (context : CandidateValidationContext Capability)
    (storedCandidate : Bytes) : Except CandidateValidationError CandidateValidationOutput :=
  match judgeCandidate context storedCandidate with
  | .error failure => do
    let result ← CandidateJudgment.finishFailure context storedCandidate failure
    return { result, plan := none }
  | .ok (plan, selectedTests) => do
    let result ← CandidateJudgment.finishValid context plan selectedTests
    return { result, plan := some plan }

/-! ### What a judgment leaves -/

/-- What a judgment has passed. -/
structure Judged (context : CandidateValidationContext Capability) (storedCandidate : Bytes)
    (plan : ValidatedCandidatePlan) (selectedTests : List EntityId) : Prop where
  imported : importCandidate storedCandidate = .ok plan.candidate
  phaseTwo : validatePhaseTwo context plan.candidate = .ok ()
  phaseThree : validatePhaseThree context plan.candidate = .ok ()
  phaseFour : validatePhaseFour context plan.candidate = .ok ()
  applied : applyCandidateToSnapshot plan.candidate.record.schemaEpochId plan.candidate.record
    context.baseObjects context.baseState.record.entryPoints = .ok plan.proposedState
  program : CandidateJudgment.judgeProgram context plan.candidate plan.proposedState = .ok ()
  root : buildCandidateStateRoot context.baseState plan.proposedState = .ok plan.candidateRoot
  tests : CandidateJudgment.judgeRoot context plan.candidate plan.proposedState
    plan.candidateRoot = .ok selectedTests

variable {context : CandidateValidationContext Capability} {plan : ValidatedCandidatePlan}
  {storedCandidate : Bytes} {selectedTests : List EntityId}

theorem judgeCandidate_eq_ok : judgeCandidate context storedCandidate = .ok (plan, selectedTests) ↔
      Judged context storedCandidate plan selectedTests := by
  simp only [judgeCandidate, bind_eq_ok, mapError_eq_ok, rejectIf_eq_ok,
    exists_iff, Except.pure_eq_ok, Prod.mk.injEq, not_not]
  constructor
  · rintro ⟨candidate, hcandidate, htwo, hthree, hfour, proposed, happlied, hprogram, _, hroot, _,
      htests, _, -, rfl, rfl, rfl⟩
    exact ⟨hcandidate, htwo, hthree, hfour, happlied, hprogram, hroot, htests⟩
  · rintro ⟨hcandidate, htwo, hthree, hfour, happlied, hprogram, hroot, htests⟩
    exact ⟨_, hcandidate, htwo, hthree, hfour, _, happlied, hprogram, _, hroot, _, htests, _, hroot,
      rfl, rfl, rfl⟩

omit [UnicodeNormalization] [ConformanceEpoch] [CandidateJudgment Capability] [CandidateLayout] in
/-- The bindings of a base that passed phase 2 are its objects, each bound once. -/
theorem bindings_of_validatePhaseTwo
    {candidate : ImportedCandidate} (h : validatePhaseTwo context candidate = .ok ()) :
    context.baseState.record.entityBindings =
        context.baseObjects.map (fun object ↦ (object.record.entityId, object.objectId)) ∧
      context.baseState.record.Canonical := by
  simp only [validatePhaseTwo, bind_eq_ok, mapError_eq_ok, rejectIf_eq_ok, exists_iff, not_not] at h
  obtain ⟨-, registry, -, imported, himported, rfl, hlen, hinventory, -⟩ := h
  exact ⟨map_of_checkInventory hlen hinventory, (importStateRoot_eq_ok.1 himported).2.canonical⟩

/-- A plan on a base: its candidate is read back from its bytes, and its root is built of the
proposed state. -/
structure PlannedOn (base : AcceptedStateRoot) (plan : ValidatedCandidatePlan) : Prop where
  imported : importCandidate plan.candidate.storedBytes = .ok plan.candidate
  operations_le : plan.candidate.record.operations.length ≤
    CandidateValidationLimits.fullV1.maxOperations.toNat
  epoch : plan.candidate.record.schemaEpochId = base.record.schemaEpochId
  root : buildCandidateStateRoot base plan.proposedState = .ok plan.candidateRoot

theorem judgeCandidate_plannedOn
    (h : judgeCandidate context storedCandidate = .ok (plan, selectedTests)) :
    PlannedOn context.baseState plan := by
  obtain ⟨hcandidate, htwo, hthree, -, -, -, hroot, -⟩ := judgeCandidate_eq_ok.1 h
  simp only [validatePhaseTwo, bind_eq_ok, rejectIf_eq_ok, exists_iff,
    not_or, gt_iff_lt, Nat.not_lt] at htwo
  simp only [validatePhaseThree, bind_eq_ok, rejectIf_eq_ok, exists_iff, not_not] at hthree
  obtain ⟨⟨-, hoperations, -⟩, -⟩ := htwo
  obtain ⟨-, -, -, hepoch, -⟩ := hthree
  have hbytes := (importCandidate_eq_ok.1 hcandidate).2.1
  constructor
  · exact hbytes ▸ hcandidate
  · exact hoperations.trans context.limits.effective_maxOperations_le
  · exact hepoch
  · exact hroot

/-- A judgment has a plan only when every phase passed, and its result is the one of the plan. -/
theorem validateCandidateBytes_judged {output : CandidateValidationOutput}
    (h : validateCandidateBytes context storedCandidate = .ok output)
    (hplan : output.plan = some plan) :
    ∃ selectedTests, judgeCandidate context storedCandidate = .ok (plan, selectedTests) ∧
      CandidateJudgment.finishValid context plan selectedTests = .ok output.result := by
  unfold validateCandidateBytes at h
  split at h
  · obtain ⟨_, -, hout⟩ := Except.bind_eq_ok.1 h
    obtain rfl := Except.pure_eq_ok.1 hout
    cases hplan
  · rename_i hjudge
    obtain ⟨_, hfinish, hout⟩ := Except.bind_eq_ok.1 h
    obtain rfl := Except.pure_eq_ok.1 hout
    cases hplan
    exact ⟨_, hjudge, hfinish⟩

omit [UnicodeNormalization] [CandidateJudgment Capability] in
/-- The root of a plan binds the proposed objects, on the anchors of the base. -/
theorem PlannedOn.describes {base : AcceptedStateRoot} (h : PlannedOn base plan) :
    ∃ registry, ConformanceRegistry.registry = .ok registry ∧
      plan.candidateRoot.record.entityBindings.Perm
        (plan.proposedState.entities.map fun object ↦ (object.record.entityId, object.objectId)) ∧
      plan.candidateRoot.record.workspaceId = base.record.workspaceId ∧
      plan.candidateRoot.record.policyRoot = base.record.policyRoot ∧
      ValidRoot registry plan.candidateRoot := by
  have hroot := h.root
  simp only [buildCandidateStateRoot, bind_eq_ok, mapError_eq_ok, build_eq_ok]
    at hroot
  obtain ⟨registry, hregistry, hdescribes, -, hvalid⟩ := hroot
  exact ⟨registry, hregistry, hdescribes.entityBindings, hdescribes.workspaceId,
    hdescribes.policyRoot, hvalid⟩

end

end Sley.Policy
