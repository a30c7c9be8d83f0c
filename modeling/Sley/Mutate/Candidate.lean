import Sley.Mutate.FieldValue
import Sley.Mutate.Schema
import Sley.Ssmc.Identity

/-!
# Candidates

The typed candidate of `sley-mutate/src/candidate.rs`: a list of operations, a precondition bound
to each of them, and the anchors they are proposed against. `CandidateRecord.validate` is the whole
structural judgment on a candidate: **every operation is one the schema has a row for**, its payload
is of the shape that row asks for, its precondition is about the entity it targets, and the
identities it creates are the ones derived from the workspace and the nonce, in order.
-/

namespace Sley.Mutate

open Scb1 Ssmc
open Except (rejectIf)

/-! ### Errors -/

/-- Candidate construction and import failures. -/
inductive CandidateError
  | scb (code : ScbErrorCode)
  | formatVersionUnsupported
  | expiryInvalid
  | emptyOperations
  | operationOrdinalMismatch
  | operationPreconditionOrdinalMismatch
  | preconditionCountMismatch
  | preconditionMismatch
  | descriptorUnknown
  | payloadKindMismatch
  | targetEntityMismatch
  | validationProfileInvalid
  deriving DecidableEq, Repr

/-- An SCB1 failure inside a candidate. -/
def CandidateError.ofScb {α : Type} : Result α → Except CandidateError α
  | .ok a => .ok a
  | .error e => .error (.scb e)

theorem CandidateError.ofScb_eq_ok {α : Type} {x : Result α} {a : α} :
    ofScb x = .ok a ↔ x = .ok a := by
  cases x <;> simp [ofScb]

/-! ### Parts of a candidate -/

structure CandidateExpiry where
  clock : UInt16
  notAfter : UInt64
  deriving DecidableEq

inductive ReferenceTarget
  | entity (id : EntityId)
  | optional (id : Option EntityId)

structure OrderedInsert where
  index : UInt32
  child : EntityId

structure OrderedRemove where
  index : UInt32
  expectedChild : EntityId

structure OrderedMove where
  source : UInt32
  destination : UInt32
  expectedChild : EntityId

structure ExpectedIdentityAbsent where
  entityId : EntityId

structure ExactEntityVersion where
  entityId : EntityId
  objectId : ObjectId

structure ExactContainerVersion where
  containerId : EntityId
  objectId : ObjectId
  fieldTag : UInt32

inductive PreconditionPayload
  | expectedIdentityAbsent (payload : ExpectedIdentityAbsent)
  | exactEntityVersion (payload : ExactEntityVersion)
  | exactContainerVersion (payload : ExactContainerVersion)

def PreconditionPayload.requirement : PreconditionPayload → PreimageRequirement
  | expectedIdentityAbsent _ => .expectedIdentityAbsent
  | exactEntityVersion _ => .exactEntityVersion
  | exactContainerVersion _ => .exactContainerVersion

structure BoundPrecondition where
  operationOrdinal : UInt32
  requirement : PreimageRequirement
  payload : PreconditionPayload

/-! ### Validation profiles -/

structure ValidationProfileRecord where
  formatVersion : UInt32
  phaseTags : List UInt32
  maxOperations : UInt32
  maxPreconditions : UInt32
  maxCandidateBytes : UInt64
  maxDecodedValueBytes : UInt64
  maxGraphWork : UInt64
  maxSelectedTests : UInt32
  deriving DecidableEq

namespace ValidationProfileRecord

def fullV1 : ValidationProfileRecord where
  formatVersion := 1
  phaseTags := [1, 2, 3, 4, 5, 6, 7, 8, 9, 10, 11, 12, 13, 14]
  maxOperations := 65535
  maxPreconditions := 65535
  maxCandidateBytes := 67108864
  maxDecodedValueBytes := 67108864
  maxGraphWork := 10000000
  maxSelectedTests := 65535

def productionV1 : ValidationProfileRecord := { fullV1 with formatVersion := 2 }

def isAccepted (profile : ValidationProfileRecord) : Bool :=
  profile = fullV1 ∨ profile = productionV1

end ValidationProfileRecord

instance : HostSize UInt32 := ⟨4⟩

def profileShape : RecordShape (UInt32 × List UInt32 × UInt32 × UInt32 × UInt64 × UInt64 × UInt64 ×
    UInt32 × Unit) :=
  .cons 1 UInt32 <| .cons 2 (List UInt32) <| .cons 3 UInt32 <| .cons 4 UInt32 <|
    .cons 5 UInt64 <| .cons 6 UInt64 <| .cons 7 UInt64 <| .cons 8 UInt32 .nil

def profileEquiv : ValidationProfileRecord ≃ UInt32 × List UInt32 × UInt32 × UInt32 × UInt64 ×
    UInt64 × UInt64 × UInt32 × Unit where
  toFun v := (v.formatVersion, v.phaseTags, v.maxOperations, v.maxPreconditions,
    v.maxCandidateBytes, v.maxDecodedValueBytes, v.maxGraphWork, v.maxSelectedTests, ())
  invFun t := ⟨t.1, t.2.1, t.2.2.1, t.2.2.2.1, t.2.2.2.2.1, t.2.2.2.2.2.1, t.2.2.2.2.2.2.1,
    t.2.2.2.2.2.2.2.1⟩
  left_inv _ := rfl
  right_inv _ := rfl

/-- The fields of a profile, before the check that it is an accepted one. -/
@[reducible]
def profileRecordCodec : MutationValueCodec ValidationProfileRecord :=
  recordCodec profileShape profileEquiv

/-- `ValidationProfileRecord::encode_value`. -/
def encodeProfile (depth : Nat) (profile : ValidationProfileRecord) : Result Bytes := do
  checkContainerDepth depth
  rejectIf (¬ profile.isAccepted) .unionInvalid
  profileRecordCodec.encodeValue depth profile

section Profiles

variable [Blake3]

/-- Exact magic of a validation-profile preimage, `SLEYVAP1`. -/
def validationProfileMagic : Bytes := [0x53, 0x4c, 0x45, 0x59, 0x56, 0x41, 0x50, 0x31]

/-- The identity of a profile: the digest of its framed record. -/
def validationProfileId (profile : ValidationProfileRecord) :
    Except CandidateError ValidationProfileId := do
  let record ← CandidateError.ofScb (encodeAtDepth 0 (encodeProfile 0) profile)
  return ValidationProfileId.derive
    (validationProfileMagic ++ encodeUvar 1 ++ encodeCount record.length ++ record)

def fullValidationProfileId : Except CandidateError ValidationProfileId :=
  validationProfileId .fullV1

def productionValidationProfileId : Except CandidateError ValidationProfileId :=
  validationProfileId .productionV1

end Profiles

/-! ### Operations -/

/-- `descriptor_field_tag`: the schema knows 16-bit field tags only. -/
def descriptorFieldTag : Option UInt32 → Except CandidateError (Option UInt16)
  | none => .ok none
  | some tag => do
    rejectIf (tag.toNat ≥ 2 ^ 16) .descriptorUnknown
    return some tag.toUInt16

section Candidates

variable [HostLayout]

inductive MutationPayload
  | createEntity (body : EntityBodyValue)
  | replaceEntityVersion (body : EntityBodyValue)
  | deleteEntityBinding
  | setScalarField (value : FieldValue)
  | replaceTypedField (value : FieldValue)
  | retargetReference (target : ReferenceTarget)
  | insertOrderedChild (insert : OrderedInsert)
  | removeOrderedChild (remove : OrderedRemove)
  | moveOrderedChild (move : OrderedMove)
  | addEntryPoint (body : EntryPointBody)
  | removeEntryPoint
  | addTest (body : TestCaseBody)
  | replaceTest (body : TestCaseBody)
  | addContract (body : ContractBody)
  | replaceContract (body : ContractBody)
  | updateDependencyBinding (body : DependencyBindingBody)

namespace MutationPayload

/-- `MutationPayload::class`. -/
def mutationClass : MutationPayload → MutationClass
  | createEntity _ => .createEntity
  | replaceEntityVersion _ => .replaceEntityVersion
  | deleteEntityBinding => .deleteEntityBinding
  | setScalarField _ => .setScalarField
  | replaceTypedField _ => .replaceTypedField
  | retargetReference _ => .retargetReference
  | insertOrderedChild _ => .insertOrderedChild
  | removeOrderedChild _ => .removeOrderedChild
  | moveOrderedChild _ => .moveOrderedChild
  | addEntryPoint _ => .addEntryPoint
  | removeEntryPoint => .removeEntryPoint
  | addTest _ => .addTest
  | replaceTest _ => .replaceTest
  | addContract _ => .addContract
  | replaceContract _ => .replaceContract
  | updateDependencyBinding _ => .updateDependencyBinding

/-- The shape a row asks of a payload, the class apart. -/
def matchesShape (targetKind : UInt16) (fieldTag : Option UInt16) (valueType : ValueType) :
    MutationPayload → Bool
  | createEntity body | replaceEntityVersion body =>
    -- the body name of a kind that does not exist is no value type
    fieldTag.isNone && body.kindTag == targetKind &&
      (EntityKind.fromTag targetKind.toNat).any fun kind ↦ valueType = .body kind
  | deleteEntityBinding | removeEntryPoint => fieldTag.isNone && valueType = .unit
  | setScalarField value | replaceTypedField value =>
    some value.fieldKey.2 == fieldTag && value.fieldKey.1 == targetKind
  | retargetReference (.entity _) => fieldTag.isSome && valueType = .entityId
  | retargetReference (.optional _) => fieldTag.isSome && valueType = .optionalEntityId
  | insertOrderedChild _ | removeOrderedChild _ | moveOrderedChild _ =>
    fieldTag.isSome && valueType = .entityIds
  | addEntryPoint _ => targetKind == 16 && fieldTag.isNone
  | addTest _ | replaceTest _ => targetKind == 14 && fieldTag.isNone
  | addContract _ | replaceContract _ => targetKind == 13 && fieldTag.isNone
  | updateDependencyBinding _ => targetKind == 18 && fieldTag.isNone

/-- `matches_descriptor`. -/
def matchesDescriptor (payload : MutationPayload) (mutationClass : MutationClass)
    (targetKind : UInt16) (fieldTag : Option UInt16) (valueType : ValueType) : Bool :=
  payload.mutationClass == mutationClass && payload.matchesShape targetKind fieldTag valueType

end MutationPayload

structure MutationOperation where
  ordinal : UInt32
  mutationClass : MutationClass
  targetKind : UInt16
  targetEntity : EntityId
  fieldTag : Option UInt32
  payload : MutationPayload
  preconditionOrdinal : UInt32

structure CandidateRecord where
  formatVersion : UInt32
  workspaceId : WorkspaceId
  baseTransactionId : TransactionId
  baseRoot : StateRoot
  schemaEpochId : SchemaEpochId
  policyRootId : PolicyRootId
  principalId : PrincipalId
  capabilitySummaryDigest : CapabilitySummaryDigest
  operations : List MutationOperation
  preconditions : List BoundPrecondition
  validationProfileId : ValidationProfileId
  candidateNonce : CandidateNonce
  expiry : CandidateExpiry

/-- `validate_precondition`: the precondition is about the entity that the operation targets. -/
def validatePrecondition (operation : MutationOperation) (precondition : BoundPrecondition)
    (expectedRequirement : PreimageRequirement) : Except CandidateError Unit := do
  rejectIf (precondition.operationOrdinal ≠ operation.ordinal ∨
    precondition.requirement ≠ expectedRequirement ∨
    precondition.payload.requirement ≠ precondition.requirement) .preconditionMismatch
  match precondition.payload with
  | .expectedIdentityAbsent payload =>
    rejectIf (payload.entityId ≠ operation.targetEntity) .preconditionMismatch
  | .exactEntityVersion payload =>
    rejectIf (payload.entityId ≠ operation.targetEntity) .preconditionMismatch
  | .exactContainerVersion payload =>
    rejectIf (¬ (payload.containerId = operation.targetEntity ∧
      operation.fieldTag = some payload.fieldTag)) .preconditionMismatch

def CandidateExpiry.validate (expiry : CandidateExpiry) : Except CandidateError Unit :=
  rejectIf (¬ (expiry.clock = 1 ∧ expiry.notAfter ≠ 0)) .expiryInvalid

section Validate

variable [Blake3]

/-- One turn of the loop over the operations, at an index and with a number of entities created so
far. Gives the number created after it. -/
def CandidateRecord.validateOperation (record : CandidateRecord) (index createOrdinal : Nat)
    (operation : MutationOperation) (precondition : BoundPrecondition) :
    Except CandidateError Nat := do
  rejectIf (index ≥ 2 ^ 32 ∨ operation.ordinal.toNat ≠ index) .operationOrdinalMismatch
  rejectIf (operation.preconditionOrdinal ≠ operation.ordinal)
    .operationPreconditionOrdinalMismatch
  let fieldTag ← descriptorFieldTag operation.fieldTag
  let descriptor ← Except.ofOption .descriptorUnknown
    (mutationOperationDescriptor operation.mutationClass operation.targetKind fieldTag)
  rejectIf (¬ operation.payload.matchesDescriptor operation.mutationClass
    operation.targetKind fieldTag descriptor.valueType) .payloadKindMismatch
  let created ← if operation.mutationClass = .createEntity then do
      rejectIf (operation.targetEntity ≠ EntityId.derive record.workspaceId
        record.candidateNonce operation.targetKind.toUInt32 (UInt64.ofNat createOrdinal))
        .targetEntityMismatch
      rejectIf (createOrdinal + 1 ≥ 2 ^ 64) .operationOrdinalMismatch
      pure (createOrdinal + 1)
    else pure createOrdinal
  validatePrecondition operation precondition descriptor.preimage
  return created

/-- The loop over the operations and their preconditions. -/
def CandidateRecord.validateOperations (record : CandidateRecord) :
    Nat → Nat → List (MutationOperation × BoundPrecondition) → Except CandidateError Unit
  | _, _, [] => .ok ()
  | index, createOrdinal, (operation, precondition) :: rest => do
    let createOrdinal ← record.validateOperation index createOrdinal operation precondition
    record.validateOperations (index + 1) createOrdinal rest

/-- `CandidateRecord::validate`. -/
def CandidateRecord.validate (record : CandidateRecord) : Except CandidateError Unit := do
  rejectIf (record.formatVersion ≠ 1) .formatVersionUnsupported
  record.expiry.validate
  let full ← fullValidationProfileId
  let production ← productionValidationProfileId
  rejectIf (record.validationProfileId ≠ full ∧ record.validationProfileId ≠ production)
    .validationProfileInvalid
  rejectIf record.operations.isEmpty .emptyOperations
  rejectIf (record.operations.length > ValidationProfileRecord.fullV1.maxOperations.toNat ∨
    record.preconditions.length > ValidationProfileRecord.fullV1.maxPreconditions.toNat)
    (.scb .resourceLimit)
  rejectIf (record.operations.length ≠ record.preconditions.length)
    .preconditionCountMismatch
  record.validateOperations 0 0 (record.operations.zip record.preconditions)

end Validate

end Candidates

end Sley.Mutate
