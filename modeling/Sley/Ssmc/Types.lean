import Mathlib
import Sley.Scb1.Reader

/-!
# Identities and structural types

The 32-byte identities of the semantic model and the closed epoch-1 type language
(`sley-ssmc/src/lib.rs`, `sley-id`). An identity is a byte string **with the proof that it is 32
bytes long**, and identities of different kinds are different types, as in the source.

The source names the payload of a few variants with a struct of its own (`NamedType`,
`FunctionType`); the payload's fields are arguments of the constructor here, so that the type stays
one inductive type.
-/

namespace Sley

open Scb1 (Bytes)

/-- What an identity names. -/
inductive IdKind
  | entity
  | member
  | object
  | stateRoot
  | digest
  | schemaEpoch
  | semanticFingerprint
  | workspace
  | transaction
  | policyRoot
  | principal
  | capabilitySummary
  | validationProfile
  | candidateNonce
  | candidate
  | candidateResult
  | validationContext
  | testReport
  | nativeTestApproval
  | receipt
  | valueHash
  | referenceAdapter
  | capabilityToken
  | capabilityIssuer
  | capabilityKey
  | capabilityTokenNonce
  | capabilityUseNonce
  | capabilityAuthenticator
  | protocolHandshake
  | protocolFrame
  | session
  deriving DecidableEq, Repr

/-- An exact 32-byte identity of one kind. -/
@[ext]
structure Id (kind : IdKind) where
  bytes : Bytes
  length_eq : bytes.length = 32
  deriving DecidableEq

instance lawfulBEqId {kind : IdKind} : LawfulBEq (Id kind) := inferInstance

/-- Stable entity identity. -/
abbrev EntityId := Id .entity

/-- Definition-local stable field or case identity. -/
abbrev MemberId := Id .member

/-- Content address of an encoded object. -/
abbrev ObjectId := Id .object

/-- Content address of a whole program state. -/
abbrev StateRoot := Id .stateRoot

/-- A bare 32-byte digest, the source's `[u8; 32]`. -/
abbrev Digest := Id .digest

/-- Schema epoch an envelope is read under. -/
abbrev SchemaEpochId := Id .schemaEpoch

/-- Reserved projection of what an entity means. -/
abbrev SemanticFingerprint := Id .semanticFingerprint

abbrev WorkspaceId := Id .workspace

abbrev TransactionId := Id .transaction

abbrev PolicyRootId := Id .policyRoot

abbrev PrincipalId := Id .principal

abbrev CapabilitySummaryDigest := Id .capabilitySummary

abbrev ValidationProfileId := Id .validationProfile

/-- What a candidate derives the identities it creates from. -/
abbrev CandidateNonce := Id .candidateNonce

/-- Content address of a candidate. -/
abbrev CandidateId := Id .candidate

/-- Content address of the result of a validation. -/
abbrev CandidateResultId := Id .candidateResult

abbrev ValidationContextDigest := Id .validationContext

abbrev TestReportId := Id .testReport

abbrev NativeTestApprovalId := Id .nativeTestApproval

/-- Content address of a transaction receipt. -/
abbrev ReceiptId := Id .receipt

/-- Content address of a canonical value. -/
abbrev ValueHash := Id .valueHash

abbrev ReferenceAdapterId := Id .referenceAdapter

/-- Digest of the body of a capability token. -/
abbrev CapabilityTokenDigest := Id .capabilityToken

/-- Content address of a protocol handshake. -/
abbrev ProtocolHandshakeId := Id .protocolHandshake

/-- Content address of a protocol frame. -/
abbrev ProtocolFrameId := Id .protocolFrame

abbrev SessionId := Id .session

/-- The identity of 32 equal bytes. -/
def Id.splat {kind : IdKind} (b : UInt8) : Id kind := ⟨List.replicate 32 b, List.length_replicate⟩

instance {kind : IdKind} : Inhabited (Id kind) := ⟨Id.splat 0⟩

namespace Ssmc

/-- Exact epoch-1 structural type depth. -/
def maxTypeDepth : Nat := 64

/-- Raw declared integer width; the checker admits only the five epoch-1 widths. -/
structure IntegerWidth where
  bits : UInt16
  deriving DecidableEq, Repr

/-- Closed epoch-1 built-in operation failure type. -/
inductive BuiltinFailureKind
  | arithmetic
  | index
  | duplicateKey
  | contractViolation
  | capability
  deriving DecidableEq, Repr

/-- The exact SSMC1 tag. -/
def BuiltinFailureKind.tag : BuiltinFailureKind → UInt16
  | .arithmetic => 1
  | .index => 2
  | .duplicateKey => 3
  | .contractViolation => 4
  | .capability => 5

/-- Closed SSMC1 epoch-1 structural type. -/
inductive TypeExpr
  | unit
  | bool
  | sInt (width : IntegerWidth)
  | uInt (width : IntegerWidth)
  | f32
  | f64
  | bytes
  | text
  | tuple (items : List TypeExpr)
  | named (definition : EntityId) (arguments : List TypeExpr)
  | vector (element : TypeExpr)
  | orderedMap (key value : TypeExpr)
  | option (element : TypeExpr)
  | result (ok error : TypeExpr)
  | functionRef (parameters : List TypeExpr) (result : TypeExpr) (effects : List EntityId)
  | adapterHandle (adapter : EntityId)
  | capabilityToken (effect : EntityId)
  | localCell (element : TypeExpr)
  | typeParameter (ordinal : UInt32)
  | builtinFailure (kind : BuiltinFailureKind)

/-- The exact frozen SSMC1 type tag. -/
def TypeExpr.tag : TypeExpr → UInt32
  | unit => 1
  | bool => 2
  | sInt _ => 3
  | uInt _ => 4
  | f32 => 5
  | f64 => 6
  | bytes => 7
  | text => 8
  | tuple _ => 9
  | named _ _ => 10
  | vector _ => 11
  | orderedMap _ _ => 12
  | option _ => 13
  | result _ _ => 14
  | functionRef _ _ _ => 15
  | adapterHandle _ => 16
  | capabilityToken _ => 17
  | localCell _ => 18
  | typeParameter _ => 19
  | builtinFailure _ => 20

instance : Inhabited TypeExpr := ⟨.unit⟩

/-- Persistable function-reference value. -/
structure FunctionRefValue where
  function : EntityId
  typeArguments : List TypeExpr

/-- Named-variant immediate. -/
structure VariantImmediate where
  definition : EntityId
  memberId : MemberId
  deriving DecidableEq

/-- Closed operation immediate. -/
inductive Immediate
  | none
  | entity (id : EntityId)
  | index (index : UInt32)
  | field (member : MemberId)
  | variant (variant : VariantImmediate)
  | observation (digest : Digest)
  | function (function : FunctionRefValue)

/-- The exact frozen immediate tag. -/
def Immediate.tag : Immediate → UInt32
  | none => 1
  | entity _ => 2
  | index _ => 3
  | field _ => 4
  | variant _ => 5
  | observation _ => 6
  | function _ => 7

/-- Built-in Option/Result switch case. -/
inductive BuiltinCase
  | none
  | some
  | ok
  | err
  deriving DecidableEq, Repr

/-- The exact frozen built-in case tag. -/
def BuiltinCase.tag : BuiltinCase → UInt32
  | none => 1
  | some => 2
  | ok => 3
  | err => 4

/-- Named or built-in switch case key. -/
inductive CaseKey
  | member (id : MemberId)
  | builtin (case : BuiltinCase)
  deriving DecidableEq

/-- The exact frozen case-key union tag. -/
def CaseKey.tag : CaseKey → UInt32
  | member _ => 1
  | builtin _ => 2

end Ssmc

end Sley
