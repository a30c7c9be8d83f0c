import Sley.Lib.Operation
import Sley.Lib.OrderedMap
import Sley.Policy.CandidateValidation

/-!
# Capability tokens and the ledger of their use

Local authority tokens and the caller-owned ledger that spends them (`sley-policy/src/lib.rs`). A
token is a body with six budgets, the digest of the body and a keyed authenticator. It is only made
by issuing or by importing, so **that its digest is the digest of its body is a field**.

A charge checks the nonce and the budget and then writes twice, to the nonces that were used and to
what was spent; here both are steps of an `Operation`, which leaves its state also when it refuses.
The run theorem is `capability_spending`: what is recorded for a token is the sum of its charges,
dimension by dimension, and stays within its budget.
-/

namespace Sley.Policy

open Scb1 Ssmc
open Except (ofOption rejectIf)

/-! ### Failures -/

/-- Stable capability-token and runtime-ledger failure code. -/
inductive CapabilityErrorCode
  | versionUnsupported
  | issuerUntrusted
  | keyUntrusted
  | authenticatorInvalid
  | policyRootMismatch
  | workspaceMismatch
  | principalMismatch
  | stateRootMismatch
  | effectMismatch
  | scopeMismatch
  | adapterMismatch
  | expired
  | timeInvalid
  | budgetZero
  | budgetExceeded
  | grantDenied
  | replay
  | ledgerExhausted
  | canonicalInvalid
  | internalInvariant
  deriving DecidableEq, Repr

/-- Exact failure preserving SCB1 canonical decoding failures. -/
inductive CapabilityError
  | capability (code : CapabilityErrorCode)
  | scb (code : ScbErrorCode)
  deriving DecidableEq, Repr

/-! ### Budgets -/

/-- Maximum literal value accepted for one policy resource ceiling. -/
def maxPolicyResourceCeiling : UInt64 := 1000000000000000

/-- Exact resource ceilings bound to one principal grant. -/
structure PolicyResourceCeilings where
  maxFuel : UInt64
  maxMemoryBytes : UInt64
  maxOutputBytes : UInt64
  maxEffectCount : UInt64
  maxMutationCount : UInt64
  maxAdapterCalls : UInt64
  deriving DecidableEq

/-- Frozen six-field runtime budget vector. -/
structure CapabilityResourceBudget where
  maxFuel : UInt64
  maxMemoryBytes : UInt64
  maxOutputBytes : UInt64
  maxEffectCount : UInt64
  maxMutationCount : UInt64
  maxAdapterCalls : UInt64
  deriving DecidableEq

/-- `u64::checked_add`. -/
def checkedAdd (a b : UInt64) : Option UInt64 :=
  if a.toNat + b.toNat < 2 ^ 64 then some (a + b) else none

/-- `u64::checked_sub`. -/
def checkedSub (a b : UInt64) : Option UInt64 := if b ≤ a then some (a - b) else none

namespace CapabilityResourceBudget

def zero : CapabilityResourceBudget := ⟨0, 0, 0, 0, 0, 0⟩

def isZero (self : CapabilityResourceBudget) : Bool :=
  self.maxFuel == 0 && self.maxMemoryBytes == 0 && self.maxOutputBytes == 0 &&
    self.maxEffectCount == 0 && self.maxMutationCount == 0 && self.maxAdapterCalls == 0

def validateNonzero (self : CapabilityResourceBudget) : Except CapabilityErrorCode Unit := do
  rejectIf (self.isZero = true) .budgetZero
  rejectIf
    (¬ [self.maxFuel, self.maxMemoryBytes, self.maxOutputBytes, self.maxEffectCount,
      self.maxMutationCount, self.maxAdapterCalls].all fun value ↦ value ≤ maxPolicyResourceCeiling)
    .budgetExceeded

def fitsWithinCeilings (self : CapabilityResourceBudget) (ceilings : PolicyResourceCeilings) :
    Bool :=
  self.maxFuel ≤ ceilings.maxFuel && self.maxMemoryBytes ≤ ceilings.maxMemoryBytes &&
    self.maxOutputBytes ≤ ceilings.maxOutputBytes &&
    self.maxEffectCount ≤ ceilings.maxEffectCount &&
    self.maxMutationCount ≤ ceilings.maxMutationCount &&
    self.maxAdapterCalls ≤ ceilings.maxAdapterCalls

def fitsWithin (self limit : CapabilityResourceBudget) : Bool :=
  self.maxFuel ≤ limit.maxFuel && self.maxMemoryBytes ≤ limit.maxMemoryBytes &&
    self.maxOutputBytes ≤ limit.maxOutputBytes && self.maxEffectCount ≤ limit.maxEffectCount &&
    self.maxMutationCount ≤ limit.maxMutationCount && self.maxAdapterCalls ≤ limit.maxAdapterCalls

def checkedAdd (self amount : CapabilityResourceBudget) : Option CapabilityResourceBudget := do
  let maxFuel ← Policy.checkedAdd self.maxFuel amount.maxFuel
  let maxMemoryBytes ← Policy.checkedAdd self.maxMemoryBytes amount.maxMemoryBytes
  let maxOutputBytes ← Policy.checkedAdd self.maxOutputBytes amount.maxOutputBytes
  let maxEffectCount ← Policy.checkedAdd self.maxEffectCount amount.maxEffectCount
  let maxMutationCount ← Policy.checkedAdd self.maxMutationCount amount.maxMutationCount
  let maxAdapterCalls ← Policy.checkedAdd self.maxAdapterCalls amount.maxAdapterCalls
  return ⟨maxFuel, maxMemoryBytes, maxOutputBytes, maxEffectCount, maxMutationCount,
    maxAdapterCalls⟩

def checkedSub (self amount : CapabilityResourceBudget) : Option CapabilityResourceBudget := do
  let maxFuel ← Policy.checkedSub self.maxFuel amount.maxFuel
  let maxMemoryBytes ← Policy.checkedSub self.maxMemoryBytes amount.maxMemoryBytes
  let maxOutputBytes ← Policy.checkedSub self.maxOutputBytes amount.maxOutputBytes
  let maxEffectCount ← Policy.checkedSub self.maxEffectCount amount.maxEffectCount
  let maxMutationCount ← Policy.checkedSub self.maxMutationCount amount.maxMutationCount
  let maxAdapterCalls ← Policy.checkedSub self.maxAdapterCalls amount.maxAdapterCalls
  return ⟨maxFuel, maxMemoryBytes, maxOutputBytes, maxEffectCount, maxMutationCount,
    maxAdapterCalls⟩

end CapabilityResourceBudget

/-! ### The policy that grants -/

/-- What a capability is checked against in a principal-specific grant. -/
structure PrincipalGrant where
  allowedEffectKindTags : List UInt32
  allowedAdapterIds : List ReferenceAdapterId
  resourceCeilings : PolicyResourceCeilings
  deriving DecidableEq

/-- An accepted policy root with the grants of its record. -/
structure GrantingPolicyRoot extends AcceptedPolicyRoot where
  principalGrants : List (PrincipalId × PrincipalGrant)
  sorted : Ascends Prod.fst principalGrants

/-- The exact grant of one principal; the principals are distinct, so there is at most one. -/
def GrantingPolicyRoot.principalGrant (policy : GrantingPolicyRoot) (principalId : PrincipalId) :
    Option PrincipalGrant :=
  (policy.principalGrants.find? fun grant ↦ grant.1 = principalId).map Prod.snd

/-! ### Tokens -/

abbrev CapabilityIssuerId := Id .capabilityIssuer

abbrev CapabilityKeyId := Id .capabilityKey

/-- Nonce bound into one capability token body. -/
abbrev CapabilityTokenNonce := Id .capabilityTokenNonce

/-- Caller-owned nonce for one charged capability use. -/
abbrev CapabilityUseNonce := Id .capabilityUseNonce

/-- Keyed BLAKE3 authenticator. -/
abbrev CapabilityAuthenticator := Id .capabilityAuthenticator

/-- One trusted issuer/key/secret tuple supplied explicitly by the host. -/
structure CapabilityTrustedKey where
  issuerId : CapabilityIssuerId
  keyId : CapabilityKeyId
  secret : Digest

/-- Unauthenticated canonical capability-token body. -/
structure CapabilityTokenBody where
  version : UInt32
  issuerId : CapabilityIssuerId
  keyId : CapabilityKeyId
  principalId : PrincipalId
  workspaceId : WorkspaceId
  stateRoot : StateRoot
  effectId : EntityId
  effectKindTag : UInt32
  scopeHash : ValueHash
  adapterId : ReferenceAdapterId
  budget : CapabilityResourceBudget
  issuedUnixMillis : UInt64
  expiryUnixMillis : UInt64
  tokenNonce : CapabilityTokenNonce
  policyRoot : PolicyRootId
  deriving DecidableEq

/-- Host request to issue one local token. -/
structure CapabilityTokenRequest where
  principalId : PrincipalId
  workspaceId : WorkspaceId
  stateRoot : StateRoot
  effectId : EntityId
  effectKind : EffectKind
  scopeHash : ValueHash
  adapterId : ReferenceAdapterId
  budget : CapabilityResourceBudget
  nowUnixMillis : UInt64
  expiryUnixMillis : UInt64
  tokenNonce : CapabilityTokenNonce

/-- Runtime request that a token must exactly authorize. -/
structure CapabilityVerificationRequest where
  principalId : PrincipalId
  workspaceId : WorkspaceId
  stateRoot : StateRoot
  effectId : EntityId
  effectKind : EffectKind
  scopeHash : ValueHash
  adapterId : ReferenceAdapterId
  nowUnixMillis : UInt64
  requiredBudget : CapabilityResourceBudget

def capabilityTokenVersion : UInt32 := 1

/-- `SLEYCAPD`. -/
def capabilityDigestMagic : Bytes := [0x53, 0x4c, 0x45, 0x59, 0x43, 0x41, 0x50, 0x44]

/-- `SLEYCAPM`. -/
def capabilityMacMagic : Bytes := [0x53, 0x4c, 0x45, 0x59, 0x43, 0x41, 0x50, 0x4d]

def isKnownEffectTag (tag : UInt32) : Bool := tag ≥ 1 && tag ≤ 8

def validateCapabilityBodyShape (body : CapabilityTokenBody) : Except CapabilityError Unit := do
  rejectIf (body.version ≠ capabilityTokenVersion) (.capability .versionUnsupported)
  rejectIf (¬ isKnownEffectTag body.effectKindTag) (.capability .effectMismatch)
  rejectIf (body.issuedUnixMillis ≥ body.expiryUnixMillis) (.capability .timeInvalid)
  body.budget.validateNonzero.mapError .capability

def encodeCapabilityBudget (budget : CapabilityResourceBudget) : Scb1.Result Bytes :=
  encodeRecord
    [(1, encodeUvar budget.maxFuel),
      (2, encodeUvar budget.maxMemoryBytes),
      (3, encodeUvar budget.maxOutputBytes),
      (4, encodeUvar budget.maxEffectCount),
      (5, encodeUvar budget.maxMutationCount),
      (6, encodeUvar budget.maxAdapterCalls)]

/-- The fifteen fields that the body and the token record have in common. -/
def capabilityBodyFields (body : CapabilityTokenBody) (budget : Bytes) : List (UInt32 × Bytes) :=
  [(1, encodeUvar body.version.toUInt64),
    (2, body.issuerId.bytes),
    (3, body.keyId.bytes),
    (4, body.principalId.bytes),
    (5, body.workspaceId.bytes),
    (6, body.stateRoot.bytes),
    (7, body.effectId.bytes),
    (8, encodeUvar body.effectKindTag.toUInt64),
    (9, body.scopeHash.bytes),
    (10, body.adapterId.bytes),
    (11, budget),
    (12, encodeUvar body.issuedUnixMillis),
    (13, encodeUvar body.expiryUnixMillis),
    (14, body.tokenNonce.bytes),
    (15, body.policyRoot.bytes)]

def encodeCapabilityBodyRecord (body : CapabilityTokenBody) : Scb1.Result Bytes := do
  let budget ← encodeCapabilityBudget body.budget
  encodeRecord (capabilityBodyFields body budget)

def encodeCapabilityTokenRecord (body : CapabilityTokenBody)
    (authenticator : CapabilityAuthenticator) : Scb1.Result Bytes := do
  let budget ← encodeCapabilityBudget body.budget
  encodeRecord (capabilityBodyFields body budget ++ [(16, authenticator.bytes)])

/-- BLAKE3 keyed with a secret. -/
class KeyedBlake3 where
  mac : Digest → Bytes → Digest

/-- The length of a body as the digest and the authenticator bind it. -/
def bodyLength (bodyBytes : Bytes) : Except CapabilityError Bytes := do
  rejectIf (bodyBytes.length ≥ 2 ^ 64) (.scb .resourceLimit)
  return BigEndian.bytes 8 bodyBytes.length

section

variable [Blake3]

def capabilityTokenDigest (bodyBytes : Bytes) : Except CapabilityError CapabilityTokenDigest := do
  let length ← bodyLength bodyBytes
  return CapabilityTokenDigest.derive (capabilityDigestMagic ++
    BigEndian.bytes 4 capabilityTokenVersion.toNat ++ length ++ bodyBytes)

/-- The digest of a body, by way of its canonical bytes. -/
def bodyDigest (body : CapabilityTokenBody) : Except CapabilityError CapabilityTokenDigest := do
  let bodyBytes ← (encodeCapabilityBodyRecord body).mapError .scb
  capabilityTokenDigest bodyBytes

/-- Authenticated capability token and its exact canonical bytes. -/
structure CapabilityToken where
  body : CapabilityTokenBody
  digest : CapabilityTokenDigest
  authenticator : CapabilityAuthenticator
  storedBytes : Bytes
  /-- Both ways of making a token digest its body. -/
  digest_eq : bodyDigest body = .ok digest

/-! ### Reading token bytes -/

/-- `RecordReader::new`: at least the expected fields, in ascending order of their tags. -/
def recordFields (expected : Nat) (input : Bytes) : Scb1.Result (List Field) := do
  let (count, reader) ← Reader.readRecordFieldCount.run (Cursor.new input)
  rejectIf (count < expected) .fieldMissing
  rejectIf (count > reader.remaining / 2) .resourceLimit
  let (fields, reader) ← (foldFields (fun tag value fields ↦ .ok (fields ++ [(tag, value)]))
    count none []).run reader
  Reader.checkFinished reader
  return fields

def readCompleteU32 (input : Bytes) : Scb1.Result UInt32 := do
  let (value, reader) ← Reader.readUvarWidth (Cursor.new input) 32
  Reader.checkFinished reader
  return value.toUInt32

def readCompleteU64 (input : Bytes) : Scb1.Result UInt64 := do
  let (value, reader) ← Reader.readUvarWidth (Cursor.new input) 64
  Reader.checkFinished reader
  return value

open Root (exactArray requiredWith)

def takeCapabilityBudget : StateT (List Field) Scb1.Result CapabilityResourceBudget := do
  let maxFuel ← requiredWith 1 readCompleteU64
  let maxMemoryBytes ← requiredWith 2 readCompleteU64
  let maxOutputBytes ← requiredWith 3 readCompleteU64
  let maxEffectCount ← requiredWith 4 readCompleteU64
  let maxMutationCount ← requiredWith 5 readCompleteU64
  let maxAdapterCalls ← requiredWith 6 readCompleteU64
  return ⟨maxFuel, maxMemoryBytes, maxOutputBytes, maxEffectCount, maxMutationCount,
    maxAdapterCalls⟩

/-- A record of which every field is taken. -/
def decodeRecord {α : Type} (expected : Nat) (take : StateT (List Field) Scb1.Result α)
    (input : Bytes) : Scb1.Result α := do
  let fields ← recordFields expected input
  let (value, fields) ← take.run fields
  rejectIf (fields ≠ []) .fieldUnknown
  return value

def decodeCapabilityBudget (input : Bytes) : Scb1.Result CapabilityResourceBudget :=
  decodeRecord 6 takeCapabilityBudget input

def takeCapabilityToken :
    StateT (List Field) Scb1.Result (CapabilityTokenBody × CapabilityAuthenticator) := do
  let version ← requiredWith 1 readCompleteU32
  let issuerId ← requiredWith 2 exactArray
  let keyId ← requiredWith 3 exactArray
  let principalId ← requiredWith 4 exactArray
  let workspaceId ← requiredWith 5 exactArray
  let stateRoot ← requiredWith 6 exactArray
  let effectId ← requiredWith 7 exactArray
  let effectKindTag ← requiredWith 8 readCompleteU32
  let scopeHash ← requiredWith 9 exactArray
  let adapterId ← requiredWith 10 exactArray
  let budget ← requiredWith 11 decodeCapabilityBudget
  let issuedUnixMillis ← requiredWith 12 readCompleteU64
  let expiryUnixMillis ← requiredWith 13 readCompleteU64
  let tokenNonce ← requiredWith 14 exactArray
  let policyRoot ← requiredWith 15 exactArray
  let authenticator ← requiredWith 16 exactArray
  let body : CapabilityTokenBody :=
    { version, issuerId, keyId, principalId, workspaceId, stateRoot, effectId, effectKindTag,
      scopeHash, adapterId, budget, issuedUnixMillis, expiryUnixMillis, tokenNonce, policyRoot }
  return (body, authenticator)

def decodeCapabilityTokenRecord (input : Bytes) :
    Scb1.Result (CapabilityTokenBody × CapabilityAuthenticator) :=
  decodeRecord 16 takeCapabilityToken input

/-- Imports exact canonical token bytes without trusting the authenticator. -/
def importCapabilityToken (input : Bytes) : Except CapabilityError CapabilityToken := do
  let (body, authenticator) ← (decodeCapabilityTokenRecord input).mapError .scb
  validateCapabilityBodyShape body
  match h : bodyDigest body with
  | .error error => .error error
  | .ok digest =>
    let canonical ← (encodeCapabilityTokenRecord body authenticator).mapError .scb
    rejectIf (canonical ≠ input) (.capability .canonicalInvalid)
    return ⟨body, digest, authenticator, canonical, h⟩

/-! ### Issuing -/

variable [KeyedBlake3]

def capabilityAuthenticator (secret : Digest) (body : CapabilityTokenBody)
    (digest : CapabilityTokenDigest) (bodyBytes : Bytes) :
    Except CapabilityError CapabilityAuthenticator := do
  let length ← bodyLength bodyBytes
  let mac := KeyedBlake3.mac secret (capabilityMacMagic ++
    BigEndian.bytes 4 capabilityTokenVersion.toNat ++ body.issuerId.bytes ++ body.keyId.bytes ++
    digest.bytes ++ length ++ bodyBytes)
  return ⟨mac.bytes, mac.length_eq⟩

def finishCapabilityToken (body : CapabilityTokenBody) (trustedKey : CapabilityTrustedKey) :
    Except CapabilityError CapabilityToken := do
  let bodyBytes ← (encodeCapabilityBodyRecord body).mapError .scb
  match h : bodyDigest body with
  | .error error => .error error
  | .ok digest =>
    let authenticator ← capabilityAuthenticator trustedKey.secret body digest bodyBytes
    let stored ← (encodeCapabilityTokenRecord body authenticator).mapError .scb
    return ⟨body, digest, authenticator, stored, h⟩

def validateCapabilityTime (policy : GrantingPolicyRoot) (body : CapabilityTokenBody)
    (nowUnixMillis : UInt64) : Except CapabilityError Unit := do
  rejectIf (nowUnixMillis < body.issuedUnixMillis) (.capability .timeInvalid)
  rejectIf (nowUnixMillis ≥ body.expiryUnixMillis) (.capability .expired)
  match policy.record.expiryUnixMillis with
  | none => return
  | some policyExpiry =>
    rejectIf (body.expiryUnixMillis > policyExpiry) (.capability .timeInvalid)
    rejectIf (nowUnixMillis ≥ policyExpiry) (.capability .expired)

def validateCapabilityPolicyBinding (policy : GrantingPolicyRoot) (body : CapabilityTokenBody)
    (nowUnixMillis : UInt64) : Except CapabilityError Unit := do
  rejectIf (body.policyRoot ≠ policy.root) (.capability .policyRootMismatch)
  rejectIf (body.workspaceId ≠ policy.record.workspaceId) (.capability .workspaceMismatch)
  validateCapabilityTime policy body nowUnixMillis
  let grant ← ofOption (.capability .grantDenied) (policy.principalGrant body.principalId)
  rejectIf (body.effectKindTag ∉ grant.allowedEffectKindTags) (.capability .grantDenied)
  rejectIf (body.adapterId ∉ grant.allowedAdapterIds) (.capability .grantDenied)
  rejectIf (¬ body.budget.fitsWithinCeilings grant.resourceCeilings)
    (.capability .budgetExceeded)

/-- Issues one local-only authenticated capability token. -/
def issueCapabilityToken (policy : GrantingPolicyRoot) (trustedKey : CapabilityTrustedKey)
    (request : CapabilityTokenRequest) : Except CapabilityError CapabilityToken := do
  let body : CapabilityTokenBody :=
    { version := capabilityTokenVersion, issuerId := trustedKey.issuerId
      keyId := trustedKey.keyId, principalId := request.principalId
      workspaceId := request.workspaceId, stateRoot := request.stateRoot
      effectId := request.effectId, effectKindTag := request.effectKind.tag
      scopeHash := request.scopeHash, adapterId := request.adapterId, budget := request.budget
      issuedUnixMillis := request.nowUnixMillis, expiryUnixMillis := request.expiryUnixMillis
      tokenNonce := request.tokenNonce, policyRoot := policy.root }
  validateCapabilityBodyShape body
  validateCapabilityPolicyBinding policy body body.issuedUnixMillis
  finishCapabilityToken body trustedKey

/-! ### Verifying -/

def validateCapabilityRequestBinding (policy : GrantingPolicyRoot) (body : CapabilityTokenBody)
    (request : CapabilityVerificationRequest) : Except CapabilityError Unit := do
  rejectIf (body.policyRoot ≠ policy.root) (.capability .policyRootMismatch)
  rejectIf (request.workspaceId ≠ policy.record.workspaceId ∨
    body.workspaceId ≠ request.workspaceId) (.capability .workspaceMismatch)
  rejectIf (body.principalId ≠ request.principalId) (.capability .principalMismatch)
  rejectIf (body.stateRoot ≠ request.stateRoot) (.capability .stateRootMismatch)
  rejectIf (body.effectId ≠ request.effectId ∨
    body.effectKindTag ≠ request.effectKind.tag) (.capability .effectMismatch)
  rejectIf (body.scopeHash ≠ request.scopeHash) (.capability .scopeMismatch)
  rejectIf (body.adapterId ≠ request.adapterId) (.capability .adapterMismatch)

/-- Comparison without an early exit. -/
def constantTimeEq (left right : Bytes) : Bool :=
  (left.zip right).foldl (fun acc pair ↦ acc ||| (pair.1 ^^^ pair.2)) 0 == 0

/-- Verifies authenticator, trusted issuer and key, policy, exact request, time and budget. -/
def verifyCapabilityToken (policy : GrantingPolicyRoot) (token : CapabilityToken)
    (trustedKey : CapabilityTrustedKey) (request : CapabilityVerificationRequest) :
    Except CapabilityError CapabilityTokenDigest := do
  validateCapabilityBodyShape token.body
  rejectIf (token.body.issuerId ≠ trustedKey.issuerId) (.capability .issuerUntrusted)
  rejectIf (token.body.keyId ≠ trustedKey.keyId) (.capability .keyUntrusted)
  let bodyBytes ← (encodeCapabilityBodyRecord token.body).mapError .scb
  let digest ← capabilityTokenDigest bodyBytes
  rejectIf (digest ≠ token.digest) (.capability .canonicalInvalid)
  let expected ← capabilityAuthenticator trustedKey.secret token.body digest bodyBytes
  rejectIf (¬ constantTimeEq expected.bytes token.authenticator.bytes)
    (.capability .authenticatorInvalid)
  validateCapabilityRequestBinding policy token.body request
  validateCapabilityPolicyBinding policy token.body request.nowUnixMillis
  request.requiredBudget.validateNonzero.mapError .capability
  rejectIf (¬ request.requiredBudget.fitsWithin token.body.budget)
    (.capability .budgetExceeded)
  return token.digest

end

/-! ### The ledger -/

/-- Receipt for one atomic capability-ledger charge. -/
structure CapabilityChargeReceipt where
  tokenDigest : CapabilityTokenDigest
  useNonce : CapabilityUseNonce
  charged : CapabilityResourceBudget
  spentAfter : CapabilityResourceBudget
  remainingAfter : CapabilityResourceBudget
  deriving DecidableEq

/-- Deterministic caller-owned replay and budget ledger. -/
@[ext]
structure CapabilityLedger where
  spentByToken : Std.ExtTreeMap CapabilityTokenDigest CapabilityResourceBudget
  useNonces : Std.ExtTreeSet (CapabilityTokenDigest × CapabilityUseNonce)

instance transOrdUse : Std.TransOrd (CapabilityTokenDigest × CapabilityUseNonce) := inferInstance

namespace CapabilityLedger

/-- An empty caller-owned ledger. -/
def new : CapabilityLedger := ⟨∅, ∅⟩

/-- Cumulative spend for one token digest. -/
def spent (self : CapabilityLedger) (tokenDigest : CapabilityTokenDigest) :
    CapabilityResourceBudget :=
  self.spentByToken[tokenDigest]?.getD .zero

def hasUseNonce (self : CapabilityLedger) (tokenDigest : CapabilityTokenDigest)
    (useNonce : CapabilityUseNonce) : Bool :=
  self.useNonces.contains (tokenDigest, useNonce)

variable [Blake3]

/-- Atomically charges one exact token and use nonce. -/
def charge (token : CapabilityToken) (useNonce : CapabilityUseNonce)
    (amount : CapabilityResourceBudget) :
    Operation CapabilityLedger CapabilityError CapabilityChargeReceipt := do
  .ofExcept (amount.validateNonzero.mapError .capability)
  let tokenDigest := token.digest
  .ofState fun self ↦ rejectIf (self.hasUseNonce tokenDigest useNonce = true)
    (.capability .replay)
  let spentBefore ← .ofState fun self ↦ .ok (self.spent tokenDigest)
  let spentAfter ← .ofExcept
    (ofOption (.capability .ledgerExhausted) (spentBefore.checkedAdd amount))
  .ofExcept (rejectIf (¬ spentAfter.fitsWithin token.body.budget)
    (.capability .ledgerExhausted))
  let remainingAfter ← .ofExcept
    (ofOption (.capability .internalInvariant) (token.body.budget.checkedSub spentAfter))
  .modify fun self ↦ { self with useNonces := self.useNonces.insert (tokenDigest, useNonce) }
  .modify fun self ↦ { self with spentByToken := self.spentByToken.insert tokenDigest spentAfter }
  return { tokenDigest, useNonce, charged := amount, spentAfter, remainingAfter }

end CapabilityLedger

section

variable [Blake3] [KeyedBlake3]

/-- Verifies and then atomically charges one token and use nonce. -/
def verifyAndChargeCapability (policy : GrantingPolicyRoot) (token : CapabilityToken)
    (trustedKey : CapabilityTrustedKey) (request : CapabilityVerificationRequest)
    (useNonce : CapabilityUseNonce) :
    Operation CapabilityLedger CapabilityError CapabilityChargeReceipt := do
  let _ ← .ofExcept (verifyCapabilityToken policy token trustedKey request)
  CapabilityLedger.charge token useNonce request.requiredBudget

end

end Sley.Policy
