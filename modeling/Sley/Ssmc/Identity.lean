import Sley.Scb1.Value
import Sley.Ssmc.Types

/-!
# Derived identities

Content addresses of the project (`sley-id/src/lib.rs`): a BLAKE3 digest over a domain separator
and the preimage that the owning contract defines. **The hash function is a parameter**, and so is
Unicode normalisation; nothing in the codecs depends on what they compute, only on their being
functions.
-/

namespace Sley

open Scb1

/-- The BLAKE3 hash function. -/
class Blake3 where
  hash : Bytes → Digest

/-- Normalisation form C of the Unicode standard. -/
class UnicodeNormalization where
  nfc : String → String

/-- What a digest is taken of; the separator keeps the digests of different contracts apart. -/
inductive Domain
  | entity
  | object
  | candidate
  | validationProfile
  | stateRoot
  | transaction
  | receipt
  | capabilityToken
  | protocolHandshake
  | protocolFrame
  | session
  deriving DecidableEq, Repr

/-- The exact frozen domain separator. -/
def Domain.bytes : Domain → Bytes
  | entity => textBytes "sley2.entity.v1"
  | object => textBytes "sley2.object.v1"
  | candidate => textBytes "sley2.candidate.v1"
  | validationProfile => textBytes "sley2.validation-profile.v1"
  | stateRoot => textBytes "sley2.state-root.v1"
  | transaction => textBytes "sley2.transaction.v1"
  | receipt => textBytes "sley2.transaction-receipt.v1"
  | capabilityToken => textBytes "sley2.capability-token.v1"
  | protocolHandshake => textBytes "sley2.protocol-handshake.v1"
  | protocolFrame => textBytes "sley2.protocol-frame.v1"
  | session => textBytes "sley2.session.v1"

section

variable [Blake3]

/-- The digest of a preimage under a domain, as an identity of one kind. -/
def digest {kind : IdKind} (domain : Domain) (preimage : Bytes) : Id kind :=
  let hash := Blake3.hash (domain.bytes ++ preimage)
  ⟨hash.bytes, hash.length_eq⟩

/-- `ObjectId::derive`. -/
def ObjectId.derive (preimage : Bytes) : ObjectId := digest .object preimage

/-- `CandidateId::derive`. -/
def CandidateId.derive (preimage : Bytes) : CandidateId := digest .candidate preimage

/-- `ValidationProfileId::derive`. -/
def ValidationProfileId.derive (preimage : Bytes) : ValidationProfileId :=
  digest .validationProfile preimage

/-- `StateRoot::derive`. -/
def StateRoot.derive (preimage : Bytes) : StateRoot := digest .stateRoot preimage

/-- `TransactionId::derive`. -/
def TransactionId.derive (preimage : Bytes) : TransactionId := digest .transaction preimage

/-- `ReceiptId::derive`. -/
def ReceiptId.derive (preimage : Bytes) : ReceiptId := digest .receipt preimage

/-- `CapabilityTokenDigest::derive`. -/
def CapabilityTokenDigest.derive (preimage : Bytes) : CapabilityTokenDigest :=
  digest .capabilityToken preimage

/-- `ProtocolHandshakeId::derive`. -/
def ProtocolHandshakeId.derive (preimage : Bytes) : ProtocolHandshakeId :=
  digest .protocolHandshake preimage

/-- `ProtocolFrameId::derive`. -/
def ProtocolFrameId.derive (preimage : Bytes) : ProtocolFrameId := digest .protocolFrame preimage

/-- `SessionId::derive`. -/
def SessionId.derive (preimage : Bytes) : SessionId := digest .session preimage

/-- `EntityId::derive`: from workspace, candidate nonce, kind and creation ordinal. -/
def EntityId.derive (workspaceId : WorkspaceId) (candidateNonce : CandidateNonce)
    (entityKind : UInt32) (creationOrdinal : UInt64) : EntityId :=
  digest .entity (workspaceId.bytes ++ candidateNonce.bytes ++
    BigEndian.bytes 4 entityKind.toNat ++ BigEndian.bytes 8 creationOrdinal.toNat)

end

section

variable [UnicodeNormalization]

/-- Encodes a label that is already in normalisation form C. -/
def encodeNormalizedLabel (label : String) : Result Bytes :=
  if UnicodeNormalization.nfc label = label then encodeText label else .error .labelNotNfc

theorem encodeNormalizedLabel_eq_ok {label : String} {bs : Bytes} :
    encodeNormalizedLabel label = .ok bs ↔
      UnicodeNormalization.nfc label = label ∧ (textBytes label).length ≤ maxBytePayload ∧
        bs = sizedBytes (textBytes label) := by
  rw [encodeNormalizedLabel]
  split
  · rename_i hnfc
    rw [encodeText, encodeBytes_eq_ok, and_iff_right hnfc]
  · rename_i hnfc
    simp [hnfc]

end

end Sley
