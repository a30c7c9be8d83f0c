import Sley.Lib.SortUnique
import Sley.Ssmc.Order

/-!
# The schema epoch registry

The exact-ID registry of `sley-schema/src/lib.rs`: for every schema epoch the contracts it declares
and the one decoder that is preserved for it. Selection never falls back: an epoch or a contract
that is absent is an error of its own.

Of an epoch record only its contracts are read after the entry is built, so an entry carries these;
that the entry's key and its decoder name one epoch, and that the entries ascend by key, are fields.
-/

namespace Sley.Schema

open Scb1 (Bytes ScbErrorCode)

/-- Stable schema failure code. -/
inductive SchemaErrorCode
  | epochMismatch
  | downgrade
  | contractUnknown
  | migrationUnsupported
  | equivalenceFailed
  | selfModification
  | rootOverwriteForbidden
  | recordInvalid
  deriving DecidableEq, Repr

/-- Exact failure from registry selection or the preserved epoch decoder. -/
inductive EpochDecodeError
  | schema (code : SchemaErrorCode)
  | scb (code : ScbErrorCode)
  deriving DecidableEq, Repr

/-- Frozen contract descriptor. -/
structure ContractDescriptor where
  contractTag : UInt32
  digestDomainTag : UInt32
  kindTag : UInt32
  fieldSchemaHash : Digest
  requiredFields : List UInt32
  optionalFields : List UInt32
  variantTags : List UInt32
  decoderLimitsHash : Digest
  deriving DecidableEq

/-- Decoder preserved for one exact schema epoch. -/
class EpochDecoder (δ : Type) where
  epochId : δ → SchemaEpochId
  decodeContract : δ → UInt32 → Bytes → Scb1.Result Unit

variable {δ : Type} [EpochDecoder δ]

/-- Immutable registry entry. -/
structure RegistryEntry (δ : Type) [EpochDecoder δ] where
  epochId : SchemaEpochId
  contracts : List ContractDescriptor
  decoder : δ
  decoder_epochId : EpochDecoder.epochId decoder = epochId

/-- Immutable, exact-ID schema epoch registry. -/
structure SchemaEpochRegistry (δ : Type) [EpochDecoder δ] where
  entries : List (RegistryEntry δ)
  sorted : Ascends RegistryEntry.epochId entries

namespace SchemaEpochRegistry

/-- The exact registry entry for an epoch; the keys are distinct, so there is at most one. -/
def lookup (registry : SchemaEpochRegistry δ) (epochId : SchemaEpochId) :
    Except SchemaErrorCode (RegistryEntry δ) :=
  Except.ofOption .epochMismatch (registry.entries.find? fun entry ↦ entry.epochId = epochId)

/-- Performs exact contract lookup inside one selected epoch. -/
def lookupContract (registry : SchemaEpochRegistry δ) (epochId : SchemaEpochId)
    (contractTag : UInt32) : Except SchemaErrorCode ContractDescriptor := do
  let entry ← registry.lookup epochId
  Except.ofOption .contractUnknown
    (entry.contracts.find? fun contract ↦ contract.contractTag = contractTag)

/-- Selects one exact epoch and contract, then invokes only its preserved decoder. -/
def decodeContract (registry : SchemaEpochRegistry δ) (epochId : SchemaEpochId)
    (contractTag : UInt32) (input : Bytes) : Except EpochDecodeError Unit := do
  let entry ← (registry.lookup epochId).mapError .schema
  Except.rejectIf (¬ entry.contracts.any fun contract ↦ contract.contractTag = contractTag)
    (.schema .contractUnknown)
  (EpochDecoder.decodeContract entry.decoder contractTag input).mapError .scb

variable {registry : SchemaEpochRegistry δ} {epochId : SchemaEpochId}

/-- A payload passes exactly when the decoder of the selected epoch takes it. -/
theorem decodeContract_eq_ok {contractTag : UInt32} {input : Bytes} {u : Unit} :
    registry.decodeContract epochId contractTag input = .ok u ↔
      ∃ entry, registry.lookup epochId = .ok entry ∧
        (∃ contract ∈ entry.contracts, contract.contractTag = contractTag) ∧
        EpochDecoder.decodeContract entry.decoder contractTag input = .ok u := by
  simp [decodeContract, Except.bind_eq_ok]

end SchemaEpochRegistry

end Sley.Schema
