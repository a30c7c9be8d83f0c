import Sley.Schema.Registry
import Sley.Scb1.Fields
import Sley.Ssmc.Identity

/-!
# State roots: the record, its builder and its bytes

The nine-field record that names one whole program state (`sley-state-root/src/lib.rs`), the
builder for unordered inputs, and the encoding that the root digest is taken of. The builder sorts
and refuses duplicates, the map encoder sorts once more; the decoder of the next module only checks.

The epoch under which the builder authorizes its records is the digest of a frozen schema record.
It is a parameter, `ConformanceEpoch`.
-/

namespace Sley.Root

open Scb1 Schema
open Except (ofOption rejectIf)
open Reader (checkFinished expect readExactBytes readSizedPayload)

/-- The frozen conformance epoch, `conformance_epoch_id`. -/
class ConformanceEpoch where
  epochId : Except SchemaErrorCode SchemaEpochId

/-! ### Failures -/

/-- Stable `StateRoot` failure code. -/
inductive StateRootErrorCode
  | duplicateInput
  | entryUnbound
  | flagUnknown
  | excludedFact
  deriving DecidableEq, Repr

/-- Exact `StateRoot` failure preserving schema and SCB errors. -/
inductive StateRootError
  | stateRoot (code : StateRootErrorCode)
  | schema (code : SchemaErrorCode)
  | scb (code : ScbErrorCode)
  deriving DecidableEq, Repr

def StateRootError.ofEpochDecodeError : EpochDecodeError → StateRootError
  | .schema code => .schema code
  | .scb code => .scb code

/-! ### The record -/

/-- Typed nine-field `StateRoot` record. -/
structure StateRootRecord where
  workspaceId : WorkspaceId
  schemaEpochId : SchemaEpochId
  entityBindings : List (EntityId × ObjectId)
  entryPoints : List EntityId
  dependencyRoots : List StateRoot
  contractRoot : ObjectId
  testRoot : ObjectId
  policyRoot : PolicyRootId
  interpretationFlags : List UInt32
  deriving DecidableEq

/-- Registry-authorized `StateRoot` with its exact stored bytes. -/
structure AcceptedStateRoot where
  root : StateRoot
  storedBytes : Bytes
  record : StateRootRecord
  deriving DecidableEq

/-- Builder for unordered semantic `StateRoot` inputs. -/
structure StateRootBuilder where
  workspaceId : WorkspaceId
  entityBindings : List (EntityId × ObjectId)
  entryPoints : List EntityId
  dependencyRoots : List StateRoot
  contractRoot : ObjectId
  testRoot : ObjectId
  policyRoot : PolicyRootId
  interpretationFlags : List UInt32

/-! ### Writing -/

/-- `SLEYSCB1`. -/
def magic : Bytes := [0x53, 0x4c, 0x45, 0x59, 0x53, 0x43, 0x42, 0x31]

def formatVersion : UInt64 := 1

def contractTag : UInt32 := 160

def encodeIdSet {kind : IdKind} (values : List (Id kind)) : Scb1.Result Bytes :=
  encodeList (values.map Id.bytes)

def encodeU32Set (values : List UInt32) : Scb1.Result Bytes :=
  encodeList (values.map fun value ↦ encodeUvar value.toUInt64)

def encodePayload (record : StateRootRecord) : Except StateRootError Bytes :=
  Except.mapError .scb do
    let bindings ← encodeMap
      (record.entityBindings.map fun (entityId, objectId) ↦ (entityId.bytes, objectId.bytes))
    let entryPoints ← encodeIdSet record.entryPoints
    let dependencyRoots ← encodeIdSet record.dependencyRoots
    let interpretationFlags ← encodeU32Set record.interpretationFlags
    encodeRecord
      [(1, record.workspaceId.bytes),
        (2, record.schemaEpochId.bytes),
        (3, bindings),
        (4, entryPoints),
        (5, dependencyRoots),
        (6, record.contractRoot.bytes),
        (7, record.testRoot.bytes),
        (8, record.policyRoot.bytes),
        (9, interpretationFlags)]

/-- What the root digest is taken of. -/
def rootPreimage (epochId : SchemaEpochId) (payload : Bytes) : Bytes :=
  magic ++ encodeUvar formatVersion ++ encodeUvar contractTag.toUInt64 ++ epochId.bytes ++
    encodeCount payload.length ++ payload

section

variable [Blake3]

/-- The standalone bytes of a payload, with its digest behind it. -/
def storedBytes (epochId : SchemaEpochId) (payload : Bytes) :
    Except StateRootError (Bytes × StateRoot) := do
  let root := StateRoot.derive (rootPreimage epochId payload)
  let stored := rootPreimage epochId payload ++ root.bytes
  rejectIf (stored.length > maxStandaloneBytes) (.scb .resourceLimit)
  return (stored, root)

/-- The standalone bytes of a record. -/
def encodeStateRoot (record : StateRootRecord) : Except StateRootError (Bytes × StateRoot) := do
  let payload ← encodePayload record
  storedBytes record.schemaEpochId payload

/-- Recomputes the digest committed by the nine fields, without registry authorization. -/
def recomputeRoot (record : StateRootRecord) : Except StateRootError StateRoot := do
  let (_, root) ← encodeStateRoot record
  return root

end

/-! ### Reading -/

def exactArray {kind : IdKind} (input : Bytes) : Scb1.Result (Id kind) :=
  if h : input.length = 32 then .ok ⟨input, h⟩ else .error .lengthOverflow

/-- A framed identity. -/
def readSizedId (kind : IdKind) : ScbReader (Id kind) := do
  let payload ← readSizedPayload
  StateT.ofExcept (exactArray payload)

section Ascending

variable {κ β : Type} [Ord κ] [DecidableEq κ]

/-- A key that stands below the one before, or repeats it, is refused. -/
def checkKeyOrder (previous : Option κ) (key : κ) : Scb1.Result Unit := do
  rejectIf (previous.any fun prior ↦ compare prior key = .gt) .mapOrder
  rejectIf (previous = some key) .mapDuplicate

/-- The loop of `decode_bindings`, `decode_fixed_set` and `decode_u32_set_payload`: a key, which is
compared with the one before, and then the rest of the element. -/
def readAscending (readKey : ScbReader κ) (readRest : κ → ScbReader β) :
    Nat → Option κ → ScbReader (List β)
  | 0, _ => return []
  | n + 1, previous => do
    let key ← readKey
    StateT.ofExcept (checkKeyOrder previous key)
    let element ← readRest key
    let elements ← readAscending readKey readRest n (some key)
    return element :: elements

/-- A whole collection, whose elements take at least `unit` bytes each. -/
def decodeAscending (unit : Nat) (readKey : ScbReader κ) (readRest : κ → ScbReader β)
    (input : Bytes) : Scb1.Result (List β) := do
  let (count, reader) ← Reader.readListCount.run (Cursor.new input)
  rejectIf (count > reader.remaining / unit) .resourceLimit
  let (elements, reader) ← (readAscending readKey readRest count none).run reader
  checkFinished reader
  return elements

end Ascending

def decodeBindings (input : Bytes) : Scb1.Result (List (EntityId × ObjectId)) :=
  decodeAscending 34 (readSizedId .entity)
    (fun key ↦ do
      let value ← readSizedId .object
      return (key, value))
    input

/-- `decode_id_set` and `decode_root_set`. -/
def decodeFixedSet (kind : IdKind) (input : Bytes) : Scb1.Result (List (Id kind)) :=
  decodeAscending 33 (readSizedId kind) (fun value ↦ return value) input

/-- One flag, which is all of its element. -/
def decodeFlag (element : Bytes) : Scb1.Result UInt32 := do
  let (value, nested) ← Reader.readTag.run (Cursor.new element)
  checkFinished nested
  return value

def decodeU32SetPayload (input : Bytes) : Scb1.Result (List UInt32) :=
  decodeAscending 1 readSizedPayload (fun element ↦ StateT.ofExcept (decodeFlag element))
    input

/-- `RecordReader::new`: the fields of a payload, in ascending order of their tags. -/
def recordFields (input : Bytes) : Scb1.Result (List Field) := do
  let (count, reader) ← Reader.readRecordFieldCount.run (Cursor.new input)
  rejectIf (count < 9) .fieldMissing
  rejectIf (count > reader.remaining / 2) .resourceLimit
  let (fields, reader) ← (foldFields (fun tag value fields ↦ .ok (fields ++ [(tag, value)]))
    count none []).run reader
  checkFinished reader
  return fields

/-- Remove one field by its tag. -/
def required (tag : UInt32) : StateT (List Field) Scb1.Result Bytes := fun fields ↦
  match fields.find? fun field ↦ field.1 = tag with
  | some field => .ok (field.2, fields.eraseP fun field ↦ field.1 = tag)
  | none => .error .fieldMissing

/-- Remove one field by its tag and decode it. -/
def requiredWith {α : Type} (tag : UInt32) (decode : Bytes → Scb1.Result α) :
    StateT (List Field) Scb1.Result α := do
  let payload ← required tag
  StateT.ofExcept (decode payload)

def takeRecord : StateT (List Field) Scb1.Result StateRootRecord := do
  let workspaceId ← requiredWith 1 exactArray
  let schemaEpochId ← requiredWith 2 exactArray
  let entityBindings ← requiredWith 3 decodeBindings
  let entryPoints ← requiredWith 4 (decodeFixedSet .entity)
  let dependencyRoots ← requiredWith 5 (decodeFixedSet .stateRoot)
  let contractRoot ← requiredWith 6 exactArray
  let testRoot ← requiredWith 7 exactArray
  let policyRoot ← requiredWith 8 exactArray
  let interpretationFlags ← requiredWith 9 decodeU32SetPayload
  return {
    workspaceId := workspaceId
    schemaEpochId := schemaEpochId
    entityBindings := entityBindings
    entryPoints := entryPoints
    dependencyRoots := dependencyRoots
    contractRoot := contractRoot
    testRoot := testRoot
    policyRoot := policyRoot
    interpretationFlags := interpretationFlags }

/-- Every entry point is bound, and epoch 1 has no interpretation flags. -/
def validateRecordSemantics (record : StateRootRecord) : Except StateRootErrorCode Unit := do
  rejectIf (record.interpretationFlags ≠ []) .flagUnknown
  rejectIf (∃ entry ∈ record.entryPoints, entry ∉ record.entityBindings.map Prod.fst)
    .entryUnbound

/-- How a preserved decoder reports a semantic failure. -/
def StateRootErrorCode.toScb : StateRootErrorCode → ScbErrorCode
  | entryUnbound | flagUnknown => .fieldUnknown
  | duplicateInput | excludedFact => .fieldDuplicate

def decodePayload (input : Bytes) (enforceSemantics : Bool) : Scb1.Result StateRootRecord := do
  let fields ← recordFields input
  let (out, fields) ← takeRecord.run fields
  rejectIf (fields ≠ []) .fieldUnknown
  if enforceSemantics then
    (validateRecordSemantics out).mapError StateRootErrorCode.toScb
  return out

/-- The parts of an envelope: epoch, payload and the digest behind it. -/
def readEnvelope : ScbReader (SchemaEpochId × Bytes × Bytes) := do
  let _ ← expect (readExactBytes magic.length) magic .magicInvalid
  let _ ← expect (Reader.readUvarWidth · 64) formatVersion .versionUnsupported
  let _ ← expect (Reader.readUvarWidth · 32) contractTag.toUInt64 .contractUnknown
  let epochBytes ← readExactBytes 32
  let epochId ← StateT.ofExcept (exactArray epochBytes)
  let payload ← readSizedPayload
  let found ← readExactBytes 32
  return (epochId, payload, found)

/-! ### Authorization -/

/-- Preserved epoch-1 decoder for the registered conformance epoch. -/
structure StateRootEpoch1Decoder where
  epochId : SchemaEpochId

instance : EpochDecoder StateRootEpoch1Decoder where
  epochId := StateRootEpoch1Decoder.epochId
  decodeContract decoder tag input := do
    rejectIf (tag ≠ contractTag) .contractUnknown
    let record ← decodePayload input true
    rejectIf (record.schemaEpochId ≠ decoder.epochId) .epochMismatch

def fieldSchemaHash : Digest where
  bytes :=
    [0x93, 0x58, 0x3a, 0x07, 0x96, 0xc6, 0xaa, 0x11, 0x4d, 0xe0, 0x85, 0x00, 0x14, 0xb2, 0xe6, 0xce,
      0x70, 0x05, 0x47, 0x9e, 0xb0, 0xe3, 0x0a, 0x5a, 0x68, 0xda, 0x0a, 0x3e, 0xb0, 0x23, 0xee, 0x53]
  length_eq := rfl

def decoderLimitsHash : Digest where
  bytes :=
    [0xc4, 0x83, 0x1b, 0xde, 0x69, 0x13, 0x62, 0x09, 0x94, 0xab, 0x5a, 0x22, 0x6f, 0xc2, 0x86, 0x8e,
      0x62, 0x6e, 0x0d, 0xd0, 0x7b, 0x95, 0x24, 0xbd, 0x3d, 0x72, 0x93, 0xfb, 0xd8, 0xae, 0x06, 0x23]
  length_eq := rfl

def expectedDescriptor : ContractDescriptor where
  contractTag := contractTag
  digestDomainTag := 4
  kindTag := 160
  fieldSchemaHash := fieldSchemaHash
  requiredFields := [1, 2, 3, 4, 5, 6, 7, 8, 9]
  optionalFields := []
  variantTags := []
  decoderLimitsHash := decoderLimitsHash

/-- A registry with the preserved state-root decoders. -/
abbrev StateRootRegistry := SchemaEpochRegistry StateRootEpoch1Decoder

def authorize (registry : StateRootRegistry) (epochId : SchemaEpochId) (payload : Bytes) :
    Except StateRootError Unit := do
  let descriptor ← (registry.lookupContract epochId contractTag).mapError .schema
  rejectIf (descriptor ≠ expectedDescriptor) (.schema .contractUnknown)
  (registry.decodeContract epochId contractTag payload).mapError .ofEpochDecodeError

/-! ### The two entry points -/

def checkBuilderCount (count : Nat) : Except StateRootError Unit :=
  rejectIf (count > maxCollectionElements) (.scb .resourceLimit)

def rejectUnknownFlags (flags : List UInt32) : Except StateRootError Unit :=
  rejectIf (flags ≠ []) (.stateRoot .flagUnknown)

def sortBindings (bindings : List (EntityId × ObjectId)) :
    Except StateRootError (List (EntityId × ObjectId)) :=
  ofOption (.stateRoot .duplicateInput) (sortUnique Prod.fst bindings)

/-- `sort_unique`. -/
def sortUniqueInputs {α : Type} [Ord α] [DecidableEq α] (values : List α) :
    Except StateRootError (List α) :=
  ofOption (.stateRoot .duplicateInput) (sortUnique id values)

section

variable [Blake3]

/-- Builds and authorizes a `StateRoot` under the registered conformance epoch. -/
def StateRootBuilder.build [ConformanceEpoch] (self : StateRootBuilder)
    (registry : StateRootRegistry) : Except StateRootError AcceptedStateRoot := do
  checkBuilderCount self.entityBindings.length
  checkBuilderCount self.entryPoints.length
  checkBuilderCount self.dependencyRoots.length
  checkBuilderCount self.interpretationFlags.length
  rejectUnknownFlags self.interpretationFlags
  let entityBindings ← sortBindings self.entityBindings
  let entryPoints ← sortUniqueInputs self.entryPoints
  let dependencyRoots ← sortUniqueInputs self.dependencyRoots
  let interpretationFlags ← sortUniqueInputs self.interpretationFlags
  rejectIf (∃ entry ∈ entryPoints, entry ∉ entityBindings.map Prod.fst)
    (.stateRoot .entryUnbound)
  let epochId ← ConformanceEpoch.epochId.mapError .schema
  let record : StateRootRecord :=
    { workspaceId := self.workspaceId, schemaEpochId := epochId, entityBindings, entryPoints,
      dependencyRoots, contractRoot := self.contractRoot, testRoot := self.testRoot,
      policyRoot := self.policyRoot, interpretationFlags }
  let payload ← encodePayload record
  authorize registry epochId payload
  let (stored, root) ← storedBytes epochId payload
  return { root, storedBytes := stored, record }

/-- The envelope of standalone bytes: epoch, payload and root. -/
def decodeEnvelope (input : Bytes) : Scb1.Result (SchemaEpochId × Bytes × StateRoot) := do
  rejectIf (input.length > maxStandaloneBytes) .resourceLimit
  let ((epochId, payload, found), reader) ← readEnvelope.run (Cursor.new input)
  checkFinished reader
  let root := StateRoot.derive (input.take (input.length - 32))
  rejectIf (found ≠ root.bytes) .digestMismatch
  return (epochId, payload, root)

/-- Imports exact stored bytes through the selected preserved decoder. -/
def importStateRoot (registry : StateRootRegistry) (input : Bytes) :
    Except StateRootError AcceptedStateRoot := do
  let (epochId, payload, root) ← (decodeEnvelope input).mapError .scb
  let record ← (decodePayload payload false).mapError .scb
  rejectIf (record.schemaEpochId ≠ epochId) (.scb .epochMismatch)
  (validateRecordSemantics record).mapError .stateRoot
  authorize registry epochId payload
  return { root, storedBytes := input, record }

end

end Sley.Root
