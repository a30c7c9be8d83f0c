import Sley.Txn.Transaction

/-!
# Branch records

The two stored files of a branch (`sley-repo/src/refs.rs`): the immutable record of its origin and
the mutable ref. Each is a record behind a magic, a version and a length, followed by a digest whose
domain differs between the two.

Both readers go over the cursor field by field and the writers use the generic encoder. **Import
inverts build** (`importBranchRecord_eq_ok`, `importBranchRef_eq_ok`), without a condition: the name
is checked by its type, the dependency roots by both sides, and the reader of the list looks at the
count before it allocates but refuses nothing that is well formed.
-/

namespace Sley.Repo

open Scb1 Ssmc Mutate Txn
open Except hiding ok error
open List (append_nil length_append)
open Cursor (new new_rest)
open Reader (new new_eq_ok readWhole takeExact_eq_ok)

/-- Stable native-ref failure code. -/
inductive BranchErrorCode
  | refFormatVersion
  | refNameInvalid
  | refNameReserved
  | refDigestMismatch
  | refFieldShape
  | refBranchBindingMismatch
  | refNotFound
  | refAlreadyExists
  | refNameCollision
  | refTargetMismatch
  | refNamedCasStale
  | branchRecordFormatVersion
  | branchRecordDigestMismatch
  | branchRecordFieldShape
  | branchOriginMismatch
  | branchNotFastForward
  | branchAncestryCycle
  | branchResourceLimit
  | recoveryNamedRefIncomplete
  | refIo
  | refInternalInvariant
  deriving DecidableEq, Repr

abbrev BranchResult (α : Type) := Except BranchErrorCode α

/-- Any failure of a computation is this one. -/
def withCode {α : Type} (code : BranchErrorCode) (x : Scb1.Result α) : BranchResult α :=
  x.mapError fun _ ↦ code

@[simp]
theorem withCode_eq_ok {α : Type} {code : BranchErrorCode} {x : Scb1.Result α} {a : α} :
    withCode code x = .ok a ↔ x = .ok a :=
  mapError_eq_ok

/-! ### Names -/

def maxBranchNameBytes : Nat := 255

def maxBranchComponents : Nat := 8

def maxBranchComponentBytes : Nat := 63

def reservedComponents : List Bytes :=
  ["accepted", "branch", "branches", "head", "heads", "lock", "locks", "object", "objects", "ref",
    "refs", "tag", "tags", "transaction", "transactions"].map textBytes

def isAsciiLowercase (byte : UInt8) : Bool := 0x61 ≤ byte && byte ≤ 0x7a

def isAsciiUppercase (byte : UInt8) : Bool := 0x41 ≤ byte && byte ≤ 0x5a

def isAsciiDigit (byte : UInt8) : Bool := 0x30 ≤ byte && byte ≤ 0x39

def isAsciiAlphanumeric (byte : UInt8) : Bool :=
  isAsciiLowercase byte || isAsciiUppercase byte || isAsciiDigit byte

/-- A component between slashes is not one of a branch name. -/
def componentInvalid (component : Bytes) : Bool :=
  component.isEmpty || decide (component.length > maxBranchComponentBytes) ||
    !component.all (fun byte ↦ isAsciiLowercase byte || isAsciiDigit byte || byte == 0x2e ||
      byte == 0x5f || byte == 0x2d) ||
    !component.head?.any isAsciiAlphanumeric || !component.getLast?.any isAsciiAlphanumeric ||
    (textBytes ".lock").isSuffixOf component

/-- The checks of `BranchName::parse`. -/
def validateBranchName (bytes : Bytes) : BranchResult Unit := do
  rejectIf (bytes.isEmpty ∨ bytes.length > maxBranchNameBytes) .refNameInvalid
  let components := bytes.splitOn 0x2f
  rejectIf (components.isEmpty ∨ components.length > maxBranchComponents) .refNameInvalid
  rejectIf (components.any componentInvalid) .refNameInvalid
  rejectIf (components.any reservedComponents.contains) .refNameReserved

/-- Exact validated lowercase ASCII branch name. -/
@[ext]
structure BranchName where
  bytes : Bytes
  valid : validateBranchName bytes = .ok ()
  deriving DecidableEq

namespace BranchName

/-- Validates exact bytes without rewriting them. -/
def parse (bytes : Bytes) : BranchResult BranchName :=
  match h : validateBranchName bytes with
  | .ok _ => .ok ⟨bytes, h⟩
  | .error e => .error e

theorem parse_eq_ok {bytes : Bytes} {name : BranchName} :
    parse bytes = .ok name ↔ bytes = name.bytes := by
  constructor
  · intro h
    unfold parse at h
    split at h
    · obtain rfl := Except.ok.inj h
      rfl
    · cases h
  · rintro rfl
    unfold parse
    split
    · rfl
    · rename_i herror
      rw [name.valid] at herror
      cases herror

theorem length_le (name : BranchName) : name.bytes.length ≤ maxBranchNameBytes := by
  have h := name.valid
  rw [validateBranchName, bind_eq_ok] at h
  obtain ⟨_, h, -⟩ := h
  rw [rejectIf_eq_ok, not_or, gt_iff_lt, Nat.not_lt] at h
  exact h.2

end BranchName

/-! ### Records -/

/-- Integrity digest for one immutable branch-origin record. -/
abbrev BranchRecordDigest := Digest

/-- Canonical immutable branch-origin facts. -/
structure BranchRecord where
  formatVersion : UInt32
  branchName : BranchName
  workspaceId : WorkspaceId
  originTransactionId : TransactionId
  originStateRoot : StateRoot
  schemaEpochId : SchemaEpochId
  policyRootId : PolicyRootId
  dependencyRoots : List StateRoot
  deriving DecidableEq

/-- Canonical mutable visible-ref facts. -/
structure BranchRefRecord where
  formatVersion : UInt32
  branchName : BranchName
  branchRecordDigest : BranchRecordDigest
  workspaceId : WorkspaceId
  headTransactionId : TransactionId
  headStateRoot : StateRoot
  schemaEpochId : SchemaEpochId
  policyRootId : PolicyRootId
  dependencyRoots : List StateRoot
  deriving DecidableEq

/-- A strictly imported record: its integrity digest, the preimage of that and the stored bytes. -/
structure ImportedRecord (ρ : Type) where
  record : ρ
  digest : Digest
  preimage : Bytes
  storedBytes : Bytes
  deriving DecidableEq

abbrev ImportedBranchRecord := ImportedRecord BranchRecord

abbrev ImportedBranchRef := ImportedRecord BranchRefRecord

/-- `SLEYBR01`. -/
def branchMagic : Bytes := [0x53, 0x4c, 0x45, 0x59, 0x42, 0x52, 0x30, 0x31]

/-- `SLEYRF01`. -/
def refMagic : Bytes := [0x53, 0x4c, 0x45, 0x59, 0x52, 0x46, 0x30, 0x31]

def recordVersion : UInt32 := 1

def branchDigestDomain : Bytes := textBytes "sley2.branch-record.v1"

def refDigestDomain : Bytes := textBytes "sley2.branch-ref.v1"

def digestLen : Nat := 32

/-! ### Payloads -/

def validateDependencies (values : List StateRoot) (code : BranchErrorCode) : BranchResult Unit :=
  rejectIf (¬ values.IsChain fun left right ↦ compare left right = .lt) code

def encodeDependencies (values : List StateRoot) : BranchResult Bytes := do
  rejectIf (values.length > maxCollectionElements) .branchResourceLimit
  withCode .branchResourceLimit (encodeList (values.map Id.bytes))

def decodeRequiredRecord (input : Bytes) (expectedCount : Nat) (code : BranchErrorCode) :
    BranchResult (List Bytes) :=
  withCode code (readWhole (readRequiredRecord expectedCount) input)

def readU32 (input : Bytes) (code : BranchErrorCode) : BranchResult UInt32 :=
  withCode code (readWhole Reader.readTag input)

def readFixed {kind : IdKind} (input : Bytes) (code : BranchErrorCode) : BranchResult (Id kind) :=
  withCode code (decodeFixed kind input)

def readBytes (input : Bytes) (code : BranchErrorCode) : BranchResult Bytes :=
  withCode code (readWhole Reader.readBytes input)

/-- The loop of `decode_dependencies`. -/
def readDependencies (code : BranchErrorCode) :
    Nat → Scb1.Reader → BranchResult (List StateRoot × Scb1.Reader)
  | 0, cursor => .ok ([], cursor)
  | n + 1, cursor => do
    let (payload, cursor) ← withCode code (Reader.readSizedPayload.run cursor)
    let value ← readFixed payload code
    let (values, cursor) ← readDependencies code n cursor
    return (value :: values, cursor)

def decodeDependencies (input : Bytes) (code : BranchErrorCode) : BranchResult (List StateRoot) := do
  let cursor ← withCode code (new input)
  let (count, cursor) ← (Reader.readListCount.run cursor).mapError fun error ↦
    if error = .resourceLimit then .branchResourceLimit else code
  -- so many roots take at least this much
  rejectIf (count * (digestLen + 1) > input.length - cursor.position) code
  let (values, cursor) ← readDependencies code count cursor
  withCode code cursor.checkFinished
  validateDependencies values code
  return values

def encodeBranchRecord (record : BranchRecord) : BranchResult Bytes := do
  rejectIf (record.formatVersion ≠ recordVersion) .branchRecordFormatVersion
  validateDependencies record.dependencyRoots .branchRecordFieldShape
  let dependencies ← encodeDependencies record.dependencyRoots
  let branchName ← withCode .branchRecordFieldShape (encodeBytes record.branchName.bytes)
  withCode .branchRecordFieldShape (encodeRecord
    [(1, encodeUvar record.formatVersion.toUInt64),
      (2, branchName),
      (3, record.workspaceId.bytes),
      (4, record.originTransactionId.bytes),
      (5, record.originStateRoot.bytes),
      (6, record.schemaEpochId.bytes),
      (7, record.policyRootId.bytes),
      (8, dependencies)])

def decodeBranchRecord (payload : Bytes) : BranchResult BranchRecord := do
  match ← decodeRequiredRecord payload 8 .branchRecordFieldShape with
  | [f₁, f₂, f₃, f₄, f₅, f₆, f₇, f₈] =>
    let formatVersion ← readU32 f₁ .branchRecordFieldShape
    rejectIf (formatVersion ≠ recordVersion) .branchRecordFormatVersion
    let name ← readBytes f₂ .branchRecordFieldShape
    let branchName ← BranchName.parse name
    let workspaceId ← readFixed f₃ .branchRecordFieldShape
    let originTransactionId ← readFixed f₄ .branchRecordFieldShape
    let originStateRoot ← readFixed f₅ .branchRecordFieldShape
    let schemaEpochId ← readFixed f₆ .branchRecordFieldShape
    let policyRootId ← readFixed f₇ .branchRecordFieldShape
    let dependencyRoots ← decodeDependencies f₈ .branchRecordFieldShape
    return {
      formatVersion, branchName, workspaceId, originTransactionId, originStateRoot, schemaEpochId
      policyRootId, dependencyRoots }
  | _ => .error .branchRecordFieldShape

def encodeBranchRef (record : BranchRefRecord) : BranchResult Bytes := do
  rejectIf (record.formatVersion ≠ recordVersion) .refFormatVersion
  validateDependencies record.dependencyRoots .refFieldShape
  let dependencies ← encodeDependencies record.dependencyRoots
  let branchName ← withCode .refFieldShape (encodeBytes record.branchName.bytes)
  withCode .refFieldShape (encodeRecord
    [(1, encodeUvar record.formatVersion.toUInt64),
      (2, branchName),
      (3, record.branchRecordDigest.bytes),
      (4, record.workspaceId.bytes),
      (5, record.headTransactionId.bytes),
      (6, record.headStateRoot.bytes),
      (7, record.schemaEpochId.bytes),
      (8, record.policyRootId.bytes),
      (9, dependencies)])

def decodeBranchRef (payload : Bytes) : BranchResult BranchRefRecord := do
  match ← decodeRequiredRecord payload 9 .refFieldShape with
  | [f₁, f₂, f₃, f₄, f₅, f₆, f₇, f₈, f₉] =>
    let formatVersion ← readU32 f₁ .refFieldShape
    rejectIf (formatVersion ≠ recordVersion) .refFormatVersion
    let name ← readBytes f₂ .refFieldShape
    let branchName ← BranchName.parse name
    let branchRecordDigest ← readFixed f₃ .refFieldShape
    let workspaceId ← readFixed f₄ .refFieldShape
    let headTransactionId ← readFixed f₅ .refFieldShape
    let headStateRoot ← readFixed f₆ .refFieldShape
    let schemaEpochId ← readFixed f₇ .refFieldShape
    let policyRootId ← readFixed f₈ .refFieldShape
    let dependencyRoots ← decodeDependencies f₉ .refFieldShape
    return {
      formatVersion, branchName, branchRecordDigest, workspaceId, headTransactionId, headStateRoot
      schemaEpochId, policyRootId, dependencyRoots }
  | _ => .error .refFieldShape

/-! ### Envelopes -/

section

variable [Blake3]

/-- A digest under a domain of the branches. -/
def digest (domain preimage : Bytes) : Digest := Blake3.hash (domain ++ preimage)

def buildEnvelope (magic domain payload : Bytes) (limitCode : BranchErrorCode) :
    BranchResult (Bytes × Digest × Bytes) := do
  let preimage := magic ++ encodeUvar envelopeVersion ++ encodeCount payload.length ++ payload
  let digest := digest domain preimage
  rejectIf (preimage.length + digestLen > maxStandaloneBytes) limitCode
  return (preimage, digest, preimage ++ digest.bytes)

def decodeEnvelope (stored magic domain : Bytes)
    (versionCode digestCode shapeCode : BranchErrorCode) :
    BranchResult (Bytes × Bytes × Digest) := do
  rejectIf (stored.length > maxStandaloneBytes) .branchResourceLimit
  let cursor ← withCode shapeCode (new stored)
  let (actualMagic, cursor) ← withCode shapeCode ((Reader.readExactBytes 8).run cursor)
  rejectIf (actualMagic ≠ magic) shapeCode
  let (version, cursor) ← withCode shapeCode (Reader.readUvar cursor 64)
  rejectIf (version ≠ envelopeVersion) versionCode
  let (payload, cursor) ← withCode shapeCode (Reader.readSizedPayload.run cursor)
  let preimageEnd := cursor.position
  let (storedDigest, cursor) ← withCode shapeCode ((Reader.readExactBytes digestLen).run cursor)
  withCode shapeCode cursor.checkFinished
  let expected := digest domain (stored.take preimageEnd)
  rejectIf (storedDigest ≠ expected.bytes) digestCode
  return (payload, stored.take preimageEnd, expected)

/-- Encodes and derives one immutable branch-origin record. -/
def buildBranchRecord (record : BranchRecord) : BranchResult ImportedBranchRecord := do
  let payload ← encodeBranchRecord record
  let (preimage, digest, storedBytes) ←
    buildEnvelope branchMagic branchDigestDomain payload .branchResourceLimit
  return { record, digest, preimage, storedBytes }

/-- Strictly imports one immutable branch-origin record. -/
def importBranchRecord (stored : Bytes) : BranchResult ImportedBranchRecord := do
  let (payload, preimage, digest) ← decodeEnvelope stored branchMagic branchDigestDomain
    .branchRecordFormatVersion .branchRecordDigestMismatch .branchRecordFieldShape
  let record ← decodeBranchRecord payload
  return { record, digest, preimage, storedBytes := stored }

/-- Encodes and derives one visible branch ref. -/
def buildBranchRef (record : BranchRefRecord) : BranchResult ImportedBranchRef := do
  let payload ← encodeBranchRef record
  let (preimage, digest, storedBytes) ←
    buildEnvelope refMagic refDigestDomain payload .branchResourceLimit
  return { record, digest, preimage, storedBytes }

/-- Strictly imports one visible branch ref. -/
def importBranchRef (stored : Bytes) : BranchResult ImportedBranchRef := do
  let (payload, preimage, digest) ← decodeEnvelope stored refMagic refDigestDomain .refFormatVersion
    .refDigestMismatch .refFieldShape
  let record ← decodeBranchRef payload
  return { record, digest, preimage, storedBytes := stored }

end

/-! ### Records are read back -/

section

variable {code : BranchErrorCode} {input payload : Bytes}

theorem readU32_eq_ok {v : UInt32} :
    readU32 input code = .ok v ↔ input = encodeUvar v.toUInt64 := by
  rw [readU32, withCode_eq_ok, ← ofScb_eq_ok]
  exact Txn.readU32_eq_ok

theorem readFixed_eq_ok {kind : IdKind} {id : Id kind} :
    readFixed input code = .ok id ↔ input = id.bytes := by
  rw [readFixed, withCode_eq_ok, decodeFixed_eq_ok, eq_comm]

theorem readBytes_eq_ok {value : Bytes} :
    readBytes input code = .ok value ↔ encodeBytes value = .ok input := by
  rw [readBytes, withCode_eq_ok, ← ofScb_eq_ok]
  exact Txn.readBytes_eq_ok

theorem decodeRequiredRecord_eq_ok {n : Nat} (hn : n ≤ maxRecordFields) {fields : List Bytes} :
    decodeRequiredRecord input n code = .ok fields ↔
      fields.length = n ∧ input.length ≤ maxStandaloneBytes ∧
        encodeRecord (numbered 1 fields) = .ok input := by
  rw [decodeRequiredRecord, withCode_eq_ok, ← ofScb_eq_ok]
  exact Txn.decodeRequiredRecord_eq_ok hn

theorem length_flatMap_sizedBytes (values : List StateRoot) :
    ((values.map Id.bytes).flatMap sizedBytes).length = values.length * (digestLen + 1) := by
  have hsized : ∀ value : StateRoot, (sizedBytes value.bytes).length = digestLen + 1 := by
    intro value
    rw [sizedBytes, length_append, value.length_eq]
    with_unfolding_all decide
  induction values with
  | nil => rfl
  | cons value values ih =>
    rw [List.map_cons, List.flatMap_cons, length_append, hsized, ih, List.length_cons,
      Nat.add_mul, Nat.one_mul, Nat.add_comm]

variable {values : List StateRoot}

theorem readDependencies_eq_ok {n : Nat} {r r' : Scb1.Reader} :
    readDependencies code n r = .ok (values, r') ↔
      values.length = n ∧ r.Consumes ((values.map Id.bytes).flatMap sizedBytes) r' := by
  induction n generalizing values r r' with
  | zero =>
    rw [readDependencies, Except.ok.injEq, Prod.mk.injEq, List.length_eq_zero_iff]
    constructor
    · rintro ⟨rfl, rfl⟩
      exact ⟨rfl, Cursor.Consumes.refl _⟩
    · rintro ⟨rfl, hcons⟩
      exact ⟨rfl, (Cursor.Consumes.refl _).unique hcons⟩
  | succ n ih =>
    simp only [readDependencies, bind_eq_ok, Prod.exists, withCode_eq_ok,
      Reader.readSizedPayload_eq_ok, readFixed_eq_ok, ih, pure_eq_ok, Prod.mk.injEq]
    constructor
    · rintro ⟨_, r₁, ⟨-, hvalue⟩, value, rfl, values, _, ⟨hlen, hcons⟩, rfl, rfl⟩
      exact ⟨by rw [List.length_cons, hlen], hvalue.trans hcons⟩
    · rintro ⟨hlen, hcons⟩
      obtain ⟨value, values, rfl⟩ := List.exists_cons_of_length_eq_add_one hlen
      rw [List.map_cons, List.flatMap_cons] at hcons
      obtain ⟨r₁, hvalue, hcons⟩ := hcons.split
      exact ⟨_, r₁, ⟨value.length_eq.trans_le (by decide), hvalue⟩, value, rfl, values, r',
        ⟨Nat.succ.inj hlen, hcons⟩, rfl, rfl⟩

theorem encodeDependencies_eq_ok :
    encodeDependencies values = .ok input ↔ values.length ≤ maxCollectionElements ∧
      input = Leb128.encode values.length ++ (values.map Id.bytes).flatMap sizedBytes := by
  simp only [encodeDependencies, bind_eq_ok, rejectIf_eq_ok, exists_const,
    withCode_eq_ok, encodeList_eq_ok, List.length_map, gt_iff_lt, Nat.not_lt]
  refine and_congr_right fun hcount ↦ ?_
  rw [and_iff_right hcount, and_iff_right_iff_imp]
  rintro - bs hmem
  obtain ⟨value, -, rfl⟩ := List.mem_map.1 hmem
  exact value.length_eq.trans_le (by decide)

theorem encodeDependencies_nil : encodeDependencies [] = .ok [0] :=
  encodeDependencies_eq_ok.2 ⟨Nat.zero_le _, by with_unfolding_all decide⟩

theorem length_le_of_encodeDependencies
    (h : encodeDependencies values = .ok input) : input.length ≤ maxStandaloneBytes := by
  obtain ⟨hcount, rfl⟩ := encodeDependencies_eq_ok.1 h
  have hnumeral : (Leb128.encode values.length).length ≤ 10 :=
    Leb128.length_encode_le (by decide) (hcount.trans_lt (by decide))
  have hmax : maxCollectionElements * 33 + 10 ≤ maxStandaloneBytes := by decide
  have hdigest : digestLen = 32 := rfl
  rw [length_append, length_flatMap_sizedBytes, hdigest]
  omega

/-- **A list of roots is read back**; the look at its count refuses nothing that is written. -/
theorem decodeDependencies_eq_ok :
    decodeDependencies input code = .ok values ↔ input.length ≤ maxStandaloneBytes ∧
      validateDependencies values code = .ok () ∧ encodeDependencies values = .ok input := by
  simp only [decodeDependencies, bind_eq_ok, withCode_eq_ok, new_eq_ok, Prod.exists,
    mapError_eq_ok, Reader.readListCount_eq_ok, rejectIf_eq_ok, exists_const,
    readDependencies_eq_ok, Reader.checkFinished_eq_ok, pure_eq_ok,
    encodeDependencies_eq_ok, gt_iff_lt, Nat.not_lt]
  constructor
  · rintro ⟨_, ⟨hinput, rfl⟩, count, r₁, ⟨hcount, hread⟩, -, values, r₂, ⟨rfl, hcons⟩, hfinished, _,
      hvalid, rfl⟩
    have hrest := (hread.trans hcons).rest_eq
    rw [new_rest, hfinished, append_nil] at hrest
    exact ⟨hinput, hvalid, hcount, hrest⟩
  · rintro ⟨hinput, hvalid, hcount, rfl⟩
    obtain ⟨r₂, hcons, hfinished⟩ := Cursor.exists_consumes_of_rest
      (c := new (Leb128.encode values.length ++ (values.map Id.bytes).flatMap sizedBytes))
      (show _ = (Leb128.encode values.length ++ (values.map Id.bytes).flatMap sizedBytes) ++ [] by
        rw [new_rest, append_nil])
    obtain ⟨r₁, hread, hcons⟩ := hcons.split
    refine ⟨_, ⟨hinput, rfl⟩, values.length, r₁, ⟨hcount, hread⟩, ?_, values, r₂, ⟨rfl, hcons⟩,
      hfinished, (), hvalid, rfl⟩
    rw [hread.position_eq, length_append, length_flatMap_sizedBytes]
    show _ ≤ _ - (0 + _)
    omega

/-- **The record of an origin is read back from its payload.** -/
theorem decodeBranchRecord_eq_ok {record : BranchRecord} : decodeBranchRecord payload = .ok record ↔
      payload.length ≤ maxStandaloneBytes ∧ encodeBranchRecord record = .ok payload := by
  simp only [decodeBranchRecord, bind_eq_ok,
    decodeRequiredRecord_eq_ok (show 8 ≤ maxRecordFields by decide), encodeBranchRecord,
    rejectIf_eq_ok, withCode_eq_ok, exists_const]
  constructor
  · rintro ⟨fields, ⟨hlen, hpayload, hencode⟩, h⟩
    split at h
    · simp only [bind_eq_ok, readU32_eq_ok, rejectIf_eq_ok, exists_const, readBytes_eq_ok,
        BranchName.parse_eq_ok, readFixed_eq_ok, decodeDependencies_eq_ok, pure_eq_ok] at h
      obtain ⟨version, rfl, hversion, _, hname, name, rfl, _, rfl, _, rfl, _, rfl, _, rfl, _, rfl,
        roots, ⟨-, hvalid, hroots⟩, rfl⟩ := h
      exact ⟨hpayload, hversion, (), hvalid, _, hroots, _, hname, hencode⟩
    · cases h
  · rintro ⟨hpayload, hversion, _, hvalid, dependencies, hroots, name, hname, hencode⟩
    refine ⟨[_, _, _, _, _, _, _, _], ⟨rfl, hpayload, hencode⟩, ?_⟩
    simp only [bind_eq_ok, readU32_eq_ok, rejectIf_eq_ok, exists_const, readBytes_eq_ok,
      BranchName.parse_eq_ok, readFixed_eq_ok, decodeDependencies_eq_ok, pure_eq_ok]
    have hdependencies := length_le_of_encodeDependencies hroots
    exact ⟨_, rfl, hversion, _, hname, _, rfl, _, rfl, _, rfl, _, rfl, _, rfl, _, rfl, _,
      ⟨hdependencies, hvalid, hroots⟩, rfl⟩

/-- **The record of a ref is read back from its payload.** -/
theorem decodeBranchRef_eq_ok {record : BranchRefRecord} : decodeBranchRef payload = .ok record ↔
      payload.length ≤ maxStandaloneBytes ∧ encodeBranchRef record = .ok payload := by
  simp only [decodeBranchRef, bind_eq_ok,
    decodeRequiredRecord_eq_ok (show 9 ≤ maxRecordFields by decide), encodeBranchRef,
    rejectIf_eq_ok, withCode_eq_ok, exists_const]
  constructor
  · rintro ⟨fields, ⟨hlen, hpayload, hencode⟩, h⟩
    split at h
    · simp only [bind_eq_ok, readU32_eq_ok, rejectIf_eq_ok, exists_const, readBytes_eq_ok,
        BranchName.parse_eq_ok, readFixed_eq_ok, decodeDependencies_eq_ok, pure_eq_ok] at h
      obtain ⟨version, rfl, hversion, _, hname, name, rfl, _, rfl, _, rfl, _, rfl, _, rfl, _, rfl, _,
        rfl, roots, ⟨-, hvalid, hroots⟩, rfl⟩ := h
      exact ⟨hpayload, hversion, (), hvalid, _, hroots, _, hname, hencode⟩
    · cases h
  · rintro ⟨hpayload, hversion, _, hvalid, dependencies, hroots, name, hname, hencode⟩
    refine ⟨[_, _, _, _, _, _, _, _, _], ⟨rfl, hpayload, hencode⟩, ?_⟩
    simp only [bind_eq_ok, readU32_eq_ok, rejectIf_eq_ok, exists_const, readBytes_eq_ok,
      BranchName.parse_eq_ok, readFixed_eq_ok, decodeDependencies_eq_ok, pure_eq_ok]
    have hdependencies := length_le_of_encodeDependencies hroots
    exact ⟨_, rfl, hversion, _, hname, _, rfl, _, rfl, _, rfl, _, rfl, _, rfl, _, rfl, _, rfl, _,
      ⟨hdependencies, hvalid, hroots⟩, rfl⟩

end

/-! ### Import inverts build -/

section

variable [Blake3] {magic domain payload preimage stored : Bytes} {digest : Digest}

variable {imported : ImportedBranchRecord} {limitCode : BranchErrorCode} {record : BranchRefRecord}
  {versionCode digestCode shapeCode : BranchErrorCode}

theorem buildEnvelope_eq_ok :
    buildEnvelope magic domain payload limitCode = .ok (preimage, digest, stored) ↔
      preimage = envelopeBytes magic payload ∧ preimage.length + digestLen ≤ maxStandaloneBytes ∧
        digest = Repo.digest domain preimage ∧ stored = preimage ++ digest.bytes := by
  simp only [buildEnvelope, bind_eq_ok, rejectIf_eq_ok, exists_const,
    pure_eq_ok, Prod.mk.injEq, gt_iff_lt, Nat.not_lt]
  have hcount : payload.length < 2 ^ 64 →
      magic ++ encodeUvar envelopeVersion ++ encodeCount payload.length ++ payload =
        envelopeBytes magic payload := by
    intro hlt
    rw [encodeCount_eq hlt]
    simp only [envelopeBytes, sizedBytes, List.append_assoc]
  have hmax : maxStandaloneBytes < 2 ^ 64 := by decide
  constructor
  · rintro ⟨hle, rfl, rfl, rfl⟩
    have hlt : payload.length < 2 ^ 64 := by
      simp only [length_append] at hle
      omega
    rw [hcount hlt] at hle ⊢
    exact ⟨rfl, hle, rfl, rfl⟩
  · rintro ⟨rfl, hle, rfl, rfl⟩
    have hpayload := length_le_of_envelopeBytes hle
    rw [hcount (by omega)]
    exact ⟨hle, rfl, rfl, rfl⟩

theorem decodeEnvelope_eq_ok (hmagic : magic.length = 8) :
    decodeEnvelope stored magic domain versionCode digestCode shapeCode =
        .ok (payload, preimage, digest) ↔
      preimage = envelopeBytes magic payload ∧ preimage.length + digestLen ≤ maxStandaloneBytes ∧
        digest = Repo.digest domain preimage ∧ stored = preimage ++ digest.bytes := by
  simp only [decodeEnvelope, bind_eq_ok, rejectIf_eq_ok, exists_const, withCode_eq_ok,
    new_eq_ok, Prod.exists, Reader.readUvar_eq_ok, Reader.readSizedPayload_eq_ok,
    Reader.checkFinished_eq_ok, pure_eq_ok, Prod.mk.injEq, gt_iff_lt, Nat.not_lt, not_not]
  constructor
  · rintro ⟨hle, _, ⟨-, rfl⟩, _, r₁, hread₁, hfound, _, r₂, ⟨-, -, hread₂⟩, hversion, payload, r₃,
      ⟨-, hread₃⟩, trailer, r₄, hread₄, hfinished, htrailer, rfl, rfl, rfl⟩
    obtain ⟨-, hread₁⟩ := takeExact_eq_ok.1 hread₁
    obtain ⟨-, hread₄⟩ := takeExact_eq_ok.1 hread₄
    rw [hfound] at hread₁
    rw [hversion] at hread₂
    have hpreimage : Cursor.Consumes (new stored) (envelopeBytes magic payload) r₃ :=
      hread₁.trans (hread₂.trans hread₃)
    have hrest := (hpreimage.trans hread₄).rest_eq
    rw [new_rest, hfinished, append_nil] at hrest
    have hposition : r₃.position = (envelopeBytes magic payload).length := by
      rw [hpreimage.position_eq]
      exact Nat.zero_add _
    have htake : stored.take r₃.position = envelopeBytes magic payload := by
      rw [hposition, hrest, List.take_left' rfl]
    rw [htake] at htrailer ⊢
    subst htrailer
    refine ⟨rfl, ?_, rfl, hrest⟩
    rw [hrest, length_append, Id.length_eq] at hle
    exact hle
  · rintro ⟨rfl, hle, rfl, rfl⟩
    have hpayload := length_le_of_envelopeBytes hle
    have hstored : (envelopeBytes magic payload ++
        (Repo.digest domain (envelopeBytes magic payload)).bytes).length ≤ maxStandaloneBytes := by
      rw [length_append, Id.length_eq]
      exact hle
    obtain ⟨r₄, hcons, hfinished⟩ := Cursor.exists_consumes_of_rest
      (c := new (envelopeBytes magic payload ++
        (Repo.digest domain (envelopeBytes magic payload)).bytes))
      (show _ = (envelopeBytes magic payload ++
        (Repo.digest domain (envelopeBytes magic payload)).bytes) ++ [] by
        rw [new_rest, append_nil])
    obtain ⟨r₃, hpreimage, hread₄⟩ := hcons.split
    obtain ⟨r₁, hread₁, hrest⟩ := hpreimage.split
    obtain ⟨r₂, hread₂, hread₃⟩ := hrest.split
    have hposition : r₃.position = (envelopeBytes magic payload).length := by
      rw [hpreimage.position_eq]
      exact Nat.zero_add _
    refine ⟨hstored, _, ⟨hstored, rfl⟩, magic, r₁, takeExact_eq_ok.2 ⟨hmagic, hread₁⟩, rfl,
      envelopeVersion, r₂, ⟨by decide, by decide, hread₂⟩, rfl, payload, r₃, ⟨hpayload, hread₃⟩, _,
      r₄, takeExact_eq_ok.2 ⟨Id.length_eq _, hread₄⟩, hfinished, ?_, rfl, ?_, ?_⟩
    all_goals rw [hposition, List.take_left' rfl]

/-- An envelope is opened exactly when it is one that is built. -/
theorem decodeEnvelope_eq_ok_iff_build (hmagic : magic.length = 8) (limitCode : BranchErrorCode) :
    decodeEnvelope stored magic domain versionCode digestCode shapeCode =
        .ok (payload, preimage, digest) ↔
      buildEnvelope magic domain payload limitCode = .ok (preimage, digest, stored) :=
  (decodeEnvelope_eq_ok hmagic).trans buildEnvelope_eq_ok.symm

theorem length_le_of_buildEnvelope
    (h : buildEnvelope magic domain payload limitCode = .ok (preimage, digest, stored)) :
    payload.length ≤ maxStandaloneBytes := by
  obtain ⟨rfl, hle, -⟩ := buildEnvelope_eq_ok.1 h
  exact length_le_of_envelopeBytes hle

/-- **An origin is imported exactly when it is what its record is built to.** -/
theorem importBranchRecord_eq_ok : importBranchRecord stored = .ok imported ↔
      buildBranchRecord imported.record = .ok imported ∧ imported.storedBytes = stored := by
  simp only [importBranchRecord, buildBranchRecord, bind_eq_ok, Prod.exists,
    decodeEnvelope_eq_ok_iff_build (show branchMagic.length = 8 from rfl) .branchResourceLimit,
    decodeBranchRecord_eq_ok, pure_eq_ok]
  constructor
  · rintro ⟨payload, preimage, digest, henvelope, record, ⟨-, hrecord⟩, rfl⟩
    exact ⟨⟨payload, hrecord, preimage, digest, stored, henvelope, rfl⟩, rfl⟩
  · rintro ⟨⟨payload, hrecord, preimage, digest, _, henvelope, himported⟩, hstored⟩
    rw [himported] at hstored hrecord
    obtain rfl := hstored
    exact ⟨payload, preimage, digest, henvelope, _,
      ⟨length_le_of_buildEnvelope henvelope, hrecord⟩, himported⟩

/-- **A ref is imported exactly when it is what its record is built to.** -/
theorem importBranchRef_eq_ok {imported : ImportedBranchRef} :
    importBranchRef stored = .ok imported ↔
      buildBranchRef imported.record = .ok imported ∧ imported.storedBytes = stored := by
  simp only [importBranchRef, buildBranchRef, bind_eq_ok, Prod.exists,
    decodeEnvelope_eq_ok_iff_build (show refMagic.length = 8 from rfl) .branchResourceLimit,
    decodeBranchRef_eq_ok, pure_eq_ok]
  constructor
  · rintro ⟨payload, preimage, digest, henvelope, record, ⟨-, hrecord⟩, rfl⟩
    exact ⟨⟨payload, hrecord, preimage, digest, stored, henvelope, rfl⟩, rfl⟩
  · rintro ⟨⟨payload, hrecord, preimage, digest, _, henvelope, himported⟩, hstored⟩
    rw [himported] at hstored hrecord
    obtain rfl := hstored
    exact ⟨payload, preimage, digest, henvelope, _,
      ⟨length_le_of_buildEnvelope henvelope, hrecord⟩, himported⟩

theorem record_of_buildBranchRecord {record : BranchRecord}
    (h : buildBranchRecord record = .ok imported) : imported.record = record := by
  simp only [buildBranchRecord, bind_eq_ok, pure_eq_ok] at h
  obtain ⟨_, -, _, -, rfl⟩ := h
  rfl

theorem record_of_buildBranchRef {imported : ImportedBranchRef}
    (h : buildBranchRef record = .ok imported) : imported.record = record := by
  simp only [buildBranchRef, bind_eq_ok, pure_eq_ok] at h
  obtain ⟨_, -, _, -, rfl⟩ := h
  rfl

/-- What is built is imported. -/
theorem importBranchRecord_of_build {record : BranchRecord}
    (h : buildBranchRecord record = .ok imported) :
    importBranchRecord imported.storedBytes = .ok imported := by
  rw [importBranchRecord_eq_ok, record_of_buildBranchRecord h]
  exact ⟨h, rfl⟩

theorem importBranchRef_of_build {imported : ImportedBranchRef}
    (h : buildBranchRef record = .ok imported) :
    importBranchRef imported.storedBytes = .ok imported := by
  rw [importBranchRef_eq_ok, record_of_buildBranchRef h]
  exact ⟨h, rfl⟩

theorem length_le_of_importBranchRecord
    (h : importBranchRecord stored = .ok imported) : stored.length ≤ maxStandaloneBytes := by
  rw [importBranchRecord, decodeEnvelope, bind_eq_ok] at h
  obtain ⟨_, h, -⟩ := h
  rw [bind_eq_ok] at h
  obtain ⟨_, h, -⟩ := h
  exact Nat.not_lt.1 (Except.rejectIf_eq_ok.1 h)

theorem length_le_of_importBranchRef {imported : ImportedBranchRef}
    (h : importBranchRef stored = .ok imported) : stored.length ≤ maxStandaloneBytes := by
  rw [importBranchRef, decodeEnvelope, bind_eq_ok] at h
  obtain ⟨_, h, -⟩ := h
  rw [bind_eq_ok] at h
  obtain ⟨_, h, -⟩ := h
  exact Nat.not_lt.1 (Except.rejectIf_eq_ok.1 h)

/-- A record of a few short fields is built. -/
theorem exists_buildEnvelope {fields : List Bytes}
    (hmagic : magic.length = 8) (hcount : fields.length ≤ 9)
    (hsmall : ∀ p ∈ fields, p.length ≤ 300) :
    ∃ built, buildEnvelope magic domain (recordBytes fields) limitCode = .ok built := by
  have hrecord := length_recordBytes_le (by decide) (hcount.trans (by decide)) hsmall
  have hsized : (sizedBytes (recordBytes fields)).length ≤ (recordBytes fields).length + 10 :=
    length_sizedBytes_le (hrecord.trans ((Nat.add_le_add_left
      (Nat.mul_le_mul_right _ hcount) 10).trans (by decide)))
  have hversion : (encodeUvar envelopeVersion).length = 1 := by with_unfolding_all decide
  have hmax : 10000 ≤ maxStandaloneBytes := by decide
  refine ⟨(_, _, _), buildEnvelope_eq_ok.2 ⟨rfl, ?_, rfl, rfl⟩⟩
  rw [envelopeBytes, length_append, length_append, show digestLen = 32 from rfl]
  omega

/-- An origin without dependencies is built. -/
theorem exists_buildBranchRecord {record : BranchRecord} (hversion : record.formatVersion = 1)
    (hdependencies : record.dependencyRoots = []) :
    ∃ imported, buildBranchRecord record = .ok imported := by
  have hname : record.branchName.bytes.length ≤ 255 := record.branchName.length_le
  have hsized := length_sizedBytes_le (hname.trans (by decide : 255 ≤ maxStandaloneBytes))
  have hfields : ∀ p ∈ [encodeUvar record.formatVersion.toUInt64,
      sizedBytes record.branchName.bytes, record.workspaceId.bytes,
      record.originTransactionId.bytes, record.originStateRoot.bytes, record.schemaEpochId.bytes,
      record.policyRootId.bytes, [0]], p.length ≤ 300 := by
    simp only [List.forall_mem_cons, List.not_mem_nil, IsEmpty.forall_iff, implies_true, and_true,
      Id.length_eq, hversion]
    exact ⟨by with_unfolding_all decide, by omega, by decide, by decide, by decide, by decide, by decide,
      by decide⟩
  obtain ⟨⟨preimage, digest, storedBytes⟩, hbuilt⟩ : ∃ built,
      buildEnvelope branchMagic branchDigestDomain _ .branchResourceLimit = .ok built :=
    exists_buildEnvelope rfl (by simp) hfields
  simp only [buildBranchRecord, encodeBranchRecord, bind_eq_ok, rejectIf_eq_ok, exists_const,
    withCode_eq_ok, validateDependencies, hdependencies, encodeBytes_eq_ok, pure_eq_ok, Prod.exists]
  refine ⟨_, _, ⟨not_not.2 hversion, not_not.2 .nil, _, encodeDependencies_nil, _,
    ⟨hname.trans (by decide), rfl⟩, ?_⟩, _, _, _, hbuilt, rfl⟩
  refine encodeRecord_numbered ?_ fun p hp ↦ (hfields p hp).trans (by decide)
  exact (by decide : 8 ≤ maxRecordFields)

/-- A ref without dependencies is built. -/
theorem exists_buildBranchRef (hversion : record.formatVersion = 1)
    (hdependencies : record.dependencyRoots = []) :
    ∃ imported, buildBranchRef record = .ok imported := by
  have hname : record.branchName.bytes.length ≤ 255 := record.branchName.length_le
  have hsized := length_sizedBytes_le (hname.trans (by decide : 255 ≤ maxStandaloneBytes))
  have hfields : ∀ p ∈ [encodeUvar record.formatVersion.toUInt64,
      sizedBytes record.branchName.bytes, record.branchRecordDigest.bytes,
      record.workspaceId.bytes, record.headTransactionId.bytes, record.headStateRoot.bytes,
      record.schemaEpochId.bytes, record.policyRootId.bytes, [0]], p.length ≤ 300 := by
    simp only [List.forall_mem_cons, List.not_mem_nil, IsEmpty.forall_iff, implies_true, and_true,
      Id.length_eq, hversion]
    exact ⟨by with_unfolding_all decide, by omega, by decide, by decide, by decide, by decide, by decide,
      by decide, by decide⟩
  obtain ⟨⟨preimage, digest, storedBytes⟩, hbuilt⟩ : ∃ built,
      buildEnvelope refMagic refDigestDomain _ .branchResourceLimit = .ok built :=
    exists_buildEnvelope rfl (by simp) hfields
  simp only [buildBranchRef, encodeBranchRef, bind_eq_ok, rejectIf_eq_ok, exists_const,
    withCode_eq_ok, validateDependencies, hdependencies, encodeBytes_eq_ok, pure_eq_ok, Prod.exists]
  refine ⟨_, _, ⟨not_not.2 hversion, not_not.2 .nil, _, encodeDependencies_nil, _,
    ⟨hname.trans (by decide), rfl⟩, ?_⟩, _, _, _, hbuilt, rfl⟩
  refine encodeRecord_numbered ?_ fun p hp ↦ (hfields p hp).trans (by decide)
  exact (by decide : 9 ≤ maxRecordFields)

/-- **Branch records and refs are canonical**, and no bytes are both. -/
theorem branch_records_canonical :
    (∀ (record : BranchRecord) (imported : ImportedBranchRecord),
      buildBranchRecord record = .ok imported →
        importBranchRecord imported.storedBytes = .ok imported) ∧
      (∀ (record : BranchRefRecord) (imported : ImportedBranchRef),
        buildBranchRef record = .ok imported →
          importBranchRef imported.storedBytes = .ok imported) ∧
      (∀ (stored : Bytes) (imported : ImportedBranchRecord),
        importBranchRecord stored = .ok imported →
          buildBranchRecord imported.record = .ok imported ∧ imported.storedBytes = stored) ∧
      (∀ (stored : Bytes) (imported : ImportedBranchRef),
        importBranchRef stored = .ok imported →
          buildBranchRef imported.record = .ok imported ∧ imported.storedBytes = stored) ∧
      ∀ (stored : Bytes) (imported : ImportedBranchRecord) (imported' : ImportedBranchRef),
        ¬ (importBranchRecord stored = .ok imported ∧ importBranchRef stored = .ok imported') := by
  refine ⟨fun _ _ ↦ importBranchRecord_of_build, fun _ _ ↦ importBranchRef_of_build,
    fun _ _ ↦ importBranchRecord_eq_ok.1, fun _ _ ↦ importBranchRef_eq_ok.1, ?_⟩
  rintro stored imported imported' ⟨h, h'⟩
  rw [importBranchRecord, Except.bind_eq_ok] at h
  rw [importBranchRef, Except.bind_eq_ok] at h'
  obtain ⟨⟨payload, preimage, digest⟩, h, -⟩ := h
  obtain ⟨⟨payload', preimage', digest'⟩, h', -⟩ := h'
  obtain ⟨rfl, -, -, hstored⟩ := (decodeEnvelope_eq_ok rfl).1 h
  obtain ⟨rfl, -, -, hstored'⟩ := (decodeEnvelope_eq_ok rfl).1 h'
  -- the two kinds of file differ in their magic
  rw [hstored] at hstored'
  simp only [envelopeBytes, List.append_assoc] at hstored'
  exact absurd (List.append_inj hstored' rfl).1 (by decide)

end

end Sley.Repo
