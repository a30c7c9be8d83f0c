import Sley.Lib.BigEndian
import Sley.Protocol.Hello

/-!
# Frames

The frames of the protocol (`sley-protocol/src/lib.rs`, `ProtocolFrame`, `encode_envelope` and
`decode_frame_for_version`): a length prefix, an envelope around a record of eight fields, and the
digest of the envelope.

The encoder goes through the SCB1 writer and the decoder through the minimal reader, so the two
agree on the layout and not on its limits. **A frame is decoded from its encoding, and everything
decoded is that encoding, except that the reader takes bodies the writer refuses** (`decodeFrame_eq_ok`,
`payload_eq_ok`). A hello body is never that long.
-/

namespace Sley.Protocol

open Scb1 Ssmc Txn
open Except hiding ok error
open BigEndian (bytes length_bytes value)
open BoundedContext (decode_eq_ok encode_eq)
open Leb128 (encode length_encode_le)
open List (length_append)
open ProtocolFrameId (derive)

/-- `protocol_epoch_id`: the digest of a frozen descriptor record, a constant of the protocol. -/
class ProtocolEpoch where
  protocolEpochId : Result SchemaEpochId

export ProtocolEpoch (protocolEpochId)

/-! ### Headers -/

inductive FrameKind
  | request
  | response
  | event
  | hello
  deriving DecidableEq, Repr

namespace FrameKind

def tag : FrameKind → UInt32
  | request => 1
  | response => 2
  | event => 3
  | hello => 4

def fromTag (tag : UInt64) : Result FrameKind :=
  if tag = 1 then .ok request
  else if tag = 2 then .ok response
  else if tag = 3 then .ok event
  else if tag = 4 then .ok hello
  else .error .frameInvalid

end FrameKind

def flagCancel : UInt32 := 1

def flagStream : UInt32 := 2

/-- The body of the response or event is a failure. -/
def flagFailed : UInt32 := 4

def flagMask : UInt32 := flagCancel ||| flagStream ||| flagFailed

/-- A decoded protocol frame. -/
structure ProtocolFrame where
  protocolVersion : UInt32
  session : Option SessionId
  requestId : UInt64
  kind : FrameKind
  method : UInt32
  flags : UInt32
  bounds : BoundedContext
  body : Bytes
  deriving DecidableEq

/-- One encoded frame: the length prefix, the envelope, and its digest. -/
structure EncodedFrame where
  kind : FrameKind
  frameId : ProtocolFrameId
  bytes : Bytes
  deriving DecidableEq

namespace ProtocolFrame

/-- Validates a decoded frame's header under an explicitly selected protocol version. -/
def validateForVersion (self : ProtocolFrame) (expectedVersion : UInt32) : Result Unit := do
  rejectIf
    (expectedVersion ≠ Protocol.protocolVersion ∧ expectedVersion ≠ protocolVersionV2 ∧
      expectedVersion ≠ protocolVersionV3)
    .versionUnsupported
  rejectIf (self.protocolVersion < expectedVersion) .downgrade
  rejectIf (self.protocolVersion > expectedVersion) .versionUnsupported
  -- a hello always travels under version 1
  rejectIf (self.kind = .hello ∧ self.protocolVersion ≠ Protocol.protocolVersion)
    .frameInvalid
  rejectIf (self.flags &&& ~~~flagMask ≠ 0) .frameInvalid
  rejectIf
    (self.flags &&& flagFailed ≠ 0 ∧ ¬ (self.kind = .response ∨ self.kind = .event)) .frameInvalid
  rejectIf
    (self.kind = .hello ∧ (self.session.isSome ∨ self.requestId ≠ 0 ∨ self.method ≠ 0 ∨
      self.flags ≠ 0 ∨ self.bounds ≠ BoundedContext.none))
    .frameInvalid

/-- The session of a frame: absent with an empty payload, or an identifier. -/
def encodeSession : Option SessionId → Result Bytes
  | none => scb (encodeUnion 0 [])
  | some session => scb (encodeUnion 1 session.bytes)

def decodeSession (field : Bytes) : Result (Option SessionId) := do
  let (sessionTag, sessionPayload) ← Reader.union field
  if sessionTag = 0 ∧ sessionPayload.length = 0 then
    return none
  else if sessionTag = 1 ∧ sessionPayload.length = idLen then do
    let session ← fixed32 sessionPayload
    return some session
  else
    .error .frameInvalid

def payload (self : ProtocolFrame) : Result Bytes := do
  let session ← encodeSession self.session
  let bounds ← self.bounds.encode
  let body ← scb (encodeBytes self.body)
  scb (encodeRecord
    [(1, encodeUvar self.protocolVersion.toUInt64),
      (2, session),
      (3, encodeUvar self.requestId),
      (4, encodeUvar self.kind.tag.toUInt64),
      (5, encodeUvar self.method.toUInt64),
      (6, encodeUvar self.flags.toUInt64),
      (7, bounds),
      (8, body)])

def fromPayloadForVersion (payload : Bytes) (expectedVersion : UInt32) : Result ProtocolFrame := do
  match ← Reader.record 8 payload with
  | [f₁, f₂, f₃, f₄, f₅, f₆, f₇, f₈] =>
    let session ← decodeSession f₂
    let protocolVersion ← singleU32 f₁
    let requestId ← singleUvar f₃
    let kindTag ← singleUvar f₄
    let kind ← FrameKind.fromTag kindTag
    let method ← singleU32 f₅
    let flags ← singleU32 f₆
    let bounds ← BoundedContext.decode f₇
    let body ← Reader.bytes f₈
    let frame : ProtocolFrame :=
      { protocolVersion, session, requestId, kind, method, flags, bounds, body }
    frame.validateForVersion expectedVersion
    return frame
  | _ => .error .internalInvariant

end ProtocolFrame

/-! ### Envelopes -/

/-- `SLEYSCB1`. -/
def magic : Bytes := [0x53, 0x4c, 0x45, 0x59, 0x53, 0x43, 0x42, 0x31]

def formatVersion : UInt64 := 1

/-- Protocol frame contract tag (every frame kind shares it). -/
def frameContractTag : UInt32 := 400

def lengthPrefix : Nat := 8

/-- A decoded envelope before its body is interpreted. -/
inductive DecodedFrame
  | hello (hello : Hello)
  | request (frame : ProtocolFrame)
  | response (frame : ProtocolFrame)
  deriving DecidableEq

/-- What a frame is decoded to. -/
def ProtocolFrame.interpret (frame : ProtocolFrame) : Result DecodedFrame :=
  match frame.kind with
  | .hello => do
    let hello ← Hello.decode frame.body
    return .hello hello
  | .request => .ok (.request frame)
  | .response | .event => .ok (.response frame)

variable [Blake3] [ProtocolEpoch]

def encodeEnvelope (kind : FrameKind) (payload : Bytes) : Result EncodedFrame := do
  let epoch ← protocolEpochId
  let preimage := magic ++ encodeUvar formatVersion ++ encodeUvar frameContractTag.toUInt64 ++
    epoch.bytes ++ encodeCount payload.length ++ payload
  let envelopeLen := preimage.length + idLen
  rejectIf (envelopeLen > maxFrameBytes.toNat) .frameTooLarge
  let frameId := derive preimage
  return {
    kind
    frameId
    bytes := bytes lengthPrefix envelopeLen ++ preimage ++ frameId.bytes }

/-- Encodes a request, response, or event frame under an explicitly selected protocol version. -/
def encodeFrameForVersion (frame : ProtocolFrame) (version : UInt32) : Result EncodedFrame := do
  rejectIf (frame.kind = .hello) .frameInvalid
  frame.validateForVersion version
  let payload ← frame.payload
  encodeEnvelope frame.kind payload

/-- The frame that carries a hello body. -/
def helloFrame (body : Bytes) : ProtocolFrame where
  protocolVersion := protocolVersion
  session := none
  requestId := 0
  kind := .hello
  method := 0
  flags := 0
  bounds := BoundedContext.none
  body := body

/-- Encodes a hello frame (frame kind 4 carrying the hello record). -/
def encodeHelloFrame (hello : Hello) : Result EncodedFrame := do
  let body ← hello.encode
  let payload ← (helloFrame body).payload
  encodeEnvelope .hello payload

omit [Blake3] [ProtocolEpoch] in
/-- Reads the length prefix and checks it against the negotiated ceiling. -/
def frameLength (input : Bytes) (maxFrameBytes : UInt64) : Result Nat := do
  rejectIf (input.length < lengthPrefix) .frameInvalid
  let length := value (input.take lengthPrefix)
  rejectIf (length > min maxFrameBytes.toNat Protocol.maxFrameBytes.toNat) .frameTooLarge
  return length

/-- The header of a preimage: its contract tag, and the payload. -/
def readPreimage : Reader.Read (UInt64 × Bytes) := do
  let found ← Reader.take magic.length
  StateT.ofExcept (rejectIf (found ≠ magic) .frameInvalid)
  let version ← Reader.uvar
  StateT.ofExcept (rejectIf (version ≠ formatVersion) .versionUnsupported)
  let contractTag ← Reader.uvar
  let epochBytes ← Reader.take idLen
  let expected ← StateT.ofExcept protocolEpochId
  StateT.ofExcept (rejectIf (epochBytes ≠ expected.bytes) .versionUnsupported)
  let payload ← Reader.sized
  return (contractTag, payload)

/-- Decodes one complete frame under an explicitly selected protocol version. -/
def decodeFrameForVersion (input : Bytes) (maxFrameBytes : UInt64) (expectedVersion : UInt32) :
    Result (DecodedFrame × ProtocolFrameId) := do
  let length ← frameLength input maxFrameBytes
  let envelope := input.drop lengthPrefix
  rejectIf (envelope.length ≠ length ∨ length < idLen + magic.length) .frameInvalid
  let preimage := envelope.take (length - idLen)
  let trailer := envelope.drop (length - idLen)
  let frameId := derive preimage
  rejectIf (trailer ≠ frameId.bytes) .frameInvalid
  let (contractTag, payload) ← Reader.whole readPreimage preimage
  rejectIf (contractTag ≠ frameContractTag.toUInt64) .frameInvalid
  let frame ← ProtocolFrame.fromPayloadForVersion payload expectedVersion
  let decoded ← frame.interpret
  return (decoded, frameId)

/-! ### The record -/

namespace ProtocolFrame

variable {self frame : ProtocolFrame} {version : UInt32} {input bs : Bytes}

omit [Blake3] [ProtocolEpoch]

/-- The session field of a record. -/
def sessionField : Option SessionId → Bytes
  | none => taggedBytes 0 []
  | some session => taggedBytes 1 session.bytes

/-- The payloads of the record. -/
def fields (self : ProtocolFrame) : List Bytes :=
  [encodeUvar self.protocolVersion.toUInt64, sessionField self.session, encodeUvar self.requestId,
    encodeUvar self.kind.tag.toUInt64, encodeUvar self.method.toUInt64,
    encodeUvar self.flags.toUInt64, recordBytes self.bounds.fields, sizedBytes self.body]

theorem fromTag_eq_ok {tag : UInt64} {kind : FrameKind} :
    FrameKind.fromTag tag = .ok kind ↔ tag = kind.tag.toUInt64 := by
  constructor
  · intro h
    rw [FrameKind.fromTag] at h
    split at h
    · obtain rfl := Except.ok.inj h
      assumption
    split at h
    · obtain rfl := Except.ok.inj h
      assumption
    split at h
    · obtain rfl := Except.ok.inj h
      assumption
    split at h
    · obtain rfl := Except.ok.inj h
      assumption
    · cases h
  · rintro rfl
    cases kind <;> rfl

theorem decodeSession_eq_ok {session : Option SessionId} :
    decodeSession input = .ok session ↔ input = sessionField session := by
  simp only [decodeSession, bind_eq_ok, Prod.exists, Reader.union_eq_ok]
  constructor
  · rintro ⟨tag, payload, ⟨-, rfl⟩, h⟩
    split at h
    · rename_i hnone
      obtain ⟨rfl, hlen⟩ := hnone
      obtain rfl := List.length_eq_zero_iff.1 hlen
      obtain rfl := Except.ok.inj h
      rfl
    split at h
    · rename_i hsome
      obtain ⟨rfl, -⟩ := hsome
      obtain ⟨id, hid, hsession⟩ := bind_eq_ok.1 h
      obtain rfl := fixed32_eq_ok.1 hid
      obtain rfl := pure_eq_ok.1 hsession
      rfl
    · cases h
  · rintro rfl
    cases session with
    | none => exact ⟨0, [], ⟨by decide, rfl⟩, rfl⟩
    | some session =>
      refine ⟨1, session.bytes, ⟨session.length_eq.trans_lt (by decide), rfl⟩, ?_⟩
      rw [if_neg fun h ↦ absurd h.1 (by decide), if_pos ⟨rfl, session.length_eq⟩]
      exact bind_eq_ok.2 ⟨session, fixed32_eq_ok.2 rfl, rfl⟩

/-- Every field but the body is short. -/
theorem length_header_le : ∀ field ∈ self.fields.dropLast, field.length ≤ 2170 := by
  have huvar : ∀ v : UInt64, (encodeUvar v).length ≤ 2170 := fun v ↦
    (length_encodeUvar v).trans (by decide)
  have hsession : (sessionField self.session).length ≤ 2170 := by
    have hsized : ∀ (tag : UInt32) (bs : Bytes), bs.length ≤ 32 →
        (taggedBytes tag bs).length ≤ 2170 := by
      intro tag bs hle
      have htag : (encode tag.toNat).length ≤ 10 :=
        length_encode_le (by decide) (tag.toNat_lt.trans (by decide))
      have hcount : (encode bs.length).length ≤ 10 :=
        length_encode_le (by decide) (hle.trans_lt (by decide))
      rw [taggedBytes, sizedBytes, length_append, length_append]
      omega
    cases self.session with
    | none => exact hsized 0 [] (by decide)
    | some session => exact hsized 1 _ session.length_eq.le
  simp only [fields, List.dropLast, List.forall_mem_cons, huvar, hsession, true_and,
    BoundedContext.length_encode_le encode_eq]
  exact fun _ h ↦ (List.not_mem_nil h).elim

theorem encodeSession_eq (session : Option SessionId) :
    encodeSession session = .ok (sessionField session) := by
  cases session with
  | none => exact scb_eq_ok.2 (encodeUnion_eq_ok.2 ⟨by decide, rfl⟩)
  | some session =>
    exact scb_eq_ok.2 (encodeUnion_eq_ok.2 ⟨session.length_eq.trans_le (by decide), rfl⟩)

/-- **The writer refuses a frame for its body only.** -/
theorem payload_eq_ok :
    self.payload = .ok bs ↔ self.body.length ≤ maxBytePayload ∧ bs = recordBytes self.fields := by
  rw [payload, encodeSession_eq, encode_eq]
  show (scb (encodeBytes self.body) >>= _) = _ ↔ _
  simp only [bind_eq_ok, scb_eq_ok, encodeBytes_eq_ok]
  have hrecord (h : self.body.length ≤ maxBytePayload) :
      encodeRecord (numbered 1 self.fields) = .ok (recordBytes self.fields) := by
    refine encodeRecord_numbered (show 8 ≤ maxRecordFields by decide) ?_
    have hbody : (sizedBytes self.body).length ≤ maxStandaloneBytes := by
      have hcount : (encode self.body.length).length ≤ 10 :=
        length_encode_le (by decide) (h.trans_lt (by decide))
      have : maxBytePayload + 10 ≤ maxStandaloneBytes := by decide
      rw [sizedBytes, length_append]
      omega
    intro field hfield
    rw [show self.fields = self.fields.dropLast ++ [sizedBytes self.body] from rfl,
      List.mem_append, List.mem_singleton] at hfield
    rcases hfield with hheader | rfl
    · exact (length_header_le field hheader).trans (by decide)
    · exact hbody
  constructor
  · rintro ⟨_, ⟨hbody, rfl⟩, hencode⟩
    have hencode : encodeRecord (numbered 1 self.fields) = .ok bs := hencode
    rw [hrecord hbody, Except.ok.injEq] at hencode
    exact ⟨hbody, hencode.symm⟩
  · rintro ⟨hbody, rfl⟩
    exact ⟨_, ⟨hbody, rfl⟩, hrecord hbody⟩

/-- **The reader takes every frame, whatever its body.** -/
theorem fromPayloadForVersion_eq_ok :
    fromPayloadForVersion input version = .ok frame ↔ frame.validateForVersion version = .ok () ∧
      (sizedBytes frame.body).length < 2 ^ 64 ∧ input = recordBytes frame.fields := by
  rw [fromPayloadForVersion, bind_eq_ok]
  simp only [Reader.record_eq_ok (show 8 < 2 ^ 31 by decide)]
  constructor
  · rintro ⟨fields, ⟨-, hlt, rfl⟩, h⟩
    split at h
    · simp only [bind_eq_ok, decodeSession_eq_ok, singleU32_eq_ok, singleUvar_eq_ok, fromTag_eq_ok,
        decode_eq_ok, encode_eq, Except.ok.injEq, Reader.bytes_eq_ok, pure_eq_ok] at h
      obtain ⟨_, rfl, _, rfl, _, rfl, _, rfl, _, rfl, _, rfl, _, rfl, _, rfl, _, ⟨-, rfl⟩, _,
        hvalid, rfl⟩ := h
      exact ⟨hvalid, hlt _ (by simp), rfl⟩
    · cases h
  · rintro ⟨hvalid, hlt, rfl⟩
    have hbody : frame.body.length < 2 ^ 64 := by
      rw [sizedBytes, length_append] at hlt
      omega
    refine ⟨frame.fields, ⟨rfl, fun field hfield ↦ ?_, rfl⟩, ?_⟩
    · rw [show frame.fields = frame.fields.dropLast ++ [sizedBytes frame.body] from rfl,
        List.mem_append, List.mem_singleton] at hfield
      rcases hfield with hheader | rfl
      · exact (length_header_le field hheader).trans_lt (by decide)
      · exact hlt
    · simp only [fields, bind_eq_ok, decodeSession_eq_ok, singleU32_eq_ok, singleUvar_eq_ok,
        fromTag_eq_ok, decode_eq_ok, encode_eq, Except.ok.injEq, Reader.bytes_eq_ok, pure_eq_ok]
      exact ⟨_, rfl, _, rfl, _, rfl, _, rfl, _, rfl, _, rfl, _, rfl, _, rfl, _, ⟨hbody, rfl⟩, (),
        hvalid, rfl⟩

end ProtocolFrame

/-! ### The envelope -/

section Envelope

omit [Blake3] [ProtocolEpoch] in
theorem length_le_recordBytes {fields : List Bytes} {field : Bytes} (h : field ∈ fields) :
    field.length ≤ (recordBytes fields).length := by
  suffices hall : ∀ f ∈ numbered 1 fields, f.2.length ≤ (recordBytes fields).length from
    (forall_mem_numbered (P := fun field ↦ field.length ≤ (recordBytes fields).length)).1 hall
      field h
  intro numberedField hmem
  have hsublist : (taggedBytes numberedField.1 numberedField.2).Sublist
      ((numbered 1 fields).flatMap fun field ↦ taggedBytes field.1 field.2) :=
    List.sublist_flatten_of_mem (List.mem_map_of_mem hmem)
  have hle := hsublist.length_le
  rw [taggedBytes, sizedBytes, length_append, length_append] at hle
  rw [recordBytes, length_append]
  omega

variable {payload input preimage : Bytes} {epoch : SchemaEpochId} {encoded : EncodedFrame}

/-- The bytes that a digest is taken of. -/
def framePreimage (epoch : SchemaEpochId) (payload : Bytes) : Bytes :=
  magic ++ (encodeUvar formatVersion ++ (encodeUvar frameContractTag.toUInt64 ++ (epoch.bytes ++
    sizedBytes payload)))

/-- The frame around a payload. -/
def frameBytes (epoch : SchemaEpochId) (payload : Bytes) : Bytes :=
  bytes lengthPrefix ((framePreimage epoch payload).length + idLen) ++
    (framePreimage epoch payload ++
      (derive (framePreimage epoch payload)).bytes)

section

omit [Blake3] [ProtocolEpoch]

theorem length_framePreimage_ge (epoch : SchemaEpochId) (payload : Bytes) :
    payload.length + magic.length ≤ (framePreimage epoch payload).length := by
  simp only [framePreimage, sizedBytes, length_append]
  omega

theorem length_recordBytes_le_sum {fields : List Bytes}
    (hle : ∀ field ∈ fields, field.length < 2 ^ 64) (hcount : fields.length < 2 ^ 64) :
    (recordBytes fields).length ≤ 10 + (fields.map fun field ↦ field.length + 20).sum := by
  have htagged : ∀ index, ((numbered index fields).flatMap fun field ↦
      taggedBytes field.1 field.2).length ≤ (fields.map fun field ↦ field.length + 20).sum := by
    clear hcount
    induction fields with
    | nil => exact fun _ ↦ Nat.le_refl _
    | cons field fields ih =>
      intro index
      obtain ⟨hfield, hle⟩ := List.forall_mem_cons.1 hle
      have hrest := ih hle (index + 1)
      have htag : (encode (UInt32.ofNat index).toNat).length ≤ 10 :=
        length_encode_le (by decide) ((UInt32.ofNat index).toNat_lt.trans (by decide))
      have hlen : (encode field.length).length ≤ 10 :=
        length_encode_le (by decide) (hfield.trans (by decide))
      rw [numbered, List.flatMap_cons, length_append, List.map_cons, List.sum_cons]
      refine Nat.add_le_add ?_ hrest
      show (taggedBytes (UInt32.ofNat index) field).length ≤ field.length + 20
      rw [taggedBytes, sizedBytes, length_append, length_append]
      omega
  have hhead : (encode fields.length).length ≤ 10 :=
    length_encode_le (by decide) (hcount.trans (by decide))
  have hfields := htagged 1
  rw [recordBytes, length_append]
  omega

end

theorem encodeEnvelope_eq_ok {kind : FrameKind} :
    encodeEnvelope kind payload = .ok encoded ↔ ∃ epoch, protocolEpochId = .ok epoch ∧
      (framePreimage epoch payload).length + idLen ≤ maxFrameBytes.toNat ∧
      encoded = ⟨kind, derive (framePreimage epoch payload), frameBytes epoch payload⟩ := by
  simp only [encodeEnvelope, bind_eq_ok, rejectIf_eq_ok, exists_const,
    pure_eq_ok, gt_iff_lt, Nat.not_lt]
  refine exists_congr fun epoch ↦ and_congr_right fun _ ↦ ?_
  have hcount : payload.length < 2 ^ 64 → magic ++ encodeUvar formatVersion ++
      encodeUvar frameContractTag.toUInt64 ++ epoch.bytes ++ encodeCount payload.length ++ payload =
        framePreimage epoch payload := by
    intro hlt
    rw [encodeCount_eq hlt]
    simp only [framePreimage, sizedBytes, List.append_assoc]
  have hmax : maxFrameBytes.toNat < 2 ^ 64 := maxFrameBytes.toNat_lt
  constructor
  · rintro ⟨hle, rfl⟩
    have hlt : payload.length < 2 ^ 64 := by
      simp only [length_append] at hle
      omega
    rw [hcount hlt] at hle ⊢
    exact ⟨hle, by rw [frameBytes, List.append_assoc]⟩
  · rintro ⟨hle, rfl⟩
    have hlt : payload.length < 2 ^ 64 := by
      have := length_framePreimage_ge epoch payload
      omega
    rw [hcount hlt]
    exact ⟨hle, by rw [frameBytes, List.append_assoc]⟩

omit [Blake3] in
theorem readPreimage_eq_ok {contractTag : UInt64} :
    Reader.whole readPreimage preimage = .ok (contractTag, payload) ↔
      ∃ epoch, protocolEpochId = .ok epoch ∧ payload.length < 2 ^ 64 ∧
        preimage = magic ++ (encodeUvar formatVersion ++ (encodeUvar contractTag ++ (epoch.bytes ++
          sizedBytes payload))) := by
  refine Reader.whole_eq_ok (fun (value : UInt64 × Bytes) bs ↦
    ∃ epoch, protocolEpochId = .ok epoch ∧ value.2.length < 2 ^ 64 ∧
      bs = magic ++ (encodeUvar formatVersion ++ (encodeUvar value.1 ++ (epoch.bytes ++
        sizedBytes value.2)))) ?_
  rintro r r' ⟨contractTag, payload⟩
  simp only [readPreimage, StateT.run_bind_eq_ok, StateT.run_ofExcept_eq_ok,
    StateT.run_pure_eq_ok, Reader.take_eq_ok, Reader.uvar_eq_ok, Reader.sized_eq_ok,
    rejectIf_eq_ok, not_not, encodeUvar_eq, Prod.mk.injEq]
  constructor
  · rintro ⟨_, r₁, ⟨-, hmagic⟩, _, _, ⟨rfl, rfl⟩, _, r₂, hversion, _, _, ⟨rfl, rfl⟩, tag, r₃, htag,
      _, r₄, ⟨-, hepoch⟩, epoch, _, ⟨hepochId, rfl⟩, _, _, ⟨rfl, rfl⟩, payload, r₅, ⟨hlt, hpayload⟩,
      ⟨rfl, rfl⟩, rfl⟩
    exact ⟨_, ⟨epoch, hepochId, hlt, rfl⟩,
      hmagic.trans (hversion.trans (htag.trans (hepoch.trans hpayload)))⟩
  · rintro ⟨_, ⟨epoch, hepochId, hlt, rfl⟩, hcons⟩
    obtain ⟨r₁, hmagic, hcons⟩ := hcons.split
    obtain ⟨r₂, hversion, hcons⟩ := hcons.split
    obtain ⟨r₃, htag, hcons⟩ := hcons.split
    obtain ⟨r₄, hepoch, hpayload⟩ := hcons.split
    exact ⟨_, r₁, ⟨rfl, hmagic⟩, (), _, ⟨rfl, rfl⟩, _, r₂, hversion, (), _, ⟨rfl, rfl⟩, _, r₃, htag,
      _, r₄, ⟨epoch.length_eq, hepoch⟩, epoch, _, ⟨hepochId, rfl⟩, (), _, ⟨rfl, rfl⟩, _, r',
      ⟨hlt, hpayload⟩, ⟨rfl, rfl⟩, rfl⟩

omit [Blake3] [ProtocolEpoch] in
theorem frameLength_eq_ok {ceiling : UInt64} {length : Nat} :
    frameLength input ceiling = .ok length ↔ lengthPrefix ≤ input.length ∧
      length ≤ min ceiling.toNat maxFrameBytes.toNat ∧
        input.take lengthPrefix = bytes lengthPrefix length := by
  simp only [frameLength, bind_eq_ok, rejectIf_eq_ok, exists_const,
    pure_eq_ok, gt_iff_lt, Nat.not_lt]
  refine and_congr_right fun hprefix ↦ ?_
  have htake : (input.take lengthPrefix).length = lengthPrefix := by
    rw [List.length_take]
    omega
  constructor
  · rintro ⟨hle, rfl⟩
    have hbytes := BigEndian.bytes_value (input.take lengthPrefix)
    rw [htake] at hbytes
    exact ⟨hle, hbytes.symm⟩
  · rintro ⟨hle, heq⟩
    have hlt : length < 256 ^ lengthPrefix := by
      have : maxFrameBytes.toNat < 256 ^ lengthPrefix := by decide
      omega
    have hvalue : value (input.take lengthPrefix) = length := by
      rw [heq, BigEndian.value_bytes, Nat.mod_eq_of_lt hlt]
    rw [hvalue]
    exact ⟨hle, rfl⟩

/-- **What is decoded**: the frame around the record of a valid header, and nothing else. -/
theorem decodeFrame_eq_ok {ceiling : UInt64} {version : UInt32} {decoded : DecodedFrame}
    {frameId : ProtocolFrameId} :
    decodeFrameForVersion input ceiling version = .ok (decoded, frameId) ↔
      ∃ epoch frame, protocolEpochId = .ok epoch ∧
        ProtocolFrame.validateForVersion frame version = .ok () ∧
        frame.interpret = .ok decoded ∧
        frameId = derive (framePreimage epoch (recordBytes frame.fields)) ∧
        (framePreimage epoch (recordBytes frame.fields)).length + idLen ≤
          min ceiling.toNat maxFrameBytes.toNat ∧
        input = frameBytes epoch (recordBytes frame.fields) := by
  simp only [decodeFrameForVersion, bind_eq_ok, frameLength_eq_ok, rejectIf_eq_ok,
    exists_const, pure_eq_ok, not_or, not_not, Nat.not_lt, Prod.exists, readPreimage_eq_ok,
    ProtocolFrame.fromPayloadForVersion_eq_ok, Prod.mk.injEq]
  constructor
  · rintro ⟨length, ⟨hpre, hle, htake⟩, ⟨hlength, hmin⟩, htrailer, tag, payload,
      ⟨epoch, hepoch, -, hpreimage⟩, rfl, frame, ⟨hvalid, -, rfl⟩, decoded, hdecoded, rfl, rfl⟩
    have hpreimage : (input.drop lengthPrefix).take (length - idLen) =
        framePreimage epoch (recordBytes frame.fields) := hpreimage
    have hcount : (framePreimage epoch (recordBytes frame.fields)).length + idLen = length := by
      rw [← hpreimage, List.length_take]
      omega
    refine ⟨epoch, frame, hepoch, hvalid, hdecoded, by rw [hpreimage], by rwa [hcount], ?_⟩
    calc input = input.take lengthPrefix ++ ((input.drop lengthPrefix).take (length - idLen) ++
          (input.drop lengthPrefix).drop (length - idLen)) := by
            rw [List.take_append_drop, List.take_append_drop]
      _ = frameBytes epoch (recordBytes frame.fields) := by
            rw [htrailer, hpreimage, htake, frameBytes, hcount]
  · rintro ⟨epoch, frame, hepoch, hvalid, hdecoded, rfl, hle, rfl⟩
    have htake : (frameBytes epoch (recordBytes frame.fields)).take lengthPrefix =
        bytes lengthPrefix
          ((framePreimage epoch (recordBytes frame.fields)).length + idLen) :=
      List.take_left' (length_bytes _ _)
    have hdrop : (frameBytes epoch (recordBytes frame.fields)).drop lengthPrefix =
        framePreimage epoch (recordBytes frame.fields) ++
          (derive (framePreimage epoch (recordBytes frame.fields))).bytes :=
      List.drop_left' (length_bytes _ _)
    have hlen := length_framePreimage_ge epoch (recordBytes frame.fields)
    have hbody : (sizedBytes frame.body).length ≤ (recordBytes frame.fields).length :=
      length_le_recordBytes (by simp [ProtocolFrame.fields])
    have hmax : maxFrameBytes.toNat < 2 ^ 64 := maxFrameBytes.toNat_lt
    have hid := (derive (framePreimage epoch (recordBytes frame.fields))).length_eq
    have hidLen : idLen = 32 := rfl
    refine ⟨(framePreimage epoch (recordBytes frame.fields)).length + idLen, ?_⟩
    rw [hdrop, Nat.add_sub_cancel, List.take_left' rfl, List.drop_left' rfl]
    refine ⟨⟨?_, hle, htake⟩, ⟨?_, by omega⟩, rfl, frameContractTag.toUInt64,
      recordBytes frame.fields, ⟨epoch, hepoch, by omega, rfl⟩, rfl, frame,
      ⟨hvalid, by omega, rfl⟩, decoded, hdecoded, rfl, rfl⟩
    · rw [frameBytes, length_append, length_bytes]
      omega
    · rw [length_append, hid, hidLen]

/-- **What is encoded**: the frame around the record, unless the body or the whole is too long. -/
theorem encodeFrame_eq_ok {frame : ProtocolFrame} {version : UInt32} :
    encodeFrameForVersion frame version = .ok encoded ↔ frame.kind ≠ .hello ∧
      frame.validateForVersion version = .ok () ∧ frame.body.length ≤ maxBytePayload ∧
      ∃ epoch, protocolEpochId = .ok epoch ∧
        (framePreimage epoch (recordBytes frame.fields)).length + idLen ≤ maxFrameBytes.toNat ∧
        encoded = ⟨frame.kind, derive (framePreimage epoch (recordBytes frame.fields)),
          frameBytes epoch (recordBytes frame.fields)⟩ := by
  simp only [encodeFrameForVersion, bind_eq_ok, rejectIf_eq_ok, exists_const,
    ProtocolFrame.payload_eq_ok, encodeEnvelope_eq_ok]
  constructor
  · rintro ⟨hkind, _, hvalid, _, ⟨hbody, rfl⟩, hepoch⟩
    exact ⟨hkind, hvalid, hbody, hepoch⟩
  · rintro ⟨hkind, hvalid, hbody, hepoch⟩
    exact ⟨hkind, (), hvalid, _, ⟨hbody, rfl⟩, hepoch⟩

/-- A hello body is never too long. -/
theorem encodeHello_eq_ok {hello : Hello} :
    encodeHelloFrame hello = .ok encoded ↔ ∃ body epoch, hello.encode = .ok body ∧
      protocolEpochId = .ok epoch ∧
        (framePreimage epoch (recordBytes (helloFrame body).fields)).length + idLen ≤
          maxFrameBytes.toNat ∧
        encoded = ⟨.hello, derive (framePreimage epoch (recordBytes (helloFrame body).fields)),
          frameBytes epoch (recordBytes (helloFrame body).fields)⟩ := by
  simp only [encodeHelloFrame, bind_eq_ok, ProtocolFrame.payload_eq_ok, encodeEnvelope_eq_ok]
  constructor
  · rintro ⟨body, hbody, _, ⟨-, rfl⟩, epoch, hepoch⟩
    exact ⟨body, epoch, hbody, hepoch⟩
  · rintro ⟨body, epoch, hbody, hepoch⟩
    have hle : body.length ≤ maxBytePayload := (Hello.length_encode_le hbody).trans (by decide)
    exact ⟨body, hbody, _, ⟨hle, rfl⟩, epoch, hepoch⟩

section

omit [ProtocolEpoch]

theorem length_frameBytes (epoch : SchemaEpochId) (payload : Bytes) :
    (frameBytes epoch payload).length =
      lengthPrefix + ((framePreimage epoch payload).length + idLen) := by
  rw [frameBytes, length_append, length_append, length_bytes, Id.length_eq]
  rfl

/-- **A frame is taken apart in one way only.** -/
theorem frameBytes_inj {epoch' : SchemaEpochId} {fields fields' : List Bytes}
    (hlen : fields.length = fields'.length)
    (h : frameBytes epoch (recordBytes fields) = frameBytes epoch' (recordBytes fields')) :
    epoch = epoch' ∧ fields = fields' := by
  have hframe := (List.append_inj h (by
    rw [length_bytes, length_bytes])).2
  have hpreimage := (List.append_inj' hframe (by rw [Id.length_eq, Id.length_eq])).1
  have hheader := List.append_cancel_left (List.append_cancel_left (List.append_cancel_left
    hpreimage))
  obtain ⟨hepoch, hpayload⟩ := List.append_inj hheader (by rw [Id.length_eq, Id.length_eq])
  have hrecord : recordBytes fields = recordBytes fields' :=
    selfDelimiting_sizedBytes.injective hpayload
  exact ⟨Id.ext hepoch, (recordBytes_append_inj (x := []) (y := []) hlen (by rw [hrecord])).1⟩

end

end Envelope

/-! ### Canonical frames -/

/-- Encodes what was decoded. -/
def DecodedFrame.encode (decoded : DecodedFrame) (version : UInt32) : Result EncodedFrame :=
  match decoded with
  | .hello offer => encodeHelloFrame offer
  | .request frame => encodeFrameForVersion frame version
  | .response frame => encodeFrameForVersion frame version

omit [ProtocolEpoch] in
/-- The bytes are a frame whose eighth field holds more than the writer puts into a byte string. -/
def Oversized (input : Bytes) : Prop :=
  ∃ (epoch : SchemaEpochId) (header : List Bytes) (body : Bytes), header.length = 7 ∧
    input = frameBytes epoch (recordBytes (header ++ [sizedBytes body])) ∧
    maxBytePayload < body.length

variable {frame : ProtocolFrame} {version : UInt32} {ceiling : UInt64}

omit [ProtocolEpoch] in
theorem oversized_iff {epoch : SchemaEpochId} :
    Oversized (frameBytes epoch (recordBytes frame.fields)) ↔
      maxBytePayload < frame.body.length := by
  have hsplit : frame.fields = frame.fields.dropLast ++ [sizedBytes frame.body] := rfl
  constructor
  · rintro ⟨epoch', header, body, hheader, h, hlt⟩
    have hlen : frame.fields.length = (header ++ [sizedBytes body]).length := by
      rw [length_append, hheader]
      rfl
    obtain ⟨-, hfields⟩ := frameBytes_inj hlen h
    rw [hsplit] at hfields
    have hlast := (List.append_inj' hfields rfl).2
    have hbody : frame.body = body :=
      selfDelimiting_sizedBytes.injective (List.head_eq_of_cons_eq hlast)
    rwa [hbody]
  · exact fun hlt ↦ ⟨epoch, frame.fields.dropLast, frame.body, rfl, by rw [← hsplit], hlt⟩

omit [Blake3] [ProtocolEpoch] in
theorem validateForVersion_eq_ok {u : Unit} : frame.validateForVersion version = .ok u ↔
      (version = protocolVersion ∨ version = protocolVersionV2 ∨ version = protocolVersionV3) ∧
        frame.protocolVersion = version ∧
        (frame.kind = .hello → frame = helloFrame frame.body) ∧
        frame.flags &&& ~~~flagMask = 0 ∧
        (frame.flags &&& flagFailed ≠ 0 → frame.kind = .response ∨ frame.kind = .event) := by
  simp only [ProtocolFrame.validateForVersion, bind_eq_ok, rejectIf_eq_ok, exists_const]
  obtain ⟨claimed, session, requestId, kind, method, flags, bounds, body⟩ := frame
  simp only [helloFrame, ProtocolFrame.mk.injEq]
  constructor
  · rintro ⟨hdefined, hlt, hgt, hversion, hflags, hfailed, hhello⟩
    have heq : claimed = version := UInt32.le_antisymm (UInt32.not_lt.1 hgt) (UInt32.not_lt.1 hlt)
    refine ⟨by tauto, heq, ?_, not_not.1 hflags, by tauto⟩
    rintro rfl
    simp only [true_and, not_not, not_or, ne_eq, Bool.not_eq_true, Option.isSome_eq_false_iff,
      Option.isNone_iff_eq_none] at hversion hhello
    obtain ⟨hsession, hrequestId, hmethod, hflagsZero, hbounds⟩ := hhello
    exact ⟨hversion, hsession, hrequestId, rfl, hmethod, hflagsZero, hbounds, trivial⟩
  · rintro ⟨hdefined, rfl, hhello, hflags, hfailed⟩
    refine ⟨by tauto, UInt32.lt_irrefl _, UInt32.lt_irrefl _, ?_, not_not.2 hflags, by tauto, ?_⟩
    · rintro ⟨hkind, hversion⟩
      exact hversion (hhello hkind).1
    · rintro ⟨hkind, hheader⟩
      obtain ⟨-, rfl, rfl, -, rfl, rfl, rfl, -⟩ := hhello hkind
      simp at hheader

/-- A frame that is encoded is decoded to itself. -/
theorem decodeFrame_encodeFrame {encoded : EncodedFrame}
    (h : encodeFrameForVersion frame version = .ok encoded)
    (hceiling : encoded.bytes.length ≤ lengthPrefix + ceiling.toNat) :
    decodeFrameForVersion encoded.bytes ceiling version =
      .ok (if frame.kind = .request then .request frame else .response frame, encoded.frameId) := by
  obtain ⟨hkind, hvalid, -, epoch, hepoch, hmax, rfl⟩ := encodeFrame_eq_ok.1 h
  rw [length_frameBytes] at hceiling
  refine decodeFrame_eq_ok.2 ⟨epoch, frame, hepoch, hvalid, ?_, rfl, by omega, rfl⟩
  rw [ProtocolFrame.interpret]
  cases hcase : frame.kind
  case hello => exact absurd hcase hkind
  all_goals rfl

/-- A hello that is encoded is decoded to itself. -/
theorem decodeFrame_encodeHello {hello : Hello} {encoded : EncodedFrame}
    (h : encodeHelloFrame hello = .ok encoded)
    (hceiling : encoded.bytes.length ≤ lengthPrefix + ceiling.toNat) :
    decodeFrameForVersion encoded.bytes ceiling protocolVersion =
      .ok (.hello hello, encoded.frameId) := by
  obtain ⟨body, epoch, hbody, hepoch, hmax, rfl⟩ := encodeHello_eq_ok.1 h
  rw [length_frameBytes] at hceiling
  refine decodeFrame_eq_ok.2 ⟨epoch, helloFrame body, hepoch, ?_, ?_, rfl, by omega, rfl⟩
  · exact validateForVersion_eq_ok.2 ⟨.inl rfl, rfl, fun _ ↦ rfl,
      show (0 : UInt32) &&& ~~~flagMask = 0 by decide,
      fun hfailed ↦ absurd (show (0 : UInt32) &&& flagFailed = 0 by decide) hfailed⟩
  · exact bind_eq_ok.2 ⟨hello, Hello.decode_eq_ok.2 hbody, rfl⟩

/-- What is decoded is encoded again, if its body is one that the writer takes. -/
theorem encode_decodeFrame {input : Bytes} {decoded : DecodedFrame} {frameId : ProtocolFrameId}
    (h : decodeFrameForVersion input ceiling version = .ok (decoded, frameId)) :
    (∃ encoded, decoded.encode version = .ok encoded ∧ encoded.bytes = input ∧
      encoded.frameId = frameId) ↔ ¬ Oversized input := by
  obtain ⟨epoch, frame, hepoch, hvalid, hdecoded, rfl, hmax, rfl⟩ := decodeFrame_eq_ok.1 h
  rw [oversized_iff, Nat.not_lt]
  by_cases hkind : frame.kind = .hello
  · -- a hello body is bounded by the checks on hellos
    rw [ProtocolFrame.interpret, hkind] at hdecoded
    obtain ⟨hello, hhello, hdecoded⟩ := bind_eq_ok.1 hdecoded
    obtain rfl := pure_eq_ok.1 hdecoded
    have hbody := Hello.decode_eq_ok.1 hhello
    have hframe := (validateForVersion_eq_ok.1 hvalid).2.2.1 hkind
    refine iff_of_true ⟨_, encodeHello_eq_ok.2 ⟨_, epoch, hbody, hepoch, ?_, rfl⟩, ?_⟩
      ((Hello.length_encode_le hbody).trans (by decide))
    · rw [← hframe]
      omega
    · rw [← hframe]
      exact ⟨rfl, rfl⟩
  · have hencode : decoded.encode version = encodeFrameForVersion frame version := by
      rw [ProtocolFrame.interpret] at hdecoded
      cases hcase : frame.kind
      case hello => exact absurd hcase hkind
      all_goals
        rw [hcase] at hdecoded
        obtain rfl := Except.ok.inj hdecoded
        rfl
    rw [hencode]
    constructor
    · rintro ⟨encoded, hencoded, -⟩
      exact (encodeFrame_eq_ok.1 hencoded).2.2.1
    · intro hbody
      exact ⟨_, encodeFrame_eq_ok.2 ⟨hkind, hvalid, hbody, epoch, hepoch, by omega, rfl⟩, rfl, rfl⟩

/-- **Frames are canonical, apart from bodies that the writer refuses.** A frame or hello that is
encoded is decoded to itself under its identity, at every ceiling that its envelope keeps to; bytes
that are decoded are what the decoded frame or hello is encoded to, at the same version, exactly when
they are not oversized. -/
theorem frames_canonical :
    (∀ (frame : ProtocolFrame) (version : UInt32) (encoded : EncodedFrame) (ceiling : UInt64),
      encodeFrameForVersion frame version = .ok encoded →
        encoded.bytes.length ≤ lengthPrefix + ceiling.toNat →
          decodeFrameForVersion encoded.bytes ceiling version =
            .ok (if frame.kind = .request then .request frame else .response frame,
              encoded.frameId)) ∧
      (∀ (hello : Hello) (encoded : EncodedFrame) (ceiling : UInt64),
        encodeHelloFrame hello = .ok encoded →
          encoded.bytes.length ≤ lengthPrefix + ceiling.toNat →
            decodeFrameForVersion encoded.bytes ceiling protocolVersion =
              .ok (.hello hello, encoded.frameId)) ∧
      ∀ (input : Bytes) (ceiling : UInt64) (version : UInt32) (decoded : DecodedFrame)
        (frameId : ProtocolFrameId),
        decodeFrameForVersion input ceiling version = .ok (decoded, frameId) →
          ((∃ encoded, decoded.encode version = .ok encoded ∧ encoded.bytes = input ∧
            encoded.frameId = frameId) ↔ ¬ Oversized input) :=
  ⟨fun _ _ _ _ ↦ decodeFrame_encodeFrame, fun _ _ _ ↦ decodeFrame_encodeHello,
    fun _ _ _ _ _ ↦ encode_decodeFrame⟩

/-- A response whose body is so many zeros. -/
def zerosFrame (count : Nat) : ProtocolFrame where
  protocolVersion := 1
  session := none
  requestId := 1
  kind := .response
  method := Method.sessionOpen.tag
  flags := 0
  bounds := BoundedContext.none
  body := List.replicate count 0

section

omit [Blake3] [ProtocolEpoch]

theorem zerosFrame_valid (count : Nat) :
    (zerosFrame count).validateForVersion protocolVersion = .ok () :=
  validateForVersion_eq_ok.2 ⟨.inl rfl, rfl, nofun, show (0 : UInt32) &&& ~~~flagMask = 0 by decide,
    fun _ ↦ .inl rfl⟩

theorem length_zerosFrame_le {count : Nat} (epoch : SchemaEpochId) (h : count ≤ 16777217) :
    (framePreimage epoch (recordBytes (zerosFrame count).fields)).length + idLen ≤
      maxFrameBytes.toNat := by
  have hcount : (encode count).length ≤ 10 := length_encode_le (by decide) (h.trans_lt (by decide))
  have hbody : (sizedBytes (zerosFrame count).body).length ≤ 16777227 := by
    rw [sizedBytes, length_append, zerosFrame, List.length_replicate]
    omega
  have hsplit : (zerosFrame count).fields =
      (zerosFrame count).fields.dropLast ++ [sizedBytes (zerosFrame count).body] := rfl
  have hfields : ∀ field ∈ (zerosFrame count).fields, field.length < 2 ^ 64 := by
    rw [hsplit]
    refine List.forall_mem_append.2 ⟨fun field hfield ↦ ?_, List.forall_mem_singleton.2 (by omega)⟩
    exact (ProtocolFrame.length_header_le field hfield).trans_lt (by decide)
  have hrecord := length_recordBytes_le_sum hfields (show 8 < 2 ^ 64 by decide)
  have hheader : ((zerosFrame count).fields.dropLast.map fun field ↦ field.length + 20).sum ≤
      7 * 2190 := by
    refine List.sum_le_card_nsmul _ 2190 fun len hlen ↦ ?_
    obtain ⟨field, hfield, rfl⟩ := List.mem_map.1 hlen
    have := ProtocolFrame.length_header_le field hfield
    omega
  have hsum : ((zerosFrame count).fields.map fun field ↦ field.length + 20).sum =
      ((zerosFrame count).fields.dropLast.map fun field ↦ field.length + 20).sum +
        ((sizedBytes (zerosFrame count).body).length + 20) := by
    conv_lhs => rw [hsplit]
    rw [List.map_append, List.sum_append, List.map_singleton, List.sum_singleton]
  have hnumeral : (encode (recordBytes (zerosFrame count).fields).length).length ≤ 10 :=
    length_encode_le (by decide) (show _ < 2 ^ 70 by omega)
  have hformat : (encodeUvar formatVersion).length ≤ 10 := length_encodeUvar _
  have htag : (encodeUvar frameContractTag.toUInt64).length ≤ 10 := length_encodeUvar _
  have hmax : maxFrameBytes.toNat = 67108864 := rfl
  have hidLen : idLen = 32 := rfl
  have hmagic : magic.length = 8 := rfl
  rw [framePreimage, sizedBytes]
  simp only [length_append, epoch.length_eq]
  omega

/-- **The first body that the writer refuses is read.** -/
theorem decodeFrame_zeros :
    letI : Blake3 := ⟨fun _ ↦ Id.splat 0⟩
    letI : ProtocolEpoch := ⟨.ok (Id.splat 1)⟩
    (∃ input frameId, decodeFrameForVersion input maxFrameBytes protocolVersion =
        .ok (.response (zerosFrame 16777217), frameId)) ∧
      ∀ encoded, encodeFrameForVersion (zerosFrame 16777217) protocolVersion ≠ .ok encoded := by
  let _ : Blake3 := ⟨fun _ ↦ Id.splat 0⟩
  let _ : ProtocolEpoch := ⟨.ok (Id.splat 1)⟩
  constructor
  · have hle := length_zerosFrame_le (Id.splat 1) (Nat.le_refl 16777217)
    exact ⟨_, _, decodeFrame_eq_ok.2 ⟨Id.splat 1, zerosFrame 16777217, rfl, zerosFrame_valid _, rfl,
      rfl, by omega, rfl⟩⟩
  · intro encoded hencoded
    have hbody := (encodeFrame_eq_ok.1 hencoded).2.2.1
    rw [zerosFrame, List.length_replicate] at hbody
    exact absurd hbody (by decide)

end

end Sley.Protocol
