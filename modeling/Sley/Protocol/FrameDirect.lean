import Sley.Lib.Failures
import Sley.Lib.Saturating
import Sley.Protocol.Stream
import Sley.Scb1.Sizes

/-!
# Frames written in one buffer

The server encodes its responses a second time around: `encode_single_frame_direct`
(`sley-protocol/src/lib.rs`) predicts the length of the frame from its header and the length of its
body, refuses what is too long, and writes length prefix, envelope and digest into one buffer, the
body copied once. The lengths come from a table of varint widths and the two unions of the session
field are written by hand.

**It is the plain encoder behind a ceiling** (`encodeSingleFrameDirect_eq_ok`): the table is exact at
every width (`toNat_uvarLen`), so the predicted length is the length of what is written, and the
comparison of the two at the end never fails.
-/

namespace Sley.Protocol

open Scb1 Ssmc Txn
open Except hiding ok error
open BoundedContext (encode_eq)
open List (append_assoc length_append)
open ProtocolFrame (fields sessionField)
open Leb128 (encode encode_of_lt)
open UInt64 (lt_iff_toNat_lt ofNat)

/-! ### Predicted lengths -/

/-- Metadata describing one complete frame for exact length preflight. -/
structure FrameSize where
  version : UInt32
  session : Option SessionId
  requestId : UInt64
  kindTag : UInt32
  method : UInt32
  flags : UInt32
  bounds : BoundedContext
  bodyLen : UInt64

/-- The metadata of a frame whose body has the length `bodyLen`. -/
def ProtocolFrame.size (self : ProtocolFrame) (bodyLen : UInt64) : FrameSize where
  version := self.protocolVersion
  session := self.session
  requestId := self.requestId
  kindTag := self.kind.tag
  method := self.method
  flags := self.flags
  bounds := self.bounds
  bodyLen := bodyLen

/-- Canonical unsigned-varint width. -/
def uvarLen (value : UInt64) : UInt64 :=
  if value < 128 then 1
  else if value < 16384 then 2
  else if value < 2097152 then 3
  else if value < 268435456 then 4
  else if value < 34359738368 then 5
  else if value < 4398046511104 then 6
  else if value < 562949953421312 then 7
  else if value < 72057594037927936 then 8
  else if value < 9223372036854775808 then 9
  else 10

/-- One field of the record: its tag, its length and its value. -/
def fieldLen (tag valueLen : UInt64) : Result UInt64 :=
  ofOption .limitExceeded <|
    (uvarLen tag).checkedAdd (uvarLen valueLen) |>.bind (·.checkedAdd valueLen)

def framePayloadLen (size : FrameSize) (boundsLen : UInt64) : Result UInt64 := do
  let sessionLen : UInt64 := if size.session.isSome then 34 else 2
  let f₁ ← fieldLen 1 (uvarLen size.version.toUInt64)
  let f₂ ← fieldLen 2 sessionLen
  let f₃ ← fieldLen 3 (uvarLen size.requestId)
  let f₄ ← fieldLen 4 (uvarLen size.kindTag.toUInt64)
  let f₅ ← fieldLen 5 (uvarLen size.method.toUInt64)
  let f₆ ← fieldLen 6 (uvarLen size.flags.toUInt64)
  let f₇ ← fieldLen 7 boundsLen
  let bodyValueLen ←
    ofOption .limitExceeded ((uvarLen size.bodyLen).checkedAdd size.bodyLen)
  let f₈ ← fieldLen 8 bodyValueLen
  ofOption .limitExceeded <|
    f₁.checkedAdd f₂ |>.bind (·.checkedAdd f₃) |>.bind (·.checkedAdd f₄) |>.bind (·.checkedAdd f₅)
      |>.bind (·.checkedAdd f₆) |>.bind (·.checkedAdd f₇) |>.bind (·.checkedAdd f₈)
      |>.bind ((uvarLen 8).checkedAdd ·)

/-- The length that the prefix of a frame announces: its envelope and the digest. -/
def frameTotalLen (size : FrameSize) : Result UInt64 := do
  let bytesCeiling ← tryU64 maxBytePayload .internalInvariant
  rejectIf (size.bodyLen > bytesCeiling) .limitExceeded
  let boundsBytes ← size.bounds.encode
  let boundsLen ← tryU64 boundsBytes.length .internalInvariant
  let payloadLen ← framePayloadLen size boundsLen
  let preimageLen ← ofOption .limitExceeded <|
    (ofNat magic.length).checkedAdd (uvarLen formatVersion)
      |>.bind (·.checkedAdd (uvarLen frameContractTag.toUInt64))
      |>.bind (·.checkedAdd (ofNat idLen))
      |>.bind (·.checkedAdd (uvarLen payloadLen)) |>.bind (·.checkedAdd payloadLen)
  ofOption .limitExceeded (preimageLen.checkedAdd (ofNat idLen))

/-! ### The buffer -/

def pushField (bytes : Bytes) (tag : UInt64) (value : Bytes) : Result Bytes := do
  let len ← tryU64 value.length .internalInvariant
  return bytes ++ encodeUvar tag ++ encodeUvar len ++ value

/-- The session field, whose unions are written by hand. -/
def pushSession (bytes : Bytes) : Option SessionId → Result Bytes
  | none => pushField bytes 2 [0, 0]
  | some session => pushField bytes 2 ([1, UInt8.ofNat idLen] ++ session.bytes)

def pushFramePayload (bytes : Bytes) (frame : ProtocolFrame) (boundsBytes : Bytes) :
    Result Bytes := do
  let bytes := bytes ++ encodeUvar 8
  let bytes ← pushField bytes 1 (encodeUvar frame.protocolVersion.toUInt64)
  let bytes ← pushSession bytes frame.session
  let bytes ← pushField bytes 3 (encodeUvar frame.requestId)
  let bytes ← pushField bytes 4 (encodeUvar frame.kind.tag.toUInt64)
  let bytes ← pushField bytes 5 (encodeUvar frame.method.toUInt64)
  let bytes ← pushField bytes 6 (encodeUvar frame.flags.toUInt64)
  let bytes ← pushField bytes 7 boundsBytes
  let bodyLen ← tryU64 frame.body.length .internalInvariant
  let innerLen ← ofOption .limitExceeded ((uvarLen bodyLen).checkedAdd bodyLen)
  return bytes ++ encodeUvar 8 ++ encodeUvar innerLen ++ encodeUvar bodyLen ++ frame.body

/-- Encodes one complete frame directly into a single buffer. The capacity that the source reserves
for it beforehand is no part of the model. -/
def encodeSingleFrameDirect [Blake3] [ProtocolEpoch] (frame : ProtocolFrame)
    (maxFrameBytes : UInt64) : Result EncodedFrame := do
  frame.validateForVersion frame.protocolVersion
  let boundsBytes ← frame.bounds.encode
  let bodyLen ← tryU64 frame.body.length .frameInvalid
  let total ← frameTotalLen (frame.size bodyLen)
  let wireLen ← ofOption .frameTooLarge (total.checkedAdd (ofNat lengthPrefix))
  rejectIf (wireLen > min maxFrameBytes Protocol.maxFrameBytes) .frameTooLarge
  let bytes := BigEndian.bytes lengthPrefix total.toNat
  let preimageStart := bytes.length
  let bytes := bytes ++ magic ++ encodeUvar formatVersion ++ encodeUvar frameContractTag.toUInt64
  let epoch ← protocolEpochId
  let bytes := bytes ++ epoch.bytes
  let boundsLen ← tryU64 boundsBytes.length .internalInvariant
  let payloadLen ← framePayloadLen (frame.size bodyLen) boundsLen
  let bytes ← pushFramePayload (bytes ++ encodeUvar payloadLen) frame boundsBytes
  let frameId := ProtocolFrameId.derive (bytes.drop preimageStart)
  let bytes := bytes ++ frameId.bytes
  let written ← tryU64 bytes.length .internalInvariant
  let expected ←
    ofOption .internalInvariant (total.checkedAdd (ofNat lengthPrefix))
  rejectIf (written ≠ expected) .internalInvariant
  return { kind := frame.kind, frameId, bytes }

/-! ### Widths -/

/-- **The table of widths is exact.** -/
theorem toNat_uvarLen (value : UInt64) : (uvarLen value).toNat = (encode value.toNat).length := by
  have hwidth (k : Nat) (hlow : 2 ^ (7 * k) ≤ value.toNat) (hhigh : value.toNat < 2 ^ (7 * (k + 1))) :
      (encode value.toNat).length = k + 1 :=
    Leb128.length_encode_eq hlow hhigh
  rw [uvarLen]
  simp only [lt_iff_toNat_lt]
  split_ifs with h₁ h₂ h₃ h₄ h₅ h₆ h₇ h₈ h₉
  · rw [encode_of_lt h₁]
    rfl
  · exact (hwidth 1 (Nat.not_lt.1 h₁) h₂).symm
  · exact (hwidth 2 (Nat.not_lt.1 h₂) h₃).symm
  · exact (hwidth 3 (Nat.not_lt.1 h₃) h₄).symm
  · exact (hwidth 4 (Nat.not_lt.1 h₄) h₅).symm
  · exact (hwidth 5 (Nat.not_lt.1 h₅) h₆).symm
  · exact (hwidth 6 (Nat.not_lt.1 h₆) h₇).symm
  · exact (hwidth 7 (Nat.not_lt.1 h₇) h₈).symm
  · exact (hwidth 8 (Nat.not_lt.1 h₈) h₉).symm
  · exact (hwidth 9 (Nat.not_lt.1 h₉) (value.toNat_lt.trans (by decide))).symm

theorem toNat_uvarLen_le (value : UInt64) : (uvarLen value).toNat ≤ 10 := by
  rw [toNat_uvarLen]
  exact Leb128.length_encode_le (by decide) (value.toNat_lt.trans (by decide))

/-- The width of a length, as the length of a varint. -/
theorem toNat_uvarLen_uvar (value : UInt64) :
    (uvarLen value).toNat = (encodeUvar value).length := by
  rw [toNat_uvarLen, encodeUvar_eq]

theorem exists_checkedAdd {a b : UInt64} (h : a.toNat + b.toNat < 2 ^ 64) :
    ∃ c, a.checkedAdd b = some c ∧ c.toNat = a.toNat + b.toNat := by
  refine ⟨a + b, if_pos h, ?_⟩
  rw [UInt64.toNat_add, Nat.mod_eq_of_lt h]

/-- A sum that is right so far stays right. -/
theorem exists_bind_checkedAdd {sum : Option UInt64} {m : Nat} {b : UInt64}
    (hsum : ∃ a, sum = some a ∧ a.toNat = m) (h : m + b.toNat < 2 ^ 64) :
    ∃ c, sum.bind (·.checkedAdd b) = some c ∧ c.toNat = m + b.toNat := by
  obtain ⟨a, rfl, rfl⟩ := hsum
  exact exists_checkedAdd h

theorem exists_fieldLen (tag : UInt32) {valueLen : UInt64} {value : Bytes}
    (hlen : valueLen.toNat = value.length) (hshort : value.length < 2 ^ 32) :
    ∃ len, fieldLen tag.toUInt64 valueLen = .ok len ∧ len.toNat = (taggedBytes tag value).length := by
  have htag := toNat_uvarLen_le tag.toUInt64
  have hwidth := toNat_uvarLen_le valueLen
  obtain ⟨len, hsum, htoNat⟩ :=
    exists_bind_checkedAdd (exists_checkedAdd (a := uvarLen tag.toUInt64) (b := uvarLen valueLen)
      (by omega)) (b := valueLen) (by omega)
  refine ⟨len, Except.ofOption_eq_ok.2 hsum, ?_⟩
  rw [htoNat, toNat_uvarLen, toNat_uvarLen, hlen, UInt32.toNat_toUInt64, taggedBytes,
    length_append, length_sizedBytes, Nat.add_assoc]

/-- The parts of a frame's record, in their order. -/
theorem recordBytes_fields_eq (frame : ProtocolFrame) : recordBytes frame.fields = encode 8 ++
      (taggedBytes 1 (encodeUvar frame.protocolVersion.toUInt64) ++
        (taggedBytes 2 (sessionField frame.session) ++
          (taggedBytes 3 (encodeUvar frame.requestId) ++
            (taggedBytes 4 (encodeUvar frame.kind.tag.toUInt64) ++
              (taggedBytes 5 (encodeUvar frame.method.toUInt64) ++
                (taggedBytes 6 (encodeUvar frame.flags.toUInt64) ++
                  (taggedBytes 7 (recordBytes frame.bounds.fields) ++
                    taggedBytes 8 (sizedBytes frame.body)))))))) := by
  show encode 8 ++ (numbered 1 frame.fields).flatMap (fun f ↦ taggedBytes f.1 f.2) = _
  simp only [fields, numbered, List.flatMap_cons, List.flatMap_nil, List.append_nil]
  rfl

variable {frame : ProtocolFrame}

theorem length_lt_of_mem_fields (h : frame.body.length ≤ maxBytePayload) :
    ∀ field ∈ frame.fields, field.length < 2 ^ 32 := by
  have hmax : maxBytePayload = 16777216 := rfl
  have hrecord := frame.length_recordBytes_fields h
  intro field hfield
  have hle := length_le_recordBytes hfield
  omega

/-- The two unions that are written by hand. -/
theorem sessionField_eq (session : Option SessionId) : sessionField session = match session with
      | none => [0, 0]
      | some session => [1, UInt8.ofNat idLen] ++ session.bytes := by
  cases session with
  | none =>
    show encode 0 ++ (encode 0 ++ []) = _
    rw [encode_of_lt (by decide)]
    rfl
  | some session =>
    show encode 1 ++ (encode session.bytes.length ++ session.bytes) = _
    rw [session.length_eq, encode_of_lt (by decide), encode_of_lt (by decide)]
    rfl

theorem length_sessionField (session : Option SessionId) :
    (if session.isSome then (34 : UInt64) else 2).toNat = (sessionField session).length := by
  rw [sessionField_eq]
  cases session with
  | none => rfl
  | some session =>
    rw [length_append, session.length_eq]
    rfl

/-- **The predicted length of the record** is the length of the record. -/
theorem exists_framePayloadLen {bodyLen boundsLen : UInt64}
    (hbodyLen : bodyLen.toNat = frame.body.length) (hbody : frame.body.length ≤ maxBytePayload)
    (hbounds : boundsLen.toNat = (recordBytes frame.bounds.fields).length) :
    ∃ len, framePayloadLen (frame.size bodyLen) boundsLen = .ok len ∧
      len.toNat = (recordBytes frame.fields).length := by
  have hmax : maxBytePayload = 16777216 := rfl
  have htotal := frame.length_recordBytes_fields hbody
  rw [recordBytes_fields_eq] at htotal ⊢
  simp only [length_append] at htotal ⊢
  obtain ⟨bodyValueLen, hvalue, hvalueLen⟩ :=
    exists_checkedAdd (a := uvarLen bodyLen) (b := bodyLen) (by
      have := toNat_uvarLen_le bodyLen
      omega)
  have hbodyValue : bodyValueLen.toNat = (sizedBytes frame.body).length := by
    rw [hvalueLen, toNat_uvarLen, hbodyLen, length_sizedBytes]
  have hshort := length_lt_of_mem_fields hbody
  simp only [fields, List.forall_mem_cons] at hshort
  obtain ⟨s₁, s₂, s₃, s₄, s₅, s₆, s₇, s₈, -⟩ := hshort
  obtain ⟨f₁, h₁, e₁⟩ := exists_fieldLen 1 (toNat_uvarLen_uvar _) s₁
  obtain ⟨f₂, h₂, e₂⟩ := exists_fieldLen 2 (length_sessionField _) s₂
  obtain ⟨f₃, h₃, e₃⟩ := exists_fieldLen 3 (toNat_uvarLen_uvar _) s₃
  obtain ⟨f₄, h₄, e₄⟩ := exists_fieldLen 4 (toNat_uvarLen_uvar _) s₄
  obtain ⟨f₅, h₅, e₅⟩ := exists_fieldLen 5 (toNat_uvarLen_uvar _) s₅
  obtain ⟨f₆, h₆, e₆⟩ := exists_fieldLen 6 (toNat_uvarLen_uvar _) s₆
  obtain ⟨f₇, h₇, e₇⟩ := exists_fieldLen 7 hbounds s₇
  obtain ⟨f₈, h₈, e₈⟩ := exists_fieldLen 8 hbodyValue s₈
  rw [← e₁, ← e₂, ← e₃, ← e₄, ← e₅, ← e₆, ← e₇, ← e₈] at htotal ⊢
  obtain ⟨fields, hsum, hfieldsLen⟩ := exists_bind_checkedAdd (exists_bind_checkedAdd
    (exists_bind_checkedAdd (exists_bind_checkedAdd (exists_bind_checkedAdd (exists_bind_checkedAdd
      (exists_checkedAdd (a := f₁) (b := f₂) (by omega)) (b := f₃) (by omega))
      (b := f₄) (by omega)) (b := f₅) (by omega)) (b := f₆) (by omega)) (b := f₇) (by omega))
      (b := f₈) (by omega)
  have hcount : (uvarLen 8).toNat = (encode 8).length := toNat_uvarLen 8
  obtain ⟨len, hlen, htoNat⟩ := exists_checkedAdd (a := uvarLen 8) (b := fields) (by omega)
  refine ⟨len, ?_, by omega⟩
  simp only [framePayloadLen, bind_eq_ok, ofOption_eq_ok]
  exact ⟨f₁, h₁, f₂, h₂, f₃, h₃, f₄, h₄, f₅, h₅, f₆, h₆, f₇, h₇, bodyValueLen, hvalue, f₈, h₈,
    Option.bind_eq_some_iff.2 ⟨fields, hsum, hlen⟩⟩

theorem exists_tryU64 {n : Nat} (h : n < 2 ^ 64) :
    ∃ v : UInt64, v.toNat = n ∧ ∀ code, tryU64 n code = .ok v :=
  have hn : (ofNat n).toNat = n := UInt64.toNat_ofNat_of_lt' h
  ⟨ofNat n, hn, fun _ ↦ tryU64_eq_ok.2 hn⟩

/-- **The predicted length of the envelope** is the length of the envelope, whatever the epoch. -/
theorem exists_frameTotalLen {bodyLen : UInt64}
    (hbodyLen : bodyLen.toNat = frame.body.length) (hbody : frame.body.length ≤ maxBytePayload) :
    ∃ total, frameTotalLen (frame.size bodyLen) = .ok total ∧ ∀ epoch,
      total.toNat = (framePreimage epoch (recordBytes frame.fields)).length + idLen := by
  have hmax : maxBytePayload = 16777216 := rfl
  obtain ⟨ceiling, hceiling, htryCeiling⟩ := exists_tryU64 (show maxBytePayload < 2 ^ 64 by decide)
  obtain ⟨boundsLen, hboundsLen, htryBounds⟩ := exists_tryU64
    (show (recordBytes frame.bounds.fields).length < 2 ^ 64 by
      have := frame.bounds.length_recordBytes_fields
      omega)
  obtain ⟨payloadLen, hpayload, hpayloadLen⟩ := exists_framePayloadLen hbodyLen hbody hboundsLen
  have hrecord := frame.length_recordBytes_fields hbody
  have hformat := toNat_uvarLen_le formatVersion
  have htag := toNat_uvarLen_le frameContractTag.toUInt64
  have hwidth := toNat_uvarLen_le payloadLen
  have hmagic : (ofNat magic.length).toNat = 8 := rfl
  have hid : (ofNat idLen).toNat = 32 := rfl
  obtain ⟨preimageLen, hpreimage, hpreimageLen⟩ := exists_bind_checkedAdd (exists_bind_checkedAdd
    (exists_bind_checkedAdd (exists_bind_checkedAdd (exists_checkedAdd
      (a := ofNat magic.length) (b := uvarLen formatVersion) (by omega))
      (b := uvarLen frameContractTag.toUInt64) (by omega)) (b := ofNat idLen) (by omega))
      (b := uvarLen payloadLen) (by omega)) (b := payloadLen) (by omega)
  obtain ⟨total, htotal, htotalLen⟩ :=
    exists_checkedAdd (a := preimageLen) (b := ofNat idLen) (by omega)
  refine ⟨total, ?_, fun epoch ↦ ?_⟩
  · have hfits : ¬ bodyLen > ceiling := by
      rw [gt_iff_lt, lt_iff_toNat_lt]
      omega
    simp only [frameTotalLen, bind_eq_ok, ofOption_eq_ok]
    exact ⟨ceiling, htryCeiling _, (), rejectIf_neg hfits _, _, encode_eq,
      boundsLen, htryBounds _, payloadLen, hpayload, preimageLen, hpreimage, htotal⟩
  · simp only [framePreimage, length_append, length_sizedBytes, epoch.length_eq]
    rw [htotalLen, hpreimageLen, toNat_uvarLen_uvar, toNat_uvarLen_uvar, toNat_uvarLen payloadLen,
      hpayloadLen, hmagic, hid, show magic.length = 8 from rfl, show idLen = 32 from rfl]
    omega

/-- A body that the writer refuses has no predicted length. -/
theorem frameTotalLen_of_long {bodyLen : UInt64}
    (hbodyLen : bodyLen.toNat = frame.body.length) (hlong : maxBytePayload < frame.body.length) :
    frameTotalLen (frame.size bodyLen) = .error .limitExceeded := by
  obtain ⟨ceiling, hceiling, htryCeiling⟩ := exists_tryU64 (show maxBytePayload < 2 ^ 64 by decide)
  have hover : (frame.size bodyLen).bodyLen > ceiling := by
    show bodyLen > ceiling
    rw [gt_iff_lt, lt_iff_toNat_lt, hceiling, hbodyLen]
    exact hlong
  rw [frameTotalLen, htryCeiling, ok_bind, rejectIf_pos hover]
  rfl

/-! ### What is written -/

theorem pushField_eq (bytes : Bytes) (tag : UInt64) {value : Bytes} (h : value.length < 2 ^ 32) :
    pushField bytes tag value = .ok (bytes ++ (encode tag.toNat ++ sizedBytes value)) := by
  obtain ⟨len, hlen, htry⟩ := exists_tryU64 (h.trans (show 2 ^ 32 < 2 ^ 64 by decide))
  rw [pushField, htry, ok_bind, encodeUvar_eq, encodeUvar_eq, hlen, sizedBytes,
    append_assoc, append_assoc]
  rfl

theorem pushSession_eq (bytes : Bytes) (session : Option SessionId) :
    pushSession bytes session = pushField bytes 2 (sessionField session) := by
  rw [sessionField_eq]
  cases session <;> rfl

/-- **The buffer receives the record.** -/
theorem pushFramePayload_eq (bytes : Bytes) (hbody : frame.body.length ≤ maxBytePayload) :
    pushFramePayload bytes frame (recordBytes frame.bounds.fields) =
      .ok (bytes ++ recordBytes frame.fields) := by
  have hmax : maxBytePayload = 16777216 := rfl
  have hshort := length_lt_of_mem_fields hbody
  simp only [fields, List.forall_mem_cons] at hshort
  obtain ⟨s₁, s₂, s₃, s₄, s₅, s₆, s₇, -, -⟩ := hshort
  obtain ⟨bodyLen, hbodyLen, htryBody⟩ := exists_tryU64 (show frame.body.length < 2 ^ 64 by omega)
  have hwidth := toNat_uvarLen_le bodyLen
  obtain ⟨innerLen, hinner, hinnerLen⟩ :=
    exists_checkedAdd (a := uvarLen bodyLen) (b := bodyLen) (by omega)
  rw [toNat_uvarLen, hbodyLen, ← length_sizedBytes] at hinnerLen
  simp only [pushFramePayload, pushSession_eq, pushField_eq _ _ s₁, pushField_eq _ _ s₂,
    pushField_eq _ _ s₃, pushField_eq _ _ s₄, pushField_eq _ _ s₅, pushField_eq _ _ s₆,
    pushField_eq _ _ s₇, htryBody, hinner, ofOption, ok_bind, encodeUvar_eq 8,
    encodeUvar_eq innerLen, encodeUvar_eq bodyLen, hinnerLen, hbodyLen]
  rw [recordBytes_fields_eq]
  simp only [taggedBytes, sizedBytes, append_assoc]
  rfl

section Direct

variable [Blake3] [ProtocolEpoch]

variable {frame : ProtocolFrame}

/-- **What the buffer encoder computes**: of a frame that is valid and whose body is not too long, it
compares the predicted length with the ceiling and writes the frame. -/
theorem encodeSingleFrameDirect_eq {bodyLen total ceiling : UInt64}
    (hvalid : frame.validateForVersion frame.protocolVersion = .ok ())
    (hbodyLen : bodyLen.toNat = frame.body.length) (hbody : frame.body.length ≤ maxBytePayload)
    (htotal : frameTotalLen (frame.size bodyLen) = .ok total) :
    encodeSingleFrameDirect frame ceiling = do
      rejectIf (total.toNat + lengthPrefix > min ceiling.toNat maxFrameBytes.toNat)
        .frameTooLarge
      let epoch ← protocolEpochId
      return encodedFrame epoch frame := by
  obtain ⟨total', htotal', hlen⟩ := exists_frameTotalLen hbodyLen hbody
  obtain rfl := Except.ok.inj (htotal.symm.trans htotal')
  obtain ⟨boundsLen, hboundsLen, htryBounds⟩ := exists_tryU64
    (show (recordBytes frame.bounds.fields).length < 2 ^ 64 by
      have := frame.bounds.length_recordBytes_fields
      omega)
  obtain ⟨payloadLen, hpayload, hpayloadLen⟩ := exists_framePayloadLen hbodyLen hbody hboundsLen
  have hprefix : (ofNat lengthPrefix).toNat = lengthPrefix := rfl
  obtain ⟨wireLen, hwire, hwireLen⟩ : ∃ wireLen, total.checkedAdd (ofNat lengthPrefix) =
      some wireLen ∧ wireLen.toNat = total.toNat + lengthPrefix := by
    have hpreimage := length_framePreimage_le (Id.splat 0) hbody
    have hshort := hlen (Id.splat 0)
    have hmax : maxBytePayload = 16777216 := rfl
    have hid : idLen = 32 := rfl
    have height : lengthPrefix = 8 := rfl
    exact exists_checkedAdd (by omega)
  have hcond : wireLen > min ceiling maxFrameBytes ↔
      total.toNat + lengthPrefix > min ceiling.toNat maxFrameBytes.toNat := by
    rw [gt_iff_lt, lt_iff_toNat_lt, UInt64.toNat_min, hwireLen]
  rw [encodeSingleFrameDirect, hvalid, encode_eq, tryU64_eq_ok.2 hbodyLen]
  simp only [ok_bind, htotal, hwire, ofOption, hcond]
  refine bind_congr fun _ ↦ bind_congr fun epoch ↦ ?_
  rw [htryBounds, ok_bind, hpayload, ok_bind, pushFramePayload_eq _ hbody, ok_bind]
  have hbuffer : BigEndian.bytes lengthPrefix total.toNat ++ magic ++ encodeUvar formatVersion ++
      encodeUvar frameContractTag.toUInt64 ++ epoch.bytes ++ encodeUvar payloadLen ++
        recordBytes frame.fields =
      BigEndian.bytes lengthPrefix total.toNat ++ framePreimage epoch (recordBytes frame.fields) := by
    rw [framePreimage, sizedBytes, encodeUvar_eq payloadLen, hpayloadLen]
    simp only [append_assoc]
  rw [hbuffer, List.drop_left]
  have hbytes : BigEndian.bytes lengthPrefix total.toNat ++
      framePreimage epoch (recordBytes frame.fields) ++
        (ProtocolFrameId.derive (framePreimage epoch (recordBytes frame.fields))).bytes =
      frameBytes epoch (recordBytes frame.fields) := by
    rw [frameBytes, hlen epoch, append_assoc]
  have hwritten : wireLen.toNat = (frameBytes epoch (recordBytes frame.fields)).length := by
    rw [hwireLen, length_frameBytes, hlen epoch, Nat.add_comm]
  rw [hbytes, tryU64_eq_ok.2 hwritten, ok_bind, rejectIf_neg (not_not.2 rfl)]
  rfl

omit [ProtocolEpoch] in
theorem length_encodedFrame {bodyLen total : UInt64} (epoch : SchemaEpochId)
    (hbodyLen : bodyLen.toNat = frame.body.length) (hbody : frame.body.length ≤ maxBytePayload)
    (htotal : frameTotalLen (frame.size bodyLen) = .ok total) :
    (encodedFrame epoch frame).bytes.length = lengthPrefix + total.toNat := by
  obtain ⟨total', htotal', hlen⟩ := exists_frameTotalLen hbodyLen hbody
  obtain rfl := Except.ok.inj (htotal.symm.trans htotal')
  rw [hlen epoch]
  exact length_frameBytes epoch _

/-- The frames that the buffer encoder writes, of any kind. -/
theorem encodeSingleFrameDirect_eq_ok {ceiling : UInt64} {encoded : EncodedFrame} :
    encodeSingleFrameDirect frame ceiling = .ok encoded ↔
      frame.validateForVersion frame.protocolVersion = .ok () ∧
        frame.body.length ≤ maxBytePayload ∧ (∃ epoch, protocolEpochId = .ok epoch ∧
          encoded = encodedFrame epoch frame) ∧
        encoded.bytes.length ≤ min ceiling.toNat maxFrameBytes.toNat := by
  constructor
  · intro h
    have hparts := h
    simp only [encodeSingleFrameDirect, bind_eq_ok, tryU64_eq_ok] at hparts
    obtain ⟨_, hvalid, _, -, bodyLen, hbodyLen, total, htotal, -⟩ := hparts
    have hbody : frame.body.length ≤ maxBytePayload := by
      by_contra hlong
      rw [frameTotalLen_of_long hbodyLen (Nat.not_le.1 hlong)] at htotal
      cases htotal
    rw [encodeSingleFrameDirect_eq hvalid hbodyLen hbody htotal] at h
    simp only [bind_eq_ok, rejectIf_eq_ok, pure_eq_ok, exists_const] at h
    obtain ⟨hfits, epoch, hepoch, rfl⟩ := h
    have hlen := length_encodedFrame epoch hbodyLen hbody htotal
    exact ⟨hvalid, hbody, ⟨epoch, hepoch, rfl⟩, by omega⟩
  · rintro ⟨hvalid, hbody, ⟨epoch, hepoch, rfl⟩, hfits⟩
    obtain ⟨bodyLen, hbodyLen, -⟩ :=
      exists_tryU64 (hbody.trans_lt (show maxBytePayload < 2 ^ 64 by decide))
    obtain ⟨total, htotal, -⟩ := exists_frameTotalLen hbodyLen hbody
    rw [length_encodedFrame epoch hbodyLen hbody htotal] at hfits
    rw [encodeSingleFrameDirect_eq hvalid hbodyLen hbody htotal, hepoch, rejectIf_neg (by omega)]
    rfl

omit [Blake3] [ProtocolEpoch] in
theorem validateForVersion_avoids (frame : ProtocolFrame) (version : UInt32) :
    (frame.validateForVersion version).Avoids {.internalInvariant} := by
  have hguard (c : Prop) [Decidable c] {code : ProtocolErrorCode} (h : code ≠ .internalInvariant) :
      (rejectIf c code).Avoids {.internalInvariant} :=
    avoids_rejectIf fun hmem ↦ absurd hmem h
  rw [ProtocolFrame.validateForVersion]
  exact (hguard _ (by decide)).bind fun _ _ ↦ (hguard _ (by decide)).bind fun _ _ ↦
    (hguard _ (by decide)).bind fun _ _ ↦ (hguard _ (by decide)).bind fun _ _ ↦
      (hguard _ (by decide)).bind fun _ _ ↦ (hguard _ (by decide)).bind fun _ _ ↦
        hguard _ (by decide)

/-- **The lengths never drift apart**: the buffer encoder reports a broken invariant for the epoch
only. -/
theorem encodeSingleFrameDirect_avoids (frame : ProtocolFrame) (ceiling : UInt64)
    (hepoch : protocolEpochId.Avoids {ProtocolErrorCode.internalInvariant}) :
    (encodeSingleFrameDirect frame ceiling).Avoids {.internalInvariant} := by
  cases hvalid : frame.validateForVersion frame.protocolVersion with
  | error code =>
    have hcode := validateForVersion_avoids frame frame.protocolVersion code hvalid
    rw [encodeSingleFrameDirect, hvalid]
    exact Except.avoids_error_iff.2 hcode
  | ok =>
    by_cases hlt : frame.body.length < 2 ^ 64
    · obtain ⟨bodyLen, hbodyLen, htry⟩ := exists_tryU64 hlt
      by_cases hbody : frame.body.length ≤ maxBytePayload
      · obtain ⟨total, htotal, -⟩ := exists_frameTotalLen hbodyLen hbody
        rw [encodeSingleFrameDirect_eq hvalid hbodyLen hbody htotal]
        exact (avoids_rejectIf fun h ↦ absurd h (by decide)).bind fun _ _ ↦
          hepoch.bind fun _ _ ↦ avoids_pure _
      · rw [encodeSingleFrameDirect, hvalid, encode_eq, ok_bind,
          ok_bind, htry, ok_bind, frameTotalLen_of_long hbodyLen (Nat.not_le.1 hbody)]
        exact Except.avoids_error_iff.2 (by decide)
    · rw [encodeSingleFrameDirect, hvalid, encode_eq, ok_bind, ok_bind, tryU64, if_neg hlt]
      exact Except.avoids_error_iff.2 (by decide)

/-- **The single-buffer encoder is the plain encoder behind a ceiling.** -/
theorem encodeSingleFrameDirect_meets (frame : ProtocolFrame) (ceiling : UInt64)
    (hkind : frame.kind ≠ .hello) :
    (∀ encoded, encodeSingleFrameDirect frame ceiling = .ok encoded ↔
      encodeFrameForVersion frame frame.protocolVersion = .ok encoded ∧
        encoded.bytes.length ≤ min ceiling.toNat maxFrameBytes.toNat) ∧
    (∀ encoded, encodeFrameForVersion frame frame.protocolVersion = .ok encoded →
      ∃ bodyLen total, tryU64 frame.body.length .frameInvalid = .ok bodyLen ∧
        frameTotalLen (frame.size bodyLen) = .ok total ∧
        encoded.bytes.length = lengthPrefix + total.toNat) ∧
    (protocolEpochId ≠ .error .internalInvariant →
      encodeSingleFrameDirect frame ceiling ≠ .error .internalInvariant) := by
  refine ⟨fun encoded ↦ ?_, fun encoded hplain ↦ ?_, fun hepoch hdrift ↦ ?_⟩
  · rw [encodeSingleFrameDirect_eq_ok, encodeFrame_eq_ok]
    constructor
    · rintro ⟨hvalid, hbody, ⟨epoch, hepoch, rfl⟩, hfits⟩
      have hlen : (encodedFrame epoch frame).bytes.length = _ := length_frameBytes epoch _
      exact ⟨⟨hkind, hvalid, hbody, epoch, hepoch, by omega, rfl⟩, hfits⟩
    · rintro ⟨⟨-, hvalid, hbody, epoch, hepoch, -, rfl⟩, hfits⟩
      exact ⟨hvalid, hbody, ⟨epoch, hepoch, rfl⟩, hfits⟩
  · obtain ⟨-, -, hbody, epoch, -, -, rfl⟩ := encodeFrame_eq_ok.1 hplain
    obtain ⟨bodyLen, hbodyLen, htry⟩ :=
      exists_tryU64 (hbody.trans_lt (show maxBytePayload < 2 ^ 64 by decide))
    obtain ⟨total, htotal, -⟩ := exists_frameTotalLen hbodyLen hbody
    exact ⟨bodyLen, total, htry _, htotal, length_encodedFrame epoch hbodyLen hbody htotal⟩
  · refine encodeSingleFrameDirect_avoids frame ceiling (fun code hcode hmem ↦ ?_) _ hdrift rfl
    exact hepoch (hcode.trans (congrArg Except.error hmem))

omit [Blake3] [ProtocolEpoch] in
/-- A response with an empty body is written by both. -/
theorem encodeSingleFrameDirect_empty_response :
    letI : Blake3 := ⟨fun _ ↦ Id.splat 0⟩
    letI : ProtocolEpoch := ⟨.ok (Id.splat 1)⟩
    {encoded | encodeSingleFrameDirect (zerosFrame 0) maxFrameBytes = .ok encoded} =
      {encoded | encodeFrameForVersion (zerosFrame 0) protocolVersion = .ok encoded ∧
        encoded.bytes.length ≤ min maxFrameBytes.toNat maxFrameBytes.toNat} :=
  letI : Blake3 := ⟨fun _ ↦ Id.splat 0⟩
  letI : ProtocolEpoch := ⟨.ok (Id.splat 1)⟩
  Set.ext (encodeSingleFrameDirect_meets (zerosFrame 0) maxFrameBytes (by decide)).1

end Direct

end Sley.Protocol
