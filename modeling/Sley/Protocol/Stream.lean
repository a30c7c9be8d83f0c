import Sley.Lib.Chunks
import Sley.Protocol.Frame

/-!
# Streamed responses

How a response that is too long for the frame ceiling travels (`sley-protocol/src/lib.rs`,
`stream_response_for_version` and `reassemble_stream`): its body is cut into chunks, one event frame
carries each, and a response frame with an empty body ends the stream.

The chunk length is the ceiling less a fixed overhead. **The overhead covers the header of every
frame** (`length_frameBytes_le`, `StreamChunk.length_encode_le`), so that no event is refused once the
ceiling leaves room for a chunk. Every event names its position and the number of events, so a list
over the frames of a stream is reassembled only if it is the stream (`eq_of_reassembleStream`).
-/

namespace Sley.Protocol

open Scb1 Ssmc Txn
open Except hiding ok error
open List (forall_mem_append forall_mem_singleton getElem_mem length_append length_zipIdx map_cons
  map_nil mem_map sum_cons sum_nil)
open UInt64 (not_lt ofNat toNat_min toNat_ofNat_of_lt')

/-- Bytes of a frame that are not body. Chunk sizing subtracts it from the ceiling. -/
def streamFrameOverhead : UInt64 := 512

/-- Smallest useful chunk; a ceiling that cannot carry it is not streamable. -/
def minStreamChunkBytes : UInt64 := 64

/-- `u64::try_from`. -/
def tryU64 (n : Nat) (code : ProtocolErrorCode) : Result UInt64 :=
  if n < 2 ^ 64 then .ok (ofNat n) else .error code

/-! ### Chunks -/

/-- One event frame's chunk record. -/
structure StreamChunk where
  index : UInt64
  total : UInt64
  bytes : Bytes
  deriving DecidableEq

namespace StreamChunk

def encode (self : StreamChunk) : Result Bytes := do
  let bytes ← scb (encodeBytes self.bytes)
  scb (encodeRecord [(1, encodeUvar self.index), (2, encodeUvar self.total), (3, bytes)])

def decode (input : Bytes) : Result StreamChunk := do
  match ← Reader.record 3 input with
  | [f₁, f₂, f₃] =>
    let index ← singleUvar f₁
    let total ← singleUvar f₂
    let bytes ← Reader.bytes f₃
    return { index, total, bytes }
  | _ => .error .internalInvariant

end StreamChunk

/-! ### Streams -/

variable [Blake3] [ProtocolEpoch]

/-- The event frame that carries one chunk of the body. -/
def streamEvent (response : ProtocolFrame) (version : UInt32) (ceiling total : UInt64)
    (chunk : Bytes × Nat) : Result EncodedFrame := do
  let index ← tryU64 chunk.2 .limitExceeded
  let record ← StreamChunk.encode { index, total, bytes := chunk.1 }
  let event := { response with
    kind := .event
    flags := response.flags ||| flagStream
    bounds := BoundedContext.none
    body := record }
  let encoded ← encodeFrameForVersion event version
  rejectIf (encoded.bytes.length > ceiling.toNat) .limitExceeded
  return encoded

/-- Splits one response into event frames and a final response frame when its body does not fit the
ceiling. -/
def streamResponseForVersion (response : ProtocolFrame) (maxFrameBytes : UInt64)
    (streamNegotiated : Bool) (version : UInt32) : Result (List EncodedFrame) := do
  rejectIf (response.kind ≠ .response) .frameInvalid
  let ceiling := min maxFrameBytes Protocol.maxFrameBytes
  let single ← encodeFrameForVersion response version
  if single.bytes.length ≤ ceiling.toNat then
    return [single]
  else
    rejectIf (streamNegotiated = false) .limitExceeded
    rejectIf (ceiling < streamFrameOverhead ∨
      ceiling - streamFrameOverhead < minStreamChunkBytes) .limitExceeded
    let pieces := chunks (ceiling - streamFrameOverhead).toNat response.body
    let total ← tryU64 pieces.length .limitExceeded
    let events ← pieces.zipIdx.mapM (streamEvent response version ceiling total)
    let last := { response with flags := response.flags ||| flagStream, body := [] }
    let encoded ← encodeFrameForVersion last version
    return events ++ [encoded]

/-- The loop of `reassemble_stream`. -/
def reassembleEvents (last : ProtocolFrame) :
    Nat → Option UInt64 → Bytes → List ProtocolFrame → Result (Option UInt64 × Bytes)
  | _, expectedTotal, body, [] => return (expectedTotal, body)
  | index, expectedTotal, body, event :: events => do
    rejectIf (event.kind ≠ .event ∨ event.flags &&& flagStream = 0 ∨
      event.flags &&& flagFailed ≠ last.flags &&& flagFailed ∨ event.session ≠ last.session ∨
      event.requestId ≠ last.requestId ∨ event.method ≠ last.method ∨
      event.bounds ≠ BoundedContext.none) .frameInvalid
    let chunk ← StreamChunk.decode event.body
    let position ← tryU64 index .frameInvalid
    rejectIf (chunk.index ≠ position ∨ ∃ total ∈ expectedTotal, total ≠ chunk.total)
      .frameInvalid
    reassembleEvents last (index + 1) (some chunk.total) (body ++ chunk.bytes) events

/-- Reassembles a streamed response from its event frames and final frame. -/
def reassembleStream (frames : List ProtocolFrame) : Result ProtocolFrame :=
  match frames.getLast? with
  | none => .error .frameInvalid
  | some last => do
    let events := frames.dropLast
    rejectIf (last.kind ≠ .response ∨ last.flags &&& flagStream = 0 ∨ last.body ≠ [])
      .frameInvalid
    let (expectedTotal, body) ← reassembleEvents last 0 none [] events
    let eventsLen ← tryU64 events.length .frameInvalid
    rejectIf (expectedTotal ≠ some eventsLen ∨ eventsLen = 0) .frameInvalid
    return { last with body }

/-! ### Sizes -/

section Sizes

omit [Blake3] [ProtocolEpoch]

/-- A record of a few short fields: every tag takes one byte and every length at most `k`. -/
theorem length_recordBytes_short {fields : List Bytes} {k : Nat} (hk : 0 < k)
    (hcount : fields.length < 128) (hlt : ∀ field ∈ fields, field.length < 2 ^ (7 * k)) :
    (recordBytes fields).length ≤ 1 + (fields.map fun field ↦ field.length + (1 + k)).sum := by
  have htagged : ∀ index, index + fields.length ≤ 128 →
      ((numbered index fields).flatMap fun field ↦ taggedBytes field.1 field.2).length ≤
        (fields.map fun field ↦ field.length + (1 + k)).sum := by
    clear hcount
    induction fields with
    | nil => exact fun _ _ ↦ Nat.le_refl _
    | cons field fields ih =>
      intro index hindex
      obtain ⟨hfield, hlt⟩ := List.forall_mem_cons.1 hlt
      rw [List.length_cons] at hindex
      have hrest := ih hlt (index + 1) (by omega)
      have htag : (Leb128.encode (UInt32.ofNat index).toNat).length ≤ 1 := by
        refine Leb128.length_encode_le (by decide) ?_
        rw [UInt32.toNat_ofNat', Nat.mod_eq_of_lt (by omega)]
        omega
      have hlen : (Leb128.encode field.length).length ≤ k := Leb128.length_encode_le hk hfield
      rw [numbered, List.flatMap_cons, length_append, map_cons, sum_cons]
      refine Nat.add_le_add ?_ hrest
      show (taggedBytes (UInt32.ofNat index) field).length ≤ field.length + (1 + k)
      rw [taggedBytes, sizedBytes, length_append, length_append]
      omega
  have hhead : (Leb128.encode fields.length).length ≤ 1 :=
    Leb128.length_encode_le (by decide) hcount
  have hfields := htagged 1 (by omega)
  rw [recordBytes, length_append]
  omega

theorem length_encodeUvar_toUInt64 (v : UInt32) : (encodeUvar v.toUInt64).length ≤ 5 := by
  rw [encodeUvar_eq, UInt32.toNat_toUInt64]
  exact Leb128.length_encode_le (by decide) (v.toNat_lt.trans (by decide))

theorem LimitProfile.length_recordBytes_fields (self : LimitProfile) :
    (recordBytes self.fields).length ≤ 82 := by
  have hcount : self.fields.length < 128 := show 8 < 128 by decide
  have hlen := length_recordBytes_short (k := 1) (by decide) hcount fun field hfield ↦
    (LimitProfile.length_fields_le field hfield).trans_lt (by decide)
  have h₁ := length_encodeUvar self.maxFrameBytes
  have h₂ := length_encodeUvar self.maxEntities
  have h₃ := length_encodeUvar self.maxEdges
  have h₄ := length_encodeUvar_toUInt64 self.maxDepth
  have h₅ := length_encodeUvar self.maxResponseBytes
  have h₆ := length_encodeUvar self.maxWork
  have h₇ := length_encodeUvar_toUInt64 self.maxInflight
  have h₈ := length_encodeUvar_toUInt64 self.maxSessions
  simp only [fields, map_cons, map_nil, sum_cons, sum_nil] at hlen
  rw [fields]
  omega

theorem BoundedContext.length_recordBytes_fields (self : BoundedContext) :
    (recordBytes self.fields).length ≤ 146 := by
  have hflag (value : Bool) : (encodeUvar (flag value)).length ≤ 1 := by
    rw [encodeUvar_eq]
    exact Leb128.length_encode_le (by decide) (by cases value <;> decide)
  have hlimits := self.appliedLimits.length_recordBytes_fields
  have hcount : self.fields.length < 128 := show 8 < 128 by decide
  have hlen := length_recordBytes_short (k := 1) (by decide) hcount (by
      have huvar : ∀ v : UInt64, (encodeUvar v).length < 2 ^ (7 * 1) := fun v ↦
        (length_encodeUvar v).trans_lt (by decide)
      simp only [fields, List.forall_mem_cons, huvar, true_and]
      exact ⟨hlimits.trans_lt (by decide), fun _ h ↦ (List.not_mem_nil h).elim⟩)
  have h₂ := length_encodeUvar self.returnedBytes
  have h₃ := length_encodeUvar self.returnedEntities
  have h₄ := length_encodeUvar self.returnedEdges
  have h₅ := length_encodeUvar_toUInt64 self.reachedDepth
  have h₆ := length_encodeUvar self.omitted
  have h₇ := hflag self.truncated
  have h₈ := hflag self.continuation
  simp only [fields, map_cons, map_nil, sum_cons, sum_nil] at hlen
  rw [fields]
  omega

namespace ProtocolFrame

variable (self : ProtocolFrame)

theorem length_recordBytes_fields (h : self.body.length ≤ maxBytePayload) :
    (recordBytes self.fields).length ≤ self.body.length + 251 := by
  have hmax : maxBytePayload = 16777216 := rfl
  have hsession : (sessionField self.session).length ≤ 34 := by
    have hsized : ∀ (tag : UInt32) (bs : Bytes), tag.toNat < 128 → bs.length ≤ 32 →
        (taggedBytes tag bs).length ≤ 34 := by
      intro tag bs htag hle
      have htag : (Leb128.encode tag.toNat).length ≤ 1 := Leb128.length_encode_le (by decide) htag
      have hcount : (Leb128.encode bs.length).length ≤ 1 :=
        Leb128.length_encode_le (by decide) (hle.trans_lt (by decide))
      rw [taggedBytes, sizedBytes, length_append, length_append]
      omega
    cases self.session with
    | none => exact hsized 0 [] (by decide) (by decide)
    | some session => exact hsized 1 _ (by decide) session.length_eq.le
  have hkind : (encodeUvar self.kind.tag.toUInt64).length ≤ 1 := by
    rw [encodeUvar_eq]
    exact Leb128.length_encode_le (by decide) (by cases self.kind <;> decide)
  have hbody : (sizedBytes self.body).length ≤ self.body.length + 4 := by
    have hcount : (Leb128.encode self.body.length).length ≤ 4 :=
      Leb128.length_encode_le (by decide) (by omega)
    rw [sizedBytes, length_append]
    omega
  have hcount : self.fields.length < 128 := show 8 < 128 by decide
  have hfields : ∀ field ∈ self.fields, field.length < 2 ^ (7 * 4) := by
    rw [show self.fields = self.fields.dropLast ++ [sizedBytes self.body] from rfl]
    refine forall_mem_append.2 ⟨fun field hfield ↦ ?_, forall_mem_singleton.2 (by omega)⟩
    exact (length_header_le field hfield).trans_lt (by decide)
  have hlen := length_recordBytes_short (by decide) hcount hfields
  have h₁ := length_encodeUvar_toUInt64 self.protocolVersion
  have h₃ := length_encodeUvar self.requestId
  have h₅ := length_encodeUvar_toUInt64 self.method
  have h₆ := length_encodeUvar_toUInt64 self.flags
  have h₇ := self.bounds.length_recordBytes_fields
  simp only [fields, map_cons, map_nil, sum_cons, sum_nil] at hlen
  rw [fields]
  omega

end ProtocolFrame

theorem length_framePreimage_le {frame : ProtocolFrame} (epoch : SchemaEpochId)
    (h : frame.body.length ≤ maxBytePayload) :
    (framePreimage epoch (recordBytes frame.fields)).length ≤ frame.body.length + 298 := by
  have hmax : maxBytePayload = 16777216 := rfl
  have hpayload := frame.length_recordBytes_fields h
  have hcount : (Leb128.encode (recordBytes frame.fields).length).length ≤ 4 :=
    Leb128.length_encode_le (by decide) (by omega)
  have hformat : (encodeUvar formatVersion).length ≤ 1 := by
    rw [encodeUvar_eq]
    exact Leb128.length_encode_le (by decide) (by decide)
  have htag : (encodeUvar frameContractTag.toUInt64).length ≤ 2 := by
    rw [encodeUvar_eq]
    exact Leb128.length_encode_le (by decide) (by decide)
  have hmagic : magic.length = 8 := rfl
  rw [framePreimage, sizedBytes]
  simp only [length_append, epoch.length_eq]
  omega

end Sizes

omit [ProtocolEpoch] in
/-- **The header of a frame is shorter than the overhead that is set aside for it.** -/
theorem length_frameBytes_le {frame : ProtocolFrame} (epoch : SchemaEpochId)
    (h : frame.body.length ≤ maxBytePayload) :
    (frameBytes epoch (recordBytes frame.fields)).length ≤ frame.body.length + 338 := by
  have hlen := length_framePreimage_le epoch h
  have hprefix : lengthPrefix = 8 := rfl
  have hidLen : idLen = 32 := rfl
  rw [length_frameBytes]
  omega

/-! ### Chunk records -/

namespace StreamChunk

variable {self : StreamChunk} {bs : Bytes}

omit [Blake3] [ProtocolEpoch]

/-- The payloads of the record. -/
def fields (self : StreamChunk) : List Bytes :=
  [encodeUvar self.index, encodeUvar self.total, sizedBytes self.bytes]

theorem length_sizedBytes_bytes (h : self.bytes.length ≤ maxBytePayload) :
    (sizedBytes self.bytes).length ≤ self.bytes.length + 4 := by
  have hmax : maxBytePayload = 16777216 := rfl
  have hcount : (Leb128.encode self.bytes.length).length ≤ 4 :=
    Leb128.length_encode_le (by decide) (by omega)
  rw [sizedBytes, length_append]
  omega

theorem length_fields_le (h : self.bytes.length ≤ maxBytePayload) :
    ∀ field ∈ self.fields, field.length ≤ maxBytePayload + 4 := by
  have hsized := length_sizedBytes_bytes h
  have huvar : ∀ v : UInt64, (encodeUvar v).length ≤ maxBytePayload + 4 := fun v ↦
    (length_encodeUvar v).trans (by decide)
  simp only [fields, List.forall_mem_cons, huvar, true_and]
  exact ⟨by omega, fun _ h ↦ (List.not_mem_nil h).elim⟩

theorem encode_eq_ok :
    self.encode = .ok bs ↔ self.bytes.length ≤ maxBytePayload ∧ bs = recordBytes self.fields := by
  rw [encode]
  simp only [bind_eq_ok, scb_eq_ok, encodeBytes_eq_ok]
  have hrecord (h : self.bytes.length ≤ maxBytePayload) :
      encodeRecord (numbered 1 self.fields) = .ok (recordBytes self.fields) :=
    encodeRecord_numbered (show 3 ≤ maxRecordFields by decide) fun field hfield ↦
      (length_fields_le h field hfield).trans (by decide)
  constructor
  · rintro ⟨_, ⟨hbytes, rfl⟩, hencode⟩
    have hencode : encodeRecord (numbered 1 self.fields) = .ok bs := hencode
    rw [hrecord hbytes, Except.ok.injEq] at hencode
    exact ⟨hbytes, hencode.symm⟩
  · rintro ⟨hbytes, rfl⟩
    exact ⟨_, ⟨hbytes, rfl⟩, hrecord hbytes⟩

theorem decode_encode (h : self.encode = .ok bs) : decode bs = .ok self := by
  obtain ⟨hbytes, rfl⟩ := encode_eq_ok.1 h
  refine bind_eq_ok.2 ⟨self.fields, (Reader.record_eq_ok (by decide)).2
    ⟨rfl, fun field hfield ↦ (length_fields_le hbytes field hfield).trans_lt (by decide), rfl⟩, ?_⟩
  simp only [fields, bind_eq_ok, singleUvar_eq_ok, Reader.bytes_eq_ok, pure_eq_ok]
  exact ⟨_, rfl, _, rfl, _, ⟨hbytes.trans_lt (by decide), rfl⟩, rfl⟩

theorem length_encode_le (h : self.encode = .ok bs) : bs.length ≤ self.bytes.length + 40 := by
  obtain ⟨hbytes, rfl⟩ := encode_eq_ok.1 h
  have hcount : self.fields.length < 128 := show 3 < 128 by decide
  have hlen := length_recordBytes_short (k := 4) (by decide) hcount fun field hfield ↦
    (length_fields_le hbytes field hfield).trans_lt (by decide)
  have hindex := length_encodeUvar self.index
  have htotal := length_encodeUvar self.total
  have hsized := length_sizedBytes_bytes hbytes
  simp only [fields, map_cons, map_nil, sum_cons, sum_nil] at hlen
  rw [fields]
  omega

end StreamChunk

omit [Blake3] [ProtocolEpoch] in
theorem tryU64_eq_ok {n : Nat} {code : ProtocolErrorCode} {v : UInt64} :
    tryU64 n code = .ok v ↔ v.toNat = n := by
  rw [tryU64]
  constructor
  · intro h
    split at h
    · rename_i hlt
      obtain rfl := Except.ok.inj h
      exact toNat_ofNat_of_lt' hlt
    · cases h
  · rintro rfl
    rw [if_pos v.toNat_lt, UInt64.ofNat_toNat]

/-! ### What is reassembled -/

section Reassembly

omit [Blake3] [ProtocolEpoch]

/-- The event of a stream that carries a piece of the body at a position. -/
structure Carries (last : ProtocolFrame) (total : UInt64) (event : ProtocolFrame) (index : Nat)
    (piece : Bytes) : Prop where
  kind : event.kind = .event
  stream : event.flags &&& flagStream ≠ 0
  failed : event.flags &&& flagFailed = last.flags &&& flagFailed
  session : event.session = last.session
  requestId : event.requestId = last.requestId
  method : event.method = last.method
  bounds : event.bounds = BoundedContext.none
  chunk : ∃ position : UInt64, position.toNat = index ∧
    StreamChunk.decode event.body = .ok ⟨position, total, piece⟩

variable {last frame : ProtocolFrame} {total : UInt64} {events frames : List ProtocolFrame}

/-- One turn of the loop. -/
theorem reassembleEvents_cons {event : ProtocolFrame} {index : Nat} {seen : Option UInt64}
    {body : Bytes} {found : Option UInt64 × Bytes} :
    reassembleEvents last index seen body (event :: events) = .ok found ↔
      ∃ total piece, Carries last total event index piece ∧ (∀ t ∈ seen, t = total) ∧
        reassembleEvents last (index + 1) (some total) (body ++ piece) events = .ok found := by
  rw [reassembleEvents]
  simp only [bind_eq_ok, rejectIf_eq_ok, exists_const, not_or, not_not, not_exists,
    not_and, tryU64_eq_ok]
  constructor
  · rintro ⟨⟨hkind, hstream, hfailed, hsession, hrequestId, hmethod, hbounds⟩,
      ⟨position, total, piece⟩, hdecode, _, rfl, ⟨rfl, hseen⟩, hrest⟩
    exact ⟨total, piece, ⟨hkind, hstream, hfailed, hsession, hrequestId, hmethod, hbounds, position,
      rfl, hdecode⟩, hseen, hrest⟩
  · rintro ⟨total, piece, hcarries, hseen, hrest⟩
    obtain ⟨position, hposition, hdecode⟩ := hcarries.chunk
    exact ⟨⟨hcarries.kind, hcarries.stream, hcarries.failed, hcarries.session, hcarries.requestId,
      hcarries.method, hcarries.bounds⟩, ⟨position, total, piece⟩, hdecode, position, hposition,
      ⟨rfl, hseen⟩, hrest⟩

theorem reassembleEvents_eq_ok {index : Nat} {seen : Option UInt64} {body body' : Bytes} :
    reassembleEvents last index seen body events = .ok (some total, body') ↔
      (seen = some total ∨ seen = none ∧ events ≠ []) ∧ ∃ pieces : List Bytes,
        List.Forall₂ (fun event piece ↦ Carries last total event.1 event.2 piece)
          (events.zipIdx index) pieces ∧ body' = body ++ pieces.flatten := by
  induction events generalizing index seen body with
  | nil =>
    simp only [reassembleEvents, pure_eq_ok, Prod.mk.injEq, List.zipIdx_nil,
      List.forall₂_nil_left_iff, exists_eq_left, List.flatten_nil, List.append_nil, ne_eq,
      not_true_eq_false, and_false, or_false]
    exact and_congr_left' eq_comm
  | cons event events ih =>
    simp only [reassembleEvents_cons, ih, List.zipIdx_cons, List.forall₂_cons_left_iff]
    constructor
    · rintro ⟨t, piece, hcarries, hseen, hfound, pieces, hpieces, rfl⟩
      obtain rfl : t = total := by simpa using hfound
      refine ⟨?_, _, ⟨piece, pieces, hcarries, hpieces, rfl⟩, ?_⟩
      · cases seen with
        | none => exact .inr ⟨rfl, List.cons_ne_nil _ _⟩
        | some s => exact .inl (congrArg some (hseen s rfl))
      · rw [List.flatten_cons, List.append_assoc]
    · rintro ⟨hseen, _, ⟨piece, pieces, hcarries, hpieces, rfl⟩, rfl⟩
      refine ⟨total, piece, hcarries, fun t ht ↦ ?_, .inl rfl, pieces, hpieces, ?_⟩
      · obtain rfl | ⟨rfl, -⟩ := hseen
        · exact (Option.some.inj ht).symm
        · exact absurd ht (Option.not_mem_none t)
      · rw [List.flatten_cons, List.append_assoc]

/-- **What is reassembled**: the events of one stream in their places, and its end. -/
theorem reassembleStream_eq_ok :
    reassembleStream frames = .ok frame ↔ ∃ events last total, ∃ pieces : List Bytes,
      frames = events ++ [last] ∧ last.kind = .response ∧ last.flags &&& flagStream ≠ 0 ∧
        last.body = [] ∧ events ≠ [] ∧ total.toNat = events.length ∧
        List.Forall₂ (fun event piece ↦ Carries last total event.1 event.2 piece) events.zipIdx
          pieces ∧ frame = { last with body := pieces.flatten } := by
  rw [reassembleStream]
  constructor
  · intro h
    split at h
    · cases h
    · rename_i last hlast
      simp only [bind_eq_ok, rejectIf_eq_ok, exists_const, not_or, not_not,
        tryU64_eq_ok, pure_eq_ok, Prod.exists] at h
      obtain ⟨⟨hkind, hstream, hbody⟩, _, body, hevents, total, htotal, ⟨rfl, hzero⟩, rfl⟩ := h
      obtain ⟨hseen, pieces, hpieces, rfl⟩ := reassembleEvents_eq_ok.1 hevents
      obtain hseen | ⟨-, hne⟩ := hseen
      · cases hseen
      exact ⟨frames.dropLast, last, total, pieces, (List.dropLast_append_getLast? last hlast).symm,
        hkind, hstream, hbody, hne, htotal, hpieces, rfl⟩
  · rintro ⟨events, last, total, pieces, rfl, hkind, hstream, hbody, hne, htotal, hpieces, rfl⟩
    rw [List.getLast?_concat]
    simp only [List.dropLast_concat, bind_eq_ok, rejectIf_eq_ok, exists_const, not_or,
      not_not, tryU64_eq_ok, pure_eq_ok, Prod.exists]
    refine ⟨⟨hkind, hstream, hbody⟩, some total, _, reassembleEvents_eq_ok.2 ⟨.inr ⟨rfl, hne⟩,
      pieces, hpieces, rfl⟩, total, htotal, ⟨rfl, ?_⟩, rfl⟩
    rintro rfl
    exact hne (List.length_eq_zero_iff.1 htotal.symm)

end Reassembly

/-! ### The frames of a stream -/

section Frames

omit [Blake3] [ProtocolEpoch]

theorem or_and_distrib (f g m : UInt32) : (f ||| g) &&& m = (f &&& m) ||| (g &&& m) := by
  rw [← UInt32.toBitVec_inj]
  ext i
  simp [Bool.and_or_distrib_right]

theorem or_flagStream_ne_zero (flags : UInt32) : (flags ||| flagStream) &&& flagStream ≠ 0 := by
  rw [or_and_distrib, ne_eq, UInt32.or_eq_zero_iff]
  exact fun h ↦ absurd h.2 (by decide)

/-- The event that carries one chunk. -/
def eventFrame (response : ProtocolFrame) (total : UInt64) (chunk : Bytes × Nat) : ProtocolFrame :=
  { response with
    kind := .event
    flags := response.flags ||| flagStream
    bounds := BoundedContext.none
    body := recordBytes (StreamChunk.fields ⟨ofNat chunk.2, total, chunk.1⟩) }

/-- The end of a stream. -/
def lastFrame (response : ProtocolFrame) : ProtocolFrame :=
  { response with flags := response.flags ||| flagStream, body := [] }

def eventFrames (response : ProtocolFrame) (pieces : List Bytes) : List ProtocolFrame :=
  pieces.zipIdx.map (eventFrame response (ofNat pieces.length))

def streamFrames (response : ProtocolFrame) (pieces : List Bytes) : List ProtocolFrame :=
  eventFrames response pieces ++ [lastFrame response]

variable {response frame : ProtocolFrame} {pieces : List Bytes} {version : UInt32} {total : UInt64}
  {chunk : Bytes × Nat}

theorem decode_eventFrame (h : chunk.1.length ≤ maxBytePayload) :
    StreamChunk.decode (eventFrame response total chunk).body =
      .ok ⟨ofNat chunk.2, total, chunk.1⟩ :=
  StreamChunk.decode_encode (StreamChunk.encode_eq_ok.2 ⟨h, rfl⟩)

theorem eventFrame_carries (h : chunk.1.length ≤ maxBytePayload) (hindex : chunk.2 < 2 ^ 64) :
    Carries (lastFrame response) total (eventFrame response total chunk) chunk.2 chunk.1 where
  kind := rfl
  stream := or_flagStream_ne_zero response.flags
  failed := rfl
  session := rfl
  requestId := rfl
  method := rfl
  bounds := rfl
  chunk := ⟨ofNat chunk.2, toNat_ofNat_of_lt' hindex, decode_eventFrame h⟩

theorem validate_eventFrame (h : response.validateForVersion version = .ok ()) :
    (eventFrame response total chunk).validateForVersion version = .ok () := by
  obtain ⟨hversion, hsame, -, hflags, hfailed⟩ := validateForVersion_eq_ok.1 h
  refine validateForVersion_eq_ok.2 ⟨hversion, hsame, nofun, ?_, fun _ ↦ .inr rfl⟩
  show (response.flags ||| flagStream) &&& ~~~flagMask = 0
  rw [or_and_distrib, hflags]
  decide

theorem validate_lastFrame (hkind : response.kind = .response)
    (h : response.validateForVersion version = .ok ()) :
    (lastFrame response).validateForVersion version = .ok () := by
  obtain ⟨hversion, hsame, -, hflags, hfailed⟩ := validateForVersion_eq_ok.1 h
  refine validateForVersion_eq_ok.2 ⟨hversion, hsame, fun hhello ↦ ?_, ?_, fun _ ↦ .inl hkind⟩
  · exact absurd (hkind.symm.trans hhello) (by decide)
  · show (response.flags ||| flagStream) &&& ~~~flagMask = 0
    rw [or_and_distrib, hflags]
    decide

/-- **The frames of a stream are reassembled to the response**, with the stream flag set. -/
theorem reassembleStream_streamFrames (hkind : response.kind = .response) (hne : pieces ≠ [])
    (hcount : pieces.length < 2 ^ 64) (hle : ∀ piece ∈ pieces, piece.length ≤ maxBytePayload) :
    reassembleStream (streamFrames response pieces) =
      .ok { lastFrame response with body := pieces.flatten } := by
  refine reassembleStream_eq_ok.2 ⟨eventFrames response pieces, lastFrame response,
    ofNat pieces.length, pieces, rfl, hkind, or_flagStream_ne_zero _, rfl, ?_, ?_, ?_, rfl⟩
  · simpa [eventFrames] using hne
  · rw [toNat_ofNat_of_lt' hcount, eventFrames, List.length_map, length_zipIdx]
  · refine List.forall₂_iff_get.2 ⟨by simp [eventFrames], fun i hi hi' ↦ ?_⟩
    simp only [eventFrames, List.get_eq_getElem, List.getElem_zipIdx, List.getElem_map, Nat.zero_add]
    exact @eventFrame_carries _ _ (pieces[i], i) (hle _ (getElem_mem _)) (by
      show i < 2 ^ 64
      omega)

/-! ### Other sequences -/

/-- The frame belongs to the stream of another request. -/
def ProtocolFrame.Foreign (response frame : ProtocolFrame) : Prop :=
  (frame.session, frame.requestId, frame.method) ≠
    (response.session, response.requestId, response.method)

variable {altered decoded events : List ProtocolFrame} {last event result : ProtocolFrame}

theorem exists_carries (h : List.Forall₂ (fun event piece ↦ Carries last total event.1 event.2 piece)
    events.zipIdx pieces) (i : Nat) (hi : i < events.length) :
    ∃ piece, Carries last total events[i] i piece := by
  have hlen := h.length_eq
  rw [length_zipIdx] at hlen
  have hcarries := (List.forall₂_iff_get.1 h).2 i (by rwa [length_zipIdx]) (by omega)
  simp only [List.get_eq_getElem, List.getElem_zipIdx, Nat.zero_add] at hcarries
  exact ⟨_, hcarries⟩

/-- One reassembled sequence does not mix the frames of two requests. -/
theorem mem_of_reassembleStream (hdecoded : ∀ frame ∈ decoded, ¬ response.Foreign frame)
    (hmem : ∀ frame ∈ altered, frame ∈ decoded ∨ response.Foreign frame)
    (hkeeps : ∃ frame ∈ altered, frame ∈ decoded) (h : reassembleStream altered = .ok result) :
    ∀ frame ∈ altered, frame ∈ decoded := by
  obtain ⟨events, last, total, pieces, rfl, -, -, -, -, -, hpieces, -⟩ := reassembleStream_eq_ok.1 h
  -- every frame names the request that the last one names
  have hsame : ∀ frame ∈ events ++ [last], (frame.session, frame.requestId, frame.method) =
      (last.session, last.requestId, last.method) := by
    refine forall_mem_append.2 ⟨fun event hevent ↦ ?_, forall_mem_singleton.2 rfl⟩
    obtain ⟨i, hi, rfl⟩ := List.getElem_of_mem hevent
    obtain ⟨piece, hcarries⟩ := exists_carries hpieces i hi
    rw [hcarries.session, hcarries.requestId, hcarries.method]
  obtain ⟨kept, hkept, hkeptMem⟩ := hkeeps
  have hlast : (last.session, last.requestId, last.method) =
      (response.session, response.requestId, response.method) := by
    rw [← hsame kept hkept]
    exact not_not.1 (hdecoded kept hkeptMem)
  intro frame hframe
  exact (hmem frame hframe).resolve_right fun hforeign ↦
    hforeign ((hsame frame hframe).trans hlast)

/-- **Altered sequences are refused**, if the sequences over the frames themselves are. -/
theorem refuses_altered (hdecoded : ∀ frame ∈ decoded, ¬ response.Foreign frame)
    (hown : ∀ {altered : List ProtocolFrame} {result : ProtocolFrame},
      (∀ frame ∈ altered, frame ∈ decoded) → reassembleStream altered = .ok result →
        altered = decoded)
    (hmem : ∀ frame ∈ altered, frame ∈ decoded ∨ response.Foreign frame)
    (hkeeps : altered = [] ∨ ∃ frame ∈ altered, frame ∈ decoded) (hne : altered ≠ decoded) :
    reassembleStream altered ≠ .ok result := by
  intro h
  obtain rfl | hkeeps := hkeeps
  · cases h
  · exact hne (hown (mem_of_reassembleStream hdecoded hmem hkeeps h) h)

/-- A response alone is the end of a stream and no event. -/
theorem eq_of_reassembleStream_plain (hkind : response.kind = .response)
    (hmem : ∀ frame ∈ altered, frame ∈ [response]) (h : reassembleStream altered = .ok result) :
    altered = [response] := by
  obtain ⟨events, last, total, pieces, rfl, -, -, -, hne, -, hpieces, -⟩ :=
    reassembleStream_eq_ok.1 h
  have hpos := List.length_pos_of_ne_nil hne
  obtain ⟨piece, hpiece⟩ := exists_carries hpieces 0 hpos
  have hresponse := List.mem_singleton.1
    (hmem events[0] (List.mem_append_left _ (getElem_mem hpos)))
  have hkindEq := hpiece.kind
  rw [hresponse, hkind] at hkindEq
  exact absurd hkindEq (by decide)

/-- The position that an event names. -/
def positionOf (event : ProtocolFrame) : Nat :=
  match StreamChunk.decode event.body with
  | .ok chunk => chunk.index.toNat
  | .error _ => 0

theorem Carries.positionOf_eq {index : Nat} {piece : Bytes}
    (h : Carries last total event index piece) : positionOf event = index := by
  obtain ⟨position, hposition, hdecode⟩ := h.chunk
  rw [positionOf, hdecode]
  exact hposition

theorem Carries.total_eq {last' : ProtocolFrame} {total' : UInt64} {index index' : Nat}
    {piece piece' : Bytes} (h : Carries last total event index piece)
    (h' : Carries last' total' event index' piece') : total = total' := by
  obtain ⟨position, -, hdecode⟩ := h.chunk
  obtain ⟨position', -, hdecode'⟩ := h'.chunk
  exact congrArg StreamChunk.total (Except.ok.inj (hdecode.symm.trans hdecode'))

theorem length_eventFrames : (eventFrames response pieces).length = pieces.length := by
  rw [eventFrames, List.length_map, length_zipIdx]

theorem kind_of_mem_eventFrames (h : event ∈ eventFrames response pieces) : event.kind = .event := by
  obtain ⟨chunk, -, rfl⟩ := mem_map.1 h
  rfl

theorem exists_carries_eventFrames (hcount : pieces.length < 2 ^ 64)
    (hle : ∀ piece ∈ pieces, piece.length ≤ maxBytePayload) (i : Nat)
    (hi : i < (eventFrames response pieces).length) :
    ∃ piece, Carries (lastFrame response) (ofNat pieces.length)
      (eventFrames response pieces)[i] i piece := by
  have hi' : i < pieces.length := by rwa [length_eventFrames] at hi
  simp only [eventFrames, List.getElem_map, List.getElem_zipIdx, Nat.zero_add]
  exact ⟨_, eventFrame_carries (hle _ (getElem_mem hi')) (hi'.trans hcount)⟩

/-- **A sequence over the frames of a stream is reassembled only if it is the stream.** -/
theorem eq_of_reassembleStream (hkind : response.kind = .response)
    (hcount : pieces.length < 2 ^ 64) (hle : ∀ piece ∈ pieces, piece.length ≤ maxBytePayload)
    (hmem : ∀ frame ∈ altered, frame ∈ streamFrames response pieces)
    (h : reassembleStream altered = .ok result) : altered = streamFrames response pieces := by
  obtain ⟨events, last, total, found, rfl, hlast, -, -, hne, htotal, hfound, -⟩ :=
    reassembleStream_eq_ok.1 h
  rw [forall_mem_append, forall_mem_singleton] at hmem
  obtain ⟨hevents, hend⟩ := hmem
  have hcarries := exists_carries hfound
  have hown : ∀ (i : Nat) (hi : i < (eventFrames response pieces).length), ∃ piece,
      Carries (lastFrame response) (ofNat pieces.length) (eventFrames response pieces)[i] i
        piece := exists_carries_eventFrames hcount hle
  have hsplit (frame : ProtocolFrame) : frame ∈ streamFrames response pieces →
      frame ∈ eventFrames response pieces ∨ frame = lastFrame response := fun hframe ↦ by
    rwa [streamFrames, List.mem_append, List.mem_singleton] at hframe
  -- the kinds tell the end from the events
  have hlastEq : last = lastFrame response :=
    (hsplit last hend).resolve_left fun hevent ↦
      absurd (hlast.symm.trans (kind_of_mem_eventFrames hevent)) (by decide)
  have heventsMem : ∀ event ∈ events, event ∈ eventFrames response pieces := by
    intro event hevent
    refine (hsplit event (hevents event hevent)).resolve_right fun heq ↦ ?_
    obtain ⟨i, hi, hget⟩ := List.getElem_of_mem hevent
    obtain ⟨piece, hpiece⟩ := hcarries i hi
    have hkindEq := hpiece.kind
    rw [hget, heq] at hkindEq
    exact absurd (hkind.symm.trans hkindEq) (by decide)
  -- every event names the number of events
  have hlen : events.length = (eventFrames response pieces).length := by
    have hpos := List.length_pos_of_ne_nil hne
    obtain ⟨piece, hpiece⟩ := hcarries 0 hpos
    obtain ⟨j, hj, hget⟩ := List.getElem_of_mem (heventsMem events[0] (getElem_mem hpos))
    obtain ⟨piece', hpiece'⟩ := hown j hj
    rw [hget] at hpiece'
    rw [← htotal, hpiece.total_eq hpiece', toNat_ofNat_of_lt' hcount, length_eventFrames]
  have hpositions (i : Nat) (hi : i < (eventFrames response pieces).length) :
      positionOf (eventFrames response pieces)[i] = i := by
    obtain ⟨piece, hpiece⟩ := hown i hi
    exact hpiece.positionOf_eq
  have hpositions' (i : Nat) (hi : i < events.length) : positionOf events[i] = i := by
    obtain ⟨piece, hpiece⟩ := hcarries i hi
    exact hpiece.positionOf_eq
  rw [eq_of_positions hpositions hpositions' heventsMem hlen, hlastEq, streamFrames]

end Frames

/-! ### What is streamed -/

/-- A frame as it travels. -/
def encodedFrame (epoch : SchemaEpochId) (frame : ProtocolFrame) : EncodedFrame where
  kind := frame.kind
  frameId := ProtocolFrameId.derive (framePreimage epoch (recordBytes frame.fields))
  bytes := frameBytes epoch (recordBytes frame.fields)

variable {response frame : ProtocolFrame} {version : UInt32} {single : EncodedFrame}
  {epoch : SchemaEpochId} {frames : List EncodedFrame} {pieces : List Bytes} {ceiling : UInt64}

/-- A frame with room for its header is encoded. -/
theorem encodeFrame_of_short (hepoch : protocolEpochId = .ok epoch) (hkind : frame.kind ≠ .hello)
    (hvalid : frame.validateForVersion version = .ok ()) (hbody : frame.body.length ≤ maxBytePayload)
    {bound : Nat} (hbound : frame.body.length + 338 ≤ bound) (hmax : bound ≤ maxFrameBytes.toNat) :
    encodeFrameForVersion frame version = .ok (encodedFrame epoch frame) ∧
      (encodedFrame epoch frame).bytes.length ≤ bound := by
  have hlen : (frameBytes epoch (recordBytes frame.fields)).length ≤ frame.body.length + 338 :=
    length_frameBytes_le epoch hbody
  have hbytes := length_frameBytes epoch (recordBytes frame.fields)
  refine ⟨encodeFrame_eq_ok.2 ⟨hkind, hvalid, hbody, epoch, hepoch, by omega, rfl⟩, ?_⟩
  show (frameBytes epoch (recordBytes frame.fields)).length ≤ bound
  omega

/-- **Every event has room for its chunk**, and the end of a stream for its header. -/
theorem encode_streamFrames (hkind : response.kind = .response)
    (hsingle : encodeFrameForVersion response version = .ok single)
    (hepoch : protocolEpochId = .ok epoch) {bound : Nat} (hmax : bound ≤ maxFrameBytes.toNat)
    (hbound : 576 ≤ bound) (hlong : bound < single.bytes.length)
    (hle : ∀ piece ∈ pieces, piece.length ≤ bound - 512) :
    ∀ frame ∈ streamFrames response pieces,
      encodeFrameForVersion frame version = .ok (encodedFrame epoch frame) ∧
        (encodedFrame epoch frame).bytes.length ≤ bound := by
  obtain ⟨-, hvalid, hbody, epoch', -, -, rfl⟩ := encodeFrame_eq_ok.1 hsingle
  have hlong : bound < response.body.length + 338 := hlong.trans_le (length_frameBytes_le epoch' hbody)
  have hpayload : maxBytePayload = 16777216 := rfl
  refine forall_mem_append.2 ⟨fun event hevent ↦ ?_, forall_mem_singleton.2 ?_⟩
  · obtain ⟨chunk, hchunk, rfl⟩ := mem_map.1 hevent
    have hpiece := hle chunk.1 (List.fst_mem_of_mem_zipIdx hchunk)
    have hrecord : (eventFrame response (ofNat pieces.length) chunk).body.length ≤
        chunk.1.length + 40 :=
      StreamChunk.length_encode_le (StreamChunk.encode_eq_ok.2 ⟨by show chunk.1.length ≤ _; omega, rfl⟩)
    exact encodeFrame_of_short hepoch (show FrameKind.event ≠ .hello by decide)
      (validate_eventFrame hvalid) (by omega) (by omega) hmax
  · have hempty : (lastFrame response).body.length = 0 := rfl
    refine encodeFrame_of_short hepoch (fun hhello ↦ ?_) (validate_lastFrame hkind hvalid) (by omega)
      (by omega) hmax
    exact absurd (hkind.symm.trans hhello) (by decide)

/-- The chunks of a body that is too long for one frame. -/
def bodyChunks (response : ProtocolFrame) (ceiling : UInt64) : List Bytes :=
  chunks (ceiling - streamFrameOverhead).toNat response.body

section

omit [Blake3] [ProtocolEpoch]

theorem length_bodyChunks_le : (bodyChunks response ceiling).length ≤ response.body.length :=
  length_chunks_le _ _

theorem length_le_of_mem_bodyChunks :
    ∀ piece ∈ bodyChunks response ceiling, piece.length ≤ response.body.length := by
  intro piece hpiece
  have hsublist := List.sublist_flatten_of_mem hpiece
  rw [bodyChunks, flatten_chunks] at hsublist
  exact hsublist.length_le

theorem toNat_sub_overhead
    (h : streamFrameOverhead.toNat + minStreamChunkBytes.toNat ≤ ceiling.toNat) :
    (ceiling - streamFrameOverhead).toNat = ceiling.toNat - 512 :=
  UInt64.toNat_sub_of_le _ _ (UInt64.le_iff_toNat_le.2 ((Nat.le_add_right _ _).trans h))

theorem bodyChunks_room
    (h : streamFrameOverhead.toNat + minStreamChunkBytes.toNat ≤ ceiling.toNat) :
    ∀ piece ∈ bodyChunks response ceiling, piece.length ≤ ceiling.toNat - 512 := by
  have hbound : 576 ≤ ceiling.toNat := h
  rw [bodyChunks, toNat_sub_overhead h]
  exact length_le_of_mem_chunks (by omega)

end

variable {maxFrameBytes : UInt64}

/-- **A long response is streamed** whenever the ceiling leaves room for a chunk. -/
theorem streamResponse_of_long (hkind : response.kind = .response)
    (hsingle : encodeFrameForVersion response version = .ok single)
    (hceiling : ceiling = min maxFrameBytes Protocol.maxFrameBytes)
    (hbound : streamFrameOverhead.toNat + minStreamChunkBytes.toNat ≤ ceiling.toNat)
    (hlong : ceiling.toNat < single.bytes.length)
    (hencode : ∀ frame ∈ streamFrames response (bodyChunks response ceiling),
      encodeFrameForVersion frame version = .ok (encodedFrame epoch frame) ∧
        (encodedFrame epoch frame).bytes.length ≤ ceiling.toNat) :
    streamResponseForVersion response maxFrameBytes true version =
      .ok ((streamFrames response (bodyChunks response ceiling)).map (encodedFrame epoch)) := by
  have hbody := (encodeFrame_eq_ok.1 hsingle).2.2.1
  have hpayload : maxBytePayload = 16777216 := rfl
  have hcount : (bodyChunks response ceiling).length < 2 ^ 64 :=
    (length_bodyChunks_le.trans hbody).trans_lt (by decide)
  have hroom : ¬ (ceiling < streamFrameOverhead ∨
      ceiling - streamFrameOverhead < minStreamChunkBytes) := by
    have hbound' : 576 ≤ ceiling.toNat := hbound
    have hoverhead : streamFrameOverhead.toNat = 512 := rfl
    have hmin : minStreamChunkBytes.toNat = 64 := rfl
    rw [UInt64.lt_iff_toNat_lt, UInt64.lt_iff_toNat_lt, toNat_sub_overhead hbound]
    omega
  obtain ⟨hevents, hlast⟩ := forall_mem_append.1 hencode
  have hmapM : (bodyChunks response ceiling).zipIdx.mapM (streamEvent response version ceiling
      (ofNat (bodyChunks response ceiling).length)) =
        .ok ((eventFrames response (bodyChunks response ceiling)).map (encodedFrame epoch)) := by
    rw [mapM_eq_ok, eventFrames, List.map_map, List.forall₂_map_right_iff, List.forall₂_same]
    intro chunk hchunk
    obtain ⟨hencoded, hle⟩ := hevents _ (List.mem_map_of_mem hchunk)
    have hindex : chunk.2 < 2 ^ 64 := (List.snd_lt_of_mem_zipIdx hchunk).trans_le (by omega)
    have hpiece := length_le_of_mem_bodyChunks chunk.1 (List.fst_mem_of_mem_zipIdx hchunk)
    refine bind_eq_ok.2 ⟨ofNat chunk.2,
      tryU64_eq_ok.2 (toNat_ofNat_of_lt' hindex), bind_eq_ok.2 ⟨_,
        StreamChunk.encode_eq_ok.2 ⟨hpiece.trans hbody, rfl⟩, bind_eq_ok.2 ⟨_, hencoded, ?_⟩⟩⟩
    exact bind_eq_ok.2 ⟨(), rejectIf_eq_ok.2 (Nat.not_lt.2 hle), rfl⟩
  subst hceiling
  refine bind_eq_ok.2 ⟨(), rejectIf_eq_ok.2 (not_not.2 hkind),
    bind_eq_ok.2 ⟨single, hsingle, ?_⟩⟩
  rw [if_neg (Nat.not_le.2 hlong)]
  refine bind_eq_ok.2 ⟨(), rejectIf_eq_ok.2 (by decide), bind_eq_ok.2 ⟨(),
    rejectIf_eq_ok.2 hroom, bind_eq_ok.2 ⟨_,
      tryU64_eq_ok.2 (toNat_ofNat_of_lt' hcount), bind_eq_ok.2 ⟨_, hmapM,
        bind_eq_ok.2 ⟨_, (hlast _ (List.mem_singleton_self _)).1, ?_⟩⟩⟩⟩⟩
  rw [streamFrames, List.map_append]
  rfl

/-- A response that is too long for a ceiling with room for a chunk has a body. -/
theorem bodyChunks_ne_nil (hsingle : encodeFrameForVersion response version = .ok single)
    (hbound : streamFrameOverhead.toNat + minStreamChunkBytes.toNat ≤ ceiling.toNat)
    (hlong : ceiling.toNat < single.bytes.length) : bodyChunks response ceiling ≠ [] := by
  obtain ⟨-, -, hbody, epoch, -, -, rfl⟩ := encodeFrame_eq_ok.1 hsingle
  have hlong : ceiling.toNat < response.body.length + 338 :=
    hlong.trans_le (length_frameBytes_le epoch hbody)
  have hbound : 576 ≤ ceiling.toNat := hbound
  rw [bodyChunks, ne_eq, chunks_eq_nil_iff]
  intro hnil
  rw [hnil, List.length_nil] at hlong
  omega

theorem streamed_of_long (hkind : response.kind = .response)
    (hsingle : encodeFrameForVersion response version = .ok single)
    (hbound : streamFrameOverhead.toNat + minStreamChunkBytes.toNat ≤
      (min maxFrameBytes Protocol.maxFrameBytes).toNat)
    (hlong : (min maxFrameBytes Protocol.maxFrameBytes).toNat < single.bytes.length) :
    ∃ epoch,
      (∀ frame ∈ streamFrames response
          (bodyChunks response (min maxFrameBytes Protocol.maxFrameBytes)),
        encodeFrameForVersion frame version = .ok (encodedFrame epoch frame) ∧
          (encodedFrame epoch frame).bytes.length ≤
            (min maxFrameBytes Protocol.maxFrameBytes).toNat) ∧
      streamResponseForVersion response maxFrameBytes true version =
        .ok ((streamFrames response (bodyChunks response
          (min maxFrameBytes Protocol.maxFrameBytes))).map (encodedFrame epoch)) := by
  obtain ⟨-, -, -, epoch, hepoch, -, -⟩ := encodeFrame_eq_ok.1 hsingle
  have hmax : (min maxFrameBytes Protocol.maxFrameBytes).toNat ≤ Protocol.maxFrameBytes.toNat := by
    rw [toNat_min]
    exact Nat.min_le_right _ _
  have hroom : ∀ piece ∈ bodyChunks response (min maxFrameBytes Protocol.maxFrameBytes),
      piece.length ≤ (min maxFrameBytes Protocol.maxFrameBytes).toNat - 512 := bodyChunks_room hbound
  have hencode := encode_streamFrames hkind hsingle hepoch hmax hbound hlong hroom
  exact ⟨epoch, hencode, streamResponse_of_long hkind hsingle rfl hbound hlong hencode⟩

theorem streamResponse_of_short {streamNegotiated : Bool} (hkind : response.kind = .response)
    (hsingle : encodeFrameForVersion response version = .ok single)
    (hshort : single.bytes.length ≤ (min maxFrameBytes Protocol.maxFrameBytes).toNat) :
    streamResponseForVersion response maxFrameBytes streamNegotiated version = .ok [single] := by
  refine bind_eq_ok.2 ⟨(), rejectIf_eq_ok.2 (not_not.2 hkind),
    bind_eq_ok.2 ⟨single, hsingle, ?_⟩⟩
  rw [if_pos hshort]
  rfl

/-- What a response needs in order to be streamed. -/
theorem of_streamResponse_eq_ok {streamNegotiated : Bool}
    (h : streamResponseForVersion response maxFrameBytes streamNegotiated version = .ok frames) :
    response.kind = .response ∧ ∃ single, encodeFrameForVersion response version = .ok single ∧
      (single.bytes.length ≤ (min maxFrameBytes Protocol.maxFrameBytes).toNat ∨
        streamNegotiated = true ∧ streamFrameOverhead.toNat + minStreamChunkBytes.toNat ≤
          (min maxFrameBytes Protocol.maxFrameBytes).toNat) := by
  obtain ⟨_, hkind, h⟩ := bind_eq_ok.1 h
  obtain ⟨single, hsingle, h⟩ := bind_eq_ok.1 h
  refine ⟨not_not.1 (rejectIf_eq_ok.1 hkind), single, hsingle, ?_⟩
  split at h
  · exact .inl ‹_›
  · obtain ⟨_, hnegotiated, h⟩ := bind_eq_ok.1 h
    obtain ⟨_, hroom, -⟩ := bind_eq_ok.1 h
    have hroom := rejectIf_eq_ok.1 hroom
    rw [not_or, not_lt, not_lt] at hroom
    obtain ⟨hoverhead, hmin⟩ := hroom
    refine .inr ⟨by simpa using rejectIf_eq_ok.1 hnegotiated, ?_⟩
    have hsub := UInt64.toNat_sub_of_le _ _ hoverhead
    rw [UInt64.le_iff_toNat_le] at hoverhead hmin
    omega

/-- The frames are decoded, each to itself. -/
def DecodesTo (frames : List EncodedFrame) (maxFrameBytes : UInt64) (version : UInt32)
    (decoded : List ProtocolFrame) : Prop :=
  List.Forall₂ (fun encoded frame ↦ decodeFrameForVersion encoded.bytes maxFrameBytes version =
    .ok (.response frame, encoded.frameId)) frames decoded

section

omit [Blake3] [ProtocolEpoch]

theorem not_foreign_of_mem_streamFrames :
    ∀ frame ∈ streamFrames response pieces, ¬ response.Foreign frame := by
  refine forall_mem_append.2 ⟨fun event hevent ↦ ?_,
    forall_mem_singleton.2 (not_not.2 rfl)⟩
  obtain ⟨chunk, -, rfl⟩ := mem_map.1 hevent
  exact not_not.2 rfl

theorem kind_ne_request_of_mem_streamFrames (hkind : response.kind = .response) :
    ∀ frame ∈ streamFrames response pieces, frame.kind ≠ .request := by
  refine forall_mem_append.2 ⟨fun event hevent hrequest ↦ ?_,
    forall_mem_singleton.2 fun hrequest ↦ ?_⟩
  · exact absurd ((kind_of_mem_eventFrames hevent).symm.trans hrequest) (by decide)
  · exact absurd (hkind.symm.trans hrequest) (by decide)

end

theorem decode_of_length_le {encoded : EncodedFrame}
    (h : encodeFrameForVersion frame version = .ok encoded) (hkind : frame.kind ≠ .request)
    (hle : encoded.bytes.length ≤ (min maxFrameBytes Protocol.maxFrameBytes).toNat) :
    decodeFrameForVersion encoded.bytes maxFrameBytes version =
      .ok (.response frame, encoded.frameId) := by
  rw [toNat_min] at hle
  rw [decodeFrame_encodeFrame h (by omega), if_neg hkind]

/-- **Streaming loses nothing.** A response that is streamed goes out in frames that keep to the
ceiling; they are decoded, and either the one frame is the plain one or the decoded frames are
reassembled to the response with the stream flag set. No other sequence of frames of the stream and
frames of other requests is reassembled, if it is empty or keeps a frame of the stream at all: none
that drops, repeats or moves a frame, or holds a foreign one. And if streams are negotiated and the
ceiling leaves room for the overhead and the smallest chunk, every response that has a plain frame is
streamed. -/
theorem streamResponse_lossless (response : ProtocolFrame) (maxFrameBytes : UInt64)
    (streamNegotiated : Bool) (version : UInt32) :
    (∀ frames, streamResponseForVersion response maxFrameBytes streamNegotiated version =
        .ok frames →
      (∀ encoded ∈ frames,
        encoded.bytes.length ≤ min maxFrameBytes.toNat Protocol.maxFrameBytes.toNat) ∧
      ∃ decoded, DecodesTo frames maxFrameBytes version decoded ∧
        ((∃ single, encodeFrameForVersion response version = .ok single ∧ frames = [single]) ∨
          reassembleStream decoded =
            .ok { response with flags := response.flags ||| flagStream }) ∧
        ∀ altered : List ProtocolFrame,
          (∀ frame ∈ altered, frame ∈ decoded ∨ response.Foreign frame) →
            (altered = [] ∨ ∃ frame ∈ altered, frame ∈ decoded) → altered ≠ decoded →
              ∀ result, reassembleStream altered ≠ .ok result) ∧
    (streamNegotiated = true → response.kind = .response →
      (∃ single, encodeFrameForVersion response version = .ok single) →
        streamFrameOverhead.toNat + minStreamChunkBytes.toNat ≤
          min maxFrameBytes.toNat Protocol.maxFrameBytes.toNat →
            ∃ frames, streamResponseForVersion response maxFrameBytes streamNegotiated version =
              .ok frames) := by
  rw [← UInt64.toNat_min]
  constructor
  · intro frames h
    obtain ⟨hkind, single, hsingle, hfits⟩ := of_streamResponse_eq_ok h
    by_cases hshort : single.bytes.length ≤ (min maxFrameBytes Protocol.maxFrameBytes).toNat
    · obtain rfl := Except.ok.inj (h.symm.trans (streamResponse_of_short hkind hsingle hshort))
      have hdecode := decode_of_length_le hsingle (by rw [hkind]; decide) hshort
      refine ⟨List.forall_mem_singleton.2 hshort, [response], .cons hdecode .nil,
        .inl ⟨single, hsingle, rfl⟩, fun altered hmem hkeeps hne result ↦ ?_⟩
      exact refuses_altered (List.forall_mem_singleton.2 (not_not.2 rfl))
        (eq_of_reassembleStream_plain hkind) hmem hkeeps hne
    · obtain ⟨rfl, hbound⟩ := hfits.resolve_left hshort
      obtain ⟨epoch, hencode, hstream⟩ := streamed_of_long hkind hsingle hbound (Nat.not_le.1 hshort)
      obtain rfl := Except.ok.inj (h.symm.trans hstream)
      have hne := bodyChunks_ne_nil hsingle hbound (Nat.not_le.1 hshort)
      have hbody := (encodeFrame_eq_ok.1 hsingle).2.2.1
      have hcount : (bodyChunks response (min maxFrameBytes Protocol.maxFrameBytes)).length < 2 ^ 64 :=
        (length_bodyChunks_le.trans hbody).trans_lt (by decide)
      have hle : ∀ piece ∈ bodyChunks response (min maxFrameBytes Protocol.maxFrameBytes),
          piece.length ≤ maxBytePayload := fun piece hpiece ↦
        (length_le_of_mem_bodyChunks piece hpiece).trans hbody
      refine ⟨List.forall_mem_map.2 fun frame hframe ↦ (hencode frame hframe).2,
        streamFrames response (bodyChunks response (min maxFrameBytes Protocol.maxFrameBytes)), ?_,
        .inr ?_, fun altered hmem hkeeps halter result ↦ ?_⟩
      · rw [DecodesTo, List.forall₂_map_left_iff, List.forall₂_same]
        intro frame hframe
        exact decode_of_length_le (hencode frame hframe).1
          (kind_ne_request_of_mem_streamFrames hkind frame hframe) (hencode frame hframe).2
      · rw [reassembleStream_streamFrames hkind hne hcount hle, bodyChunks, flatten_chunks]
        rfl
      · exact refuses_altered not_foreign_of_mem_streamFrames
          (eq_of_reassembleStream hkind hcount hle) hmem hkeeps halter
  · rintro rfl hkind ⟨single, hsingle⟩ hbound
    by_cases hshort : single.bytes.length ≤ (min maxFrameBytes Protocol.maxFrameBytes).toNat
    · exact ⟨_, streamResponse_of_short hkind hsingle hshort⟩
    · obtain ⟨epoch, -, hstream⟩ := streamed_of_long hkind hsingle hbound (Nat.not_le.1 hshort)
      exact ⟨_, hstream⟩

end Sley.Protocol
