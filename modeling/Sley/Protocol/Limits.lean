import Sley.Protocol.Reader

/-!
# Limits and bounded contexts

The negotiable limits and the bounded context of a response (`sley-protocol/src/lib.rs`,
`LimitProfile` and `BoundedContext`), with their records. A record of small integers has an encoding
always, and **it is decoded from exactly that encoding** (`LimitProfile.decode_eq_ok`,
`BoundedContext.decode_eq_ok`).
-/

namespace Sley.Protocol

open Scb1 Ssmc Txn
open Except (bind_eq_ok pure_eq_ok)

/-! ### Ceilings -/

/-- Absolute frame ceiling; negotiated `max_frame_bytes` never exceeds it. -/
def maxFrameBytes : UInt64 := 67108864

def maxLimitEntities : UInt64 := 65535

def maxLimitEdges : UInt64 := 400000

def maxLimitDepth : UInt32 := 65535

def maxLimitResponseBytes : UInt64 := 67108864

def maxLimitWork : UInt64 := 100000000

def maxLimitInflight : UInt32 := 1024

/-- Ceiling of negotiable live sessions. -/
def maxLimitSessions : UInt32 := 256

/-- Negotiable limits. -/
structure LimitProfile where
  maxFrameBytes : UInt64
  maxEntities : UInt64
  maxEdges : UInt64
  maxDepth : UInt32
  maxResponseBytes : UInt64
  maxWork : UInt64
  maxInflight : UInt32
  maxSessions : UInt32
  deriving DecidableEq

namespace LimitProfile

/-- The profile ceilings. -/
def maximum : LimitProfile where
  maxFrameBytes := Protocol.maxFrameBytes
  maxEntities := maxLimitEntities
  maxEdges := maxLimitEdges
  maxDepth := maxLimitDepth
  maxResponseBytes := maxLimitResponseBytes
  maxWork := maxLimitWork
  maxInflight := maxLimitInflight
  maxSessions := maxLimitSessions

/-- All-zero profile carried by request frames. -/
def zero : LimitProfile := ⟨0, 0, 0, 0, 0, 0, 0, 0⟩

/-- Every limit but the depth is nonzero, and each is at most its ceiling. -/
def validate (self : LimitProfile) : Result Unit :=
  Except.rejectIf
    (self.maxFrameBytes = 0 ∨ self.maxFrameBytes > maximum.maxFrameBytes ∨
      self.maxEntities = 0 ∨ self.maxEntities > maximum.maxEntities ∨
      self.maxEdges = 0 ∨ self.maxEdges > maximum.maxEdges ∨
      self.maxDepth > maximum.maxDepth ∨
      self.maxResponseBytes = 0 ∨ self.maxResponseBytes > maximum.maxResponseBytes ∨
      self.maxWork = 0 ∨ self.maxWork > maximum.maxWork ∨
      self.maxInflight = 0 ∨ self.maxInflight > maximum.maxInflight ∨
      self.maxSessions = 0 ∨ self.maxSessions > maximum.maxSessions)
    .limitExceeded

/-- The field-wise minimum of two profiles. -/
def minimum (self other : LimitProfile) : LimitProfile where
  maxFrameBytes := min self.maxFrameBytes other.maxFrameBytes
  maxEntities := min self.maxEntities other.maxEntities
  maxEdges := min self.maxEdges other.maxEdges
  maxDepth := min self.maxDepth other.maxDepth
  maxResponseBytes := min self.maxResponseBytes other.maxResponseBytes
  maxWork := min self.maxWork other.maxWork
  maxInflight := min self.maxInflight other.maxInflight
  maxSessions := min self.maxSessions other.maxSessions

def encode (self : LimitProfile) : Result Bytes :=
  scb (encodeRecord
    [(1, encodeUvar self.maxFrameBytes),
      (2, encodeUvar self.maxEntities),
      (3, encodeUvar self.maxEdges),
      (4, encodeUvar self.maxDepth.toUInt64),
      (5, encodeUvar self.maxResponseBytes),
      (6, encodeUvar self.maxWork),
      (7, encodeUvar self.maxInflight.toUInt64),
      (8, encodeUvar self.maxSessions.toUInt64)])

def decode (input : Bytes) : Result LimitProfile := do
  match ← Reader.record 8 input with
  | [f₁, f₂, f₃, f₄, f₅, f₆, f₇, f₈] =>
    let maxFrameBytes ← singleUvar f₁
    let maxEntities ← singleUvar f₂
    let maxEdges ← singleUvar f₃
    let maxDepth ← singleU32 f₄
    let maxResponseBytes ← singleUvar f₅
    let maxWork ← singleUvar f₆
    let maxInflight ← singleU32 f₇
    let maxSessions ← singleU32 f₈
    return { maxFrameBytes, maxEntities, maxEdges, maxDepth, maxResponseBytes, maxWork,
             maxInflight, maxSessions }
  | _ => .error .internalInvariant

end LimitProfile

/-- Bounded context carried by every response frame. -/
structure BoundedContext where
  appliedLimits : LimitProfile
  returnedBytes : UInt64
  returnedEntities : UInt64
  returnedEdges : UInt64
  reachedDepth : UInt32
  omitted : UInt64
  truncated : Bool
  continuation : Bool
  deriving DecidableEq

def flag (value : Bool) : UInt64 := if value then 2 else 1

def decodeFlag (value : UInt64) : Result Bool :=
  if value = 1 then .ok false
  else if value = 2 then .ok true
  else .error .frameInvalid

namespace BoundedContext

/-- The all-zero context of a request frame. -/
def none : BoundedContext := ⟨LimitProfile.zero, 0, 0, 0, 0, 0, false, false⟩

def encode (self : BoundedContext) : Result Bytes := do
  let appliedLimits ← self.appliedLimits.encode
  scb (encodeRecord
    [(1, appliedLimits),
      (2, encodeUvar self.returnedBytes),
      (3, encodeUvar self.returnedEntities),
      (4, encodeUvar self.returnedEdges),
      (5, encodeUvar self.reachedDepth.toUInt64),
      (6, encodeUvar self.omitted),
      (7, encodeUvar (flag self.truncated)),
      (8, encodeUvar (flag self.continuation))])

def decode (input : Bytes) : Result BoundedContext := do
  match ← Reader.record 8 input with
  | [f₁, f₂, f₃, f₄, f₅, f₆, f₇, f₈] =>
    let appliedLimits ← LimitProfile.decode f₁
    let returnedBytes ← singleUvar f₂
    let returnedEntities ← singleUvar f₃
    let returnedEdges ← singleUvar f₄
    let reachedDepth ← singleU32 f₅
    let omitted ← singleUvar f₆
    let truncated ← decodeFlag (← singleUvar f₇)
    let continuation ← decodeFlag (← singleUvar f₈)
    return { appliedLimits, returnedBytes, returnedEntities, returnedEdges, reachedDepth, omitted,
             truncated, continuation }
  | _ => .error .internalInvariant

end BoundedContext

/-! ### Records of small integers -/

theorem length_encodeUvar (v : UInt64) : (encodeUvar v).length ≤ 10 := by
  rw [encodeUvar_eq]
  exact Leb128.length_encode_le (by decide) (v.toNat_lt.trans (by decide))

theorem decodeFlag_eq_ok {v : UInt64} {value : Bool} :
    decodeFlag v = .ok value ↔ v = flag value := by
  rw [decodeFlag, flag]
  split
  · rename_i h
    cases value <;> simp [h]
  · split
    · rename_i h
      cases value <;> simp [h]
    · rename_i h h'
      cases value <;> simp [h, h']

namespace LimitProfile

variable {self other : LimitProfile} {input bs : Bytes}

/-- The payloads of the record. -/
def fields (self : LimitProfile) : List Bytes :=
  [encodeUvar self.maxFrameBytes, encodeUvar self.maxEntities, encodeUvar self.maxEdges,
    encodeUvar self.maxDepth.toUInt64, encodeUvar self.maxResponseBytes, encodeUvar self.maxWork,
    encodeUvar self.maxInflight.toUInt64, encodeUvar self.maxSessions.toUInt64]

theorem length_fields_le : ∀ field ∈ self.fields, field.length ≤ 10 := by
  simp only [fields, List.forall_mem_cons, length_encodeUvar, true_and]
  exact fun _ h ↦ (List.not_mem_nil h).elim

theorem encode_eq : self.encode = .ok (recordBytes self.fields) := by
  refine scb_eq_ok.2 (encodeRecord_numbered (show self.fields.length ≤ maxRecordFields from ?_) ?_)
  · exact (show 8 ≤ maxRecordFields by decide)
  · exact fun field hfield ↦ (length_fields_le field hfield).trans (by decide)

theorem length_encode_le (h : self.encode = .ok bs) : bs.length ≤ 250 := by
  rw [encode_eq, Except.ok.injEq] at h
  have hcount : self.fields.length ≤ maxRecordFields := show 8 ≤ maxRecordFields by decide
  have hlen := length_recordBytes_le (by decide) hcount length_fields_le
  rw [h, show self.fields.length = 8 from rfl] at hlen
  exact hlen

/-- **A profile is read back from its encoding and from nothing else.** -/
theorem decode_eq_ok : decode input = .ok self ↔ self.encode = .ok input := by
  rw [encode_eq, Except.ok.injEq, decode, bind_eq_ok]
  simp only [Reader.record_eq_ok (show 8 < 2 ^ 31 by decide)]
  constructor
  · rintro ⟨fields, ⟨-, -, rfl⟩, h⟩
    split at h
    · simp only [bind_eq_ok, singleUvar_eq_ok, singleU32_eq_ok, pure_eq_ok] at h
      obtain ⟨_, rfl, _, rfl, _, rfl, _, rfl, _, rfl, _, rfl, _, rfl, _, rfl, rfl⟩ := h
      rfl
    · cases h
  · rintro rfl
    refine ⟨self.fields, ⟨rfl, fun field hfield ↦ ?_, rfl⟩, ?_⟩
    · exact (length_fields_le field hfield).trans_lt (by decide)
    · simp only [fields, bind_eq_ok, singleUvar_eq_ok, singleU32_eq_ok, pure_eq_ok]
      exact ⟨_, rfl, _, rfl, _, rfl, _, rfl, _, rfl, _, rfl, _, rfl, _, rfl, rfl⟩

end LimitProfile

namespace BoundedContext

variable {self other : BoundedContext} {input bs : Bytes}

/-- The payloads of the record. -/
def fields (self : BoundedContext) : List Bytes :=
  [recordBytes self.appliedLimits.fields, encodeUvar self.returnedBytes,
    encodeUvar self.returnedEntities, encodeUvar self.returnedEdges,
    encodeUvar self.reachedDepth.toUInt64, encodeUvar self.omitted,
    encodeUvar (flag self.truncated), encodeUvar (flag self.continuation)]

theorem length_fields_le : ∀ field ∈ self.fields, field.length ≤ 250 := by
  have huvar : ∀ v : UInt64, (encodeUvar v).length ≤ 250 := fun v ↦
    (length_encodeUvar v).trans (by decide)
  simp only [fields, List.forall_mem_cons, huvar, true_and]
  exact ⟨LimitProfile.length_encode_le LimitProfile.encode_eq, fun _ h ↦ (List.not_mem_nil h).elim⟩

theorem encode_eq : self.encode = .ok (recordBytes self.fields) := by
  refine Except.bind_eq_ok.2 ⟨_, LimitProfile.encode_eq, scb_eq_ok.2 ?_⟩
  refine encodeRecord_numbered (show self.fields.length ≤ maxRecordFields from ?_) ?_
  · exact (show 8 ≤ maxRecordFields by decide)
  · exact fun field hfield ↦ (length_fields_le field hfield).trans (by decide)

theorem length_encode_le (h : self.encode = .ok bs) : bs.length ≤ 2170 := by
  rw [encode_eq, Except.ok.injEq] at h
  have hcount : self.fields.length ≤ maxRecordFields := show 8 ≤ maxRecordFields by decide
  have hlen := length_recordBytes_le (by decide) hcount length_fields_le
  rw [h, show self.fields.length = 8 from rfl] at hlen
  exact hlen

/-- **A context is read back from its encoding and from nothing else.** -/
theorem decode_eq_ok : decode input = .ok self ↔ self.encode = .ok input := by
  rw [encode_eq, Except.ok.injEq, decode, bind_eq_ok]
  simp only [Reader.record_eq_ok (show 8 < 2 ^ 31 by decide)]
  constructor
  · rintro ⟨fields, ⟨-, -, rfl⟩, h⟩
    split at h
    · simp only [bind_eq_ok, LimitProfile.decode_eq_ok, LimitProfile.encode_eq, Except.ok.injEq,
        singleUvar_eq_ok, singleU32_eq_ok, decodeFlag_eq_ok, pure_eq_ok] at h
      obtain ⟨_, rfl, _, rfl, _, rfl, _, rfl, _, rfl, _, rfl, _, rfl, _, rfl, _, rfl, _, rfl,
        rfl⟩ := h
      rfl
    · cases h
  · rintro rfl
    refine ⟨self.fields, ⟨rfl, fun field hfield ↦ ?_, rfl⟩, ?_⟩
    · exact (length_fields_le field hfield).trans_lt (by decide)
    · simp only [fields, bind_eq_ok, LimitProfile.decode_eq_ok, LimitProfile.encode_eq,
        Except.ok.injEq, singleUvar_eq_ok, singleU32_eq_ok, decodeFlag_eq_ok, pure_eq_ok]
      exact ⟨_, rfl, _, rfl, _, rfl, _, rfl, _, rfl, _, rfl, _, rfl, _, rfl, _, rfl, _, rfl, rfl⟩

end BoundedContext

end Sley.Protocol
