import Sley.Lib.Cursor

/-!
# The strict SCB1 reader

The stable failure codes of SCB1, its epoch limits, and the byte reader every decoder of the
project runs on (`sley-scb1/src/lib.rs`, `Reader` and `ScbValueCursor`). The Rust `Reader` is an
input slice with a position; here it is the library's `Cursor` over bytes, whose bound is a field.

**A failed read is never resumed.** The source advances the position before some failures, but every
caller drops the cursor on the first error, so a read returns either its value with the new reader
or the failure code alone.
-/

namespace Sley.Scb1

/-- Stable SCB1 decode failure code. -/
inductive ScbErrorCode
  | magicInvalid
  | versionUnsupported
  | contractUnknown
  | epochMismatch
  | digestMismatch
  | trailingBytes
  | varintNonMinimal
  | integerOverflow
  | lengthOverflow
  | boolInvalid
  | utf8Invalid
  | labelNotNfc
  | floatNonCanonical
  | fieldMissing
  | fieldUnknown
  | fieldDuplicate
  | fieldOrder
  | unionInvalid
  | mapOrder
  | mapDuplicate
  | extensionUnknown
  | resourceLimit
  deriving DecidableEq, Repr

/-- Bytes as the codecs handle them. -/
abbrev Bytes := List UInt8

/-- Results of the SCB1 layer. -/
abbrev Result (α : Type) := Except ScbErrorCode α

/-! ### Epoch limits -/

/-- Maximum standalone SCB1 value size. -/
def maxStandaloneBytes : Nat := 67108864

/-- Maximum byte or text payload. -/
def maxBytePayload : Nat := 16777216

/-- Maximum nested structural depth. -/
def maxNestingDepth : Nat := 64

/-- Maximum fields in one record. -/
def maxRecordFields : Nat := 65535

/-- Maximum elements in one list, set, or map. -/
def maxCollectionElements : Nat := 1000000

/-- Maximum decoder allocation budget per standalone value. -/
def maxTotalAllocation : Nat := 134217728

/-! ### The reader -/

/-- The reader: an input and a position in it. -/
abbrev Reader := Cursor UInt8

namespace Reader

/-- Read exactly `len` bytes. -/
def takeExact (r : Reader) (len : Nat) : Result (Bytes × Reader) :=
  Except.ofOption .lengthOverflow (r.take? len)

/-- Read one byte. -/
def readU8 (r : Reader) : Result (UInt8 × Reader) := do
  let (slice, r) ← takeExact r 1
  match slice with
  | byte :: _ => .ok (byte, r)
  | [] => .error .lengthOverflow

/-- Reject unread input. -/
def checkFinished (r : Reader) : Result Unit :=
  if r.isFinished then .ok () else .error .trailingBytes

theorem takeExact_eq_ok {r r' : Reader} {len : Nat} {bs : Bytes} :
    takeExact r len = .ok (bs, r') ↔ bs.length = len ∧ r.Consumes bs r' := by
  rw [takeExact, Except.ofOption_eq_ok, Cursor.take?_eq_some_iff]

theorem readU8_eq_ok {r r' : Reader} {b : UInt8} : readU8 r = .ok (b, r') ↔ r.Consumes [b] r' := by
  rw [readU8, Except.bind_eq_ok]
  constructor
  · rintro ⟨⟨bs, r₁⟩, htake, h⟩
    obtain ⟨hlen, hcons⟩ := takeExact_eq_ok.1 htake
    obtain ⟨b₁, rfl⟩ := List.length_eq_one_iff.1 hlen
    obtain ⟨rfl, rfl⟩ := Prod.mk.inj (Except.ok.inj h)
    exact hcons
  · intro h
    exact ⟨([b], r'), takeExact_eq_ok.2 ⟨rfl, h⟩, rfl⟩

theorem checkFinished_eq_ok {r : Reader} {u : Unit} : checkFinished r = .ok u ↔ r.rest = [] := by
  rw [← Cursor.isFinished_iff, checkFinished]
  split <;> simp_all

end Reader

end Sley.Scb1
