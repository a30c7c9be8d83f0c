import Sley.Lib.BigEndian
import Sley.Lib.SortUnique
import Sley.Scb1.Varint

/-!
# SCB1 values: framing, collections and scalars

The value layer of `sley-scb1/src/lib.rs`: booleans, length-delimited bytes and text, floats by
their bits, lists, maps, records and unions on the writing side, and the primitive reads of
`ScbValueCursor` on the other.

**Each primitive read is specified by the bytes it consumes**: it succeeds with a value exactly
when the bytes at the cursor are the ones the writer emits for that value. The framing of a
payload, `sizedBytes`, is a length numeral and the payload; lists, records and unions are counts or
tags followed by framed payloads.
-/

namespace Sley.Scb1

open Except hiding ok error
open BigEndian (bytes bytes_value length_bytes value value_bytes value_lt)
open Nat (mod_eq_of_lt not_lt)
open StateT (run_bind_eq_ok run_ofExcept_eq_ok run_pure_eq_ok)
open Leb128 (encode)
open UInt64 (ofNat toNat_ofNat')

/-- Reads at a cursor. -/
abbrev ScbReader := StateT Reader Result

/-! ### Writers -/

/-- A count, length or tag as a `u64` varint. -/
def encodeCount (n : Nat) : Bytes := encodeUvar (ofNat n)

/-- Encodes a boolean. -/
def encodeBool (value : Bool) : Bytes := [if value then 1 else 0]

/-- A payload behind its length, within the standalone limit. -/
def encodeSized (bytes : Bytes) : Result Bytes := do
  rejectIf (bytes.length > maxStandaloneBytes) .resourceLimit
  return encodeCount bytes.length ++ bytes

/-- Encodes raw bytes with an SCB1 length prefix. -/
def encodeBytes (bytes : Bytes) : Result Bytes := do
  rejectIf (bytes.length > maxBytePayload) .resourceLimit
  encodeSized bytes

/-- The UTF-8 bytes of a text. -/
def textBytes (text : String) : Bytes := text.toByteArray.data.toList

/-- Encodes text, which is valid UTF-8 by its type. -/
def encodeText (text : String) : Result Bytes := encodeBytes (textBytes text)

/-- Negative zero and non-canonical NaNs have no encoding. -/
def validateF32Bits (bits : UInt32) : Result Unit :=
  rejectIf (bits = 0x80000000 ∨
    (bits &&& 0x7f800000 = 0x7f800000 ∧ bits &&& 0x007fffff ≠ 0 ∧ bits ≠ 0x7fc00000))
    .floatNonCanonical

def validateF64Bits (bits : UInt64) : Result Unit :=
  rejectIf (bits = 0x8000000000000000 ∨
    (bits &&& 0x7ff0000000000000 = 0x7ff0000000000000 ∧ bits &&& 0x000fffffffffffff ≠ 0 ∧
      bits ≠ 0x7ff8000000000000)) .floatNonCanonical

/-- Encodes a canonical f32 bit pattern. -/
def encodeF32Bits (bits : UInt32) : Result Bytes := do
  validateF32Bits bits
  return bytes 4 bits.toNat

/-- Encodes a canonical f64 bit pattern. -/
def encodeF64Bits (bits : UInt64) : Result Bytes := do
  validateF64Bits bits
  return bytes 8 bits.toNat

/-- Frame every element in turn. -/
def encodeSizedAll : List Bytes → Result Bytes
  | [] => return []
  | element :: elements => do
    let first ← encodeSized element
    let rest ← encodeSizedAll elements
    return first ++ rest

/-- Encodes a list from already canonical element encodings. -/
def encodeList (elements : List Bytes) : Result Bytes := do
  rejectIf (elements.length > maxCollectionElements) .resourceLimit
  let body ← encodeSizedAll elements
  return encodeCount elements.length ++ body

/-- A tag and a framed value, for every field in turn. -/
def encodeFields : List (UInt32 × Bytes) → Result Bytes
  | [] => return []
  | (tag, value) :: fields => do
    let first ← encodeSized value
    let rest ← encodeFields fields
    return encodeUvar tag.toUInt64 ++ first ++ rest

/-- Encodes a record in canonical tag order. -/
def encodeRecord (fields : List (UInt32 × Bytes)) : Result Bytes := do
  rejectIf (fields.length > maxRecordFields) .resourceLimit
  let ordered := fields.mergeSort fun left right ↦ decide (left.1 ≤ right.1)
  rejectIf (¬ ordered.IsChain fun left right ↦ left.1 ≠ right.1) .fieldDuplicate
  let body ← encodeFields ordered
  return encodeCount fields.length ++ body

/-- A framed key and a framed value, for every entry in turn. -/
def encodeEntries : List (Bytes × Bytes) → Result Bytes
  | [] => return []
  | (key, value) :: entries => do
    let first ← encodeSized key
    let second ← encodeSized value
    let rest ← encodeEntries entries
    return first ++ second ++ rest

/-- Encodes a map in the order of its canonical key encodings. -/
def encodeMap (entries : List (Bytes × Bytes)) : Result Bytes := do
  rejectIf (entries.length > maxCollectionElements) .resourceLimit
  let ordered ← ofOption .mapDuplicate (sortUnique Prod.fst entries)
  let body ← encodeEntries ordered
  return encodeCount entries.length ++ body

/-- Encodes a union payload. -/
def encodeUnion (tag : UInt32) (payload : Bytes) : Result Bytes := do
  let body ← encodeSized payload
  return encodeUvar tag.toUInt64 ++ body

/-! ### Reads -/

namespace Reader

def new (input : Bytes) : Result Reader := do
  rejectIf (input.length > maxStandaloneBytes) .resourceLimit
  return Cursor.new input

/-- A length of at most `max`; `usize` is 64 bits wide. -/
def readLen (max : Nat) : ScbReader Nat := do
  let len ← (readUvarWidth · 64)
  StateT.ofExcept (rejectIf (len.toNat > max) .resourceLimit)
  return len.toNat

/-- Reads a strict SCB1 boolean. -/
def readBool : ScbReader Bool := do
  let byte ← readU8
  match byte.toNat with
  | 0 => return false
  | 1 => return true
  | _ => StateT.ofExcept (.error .boolInvalid)

/-- Reads length-delimited bytes bounded by the epoch byte-payload limit. -/
def readBytes : ScbReader Bytes := do
  let len ← readLen maxBytePayload
  (takeExact · len)

/-- Reads length-delimited UTF-8 text bounded by the epoch byte-payload limit. -/
def readText : ScbReader String := do
  let bytes ← readBytes
  StateT.ofExcept (ofOption .utf8Invalid (String.fromUTF8? bytes.toByteArray))

/-- Reads canonical f32 bits in big-endian order. -/
def readF32Bits : ScbReader UInt32 := do
  let bytes ← (takeExact · 4)
  let bits := UInt32.ofNat (value bytes)
  StateT.ofExcept (validateF32Bits bits)
  return bits

/-- Reads canonical f64 bits in big-endian order. -/
def readF64Bits : ScbReader UInt64 := do
  let bytes ← (takeExact · 8)
  let bits := ofNat (value bytes)
  StateT.ofExcept (validateF64Bits bits)
  return bits

/-- Reads exactly `len` fixed bytes. -/
def readExactBytes (len : Nat) : ScbReader Bytes := (takeExact · len)

/-- Reads a bounded list, set, or map element count. -/
def readListCount : ScbReader Nat := do
  let count ← (readUvarWidth · 64)
  StateT.ofExcept (rejectIf (count.toNat > maxCollectionElements) .resourceLimit)
  return count.toNat

/-- Reads a bounded record field count. -/
def readRecordFieldCount : ScbReader Nat := do
  let count ← (readUvarWidth · 64)
  StateT.ofExcept (rejectIf (count.toNat > maxRecordFields) .resourceLimit)
  return count.toNat

/-- Reads one standalone-sized payload. -/
def readSizedPayload : ScbReader Bytes := do
  let len ← readLen maxStandaloneBytes
  (takeExact · len)

/-- Reads a 32-bit union tag and standalone-sized payload. -/
def readUnion : ScbReader (UInt32 × Bytes) := do
  let tag ← (readUvar · 32)
  let payload ← readSizedPayload
  return (tag.toUInt32, payload)

end Reader

/-! ### What the writers emit -/

/-- A payload behind its length. -/
def sizedBytes (payload : Bytes) : Bytes := encode payload.length ++ payload

/-- A tag before a framed payload: a union, or one field of a record. -/
def taggedBytes (tag : UInt32) (payload : Bytes) : Bytes :=
  encode tag.toNat ++ sizedBytes payload

theorem encodeCount_eq {n : Nat} (h : n < 2 ^ 64) : encodeCount n = encode n := by
  rw [encodeCount, encodeUvar_eq, toNat_ofNat', mod_eq_of_lt h]

theorem encodeUvar_tag (tag : UInt32) : encodeUvar tag.toUInt64 = encode tag.toNat := by
  rw [encodeUvar_eq, UInt32.toNat_toUInt64]

theorem encodeSized_eq_ok {payload bs : Bytes} : encodeSized payload = .ok bs ↔
      payload.length ≤ maxStandaloneBytes ∧ bs = sizedBytes payload := by
  simp only [encodeSized, bind_eq_ok, rejectIf_eq_ok, exists_const, pure_eq_ok, not_lt, gt_iff_lt]
  refine and_congr_right fun h ↦ ?_
  rw [encodeCount_eq (lt_of_le_of_lt h (by decide)), sizedBytes]

theorem encodeBytes_eq_ok {payload bs : Bytes} :
    encodeBytes payload = .ok bs ↔ payload.length ≤ maxBytePayload ∧ bs = sizedBytes payload := by
  simp only [encodeBytes, bind_eq_ok, rejectIf_eq_ok, exists_const,
    encodeSized_eq_ok, not_lt, gt_iff_lt]
  refine and_congr_right fun h ↦ and_iff_right ?_
  exact h.trans (by decide)

theorem encodeUnion_eq_ok {tag : UInt32} {payload bs : Bytes} : encodeUnion tag payload = .ok bs ↔
      payload.length ≤ maxStandaloneBytes ∧ bs = taggedBytes tag payload := by
  simp only [encodeUnion, bind_eq_ok, encodeSized_eq_ok, pure_eq_ok, encodeUvar_tag]
  constructor
  · rintro ⟨_, ⟨hlen, rfl⟩, rfl⟩
    exact ⟨hlen, rfl⟩
  · rintro ⟨hlen, rfl⟩
    exact ⟨_, ⟨hlen, rfl⟩, rfl⟩

variable {bs : Bytes} {fields : List (UInt32 × Bytes)} {entries : List (Bytes × Bytes)}

theorem encodeSizedAll_eq_ok {elements : List Bytes} : encodeSizedAll elements = .ok bs ↔
      (∀ e ∈ elements, e.length ≤ maxStandaloneBytes) ∧ bs = elements.flatMap sizedBytes := by
  induction elements generalizing bs with
  | nil => simp [encodeSizedAll, pure_eq_ok]
  | cons e es ih =>
    simp only [encodeSizedAll, bind_eq_ok, encodeSized_eq_ok, ih, pure_eq_ok,
      List.forall_mem_cons, List.flatMap_cons]
    constructor
    · rintro ⟨_, ⟨he, rfl⟩, _, ⟨hes, rfl⟩, rfl⟩
      exact ⟨⟨he, hes⟩, rfl⟩
    · rintro ⟨⟨he, hes⟩, rfl⟩
      exact ⟨_, ⟨he, rfl⟩, _, ⟨hes, rfl⟩, rfl⟩

theorem encodeList_eq_ok {elements : List Bytes} : encodeList elements = .ok bs ↔
      elements.length ≤ maxCollectionElements ∧ (∀ e ∈ elements, e.length ≤ maxStandaloneBytes) ∧
        bs = encode elements.length ++ elements.flatMap sizedBytes := by
  simp only [encodeList, bind_eq_ok, rejectIf_eq_ok, exists_const,
    encodeSizedAll_eq_ok, pure_eq_ok, not_lt, gt_iff_lt]
  refine and_congr_right fun h ↦ ?_
  rw [encodeCount_eq (lt_of_le_of_lt h (by decide))]
  constructor
  · rintro ⟨_, ⟨hes, rfl⟩, rfl⟩
    exact ⟨hes, rfl⟩
  · rintro ⟨hes, rfl⟩
    exact ⟨_, ⟨hes, rfl⟩, rfl⟩

theorem encodeFields_eq_ok : encodeFields fields = .ok bs ↔
      (∀ f ∈ fields, f.2.length ≤ maxStandaloneBytes) ∧
        bs = fields.flatMap fun f ↦ taggedBytes f.1 f.2 := by
  induction fields generalizing bs with
  | nil => simp [encodeFields, pure_eq_ok]
  | cons f fs ih =>
    simp only [encodeFields, bind_eq_ok, encodeSized_eq_ok, ih, pure_eq_ok,
      List.forall_mem_cons, List.flatMap_cons, encodeUvar_tag, taggedBytes]
    constructor
    · rintro ⟨_, ⟨hf, rfl⟩, _, ⟨hfs, rfl⟩, rfl⟩
      exact ⟨⟨hf, hfs⟩, rfl⟩
    · rintro ⟨⟨hf, hfs⟩, rfl⟩
      exact ⟨_, ⟨hf, rfl⟩, _, ⟨hfs, rfl⟩, rfl⟩

/-- Fields given in strictly ascending tag order are written in that order. -/
theorem encodeRecord_eq_ok (hsorted : (fields.map Prod.fst).Pairwise (· < ·)) :
    encodeRecord fields = .ok bs ↔
      fields.length ≤ maxRecordFields ∧ (∀ f ∈ fields, f.2.length ≤ maxStandaloneBytes) ∧
        bs = encode fields.length ++ fields.flatMap fun f ↦ taggedBytes f.1 f.2 := by
  rw [List.pairwise_map] at hsorted
  have hsort : fields.mergeSort (fun left right ↦ decide (left.1 ≤ right.1)) = fields :=
    List.mergeSort_of_pairwise (hsorted.imp fun h ↦ by simpa using UInt32.le_of_lt h)
  have hchain : fields.IsChain fun left right ↦ left.1 ≠ right.1 :=
    List.Pairwise.isChain (hsorted.imp fun h ↦ UInt32.ne_of_lt h)
  simp only [encodeRecord, bind_eq_ok, rejectIf_eq_ok, exists_const, hsort,
    not_not, hchain, true_and, encodeFields_eq_ok, pure_eq_ok, not_lt, gt_iff_lt]
  refine and_congr_right fun h ↦ ?_
  rw [encodeCount_eq (lt_of_le_of_lt h (by decide))]
  constructor
  · rintro ⟨_, ⟨hfs, rfl⟩, rfl⟩
    exact ⟨hfs, rfl⟩
  · rintro ⟨hfs, rfl⟩
    exact ⟨_, ⟨hfs, rfl⟩, rfl⟩

/-- One entry of a map: a framed key before a framed value. -/
def entryBytes (entry : Bytes × Bytes) : Bytes := sizedBytes entry.1 ++ sizedBytes entry.2

theorem encodeEntries_eq_ok : encodeEntries entries = .ok bs ↔
      (∀ e ∈ entries, e.1.length ≤ maxStandaloneBytes ∧ e.2.length ≤ maxStandaloneBytes) ∧
        bs = entries.flatMap entryBytes := by
  induction entries generalizing bs with
  | nil => simp [encodeEntries, pure_eq_ok]
  | cons e es ih =>
    simp only [encodeEntries, bind_eq_ok, encodeSized_eq_ok, ih, pure_eq_ok,
      List.forall_mem_cons, List.flatMap_cons, entryBytes]
    constructor
    · rintro ⟨_, ⟨hkey, rfl⟩, _, ⟨hvalue, rfl⟩, _, ⟨hes, rfl⟩, rfl⟩
      exact ⟨⟨⟨hkey, hvalue⟩, hes⟩, rfl⟩
    · rintro ⟨⟨⟨hkey, hvalue⟩, hes⟩, rfl⟩
      exact ⟨_, ⟨hkey, rfl⟩, _, ⟨hvalue, rfl⟩, _, ⟨hes, rfl⟩, rfl⟩

/-- Entries given in strictly ascending order of their keys are written in that order. -/
theorem encodeMap_eq_ok (hasc : Ascends Prod.fst entries) : encodeMap entries = .ok bs ↔
      entries.length ≤ maxCollectionElements ∧
        (∀ e ∈ entries, e.1.length ≤ maxStandaloneBytes ∧ e.2.length ≤ maxStandaloneBytes) ∧
        bs = encode entries.length ++ entries.flatMap entryBytes := by
  have hsort : sortUnique Prod.fst entries = some entries :=
    sortUnique_eq_some.2 ⟨List.Perm.refl _, hasc⟩
  simp only [encodeMap, bind_eq_ok, rejectIf_eq_ok, exists_const, hsort, ofOption_eq_ok,
    Option.some.injEq, exists_eq_left', encodeEntries_eq_ok, pure_eq_ok, not_lt, gt_iff_lt]
  refine and_congr_right fun h ↦ ?_
  rw [encodeCount_eq (lt_of_le_of_lt h (by decide))]
  constructor
  · rintro ⟨_, ⟨hes, rfl⟩, rfl⟩
    exact ⟨hes, rfl⟩
  · rintro ⟨hes, rfl⟩
    exact ⟨_, ⟨hes, rfl⟩, rfl⟩

/-! ### What the reads consume -/

namespace Reader

theorem new_eq_ok {input : Bytes} {r : Reader} :
    new input = .ok r ↔ input.length ≤ maxStandaloneBytes ∧ r = Cursor.new input := by
  simp only [new, bind_eq_ok, rejectIf_eq_ok, exists_const, pure_eq_ok, not_lt, gt_iff_lt]

variable {r r' : Reader} {payload : Bytes}

/-- A bounded count, as the four bounded reads compute it. -/
theorem boundedCount_eq_ok {max : Nat} (hmax : max < 2 ^ 64) {n : Nat} : (do
        let len ← (readUvarWidth · 64)
        StateT.ofExcept (rejectIf (len.toNat > max) .resourceLimit)
        return len.toNat : ScbReader Nat).run r = .ok (n, r') ↔
      n ≤ max ∧ r.Consumes (encode n) r' := by
  simp only [run_bind_eq_ok, run_ofExcept_eq_ok, rejectIf_eq_ok, run_pure_eq_ok]
  constructor
  · rintro ⟨len, r₁, hread, _, _, ⟨hle, rfl⟩, rfl, rfl⟩
    obtain ⟨-, hcons⟩ := readUvarWidth_eq_ok.1 hread
    rw [encodeUvar_eq] at hcons
    exact ⟨Nat.not_lt.1 hle, hcons⟩
  · rintro ⟨hle, hcons⟩
    have hn : (ofNat n).toNat = n := by
      rw [toNat_ofNat', mod_eq_of_lt (by omega)]
    refine ⟨ofNat n, r', readUvarWidth_eq_ok.2 ⟨UInt64.toNat_lt _, ?_⟩, (), r',
      ⟨by rw [hn]; exact Nat.not_lt.2 hle, rfl⟩, hn.symm, rfl⟩
    rwa [encodeUvar_eq, hn]

theorem readListCount_eq_ok {n : Nat} : readListCount.run r = .ok (n, r') ↔
      n ≤ maxCollectionElements ∧ r.Consumes (encode n) r' :=
  boundedCount_eq_ok (by decide)

theorem readRecordFieldCount_eq_ok {n : Nat} : readRecordFieldCount.run r = .ok (n, r') ↔
      n ≤ maxRecordFields ∧ r.Consumes (encode n) r' :=
  boundedCount_eq_ok (by decide)

/-- A payload behind a bounded length. -/
theorem sizedRead_eq_ok {max : Nat} (hmax : max < 2 ^ 64) : (do
        let len ← readLen max
        (takeExact · len) : ScbReader Bytes).run r = .ok (payload, r') ↔
      payload.length ≤ max ∧ r.Consumes (sizedBytes payload) r' := by
  rw [run_bind_eq_ok, sizedBytes, Cursor.consumes_append_iff]
  constructor
  · rintro ⟨len, r₁, hlen, htake⟩
    obtain ⟨hle, hcons⟩ := (boundedCount_eq_ok hmax).1 hlen
    obtain ⟨rfl, hcons'⟩ := takeExact_eq_ok.1 htake
    exact ⟨hle, r₁, hcons, hcons'⟩
  · rintro ⟨hle, r₁, hcons, hcons'⟩
    exact ⟨payload.length, r₁, (boundedCount_eq_ok hmax).2 ⟨hle, hcons⟩,
      takeExact_eq_ok.2 ⟨rfl, hcons'⟩⟩

theorem readBytes_eq_ok : readBytes.run r = .ok (payload, r') ↔
      payload.length ≤ maxBytePayload ∧ r.Consumes (sizedBytes payload) r' :=
  sizedRead_eq_ok (by decide)

theorem readSizedPayload_eq_ok : readSizedPayload.run r = .ok (payload, r') ↔
      payload.length ≤ maxStandaloneBytes ∧ r.Consumes (sizedBytes payload) r' :=
  sizedRead_eq_ok (by decide)

theorem readU32_eq_ok {v : UInt64} :
    readUvar r 32 = .ok (v, r') ↔ v.toNat < 2 ^ 32 ∧ r.Consumes (encode v.toNat) r' := by
  rw [readUvar_eq_ok, encodeUvar_eq]
  exact and_iff_right (by decide)

theorem readUnion_eq_ok {tag : UInt32} : readUnion.run r = .ok ((tag, payload), r') ↔
      payload.length ≤ maxStandaloneBytes ∧ r.Consumes (taggedBytes tag payload) r' := by
  simp only [readUnion, run_bind_eq_ok, run_pure_eq_ok, Prod.mk.injEq, taggedBytes,
    Cursor.consumes_append_iff]
  constructor
  · rintro ⟨v, r₁, hv, p, r₂, hp, ⟨rfl, rfl⟩, rfl⟩
    obtain ⟨hlt, hcons⟩ := readU32_eq_ok.1 hv
    obtain ⟨hle, hcons'⟩ := readSizedPayload_eq_ok.1 hp
    refine ⟨hle, r₁, ?_, hcons'⟩
    rwa [UInt64.toNat_toUInt32, mod_eq_of_lt hlt]
  · rintro ⟨hle, r₁, hcons, hcons'⟩
    have htag : tag.toUInt64.toNat = tag.toNat := UInt32.toNat_toUInt64 tag
    refine ⟨tag.toUInt64, r₁, readU32_eq_ok.2 ⟨by rw [htag]; exact tag.toNat_lt, ?_⟩, payload, r',
      readSizedPayload_eq_ok.2 ⟨hle, hcons'⟩, ⟨?_, rfl⟩, rfl⟩
    · rwa [htag]
    · exact (UInt32.toUInt32_toUInt64 tag).symm

theorem readBool_eq_ok {v : Bool} :
    readBool.run r = .ok (v, r') ↔ r.Consumes (encodeBool v) r' := by
  rw [readBool, run_bind_eq_ok]
  constructor
  · rintro ⟨b, r₁, hb, h⟩
    have hcons := readU8_eq_ok.1 hb
    split at h
    · rename_i h0
      obtain ⟨rfl, rfl⟩ := StateT.run_pure_eq_ok.1 h
      rwa [show b = 0 from UInt8.toNat_inj.1 h0] at hcons
    · rename_i h1
      obtain ⟨rfl, rfl⟩ := StateT.run_pure_eq_ok.1 h
      rwa [show b = 1 from UInt8.toNat_inj.1 h1] at hcons
    · cases h
  · intro hcons
    cases v
    · exact ⟨0, r', readU8_eq_ok.2 hcons, rfl⟩
    · exact ⟨1, r', readU8_eq_ok.2 hcons, rfl⟩

/-- Decoding UTF-8 inverts encoding it. -/
theorem fromUTF8?_eq_some {bs : Bytes} {text : String} :
    String.fromUTF8? bs.toByteArray = some text ↔ textBytes text = bs := by
  unfold String.fromUTF8?
  constructor
  · intro h
    split at h
    · obtain rfl := Option.some.inj h
      exact List.toList_data_toByteArray
    · cases h
  · rintro rfl
    have hbytes : (textBytes text).toByteArray = text.toByteArray := by
      apply ByteArray.ext
      rw [List.data_toByteArray, textBytes, Array.toArray_toList]
    rw [hbytes, dif_pos text.isValidUTF8]
    rfl

theorem readText_eq_ok {text : String} : readText.run r = .ok (text, r') ↔
      (textBytes text).length ≤ maxBytePayload ∧ r.Consumes (sizedBytes (textBytes text)) r' := by
  simp only [readText, run_bind_eq_ok, run_ofExcept_eq_ok, ofOption_eq_ok,
    fromUTF8?_eq_some, readBytes_eq_ok]
  constructor
  · rintro ⟨_, _, h, rfl, rfl⟩
    exact h
  · intro h
    exact ⟨_, _, h, rfl, rfl⟩

theorem readF32Bits_eq_ok {bits : UInt32} : readF32Bits.run r = .ok (bits, r') ↔
      ∃ bs, encodeF32Bits bits = .ok bs ∧ r.Consumes bs r' := by
  simp only [readF32Bits, encodeF32Bits, run_bind_eq_ok, run_ofExcept_eq_ok,
    run_pure_eq_ok, bind_eq_ok, pure_eq_ok]
  constructor
  · rintro ⟨bs, r₁, htake, u, _, ⟨hvalid, rfl⟩, rfl, rfl⟩
    obtain ⟨hlen, hcons⟩ := takeExact_eq_ok.1 htake
    have hlt := value_lt bs
    rw [hlen] at hlt
    refine ⟨bs, ⟨u, hvalid, ?_⟩, hcons⟩
    rw [UInt32.toNat_ofNat', mod_eq_of_lt (by omega), ← hlen, bytes_value]
  · rintro ⟨bs, ⟨u, hvalid, rfl⟩, hcons⟩
    have hbits : UInt32.ofNat (value (bytes 4 bits.toNat)) = bits := by
      rw [value_bytes, mod_eq_of_lt (lt_of_lt_of_le bits.toNat_lt (by decide)), UInt32.ofNat_toNat]
    refine ⟨_, r', takeExact_eq_ok.2 ⟨length_bytes .., hcons⟩, u, r', ⟨?_, rfl⟩, ?_, rfl⟩
    · rw [hbits]
      exact hvalid
    · exact hbits.symm

theorem readF64Bits_eq_ok {bits : UInt64} : readF64Bits.run r = .ok (bits, r') ↔
      ∃ bs, encodeF64Bits bits = .ok bs ∧ r.Consumes bs r' := by
  simp only [readF64Bits, encodeF64Bits, run_bind_eq_ok, run_ofExcept_eq_ok,
    run_pure_eq_ok, bind_eq_ok, pure_eq_ok]
  constructor
  · rintro ⟨bs, r₁, htake, u, _, ⟨hvalid, rfl⟩, rfl, rfl⟩
    obtain ⟨hlen, hcons⟩ := takeExact_eq_ok.1 htake
    have hlt := value_lt bs
    rw [hlen] at hlt
    refine ⟨bs, ⟨u, hvalid, ?_⟩, hcons⟩
    rw [toNat_ofNat', mod_eq_of_lt (by omega), ← hlen, bytes_value]
  · rintro ⟨bs, ⟨u, hvalid, rfl⟩, hcons⟩
    have hbits : ofNat (value (bytes 8 bits.toNat)) = bits := by
      rw [value_bytes, mod_eq_of_lt (lt_of_lt_of_le bits.toNat_lt (by decide)), UInt64.ofNat_toNat]
    refine ⟨_, r', takeExact_eq_ok.2 ⟨length_bytes .., hcons⟩, u, r', ⟨?_, rfl⟩, ?_, rfl⟩
    · rw [hbits]
      exact hvalid
    · exact hbits.symm

end Reader

end Sley.Scb1
