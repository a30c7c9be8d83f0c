import Mathlib
import Sley.Mutate.CandidateEnvelope
import Sley.Root.StateRoot
import Sley.Txn.Ledger

/-!
# The wire helpers of the transaction codec

The strict readers of `sley-txn/src/codec.rs` and the writers they invert: a record whose fields are
all required and numbered from one, a list of framed payloads, a 32-byte identity, an optional one,
small integers, and the envelope of a magic, a version and a framed payload.

**Each reader accepts exactly what its writer emits** (`decodeRequiredRecord_eq_ok`,
`decodeListPayloads_eq_ok`, …), so a record is read back field by field without its cursor. The list
reader refuses more than `maxTransactionItems` elements, which the writer does not check.
-/

namespace Sley.Txn

open Scb1 Mutate
open Except hiding ok error
open Cursor.Consumes (refl)
open List (length_append length_cons length_map)
open Reader (expect new readSizedPayload readUnion readUvar readWhole readWhole_eq_ok)
open StateT (run_bind_eq_ok run_pure_eq_ok)

/-- Exact canonical or nested transaction-codec failure. The failures of candidate results and
policy roots keep their namespace and nothing else. -/
inductive TransactionCodecError
  | scb (code : ScbErrorCode)
  | transaction (code : TransactionErrorCode)
  | candidate (error : CandidateError)
  | candidateResult
  | stateRoot (error : Root.StateRootError)
  | policyRoot
  deriving DecidableEq, Repr

/-- Results of the transaction codec. -/
abbrev CodecResult (α : Type) := Except TransactionCodecError α

/-- A strict SCB1 failure inside a transaction. -/
def ofScb {α : Type} (x : Scb1.Result α) : CodecResult α := x.mapError .scb

@[simp]
theorem ofScb_eq_ok {α : Type} {x : Scb1.Result α} {a : α} : ofScb x = .ok a ↔ x = .ok a :=
  mapError_eq_ok

/-- Most elements of a list in a transaction. -/
def maxTransactionItems : Nat := 65535

/-! ### Writers -/

def encodeFixedList {kind : IdKind} (values : List (Id kind)) : Scb1.Result Bytes :=
  encodeList (values.map Id.bytes)

def encodeOptionFixed {kind : IdKind} : Option (Id kind) → Scb1.Result Bytes
  | none => encodeUnion 0 []
  | some value => encodeUnion 1 value.bytes

def encodeOptionBytes : Option Bytes → Scb1.Result Bytes
  | none => encodeUnion 0 []
  | some value => do
    let payload ← encodeBytes value
    encodeUnion 1 payload

/-- The fields of a record, numbered from `tag` on. -/
def numbered (tag : Nat) : List Bytes → List Field
  | [] => []
  | payload :: payloads => (UInt32.ofNat tag, payload) :: numbered (tag + 1) payloads

def envelopeVersion : UInt64 := 1

def encodeEnvelope (magic payload : Bytes) : Scb1.Result Bytes := do
  let preimage := magic ++ encodeUvar envelopeVersion ++ encodeCount payload.length ++ payload
  rejectIf (preimage.length + 32 > maxStandaloneBytes) .resourceLimit
  return preimage

def appendDigest {kind : IdKind} (preimage : Bytes) (digest : Id kind) : Scb1.Result Bytes := do
  rejectIf (preimage.length + digest.bytes.length > maxStandaloneBytes) .resourceLimit
  return preimage ++ digest.bytes

/-! ### Readers -/

/-- The loop of `decode_required_record`: the next tag is the expected one. -/
def readRequiredFields : Nat → Nat → ScbReader (List Bytes)
  | 0, _ => return []
  | n + 1, expectedTag => do
    let tag ← (readUvar · 32)
    StateT.ofExcept (rejectIf (tag.toNat < expectedTag) .fieldDuplicate)
    StateT.ofExcept (rejectIf (tag.toNat > expectedTag) .fieldMissing)
    let payload ← readSizedPayload
    let payloads ← readRequiredFields n (expectedTag + 1)
    return payload :: payloads

def readRequiredRecord (expectedCount : Nat) : ScbReader (List Bytes) := do
  let count ← Reader.readRecordFieldCount
  StateT.ofExcept (rejectIf (count < expectedCount) .fieldMissing)
  StateT.ofExcept (rejectIf (count > expectedCount) .fieldUnknown)
  readRequiredFields expectedCount 1

def decodeRequiredRecord (expectedCount : Nat) (input : Bytes) : CodecResult (List Bytes) :=
  ofScb (readWhole (readRequiredRecord expectedCount) input)

/-- The loop of `decode_list_payloads`. -/
def readPayloads : Nat → ScbReader (List Bytes)
  | 0 => return []
  | n + 1 => do
    let payload ← readSizedPayload
    let payloads ← readPayloads n
    return payload :: payloads

def decodeListPayloads (input : Bytes) : CodecResult (List Bytes) := do
  let cursor ← ofScb (new input)
  let (count, cursor) ← ofScb (Reader.readListCount.run cursor)
  rejectIf (count > maxTransactionItems ∨ count > maxCollectionElements)
    (.transaction .resourceLimit)
  let (values, cursor) ← ofScb ((readPayloads count).run cursor)
  ofScb cursor.checkFinished
  return values

def readFixed (kind : IdKind) (input : Bytes) : CodecResult (Id kind) :=
  ofScb (decodeFixed kind input)

def decodeFixedList (kind : IdKind) (input : Bytes) : CodecResult (List (Id kind)) := do
  let payloads ← decodeListPayloads input
  payloads.mapM (readFixed kind)

def readU32 (input : Bytes) : CodecResult UInt32 := ofScb (readWhole Reader.readTag input)

def readU64 (input : Bytes) : CodecResult UInt64 :=
  ofScb (readWhole (readUvar · 64) input)

def readBytes (input : Bytes) : CodecResult Bytes :=
  ofScb (readWhole Reader.readBytes input)

/-- `decode_option_fixed` and `decode_option_bytes`: an absent value has an empty payload. -/
def decodeOption {α : Type} (decode : Bytes → CodecResult α) (input : Bytes) :
    CodecResult (Option α) := do
  let (tag, payload) ← ofScb (readWhole readUnion input)
  if tag = 0 ∧ payload = [] then
    return none
  else if tag = 1 then do
    let value ← decode payload
    return some value
  else
    .error (.scb .unionInvalid)

def decodeOptionFixed (kind : IdKind) : Bytes → CodecResult (Option (Id kind)) :=
  decodeOption (readFixed kind)

def decodeOptionBytes : Bytes → CodecResult (Option Bytes) := decodeOption readBytes

/-- The parts of an envelope. -/
structure DecodedEnvelope where
  preimage : Bytes
  trailer : Bytes
  payload : Bytes

def readEnvelope (expectedMagic : Bytes) : ScbReader Bytes := do
  let _ ← expect (Reader.readExactBytes expectedMagic.length) expectedMagic .magicInvalid
  let _ ← expect (readUvar · 64) envelopeVersion .versionUnsupported
  readSizedPayload

def decodeEnvelope (input expectedMagic : Bytes) : CodecResult DecodedEnvelope := ofScb do
  rejectIf (input.length > maxStandaloneBytes) .resourceLimit
  rejectIf (input.length < 32) .lengthOverflow
  let preimage := input.take (input.length - 32)
  let trailer := input.drop (input.length - 32)
  let payload ← readWhole (readEnvelope expectedMagic) preimage
  return { preimage, trailer, payload }

/-! ### Records -/

theorem length_numbered (tag : Nat) (payloads : List Bytes) :
    (numbered tag payloads).length = payloads.length := by
  induction payloads generalizing tag with
  | nil => rfl
  | cons p ps ih => rw [numbered, length_cons, length_cons, ih]

variable {payloads : List Bytes} {input : Bytes} {magic payload : Bytes} {r r' : Reader}
  {kind : IdKind}

theorem forall_mem_numbered {tag : Nat} {P : Bytes → Prop} :
    (∀ f ∈ numbered tag payloads, P f.2) ↔ ∀ p ∈ payloads, P p := by
  induction payloads generalizing tag with
  | nil => simp [numbered]
  | cons p ps ih => simp only [numbered, List.forall_mem_cons, ih]

/-- Tags in a row ascend, from any tag on. -/
theorem sorted_numbered {tag : Nat} (h : tag + payloads.length ≤ 2 ^ 32) :
    (∀ f ∈ numbered tag payloads, tag ≤ f.1.toNat) ∧
      ((numbered tag payloads).map Prod.fst).Pairwise (· < ·) := by
  induction payloads generalizing tag with
  | nil => simp [numbered]
  | cons p ps ih =>
    rw [length_cons] at h
    obtain ⟨hge, hsorted⟩ := ih (show tag + 1 + ps.length ≤ 2 ^ 32 by omega)
    have htag : (UInt32.ofNat tag).toNat = tag := UInt32.toNat_ofNat_of_lt' (by
      show tag < 2 ^ 32
      omega)
    rw [numbered]
    refine ⟨List.forall_mem_cons.2 ⟨htag.ge, fun f hf ↦ ?_⟩,
      List.pairwise_cons.2 ⟨fun t ht ↦ ?_, hsorted⟩⟩
    · exact (Nat.le_succ tag).trans (hge f hf)
    · obtain ⟨f, hf, rfl⟩ := List.mem_map.1 ht
      rw [UInt32.lt_iff_toNat_lt, htag]
      exact hge f hf

theorem readRequiredFields_eq_ok {n tag : Nat} (h : tag + n ≤ 2 ^ 32) :
    (readRequiredFields n tag).run r = .ok (payloads, r') ↔
      payloads.length = n ∧ (∀ p ∈ payloads, p.length ≤ maxStandaloneBytes) ∧
        r.Consumes ((numbered tag payloads).flatMap fun f ↦ taggedBytes f.1 f.2) r' := by
  induction n generalizing tag payloads r r' with
  | zero =>
    rw [readRequiredFields, run_pure_eq_ok, List.length_eq_zero_iff]
    constructor
    · rintro ⟨rfl, rfl⟩
      exact ⟨rfl, by simp, refl _⟩
    · rintro ⟨rfl, -, hcons⟩
      exact ⟨rfl, hcons.unique (refl _)⟩
  | succ n ih =>
    have htag : (UInt32.ofNat tag).toNat = tag := UInt32.toNat_ofNat_of_lt' (by
      show tag < 2 ^ 32
      omega)
    simp only [readRequiredFields, run_bind_eq_ok, StateT.run_ofExcept_eq_ok,
      rejectIf_eq_ok, Reader.readSizedPayload_eq_ok, ih (show tag + 1 + n ≤ 2 ^ 32 by omega),
      run_pure_eq_ok, gt_iff_lt, Nat.not_lt]
    constructor
    · rintro ⟨v, r₁, hv, _, _, ⟨hge, rfl⟩, _, _, ⟨hle, rfl⟩, p, r₂, ⟨hp, hpayload⟩, ps, _,
        ⟨hlen, hps, hcons⟩, rfl, rfl⟩
      obtain ⟨-, hread⟩ := Reader.readU32_eq_ok.1 hv
      rw [Nat.le_antisymm hle hge] at hread
      refine ⟨by rw [length_cons, hlen], List.forall_mem_cons.2 ⟨hp, hps⟩, ?_⟩
      rw [numbered, List.flatMap_cons, taggedBytes, htag]
      exact (hread.trans hpayload).trans hcons
    · rintro ⟨hlen, hle, hcons⟩
      obtain ⟨p, ps, rfl⟩ := List.exists_cons_of_length_eq_add_one hlen
      obtain ⟨hp, hps⟩ := List.forall_mem_cons.1 hle
      rw [numbered, List.flatMap_cons, Cursor.consumes_append_iff] at hcons
      obtain ⟨r₂, hfield, hcons⟩ := hcons
      rw [taggedBytes, Cursor.consumes_append_iff, htag] at hfield
      obtain ⟨r₁, hread, hpayload⟩ := hfield
      have hv : (UInt64.ofNat tag).toNat = tag := UInt64.toNat_ofNat_of_lt' (by
        show tag < 2 ^ 64
        omega)
      refine ⟨UInt64.ofNat tag, r₁, Reader.readU32_eq_ok.2 ⟨by rw [hv]; omega, by rwa [hv]⟩, (), r₁,
        ⟨hv.ge, rfl⟩, (), r₁, ⟨hv.le, rfl⟩, p, r₂, ⟨hp, hpayload⟩, ps, r',
        ⟨Nat.succ.inj hlen, hps, hcons⟩, rfl, rfl⟩

/-- **A record of required fields is read back as the payloads it was written from.** -/
theorem decodeRequiredRecord_eq_ok {n : Nat} (hn : n ≤ maxRecordFields) :
    decodeRequiredRecord n input = .ok payloads ↔
      payloads.length = n ∧ input.length ≤ maxStandaloneBytes ∧
        encodeRecord (numbered 1 payloads) = .ok input := by
  have hbound : 1 + n ≤ 2 ^ 32 := by
    have : maxRecordFields = 65535 := rfl
    omega
  rw [decodeRequiredRecord, ofScb_eq_ok, readWhole_eq_ok fun payloads bs ↦
    payloads.length = n ∧ encodeRecord (numbered 1 payloads) = .ok bs]
  · exact and_left_comm
  intro r r' payloads
  simp only [readRequiredRecord, run_bind_eq_ok, StateT.run_ofExcept_eq_ok, rejectIf_eq_ok,
    Reader.readRecordFieldCount_eq_ok, readRequiredFields_eq_ok hbound, gt_iff_lt, Nat.not_lt]
  constructor
  · rintro ⟨count, r₁, ⟨-, hcount⟩, _, _, ⟨hge, rfl⟩, _, _, ⟨hle, rfl⟩, hlen, hps, hcons⟩
    obtain rfl := Nat.le_antisymm hle hge
    refine ⟨_, ⟨hlen, (encodeRecord_eq_ok (sorted_numbered (hlen ▸ hbound)).2).2
      ⟨?_, forall_mem_numbered.2 hps, rfl⟩⟩, ?_⟩
    · rwa [length_numbered, hlen]
    · rw [length_numbered, hlen]
      exact hcount.trans hcons
  · rintro ⟨bs, ⟨hlen, hencode⟩, hcons⟩
    obtain ⟨-, hps, rfl⟩ := (encodeRecord_eq_ok (sorted_numbered (hlen ▸ hbound)).2).1 hencode
    rw [length_numbered, hlen] at hcons
    obtain ⟨r₁, hcount, hcons⟩ := hcons.split
    exact ⟨n, r₁, ⟨hn, hcount⟩, (), r₁, ⟨Nat.le_refl n, rfl⟩, (), r₁, ⟨Nat.le_refl n, rfl⟩,
      hlen, forall_mem_numbered.1 hps, hcons⟩

/-! ### Lists and single values -/

theorem readPayloads_eq_ok {n : Nat} : (readPayloads n).run r = .ok (payloads, r') ↔
      payloads.length = n ∧ (∀ p ∈ payloads, p.length ≤ maxStandaloneBytes) ∧
        r.Consumes (payloads.flatMap sizedBytes) r' := by
  induction n generalizing payloads r r' with
  | zero =>
    rw [readPayloads, run_pure_eq_ok, List.length_eq_zero_iff]
    constructor
    · rintro ⟨rfl, rfl⟩
      exact ⟨rfl, by simp, refl _⟩
    · rintro ⟨rfl, -, hcons⟩
      exact ⟨rfl, hcons.unique (refl _)⟩
  | succ n ih =>
    simp only [readPayloads, run_bind_eq_ok, Reader.readSizedPayload_eq_ok, ih, run_pure_eq_ok]
    constructor
    · rintro ⟨p, r₁, ⟨hp, hpayload⟩, ps, _, ⟨hlen, hps, hcons⟩, rfl, rfl⟩
      exact ⟨by rw [length_cons, hlen], List.forall_mem_cons.2 ⟨hp, hps⟩, hpayload.trans hcons⟩
    · rintro ⟨hlen, hle, hcons⟩
      obtain ⟨p, ps, rfl⟩ := List.exists_cons_of_length_eq_add_one hlen
      obtain ⟨hp, hps⟩ := List.forall_mem_cons.1 hle
      rw [List.flatMap_cons, Cursor.consumes_append_iff] at hcons
      obtain ⟨r₁, hpayload, hcons⟩ := hcons
      exact ⟨p, r₁, ⟨hp, hpayload⟩, ps, r', ⟨Nat.succ.inj hlen, hps, hcons⟩, rfl, rfl⟩

/-- A list is read back, unless it has too many elements. -/
theorem decodeListPayloads_eq_ok : decodeListPayloads input = .ok payloads ↔
      payloads.length ≤ maxTransactionItems ∧ input.length ≤ maxStandaloneBytes ∧
        encodeList payloads = .ok input := by
  simp only [decodeListPayloads, bind_eq_ok, ofScb_eq_ok, Reader.new_eq_ok, Prod.exists,
    Reader.readListCount_eq_ok, rejectIf_eq_ok, exists_const, readPayloads_eq_ok,
    Reader.checkFinished_eq_ok, pure_eq_ok, not_or, gt_iff_lt, Nat.not_lt, encodeList_eq_ok]
  constructor
  · rintro ⟨_, ⟨hinput, rfl⟩, n, r₁, ⟨-, hcount⟩, ⟨hitems, hmax⟩, ps, r₂, ⟨hlen, hps, hcons⟩, hfin,
      rfl⟩
    have hrest := (hcount.trans hcons).rest_eq
    rw [Cursor.new_rest, hfin, List.append_nil] at hrest
    exact ⟨hlen ▸ hitems, hinput, hlen ▸ hmax, hps, hlen ▸ hrest⟩
  · rintro ⟨hitems, hinput, hmax, hps, rfl⟩
    obtain ⟨r₂, hcons, hfin⟩ := Cursor.exists_consumes_of_rest (c := Cursor.new _)
      (show (Cursor.new (Leb128.encode payloads.length ++ payloads.flatMap sizedBytes)).rest =
        _ ++ [] by rw [Cursor.new_rest, List.append_nil])
    obtain ⟨r₁, hcount, hcons⟩ := hcons.split
    exact ⟨_, ⟨hinput, rfl⟩, _, r₁, ⟨hmax, hcount⟩, ⟨hitems, hmax⟩, payloads, r₂, ⟨rfl, hps, hcons⟩,
      hfin, rfl⟩

theorem readFixed_eq_ok {id : Id kind} : readFixed kind input = .ok id ↔ input = id.bytes := by
  rw [readFixed, ofScb_eq_ok, decodeFixed_eq_ok, eq_comm]

/-- Elements are read back one by one. -/
theorem mapM_eq_ok_of_eq_ok {α β ε : Type} {read : α → Except ε β} (write : β → α)
    (h : ∀ a b, read a = .ok b ↔ a = write b) {xs : List α} {ys : List β} :
    xs.mapM read = .ok ys ↔ xs = ys.map write := by
  rw [mapM_eq_ok]
  constructor
  · intro hall
    induction hall with
    | nil => rfl
    | cons hx _ ih => rw [List.map_cons, (h _ _).1 hx, ih]
  · rintro rfl
    induction ys with
    | nil => exact .nil
    | cons y ys ih => exact .cons ((h _ _).2 rfl) ih

theorem decodeFixedList_eq_ok {ids : List (Id kind)} : decodeFixedList kind input = .ok ids ↔
      ids.length ≤ maxTransactionItems ∧ input.length ≤ maxStandaloneBytes ∧
        encodeFixedList ids = .ok input := by
  simp only [decodeFixedList, bind_eq_ok, decodeListPayloads_eq_ok, encodeFixedList,
    mapM_eq_ok_of_eq_ok Id.bytes fun _ _ ↦ readFixed_eq_ok]
  constructor
  · rintro ⟨_, ⟨hitems, hinput, hencode⟩, rfl⟩
    exact ⟨by rwa [length_map] at hitems, hinput, hencode⟩
  · rintro ⟨hitems, hinput, hencode⟩
    exact ⟨_, ⟨by rwa [length_map], hinput, hencode⟩, rfl⟩

theorem length_encodeUvar_le (v : UInt64) : (encodeUvar v).length ≤ maxStandaloneBytes := by
  rw [encodeUvar_eq]
  exact (Leb128.length_encode_le (k := 10) (by decide) (v.toNat_lt.trans (by decide))).trans
    (by decide)

theorem readU32_eq_ok {v : UInt32} : readU32 input = .ok v ↔ input = encodeUvar v.toUInt64 := by
  rw [readU32, ofScb_eq_ok, readWhole_eq_ok fun v bs ↦ bs = encodeUvar v.toUInt64]
  · refine and_iff_right_of_imp ?_
    rintro rfl
    exact length_encodeUvar_le _
  · intro r r' v
    rw [Reader.readTag_eq_ok, encodeUvar_tag]
    simp

theorem readU64_eq_ok {v : UInt64} : readU64 input = .ok v ↔ input = encodeUvar v := by
  rw [readU64, ofScb_eq_ok, readWhole_eq_ok fun v bs ↦ bs = encodeUvar v]
  · refine and_iff_right_of_imp ?_
    rintro rfl
    exact length_encodeUvar_le _
  · intro r r' v
    show readUvar r 64 = .ok (v, r') ↔ _
    rw [Reader.readUvar_eq_ok, and_iff_right (by decide),
      and_iff_right (show v.toNat < 2 ^ UInt8.toNat 64 from v.toNat_lt)]
    simp

theorem readBytes_eq_ok {input value : Bytes} :
    readBytes input = .ok value ↔ encodeBytes value = .ok input := by
  rw [readBytes, ofScb_eq_ok, readWhole_eq_ok fun value bs ↦ encodeBytes value = .ok bs]
  · refine and_iff_right_of_imp fun h ↦ ?_
    obtain ⟨hlen, rfl⟩ := encodeBytes_eq_ok.1 h
    have hcount : (Leb128.encode value.length).length ≤ 10 :=
      Leb128.length_encode_le (by decide) (hlen.trans_lt (by decide))
    rw [sizedBytes, length_append]
    exact (Nat.add_le_add hcount hlen).trans (by decide)
  · intro r r' value
    simp only [Reader.readBytes_eq_ok, encodeBytes_eq_ok]
    constructor
    · rintro ⟨hlen, hcons⟩
      exact ⟨_, ⟨hlen, rfl⟩, hcons⟩
    · rintro ⟨_, ⟨hlen, rfl⟩, hcons⟩
      exact ⟨hlen, hcons⟩

/-- What a union is read from. -/
theorem readWhole_readUnion_eq_ok {input payload : Bytes} {tag : UInt32} :
    readWhole readUnion input = .ok (tag, payload) ↔
      input.length ≤ maxStandaloneBytes ∧ encodeUnion tag payload = .ok input := by
  rw [readWhole_eq_ok fun (v : UInt32 × Bytes) bs ↦ encodeUnion v.1 v.2 = .ok bs]
  rintro r r' ⟨tag, payload⟩
  simp only [Reader.readUnion_eq_ok, encodeUnion_eq_ok]
  constructor
  · rintro ⟨hlen, hcons⟩
    exact ⟨_, ⟨hlen, rfl⟩, hcons⟩
  · rintro ⟨_, ⟨hlen, rfl⟩, hcons⟩
    exact ⟨hlen, hcons⟩

/-- An optional value is a union of two cases. -/
theorem decodeOption_eq_ok {α : Type} {decode : Bytes → CodecResult α} {value : Option α} :
    decodeOption decode input = .ok value ↔ input.length ≤ maxStandaloneBytes ∧
      ((value = none ∧ encodeUnion 0 [] = .ok input) ∨
        ∃ v payload, value = some v ∧ decode payload = .ok v ∧ encodeUnion 1 payload = .ok input) := by
  simp only [decodeOption, bind_eq_ok, ofScb_eq_ok, Prod.exists, readWhole_readUnion_eq_ok]
  constructor
  · rintro ⟨tag, payload, ⟨hinput, hunion⟩, h⟩
    refine ⟨hinput, ?_⟩
    split at h
    · rename_i hnone
      obtain ⟨rfl, rfl⟩ := hnone
      exact .inl ⟨Except.pure_eq_ok.1 h, hunion⟩
    · split at h
      · rename_i hsome
        subst hsome
        obtain ⟨v, hv, h⟩ := Except.bind_eq_ok.1 h
        exact .inr ⟨v, payload, Except.pure_eq_ok.1 h, hv, hunion⟩
      · cases h
  · rintro ⟨hinput, ⟨rfl, hunion⟩ | ⟨v, payload, rfl, hv, hunion⟩⟩
    · exact ⟨0, [], ⟨hinput, hunion⟩, rfl⟩
    · refine ⟨1, payload, ⟨hinput, hunion⟩, ?_⟩
      rw [if_neg (by simp), if_pos rfl]
      exact Except.bind_eq_ok.2 ⟨v, hv, rfl⟩

theorem decodeOptionFixed_eq_ok {value : Option (Id kind)} :
    decodeOptionFixed kind input = .ok value ↔ encodeOptionFixed value = .ok input := by
  rw [decodeOptionFixed, decodeOption_eq_ok]
  simp only [readFixed_eq_ok]
  cases value with
  | none =>
    simp only [true_and, reduceCtorEq, false_and, exists_false, or_false, encodeOptionFixed]
    refine and_iff_right_of_imp fun h ↦ ?_
    obtain ⟨-, rfl⟩ := encodeUnion_eq_ok.1 h
    with_unfolding_all decide
  | some id =>
    simp only [reduceCtorEq, false_and, Option.some.injEq, false_or, encodeOptionFixed]
    constructor
    · rintro ⟨-, _, _, rfl, rfl, h⟩
      exact h
    · intro h
      refine ⟨?_, id, _, rfl, rfl, h⟩
      obtain ⟨-, rfl⟩ := encodeUnion_eq_ok.1 h
      rw [taggedBytes, sizedBytes, length_append, length_append, id.length_eq]
      with_unfolding_all decide

theorem decodeOptionBytes_eq_ok {value : Option Bytes} : decodeOptionBytes input = .ok value ↔
      input.length ≤ maxStandaloneBytes ∧ encodeOptionBytes value = .ok input := by
  rw [decodeOptionBytes, decodeOption_eq_ok]
  simp only [readBytes_eq_ok]
  cases value with
  | none =>
    simp only [true_and, reduceCtorEq, false_and, exists_false, or_false, encodeOptionBytes]
  | some bytes =>
    simp only [reduceCtorEq, false_and, Option.some.injEq, false_or, encodeOptionBytes, bind_eq_ok]
    refine and_congr_right fun _ ↦ ⟨?_, ?_⟩
    · rintro ⟨_, payload, rfl, hpayload, h⟩
      exact ⟨payload, hpayload, h⟩
    · rintro ⟨payload, hpayload, h⟩
      exact ⟨bytes, payload, rfl, hpayload, h⟩

/-! ### Envelopes -/

/-- The bytes of an envelope before its digest. -/
def envelopeBytes (magic payload : Bytes) : Bytes :=
  magic ++ (encodeUvar envelopeVersion ++ sizedBytes payload)

theorem length_le_of_envelopeBytes
    (h : (envelopeBytes magic payload).length + 32 ≤ maxStandaloneBytes) :
    payload.length ≤ maxStandaloneBytes := by
  simp only [envelopeBytes, sizedBytes, length_append] at h
  omega

theorem encodeEnvelope_eq_ok {magic payload preimage : Bytes} :
    encodeEnvelope magic payload = .ok preimage ↔
      preimage.length + 32 ≤ maxStandaloneBytes ∧ preimage = envelopeBytes magic payload := by
  simp only [encodeEnvelope, bind_eq_ok, rejectIf_eq_ok, exists_const,
    pure_eq_ok, gt_iff_lt, Nat.not_lt]
  -- within the limit the count is not truncated
  have hcount : payload.length ≤ maxStandaloneBytes →
      magic ++ encodeUvar envelopeVersion ++ encodeCount payload.length ++ payload =
        envelopeBytes magic payload := by
    intro hle
    rw [encodeCount_eq (lt_of_le_of_lt hle (by decide))]
    simp only [envelopeBytes, sizedBytes, List.append_assoc]
  constructor
  · rintro ⟨hle, rfl⟩
    refine ⟨hle, hcount ?_⟩
    simp only [length_append] at hle
    omega
  · rintro ⟨hle, rfl⟩
    rw [hcount (length_le_of_envelopeBytes hle)]
    exact ⟨hle, rfl⟩

theorem readEnvelope_eq_ok : (readEnvelope magic).run r = .ok (payload, r') ↔
      ∃ bs, (payload.length ≤ maxStandaloneBytes ∧ bs = envelopeBytes magic payload) ∧
        r.Consumes bs r' := by
  have hversion : ∀ {r r' : Reader}, readUvar r 64 = .ok (envelopeVersion, r') ↔
      r.Consumes (encodeUvar envelopeVersion) r' := by
    intro r r'
    rw [Reader.readUvar_eq_ok]
    exact ⟨fun h ↦ h.2.2, fun h ↦ ⟨by decide, by decide, h⟩⟩
  simp only [readEnvelope, run_bind_eq_ok, Reader.expect_eq_ok, Reader.readSizedPayload_eq_ok]
  constructor
  · rintro ⟨_, r₁, ⟨-, hm⟩, _, r₂, ⟨-, hv⟩, hlen, hp⟩
    have hmagic := (Reader.takeExact_eq_ok.1 hm).2
    exact ⟨_, ⟨hlen, rfl⟩, hmagic.trans ((hversion.1 hv).trans hp)⟩
  · rintro ⟨_, ⟨hlen, rfl⟩, hcons⟩
    simp only [envelopeBytes, Cursor.consumes_append_iff] at hcons
    obtain ⟨r₁, hm, r₂, hv, hp⟩ := hcons
    exact ⟨_, r₁, ⟨rfl, Reader.takeExact_eq_ok.2 ⟨rfl, hm⟩⟩, _, r₂, ⟨rfl, hversion.2 hv⟩, hlen, hp⟩

/-- **An envelope is its preimage and a 32-byte trailer.** -/
theorem decodeEnvelope_eq_ok {input magic : Bytes} {e : DecodedEnvelope} :
    decodeEnvelope input magic = .ok e ↔
      encodeEnvelope magic e.payload = .ok e.preimage ∧ e.trailer.length = 32 ∧
        input = e.preimage ++ e.trailer := by
  simp only [decodeEnvelope, ofScb_eq_ok, bind_eq_ok, rejectIf_eq_ok, exists_const, pure_eq_ok,
    gt_iff_lt, Nat.not_lt, readWhole_eq_ok _ readEnvelope_eq_ok, encodeEnvelope_eq_ok]
  constructor
  · rintro ⟨hle, hlen, payload, ⟨-, -, hpre⟩, rfl⟩
    have htrailer : (input.drop (input.length - 32)).length = 32 := by
      rw [List.length_drop]
      omega
    refine ⟨⟨?_, hpre⟩, htrailer, (List.take_append_drop _ _).symm⟩
    rw [List.length_take]
    omega
  · rintro ⟨⟨hle, hpre⟩, htrailer, rfl⟩
    obtain ⟨preimage, trailer, payload⟩ := e
    obtain ⟨hlen, htake, hdrop⟩ := (Reader.eq_append_trailer_iff htrailer).1
      (rfl : preimage ++ trailer = preimage ++ trailer)
    have hpayload : payload.length ≤ maxStandaloneBytes := by
      have hfits : (envelopeBytes magic payload).length + 32 ≤ maxStandaloneBytes := by
        rw [← show preimage = _ from hpre]
        exact hle
      exact length_le_of_envelopeBytes hfits
    rw [htake, hdrop]
    refine ⟨?_, hlen, payload, ⟨?_, hpayload, hpre⟩, rfl⟩
    · rw [length_append, htrailer]
      exact hle
    · exact (Nat.le_add_right _ _).trans hle

/-! ### Small records -/

/-- The bytes of a record with consecutive tags. -/
def recordBytes (payloads : List Bytes) : Bytes :=
  Leb128.encode payloads.length ++ (numbered 1 payloads).flatMap fun f ↦ taggedBytes f.1 f.2

theorem encodeRecord_numbered (hn : payloads.length ≤ maxRecordFields)
    (hle : ∀ p ∈ payloads, p.length ≤ maxStandaloneBytes) :
    encodeRecord (numbered 1 payloads) = .ok (recordBytes payloads) := by
  have hcount : 1 + payloads.length ≤ 2 ^ 32 := (Nat.add_le_add_left hn 1).trans (by decide)
  refine (encodeRecord_eq_ok (sorted_numbered hcount).2).2 ⟨?_, forall_mem_numbered.2 hle, ?_⟩
  · rwa [length_numbered]
  · rw [recordBytes, length_numbered]

theorem length_recordBytes_le {n : Nat} (hn : n ≤ maxStandaloneBytes)
    (hcount : payloads.length ≤ maxRecordFields) (hle : ∀ p ∈ payloads, p.length ≤ n) :
    (recordBytes payloads).length ≤ 10 + payloads.length * (n + 20) := by
  have htagged : ∀ f ∈ numbered 1 payloads, (taggedBytes f.1 f.2).length ≤ n + 20 := by
    intro f hf
    have hlen := forall_mem_numbered.2 hle f hf
    exact (length_taggedBytes_le f.1 (hlen.trans hn)).trans (by omega)
  rw [recordBytes, length_append, List.length_flatMap]
  refine Nat.add_le_add (Leb128.length_encode_le (by decide) (hcount.trans_lt (by decide))) ?_
  have hsum := List.sum_le_card_nsmul
    ((numbered 1 payloads).map fun f ↦ (taggedBytes f.1 f.2).length) (n + 20)
    (List.forall_mem_map.2 htagged)
  rwa [length_map, length_numbered, smul_eq_mul] at hsum

theorem encodeEnvelope_of_length (hmagic : magic.length = 8) (h : payload.length ≤ 100000) :
    encodeEnvelope magic payload = .ok (envelopeBytes magic payload) := by
  have hpayload : payload.length ≤ maxStandaloneBytes := h.trans (by decide)
  have hsized := length_sizedBytes_le hpayload
  have hversion : (encodeUvar envelopeVersion).length = 1 := by with_unfolding_all decide
  have hmax : 200000 ≤ maxStandaloneBytes := by decide
  refine encodeEnvelope_eq_ok.2 ⟨?_, rfl⟩
  rw [envelopeBytes, length_append, length_append]
  omega

end Sley.Txn
