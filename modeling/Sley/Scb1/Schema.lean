import Sley.Scb1.Canonical
import Sley.Ssmc.Identity

/-!
# The schema-directed decoder

`decode_schema` of `sley-scb1/src/lib.rs` checks bytes against a schema and keeps nothing of them
but the slice it consumed. Its containers are strict: **a map or a record is accepted exactly when
it is the encoding of some set of entries** (`decodeMap_accepts_iff`, `orderedFields_accepts_iff`),
whatever order a writer was given them in. The decoder compares the slices of the keys, the encoder
the keys themselves; that these are the same bytes is `decodeSchema_slices`.
-/

namespace Sley.Scb1

open Cursor.Consumes (refl)
open StateT (run_bind_eq_ok run_ofExcept_eq_ok run_pure_eq_ok)
open Except (pure_eq_ok rejectIf)
open Cursor (new new_rest)
open Reader (checkFinished readListCount readRecordFieldCount readSizedPayload readUvarWidth)

/-- Schema-directed decoding types for fixture and primitive validation. -/
inductive Schema
  | uint (width : UInt8)
  | sint (width : UInt8)
  | bool
  | bytes
  | text
  | normalizedLabel
  | f32
  | f64
  | listUInt64
  | mapUInt8UInt8
  | mapUInt64Text
  | optionUInt64
  | unionBool (tag : UInt32)
  | fixtureRecord
  | fixtureAcceptedRecord
  | fixtureEmptyObject
  | fixtureRequiredBool
  | fixtureExtensibleRecord
  | nestedListFixture
  deriving DecidableEq, Repr

/-! ### Nested values and containers -/

/-- All of `input` under one decoder, and what the decoder made of it. -/
def decodeExact (decode : ScbReader Bytes) (input : Bytes) : Result Bytes := do
  let (decoded, nested) ← decode.run (new input)
  checkFinished nested
  return decoded

/-- `decode_nested_exact`, given the decoder of its schema. -/
def decodeNestedExact (decode : ScbReader Bytes) (input : Bytes) : Result Unit := do
  let _ ← decodeExact decode input
  return ()

/-- Read a value and forget it. -/
def skip {α : Type} (p : ScbReader α) : ScbReader Unit := do
  let _ ← p
  return ()

/-- Read a value and return the slice of the input it was read from. -/
def sliced (p : ScbReader Unit) : ScbReader Bytes := do
  let start ← get
  p
  let reader ← get
  return (reader.input.drop start.position).take (reader.position - start.position)

/-- The loop of `decode_list` and `decode_nested_list`. -/
def decodeElements (check : Bytes → Result Unit) : Nat → ScbReader Unit
  | 0 => return ()
  | n + 1 => do
    let element ← readSizedPayload
    StateT.ofExcept (check element)
    decodeElements check n

/-- A key that stands below the one before, or repeats it, is refused. -/
def checkMapKey (previous : Option Bytes) (key : Bytes) : Result Unit :=
  match previous with
  | none => .ok ()
  | some prior =>
    match compare prior key with
    | .gt => .error .mapOrder
    | .eq => .error .mapDuplicate
    | .lt => .ok ()

/-- The loop of `decode_map`. -/
def decodeEntries (decodeKey decodeValue : ScbReader Bytes) : Nat → Option Bytes → ScbReader Unit
  | 0, _ => return ()
  | n + 1, previous => do
    let key ← readSizedPayload
    let decodedKey ← StateT.ofExcept (decodeExact decodeKey key)
    StateT.ofExcept (checkMapKey previous decodedKey)
    let value ← readSizedPayload
    let _ ← StateT.ofExcept (decodeExact decodeValue value)
    decodeEntries decodeKey decodeValue n (some decodedKey)

/-- `decode_map`, given the decoders of its two schemas. -/
def decodeMapOf (decodeKey decodeValue : ScbReader Bytes) : ScbReader Unit := do
  let count ← readListCount
  decodeEntries decodeKey decodeValue count none

/-- `read_ordered_field_tag`; the tag is the next `previous`. -/
def readOrderedFieldTag (previous : Option UInt64) : ScbReader UInt64 := do
  let tag ← (readUvarWidth · 32)
  StateT.ofExcept (rejectIf (previous = some tag) .fieldDuplicate)
  StateT.ofExcept (rejectIf (previous.any fun prior ↦ decide (tag < prior)) .fieldOrder)
  return tag

/-- The loop over the fields of a record. -/
def readOrderedFields (check : UInt64 → Bytes → Result Unit) : Nat → Option UInt64 → ScbReader Unit
  | 0, _ => return ()
  | n + 1, previous => do
    let tag ← readOrderedFieldTag previous
    let value ← readSizedPayload
    StateT.ofExcept (check tag value)
    readOrderedFields check n (some tag)

/-- A count of fields and the fields. -/
def readRecord (check : UInt64 → Bytes → Result Unit) : ScbReader Nat := do
  let count ← readRecordFieldCount
  readOrderedFields check count none
  return count

/-- The loop over fields whose tags are known in advance. -/
def readExpectedFields (other : ScbErrorCode) :
    List (UInt64 × (Bytes → Result Unit)) → Option UInt64 → ScbReader Unit
  | [], _ => return ()
  | (expected, check) :: fields, previous => do
    let tag ← readOrderedFieldTag previous
    StateT.ofExcept (rejectIf (tag ≠ expected) other)
    let value ← readSizedPayload
    StateT.ofExcept (check value)
    readExpectedFields other fields (some tag)

/-- The loop of `decode_extension_set`. -/
def decodeExtensions (check : Bytes → Result Unit) : Nat → Option Bytes → ScbReader Unit
  | 0, _ => return ()
  | n + 1, previous => do
    let extension ← readSizedPayload
    StateT.ofExcept (checkMapKey previous extension)
    StateT.ofExcept (check extension)
    decodeExtensions check n (some extension)

/-- An extension of the fixture epoch, which knows none. -/
def decodeExtensionRecord (decodeTag decodePayload : ScbReader Bytes) (input : Bytes) :
    Result Unit := do
  let (count, reader) ← Reader.readRecordFieldCount.run (new input)
  rejectIf (count < 4) .fieldMissing
  rejectIf (count > 4) .fieldUnknown
  let ((), reader) ← (readExpectedFields .fieldMissing
    [(1, fun value ↦ rejectIf (value.length ≠ 16) .lengthOverflow),
      (2, decodeNestedExact decodeTag),
      (3, decodeNestedExact decodeTag),
      (4, decodeNestedExact decodePayload)] none).run reader
  checkFinished reader
  .error .extensionUnknown

def decodeExtensionSet (decodeTag decodePayload : ScbReader Bytes) (input : Bytes) :
    Result Unit := do
  let (count, reader) ← Reader.readListCount.run (new input)
  let ((), reader) ← (decodeExtensions (decodeExtensionRecord decodeTag decodePayload) count
    none).run reader
  checkFinished reader

def decodeNestedList (depth : Nat) : ScbReader Unit :=
  if depth ≥ maxNestingDepth then
    StateT.ofExcept (.error .resourceLimit)
  else do
    let count ← readListCount
    decodeElements (fun value ↦ do
      let ((), nested) ← (decodeNestedList (depth + 1)).run (new value)
      checkFinished nested) count
termination_by maxNestingDepth - depth

/-! ### The decoder -/

section

variable [UnicodeNormalization]

def readTextChecked (requireNfc : Bool) : ScbReader Unit := do
  let value ← Reader.readText
  StateT.ofExcept
    (rejectIf (requireNfc ∧ UnicodeNormalization.nfc value ≠ value) .labelNotNfc)

/-- How deep a schema refers to other schemas. -/
def Schema.height : Schema → Nat
  | .uint _ | .sint _ | .bool | .bytes | .text | .normalizedLabel | .f32 | .f64
  | .fixtureEmptyObject | .nestedListFixture => 0
  | _ => 1

/-- Consumes one value and returns the slice of it. -/
def decodeSchema (schema : Schema) (depth : Nat) : ScbReader Bytes := do
  StateT.ofExcept (rejectIf (depth > maxNestingDepth) .resourceLimit)
  sliced <| match schema with
    | .uint width => skip (readUvarWidth · width)
    | .sint width => do
      let encoded ← (readUvarWidth · width)
      StateT.ofExcept
        (rejectIf (width < 64 ∧ encoded ≥ 1 <<< width.toUInt64) .integerOverflow)
    | .bool => do
      let value ← Reader.readU8
      StateT.ofExcept (rejectIf (value > 1) .boolInvalid)
    | .bytes => skip Reader.readBytes
    | .text => readTextChecked false
    | .normalizedLabel => readTextChecked true
    | .f32 => skip Reader.readF32Bits
    | .f64 => skip Reader.readF64Bits
    | .listUInt64 => do
      let count ← readListCount
      decodeElements (decodeNestedExact (decodeSchema (.uint 64) (depth + 1))) count
    | .mapUInt8UInt8 =>
      decodeMapOf (decodeSchema (.uint 8) (depth + 1)) (decodeSchema (.uint 8) (depth + 1))
    | .mapUInt64Text =>
      decodeMapOf (decodeSchema (.uint 64) (depth + 1)) (decodeSchema .text (depth + 1))
    | .optionUInt64 => do
      let tag ← (readUvarWidth · 32)
      let payload ← readSizedPayload
      if tag = 0 ∧ payload = [] then
        return ()
      else if tag = 1 then
        StateT.ofExcept (decodeNestedExact (decodeSchema (.uint 64) (depth + 1)) payload)
      else
        StateT.ofExcept (.error .unionInvalid)
    | .unionBool expectedTag => do
      let tag ← (readUvarWidth · 32)
      StateT.ofExcept (rejectIf (tag ≠ expectedTag.toUInt64) .unionInvalid)
      let payload ← readSizedPayload
      StateT.ofExcept (decodeNestedExact (decodeSchema .bool (depth + 1)) payload)
    | .fixtureRecord =>
      skip (readRecord fun tag value ↦ do
        rejectIf (tag ≠ 1 ∧ tag ≠ 2) .fieldUnknown
        decodeNestedExact (decodeSchema .bool (depth + 1)) value)
    | .fixtureAcceptedRecord => do
      let count ← readRecordFieldCount
      StateT.ofExcept (rejectIf (count ≠ 2) .fieldMissing)
      readExpectedFields .fieldUnknown
        [(1, decodeNestedExact (decodeSchema .bool (depth + 1))),
          (3, decodeNestedExact (decodeSchema (.uint 64) (depth + 1)))] none
    | .fixtureEmptyObject => do
      let count ← readRecordFieldCount
      StateT.ofExcept (rejectIf (count ≠ 0) .fieldUnknown)
    | .fixtureRequiredBool => do
      let count ← readRecord fun tag value ↦ do
        rejectIf (tag ≠ 1) .fieldUnknown
        decodeNestedExact (decodeSchema .bool (depth + 1)) value
      StateT.ofExcept (rejectIf (count = 0) .fieldMissing)
    | .fixtureExtensibleRecord =>
      skip (readRecord fun tag value ↦ do
        rejectIf (tag ≠ 1) .fieldUnknown
        decodeExtensionSet (decodeSchema (.uint 32) (depth + 2)) (decodeSchema .bytes (depth + 2))
          value)
    | .nestedListFixture => decodeNestedList depth
termination_by schema.height
decreasing_by all_goals exact Nat.zero_lt_one

/-- `decode_map`. -/
def decodeMap (keySchema valueSchema : Schema) (depth : Nat) : ScbReader Unit :=
  decodeMapOf (decodeSchema keySchema (depth + 1)) (decodeSchema valueSchema (depth + 1))

end

/-! ### What a decoder consumes -/

/-- A read that only moves on. -/
def Forward {α : Type} (p : ScbReader α) : Prop :=
  ∀ ⦃r r' : Reader⦄ ⦃a : α⦄, p.run r = .ok (a, r') → ∃ bs, r.Consumes bs r'

namespace Forward

variable {α β : Type}

theorem pure (a : α) : Forward (Pure.pure a) := by
  intro r r' a' h
  obtain ⟨-, rfl⟩ := StateT.run_pure_eq_ok.1 h
  exact ⟨[], refl _⟩

theorem ofExcept (x : Result α) : Forward (StateT.ofExcept x) := by
  intro r r' a h
  obtain ⟨-, rfl⟩ := run_ofExcept_eq_ok.1 h
  exact ⟨[], refl _⟩

theorem bind {p : ScbReader α} {q : α → ScbReader β} (hp : Forward p) (hq : ∀ a, Forward (q a)) :
    Forward (p >>= q) := by
  intro r r' b h
  obtain ⟨a, r₁, ha, hb⟩ := run_bind_eq_ok.1 h
  obtain ⟨bs, hbs⟩ := hp ha
  obtain ⟨bs', hbs'⟩ := hq a hb
  exact ⟨bs ++ bs', hbs.trans hbs'⟩

theorem skip {p : ScbReader α} (h : Forward p) : Forward (Scb1.skip p) := h.bind fun _ ↦ pure ()

theorem readUvarWidth (width : UInt8) : Forward (readUvarWidth · width) :=
  fun _ _ _ h ↦ ⟨_, (Reader.readUvarWidth_eq_ok.1 h).2⟩

theorem readListCount : Forward readListCount :=
  fun _ _ _ h ↦ ⟨_, (Reader.readListCount_eq_ok.1 h).2⟩

theorem readRecordFieldCount : Forward readRecordFieldCount :=
  fun _ _ _ h ↦ ⟨_, (Reader.readRecordFieldCount_eq_ok.1 h).2⟩

theorem readSizedPayload : Forward readSizedPayload :=
  fun _ _ _ h ↦ ⟨_, (Reader.readSizedPayload_eq_ok.1 h).2⟩

theorem decodeElements (check : Bytes → Result Unit) (n : Nat) :
    Forward (Scb1.decodeElements check n) := by
  induction n with
  | zero => exact pure ()
  | succ n ih => exact readSizedPayload.bind fun _ ↦ (ofExcept _).bind fun _ ↦ ih

theorem decodeMapOf (decodeKey decodeValue : ScbReader Bytes) :
    Forward (Scb1.decodeMapOf decodeKey decodeValue) := by
  have hloop : ∀ n previous, Forward (decodeEntries decodeKey decodeValue n previous) := by
    intro n
    induction n with
    | zero => exact fun _ ↦ pure ()
    | succ n ih =>
      exact fun _ ↦ readSizedPayload.bind fun _ ↦ (ofExcept _).bind fun _ ↦ (ofExcept _).bind
        fun _ ↦ readSizedPayload.bind fun _ ↦ (ofExcept _).bind fun _ ↦ ih _
  exact readListCount.bind fun _ ↦ hloop _ _

theorem readOrderedFieldTag (previous : Option UInt64) :
    Forward (Scb1.readOrderedFieldTag previous) :=
  (readUvarWidth 32).bind fun _ ↦ (ofExcept _).bind fun _ ↦ (ofExcept _).bind fun _ ↦ pure _

theorem readRecord (check : UInt64 → Bytes → Result Unit) : Forward (Scb1.readRecord check) := by
  have hloop : ∀ n previous, Forward (readOrderedFields check n previous) := by
    intro n
    induction n with
    | zero => exact fun _ ↦ pure ()
    | succ n ih =>
      exact fun _ ↦ (readOrderedFieldTag _).bind fun _ ↦ readSizedPayload.bind fun _ ↦
        (ofExcept _).bind fun _ ↦ ih _
  exact readRecordFieldCount.bind fun _ ↦ (hloop _ _).bind fun _ ↦ pure _

theorem readExpectedFields (other : ScbErrorCode)
    (fields : List (UInt64 × (Bytes → Result Unit))) (previous : Option UInt64) :
    Forward (Scb1.readExpectedFields other fields previous) := by
  induction fields generalizing previous with
  | nil => exact pure ()
  | cons field fields ih =>
    exact (readOrderedFieldTag _).bind fun _ ↦ (ofExcept _).bind fun _ ↦ readSizedPayload.bind
      fun _ ↦ (ofExcept _).bind fun _ ↦ ih _

theorem decodeNestedList (depth : Nat) : Forward (Scb1.decodeNestedList depth) := by
  rw [Scb1.decodeNestedList]
  split
  · exact ofExcept _
  · exact readListCount.bind fun _ ↦ decodeElements _ _

end Forward

/-- A read that returns the slice it consumed. -/
def Slices (p : ScbReader Bytes) : Prop :=
  ∀ ⦃r r' : Reader⦄ ⦃bs : Bytes⦄, p.run r = .ok (bs, r') → r.Consumes bs r'

theorem Forward.slices {p : ScbReader Unit} (hp : Forward p) : Slices (sliced p) := by
  intro r r' bs h
  have hslice : p.run r = .ok ((), r') ∧
      bs = (r'.input.drop r.position).take (r'.position - r.position) := by
    simp only [sliced, run_bind_eq_ok, StateT.run_get, pure_eq_ok, Prod.mk.injEq,
      run_pure_eq_ok] at h
    obtain ⟨_, _, ⟨rfl, rfl⟩, _, r₁, hrun, _, _, ⟨rfl, rfl⟩, rfl, rfl⟩ := h
    exact ⟨hrun, rfl⟩
  obtain ⟨hrun, rfl⟩ := hslice
  obtain ⟨xs, hxs⟩ := hp hrun
  have hrest : r.input.drop r.position = xs ++ r'.rest := hxs.rest_eq
  rwa [hxs.input_eq, hxs.position_eq, Nat.add_sub_cancel_left, hrest, List.take_left]

section

variable [UnicodeNormalization]

theorem forward_readTextChecked (requireNfc : Bool) : Forward (readTextChecked requireNfc) :=
  Forward.bind (fun _ _ _ h ↦ ⟨_, (Reader.readText_eq_ok.1 h).2⟩) fun _ ↦ Forward.ofExcept _

/-- **The decoder returns the slice it consumed**, under every schema. -/
theorem decodeSchema_slices (schema : Schema) (depth : Nat) :
    Slices (decodeSchema schema depth) := by
  intro r r' bs h
  rw [decodeSchema.eq_def, run_bind_eq_ok] at h
  obtain ⟨_, _, hdepth, h⟩ := h
  obtain ⟨-, rfl⟩ := run_ofExcept_eq_ok.1 hdepth
  refine Forward.slices ?_ h
  cases schema with
  | uint width => exact (Forward.readUvarWidth width).skip
  | sint width => exact (Forward.readUvarWidth width).bind fun _ ↦ .ofExcept _
  | bool =>
    refine Forward.bind (fun _ _ _ h ↦ ⟨_, Reader.readU8_eq_ok.1 h⟩) fun _ ↦ .ofExcept _
  | bytes => exact Forward.skip fun _ _ _ h ↦ ⟨_, (Reader.readBytes_eq_ok.1 h).2⟩
  | text => exact forward_readTextChecked false
  | normalizedLabel => exact forward_readTextChecked true
  | f32 =>
    refine Forward.skip fun _ _ _ h ↦ ?_
    obtain ⟨bs, -, hbs⟩ := Reader.readF32Bits_eq_ok.1 h
    exact ⟨bs, hbs⟩
  | f64 =>
    refine Forward.skip fun _ _ _ h ↦ ?_
    obtain ⟨bs, -, hbs⟩ := Reader.readF64Bits_eq_ok.1 h
    exact ⟨bs, hbs⟩
  | listUInt64 => exact Forward.readListCount.bind fun _ ↦ .decodeElements _ _
  | mapUInt8UInt8 => exact .decodeMapOf _ _
  | mapUInt64Text => exact .decodeMapOf _ _
  | optionUInt64 =>
    refine (Forward.readUvarWidth 32).bind fun _ ↦ Forward.readSizedPayload.bind fun _ ↦ ?_
    split
    · exact .pure ()
    · split <;> exact .ofExcept _
  | unionBool tag =>
    exact (Forward.readUvarWidth 32).bind fun _ ↦ (Forward.ofExcept _).bind fun _ ↦
      Forward.readSizedPayload.bind fun _ ↦ .ofExcept _
  | fixtureRecord => exact (Forward.readRecord _).skip
  | fixtureAcceptedRecord =>
    exact Forward.readRecordFieldCount.bind fun _ ↦ (Forward.ofExcept _).bind fun _ ↦
      .readExpectedFields _ _ _
  | fixtureEmptyObject => exact Forward.readRecordFieldCount.bind fun _ ↦ .ofExcept _
  | fixtureRequiredBool => exact (Forward.readRecord _).bind fun _ ↦ .ofExcept _
  | fixtureExtensibleRecord => exact (Forward.readRecord _).skip
  | nestedListFixture => exact .decodeNestedList depth

end

/-! ### Strict containers -/

/-- The read accepts the input and leaves nothing of it. -/
def Accepts {α : Type} (p : ScbReader α) (input : Bytes) : Prop :=
  ∃ a r, p.run (new input) = .ok (a, r) ∧ r.rest = []

theorem decodeExact_eq_ok {decode : ScbReader Bytes} (h : Slices decode) {input decoded : Bytes} :
    decodeExact decode input = .ok decoded ↔ Accepts decode input ∧ decoded = input := by
  simp only [decodeExact, Except.bind_eq_ok, Prod.exists, Reader.checkFinished_eq_ok,
    exists_const, pure_eq_ok, Accepts]
  have hwhole : ∀ {bs : Bytes} {r : Reader}, decode.run (new input) = .ok (bs, r) →
      r.rest = [] → input = bs := by
    intro bs r hrun hfin
    have hinput := (h hrun).rest_eq
    rwa [new_rest, hfin, List.append_nil] at hinput
  constructor
  · rintro ⟨bs, r, hrun, hfin, rfl⟩
    exact ⟨⟨_, r, hrun, hfin⟩, (hwhole hrun hfin).symm⟩
  · rintro ⟨⟨bs, r, hrun, hfin⟩, rfl⟩
    exact ⟨bs, r, hrun, hfin, hwhole hrun hfin⟩

theorem checkMapKey_eq_ok {previous : Option Bytes} {key : Bytes} {u : Unit} :
    checkMapKey previous key = .ok u ↔ ∀ q ∈ previous, compare q key = .lt := by
  cases previous with
  | none => simp [checkMapKey]
  | some prior =>
    simp only [checkMapKey, Option.mem_some_iff, forall_eq']
    cases compare prior key <;> simp

/-- **The loop reads entries whose keys ascend**, from above the key before the first. -/
theorem decodeEntries_eq_ok {decodeKey decodeValue : ScbReader Bytes} (hkey : Slices decodeKey)
    (hvalue : Slices decodeValue) {n : Nat} {previous : Option Bytes} {r r' : Reader} {u : Unit} :
    (decodeEntries decodeKey decodeValue n previous).run r = .ok (u, r') ↔
      ∃ entries : List (Bytes × Bytes), entries.length = n ∧
        (∀ q ∈ previous, ∀ e ∈ entries, compare q e.1 = .lt) ∧ Ascends Prod.fst entries ∧
        (∀ e ∈ entries, mapContainer.Fits e ∧ Accepts decodeKey e.1 ∧ Accepts decodeValue e.2) ∧
        r.Consumes (entries.flatMap entryBytes) r' := by
  induction n generalizing previous r with
  | zero =>
    rw [decodeEntries, run_pure_eq_ok]
    constructor
    · rintro ⟨-, rfl⟩
      exact ⟨[], rfl, by simp, .nil, by simp, refl _⟩
    · rintro ⟨entries, hlen, -, -, -, hcons⟩
      obtain rfl := List.length_eq_zero_iff.1 hlen
      exact ⟨rfl, hcons.unique (refl _)⟩
  | succ n ih =>
    simp only [decodeEntries, run_bind_eq_ok, run_ofExcept_eq_ok,
      Reader.readSizedPayload_eq_ok, decodeExact_eq_ok hkey, decodeExact_eq_ok hvalue,
      checkMapKey_eq_ok, ih]
    constructor
    · rintro ⟨key, r₁, ⟨hklen, hk⟩, _, _, ⟨⟨hkacc, rfl⟩, rfl⟩, _, _, ⟨hprev, rfl⟩, value, r₂,
        ⟨hvlen, hv⟩, _, _, ⟨⟨hvacc, rfl⟩, rfl⟩, entries, rfl, hbelow, hasc, hall, hcons⟩
      have hbelow : ∀ e ∈ entries, compare _ e.1 = .lt := hbelow _ rfl
      refine ⟨(_, _) :: entries, rfl, fun q hq ↦ List.forall_mem_cons.2 ⟨hprev q hq, fun e he ↦
        Std.TransCmp.lt_trans (hprev q hq) (hbelow e he)⟩, List.pairwise_cons.2 ⟨hbelow, hasc⟩,
        List.forall_mem_cons.2 ⟨⟨⟨hklen, hvlen⟩, hkacc, hvacc⟩, hall⟩, ?_⟩
      rw [List.flatMap_cons]
      exact (hk.trans hv).trans hcons
    · rintro ⟨entries, hlen, hprev, hasc, hall, hcons⟩
      obtain ⟨e, entries, rfl⟩ := List.exists_cons_of_length_eq_add_one hlen
      obtain ⟨hbelow, hasc⟩ := List.pairwise_cons.1 hasc
      obtain ⟨⟨⟨hklen, hvlen⟩, hkacc, hvacc⟩, hall⟩ := List.forall_mem_cons.1 hall
      rw [List.flatMap_cons, entryBytes, List.append_assoc, Cursor.consumes_append_iff] at hcons
      obtain ⟨r₁, hk, hcons⟩ := hcons
      obtain ⟨r₂, hv, hcons⟩ := hcons.split
      refine ⟨e.1, r₁, ⟨hklen, hk⟩, e.1, r₁, ⟨⟨hkacc, rfl⟩, rfl⟩, (), r₁,
        ⟨fun q hq ↦ hprev q hq e List.mem_cons_self, rfl⟩, e.2, r₂, ⟨hvlen, hv⟩, e.2, r₂,
        ⟨⟨hvacc, rfl⟩, rfl⟩, entries, Nat.succ.inj hlen, ?_, hasc, hall, hcons⟩
      intro q hq
      obtain rfl := Option.mem_some_iff.1 hq
      exact hbelow

theorem readOrderedFieldTag_eq_ok {previous : Option UInt32} {tag : UInt64} {r r' : Reader} :
    (readOrderedFieldTag (previous.map UInt32.toUInt64)).run r = .ok (tag, r') ↔
      ∃ t : UInt32, tag = t.toUInt64 ∧ (∀ q ∈ previous, q < t) ∧
        r.Consumes (Leb128.encode t.toNat) r' := by
  have horder : ∀ t : UInt32, (∀ q ∈ previous, q < t) ↔
      ¬ previous.map UInt32.toUInt64 = some t.toUInt64 ∧
        ¬ (previous.map UInt32.toUInt64).any (fun prior ↦ decide (t.toUInt64 < prior)) = true := by
    intro t
    cases previous with
    | none => simp
    | some q =>
      simp only [Option.mem_some_iff, forall_eq', Option.map_some, Option.some.injEq,
        Option.any_some, decide_eq_true_eq, UInt64.not_lt, UInt64.le_iff_toNat_le,
        UInt32.lt_iff_toNat_lt, ← UInt64.toNat_inj, UInt32.toNat_toUInt64]
      omega
  simp only [readOrderedFieldTag, run_bind_eq_ok, run_ofExcept_eq_ok,
    Except.rejectIf_eq_ok, run_pure_eq_ok]
  constructor
  · rintro ⟨v, _, hread, _, _, ⟨hne, rfl⟩, _, _, ⟨hle, rfl⟩, rfl, rfl⟩
    obtain ⟨hlt, hcons⟩ := Reader.readUvarWidth_eq_ok.1 hread
    have hwide : tag.toUInt32.toUInt64 = tag := by
      rw [← UInt64.toNat_inj, UInt32.toNat_toUInt64, UInt64.toNat_toUInt32]
      exact Nat.mod_eq_of_lt hlt
    refine ⟨tag.toUInt32, hwide.symm, (horder _).2 ⟨by rwa [hwide], by rwa [hwide]⟩, ?_⟩
    rwa [encodeUvar_eq, ← hwide, UInt32.toNat_toUInt64] at hcons
  · rintro ⟨t, rfl, hprev, hcons⟩
    obtain ⟨hne, hle⟩ := (horder t).1 hprev
    refine ⟨t.toUInt64, r', Reader.readUvarWidth_eq_ok.2 ⟨?_, ?_⟩, (), r', ⟨hne, rfl⟩, (), r',
      ⟨hle, rfl⟩, rfl, rfl⟩
    · rw [UInt32.toNat_toUInt64]
      exact t.toNat_lt
    · rwa [encodeUvar_tag]

variable {check : UInt64 → Bytes → Result Unit}

/-- **The loop reads fields whose tags ascend**, from above the tag before the first. -/
theorem readOrderedFields_eq_ok {n : Nat} (previous : Option UInt32) {r r' : Reader} {u : Unit} :
    (readOrderedFields check n (previous.map UInt32.toUInt64)).run r = .ok (u, r') ↔
      ∃ fields : List Field, fields.length = n ∧ AscendingFields previous fields ∧
        (∀ f ∈ fields, recordContainer.Fits f ∧ check f.1.toUInt64 f.2 = .ok ()) ∧
        r.Consumes (fields.flatMap recordContainer.bytes) r' := by
  induction n generalizing previous r with
  | zero =>
    rw [readOrderedFields, run_pure_eq_ok]
    constructor
    · rintro ⟨-, rfl⟩
      exact ⟨[], rfl, trivial, by simp, refl _⟩
    · rintro ⟨fields, hlen, -, -, hcons⟩
      obtain rfl := List.length_eq_zero_iff.1 hlen
      exact ⟨rfl, hcons.unique (refl _)⟩
  | succ n ih =>
    simp only [readOrderedFields, run_bind_eq_ok, readOrderedFieldTag_eq_ok,
      run_ofExcept_eq_ok, Reader.readSizedPayload_eq_ok]
    constructor
    · rintro ⟨_, r₁, ⟨tag, rfl, hprev, htag⟩, value, r₂, ⟨hlen, hv⟩, _, _, ⟨hcheck, rfl⟩, hrun⟩
      obtain ⟨fields, rfl, hasc, hall, hcons⟩ := (ih (some tag)).1 hrun
      refine ⟨(tag, value) :: fields, rfl, ⟨hprev, hasc⟩,
        List.forall_mem_cons.2 ⟨⟨hlen, hcheck⟩, hall⟩, ?_⟩
      rw [List.flatMap_cons]
      exact (htag.trans hv).trans hcons
    · rintro ⟨fields, hlen, hasc, hall, hcons⟩
      obtain ⟨⟨tag, value⟩, fields, rfl⟩ := List.exists_cons_of_length_eq_add_one hlen
      obtain ⟨⟨hfits, hcheck⟩, hall⟩ := List.forall_mem_cons.1 hall
      rw [List.flatMap_cons, Cursor.consumes_append_iff] at hcons
      obtain ⟨r₂, hfield, hcons⟩ := hcons
      obtain ⟨r₁, htag, hv⟩ := Cursor.consumes_append_iff.1 hfield
      exact ⟨_, r₁, ⟨tag, rfl, hasc.1, htag⟩, value, r₂, ⟨hfits, hv⟩, (), r₂, ⟨hcheck, rfl⟩,
        (ih (some tag)).2 ⟨fields, Nat.succ.inj hlen, hasc.2, hall, hcons⟩⟩

theorem ascendingFields_none_iff {fields : List Field} :
    AscendingFields none fields ↔ Ascends Prod.fst fields := by
  have hlt : ∀ {bound : Option UInt32}, AscendingFields bound fields ↔
      (∀ q ∈ bound, ∀ f ∈ fields, q < f.1) ∧ Ascends Prod.fst fields := by
    induction fields with
    | nil => exact fun {_} ↦ ⟨fun _ ↦ ⟨by simp, .nil⟩, fun _ ↦ trivial⟩
    | cons f fields ih =>
      intro bound
      simp only [AscendingFields, ih, Option.mem_some_iff, forall_eq', Ascends,
        List.pairwise_cons, Std.compare_eq_lt, List.forall_mem_cons]
      constructor
      · rintro ⟨hbound, habove, hasc⟩
        exact ⟨fun q hq ↦ ⟨hbound q hq, fun g hg ↦
          UInt32.lt_trans (hbound q hq) (habove g hg)⟩, habove, hasc⟩
      · rintro ⟨hbound, habove, hasc⟩
        exact ⟨fun q hq ↦ (hbound q hq).1, habove, hasc⟩
  rw [hlt]
  exact and_iff_right (by simp)

variable {input : Bytes}

/-- Reading a count and then as many entries, all of an input. -/
theorem accepts_counted_iff {α : Type} {count : ScbReader Nat} {loop : Nat → ScbReader α}
    {κ : Type} [Ord κ] [DecidableEq κ] [Std.TransOrd κ] [Std.LawfulEqOrd κ] {c : Container κ}
    {Valid : κ × Bytes → Prop} (hcount : ∀ {r r' : Reader} {n : Nat}, count.run r = .ok (n, r') ↔
      n ≤ c.limit ∧ r.Consumes (Leb128.encode n) r')
    (hloop : ∀ {n : Nat} {r r' : Reader}, (∃ a, (loop n).run r = .ok (a, r')) ↔
      ∃ entries : List (κ × Bytes), entries.length = n ∧ Ascends Prod.fst entries ∧
        (∀ e ∈ entries, c.Fits e ∧ Valid e) ∧ r.Consumes (entries.flatMap c.bytes) r') :
    Accepts (count >>= loop) input ↔
      ∃ entries, (∀ e ∈ entries, Valid e) ∧ c.encode entries = .ok input := by
  constructor
  · rintro ⟨a, r', hrun, hfin⟩
    obtain ⟨n, r, hn, hrest⟩ := run_bind_eq_ok.1 hrun
    obtain ⟨hlimit, hcons⟩ := hcount.1 hn
    obtain ⟨entries, rfl, hasc, hall, hcons'⟩ := hloop.1 ⟨a, hrest⟩
    have hinput := (hcons.trans hcons').rest_eq
    rw [new_rest, hfin, List.append_nil] at hinput
    exact ⟨entries, fun e he ↦ (hall e he).2, (Container.encode_eq_ok_of_ascends hasc).2
      ⟨hlimit, fun e he ↦ (hall e he).1, hinput⟩⟩
  · rintro ⟨entries, hvalid, hencode⟩
    obtain ⟨hlimit, ordered, hperm, hasc, hfits, rfl⟩ := Container.encode_eq_ok.1 hencode
    obtain ⟨r', hcons, hfin⟩ := Cursor.exists_consumes_of_rest
      (show (new (c.written ordered)).rest = c.written ordered ++ [] by
        rw [new_rest, List.append_nil])
    obtain ⟨r, hcount', hcons⟩ := hcons.split
    obtain ⟨a, hrun⟩ := hloop.2 ⟨ordered, rfl, hasc,
      fun e he ↦ ⟨hfits e he, hvalid e (hperm.mem_iff.1 he)⟩, hcons⟩
    exact ⟨a, r', run_bind_eq_ok.2 ⟨_, r, hcount.2
      ⟨hperm.length_eq ▸ hlimit, hcount'⟩, hrun⟩, hfin⟩

/-- **A map is accepted exactly when it encodes some set of entries.** -/
theorem decodeMap_accepts_iff [UnicodeNormalization] {keySchema valueSchema : Schema} {depth : Nat} :
    Accepts (decodeMap keySchema valueSchema depth) input ↔ ∃ entries : List (Bytes × Bytes),
      (∀ e ∈ entries, Accepts (decodeSchema keySchema (depth + 1)) e.1 ∧
        Accepts (decodeSchema valueSchema (depth + 1)) e.2) ∧ encodeMap entries = .ok input := by
  refine accepts_counted_iff (c := mapContainer) Reader.readListCount_eq_ok ?_
  intro n r r'
  simp [decodeEntries_eq_ok (decodeSchema_slices _ _) (decodeSchema_slices _ _)]
  rfl

/-- **A record is accepted exactly when it encodes some set of fields** that pass their checks. -/
theorem orderedFields_accepts_iff : Accepts (readRecord check) input ↔ ∃ fields : List Field,
      (∀ f ∈ fields, check f.1.toUInt64 f.2 = .ok ()) ∧ encodeRecord fields = .ok input := by
  rw [encodeRecord_eq_encode]
  refine accepts_counted_iff (c := recordContainer) Reader.readRecordFieldCount_eq_ok ?_
  intro n r r'
  simp only [run_bind_eq_ok, run_pure_eq_ok]
  constructor
  · rintro ⟨_, _, _, hrun, -, rfl⟩
    obtain ⟨fields, hlen, hasc, hall, hcons⟩ := (readOrderedFields_eq_ok none).1 hrun
    exact ⟨fields, hlen, ascendingFields_none_iff.1 hasc, hall, hcons⟩
  · rintro ⟨fields, hlen, hasc, hall, hcons⟩
    exact ⟨n, (), r', (readOrderedFields_eq_ok none).2
      ⟨fields, hlen, ascendingFields_none_iff.2 hasc, hall, hcons⟩, rfl, rfl⟩

/-- **Containers are canonical.** The order of the input of a writer does not matter and a repeated
key is refused; a reader accepts exactly the encodings of sets of entries, and what it accepted
tells the set, so that writing the set again gives back the same bytes. -/
theorem containers_canonical [UnicodeNormalization] :
    -- records, by their tags
    ((∀ fields fields' : List Field, fields.Perm fields' →
        encodeRecord fields = encodeRecord fields') ∧
      (∀ fields : List Field, (encodeRecord fields = .error .fieldDuplicate ↔
          fields.length ≤ maxRecordFields ∧ ¬ (fields.map Prod.fst).Nodup) ∧
        ∀ bs, encodeRecord fields = .ok bs → (fields.map Prod.fst).Nodup) ∧
      (∀ (check : UInt64 → Bytes → Result Unit) (input : Bytes),
        Accepts (readRecord check) input ↔ ∃ fields : List Field,
          (∀ f ∈ fields, check f.1.toUInt64 f.2 = .ok ()) ∧ encodeRecord fields = .ok input) ∧
      ∀ (fields fields' : List Field) (input : Bytes), encodeRecord fields = .ok input →
        (encodeRecord fields' = .ok input ↔ fields'.Perm fields)) ∧
    -- maps, by the bytes of their keys
    (∀ entries entries' : List (Bytes × Bytes), entries.Perm entries' →
        encodeMap entries = encodeMap entries') ∧
      (∀ entries : List (Bytes × Bytes), (encodeMap entries = .error .mapDuplicate ↔
          entries.length ≤ maxCollectionElements ∧ ¬ (entries.map Prod.fst).Nodup) ∧
        ∀ bs, encodeMap entries = .ok bs → (entries.map Prod.fst).Nodup) ∧
      (∀ (keySchema valueSchema : Schema) (depth : Nat) (input : Bytes),
        Accepts (decodeMap keySchema valueSchema depth) input ↔
          ∃ entries : List (Bytes × Bytes),
            (∀ e ∈ entries, Accepts (decodeSchema keySchema (depth + 1)) e.1 ∧
              Accepts (decodeSchema valueSchema (depth + 1)) e.2) ∧
            encodeMap entries = .ok input) ∧
      ∀ (entries entries' : List (Bytes × Bytes)) (input : Bytes), encodeMap entries = .ok input →
        (encodeMap entries' = .ok input ↔ entries'.Perm entries) := by
  refine ⟨⟨?_, ?_, fun _ _ ↦ orderedFields_accepts_iff, ?_⟩, ?_, ?_,
    fun _ _ _ _ ↦ decodeMap_accepts_iff, ?_⟩
  · rw [encodeRecord_eq_encode]
    exact fun _ _ h ↦ Container.encode_congr h
  · rw [encodeRecord_eq_encode]
    exact fun _ ↦ ⟨Container.encode_eq_duplicate, fun _ ↦ Container.nodup_of_encode_eq_ok⟩
  · rw [encodeRecord_eq_encode]
    exact fun _ _ _ h ↦ Container.encode_eq_ok_iff_perm h
  · rw [encodeMap_eq_encode]
    exact fun _ _ h ↦ Container.encode_congr h
  · rw [encodeMap_eq_encode]
    exact fun _ ↦ ⟨Container.encode_eq_duplicate, fun _ ↦ Container.nodup_of_encode_eq_ok⟩
  · rw [encodeMap_eq_encode]
    exact fun _ _ _ h ↦ Container.encode_eq_ok_iff_perm h

end Sley.Scb1
