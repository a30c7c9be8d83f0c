import Sley.Mutate.ConstBridge

/-!
# The plain recursive encoding of types and constants

What the streaming encoder is for, said without it: a type is a union of its tag and what it is
made of, a constant a record of its type and its data, and everything is written by `encode_record`,
`encode_list` and `encode_union` from the bytes of its parts. There is no depth, no length computed
in advance and no stack here.

**The streaming encoder refines this one** (`streaming_refines_plain`): on every constant that its
canonical measurement accepts, measuring, draining and comparing agree with the plain bytes, and no
state that the cursor reaches refuses to go on.
-/

namespace Sley.Mutate.ConstEncoding

open Scb1 Ssmc

/-! ### The plain encoding -/

/-- A union of a tag and a payload still to be written. -/
def unionOf (tag : UInt32) (payload : Result Bytes) : Result Bytes := do
  encodeUnion tag (← payload)

/-- Each part in turn. -/
def eachOf : List (Result Bytes) → Result (List Bytes)
  | [] => return []
  | part :: parts => do
    let first ← part
    let rest ← eachOf parts
    return first :: rest

/-- A record of up to three fields, numbered in their order. -/
def recordOf (fields : List (Result Bytes)) : Result Bytes := do
  encodeRecord ([1, 2, 3].zip (← eachOf fields))

def listOf (items : List (Result Bytes)) : Result Bytes := do
  encodeList (← eachOf items)

def plainId {kind : IdKind} (id : Id kind) : Result Bytes := .ok id.bytes

mutual

def plainType : TypeExpr → Result Bytes
  | .unit => encodeUnion 1 []
  | .bool => encodeUnion 2 []
  | .sInt width => encodeUnion 3 (encodeUvar128 (width.bits.toBitVec.setWidth 128))
  | .uInt width => encodeUnion 4 (encodeUvar128 (width.bits.toBitVec.setWidth 128))
  | .f32 => encodeUnion 5 []
  | .f64 => encodeUnion 6 []
  | .bytes => encodeUnion 7 []
  | .text => encodeUnion 8 []
  | .tuple items => unionOf 9 (listOf (plainTypes items))
  | .named definition arguments =>
    unionOf 10 (recordOf [plainId definition, listOf (plainTypes arguments)])
  | .vector element => unionOf 11 (plainType element)
  | .orderedMap key value => unionOf 12 (recordOf [plainType key, plainType value])
  | .option element => unionOf 13 (plainType element)
  | .result ok error => unionOf 14 (recordOf [plainType ok, plainType error])
  | .functionRef parameters result effects =>
    unionOf 15
      (recordOf [listOf (plainTypes parameters), plainType result, listOf (effects.map plainId)])
  | .adapterHandle adapter => unionOf 16 (plainId adapter)
  | .capabilityToken effect => unionOf 17 (plainId effect)
  | .localCell element => unionOf 18 (plainType element)
  | .typeParameter ordinal => encodeUnion 19 (encodeUvar128 (ordinal.toBitVec.setWidth 128))
  | .builtinFailure kind => encodeUnion 20 (encodeUvar128 (kind.tag.toBitVec.setWidth 128))

def plainTypes : List TypeExpr → List (Result Bytes)
  | [] => []
  | item :: items => plainType item :: plainTypes items

end

def plainFunctionRef (value : FunctionRefValue) : Result Bytes :=
  recordOf [plainId value.function, listOf (plainTypes value.typeArguments)]

def plainFailure (value : BuiltinFailureValue) : Result Bytes :=
  recordOf [.ok (encodeUvar128 (value.kind.tag.toBitVec.setWidth 128)),
    .ok (encodeUvar128 (value.code.toBitVec.setWidth 128))]

mutual

def plainValue : ConstValue → Result Bytes
  | ⟨valueType, data⟩ => recordOf [plainType valueType, plainData data]

def plainData : ConstData → Result Bytes
  | .unit => encodeUnion 1 []
  | .bool value => encodeUnion 2 (encodeBool value)
  | .sInt value => encodeUnion 3 (encodeSint128 value)
  | .uInt value => encodeUnion 4 (encodeUvar128 value)
  | .f32Bits bits => unionOf 5 (encodeF32Bits bits)
  | .f64Bits bits => unionOf 6 (encodeF64Bits bits)
  | .bytes value => unionOf 7 (encodeBytes value)
  | .text value => unionOf 8 (encodeText value)
  | .sequence values => unionOf 9 (listOf (plainValues values))
  | .record ⟨definition, fields⟩ =>
    unionOf 10 (recordOf [plainId definition, listOf (plainFields fields)])
  | .variant ⟨definition, memberId, none⟩ =>
    unionOf 11 (recordOf [plainId definition, .ok memberId.bytes, encodeUnion 0 []])
  | .variant ⟨definition, memberId, some payload⟩ =>
    unionOf 11
      (recordOf [plainId definition, .ok memberId.bytes, unionOf 1 (plainValue payload)])
  | .map entries => unionOf 12 (listOf (plainEntries entries))
  | .option none => unionOf 13 (encodeUnion 0 [])
  | .option (some value) => unionOf 13 (unionOf 1 (plainValue value))
  | .result (.ok value) => unionOf 14 (unionOf 1 (plainValue value))
  | .result (.err value) => unionOf 14 (unionOf 2 (plainValue value))
  | .functionRef value => unionOf 15 (plainFunctionRef value)
  | .builtinFailure value => unionOf 16 (plainFailure value)

def plainValues : List ConstValue → List (Result Bytes)
  | [] => []
  | value :: values => plainValue value :: plainValues values

def plainFields : List FieldConst → List (Result Bytes)
  | [] => []
  | ⟨memberId, value⟩ :: fields =>
    recordOf [.ok memberId.bytes, plainValue value] :: plainFields fields

def plainEntries : List MapEntryConst → List (Result Bytes)
  | [] => []
  | ⟨key, value⟩ :: entries =>
    recordOf [plainValue key, plainValue value] :: plainEntries entries

end

/-! ### The plain bytes of every node -/

def plainOption : Option ConstValue → Result Bytes
  | none => encodeUnion 0 []
  | some value => unionOf 1 (plainValue value)

def plainResult (value : ResultConst) : Result Bytes :=
  unionOf value.tag (plainValue (resultPayload value))

def plainField (field : FieldConst) : Result Bytes :=
  recordOf [.ok field.memberId.bytes, plainValue field.value]

def plainEntry (entry : MapEntryConst) : Result Bytes :=
  recordOf [plainValue entry.key, plainValue entry.value]

def plainSequence : Sequence → List (Result Bytes)
  | .types items => plainTypes items
  | .values items => plainValues items
  | .fields items => plainFields items
  | .entries items => plainEntries items
  | .ids items => items.map plainId

def plain : Node → Result Bytes
  | .value value => plainValue value
  | .data data => plainData data
  | .type type => plainType type
  | .named definition arguments => recordOf [plainId definition, listOf (plainTypes arguments)]
  | .function parameters output effects =>
    recordOf [listOf (plainTypes parameters), plainType output, listOf (effects.map plainId)]
  | .functionRef value => plainFunctionRef value
  | .failure value => plainFailure value
  | .field field => plainField field
  | .record record => recordOf [plainId record.definition, listOf (plainFields record.fields)]
  | .variant variant =>
    recordOf [plainId variant.definition, .ok variant.memberId.bytes, plainOption variant.payload]
  | .entry entry => plainEntry entry
  | .result result => plainResult result
  | .typePair first second => recordOf [plainType first, plainType second]
  | .option value => plainOption value
  | .sequence values => listOf (plainSequence values)
  | .uInt value => .ok (encodeUvar128 value)
  | .sInt value => .ok (encodeSint128 value)
  | .bool value => .ok (encodeBool value)
  | .f32 bits => encodeF32Bits bits
  | .f64 bits => encodeF64Bits bits
  | .raw bytes => .ok bytes
  | .bytes bytes => encodeBytes bytes

/-- The plain bytes of a layout, from those of its children. -/
def plainLayout (child : Node → Result Bytes) : Layout → Result Bytes
  | .atom chunk => .ok chunk
  | .bytes bytes => encodeSized bytes
  | .union tag none => encodeUnion tag []
  | .union tag (some node) => unionOf tag (child node)
  | .record fields => recordOf (fields.map child)
  | .list values => listOf (values.nodes.map child)

theorem plainSequence_eq (values : Sequence) : plainSequence values = values.nodes.map plain := by
  cases values with
  | types items => induction items with
    | nil => rfl
    | cons item items ih => exact congrArg (plainType item :: ·) ih
  | values items => induction items with
    | nil => rfl
    | cons item items ih => exact congrArg (plainValue item :: ·) ih
  | fields items => induction items with
    | nil => rfl
    | cons item items ih =>
      obtain ⟨memberId, value⟩ := item
      exact congrArg (plainField ⟨memberId, value⟩ :: ·) ih
  | entries items => induction items with
    | nil => rfl
    | cons item items ih =>
      obtain ⟨key, value⟩ := item
      exact congrArg (plainEntry ⟨key, value⟩ :: ·) ih
  | ids items => rw [plainSequence, Sequence.nodes, List.map_map]; rfl

/-- **The schema of the streaming encoder is the plain recursion, one step at a time.** -/
theorem plain_eq (node : Node) : plain node = node.frame >>= plainLayout plain := by
  cases node with
  | value v =>
    obtain ⟨valueType, data⟩ := v
    rfl
  | data d =>
    rcases d with _ | _ | _ | _ | _ | _ | _ | _ | _ | ⟨_, _⟩ | ⟨_, _, _ | _⟩ | _ | (_ | _) |
      (_ | _) | _ | _ <;> rfl
  | type t => cases t <;> rfl
  | sequence values => exact congrArg listOf (plainSequence_eq values)
  | option value => cases value <;> rfl
  | f32 bits => rw [plain, Node.frame, bind_assoc]; exact (bind_pure _).symm
  | f64 bits => rw [plain, Node.frame, bind_assoc]; exact (bind_pure _).symm
  | bytes bytes => rw [plain, Node.frame, bind_assoc]; rfl
  | _ => rfl

/-! ### Wire bytes are plain bytes -/

variable {ps : List Bytes}

theorem eachOf_eq_ok {plain : Node → Result Bytes} {W : Node → Bytes → Prop}
    (h : ∀ node p, W node p → plain node = .ok p) {nodes : List Node}
    (hps : List.Forall₂ W nodes ps) : eachOf (nodes.map plain) = .ok ps := by
  induction hps with
  | nil => rfl
  | cons hp _ ih => rw [List.map_cons, eachOf, h _ _ hp, Except.ok_bind, ih]; rfl

/-- The records of the schema have at most three fields. -/
theorem length_record_le {node : Node} {fields : List Node} (h : node.frame = .ok (.record fields)) :
    fields.length ≤ 3 := by
  cases node <;> simp only [Node.frame, Except.ok.injEq, Layout.record.injEq, reduceCtorEq,
    Except.bind_eq_ok, Except.pure_eq_ok, and_false, exists_false] at h
  all_goals
    subst h
    simp

theorem encodeRecord_zip (tags : List UInt32) (hsorted : tags.Pairwise (· < ·))
    (htags : tags.map UInt32.toNat = List.range' 1 ps.length) (hcount : ps.length ≤ 3)
    (hle : ∀ p ∈ ps, p.length ≤ maxStandaloneBytes) :
    encodeRecord (tags.zip ps) = .ok (Leb128.encode ps.length ++ fieldBytes 0 ps) := by
  have hlen : tags.length = ps.length := by
    have := congrArg List.length htags
    rwa [List.length_map, List.length_range'] at this
  have hfst : (tags.zip ps).map Prod.fst = tags := List.map_fst_zip hlen.le
  have hzip : (tags.zip ps).length = ps.length := by rw [List.length_zip, hlen, Nat.min_self]
  refine (encodeRecord_eq_ok (by rwa [hfst])).2 ⟨?_, fun f hf ↦ ?_, ?_⟩
  · rw [hzip]
    exact hcount.trans (by decide)
  · exact hle _ (List.of_mem_zip hf).2
  · rw [hzip, fieldBytes_eq htags]

theorem encodeRecord_numbered (hcount : ps.length ≤ 3)
    (hle : ∀ p ∈ ps, p.length ≤ maxStandaloneBytes) :
    encodeRecord ([1, 2, 3].zip ps) = .ok (Leb128.encode ps.length ++ fieldBytes 0 ps) := by
  rcases ps with _ | ⟨a, _ | ⟨b, _ | ⟨c, _ | ⟨d, ps⟩⟩⟩⟩
  · exact encodeRecord_zip [] (by decide) rfl hcount hle
  · exact encodeRecord_zip [1] (by decide) rfl hcount hle
  · exact encodeRecord_zip [1, 2] (by decide) rfl hcount hle
  · exact encodeRecord_zip [1, 2, 3] (by decide) rfl hcount hle
  · simp only [List.length_cons] at hcount
    omega

/-- The parts of a container are within the standalone limit. -/
theorem length_le_of_forall₂ {canonical : Bool} {depth : Nat} {nodes : List Node}
    (hps : List.Forall₂ (Wire canonical depth) nodes ps) :
    ∀ p ∈ ps, p.length ≤ maxStandaloneBytes := by
  induction hps with
  | nil => simp
  | cons hp _ ih => exact List.forall_mem_cons.2 ⟨hp.length_le, ih⟩

/-- **What the streaming encoder emits for a node are its plain bytes**, at every depth. -/
theorem Wire.plain_eq {canonical : Bool} {depth : Nat} {node : Node} {bs : Bytes}
    (h : Wire canonical depth node bs) : plain node = .ok bs := by
  induction depth using depthInduction generalizing node bs with
  | deep d hdeep => exact absurd h.depth_le (Nat.not_le.2 hdeep)
  | step d _ ih =>
    obtain ⟨hlen, l, hl, hwire⟩ := wire_iff.1 h
    have hchild : ∀ node p, Wire canonical (d + 1) node p → plain node = .ok p :=
      fun _ _ ↦ ih (d + 1) (Nat.lt_succ_self d)
    have hframe := (layout_eq_ok.1 hl).2.2
    rw [ConstEncoding.plain_eq, hframe, Except.ok_bind]
    cases l with
    | atom chunk => exact congrArg _ (Eq.symm hwire)
    | bytes bytes =>
      obtain rfl : bs = sizedBytes bytes := hwire
      rw [sizedBytes, List.length_append] at hlen
      exact encodeSized_eq_ok.2 ⟨by omega, rfl⟩
    | union tag payload =>
      cases payload with
      | none => exact encodeUnion_eq_ok.2 ⟨Nat.zero_le _, hwire⟩
      | some child =>
        obtain ⟨p, hp, rfl⟩ := hwire
        rw [plainLayout, unionOf, hchild _ _ hp, Except.ok_bind]
        exact encodeUnion_eq_ok.2 ⟨hp.length_le, rfl⟩
    | record fields =>
      obtain ⟨ps, hps, rfl⟩ := hwire
      have hcount := length_record_le hframe
      rw [plainLayout, recordOf, eachOf_eq_ok hchild hps, Except.ok_bind, hps.length_eq]
      exact encodeRecord_numbered (hps.length_eq ▸ hcount) (length_le_of_forall₂ hps)
    | list values =>
      obtain ⟨hcount, -, ps, hps, rfl⟩ := hwire
      rw [plainLayout, listOf, eachOf_eq_ok hchild hps, Except.ok_bind, hps.length_eq]
      exact encodeList_eq_ok.2 ⟨hps.length_eq ▸ hcount, length_le_of_forall₂ hps, rfl⟩

/-! ### Runs of the cursor -/

/-- The states a cursor goes through. -/
inductive Reaches : WireCursor → WireCursor → Prop
  | refl (s : WireCursor) : Reaches s s
  | next {s s₁ s' : WireCursor} {chunk : Bytes} (h : WireCursor.next s = .ok (some (chunk, s₁)))
    (hrest : Reaches s₁ s') : Reaches s s'

/-- A cursor that emits its chunks to the end never refuses on the way. -/
theorem Emits.next_ok_of_reaches {s s' : WireCursor} {cs : List Bytes} (h : Emits s cs [])
    (hreaches : Reaches s s') : ∃ r, WireCursor.next s' = .ok r := by
  induction hreaches generalizing cs with
  | refl s =>
    cases h with
    | done h => exact ⟨_, h⟩
    | step h _ => exact ⟨_, h⟩
  | next hnext _ ih =>
    cases h with
    | done h =>
      rw [hnext] at h
      cases h
    | step h hrest =>
      obtain ⟨-, rfl⟩ := Prod.mk.inj (Option.some.inj (Except.ok.inj (hnext.symm.trans h)))
      exact ih hrest

/-- **Streaming refines the plain encoding.** For every constant that the canonical measurement
accepts at a depth, the measured length is that of the plain bytes, the cursor drains to them, every
state the cursor reaches goes on, and two such constants compare as their plain bytes do. -/
theorem streaming_refines_plain {value : ConstValue} {depth n : Nat}
    (h : measure (.value value) depth = .ok n) :
    ∃ bs, plainValue value = .ok bs ∧ n = bs.length ∧
      encode (.value value) depth = .ok bs ∧
      (∀ fuel, 2 * n + 2 ≤ fuel →
        WireCursor.drain fuel [.node (.value value) depth] [] = .ok bs) ∧
      (∀ s, Reaches [.node (.value value) depth] s → ∃ r, WireCursor.next s = .ok r) ∧
      ∀ {other : ConstValue} {m : Nat}, measure (.value other) depth = .ok m →
        ∃ bs', plainValue other = .ok bs' ∧
          compareValidated (.value value) (.value other) depth = .ok (compare bs bs') := by
  obtain ⟨bs, hwire, rfl⟩ := measure_eq_ok.1 h
  refine ⟨bs, hwire.plain_eq, rfl, encode_eq_ok.2 hwire, fun _ ↦ hwire.drain_eq, ?_, ?_⟩
  · intro s hs
    obtain ⟨cs, hcs, -⟩ := hwire.emits
    exact hcs.next_ok_of_reaches hs
  · intro other m hother
    obtain ⟨bs', hwire', -⟩ := measure_eq_ok.1 hother
    exact ⟨bs', hwire'.plain_eq, compares_compareValidated depth hwire hwire'⟩

theorem streaming_refines_plain_true :
    ∃ bs, plainValue ⟨.bool, .bool true⟩ = .ok bs ∧ 10 = bs.length ∧
      encode (.value ⟨.bool, .bool true⟩) 0 = .ok bs ∧
      ∃ bs', plainValue ⟨.bool, .bool false⟩ = .ok bs' ∧
        compareValidated (.value ⟨.bool, .bool true⟩) (.value ⟨.bool, .bool false⟩) 0 =
          .ok (compare bs bs') := by
  have htrue : measure (.value ⟨.bool, .bool true⟩) 0 = .ok 10 := by with_unfolding_all decide
  have hfalse : measure (.value ⟨.bool, .bool false⟩) 0 = .ok 10 := by with_unfolding_all decide
  obtain ⟨bs, hplain, hlen, hencode, -, -, hcompare⟩ := streaming_refines_plain htrue
  exact ⟨bs, hplain, hlen, hencode, hcompare hfalse⟩

end Sley.Mutate.ConstEncoding
