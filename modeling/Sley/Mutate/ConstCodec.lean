import Sley.Mutate.TypeCodec

/-!
# The codec of constants

The decoders of `ConstValue` and of the structs inside it in `codec.rs`, and their exactness for
the streaming encoder. A constant is a record of its type and its data, and a constant inside the
data sits three to five levels below the one around it.

**The keys of a map ascend by their encodings.** The decoder encodes every key again to compare it
with the one before, and the encoder compares keys while it measures; exactness needs that the two
orders are the same.
-/

namespace Sley.Mutate

open Scb1 Ssmc ConstEncoding
open MutationValueCodec (exact)
open Nat (add_zero zero_add)
open HostSize (size)
open Exact (nestedNode ofComponents ofRead recordNode vecNode)
open Decoder (fail fail_ne_ok read)
open UInt32 (toNat_inj)
open NodeFields (nil)

section Constants

variable [HostLayout]

/-! ### Costs -/

mutual

/-- What the decoder allocates for a constant. -/
def valueCost : ConstValue → Nat
  | ⟨type, data⟩ => typeCost type + dataCost data

def fieldCost : FieldConst → Nat
  | ⟨_, value⟩ => valueCost value

def recordConstCost : RecordConst → Nat
  | ⟨_, fields⟩ => fields.length * size FieldConst + fieldsCost fields

def variantConstCost : VariantConst → Nat
  | ⟨_, _, payload⟩ => optionCost payload

def entryCost : MapEntryConst → Nat
  | ⟨key, value⟩ => valueCost key + valueCost value

def resultConstCost : ResultConst → Nat
  | .ok value | .err value => size ConstValue + valueCost value

def dataCost : ConstData → Nat
  | .bytes value => value.length
  | .text value => (textBytes value).length
  | .sequence values => values.length * size ConstValue + valuesCost values
  | .record value => recordConstCost value
  | .variant value => variantConstCost value
  | .map entries => entries.length * size MapEntryConst + entriesCost entries
  | .option value => optionCost value
  | .result value => resultConstCost value
  | .functionRef value =>
    value.typeArguments.length * size TypeExpr + typesCost value.typeArguments
  | _ => 0

/-- A constant in a box, if there is one. -/
def optionCost : Option ConstValue → Nat
  | none => 0
  | some value => size ConstValue + valueCost value

def valuesCost : List ConstValue → Nat
  | [] => 0
  | value :: values => valueCost value + valuesCost values

def fieldsCost : List FieldConst → Nat
  | [] => 0
  | field :: fields => fieldCost field + fieldsCost fields

def entriesCost : List MapEntryConst → Nat
  | [] => 0
  | entry :: entries => entryCost entry + entriesCost entries

end

/-! ### Decoders -/

/-- The fields of a function reference at `depth`. -/
def functionRefFields (depth : Nat) : RecordFields (EntityId × List TypeExpr × Unit) :=
  namedTypeFields depth (decodeType (depth + 2))

/-- The fields of a built-in failure at `depth`. -/
def failureFields (depth : Nat) : RecordFields (BuiltinFailureKind × UInt16 × Unit) :=
  .cons 1 (fun kind ↦ encode (.uInt (kind.tag.toBitVec.setWidth 128)) (depth + 1))
    (decodeNested (depth + 1)) <|
  .cons 2 (fun code ↦ encode (.uInt (code.toBitVec.setWidth 128)) (depth + 1))
    (decodeNested (depth + 1))
  .nil

/-- The fields of a record field at `depth`, over the constants one level down. -/
def fieldConstFields (depth : Nat) (decodeValue₁ : Decoder ConstValue) :
    RecordFields (MemberId × ConstValue × Unit) :=
  .cons 1 (fun id ↦ encode (.raw id.bytes) (depth + 1)) (decodeNested (depth + 1)) <|
  .cons 2 (fun value ↦ encode (.value value) (depth + 1))
    (decodeNestedExact (depth + 1) decodeValue₁)
  .nil

/-- `FieldConst::decode_value`. -/
def decodeFieldConst (depth : Nat) (decodeValue₁ : Decoder ConstValue) : Decoder FieldConst :=
  (fun v ↦ ⟨v.1, v.2.1⟩) <$> (fieldConstFields depth decodeValue₁).decodeRecordFields depth

/-- The fields of a record constant at `depth`, over the constants three levels down. -/
def recordConstFields (depth : Nat) (decodeValue₃ : Decoder ConstValue) :
    RecordFields (EntityId × List FieldConst × Unit) :=
  .cons 1 (fun id ↦ encode (.raw id.bytes) (depth + 1)) (decodeNested (depth + 1)) <|
  .cons 2 (fun items ↦ encode (.sequence (.fields items)) (depth + 1))
    (decodeNestedExact (depth + 1) (decodeVec (size FieldConst) (depth + 1)
      (decodeFieldConst (depth + 2) decodeValue₃)))
  .nil

/-- An optional boxed constant at `depth`, over the constants one level down. -/
def decodeBoxedOption (depth : Nat) (decodeValue₁ : Decoder ConstValue) :
    Decoder (Option ConstValue) :=
  decodeOption depth (decodeBox (size ConstValue) decodeValue₁)

/-- The fields of a variant constant at `depth`, over the constants two levels down. -/
def variantConstFields (depth : Nat) (decodeValue₂ : Decoder ConstValue) :
    RecordFields (EntityId × MemberId × Option ConstValue × Unit) :=
  .cons 1 (fun id ↦ encode (.raw id.bytes) (depth + 1)) (decodeNested (depth + 1)) <|
  .cons 2 (fun id ↦ encode (.raw id.bytes) (depth + 1)) (decodeNested (depth + 1)) <|
  .cons 3 (fun payload ↦ encode (.option payload) (depth + 1))
    (decodeNestedExact (depth + 1) (decodeBoxedOption (depth + 1) decodeValue₂))
  .nil

/-- The fields of a map entry at `depth`, over the constants one level down. -/
def mapEntryFields (depth : Nat) (decodeValue₁ : Decoder ConstValue) :
    RecordFields (ConstValue × ConstValue × Unit) :=
  .cons 1 (fun value ↦ encode (.value value) (depth + 1))
    (decodeNestedExact (depth + 1) decodeValue₁) <|
  .cons 2 (fun value ↦ encode (.value value) (depth + 1))
    (decodeNestedExact (depth + 1) decodeValue₁)
  .nil

/-- `MapEntryConst::decode_value`. -/
def decodeMapEntry (depth : Nat) (decodeValue₁ : Decoder ConstValue) : Decoder MapEntryConst :=
  (fun v ↦ ⟨v.1, v.2.1⟩) <$> (mapEntryFields depth decodeValue₁).decodeRecordFields depth

/-- `decode_map_entries`: every key is encoded again and compared with the one before. -/
def decodeMapEntries (depth : Nat) (decodeValue₂ : Decoder ConstValue) :
    Decoder (List MapEntryConst) :=
  decodeList (size MapEntryConst) depth
    (admitAscending fun _ entry ↦
      encodeAtDepth (depth + 2) (fun value ↦ encode (.value value) (depth + 2)) entry.key)
    none (decodeMapEntry (depth + 1) decodeValue₂)

/-- `ResultConst::decode_value`. -/
def decodeResultConst (depth : Nat) (decodeValue₁ : Decoder ConstValue) : Decoder ResultConst :=
  decodeUnion depth fun tag payload ↦
    match tag.toNat with
    | 1 => .ok <$>
      decodeNestedExact (depth + 1) (decodeBox (size ConstValue) decodeValue₁) payload
    | 2 => .err <$>
      decodeNestedExact (depth + 1) (decodeBox (size ConstValue) decodeValue₁) payload
    | _ => fail .unionInvalid

/-- The case of `ConstData::decode_value` that a tag names. The payload sits at `depth`, and the
decoders are those of constants one to three levels below. -/
def selectData (depth : Nat) (decodeValue₁ decodeValue₂ decodeValue₃ : Decoder ConstValue)
    (tag : UInt32) (payload : Bytes) : Decoder ConstData :=
  match tag.toNat with
  | 1 => decodeEmpty .unit payload
  | 2 => .bool <$> decodeNested depth payload
  | 3 => .sInt <$> decodeNestedExact depth (i128Codec.decodeValue depth) payload
  | 4 => .uInt <$> decodeNestedExact depth (u128Codec.decodeValue depth) payload
  | 5 => .f32Bits <$> decodeNestedExact depth (read Reader.readF32Bits) payload
  | 6 => .f64Bits <$> decodeNestedExact depth (read Reader.readF64Bits) payload
  | 7 => .bytes <$> decodeNested depth payload
  | 8 => .text <$> decodeNested depth payload
  | 9 => .sequence <$>
    decodeNestedExact depth (decodeVec (size ConstValue) depth decodeValue₁) payload
  | 10 => (fun v ↦ .record ⟨v.1, v.2.1⟩) <$>
    decodeNestedExact depth ((recordConstFields depth decodeValue₃).decodeRecordFields depth)
      payload
  | 11 => (fun v ↦ .variant ⟨v.1, v.2.1, v.2.2.1⟩) <$>
    decodeNestedExact depth ((variantConstFields depth decodeValue₂).decodeRecordFields depth)
      payload
  | 12 => .map <$> decodeNestedExact depth (decodeMapEntries depth decodeValue₂) payload
  | 13 => .option <$> decodeNestedExact depth (decodeBoxedOption depth decodeValue₁) payload
  | 14 => .result <$> decodeNestedExact depth (decodeResultConst depth decodeValue₁) payload
  | 15 => (fun v ↦ .functionRef ⟨v.1, v.2.1⟩) <$>
    decodeNestedExact depth ((functionRefFields depth).decodeRecordFields depth) payload
  | 16 => (fun v ↦ .builtinFailure ⟨v.1, v.2.1⟩) <$>
    decodeNestedExact depth ((failureFields depth).decodeRecordFields depth) payload
  | _ => fail .unionInvalid

/-- The fields of a constant at `depth`. -/
def constValueFields (depth : Nat) (decodeValue₃ decodeValue₄ decodeValue₅ : Decoder ConstValue) :
    RecordFields (TypeExpr × ConstData × Unit) :=
  .cons 1 (fun t ↦ encode (.type t) (depth + 1)) (decodeNested (depth + 1)) <|
  .cons 2 (fun data ↦ encode (.data data) (depth + 1))
    (decodeNestedExact (depth + 1) (decodeUnion (depth + 1)
      (selectData (depth + 2) decodeValue₃ decodeValue₄ decodeValue₅)))
  .nil

/-- `ConstValue::decode_value`. -/
def decodeConstValue (depth : Nat) : Decoder ConstValue :=
  -- `decodeRecordFields` repeats this check; it stands here because it bounds the recursion
  if _ : depth ≥ maxNestingDepth then fail .resourceLimit
  else (fun v ↦ ⟨v.1, v.2.1⟩) <$>
    (constValueFields depth (decodeConstValue (depth + 3)) (decodeConstValue (depth + 4))
      (decodeConstValue (depth + 5))).decodeRecordFields depth
termination_by maxNestingDepth - depth

/-! ### Exactness -/

variable {depth : Nat} {dec dec₁ dec₂ dec₃ : Decoder ConstValue}

/-- The structs that hold a constant as products of their fields. -/
def ConstValue.components : ConstValue ≃ TypeExpr × ConstData × Unit :=
  ⟨fun v ↦ (v.valueType, v.data, ()), fun t ↦ ⟨t.1, t.2.1⟩, fun ⟨_, _⟩ ↦ rfl, fun _ ↦ rfl⟩

def FieldConst.components : FieldConst ≃ MemberId × ConstValue × Unit :=
  ⟨fun v ↦ (v.memberId, v.value, ()), fun t ↦ ⟨t.1, t.2.1⟩, fun ⟨_, _⟩ ↦ rfl, fun _ ↦ rfl⟩

def MapEntryConst.components : MapEntryConst ≃ ConstValue × ConstValue × Unit :=
  ⟨fun v ↦ (v.key, v.value, ()), fun t ↦ ⟨t.1, t.2.1⟩, fun ⟨_, _⟩ ↦ rfl, fun _ ↦ rfl⟩

def FunctionRefValue.components : FunctionRefValue ≃ EntityId × List TypeExpr × Unit :=
  ⟨fun v ↦ (v.function, v.typeArguments, ()), fun t ↦ ⟨t.1, t.2.1⟩, fun _ ↦ rfl, fun _ ↦ rfl⟩

/-- Constants at a depth are read back. -/
def ExactValues (depth : Nat) (dec : Decoder ConstValue) : Prop :=
  Exact (fun v ↦ encode (.value v) depth) valueCost dec

theorem exact_boxedValue (h : ExactValues depth dec) :
    Exact (fun v ↦ encode (.value v) depth) (fun v ↦ size ConstValue + valueCost v)
      (decodeBox (size ConstValue) dec) :=
  Exact.box h _

theorem exact_functionRefFields :
    Exact (fun v : EntityId × List TypeExpr × Unit ↦ encode (.functionRef ⟨v.1, v.2.1⟩) depth)
      (fun v ↦ dataCost (.functionRef ⟨v.1, v.2.1⟩))
      ((functionRefFields depth).decodeRecordFields depth) :=
  (recordNode ((nil.cons (exact_types (exact_decodeType _)).nestedNode rfl).cons
      exactOn_id rfl)
    (fun _ ↦ rfl) (fun _ ↦ rfl) (fun _ ↦ rfl) (show 2 ≤ _ by decide)).ofCost fun v ↦ by
      rw [dataCost, zero_add, add_zero]

omit [HostLayout] in
theorem exact_failureFields :
    Exact (fun v : BuiltinFailureKind × UInt16 × Unit ↦ encode (.failure ⟨v.1, v.2.1⟩) depth)
      (fun _ ↦ 0) ((failureFields depth).decodeRecordFields depth) :=
  recordNode ((nil.cons (exactOn_narrow (by decide) fun _ ↦ rfl) rfl).cons
      (exactOn_narrow (by decide) fun _ ↦ rfl) rfl)
    (fun _ ↦ rfl) (fun _ ↦ rfl) (fun _ ↦ rfl) (show 2 ≤ _ by decide)

theorem exact_fieldConst (h : ExactValues (depth + 1) dec₁) :
    Exact (fun v ↦ encode (.field v) depth) fieldCost (decodeFieldConst depth dec₁) := by
  have hfields : Exact (fun v : MemberId × ConstValue × Unit ↦ encode (.field ⟨v.1, v.2.1⟩) depth)
      (fun v ↦ fieldCost ⟨v.1, v.2.1⟩) ((fieldConstFields depth dec₁).decodeRecordFields depth) :=
    (recordNode ((nil.cons (nestedNode h) rfl).cons exactOn_id rfl)
      (fun _ ↦ rfl) (fun _ ↦ rfl) (fun _ ↦ rfl) (show 2 ≤ _ by decide)).ofCost fun v ↦ by
        rw [fieldCost, zero_add, add_zero]
  exact ofComponents FieldConst.components hfields

theorem exact_recordConst (h : ExactValues (depth + 3) dec₃) :
    Exact (fun v : EntityId × List FieldConst × Unit ↦ encode (.record ⟨v.1, v.2.1⟩) depth)
      (fun v ↦ recordConstCost ⟨v.1, v.2.1⟩)
      ((recordConstFields depth dec₃).decodeRecordFields depth) := by
  have hitems : Exact (fun items ↦ encode (.sequence (.fields items)) (depth + 1))
      (fun items ↦ items.length * size FieldConst + fieldsCost items)
      (decodeVec (size FieldConst) (depth + 1) (decodeFieldConst (depth + 2) dec₃)) :=
    (vecNode (exact_fieldConst h) .fields (fun _ ↦ rfl) (fun _ _ ↦ trivial) _).ofCost
      (listCost_eq (by rw [fieldsCost]) fun _ _ ↦ by rw [fieldsCost])
  exact (recordNode ((nil.cons hitems.nestedNode rfl).cons exactOn_id rfl)
    (fun _ ↦ rfl) (fun _ ↦ rfl) (fun _ ↦ rfl) (show 2 ≤ _ by decide)).ofCost fun v ↦ by
      rw [recordConstCost, zero_add, add_zero]

theorem exact_boxedOption (h : ExactValues (depth + 1) dec₁) :
    Exact (fun v ↦ encode (.option v) depth) optionCost (decodeBoxedOption depth dec₁) := by
  have hcost : ∀ v, optionCost v = v.elim 0 fun value ↦ size ConstValue + valueCost value := by
    intro v
    cases v with
    | none => rw [optionCost, Option.elim_none]
    | some value => rw [optionCost, Option.elim_some]
  refine (((exact_boxedValue h).option depth).congr fun {v bs} hlen ↦ ?_).ofCost hcost
  rw [encode_union rfl rfl hlen, encodeOption, encodeUnionValue_eq_ok, encodeUnionValue_eq_ok]
  cases v with
  | none => rfl
  | some value =>
    simp only [Option.map_some, Option.elim_some, encodeAtDepth_encode]
    rfl

theorem exact_variantConst (h : ExactValues (depth + 2) dec₂) :
    Exact (fun v : EntityId × MemberId × Option ConstValue × Unit ↦
        encode (.variant ⟨v.1, v.2.1, v.2.2.1⟩) depth)
      (fun v ↦ variantConstCost ⟨v.1, v.2.1, v.2.2.1⟩)
      ((variantConstFields depth dec₂).decodeRecordFields depth) :=
  (recordNode (((nil.cons (exact_boxedOption h).nestedNode rfl).cons
      exactOn_id rfl).cons exactOn_id rfl)
    (fun _ ↦ rfl) (fun _ ↦ rfl) (fun _ ↦ rfl) (show 3 ≤ _ by decide)).ofCost fun v ↦ by
      rw [variantConstCost, zero_add, zero_add, add_zero]

theorem exact_mapEntry (h : ExactValues (depth + 1) dec₁) :
    Exact (fun v ↦ encode (.entry v) depth) entryCost (decodeMapEntry depth dec₁) := by
  have hfields : Exact
      (fun v : ConstValue × ConstValue × Unit ↦ encode (.entry ⟨v.1, v.2.1⟩) depth)
      (fun v ↦ entryCost ⟨v.1, v.2.1⟩) ((mapEntryFields depth dec₁).decodeRecordFields depth) :=
    (recordNode ((nil.cons (nestedNode h) rfl).cons
        (nestedNode h) rfl)
      (fun _ ↦ rfl) (fun _ ↦ rfl) (fun _ ↦ rfl) (show 2 ≤ _ by decide)).ofCost fun v ↦ by
        rw [entryCost, add_zero]
  exact ofComponents MapEntryConst.components hfields

/-- The decoder and the encoder agree on the order of map keys. -/
theorem exact_mapEntries (h : ExactValues (depth + 2) dec₂) :
    Exact (fun entries ↦ encode (.sequence (.entries entries)) depth)
      (fun entries ↦ entries.length * size MapEntryConst + entriesCost entries)
      (decodeMapEntries depth dec₂) := by
  refine Exact.ofCost (Exact.list (exact_mapEntry h) fun {entries bs} hlen ↦ ?_)
    (listCost_eq (by rw [entriesCost]) fun _ _ ↦ by rw [entriesCost])
  rw [encode_sequence hlen]
  simp only [Sequence.nodes, List.length_map, List.forall₂_map_left_iff, Ordered,
    encodeAtDepth_encode]
  refine and_congr_right fun _ ↦ and_congr_right fun _ ↦ ?_
  -- the keys are those of the entries, whatever their payloads
  have hkeys : ∀ {ps ks : List Bytes}, entries.length = ps.length →
      (List.Forall₂ (fun (pv : Bytes × MapEntryConst) k ↦
        encodeAtDepth (depth + 2) (fun v ↦ encode (.value v) (depth + 2)) pv.2.key = .ok k)
        (ps.zip entries) ks ↔
      List.Forall₂ (fun e k ↦ encode (.value e.key) (depth + 2) = .ok k) entries ks) := by
    intro ps ks hlength
    have hsnd : (ps.zip entries).map Prod.snd = entries := List.map_snd_zip (Nat.le_of_eq hlength)
    simp only [encodeAtDepth_encode]
    conv_rhs => rw [← hsnd, List.forall₂_map_left_iff]
  constructor
  · rintro ⟨⟨ks, hks, hasc⟩, ps, hps, rfl⟩
    refine ⟨ps, hps, (admits_ascending hps.length_eq).2 ⟨ks, (hkeys hps.length_eq).2 hks, ?_⟩, rfl⟩
    exact hasc
  · rintro ⟨ps, hps, hadmits, rfl⟩
    obtain ⟨ks, hks, hasc⟩ := (admits_ascending hps.length_eq).1 hadmits
    exact ⟨⟨ks, (hkeys hps.length_eq).1 hks, hasc⟩, ps, hps, rfl⟩

theorem exact_resultConst (h : ExactValues (depth + 1) dec₁) :
    Exact (fun v ↦ encode (.result v) depth) resultConstCost (decodeResultConst depth dec₁) := by
  have hbox := (exact_boxedValue h).nestedNode
  refine Selects.unionNode (fun t p r b v r' b' ↦ ⟨fun hsel ↦ ?_, ?_⟩) (fun _ ↦ rfl) fun _ ↦ rfl
  · split at hsel
    · rename_i ht
      obtain ⟨a, rfl, hp⟩ := hbox.map_eq_ok.1 hsel
      exact ⟨toNat_inj.1 ht.symm, hp⟩
    · rename_i ht
      obtain ⟨a, rfl, hp⟩ := hbox.map_eq_ok.1 hsel
      exact ⟨toNat_inj.1 ht.symm, hp⟩
    · exact absurd hsel fail_ne_ok
  · rintro ⟨rfl, hv⟩
    cases v with
    | ok => exact hbox.map_eq_ok.2 ⟨_, rfl, hv⟩
    | err => exact hbox.map_eq_ok.2 ⟨_, rfl, hv⟩

/-- The case a tag names reads exactly the data with that tag. -/
theorem selectData_selects (h₁ : ExactValues (depth + 1) dec₁) (h₂ : ExactValues (depth + 2) dec₂)
    (h₃ : ExactValues (depth + 3) dec₃) :
    Selects ConstData.tag (fun d ↦ (dataPayload d).elim (.ok []) (encode · depth)) dataCost
      (selectData depth dec₁ dec₂ dec₃) := by
  have hbool : ExactOn (fun v ↦ encode (.bool v) depth) (fun _ ↦ 0) (decodeNested depth) :=
    (exact depth).atomNode (fun _ ↦ rfl) (fun _ ↦ rfl) fun _ ↦ rfl
  have hsint : ExactOn (fun v ↦ encode (.sInt v) depth) (fun _ ↦ 0)
      (decodeNestedExact depth (i128Codec.decodeValue depth)) :=
    (i128Codec.exact depth).atomNode (fun _ ↦ rfl) (fun _ ↦ rfl) fun _ ↦ rfl
  have huint : ExactOn (fun v ↦ encode (.uInt v) depth) (fun _ ↦ 0)
      (decodeNestedExact depth (u128Codec.decodeValue depth)) :=
    (u128Codec.exact depth).atomNode (fun _ ↦ rfl) (fun _ ↦ rfl) fun _ ↦ rfl
  have hf32 : ExactOn (fun v ↦ encode (.f32 v) depth) (fun _ ↦ 0)
      (decodeNestedExact depth (read Reader.readF32Bits)) :=
    (ofRead Reader.readF32Bits_eq_ok).scalarNode (fun _ ↦ rfl) (by
      intro v bs
      simp [Node.frame, Except.map_eq_ok])
  have hf64 : ExactOn (fun v ↦ encode (.f64 v) depth) (fun _ ↦ 0)
      (decodeNestedExact depth (read Reader.readF64Bits)) :=
    (ofRead Reader.readF64Bits_eq_ok).scalarNode (fun _ ↦ rfl) (by
      intro v bs
      simp [Node.frame, Except.map_eq_ok])
  have hpayload : ∀ {v bs : Bytes}, encodeBytes v = .ok bs ↔
      ∃ l, (Node.bytes v).frame = .ok l ∧ (l = .atom bs ∨ ∃ p, l = .bytes p ∧ bs = sizedBytes p) := by
    intro v bs
    rw [encodeBytes_eq_ok]
    simp [Node.frame, Except.map_eq_ok]
  have hbytes : ExactOn (fun v ↦ encode (.bytes v) depth) List.length (decodeNested depth) :=
    (exact depth).scalarNode (fun _ ↦ rfl) hpayload
  have htext : ExactOn (fun v ↦ encode (.bytes (textBytes v)) depth)
      (fun v ↦ (textBytes v).length) (decodeNested depth) :=
    (exact depth).scalarNode (fun _ ↦ rfl) hpayload
  have hvalues : ExactOn (fun items ↦ encode (.sequence (.values items)) depth)
      (fun items ↦ dataCost (.sequence items))
      (decodeNestedExact depth (decodeVec (size ConstValue) depth dec₁)) :=
    ((vecNode h₁ .values (fun _ ↦ rfl) (fun _ _ ↦ trivial) _).ofCost fun items ↦ by
      rw [dataCost, listCost_eq (by rw [valuesCost]) fun _ _ ↦ by rw [valuesCost]]).nestedNode
  have hrecord := (exact_recordConst h₃).nestedNode
  have hvariant := (exact_variantConst h₂).nestedNode
  have hmap := (exact_mapEntries h₂).nestedNode
  have hoption := (exact_boxedOption h₁).nestedNode
  have hresult := (exact_resultConst h₁).nestedNode
  have hfunction := (@exact_functionRefFields _ depth).nestedNode
  have hfailure := (@exact_failureFields depth).nestedNode
  intro t p r b v r' b'
  constructor
  · intro hsel
    unfold selectData at hsel
    split at hsel
    all_goals rename_i ht
    · obtain ⟨rfl, hp⟩ := decodeEmpty_eq_ok.1 hsel
      exact ⟨toNat_inj.1 ht.symm, hp⟩
    · obtain ⟨a, rfl, hp⟩ := hbool.map_eq_ok.1 hsel
      exact ⟨toNat_inj.1 ht.symm, hp⟩
    · obtain ⟨a, rfl, hp⟩ := hsint.map_eq_ok.1 hsel
      exact ⟨toNat_inj.1 ht.symm, hp⟩
    · obtain ⟨a, rfl, hp⟩ := huint.map_eq_ok.1 hsel
      exact ⟨toNat_inj.1 ht.symm, hp⟩
    · obtain ⟨a, rfl, hp⟩ := hf32.map_eq_ok.1 hsel
      exact ⟨toNat_inj.1 ht.symm, hp⟩
    · obtain ⟨a, rfl, hp⟩ := hf64.map_eq_ok.1 hsel
      exact ⟨toNat_inj.1 ht.symm, hp⟩
    · obtain ⟨a, rfl, hp⟩ := hbytes.map_eq_ok.1 hsel
      exact ⟨toNat_inj.1 ht.symm, hp⟩
    · obtain ⟨a, rfl, hp⟩ := htext.map_eq_ok.1 hsel
      exact ⟨toNat_inj.1 ht.symm, hp⟩
    · obtain ⟨a, rfl, hp⟩ := hvalues.map_eq_ok.1 hsel
      exact ⟨toNat_inj.1 ht.symm, hp⟩
    · obtain ⟨a, rfl, hp⟩ := hrecord.map_eq_ok.1 hsel
      exact ⟨toNat_inj.1 ht.symm, hp⟩
    · obtain ⟨a, rfl, hp⟩ := hvariant.map_eq_ok.1 hsel
      exact ⟨toNat_inj.1 ht.symm, hp⟩
    · obtain ⟨a, rfl, hp⟩ := hmap.map_eq_ok.1 hsel
      exact ⟨toNat_inj.1 ht.symm, hp⟩
    · obtain ⟨a, rfl, hp⟩ := hoption.map_eq_ok.1 hsel
      exact ⟨toNat_inj.1 ht.symm, hp⟩
    · obtain ⟨a, rfl, hp⟩ := hresult.map_eq_ok.1 hsel
      exact ⟨toNat_inj.1 ht.symm, hp⟩
    · obtain ⟨a, rfl, hp⟩ := hfunction.map_eq_ok.1 hsel
      exact ⟨toNat_inj.1 ht.symm, hp⟩
    · obtain ⟨a, rfl, hp⟩ := hfailure.map_eq_ok.1 hsel
      exact ⟨toNat_inj.1 ht.symm, hp⟩
    · exact absurd hsel fail_ne_ok
  · rintro ⟨rfl, hv⟩
    cases v with
    | unit => exact decodeEmpty_eq_ok.2 ⟨rfl, hv⟩
    | bool => exact hbool.map_eq_ok.2 ⟨_, rfl, hv⟩
    | sInt => exact hsint.map_eq_ok.2 ⟨_, rfl, hv⟩
    | uInt => exact huint.map_eq_ok.2 ⟨_, rfl, hv⟩
    | f32Bits => exact hf32.map_eq_ok.2 ⟨_, rfl, hv⟩
    | f64Bits => exact hf64.map_eq_ok.2 ⟨_, rfl, hv⟩
    | bytes => exact hbytes.map_eq_ok.2 ⟨_, rfl, hv⟩
    | text => exact htext.map_eq_ok.2 ⟨_, rfl, hv⟩
    | sequence => exact hvalues.map_eq_ok.2 ⟨_, rfl, hv⟩
    | record value =>
      obtain ⟨definition, fields⟩ := value
      exact hrecord.map_eq_ok.2 ⟨(definition, fields, ()), rfl, hv⟩
    | variant value =>
      obtain ⟨definition, memberId, payload⟩ := value
      exact hvariant.map_eq_ok.2 ⟨(definition, memberId, payload, ()), rfl, hv⟩
    | map => exact hmap.map_eq_ok.2 ⟨_, rfl, hv⟩
    | option => exact hoption.map_eq_ok.2 ⟨_, rfl, hv⟩
    | result => exact hresult.map_eq_ok.2 ⟨_, rfl, hv⟩
    | functionRef => exact hfunction.map_eq_ok.2 ⟨(_, _, ()), rfl, hv⟩
    | builtinFailure => exact hfailure.map_eq_ok.2 ⟨(_, _, ()), rfl, hv⟩

/-- **Constants are read back at every depth.** -/
theorem exact_decodeConstValue (depth : Nat) : ExactValues depth (decodeConstValue depth) := by
  induction depth using depthInduction with
  | deep d hdeep =>
    rw [decodeConstValue, dif_pos (Nat.le_of_lt hdeep)]
    exact exact_refused (fun _ ↦ rfl) (Nat.le_of_lt hdeep)
  | step d _ ih =>
    rw [decodeConstValue]
    split
    · rename_i hdepth
      exact exact_refused (fun _ ↦ rfl) hdepth
    · have hdata : Exact (fun v ↦ encode (.data v) (d + 1)) dataCost _ :=
        (selectData_selects (ih (d + 3) (by omega)) (ih (d + 4) (by omega))
          (ih (d + 5) (by omega))).unionNode (fun _ ↦ rfl) fun _ ↦ rfl
      have hfields : Exact
          (fun v : TypeExpr × ConstData × Unit ↦ encode (.value ⟨v.1, v.2.1⟩) d)
          (fun v ↦ valueCost ⟨v.1, v.2.1⟩)
          ((constValueFields d (decodeConstValue (d + 3)) (decodeConstValue (d + 4))
            (decodeConstValue (d + 5))).decodeRecordFields d) :=
        (recordNode ((nil.cons hdata.nestedNode rfl).cons
            (exact_decodeType (d + 1)).nestedNode rfl)
          (fun _ ↦ rfl) (fun _ ↦ rfl) (fun _ ↦ rfl) (show 2 ≤ _ by decide)).ofCost fun v ↦ by
            rw [valueCost, add_zero]
      exact ofComponents ConstValue.components hfields

instance : MutationValueCodec ConstValue where
  encodeValue depth v := encode (.value v) depth
  decodeValue := decodeConstValue
  cost := valueCost
  exact := exact_decodeConstValue

instance : MutationValueCodec ResultConst where
  encodeValue depth v := encode (.result v) depth
  decodeValue depth := decodeResultConst depth (decodeConstValue (depth + 1))
  cost := resultConstCost
  exact depth := exact_resultConst (exact_decodeConstValue (depth + 1))

instance : MutationValueCodec FunctionRefValue where
  encodeValue depth v := encode (.functionRef v) depth
  decodeValue depth := (fun v ↦ ⟨v.1, v.2.1⟩) <$>
    (functionRefFields depth).decodeRecordFields depth
  cost v := dataCost (.functionRef v)
  exact _ := ofComponents FunctionRefValue.components exact_functionRefFields

end Constants

end Sley.Mutate
