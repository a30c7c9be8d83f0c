import Sley.Mutate.ConstBridge

/-!
# The codec of types

The decoder of `TypeExpr` in `codec.rs`, and its exactness for the streaming encoder. The decoder is
written over the decoders of its components at the depths below, and tied together by recursion on
the depth, which the nesting limit bounds; **exactness follows the same recursion**, from the
deepest level up.

The sizes the decoders charge for list slots and boxes are the host's, taken as parameters.
-/

namespace Sley.Mutate

open Scb1 Ssmc ConstEncoding
open HostSize (size)
open UInt32 (toNat_inj)

/-- The host's `size_of` for every type that is stored in a list slot or a box. -/
class HostLayout where
  typeExpr : Nat
  constValue : Nat
  fieldConst : Nat
  mapEntryConst : Nat
  entityId : Nat
  valueRef : Nat
  switchArgument : Nat
  switchCase : Nat
  typeParameterDef : Nat
  recordField : Nat
  variantCase : Nat
  contractBinding : Nat
  replayBinding : Nat
  adapterConfig : Nat
  expectedObservation : Nat

instance [HostLayout] : HostSize TypeExpr := ⟨HostLayout.typeExpr⟩
instance [HostLayout] : HostSize ConstValue := ⟨HostLayout.constValue⟩
instance [HostLayout] : HostSize FieldConst := ⟨HostLayout.fieldConst⟩
instance [HostLayout] : HostSize MapEntryConst := ⟨HostLayout.mapEntryConst⟩
instance [HostLayout] : HostSize EntityId := ⟨HostLayout.entityId⟩

/-! ### Scalars of types -/

instance : MutationValueCodec IntegerWidth :=
  scalarCodec (fun w ↦ encodeU16 w.bits) (IntegerWidth.mk <$> decodeU16) <| by
    intro r r' v
    rw [map_eq_pure_bind, StateT.run_bind_eq_ok]
    simp only [StateT.run_pure_eq_ok, decodeU16_eq_ok]
    constructor
    · rintro ⟨_, _, hcons, rfl, rfl⟩
      exact hcons
    · intro hcons
      exact ⟨v.bits, r', hcons, rfl, rfl⟩

def BuiltinFailureKind.fromTag (tag : Nat) : Option BuiltinFailureKind :=
  match tag with
  | 1 => some .arithmetic
  | 2 => some .index
  | 3 => some .duplicateKey
  | 4 => some .contractViolation
  | 5 => some .capability
  | _ => none

theorem BuiltinFailureKind.fromTag_eq_some {t : UInt16} {v : BuiltinFailureKind} :
    fromTag t.toNat = some v ↔ v.tag = t := by
  constructor
  · intro h
    unfold fromTag at h
    split at h
    all_goals first
      | obtain rfl := Option.some.inj h
        exact UInt16.toNat_inj.1 (Eq.symm ‹_›)
      | cases h
  · rintro rfl
    cases v <;> rfl

instance : MutationValueCodec BuiltinFailureKind :=
  scalarCodec (fun v ↦ encodeU16 v.tag)
    (do
      let tag ← decodeU16
      StateT.ofExcept (Except.ofOption .unionInvalid (BuiltinFailureKind.fromTag tag.toNat))) <| by
    intro r r' v
    simp only [StateT.run_bind_eq_ok, StateT.run_ofExcept_eq_ok, Except.ofOption_eq_ok,
      decodeU16_eq_ok, BuiltinFailureKind.fromTag_eq_some]
    constructor
    · rintro ⟨_, _, hcons, rfl, rfl⟩
      exact hcons
    · intro hcons
      exact ⟨_, _, hcons, rfl, rfl⟩

/-! ### Types -/

section Types

variable [HostLayout]

mutual

/-- What the decoder allocates for a type. -/
def typeCost : TypeExpr → Nat
  | .tuple items => items.length * size TypeExpr + typesCost items
  | .named _ arguments => arguments.length * size TypeExpr + typesCost arguments
  | .vector element | .option element | .localCell element =>
    size TypeExpr + typeCost element
  | .orderedMap key value =>
    size TypeExpr + typeCost key + (size TypeExpr + typeCost value)
  | .result ok error =>
    size TypeExpr + typeCost ok + (size TypeExpr + typeCost error)
  | .functionRef parameters result effects =>
    parameters.length * size TypeExpr + typesCost parameters +
      (size TypeExpr + typeCost result + effects.length * size EntityId)
  | _ => 0

def typesCost : List TypeExpr → Nat
  | [] => 0
  | item :: items => typeCost item + typesCost items

end

theorem typesCost_eq (items : List TypeExpr) : items.length * size TypeExpr + typesCost items =
      listCost (size TypeExpr) typeCost items :=
  listCost_eq (by rw [typesCost]) (fun _ _ ↦ by rw [typesCost]) items

/-- `decode_entity_id_set_vec`: identities in strictly ascending order of their payloads. -/
def decodeEntityIdSetVec (depth : Nat) : Decoder (List EntityId) :=
  decodeList (size EntityId) depth (admitAscending fun payload _ ↦ .ok payload) none
    (decodeValue (depth + 1))

/-- The fields of a named type at `depth`, over the types two levels down. -/
def namedTypeFields (depth : Nat) (decodeType₂ : Decoder TypeExpr) :
    RecordFields (EntityId × List TypeExpr × Unit) :=
  .cons 1 (fun id ↦ encode (.raw id.bytes) (depth + 1)) (decodeNested (depth + 1)) <|
  .cons 2 (fun items ↦ encode (.sequence (.types items)) (depth + 1))
    (decodeNestedExact (depth + 1) (decodeVec (size TypeExpr) (depth + 1) decodeType₂))
  .nil

/-- The fields of a map type or a result type at `depth`, over the types one level down. -/
def typePairFields (depth : Nat) (decodeType₁ : Decoder TypeExpr) :
    RecordFields (TypeExpr × TypeExpr × Unit) :=
  .cons 1 (fun t ↦ encode (.type t) (depth + 1))
    (decodeNestedExact (depth + 1) (decodeBox (size TypeExpr) decodeType₁)) <|
  .cons 2 (fun t ↦ encode (.type t) (depth + 1))
    (decodeNestedExact (depth + 1) (decodeBox (size TypeExpr) decodeType₁))
  .nil

/-- The fields of a function type at `depth`. -/
def functionTypeFields (depth : Nat) (decodeType₁ decodeType₂ : Decoder TypeExpr) :
    RecordFields (List TypeExpr × TypeExpr × List EntityId × Unit) :=
  .cons 1 (fun items ↦ encode (.sequence (.types items)) (depth + 1))
    (decodeNestedExact (depth + 1)
      (decodeVec (size TypeExpr) (depth + 1) decodeType₂)) <|
  .cons 2 (fun t ↦ encode (.type t) (depth + 1))
    (decodeNestedExact (depth + 1) (decodeBox (size TypeExpr) decodeType₁)) <|
  .cons 3 (fun ids ↦ encode (.sequence (.ids ids)) (depth + 1))
    -- the source opens this cursor itself; the container check covers the depth check
    (decodeNestedExact (depth + 1) (decodeEntityIdSetVec (depth + 1)))
  .nil

/-- The case of `TypeExpr::decode_value` that a tag names. The payload sits at `depth`, and the
decoders are those of types at `depth` and one and two levels below. -/
def selectType (depth : Nat) (decodeType decodeType₁ decodeType₂ : Decoder TypeExpr) (tag : UInt32)
    (payload : Bytes) : Decoder TypeExpr :=
  match tag.toNat with
  | 1 => decodeEmpty .unit payload
  | 2 => decodeEmpty .bool payload
  | 3 => .sInt <$> decodeNested depth payload
  | 4 => .uInt <$> decodeNested depth payload
  | 5 => decodeEmpty .f32 payload
  | 6 => decodeEmpty .f64 payload
  | 7 => decodeEmpty .bytes payload
  | 8 => decodeEmpty .text payload
  | 9 => .tuple <$>
    decodeNestedExact depth (decodeVec (size TypeExpr) depth decodeType₁) payload
  | 10 => (fun v ↦ .named v.1 v.2.1) <$>
    decodeNestedExact depth ((namedTypeFields depth decodeType₂).decodeRecordFields depth) payload
  | 11 => .vector <$>
    decodeNestedExact depth (decodeBox (size TypeExpr) decodeType) payload
  | 12 => (fun v ↦ .orderedMap v.1 v.2.1) <$>
    decodeNestedExact depth ((typePairFields depth decodeType₁).decodeRecordFields depth) payload
  | 13 => .option <$>
    decodeNestedExact depth (decodeBox (size TypeExpr) decodeType) payload
  | 14 => (fun v ↦ .result v.1 v.2.1) <$>
    decodeNestedExact depth ((typePairFields depth decodeType₁).decodeRecordFields depth) payload
  | 15 => (fun v ↦ .functionRef v.1 v.2.1 v.2.2.1) <$>
    decodeNestedExact depth
      ((functionTypeFields depth decodeType₁ decodeType₂).decodeRecordFields depth) payload
  | 16 => .adapterHandle <$> decodeNested depth payload
  | 17 => .capabilityToken <$> decodeNested depth payload
  | 18 => .localCell <$>
    decodeNestedExact depth (decodeBox (size TypeExpr) decodeType) payload
  | 19 => .typeParameter <$> decodeNested depth payload
  | 20 => .builtinFailure <$> decodeNested depth payload
  | _ => Decoder.fail .unionInvalid

/-- `TypeExpr::decode_value`. -/
def decodeType (depth : Nat) : Decoder TypeExpr :=
  -- `decodeUnion` repeats this check; it stands here because it bounds the recursion
  if _ : depth ≥ maxNestingDepth then Decoder.fail .resourceLimit
  else decodeUnion depth
    (selectType (depth + 1) (decodeType (depth + 1)) (decodeType (depth + 2))
      (decodeType (depth + 3)))
termination_by maxNestingDepth - depth

/-! ### Exactness of the type decoder -/

variable {depth : Nat} {dec dec₁ dec₂ : Decoder TypeExpr}

/-- Types at a depth are read back. -/
def ExactTypes (depth : Nat) (dec : Decoder TypeExpr) : Prop :=
  Exact (fun t ↦ encode (.type t) depth) typeCost dec

theorem exact_types (h : ExactTypes (depth + 1) dec₁) :
    Exact (fun items ↦ encode (.sequence (.types items)) depth)
      (fun items ↦ items.length * size TypeExpr + typesCost items)
      (decodeVec (size TypeExpr) depth dec₁) := by
  simp only [typesCost_eq]
  exact Exact.vecNode h .types (fun _ ↦ rfl) (fun _ _ ↦ trivial) _

theorem exact_boxedType (h : ExactTypes depth dec) :
    Exact (fun t ↦ encode (.type t) depth) (fun t ↦ size TypeExpr + typeCost t)
      (decodeBox (size TypeExpr) dec) :=
  Exact.box h _

theorem listCost_entityIds (ids : List EntityId) :
    ids.length * size EntityId = listCost (size EntityId) cost ids := by
  have hzero : (ids.map cost).sum = 0 := by
    induction ids with
    | nil => rfl
    | cons id ids ih =>
      rw [List.map_cons, List.sum_cons, ih]
      rfl
  rw [listCost, hzero, Nat.add_zero]

theorem exact_entityIdSetVec : Exact (fun ids ↦ encode (.sequence (.ids ids)) depth)
      (fun ids ↦ ids.length * size EntityId) (decodeEntityIdSetVec depth) := by
  refine Exact.ofCost ?_ listCost_entityIds
  refine (MutationValueCodec.exact (depth + 1)).list fun {ids bs} hlen ↦ ?_
  rw [encode_sequence hlen]
  simp only [Sequence.nodes, List.length_map, List.forall₂_map_left_iff, Ordered]
  refine and_congr_right fun hdepth ↦ and_congr_right fun _ ↦ ?_
  have hle : depth + 1 ≤ maxNestingDepth := hdepth
  simp only [encode_id hle, encodeAtDepth_id hle]
  have hmap : ∀ {ps : List Bytes},
      List.Forall₂ (fun (id : EntityId) p ↦ id.bytes = p) ids ps ↔ ps = ids.map Id.bytes := by
    intro ps
    rw [← List.forall₂_map_left_iff (f := Id.bytes) (R := (· = ·)), List.forall₂_eq_eq_eq]
    exact eq_comm
  simp only [hmap, exists_eq_left]
  rw [admits_ascending_payloads (by rw [List.length_map])]

theorem exact_namedType (h : ExactTypes (depth + 2) dec₂) :
    Exact (fun v : EntityId × List TypeExpr × Unit ↦ encode (.named v.1 v.2.1) depth)
      (fun v ↦ typeCost (.named v.1 v.2.1))
      ((namedTypeFields depth dec₂).decodeRecordFields depth) :=
  (Exact.recordNode ((NodeFields.nil.cons (exact_types h).nestedNode rfl).cons exactOn_id rfl)
    (fun _ ↦ rfl) (fun _ ↦ rfl) (fun _ ↦ rfl) (show 2 ≤ _ by decide)).ofCost fun v ↦ by
      rw [typeCost, Nat.zero_add, Nat.add_zero]

theorem exact_typePair (h : ExactTypes (depth + 1) dec₁) (make : TypeExpr → TypeExpr → TypeExpr)
    (hcost : ∀ a b, typeCost (make a b) =
      size TypeExpr + typeCost a + (size TypeExpr + typeCost b)) :
    Exact (fun v : TypeExpr × TypeExpr × Unit ↦ encode (.typePair v.1 v.2.1) depth)
      (fun v ↦ typeCost (make v.1 v.2.1))
      ((typePairFields depth dec₁).decodeRecordFields depth) :=
  have hfield := (exact_boxedType h).nestedNode
  (Exact.recordNode ((NodeFields.nil.cons hfield rfl).cons hfield rfl)
    (fun _ ↦ rfl) (fun _ ↦ rfl) (fun _ ↦ rfl) (show 2 ≤ _ by decide)).ofCost fun v ↦ by
      rw [hcost, Nat.add_zero]

theorem exact_functionType (h₁ : ExactTypes (depth + 1) dec₁) (h₂ : ExactTypes (depth + 2) dec₂) :
    Exact (fun v : List TypeExpr × TypeExpr × List EntityId × Unit ↦
        encode (.function v.1 v.2.1 v.2.2.1) depth)
      (fun v ↦ typeCost (.functionRef v.1 v.2.1 v.2.2.1))
      ((functionTypeFields depth dec₁ dec₂).decodeRecordFields depth) :=
  (Exact.recordNode (((NodeFields.nil.cons exact_entityIdSetVec.nestedNode rfl).cons
      (exact_boxedType h₁).nestedNode rfl).cons (exact_types h₂).nestedNode rfl)
    (fun _ ↦ rfl) (fun _ ↦ rfl) (fun _ ↦ rfl) (show 3 ≤ _ by decide)).ofCost fun v ↦ by
      rw [typeCost, Nat.add_zero]

/-- The case a tag names reads exactly the types with that tag. -/
theorem selectType_selects (h : ExactTypes depth dec) (h₁ : ExactTypes (depth + 1) dec₁)
    (h₂ : ExactTypes (depth + 2) dec₂) :
    Selects TypeExpr.tag (fun t ↦ (typePayload t).elim (.ok []) (encode · depth)) typeCost
      (selectType depth dec dec₁ dec₂) := by
  have hbox := (exact_boxedType h).nestedNode
  have htypes := (exact_types h₁).nestedNode
  have hnamed := (exact_namedType h₂).nestedNode
  have hmap := (exact_typePair h₁ .orderedMap fun _ _ ↦ by rw [typeCost]).nestedNode
  have hresult := (exact_typePair h₁ .result fun _ _ ↦ by rw [typeCost]).nestedNode
  have hfunction := (exact_functionType h₁ h₂).nestedNode
  have hid := @exactOn_id depth .entity
  have hwidth := @exactOn_narrow depth IntegerWidth _ _ (·.bits.toBitVec) (by decide) fun _ ↦ rfl
  have hordinal := @exactOn_narrow depth UInt32 _ _ (·.toBitVec) (by decide) fun _ ↦ rfl
  have hkind := @exactOn_narrow depth BuiltinFailureKind _ _ (·.tag.toBitVec) (by decide)
    fun _ ↦ rfl
  intro t p r b v r' b'
  constructor
  · intro hsel
    unfold selectType at hsel
    split at hsel
    all_goals rename_i ht
    case h_1 | h_2 | h_5 | h_6 | h_7 | h_8 =>
      obtain ⟨rfl, hp⟩ := decodeEmpty_eq_ok.1 hsel
      exact ⟨toNat_inj.1 ht.symm, hp⟩
    case h_3 | h_4 =>
      obtain ⟨a, rfl, hp⟩ := hwidth.map_eq_ok.1 hsel
      exact ⟨toNat_inj.1 ht.symm, hp⟩
    case h_11 | h_13 | h_18 =>
      obtain ⟨a, rfl, hp⟩ := hbox.map_eq_ok.1 hsel
      exact ⟨toNat_inj.1 ht.symm, hp⟩
    case h_16 | h_17 =>
      obtain ⟨a, rfl, hp⟩ := hid.map_eq_ok.1 hsel
      exact ⟨toNat_inj.1 ht.symm, hp⟩
    · obtain ⟨a, rfl, hp⟩ := htypes.map_eq_ok.1 hsel
      exact ⟨toNat_inj.1 ht.symm, hp⟩
    · obtain ⟨a, rfl, hp⟩ := hnamed.map_eq_ok.1 hsel
      exact ⟨toNat_inj.1 ht.symm, hp⟩
    · obtain ⟨a, rfl, hp⟩ := hmap.map_eq_ok.1 hsel
      exact ⟨toNat_inj.1 ht.symm, hp⟩
    · obtain ⟨a, rfl, hp⟩ := hresult.map_eq_ok.1 hsel
      exact ⟨toNat_inj.1 ht.symm, hp⟩
    · obtain ⟨a, rfl, hp⟩ := hfunction.map_eq_ok.1 hsel
      exact ⟨toNat_inj.1 ht.symm, hp⟩
    · obtain ⟨a, rfl, hp⟩ := hordinal.map_eq_ok.1 hsel
      exact ⟨toNat_inj.1 ht.symm, hp⟩
    · obtain ⟨a, rfl, hp⟩ := hkind.map_eq_ok.1 hsel
      exact ⟨toNat_inj.1 ht.symm, hp⟩
    · exact absurd hsel Decoder.fail_ne_ok
  · rintro ⟨rfl, hv⟩
    cases v with
    | unit | bool | f32 | f64 | bytes | text => exact decodeEmpty_eq_ok.2 ⟨rfl, hv⟩
    | sInt | uInt => exact hwidth.map_eq_ok.2 ⟨_, rfl, hv⟩
    | tuple => exact htypes.map_eq_ok.2 ⟨_, rfl, hv⟩
    | named => exact hnamed.map_eq_ok.2 ⟨(_, _, ()), rfl, hv⟩
    | vector | option | localCell => exact hbox.map_eq_ok.2 ⟨_, rfl, hv⟩
    | orderedMap => exact hmap.map_eq_ok.2 ⟨(_, _, ()), rfl, hv⟩
    | result => exact hresult.map_eq_ok.2 ⟨(_, _, ()), rfl, hv⟩
    | functionRef => exact hfunction.map_eq_ok.2 ⟨(_, _, _, ()), rfl, hv⟩
    | adapterHandle | capabilityToken => exact hid.map_eq_ok.2 ⟨_, rfl, hv⟩
    | typeParameter => exact hordinal.map_eq_ok.2 ⟨_, rfl, hv⟩
    | builtinFailure => exact hkind.map_eq_ok.2 ⟨_, rfl, hv⟩

/-- **Types are read back at every depth.** -/
theorem exact_decodeType (depth : Nat) : ExactTypes depth (decodeType depth) := by
  induction depth using depthInduction with
  | deep d hdeep =>
    rw [decodeType, dif_pos (Nat.le_of_lt hdeep)]
    exact exact_refused (fun _ ↦ rfl) (Nat.le_of_lt hdeep)
  | step d _ ih =>
    rw [decodeType]
    split
    · rename_i hdepth
      exact exact_refused (fun _ ↦ rfl) hdepth
    · exact (selectType_selects (ih (d + 1) (by omega)) (ih (d + 2) (by omega))
        (ih (d + 3) (by omega))).unionNode (fun _ ↦ rfl) fun _ ↦ rfl

instance : MutationValueCodec TypeExpr where
  encodeValue depth t := encode (.type t) depth
  decodeValue := decodeType
  cost := typeCost
  exact := exact_decodeType

end Types

end Sley.Mutate
