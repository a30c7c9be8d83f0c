import Sley.Mutate.Candidate
import Sley.Mutate.Object

/-!
# The candidate codec

The codec of operations, preconditions and candidate records in `sley-mutate/src/codec.rs`, and the
envelope a candidate is stored in.

The payload of an operation is written and read under the schema row its class, kind and field
select. The writer checks the payload against that row; the reader only checks the class, and for
two classes the kind. **They agree because of the rows there are** (`mutationOperations_sound`): a
row of a class never asks for more than what the reader of that class produces.
-/

namespace Sley.Mutate

open Scb1 Ssmc
open Except hiding ok error
open MutationPayload (matchesShape mutationClass)
open RecordFields.Exact (consDep)

/-- The host's `size_of` for the two lists of a candidate. -/
class CandidateLayout where
  mutationOperation : Nat
  boundPrecondition : Nat

/-! ### Checked values -/

section Checked

variable {α : Type}

/-- A value that is refused on both sides unless `P` holds of it. -/
theorem Exact.filter {enc : α → Result Bytes} {cost : α → Nat} {dec : Decoder α}
    (h : Exact enc cost dec) (P : α → Prop) [DecidablePred P] (e : ScbErrorCode) :
    Exact (fun v ↦ rejectIf (¬ P v) e >>= fun _ ↦ enc v) cost (do
      let value ← dec
      StateT.ofExcept (rejectIf (¬ P value) e)
      return value) := by
  intro r hr b v r' b'
  simp only [Decoder.bind_eq_ok, Decoder.ofExcept_eq_ok, Decoder.pure_eq_ok, bind_eq_ok,
    rejectIf_eq_ok, exists_const, not_not, h hr]
  constructor
  · rintro ⟨_, _, _, ⟨bs, henc, hcons, hb⟩, _, _, ⟨hP, rfl, rfl⟩, rfl, rfl, rfl⟩
    exact ⟨bs, ⟨hP, henc⟩, hcons, hb⟩
  · rintro ⟨bs, ⟨hP, henc⟩, hcons, hb⟩
    exact ⟨v, r', b', ⟨bs, henc, hcons, hb⟩, r', b', ⟨hP, rfl, rfl⟩, rfl, rfl, rfl⟩

end Checked

/-! ### Codecs of the parts -/

instance : MutationValueCodec MutationClass :=
  simpleEnumCodec (fun v ↦ v.tag.toUInt32)
    [(1, .createEntity), (2, .replaceEntityVersion), (3, .deleteEntityBinding),
      (4, .setScalarField), (5, .replaceTypedField), (6, .retargetReference),
      (7, .insertOrderedChild), (8, .removeOrderedChild), (9, .moveOrderedChild),
      (10, .addEntryPoint), (11, .removeEntryPoint), (12, .addTest), (13, .replaceTest),
      (14, .addContract), (15, .replaceContract), (16, .updateDependencyBinding)]

instance : MutationValueCodec PreimageRequirement :=
  simpleEnumCodec (fun v ↦ v.tag.toUInt32)
    [(1, .expectedIdentityAbsent), (2, .exactEntityVersion), (3, .exactContainerVersion)]

instance : MutationValueCodec CandidateExpiry :=
  recordCodec (.cons 1 UInt16 <| .cons 2 UInt64 .nil)
    ⟨fun v ↦ (v.clock, v.notAfter, ()), fun t ↦ ⟨t.1, t.2.1⟩, fun _ ↦ rfl, fun _ ↦ rfl⟩

instance : MutationValueCodec OrderedInsert :=
  recordCodec (.cons 1 UInt32 <| .cons 2 EntityId .nil)
    ⟨fun v ↦ (v.index, v.child, ()), fun t ↦ ⟨t.1, t.2.1⟩, fun _ ↦ rfl, fun _ ↦ rfl⟩

instance : MutationValueCodec OrderedRemove :=
  recordCodec (.cons 1 UInt32 <| .cons 2 EntityId .nil)
    ⟨fun v ↦ (v.index, v.expectedChild, ()), fun t ↦ ⟨t.1, t.2.1⟩, fun _ ↦ rfl, fun _ ↦ rfl⟩

instance : MutationValueCodec OrderedMove :=
  recordCodec (.cons 1 UInt32 <| .cons 2 UInt32 <| .cons 3 EntityId .nil)
    ⟨fun v ↦ (v.source, v.destination, v.expectedChild, ()), fun t ↦ ⟨t.1, t.2.1, t.2.2.1⟩,
      fun _ ↦ rfl, fun _ ↦ rfl⟩

instance : MutationValueCodec ExpectedIdentityAbsent :=
  recordCodec (.cons 1 EntityId .nil)
    ⟨fun v ↦ (v.entityId, ()), fun t ↦ ⟨t.1⟩, fun _ ↦ rfl, fun _ ↦ rfl⟩

instance : MutationValueCodec ExactEntityVersion :=
  recordCodec (.cons 1 EntityId <| .cons 2 ObjectId .nil)
    ⟨fun v ↦ (v.entityId, v.objectId, ()), fun t ↦ ⟨t.1, t.2.1⟩, fun _ ↦ rfl, fun _ ↦ rfl⟩

instance : MutationValueCodec ExactContainerVersion :=
  recordCodec (.cons 1 EntityId <| .cons 2 ObjectId <| .cons 3 UInt32 .nil)
    ⟨fun v ↦ (v.containerId, v.objectId, v.fieldTag, ()), fun t ↦ ⟨t.1, t.2.1, t.2.2.1⟩,
      fun _ ↦ rfl, fun _ ↦ rfl⟩

instance : MutationValueCodec PreconditionPayload :=
  unionCodec (fun v ↦ v.requirement.tag.toUInt32)
    (fun
      | .expectedIdentityAbsent v => some ⟨v⟩
      | .exactEntityVersion v => some ⟨v⟩
      | .exactContainerVersion v => some ⟨v⟩)
    [(1, .payload .expectedIdentityAbsent), (2, .payload .exactEntityVersion),
      (3, .payload .exactContainerVersion)]

/-- The fields of a bound precondition, before the check that they agree. -/
@[reducible]
def boundPreconditionCodec : MutationValueCodec BoundPrecondition :=
  recordCodec (.cons 1 UInt32 <| .cons 2 PreimageRequirement <| .cons 3 PreconditionPayload .nil)
    ⟨fun v ↦ (v.operationOrdinal, v.requirement, v.payload, ()), fun t ↦ ⟨t.1, t.2.1, t.2.2.1⟩,
      fun _ ↦ rfl, fun _ ↦ rfl⟩

/-- The stated requirement is the one of the payload, on both sides. -/
instance : MutationValueCodec BoundPrecondition where
  encodeValue depth v := do
    rejectIf (¬ v.payload.requirement = v.requirement) .unionInvalid
    boundPreconditionCodec.encodeValue depth v
  decodeValue depth := do
    let value ← boundPreconditionCodec.decodeValue depth
    StateT.ofExcept (rejectIf (¬ value.payload.requirement = value.requirement)
      .unionInvalid)
    return value
  cost := boundPreconditionCodec.cost
  exact depth := (boundPreconditionCodec.exact depth).filter
    (fun v ↦ v.payload.requirement = v.requirement) .unionInvalid

section Operations

variable [HostLayout]

instance : MutationValueCodec EntryPointBody :=
  instMutationValueCodecBody .entryPoint

instance : MutationValueCodec TestCaseBody :=
  instMutationValueCodecBody .testCase

instance : MutationValueCodec DependencyBindingBody :=
  instMutationValueCodecBody .dependencyBinding

/-! ### Payloads -/

/-- The row that a payload is written and read under. -/
def payloadDescriptor (mutationClass : MutationClass) (targetKind : UInt16)
    (fieldTag : Option UInt32) : Result (Option UInt16 × MutationOperationDescriptor) :=
  match descriptorFieldTag fieldTag with
  | .error _ => .error .unionInvalid
  | .ok field => (field, ·) <$>
    ofOption .unionInvalid (mutationOperationDescriptor mutationClass targetKind field)

/-- What a payload holds, at the level below `depth`. -/
def encodePayloadValue (depth : Nat) : MutationPayload → Result Bytes
  | .createEntity value | .replaceEntityVersion value => encodeNested (depth + 1) value
  | .deleteEntityBinding | .removeEntryPoint => .ok []
  | .setScalarField value | .replaceTypedField value => encodeSelectedFieldValue value (depth + 1)
  | .retargetReference (.entity value) => encodeNested (depth + 1) value
  | .retargetReference (.optional value) => encodeNested (depth + 1) value
  | .insertOrderedChild value => encodeNested (depth + 1) value
  | .removeOrderedChild value => encodeNested (depth + 1) value
  | .moveOrderedChild value => encodeNested (depth + 1) value
  | .addEntryPoint value => encodeNested (depth + 1) value
  | .addTest value | .replaceTest value => encodeNested (depth + 1) value
  | .addContract value | .replaceContract value => encodeNested (depth + 1) value
  | .updateDependencyBinding value => encodeNested (depth + 1) value

/-- `encode_mutation_payload`. -/
def encodeMutationPayload (mutationClass : MutationClass) (targetKind : UInt16)
    (fieldTag : Option UInt32) (payload : MutationPayload) (depth : Nat) : Result Bytes := do
  checkContainerDepth depth
  let (field, descriptor) ← payloadDescriptor mutationClass targetKind fieldTag
  rejectIf (¬ payload.matchesDescriptor mutationClass targetKind field descriptor.valueType)
    .unionInvalid
  let payloadBytes ← encodePayloadValue depth payload
  encodeUnion mutationClass.tag.toUInt32 payloadBytes

/-- A body of the kind and type that the row asks for. -/
def decodeBodyPayload (make : EntityBodyValue → MutationPayload) (targetKind : UInt16)
    (field : Option UInt16) (valueType : ValueType) (depth : Nat) (payload : Bytes) :
    Decoder MutationPayload := do
  let value ← decodeNested (depth + 1) payload
  StateT.ofExcept (rejectIf (¬ (make value).matchesShape targetKind field valueType)
    .unionInvalid)
  return make value

/-- A field value of the kind and field that the row names. -/
def decodeFieldPayload (make : FieldValue → MutationPayload) (targetKind : UInt16)
    (field : Option UInt16) (depth : Nat) (payload : Bytes) : Decoder MutationPayload := do
  let field ← StateT.ofExcept (ofOption .unionInvalid field)
  make <$> decodeSelectedFieldValue targetKind field payload (depth + 1)

/-- The match on the class in `decode_mutation_payload`. -/
def decodePayloadValue (mutationClass : MutationClass) (targetKind : UInt16)
    (field : Option UInt16) (valueType : ValueType) (depth : Nat) (payload : Bytes) :
    Decoder MutationPayload :=
  match mutationClass with
  | .createEntity => decodeBodyPayload .createEntity targetKind field valueType depth payload
  | .replaceEntityVersion =>
    decodeBodyPayload .replaceEntityVersion targetKind field valueType depth payload
  | .deleteEntityBinding => decodeEmpty .deleteEntityBinding payload
  | .setScalarField => decodeFieldPayload .setScalarField targetKind field depth payload
  | .replaceTypedField => decodeFieldPayload .replaceTypedField targetKind field depth payload
  | .retargetReference =>
    match valueType with
    | .entityId => (.retargetReference <| .entity ·) <$> decodeNested (depth + 1) payload
    | .optionalEntityId => (.retargetReference <| .optional ·) <$> decodeNested (depth + 1) payload
    | _ => Decoder.fail .unionInvalid
  | .insertOrderedChild => .insertOrderedChild <$> decodeNested (depth + 1) payload
  | .removeOrderedChild => .removeOrderedChild <$> decodeNested (depth + 1) payload
  | .moveOrderedChild => .moveOrderedChild <$> decodeNested (depth + 1) payload
  | .addEntryPoint => .addEntryPoint <$> decodeNested (depth + 1) payload
  | .removeEntryPoint => decodeEmpty .removeEntryPoint payload
  | .addTest => .addTest <$> decodeNested (depth + 1) payload
  | .replaceTest => .replaceTest <$> decodeNested (depth + 1) payload
  | .addContract => .addContract <$> decodeNested (depth + 1) payload
  | .replaceContract => .replaceContract <$> decodeNested (depth + 1) payload
  | .updateDependencyBinding => .updateDependencyBinding <$> decodeNested (depth + 1) payload

/-- `decode_mutation_payload`. -/
def decodeMutationPayload (mutationClass : MutationClass) (targetKind : UInt16)
    (fieldTag : Option UInt32) (depth : Nat) (input : Bytes) : Decoder MutationPayload := do
  StateT.ofExcept (checkContainerDepth depth)
  let (field, descriptor) ← StateT.ofExcept (payloadDescriptor mutationClass targetKind fieldTag)
  let (tag, payload) ← StateT.ofExcept (Reader.readWhole Reader.readUnion input)
  StateT.ofExcept (rejectIf (tag ≠ mutationClass.tag.toUInt32) .unionInvalid)
  decodePayloadValue mutationClass targetKind field descriptor.valueType depth payload

/-- What the reader allocates for a payload. -/
def payloadValueCost : MutationPayload → Nat
  | .createEntity value | .replaceEntityVersion value => cost value
  | .deleteEntityBinding | .removeEntryPoint => 0
  | .setScalarField value | .replaceTypedField value => value.cost
  | .retargetReference (.entity value) => cost value
  | .retargetReference (.optional value) => cost value
  | .insertOrderedChild value => cost value
  | .removeOrderedChild value => cost value
  | .moveOrderedChild value => cost value
  | .addEntryPoint value => cost value
  | .addTest value | .replaceTest value => cost value
  | .addContract value | .replaceContract value => cost value
  | .updateDependencyBinding value => cost value

/-! ### What the rows promise -/

/-- A row asks of a payload of its class no more than the reader of that class checks. -/
def MutationOperationDescriptor.sound (row : MutationOperationDescriptor) : Bool :=
  match row.mutationClass with
  | .createEntity | .replaceEntityVersion => true
  | .deleteEntityBinding | .removeEntryPoint => row.fieldTag.isNone && row.valueType = .unit
  | .setScalarField | .replaceTypedField | .retargetReference => row.fieldTag.isSome
  | .insertOrderedChild | .removeOrderedChild | .moveOrderedChild =>
    row.fieldTag.isSome && row.valueType = .entityIds
  | .addEntryPoint => row.targetKind == 16 && row.fieldTag.isNone
  | .addTest | .replaceTest => row.targetKind == 14 && row.fieldTag.isNone
  | .addContract | .replaceContract => row.targetKind == 13 && row.fieldTag.isNone
  | .updateDependencyBinding => row.targetKind == 18 && row.fieldTag.isNone

omit [HostLayout] in
theorem mutationOperations_sound : mutationOperations.all (·.sound) = true := by
  with_unfolding_all decide

variable {row : MutationOperationDescriptor} {mutationClass : MutationClass}

omit [HostLayout] in
/-- The row of a key is sound and has that key. -/
theorem mutationOperationDescriptor_eq_some {targetKind : UInt16} {field : Option UInt16}
    (h : mutationOperationDescriptor mutationClass targetKind field = some row) :
    row.sound = true ∧ row.mutationClass = mutationClass ∧ row.targetKind = targetKind ∧
      row.fieldTag = field := by
  have hkey := List.find?_some h
  have hmem := List.mem_of_find?_eq_some h
  exact ⟨List.all_eq_true.1 mutationOperations_sound row hmem, of_decide_eq_true hkey⟩

omit [HostLayout] in
theorem payloadDescriptor_eq_ok {targetKind : UInt16}
    {fieldTag : Option UInt32} {field : Option UInt16} :
    payloadDescriptor mutationClass targetKind fieldTag = .ok (field, row) ↔
      descriptorFieldTag fieldTag = .ok field ∧
        mutationOperationDescriptor mutationClass targetKind field = some row := by
  rw [payloadDescriptor]
  split
  · rename_i h
    simp [h]
  · rename_i found h
    simp only [h, map_eq_ok, ofOption_eq_ok, Except.ok.injEq, Prod.mk.injEq]
    constructor
    · rintro ⟨_, hrow, rfl, rfl⟩
      exact ⟨rfl, hrow⟩
    · rintro ⟨rfl, hrow⟩
      exact ⟨_, hrow, rfl, rfl⟩

/-! ### Payloads are read back -/

section Payloads

variable {depth : Nat} {p : Bytes} {r r' : Reader} {b b' : DecodeBudget} {v : MutationPayload}
  {targetKind : UInt16} {field : Option UInt16} {valueType : ValueType}

variable {mutationClass : MutationClass} {make : EntityBodyValue → MutationPayload}

theorem decodeBodyPayload_eq_ok :
    (decodeBodyPayload make targetKind field valueType depth p).run (r, b) = .ok (v, (r', b')) ↔
      ∃ body, v = make body ∧ v.matchesShape targetKind field valueType = true ∧
        encodeNested (depth + 1) body = .ok p ∧ r' = r ∧
        b'.allocated = b.allocated + cost body := by
  simp only [decodeBodyPayload, Decoder.bind_eq_ok, (exactOn_decodeNested (depth + 1)).eq_ok,
    Decoder.ofExcept_eq_ok, rejectIf_eq_ok, not_not, exists_const, Decoder.pure_eq_ok]
  constructor
  · rintro ⟨body, _, _, ⟨henc, rfl, hb⟩, _, _, ⟨hshape, rfl, rfl⟩, rfl, rfl, rfl⟩
    exact ⟨body, rfl, hshape, henc, rfl, hb⟩
  · rintro ⟨body, rfl, hshape, henc, rfl, hb⟩
    exact ⟨body, r', b', ⟨henc, rfl, hb⟩, r', b', ⟨hshape, rfl, rfl⟩, rfl, rfl, rfl⟩

theorem decodeFieldPayload_eq_ok {make : FieldValue → MutationPayload} :
    (decodeFieldPayload make targetKind field depth p).run (r, b) = .ok (v, (r', b')) ↔
      ∃ value, v = make value ∧ (some value.fieldKey.2 = field ∧ value.fieldKey.1 = targetKind) ∧
        encodeSelectedFieldValue value (depth + 1) = .ok p ∧ r' = r ∧
        b'.allocated = b.allocated + value.cost := by
  simp only [decodeFieldPayload, Decoder.bind_eq_ok, Decoder.ofExcept_eq_ok,
    ofOption_eq_ok, Decoder.map_eq_ok, decodeSelectedFieldValue_eq_ok]
  constructor
  · rintro ⟨tag, _, _, ⟨rfl, rfl, rfl⟩, value, ⟨hkey, henc⟩, rfl⟩
    exact ⟨value, rfl, ⟨congrArg (some ·.2) hkey, congrArg Prod.fst hkey⟩, henc⟩
  · rintro ⟨value, rfl, ⟨rfl, rfl⟩, henc⟩
    exact ⟨value.fieldKey.2, r, b, ⟨rfl, rfl, rfl⟩, value, ⟨rfl, henc⟩, rfl⟩

theorem MutationPayload.matchesDescriptor_iff :
    v.matchesDescriptor mutationClass targetKind field valueType = true ↔
      v.mutationClass = mutationClass ∧ v.matchesShape targetKind field valueType = true := by
  simp [matchesDescriptor]

/-- A class whose payload is one value with a codec, and whose rows ask no more than the class. -/
theorem madePayload_eq_ok {β : Type} [MutationValueCodec β] {make : β → MutationPayload}
    (hclass : ∀ w : MutationPayload, w.mutationClass = mutationClass ↔ ∃ a, w = make a)
    (hshape : ∀ a, (make a).matchesShape targetKind field valueType = true)
    (henc : ∀ a, encodePayloadValue depth (make a) = encodeNested (depth + 1) a)
    (hcost : ∀ a, payloadValueCost (make a) = cost a) :
    (make <$> decodeNested (depth + 1) p).run (r, b) = .ok (v, (r', b')) ↔
      (v.mutationClass = mutationClass ∧ v.matchesShape targetKind field valueType = true) ∧
        encodePayloadValue depth v = .ok p ∧ r' = r ∧
        b'.allocated = b.allocated + payloadValueCost v := by
  rw [(exactOn_decodeNested (depth + 1)).map_eq_ok, hclass]
  constructor
  · rintro ⟨a, rfl, h⟩
    rw [henc, hcost]
    exact ⟨⟨⟨a, rfl⟩, hshape a⟩, h⟩
  · rintro ⟨⟨⟨a, rfl⟩, -⟩, h⟩
    rw [henc, hcost] at h
    exact ⟨a, rfl, h⟩

/-- A class whose payload is a body. -/
theorem bodyPayload_eq_ok
    (hclass : ∀ w : MutationPayload, w.mutationClass = mutationClass ↔ ∃ a, w = make a)
    (henc : ∀ a, encodePayloadValue depth (make a) = encodeNested (depth + 1) a)
    (hcost : ∀ a, payloadValueCost (make a) = cost a) :
    (decodeBodyPayload make targetKind field valueType depth p).run (r, b) = .ok (v, (r', b')) ↔
      (v.mutationClass = mutationClass ∧ v.matchesShape targetKind field valueType = true) ∧
        encodePayloadValue depth v = .ok p ∧ r' = r ∧
        b'.allocated = b.allocated + payloadValueCost v := by
  rw [decodeBodyPayload_eq_ok, hclass]
  constructor
  · rintro ⟨a, rfl, hshape, h⟩
    rw [henc, hcost]
    exact ⟨⟨⟨a, rfl⟩, hshape⟩, h⟩
  · rintro ⟨⟨⟨a, rfl⟩, hshape⟩, h⟩
    rw [henc, hcost] at h
    exact ⟨a, rfl, hshape, h⟩

/-- A class whose payload is a field value. -/
theorem fieldPayload_eq_ok {make : FieldValue → MutationPayload}
    (hclass : ∀ w : MutationPayload, w.mutationClass = mutationClass ↔ ∃ a, w = make a)
    (hshape : ∀ a, (make a).matchesShape targetKind field valueType = true ↔
      some a.fieldKey.2 = field ∧ a.fieldKey.1 = targetKind)
    (henc : ∀ a, encodePayloadValue depth (make a) = encodeSelectedFieldValue a (depth + 1))
    (hcost : ∀ a, payloadValueCost (make a) = a.cost) :
    (decodeFieldPayload make targetKind field depth p).run (r, b) = .ok (v, (r', b')) ↔
      (v.mutationClass = mutationClass ∧ v.matchesShape targetKind field valueType = true) ∧
        encodePayloadValue depth v = .ok p ∧ r' = r ∧
        b'.allocated = b.allocated + payloadValueCost v := by
  rw [decodeFieldPayload_eq_ok, hclass]
  constructor
  · rintro ⟨a, rfl, hkey, h⟩
    rw [henc, hcost, hshape]
    exact ⟨⟨⟨a, rfl⟩, hkey⟩, h⟩
  · rintro ⟨⟨⟨a, rfl⟩, hkey⟩, h⟩
    rw [henc, hcost] at h
    exact ⟨a, rfl, (hshape a).1 hkey, h⟩

/-- A class without payload. -/
theorem emptyPayload_eq_ok {value : MutationPayload}
    (hclass : ∀ w : MutationPayload, w.mutationClass = mutationClass ↔ w = value)
    (hshape : value.matchesShape targetKind field valueType = true)
    (henc : encodePayloadValue depth value = .ok []) (hcost : payloadValueCost value = 0) :
    (decodeEmpty value p).run (r, b) = .ok (v, (r', b')) ↔
      (v.mutationClass = mutationClass ∧ v.matchesShape targetKind field valueType = true) ∧
        encodePayloadValue depth v = .ok p ∧ r' = r ∧
        b'.allocated = b.allocated + payloadValueCost v := by
  rw [decodeEmpty_eq_ok, hclass]
  constructor
  · rintro ⟨rfl, h⟩
    rw [henc, hcost]
    exact ⟨⟨rfl, hshape⟩, h⟩
  · rintro ⟨⟨rfl, -⟩, h⟩
    rw [henc, hcost] at h
    exact ⟨rfl, h⟩

theorem retargetPayload_eq_ok (hfield : field.isSome = true) :
    (decodePayloadValue .retargetReference targetKind field valueType depth p).run (r, b) =
        .ok (v, (r', b')) ↔
      (v.mutationClass = .retargetReference ∧ v.matchesShape targetKind field valueType = true) ∧
        encodePayloadValue depth v = .ok p ∧ r' = r ∧
        b'.allocated = b.allocated + payloadValueCost v := by
  have hclass : ∀ w : MutationPayload,
      w.mutationClass = .retargetReference ↔ ∃ target, w = .retargetReference target := by
    intro w
    cases w <;> simp [mutationClass]
  rw [hclass]
  constructor
  · intro h
    -- the value type of the row selects the target that is read
    simp only [decodePayloadValue] at h
    split at h
    · obtain ⟨id, rfl, hid⟩ := (exactOn_decodeNested (depth + 1)).map_eq_ok.1 h
      exact ⟨⟨⟨_, rfl⟩, by simp [matchesShape, hfield]⟩, hid⟩
    · obtain ⟨id, rfl, hid⟩ := (exactOn_decodeNested (depth + 1)).map_eq_ok.1 h
      exact ⟨⟨⟨_, rfl⟩, by simp [matchesShape, hfield]⟩, hid⟩
    · exact absurd h Decoder.fail_ne_ok
  · rintro ⟨⟨⟨target, rfl⟩, hshape⟩, h⟩
    cases target with
    | entity id =>
      simp only [matchesShape, Bool.and_eq_true, decide_eq_true_eq] at hshape
      obtain ⟨-, rfl⟩ := hshape
      exact (exactOn_decodeNested (depth + 1)).map_eq_ok.2 ⟨id, rfl, h⟩
    | optional id =>
      simp only [matchesShape, Bool.and_eq_true, decide_eq_true_eq] at hshape
      obtain ⟨-, rfl⟩ := hshape
      exact (exactOn_decodeNested (depth + 1)).map_eq_ok.2 ⟨id, rfl, h⟩

/-- **A payload is read back under its row.** -/
theorem decodePayloadValue_eq_ok {row : MutationOperationDescriptor}
    (hrow : mutationOperationDescriptor mutationClass targetKind field = some row) :
    (decodePayloadValue mutationClass targetKind field row.valueType depth p).run (r, b) =
        .ok (v, (r', b')) ↔
      v.matchesDescriptor mutationClass targetKind field row.valueType = true ∧
        encodePayloadValue depth v = .ok p ∧ r' = r ∧
        b'.allocated = b.allocated + payloadValueCost v := by
  obtain ⟨hsound, rfl, rfl, rfl⟩ := mutationOperationDescriptor_eq_some hrow
  obtain ⟨mutationClass, targetKind, field, valueType, preimage⟩ := row
  rw [MutationPayload.matchesDescriptor_iff]
  clear hrow
  cases mutationClass with
  | createEntity =>
    exact bodyPayload_eq_ok (fun w ↦ by cases w <;> simp [mutationClass])
      (fun _ ↦ rfl) fun _ ↦ rfl
  | replaceEntityVersion =>
    exact bodyPayload_eq_ok (fun w ↦ by cases w <;> simp [mutationClass])
      (fun _ ↦ rfl) fun _ ↦ rfl
  | deleteEntityBinding =>
    exact emptyPayload_eq_ok (fun w ↦ by cases w <;> simp [mutationClass])
      hsound rfl rfl
  | removeEntryPoint =>
    exact emptyPayload_eq_ok (fun w ↦ by cases w <;> simp [mutationClass])
      hsound rfl rfl
  | setScalarField =>
    exact fieldPayload_eq_ok (fun w ↦ by cases w <;> simp [mutationClass])
      (fun _ ↦ by simp [matchesShape]) (fun _ ↦ rfl) fun _ ↦ rfl
  | replaceTypedField =>
    exact fieldPayload_eq_ok (fun w ↦ by cases w <;> simp [mutationClass])
      (fun _ ↦ by simp [matchesShape]) (fun _ ↦ rfl) fun _ ↦ rfl
  | retargetReference => exact retargetPayload_eq_ok hsound
  | insertOrderedChild | removeOrderedChild | moveOrderedChild | addEntryPoint | addTest
  | replaceTest | addContract | replaceContract | updateDependencyBinding =>
    exact madePayload_eq_ok (fun w ↦ by cases w <;> simp [mutationClass])
      (fun _ ↦ hsound) (fun _ ↦ rfl) fun _ ↦ rfl

/-- A payload as its field holds it: what a record of fields is then checked for. -/
def encodePayloadField (mutationClass : MutationClass) (targetKind : UInt16)
    (fieldTag : Option UInt32) (depth : Nat) (payload : MutationPayload) : Result Bytes := do
  let encoded ← encodeMutationPayload mutationClass targetKind fieldTag payload depth
  rejectIf (encoded.length > maxStandaloneBytes) .resourceLimit
  return encoded

theorem encodePayloadField_eq_ok {fieldTag : Option UInt32} {bs : Bytes} :
    encodePayloadField mutationClass targetKind fieldTag depth v = .ok bs ↔
      encodeMutationPayload mutationClass targetKind fieldTag v depth = .ok bs ∧
        bs.length ≤ maxStandaloneBytes := by
  simp only [encodePayloadField, bind_eq_ok, rejectIf_eq_ok, exists_const,
    pure_eq_ok, gt_iff_lt, Nat.not_lt]
  constructor
  · rintro ⟨_, henc, hlen, rfl⟩
    exact ⟨henc, hlen⟩
  · rintro ⟨henc, hlen⟩
    exact ⟨bs, henc, hlen, rfl⟩

theorem exactOn_decodeMutationPayload (mutationClass : MutationClass) (targetKind : UInt16)
    (fieldTag : Option UInt32) (depth : Nat) :
    ExactOn (encodePayloadField mutationClass targetKind fieldTag depth) payloadValueCost
      (decodeMutationPayload mutationClass targetKind fieldTag depth) := by
  intro input r b v r' b'
  have hunion : ∀ {bs : Bytes} {t : UInt32 × Bytes},
      Reader.readWhole Reader.readUnion bs = .ok t ↔ bs.length ≤ maxStandaloneBytes ∧
        (t.2.length ≤ maxStandaloneBytes ∧ bs = taggedBytes t.1 t.2) := by
    refine Reader.readWhole_eq_ok (fun (t : UInt32 × Bytes) bs ↦
      t.2.length ≤ maxStandaloneBytes ∧ bs = taggedBytes t.1 t.2) fun {r r' t} ↦ ?_
    rw [Reader.readUnion_eq_ok]
    constructor
    · intro ⟨hlen, hcons⟩
      exact ⟨_, ⟨hlen, rfl⟩, hcons⟩
    · rintro ⟨_, ⟨hlen, rfl⟩, hcons⟩
      exact ⟨hlen, hcons⟩
  simp only [encodePayloadField_eq_ok, encodeMutationPayload, decodeMutationPayload,
    Decoder.bind_eq_ok, Decoder.ofExcept_eq_ok, bind_eq_ok, checkContainerDepth, rejectIf_eq_ok,
    exists_const, Prod.exists, payloadDescriptor_eq_ok, hunion, encodeUnion_eq_ok, not_not]
  constructor
  · rintro ⟨_, _, ⟨hdepth, rfl, rfl⟩, field, row, _, _, ⟨⟨hfield, hrow⟩, rfl, rfl⟩, tag, p, _, _,
      ⟨⟨hlen, hp, rfl⟩, rfl, rfl⟩, _, _, ⟨rfl, rfl, rfl⟩, h⟩
    obtain ⟨hmatch, henc, hr, hb⟩ := (decodePayloadValue_eq_ok hrow).1 h
    exact ⟨⟨⟨hdepth, field, row, ⟨hfield, hrow⟩, hmatch, p, henc, hp, rfl⟩, hlen⟩, hr, hb⟩
  · rintro ⟨⟨⟨hdepth, field, row, ⟨hfield, hrow⟩, hmatch, p, henc, hp, rfl⟩, hlen⟩, hr, hb⟩
    exact ⟨r, b, ⟨hdepth, rfl, rfl⟩, field, row, r, b, ⟨⟨hfield, hrow⟩, rfl, rfl⟩, _, p, r, b,
      ⟨⟨hlen, hp, rfl⟩, rfl, rfl⟩, r, b, ⟨rfl, rfl, rfl⟩,
      (decodePayloadValue_eq_ok hrow).2 ⟨hmatch, henc, hr, hb⟩⟩

end Payloads

/-! ### Operations -/

/-- A kind tag is written as a 32-bit number. -/
def encodeKind (depth : Nat) (kind : UInt16) : Result Bytes := encodeNested depth kind.toUInt32

def decodeKind (depth : Nat) (payload : Bytes) : Decoder UInt16 := do
  let raw : UInt32 ← decodeNested depth payload
  StateT.ofExcept (rejectIf (raw.toNat ≥ 2 ^ 16) .unionInvalid)
  return raw.toUInt16

omit [HostLayout] in
theorem exactOn_decodeKind (depth : Nat) :
    ExactOn (encodeKind depth) (fun _ ↦ 0) (decodeKind depth) := by
  intro input r b kind r' b'
  simp only [encodeKind, decodeKind, Decoder.bind_eq_ok, (exactOn_decodeNested depth).eq_ok,
    Decoder.ofExcept_eq_ok, rejectIf_eq_ok, Decoder.pure_eq_ok, exists_const]
  constructor
  · rintro ⟨raw, _, _, ⟨henc, rfl, hb⟩, _, _, ⟨hlt, rfl, rfl⟩, rfl, rfl, rfl⟩
    have hback : raw.toUInt16.toUInt32 = raw := by
      apply UInt32.toNat_inj.1
      rw [UInt16.toNat_toUInt32, UInt32.toNat_toUInt16, Nat.mod_eq_of_lt (Nat.not_le.1 hlt)]
    rw [hback]
    exact ⟨henc, rfl, hb⟩
  · rintro ⟨henc, rfl, hb⟩
    have hlt : kind.toUInt32.toNat < 2 ^ 16 := by
      rw [UInt16.toNat_toUInt32]
      exact kind.toNat_lt
    exact ⟨kind.toUInt32, r', b', ⟨henc, rfl, hb⟩, r', b', ⟨Nat.not_le.2 hlt, rfl, rfl⟩,
      (UInt16.toUInt16_toUInt32 kind).symm, rfl, rfl⟩

/-- The fields of an operation. The payload is read under the class, the kind and the field tag
that stand before it. -/
def operationFields (depth : Nat) :
    RecordFields (UInt32 × MutationClass × UInt16 × EntityId × Option UInt32 × MutationPayload ×
      UInt32 × Unit) :=
  .cons 1 (encodeNested (depth + 1)) (decodeNested (depth + 1)) <|
  .consDep 2 (encodeNested (depth + 1)) (decodeNested (depth + 1)) [3, 4, 5, 6, 7]
    fun mutationClass ↦
  .consDep 3 (encodeKind (depth + 1)) (decodeKind (depth + 1)) [4, 5, 6, 7] fun targetKind ↦
  .cons 4 (encodeNested (depth + 1)) (decodeNested (depth + 1)) <|
  .consDep 5 (encodeNested (depth + 1)) (decodeNested (depth + 1)) [6, 7] fun fieldTag ↦
  .cons 6 (encodePayloadField mutationClass targetKind fieldTag (depth + 1))
    (decodeMutationPayload mutationClass targetKind fieldTag (depth + 1)) <|
  .cons 7 (encodeNested (depth + 1)) (decodeNested (depth + 1)) .nil

/-- The fields of an operation and their values. -/
def operationEquiv : MutationOperation ≃ UInt32 × MutationClass × UInt16 × EntityId ×
    Option UInt32 × MutationPayload × UInt32 × Unit where
  toFun v := (v.ordinal, v.mutationClass, v.targetKind, v.targetEntity, v.fieldTag, v.payload,
    v.preconditionOrdinal, ())
  invFun t := ⟨t.1, t.2.1, t.2.2.1, t.2.2.2.1, t.2.2.2.2.1, t.2.2.2.2.2.1, t.2.2.2.2.2.2.1⟩
  left_inv _ := rfl
  right_inv _ := rfl

theorem exact_operationFields (depth : Nat) :
    (operationFields depth).Exact fun v ↦ cost v.1 + (cost v.2.1 + (0 + (cost v.2.2.2.1 +
      (cost v.2.2.2.2.1 + (payloadValueCost v.2.2.2.2.2.1 + (cost v.2.2.2.2.2.2.1 + 0)))))) := by
  -- from the last field to the first
  have h₇ := RecordFields.exact_nil.cons (exactOn_decodeNested (α := UInt32) (depth + 1))
    (show (([] : List UInt32).all (7 < ·)) = true from rfl)
  have h₆ mutationClass targetKind fieldTag := h₇.cons
    (exactOn_decodeMutationPayload mutationClass targetKind fieldTag (depth + 1))
    (show (([7] : List UInt32).all (6 < ·)) = true from rfl)
  have h₅ mutationClass targetKind := consDep
    (fun fieldTag ↦ h₆ mutationClass targetKind fieldTag) (fun _ ↦ rfl)
    (h₆ mutationClass targetKind none).sorted
    (exactOn_decodeNested (α := Option UInt32) (depth + 1))
    (show (([6, 7] : List UInt32).all (5 < ·)) = true from rfl)
  have h₄ mutationClass targetKind := (h₅ mutationClass targetKind).cons
    (exactOn_decodeNested (α := EntityId) (depth + 1))
    (show (([5, 6, 7] : List UInt32).all (4 < ·)) = true from rfl)
  have h₃ mutationClass := consDep (fun targetKind ↦ h₄ mutationClass targetKind)
    (fun _ ↦ rfl) (h₄ mutationClass 0).sorted (exactOn_decodeKind (depth + 1))
    (show (([4, 5, 6, 7] : List UInt32).all (3 < ·)) = true from rfl)
  have h₂ := consDep h₃ (fun _ ↦ rfl) (h₃ .createEntity).sorted
    (exactOn_decodeNested (α := MutationClass) (depth + 1))
    (show (([3, 4, 5, 6, 7] : List UInt32).all (2 < ·)) = true from rfl)
  exact h₂.cons (exactOn_decodeNested (α := UInt32) (depth + 1)) rfl

/-- `MutationOperation::encode_value`: the payload is written first. -/
def encodeOperation (depth : Nat) (operation : MutationOperation) : Result Bytes := do
  checkContainerDepth depth
  let payload ← encodeMutationPayload operation.mutationClass operation.targetKind
    operation.fieldTag operation.payload (depth + 1)
  let ordinal ← encodeNested (depth + 1) operation.ordinal
  let mutationClass ← encodeNested (depth + 1) operation.mutationClass
  let targetKind ← encodeKind (depth + 1) operation.targetKind
  let targetEntity ← encodeNested (depth + 1) operation.targetEntity
  let fieldTag ← encodeNested (depth + 1) operation.fieldTag
  let preconditionOrdinal ← encodeNested (depth + 1) operation.preconditionOrdinal
  encodeRecord [(1, ordinal), (2, mutationClass), (3, targetKind), (4, targetEntity),
    (5, fieldTag), (6, payload), (7, preconditionOrdinal)]

/-- The order in which the fields are written does not matter, and a payload beyond the limit is
refused by the record. -/
theorem encodeOperation_eq_ok {depth : Nat} {operation : MutationOperation} {bs : Bytes} :
    encodeOperation depth operation = .ok bs ↔
      (operationFields depth).encodeRecordValue depth (operationEquiv operation) = .ok bs := by
  have hsorted : ∀ ps : List Bytes, ps.length = 7 →
      ((([1, 2, 3, 4, 5, 6, 7] : List UInt32).zip ps).map Prod.fst).Pairwise (· < ·) := by
    intro ps hps
    rw [List.map_fst_zip (by simp [hps])]
    decide
  simp only [encodeOperation, operationFields, operationEquiv, RecordFields.encodeRecordValue,
    RecordFields.cons, RecordFields.consDep, RecordFields.nil, Equiv.coe_fn_mk, bind_eq_ok,
    pure_eq_ok, encodePayloadField_eq_ok]
  refine exists_congr fun _ ↦ and_congr_right fun _ ↦ ?_
  constructor
  · rintro ⟨payload, hpayload, ordinal, h₁, class_, h₂, kind, h₃, target, h₄, field, h₅, pre, h₇, h⟩
    have hlen := ((encodeRecord_eq_ok (hsorted [ordinal, class_, kind, target, field, payload, pre]
      rfl)).1 h).2.1 (6, payload) (by simp)
    exact ⟨_, ⟨ordinal, h₁, _, ⟨class_, h₂, _, ⟨kind, h₃, _, ⟨target, h₄, _, ⟨field, h₅, _,
      ⟨payload, ⟨hpayload, hlen⟩, _, ⟨pre, h₇, _, rfl, rfl⟩, rfl⟩, rfl⟩, rfl⟩, rfl⟩, rfl⟩, rfl⟩, h⟩
  · rintro ⟨_, ⟨ordinal, h₁, _, ⟨class_, h₂, _, ⟨kind, h₃, _, ⟨target, h₄, _, ⟨field, h₅, _,
      ⟨payload, ⟨hpayload, -⟩, _, ⟨pre, h₇, _, rfl, rfl⟩, rfl⟩, rfl⟩, rfl⟩, rfl⟩, rfl⟩, rfl⟩, h⟩
    exact ⟨payload, hpayload, ordinal, h₁, class_, h₂, kind, h₃, target, h₄, field, h₅, pre, h₇, h⟩

instance : MutationValueCodec MutationOperation where
  encodeValue := encodeOperation
  decodeValue depth := operationEquiv.symm <$> (operationFields depth).decodeRecordFields depth
  cost operation := payloadValueCost operation.payload
  exact depth := by
    have hcount : 7 ≤ maxRecordFields := by decide
    have h := (exact_operationFields depth).exact hcount depth
    refine ((h.map operationEquiv).congr fun _ ↦ encodeOperation_eq_ok).ofCost
      fun operation ↦ ?_
    have hfield : cost operation.fieldTag = 0 := by
      cases operation.fieldTag <;> rfl
    show payloadValueCost operation.payload = 0 + (0 + (0 + (0 + (cost operation.fieldTag +
      (payloadValueCost operation.payload + (0 + 0))))))
    omega

end Operations

end Sley.Mutate
