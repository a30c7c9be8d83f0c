import Sley.Mutate.ValueCodec

/-!
# The codec of entity bodies

The layout of every entity body: the tags and types of its fields, in the order of the generated
struct. The codec of a body, the codec of one of its fields and the replacement of a field are all
read off the layout, so **a change of one body changes one entry here**.

The main result is that the codec is canonical, for types, for constants and for bodies of every
kind: bytes are accepted exactly when they are the encoding of the value they are read as.
-/

namespace Sley.Mutate

open Scb1 Ssmc

/-- The fields of a body, and the body as the product of them. -/
structure BodyLayout (α : Type) where
  {components : Type}
  shape : RecordShape components
  equiv : α ≃ components
  wellFormed : shape.wellFormed = true := by rfl

section Bodies

variable [HostLayout]

def workspaceLayout : BodyLayout WorkspaceBody where
  shape := .cons 1 EntityIdSet <| .cons 2 EntityId <| .cons 3 EntityIdSet <| .cons 4 EntityIdSet <|
    .cons 5 EntityIdSet .nil
  equiv := ⟨fun v ↦ (v.packages, v.rootNamespace, v.capabilityRequirements, v.contracts, v.tests, ()),
    fun t ↦ ⟨t.1, t.2.1, t.2.2.1, t.2.2.2.1, t.2.2.2.2.1⟩, fun _ ↦ rfl, fun _ ↦ rfl⟩

def packageLayout : BodyLayout PackageBody where
  shape := .cons 1 EntityId <| .cons 2 EntityId <| .cons 3 EntityIdSet <| .cons 4 EntityIdSet .nil
  equiv := ⟨fun v ↦ (v.workspace, v.rootNamespace, v.dependencies, v.exports, ()),
    fun t ↦ ⟨t.1, t.2.1, t.2.2.1, t.2.2.2.1⟩, fun _ ↦ rfl, fun _ ↦ rfl⟩

def namespaceLayout : BodyLayout NamespaceBody where
  shape := .cons 1 (Option EntityId) <| .cons 2 EntityIdSet .nil
  equiv := ⟨fun v ↦ (v.parent, v.members, ()), fun t ↦ ⟨t.1, t.2.1⟩, fun _ ↦ rfl, fun _ ↦ rfl⟩

def typeDefLayout : BodyLayout TypeDefBody where
  shape := .cons 1 (List TypeParameterDef) <| .cons 2 TypeDefForm <| .cons 3 EntityIdSet <|
    .cons 4 Visibility .nil
  equiv := ⟨fun v ↦ (v.typeParameters, v.form, v.invariants, v.visibility, ()),
    fun t ↦ ⟨t.1, t.2.1, t.2.2.1, t.2.2.2.1⟩, fun _ ↦ rfl, fun _ ↦ rfl⟩

def functionLayout : BodyLayout FunctionBody where
  shape := .cons 1 (List TypeParameterDef) <| .cons 2 (List EntityId) <| .cons 3 TypeExpr <|
    .cons 4 EntityIdSet <| .cons 5 EntityId <| .cons 6 (List EntityId) <| .cons 7 EntityIdSet <|
    .cons 8 Visibility .nil
  equiv := ⟨fun v ↦ (v.typeParameters, v.parameters, v.resultType, v.effects, v.entryBlock, v.blocks,
      v.contracts, v.visibility, ()),
    fun t ↦ ⟨t.1, t.2.1, t.2.2.1, t.2.2.2.1, t.2.2.2.2.1, t.2.2.2.2.2.1, t.2.2.2.2.2.2.1,
      t.2.2.2.2.2.2.2.1⟩, fun _ ↦ rfl, fun _ ↦ rfl⟩

def parameterLayout : BodyLayout ParameterBody where
  shape := .cons 1 EntityId <| .cons 2 ParameterRole <| .cons 3 UInt32 <| .cons 4 TypeExpr .nil
  equiv := ⟨fun v ↦ (v.owner, v.role, v.ordinal, v.valueType, ()),
    fun t ↦ ⟨t.1, t.2.1, t.2.2.1, t.2.2.2.1⟩, fun _ ↦ rfl, fun _ ↦ rfl⟩

def blockLayout : BodyLayout BlockBody where
  shape := .cons 1 EntityId <| .cons 2 (List EntityId) <| .cons 3 (List EntityId) <|
    .cons 4 Terminator <| .cons 5 Reachability .nil
  equiv := ⟨fun v ↦ (v.function, v.parameters, v.operations, v.terminator, v.reachability, ()),
    fun t ↦ ⟨t.1, t.2.1, t.2.2.1, t.2.2.2.1, t.2.2.2.2.1⟩, fun _ ↦ rfl, fun _ ↦ rfl⟩

def operationLayout : BodyLayout OperationBody where
  shape := .cons 1 EntityId <| .cons 2 UInt32 <| .cons 3 UInt32 <| .cons 4 (List ValueRef) <|
    .cons 5 (List TypeExpr) <| .cons 6 Immediate .nil
  equiv := ⟨fun v ↦ (v.block, v.ordinal, v.opcode, v.operands, v.resultTypes, v.immediate, ()),
    fun t ↦ ⟨t.1, t.2.1, t.2.2.1, t.2.2.2.1, t.2.2.2.2.1, t.2.2.2.2.2.1⟩, fun _ ↦ rfl, fun _ ↦ rfl⟩

def constantLayout : BodyLayout ConstantBody where
  shape := .cons 1 ConstValue .nil
  equiv := ⟨fun v ↦ (v.value, ()), fun t ↦ ⟨t.1⟩, fun _ ↦ rfl, fun _ ↦ rfl⟩

def globalValueLayout : BodyLayout GlobalValueBody where
  shape := .cons 1 TypeExpr <| .cons 2 EntityId <| .cons 3 Visibility .nil
  equiv := ⟨fun v ↦ (v.valueType, v.initializer, v.visibility, ()), fun t ↦ ⟨t.1, t.2.1, t.2.2.1⟩,
    fun _ ↦ rfl, fun _ ↦ rfl⟩

def effectDefLayout : BodyLayout EffectDefBody where
  shape := .cons 1 EffectKind <| .cons 2 TypeExpr <| .cons 3 TypeExpr <| .cons 4 TypeExpr <|
    .cons 5 TypeExpr <| .cons 6 Visibility .nil
  equiv := ⟨fun v ↦ (v.effectKind, v.scopeType, v.requestType, v.responseType, v.failureType,
      v.visibility, ()),
    fun t ↦ ⟨t.1, t.2.1, t.2.2.1, t.2.2.2.1, t.2.2.2.2.1, t.2.2.2.2.2.1⟩, fun _ ↦ rfl, fun _ ↦ rfl⟩

def capabilityRequirementLayout : BodyLayout CapabilityRequirementBody where
  shape := .cons 1 EntityId <| .cons 2 (List ConstValue) <| .cons 3 EntityIdSet .nil
  equiv := ⟨fun v ↦ (v.effect, v.allowedScopes, v.constraintContracts, ()),
    fun t ↦ ⟨t.1, t.2.1, t.2.2.1⟩, fun _ ↦ rfl, fun _ ↦ rfl⟩

/-- As a field of its own the last field of a contract is always there; inside the body an absent
one is left out. -/
def contractLayout : BodyLayout ContractBody where
  shape := .cons 1 EntityId <| .cons 2 ContractKind <| .cons 3 EntityId <|
    .cons 4 (List ContractBinding) <| .cons 5 (Option ResourceLimits) .nil
  equiv := ⟨fun v ↦ (v.target, v.contractKind, v.predicate, v.bindings, v.resourceLimits, ()),
    fun t ↦ ⟨t.1, t.2.1, t.2.2.1, t.2.2.2.1, t.2.2.2.2.1⟩, fun _ ↦ rfl, fun _ ↦ rfl⟩

def testCaseLayout : BodyLayout TestCaseBody where
  shape := .cons 1 EntityId <| .cons 2 (List ConstValue) <| .cons 3 EffectEnvironment <|
    .cons 4 ExpectedOutcome <| .cons 5 (List ExpectedObservation) <| .cons 6 ResourceLimits .nil
  equiv := ⟨fun v ↦ (v.target, v.inputs, v.effectEnvironment, v.expected, v.observations,
      v.resourceLimits, ()),
    fun t ↦ ⟨t.1, t.2.1, t.2.2.1, t.2.2.2.1, t.2.2.2.2.1, t.2.2.2.2.2.1⟩, fun _ ↦ rfl, fun _ ↦ rfl⟩

def adapterImportLayout : BodyLayout AdapterImportBody where
  shape := .cons 1 Digest <| .cons 2 UInt32 <| .cons 3 TypeExpr <| .cons 4 TypeExpr <|
    .cons 5 TypeExpr <| .cons 6 EntityIdSet .nil
  equiv := ⟨fun v ↦ (v.adapterId, v.abiVersion, v.requestType, v.responseType, v.failureType,
      v.effects, ()),
    fun t ↦ ⟨t.1, t.2.1, t.2.2.1, t.2.2.2.1, t.2.2.2.2.1, t.2.2.2.2.2.1⟩, fun _ ↦ rfl, fun _ ↦ rfl⟩

def entryPointLayout : BodyLayout EntryPointBody where
  shape := .cons 1 EntityId <| .cons 2 EntryExposure .nil
  equiv := ⟨fun v ↦ (v.function, v.exposure, ()), fun t ↦ ⟨t.1, t.2.1⟩, fun _ ↦ rfl, fun _ ↦ rfl⟩

def policyBindingLayout : BodyLayout PolicyBindingBody where
  shape := .cons 1 EntityId <| .cons 2 EntityIdSet .nil
  equiv := ⟨fun v ↦ (v.subject, v.requirements, ()), fun t ↦ ⟨t.1, t.2.1⟩, fun _ ↦ rfl,
    fun _ ↦ rfl⟩

def dependencyBindingLayout : BodyLayout DependencyBindingBody where
  shape := .cons 1 StateRoot <| .cons 2 EntityId <| .cons 3 EntityId .nil
  equiv := ⟨fun v ↦ (v.dependencyRoot, v.externalPackage, v.localNamespace, ()),
    fun t ↦ ⟨t.1, t.2.1, t.2.2.1⟩, fun _ ↦ rfl, fun _ ↦ rfl⟩

def EntityKind.layout : (kind : EntityKind) → BodyLayout kind.Body
  | .workspace => workspaceLayout
  | .package => packageLayout
  | .namespace_ => namespaceLayout
  | .typeDef => typeDefLayout
  | .function => functionLayout
  | .parameter => parameterLayout
  | .block => blockLayout
  | .operation => operationLayout
  | .constant => constantLayout
  | .globalValue => globalValueLayout
  | .effectDef => effectDefLayout
  | .capabilityRequirement => capabilityRequirementLayout
  | .contract => contractLayout
  | .testCase => testCaseLayout
  | .adapterImport => adapterImportLayout
  | .entryPoint => entryPointLayout
  | .policyBinding => policyBindingLayout
  | .dependencyBinding => dependencyBindingLayout

/-- The codec of a body: a record with required fields, except for the contract. -/
instance (kind : EntityKind) : MutationValueCodec kind.Body :=
  match kind with
  | .contract => inferInstanceAs (MutationValueCodec ContractBody)
  | kind => recordCodec kind.layout.shape kind.layout.equiv kind.layout.wellFormed

/-- `EntityBodyValue::decode_value`: the tag is the kind. -/
def selectBody (depth : Nat) (tag : UInt32) (payload : Bytes) : Decoder EntityBodyValue :=
  match EntityKind.fromTag tag.toNat with
  | some kind => EntityBodyValue.mk kind <$> decodeNested depth payload
  | none => Decoder.fail .unionInvalid

theorem selectBody_selects (depth : Nat) :
    Selects (fun v : EntityBodyValue ↦ v.kindTag.toUInt32) (fun v ↦ encodeNested depth v.body)
      (fun v ↦ cost v.body) (selectBody depth) := by
  intro t p r b v r' b'
  rw [selectBody]
  constructor
  · intro h
    split at h
    · rename_i kind hkind
      obtain ⟨body, rfl, hp⟩ := (exactOn_decodeNested depth).map_eq_ok.1 h
      refine ⟨?_, hp⟩
      rw [← UInt32.toNat_inj, UInt16.toNat_toUInt32]
      exact EntityKind.fromTag_eq_some.1 hkind
    · exact absurd h Decoder.fail_ne_ok
  · rintro ⟨rfl, hp⟩
    obtain ⟨kind, body⟩ := v
    have hkind : EntityKind.fromTag kind.kindTag.toUInt32.toNat = some kind := by
      rw [EntityKind.fromTag_eq_some, UInt16.toNat_toUInt32]
    show (match EntityKind.fromTag kind.kindTag.toUInt32.toNat with
      | some kind => EntityBodyValue.mk kind <$> decodeNested depth p
      | none => Decoder.fail .unionInvalid).run (r, b) = _
    rw [hkind]
    exact (exactOn_decodeNested depth).map_eq_ok.2 ⟨body, rfl, hp⟩

instance : MutationValueCodec EntityBodyValue where
  encodeValue depth v := encodeUnionValue depth v.kindTag.toUInt32 (encodeNested (depth + 1) v.body)
  decodeValue depth := decodeUnion depth (selectBody (depth + 1))
  cost v := cost v.body
  exact depth := (selectBody_selects (depth + 1)).exact depth

/-! ### The codec is canonical -/

/-- The types whose codec stands on its own. -/
inductive CodecType
  | typeExpr
  | constValue
  | body (kind : EntityKind)
  | bodyValue

abbrev CodecType.Value : CodecType → Type
  | typeExpr => TypeExpr
  | constValue => ConstValue
  | body kind => kind.Body
  | bodyValue => EntityBodyValue

instance CodecType.codec (type : CodecType) : MutationValueCodec type.Value :=
  match type with
  | .typeExpr => inferInstanceAs (MutationValueCodec TypeExpr)
  | .constValue => inferInstanceAs (MutationValueCodec ConstValue)
  | .body kind => inferInstanceAs (MutationValueCodec kind.Body)
  | .bodyValue => inferInstanceAs (MutationValueCodec EntityBodyValue)

/-- **The mutation-value codec is canonical.** An encoding is read back as the value it came from,
exactly when the allocations its decoder makes stay within the budget; and bytes that are read as a
value are the encoding of that value. -/
theorem mutationValueCodec_canonical (type : CodecType) :
    (∀ (value : type.Value) (bytes : Bytes), encodeExact value = .ok bytes →
      (decodeExact type.Value bytes = .ok value ↔ cost value ≤ maxTotalAllocation)) ∧
    ∀ (input : Bytes) (value : type.Value), decodeExact type.Value input = .ok value →
      encodeExact value = .ok input := by
  constructor
  · intro value bytes hbytes
    rw [decodeExact_eq_ok]
    exact ⟨fun h ↦ h.2, fun hcost ↦ ⟨hbytes, hcost⟩⟩
  · intro input value hvalue
    exact (decodeExact_eq_ok.1 hvalue).1

end Bodies

/-- Sizes of a 64-bit host, from the fields each type stores. -/
@[reducible]
def hostLayout64 : HostLayout where
  typeExpr := 64
  constValue := 160
  fieldConst := 192
  mapEntryConst := 320
  entityId := 32
  valueRef := 40
  switchArgument := 40
  switchCase := 96
  typeParameterDef := 4
  recordField := 104
  variantCase := 96
  contractBinding := 40
  replayBinding := 72
  adapterConfig := 192
  expectedObservation := 192

/-- The tuple of `Unit` and `Bool`. -/
theorem mutationValueCodec_canonical_tuple :
    @decodeExact TypeExpr (@CodecType.codec hostLayout64 .typeExpr) [9, 7, 2, 2, 1, 0, 2, 2, 0] =
      .ok (.tuple [.unit, .bool]) :=
  ((@mutationValueCodec_canonical hostLayout64 .typeExpr).1 (.tuple [.unit, .bool])
    [9, 7, 2, 2, 1, 0, 2, 2, 0] (by with_unfolding_all decide)).2 (by decide)

end Sley.Mutate
