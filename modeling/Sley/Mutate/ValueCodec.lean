import Sley.Mutate.ConstCodec
import Sley.Mutate.Value

/-!
# The codec of what entity bodies hold

The implementations of `codec.rs` for everything an entity body holds, and for the contract. Almost
all of them are records with required fields, unions or enumerations, and their exactness is that of
the shape. **The two that are not** are the canonical set of identities, which is sorted again after
it was read, and the contract, whose last field may be missing.
-/

namespace Sley.Mutate

open Scb1 Ssmc
open Except (bind_eq_ok ofOption rejectIf rejectIf_eq_ok)
open Decoder (map_eq_ok ofExcept_eq_ok pure_eq_ok read)
open RecordFields (cons_decode_eq_ok decodeField nil_decode_eq_ok)

section Instances

variable [HostLayout]

instance : HostSize ValueRef := ⟨HostLayout.valueRef⟩
instance : HostSize SwitchArgument := ⟨HostLayout.switchArgument⟩
instance : HostSize SwitchCase := ⟨HostLayout.switchCase⟩
instance : HostSize TypeParameterDef := ⟨HostLayout.typeParameterDef⟩
instance : HostSize RecordField := ⟨HostLayout.recordField⟩
instance : HostSize VariantCase := ⟨HostLayout.variantCase⟩
instance : HostSize ContractBinding := ⟨HostLayout.contractBinding⟩
instance : HostSize ReplayBinding := ⟨HostLayout.replayBinding⟩
instance : HostSize AdapterConfig := ⟨HostLayout.adapterConfig⟩
instance : HostSize ExpectedObservation := ⟨HostLayout.expectedObservation⟩

end Instances

/-! ### Enumerations -/

instance : MutationValueCodec Visibility :=
  simpleEnumCodec Visibility.tag [(1, .private_), (2, .package), (3, .workspace), (4, .exported)]

instance : MutationValueCodec ParameterRole :=
  simpleEnumCodec ParameterRole.tag [(1, .function), (2, .block)]

instance : MutationValueCodec Reachability :=
  simpleEnumCodec Reachability.tag [(1, .required), (2, .explicitlyUnreachable)]

instance : MutationValueCodec EffectKind :=
  simpleEnumCodec EffectKind.tag
    [(1, .stdoutWrite), (2, .stderrWrite), (3, .fileRead), (4, .fileWrite), (5, .clockRead),
      (6, .randomRead), (7, .environmentRead), (8, .adapterCall)]

instance : MutationValueCodec ContractKind :=
  simpleEnumCodec ContractKind.tag
    [(1, .precondition), (2, .postcondition), (3, .invariant), (4, .effectBound),
      (5, .capabilityBound), (6, .resultPredicate), (7, .resourceCeiling)]

instance : MutationValueCodec EntryExposure :=
  simpleEnumCodec EntryExposure.tag [(1, .local_), (2, .protocol)]

instance : MutationValueCodec BuiltinCase :=
  simpleEnumCodec BuiltinCase.tag [(1, .none), (2, .some), (3, .ok), (4, .err)]

instance : MutationValueCodec TrapCode :=
  simpleEnumCodec TrapCode.tag
    [(1, .unreachable), (2, .resourceExhausted), (3, .adapterContractViolation),
      (4, .internalInvariant)]

/-! ### Values and control flow -/

instance : MutationValueCodec OperationResultRef :=
  recordCodec (.cons 1 EntityId <| .cons 2 UInt32 .nil)
    ⟨fun v ↦ (v.operation, v.resultIndex, ()), fun t ↦ ⟨t.1, t.2.1⟩, fun _ ↦ rfl, fun _ ↦ rfl⟩

def valueRefPayload : ValueRef → Option Payload
  | .parameter value => some ⟨value⟩
  | .operationResult value => some ⟨value⟩

instance : MutationValueCodec ValueRef :=
  unionCodec ValueRef.tag valueRefPayload
    [(1, .payload .parameter), (2, .payload .operationResult)]

instance : MutationValueCodec VariantImmediate :=
  recordCodec (.cons 1 EntityId <| .cons 2 MemberId .nil)
    ⟨fun v ↦ (v.definition, v.memberId, ()), fun t ↦ ⟨t.1, t.2.1⟩, fun _ ↦ rfl, fun _ ↦ rfl⟩

def caseKeyPayload : CaseKey → Option Payload
  | .member value => some ⟨value⟩
  | .builtin value => some ⟨value⟩

instance : MutationValueCodec CaseKey :=
  unionCodec CaseKey.tag caseKeyPayload [(1, .payload .member), (2, .payload .builtin)]

def switchArgumentPayload : SwitchArgument → Option Payload
  | .value value => some ⟨value⟩
  | .casePayload => none

instance : MutationValueCodec SwitchArgument :=
  unionCodec SwitchArgument.tag switchArgumentPayload
    [(1, .payload .value), (2, .empty .casePayload)]

section Sized

variable [HostLayout]

def immediatePayload : Immediate → Option Payload
  | .none => none
  | .entity value => some ⟨value⟩
  | .index value => some ⟨value⟩
  | .field value => some ⟨value⟩
  | .variant value => some ⟨value⟩
  | .observation value => some ⟨value⟩
  | .function value => some ⟨value⟩

instance : MutationValueCodec Immediate :=
  unionCodec Immediate.tag immediatePayload
    [(1, .empty .none), (2, .payload .entity), (3, .payload .index), (4, .payload .field),
      (5, .payload .variant), (6, .payload .observation), (7, .payload .function)]

instance : MutationValueCodec TargetEdge :=
  recordCodec (.cons 1 EntityId <| .cons 2 (List ValueRef) .nil)
    ⟨fun v ↦ (v.target, v.arguments, ()), fun t ↦ ⟨t.1, t.2.1⟩, fun _ ↦ rfl, fun _ ↦ rfl⟩

instance : MutationValueCodec SwitchEdge :=
  recordCodec (.cons 1 EntityId <| .cons 2 (List SwitchArgument) .nil)
    ⟨fun v ↦ (v.target, v.arguments, ()), fun t ↦ ⟨t.1, t.2.1⟩, fun _ ↦ rfl, fun _ ↦ rfl⟩

instance : MutationValueCodec SwitchCase :=
  recordCodec (.cons 1 CaseKey <| .cons 2 SwitchEdge .nil)
    ⟨fun v ↦ (v.caseKey, v.edge, ()), fun t ↦ ⟨t.1, t.2.1⟩, fun _ ↦ rfl, fun _ ↦ rfl⟩

instance : MutationValueCodec ReturnTerminator :=
  recordCodec (.cons 1 ValueRef .nil)
    ⟨fun v ↦ (v.value, ()), fun t ↦ ⟨t.1⟩, fun _ ↦ rfl, fun _ ↦ rfl⟩

instance : MutationValueCodec BranchTerminator :=
  recordCodec (.cons 1 TargetEdge .nil)
    ⟨fun v ↦ (v.edge, ()), fun t ↦ ⟨t.1⟩, fun _ ↦ rfl, fun _ ↦ rfl⟩

instance : MutationValueCodec CondBranchTerminator :=
  recordCodec (.cons 1 ValueRef <| .cons 2 TargetEdge <| .cons 3 TargetEdge .nil)
    ⟨fun v ↦ (v.condition, v.ifTrue, v.ifFalse, ()), fun t ↦ ⟨t.1, t.2.1, t.2.2.1⟩, fun _ ↦ rfl,
      fun _ ↦ rfl⟩

instance : MutationValueCodec VariantSwitchTerminator :=
  recordCodec (.cons 1 ValueRef <| .cons 2 (List SwitchCase) .nil)
    ⟨fun v ↦ (v.value, v.cases, ()), fun t ↦ ⟨t.1, t.2.1⟩, fun _ ↦ rfl, fun _ ↦ rfl⟩

instance : MutationValueCodec TrapTerminator :=
  recordCodec (.cons 1 TrapCode <| .cons 2 (Option ValueRef) .nil)
    ⟨fun v ↦ (v.code, v.payload, ()), fun t ↦ ⟨t.1, t.2.1⟩, fun _ ↦ rfl, fun _ ↦ rfl⟩

def terminatorPayload : Terminator → Option Payload
  | .return_ value => some ⟨value⟩
  | .branch value => some ⟨value⟩
  | .condBranch value => some ⟨value⟩
  | .variantSwitch value => some ⟨value⟩
  | .trap value => some ⟨value⟩

instance : MutationValueCodec Terminator :=
  unionCodec Terminator.tag terminatorPayload
    [(1, .payload .return_), (2, .payload .branch), (3, .payload .condBranch),
      (4, .payload .variantSwitch), (5, .payload .trap)]

/-! ### Definitions, contracts and tests -/

instance : MutationValueCodec TypeParameterDef :=
  recordCodec (.cons 1 UInt32 .nil)
    ⟨fun v ↦ (v.ordinal, ()), fun t ↦ ⟨t.1⟩, fun _ ↦ rfl, fun _ ↦ rfl⟩

instance : MutationValueCodec RecordField :=
  recordCodec (.cons 1 MemberId <| .cons 2 TypeExpr <| .cons 3 Visibility .nil)
    ⟨fun v ↦ (v.memberId, v.valueType, v.visibility, ()), fun t ↦ ⟨t.1, t.2.1, t.2.2.1⟩,
      fun _ ↦ rfl, fun _ ↦ rfl⟩

instance : MutationValueCodec VariantCase :=
  recordCodec (.cons 1 MemberId <| .cons 2 (Option TypeExpr) .nil)
    ⟨fun v ↦ (v.memberId, v.payloadType, ()), fun t ↦ ⟨t.1, t.2.1⟩, fun _ ↦ rfl, fun _ ↦ rfl⟩

def typeDefFormPayload : TypeDefForm → Option Payload
  | .record value => some ⟨value⟩
  | .variant value => some ⟨value⟩

instance : MutationValueCodec TypeDefForm :=
  unionCodec TypeDefForm.tag typeDefFormPayload [(1, .payload .record), (2, .payload .variant)]

def contractSourcePayload : ContractSource → Option Payload
  | .parameter value | .global value => some ⟨value⟩
  | .result | .error => none

instance : MutationValueCodec ContractSource :=
  unionCodec ContractSource.tag contractSourcePayload
    [(1, .payload .parameter), (2, .empty .result), (3, .empty .error), (4, .payload .global)]

instance : MutationValueCodec ContractBinding :=
  recordCodec (.cons 1 UInt32 <| .cons 2 ContractSource .nil)
    ⟨fun v ↦ (v.predicateParameter, v.source, ()), fun t ↦ ⟨t.1, t.2.1⟩, fun _ ↦ rfl, fun _ ↦ rfl⟩

instance : MutationValueCodec ResourceLimits :=
  recordCodec (.cons 1 UInt64 <| .cons 2 UInt64 <| .cons 3 UInt64 <| .cons 4 UInt64 <|
      .cons 5 UInt64 <| .cons 6 UInt64 .nil)
    ⟨fun v ↦ (v.fuel, v.memoryBytes, v.outputBytes, v.effectCount, v.callDepth,
        v.wallTimeoutMillis, ()),
      fun t ↦ ⟨t.1, t.2.1, t.2.2.1, t.2.2.2.1, t.2.2.2.2.1, t.2.2.2.2.2.1⟩, fun _ ↦ rfl,
      fun _ ↦ rfl⟩

instance : MutationValueCodec ReplayBinding :=
  recordCodec (.cons 1 EntityId <| .cons 2 (List ConstValue) <| .cons 3 ResultConst .nil)
    ⟨fun v ↦ (v.adapterImport, v.request, v.response, ()), fun t ↦ ⟨t.1, t.2.1, t.2.2.1⟩,
      fun _ ↦ rfl, fun _ ↦ rfl⟩

instance : MutationValueCodec AdapterConfig :=
  recordCodec (.cons 1 EntityId <| .cons 2 ConstValue .nil)
    ⟨fun v ↦ (v.adapterImport, v.configuration, ()), fun t ↦ ⟨t.1, t.2.1⟩, fun _ ↦ rfl,
      fun _ ↦ rfl⟩

def effectEnvironmentPayload : EffectEnvironment → Option Payload
  | .replay value => some ⟨value⟩
  | .deterministicAdapters value => some ⟨value⟩

instance : MutationValueCodec EffectEnvironment :=
  unionCodec EffectEnvironment.tag effectEnvironmentPayload
    [(1, .payload .replay), (2, .payload .deterministicAdapters)]

def expectedOutcomePayload : ExpectedOutcome → Option Payload
  | .value value => some ⟨value⟩
  | .failureCode value => some ⟨value⟩

instance : MutationValueCodec ExpectedOutcome :=
  unionCodec ExpectedOutcome.tag expectedOutcomePayload
    [(1, .payload .value), (2, .payload .failureCode)]

instance : MutationValueCodec ExpectedObservation :=
  recordCodec (.cons 1 Digest <| .cons 2 ConstValue .nil)
    ⟨fun v ↦ (v.observationId, v.value, ()), fun t ↦ ⟨t.1, t.2.1⟩, fun _ ↦ rfl, fun _ ↦ rfl⟩

/-! ### Sets of identities -/

/-- `EntityIdSet::decode_value`: the order is checked while reading, and the set is sorted again. -/
def decodeEntityIdSet (depth : Nat) : Decoder EntityIdSet := do
  let values ← decodeList (HostSize.size EntityId) depth
    (admitAscending fun _ value ↦ .ok value.bytes) none (decodeValue (depth + 1))
  StateT.ofExcept ((EntityIdSet.fromUnsorted values).mapError fun _ ↦ .mapDuplicate)

/-- The lists of identities the decoder lets pass. -/
def encodeAscendingIds (depth : Nat) (values : List EntityId) : Result Bytes := do
  rejectIf (¬ Ascending (values.map Id.bytes)) .mapOrder
  encodeVec depth (encodeValue (depth + 1)) values

theorem exact_ascendingIds (depth : Nat) :
    Exact (encodeAscendingIds depth) (listCost (HostSize.size EntityId) cost)
      (decodeList (HostSize.size EntityId) depth
        (admitAscending fun _ value ↦ .ok value.bytes) none (decodeValue (depth + 1))) := by
  refine (MutationValueCodec.exact (depth + 1)).list fun {ids bs} _ ↦ ?_
  simp only [encodeAscendingIds, bind_eq_ok, rejectIf_eq_ok, not_not, exists_const, encodeVec_eq_ok]
  constructor
  · rintro ⟨hasc, hdepth, hcount, ps, hps, hbs⟩
    exact ⟨hdepth, hcount, ps, hps, (admits_ascending_keys hps.length_eq).2 hasc, hbs⟩
  · rintro ⟨hdepth, hcount, ps, hps, hadmits, hbs⟩
    exact ⟨(admits_ascending_keys hps.length_eq).1 hadmits, hdepth, hcount, ps, hps, hbs⟩

theorem exact_decodeEntityIdSet (depth : Nat) :
    Exact (fun v : EntityIdSet ↦ encodeVec depth (encodeValue (depth + 1)) v.values)
      (fun v ↦ listCost (HostSize.size EntityId) cost v.values) (decodeEntityIdSet depth) := by
  intro r hr b v r' b'
  simp only [decodeEntityIdSet, Decoder.bind_eq_ok, ofExcept_eq_ok,
    (exact_ascendingIds depth) hr, encodeAscendingIds, bind_eq_ok, rejectIf_eq_ok,
    not_not, exists_const]
  constructor
  · rintro ⟨ids, r₁, b₁, ⟨bs, ⟨hasc, hbs⟩, hcons, hb⟩, hset, rfl, rfl⟩
    rw [EntityIdSet.fromUnsorted_of_ascending hasc] at hset
    obtain rfl := Except.ok.inj hset
    exact ⟨bs, hbs, hcons, hb⟩
  · rintro ⟨bs, hbs, hcons, hb⟩
    refine ⟨v.values, r', b', ⟨bs, ⟨v.ascending, hbs⟩, hcons, hb⟩, ?_, rfl, rfl⟩
    rw [EntityIdSet.fromUnsorted_of_ascending v.ascending]
    rfl

instance : MutationValueCodec EntityIdSet where
  encodeValue depth v := encodeVec depth (encodeValue (depth + 1)) v.values
  decodeValue := decodeEntityIdSet
  cost v := listCost (HostSize.size EntityId) cost v.values
  exact := exact_decodeEntityIdSet

/-! ### Contracts

The last field of a contract may be missing, so its decoder accepts four or five fields, fills a
slot for each tag it meets and demands the first four slots at the end. Since tags ascend, a slot
that was skipped stays empty, and the tags met are `1, 2, 3, 4` and perhaps `5`. -/

/-- The fields of a contract met so far. -/
structure ContractSlots where
  target : Option EntityId := none
  contractKind : Option ContractKind := none
  predicate : Option EntityId := none
  bindings : Option (List ContractBinding) := none
  resourceLimits : Option ResourceLimits := none

namespace ContractSlots

/-- The tag read must be above the one before. -/
def checkTag (previous : Option UInt32) (tag : UInt32) : Result Unit := do
  match previous with
  | some previous =>
    rejectIf (tag = previous) .fieldDuplicate
    rejectIf (tag < previous) .fieldOrder
  | none => .ok ()

/-- Decode a field into its slot. -/
def fill (depth : Nat) (tag : UInt32) (payload : Bytes) (slots : ContractSlots) :
    Decoder ContractSlots :=
  match tag.toNat with
  | 1 => (fun value ↦ { slots with target := some value }) <$> decodeNested depth payload
  | 2 => (fun value ↦ { slots with contractKind := some value }) <$> decodeNested depth payload
  | 3 => (fun value ↦ { slots with predicate := some value }) <$> decodeNested depth payload
  | 4 => (fun value ↦ { slots with bindings := some value }) <$> decodeNested depth payload
  | 5 => (fun value ↦ { slots with resourceLimits := some value }) <$> decodeNested depth payload
  | _ => Decoder.fail .fieldUnknown

/-- The loop over the fields of a contract at `depth`. -/
def fillAll (depth : Nat) : Nat → Option UInt32 → ContractSlots → Decoder ContractSlots
  | 0, _, slots => return slots
  | n + 1, previous, slots => do
    let tag ← read decodeU32
    StateT.ofExcept (checkTag previous tag)
    let payload ← read Reader.readSizedPayload
    let slots ← fill (depth + 1) tag payload slots
    fillAll depth n (some tag) slots

/-- The contract, if no required slot is empty. -/
def toBody (slots : ContractSlots) : Result ContractBody := do
  let target ← ofOption .fieldMissing slots.target
  let contractKind ← ofOption .fieldMissing slots.contractKind
  let predicate ← ofOption .fieldMissing slots.predicate
  let bindings ← ofOption .fieldMissing slots.bindings
  return ⟨target, contractKind, predicate, bindings, slots.resourceLimits⟩

/-- A contract with every slot it has a value for. -/
def ofBody (body : ContractBody) : ContractSlots :=
  ⟨some body.target, some body.contractKind, some body.predicate, some body.bindings,
    body.resourceLimits⟩

/-- Whether the slot of a tag is filled. -/
def filled (slots : ContractSlots) (tag : Nat) : Bool :=
  match tag with
  | 1 => slots.target.isSome
  | 2 => slots.contractKind.isSome
  | 3 => slots.predicate.isSome
  | 4 => slots.bindings.isSome
  | _ => false

omit [HostLayout] in
theorem toBody_eq_ok {slots : ContractSlots} {body : ContractBody} :
    slots.toBody = .ok body ↔ slots = ofBody body := by
  obtain ⟨target, contractKind, predicate, bindings, limits⟩ := slots
  obtain ⟨target', contractKind', predicate', bindings', limits'⟩ := body
  simp only [toBody, ofBody, bind_eq_ok, Except.ofOption_eq_ok, Except.pure_eq_ok,
    ContractSlots.mk.injEq, ContractBody.mk.injEq]
  constructor
  · rintro ⟨_, rfl, _, rfl, _, rfl, _, rfl, rfl, rfl, rfl, rfl, rfl⟩
    exact ⟨rfl, rfl, rfl, rfl, rfl⟩
  · rintro ⟨rfl, rfl, rfl, rfl, rfl⟩
    exact ⟨_, rfl, _, rfl, _, rfl, _, rfl, rfl, rfl, rfl, rfl, rfl⟩

omit [HostLayout] in
theorem checkTag_eq_ok {previous : Option UInt32} {tag : UInt32} {u : Unit} :
    checkTag previous tag = .ok u ↔ ∀ q ∈ previous, q < tag := by
  cases previous with
  | none => simp [checkTag]
  | some q =>
    simp only [checkTag, bind_eq_ok, rejectIf_eq_ok, exists_const, Option.mem_some_iff, forall_eq']
    rw [UInt32.not_lt, UInt32.lt_iff_le_and_ne, and_comm, ne_comm]

variable {slots slots' : ContractSlots} {b b' : DecodeBudget} {r r' : Reader}

/-- Filling one slot leaves the others alone, and knows five tags. -/
theorem fill_frame {depth : Nat} {tag : UInt32} {p : Bytes}
    (h : (fill depth tag p slots).run (r, b) = .ok (slots', (r', b'))) :
    1 ≤ tag.toNat ∧ tag.toNat ≤ 5 ∧ ∀ t, t ≠ tag.toNat → slots'.filled t = slots.filled t := by
  unfold fill at h
  split at h
  case h_6 => exact absurd h Decoder.fail_ne_ok
  all_goals
    rename_i htag
    obtain ⟨value, -, rfl⟩ := map_eq_ok.1 h
    rw [htag]
    refine ⟨by decide, by decide, fun t ht ↦ ?_⟩
    unfold filled
    split <;> first | rfl | exact absurd rfl ht

/-- Slots up to the tag before are not touched any more. -/
theorem fillAll_frame {depth n : Nat} {q : UInt32}
    (h : (fillAll depth n (some q) slots).run (r, b) = .ok (slots', (r', b'))) :
    ∀ t, t ≤ q.toNat → slots'.filled t = slots.filled t := by
  induction n generalizing q slots r b with
  | zero =>
    obtain ⟨rfl, -⟩ := pure_eq_ok.1 h
    exact fun _ _ ↦ rfl
  | succ n ih =>
    simp only [fillAll, Decoder.bind_eq_ok, ofExcept_eq_ok, checkTag_eq_ok] at h
    obtain ⟨tag, _, _, -, _, _, _, ⟨hlt, -, -⟩, p, _, _, -, slots₁, _, _, hfill, hrest⟩ := h
    have hq : q.toNat < tag.toNat := UInt32.lt_iff_toNat_lt.1 (hlt q rfl)
    intro t ht
    rw [ih hrest t (by omega), (fill_frame hfill).2.2 t (by omega)]

/-- While a required slot is empty, its tag is the only one that leads to a contract. -/
theorem fillAll_succ {β : Type} [MutationValueCodec β] {depth n : Nat} {k : UInt32}
    {previous : Option UInt32} {f : β → ContractSlots} (expectedTags : List UInt32)
    (hfill : ∀ p, fill (depth + 1) k p slots = f <$> decodeNested (depth + 1) p)
    (hprev : previous.elim 0 UInt32.toNat + 1 = k.toNat)
    (hempty : k.toNat = 5 ∨ slots'.filled k.toNat = true ∧ slots.filled k.toNat = false) :
    (fillAll depth (n + 1) previous slots).run (r, b) = .ok (slots', (r', b')) ↔
      ∃ value r₁ b₁, (decodeField expectedTags k previous
          (decodeNested (depth + 1))).run (r, b) = .ok (value, (r₁, b₁)) ∧
        (fillAll depth n (some k) (f value)).run (r₁, b₁) = .ok (slots', (r', b')) := by
  have hbelow : ∀ q ∈ previous, q < k := by
    intro q hq
    obtain rfl : previous = some q := hq
    rw [UInt32.lt_iff_toNat_lt]
    exact Nat.lt_of_succ_le (Nat.le_of_eq hprev)
  have hleast : ∀ t : UInt32, (∀ q ∈ previous, q < t) → 1 ≤ t.toNat → k.toNat ≤ t.toNat := by
    intro t ht hone
    cases previous with
    | none => exact hprev ▸ hone
    | some q => exact hprev ▸ UInt32.lt_iff_toNat_lt.1 (ht q rfl)
  simp only [fillAll, decodeField, Decoder.bind_eq_ok, ofExcept_eq_ok,
    checkTag_eq_ok, RecordFields.checkTag_eq_ok hbelow]
  constructor
  · rintro ⟨tag, r₁, b₁, htag, _, _, _, ⟨hlt, rfl, rfl⟩, p, r₂, b₂, hp, slots₁, r₃, b₃, hslot,
      hrest⟩
    obtain ⟨hone, hfive, hframe⟩ := fill_frame hslot
    have hle := hleast tag hlt hone
    have heq : tag = k := by
      by_contra hne
      have hnat : k.toNat ≠ tag.toNat := fun h ↦ hne (UInt32.toNat_inj.1 h.symm)
      obtain hlast | ⟨hfull, hnone⟩ := hempty
      · omega
      · rw [fillAll_frame hrest _ hle, hframe _ hnat, hnone] at hfull
        cases hfull
    subst heq
    rw [hfill] at hslot
    obtain ⟨value, hvalue, rfl⟩ := map_eq_ok.1 hslot
    exact ⟨value, r₃, b₃, ⟨tag, _, _, htag, (), _, _, ⟨rfl, rfl, rfl⟩, p, r₂, b₂, hp, hvalue⟩, hrest⟩
  · rintro ⟨value, r₃, b₃, ⟨tag, r₁, b₁, htag, _, _, _, ⟨rfl, rfl, rfl⟩, p, r₂, b₂, hp, hvalue⟩,
      hrest⟩
    refine ⟨tag, _, _, htag, (), _, _, ⟨hbelow, rfl, rfl⟩, p, r₂, b₂, hp, f value, r₃, b₃, ?_,
      hrest⟩
    rw [hfill]
    exact map_eq_ok.2 ⟨value, hvalue, rfl⟩

end ContractSlots

/-- The required fields of a contract. -/
def contractShape :
    RecordShape (EntityId × ContractKind × EntityId × List ContractBinding × Unit) :=
  .cons 1 EntityId <| .cons 2 ContractKind <| .cons 3 EntityId <| .cons 4 (List ContractBinding) .nil

/-- All fields of a contract. -/
def limitedContractShape : RecordShape
    (EntityId × ContractKind × EntityId × List ContractBinding × ResourceLimits × Unit) :=
  .cons 1 EntityId <| .cons 2 ContractKind <| .cons 3 EntityId <|
    .cons 4 (List ContractBinding) <| .cons 5 ResourceLimits .nil

/-- `ContractBody::encode_value`: absent limits are not written at all. -/
def encodeContract (depth : Nat) (body : ContractBody) : Result Bytes :=
  match body.resourceLimits with
  | none => (contractShape.fields depth).encodeRecordValue depth
    (body.target, body.contractKind, body.predicate, body.bindings, ())
  | some limits => (limitedContractShape.fields depth).encodeRecordValue depth
    (body.target, body.contractKind, body.predicate, body.bindings, limits, ())

/-- `ContractBody::decode_value`. -/
def decodeContract (depth : Nat) : Decoder ContractBody := do
  StateT.ofExcept (checkContainerDepth depth)
  let count ← read Reader.readRecordFieldCount
  StateT.ofExcept (rejectIf (¬ (4 ≤ count ∧ count ≤ 5))
    (if count < 4 then .fieldMissing else .fieldUnknown))
  let slots ← ContractSlots.fillAll depth count none {}
  StateT.ofExcept slots.toBody

def contractCost (body : ContractBody) : Nat :=
  match body.resourceLimits with
  | none => contractShape.cost
    (body.target, body.contractKind, body.predicate, body.bindings, ())
  | some limits => limitedContractShape.cost
    (body.target, body.contractKind, body.predicate, body.bindings, limits, ())

variable {body : ContractBody} {b b' : DecodeBudget} {r r' : Reader}

/-- The first four fields met are the required ones. -/
theorem fillAll_required {depth n : Nat} (tags : List UInt32) :
    (ContractSlots.fillAll depth (n + 4) none {}).run (r, b) = .ok (.ofBody body, (r', b')) ↔
      ∃ v₁ r₁ b₁, (decodeField tags 1 none (decodeNested (depth + 1))).run (r, b) =
          .ok (v₁, (r₁, b₁)) ∧
      ∃ v₂ r₂ b₂, (decodeField tags 2 (some 1) (decodeNested (depth + 1))).run
          (r₁, b₁) = .ok (v₂, (r₂, b₂)) ∧
      ∃ v₃ r₃ b₃, (decodeField tags 3 (some 2) (decodeNested (depth + 1))).run
          (r₂, b₂) = .ok (v₃, (r₃, b₃)) ∧
      ∃ v₄ r₄ b₄, (decodeField tags 4 (some 3) (decodeNested (depth + 1))).run
          (r₃, b₃) = .ok (v₄, (r₄, b₄)) ∧
        (ContractSlots.fillAll depth n (some 4) ⟨some v₁, some v₂, some v₃, some v₄, none⟩).run
          (r₄, b₄) = .ok (.ofBody body, (r', b')) := by
  refine (ContractSlots.fillAll_succ tags (k := 1) (fun _ ↦ rfl) rfl (.inr ⟨rfl, rfl⟩)).trans ?_
  refine exists_congr fun v₁ ↦ exists_congr fun r₁ ↦ exists_congr fun b₁ ↦ and_congr_right fun _ ↦ ?_
  refine (ContractSlots.fillAll_succ tags (k := 2) (fun _ ↦ rfl) rfl (.inr ⟨rfl, rfl⟩)).trans ?_
  refine exists_congr fun v₂ ↦ exists_congr fun r₂ ↦ exists_congr fun b₂ ↦ and_congr_right fun _ ↦ ?_
  refine (ContractSlots.fillAll_succ tags (k := 3) (fun _ ↦ rfl) rfl (.inr ⟨rfl, rfl⟩)).trans ?_
  refine exists_congr fun v₃ ↦ exists_congr fun r₃ ↦ exists_congr fun b₃ ↦ and_congr_right fun _ ↦ ?_
  exact ContractSlots.fillAll_succ tags (k := 4) (fun _ ↦ rfl) rfl (.inr ⟨rfl, rfl⟩)

/-- Four fields: a contract without limits. -/
theorem fillAll_four {depth : Nat} {tags : List UInt32} :
    (ContractSlots.fillAll depth 4 none {}).run (r, b) = .ok (.ofBody body, (r', b')) ↔
      body.resourceLimits = none ∧ ((contractShape.fields depth).decode tags none).run (r, b) =
        .ok ((body.target, body.contractKind, body.predicate, body.bindings, ()), (r', b')) := by
  refine (fillAll_required tags).trans ?_
  simp only [contractShape, RecordShape.fields, cons_decode_eq_ok,
    nil_decode_eq_ok, ContractSlots.fillAll, pure_eq_ok, ContractSlots.ofBody,
    ContractSlots.mk.injEq, Option.some.injEq]
  constructor
  · rintro ⟨_, r₁, b₁, h₁, _, r₂, b₂, h₂, _, r₃, b₃, h₃, _, r₄, b₄, h₄,
      ⟨rfl, rfl, rfl, rfl, hlimits⟩, hr, hb⟩
    exact ⟨hlimits, r₁, b₁, h₁, r₂, b₂, h₂, r₃, b₃, h₃, r₄, b₄, h₄, hr, hb⟩
  · rintro ⟨hlimits, r₁, b₁, h₁, r₂, b₂, h₂, r₃, b₃, h₃, r₄, b₄, h₄, hr, hb⟩
    exact ⟨_, r₁, b₁, h₁, _, r₂, b₂, h₂, _, r₃, b₃, h₃, _, r₄, b₄, h₄,
      ⟨rfl, rfl, rfl, rfl, hlimits⟩, hr, hb⟩

/-- Five fields: a contract with limits. -/
theorem fillAll_five {depth : Nat} {tags : List UInt32} :
    (ContractSlots.fillAll depth 5 none {}).run (r, b) = .ok (.ofBody body, (r', b')) ↔
      ∃ limits, body.resourceLimits = some limits ∧
        ((limitedContractShape.fields depth).decode tags none).run (r, b) =
          .ok ((body.target, body.contractKind, body.predicate, body.bindings, limits, ()),
            (r', b')) := by
  have hlast : ∀ {slots : ContractSlots} {r b},
      (ContractSlots.fillAll depth 1 (some 4) slots).run (r, b) = .ok (.ofBody body, (r', b')) ↔
        ∃ limits r₁ b₁, (decodeField tags 5 (some 4) (decodeNested (depth + 1))).run
            (r, b) = .ok (limits, (r₁, b₁)) ∧
          (ContractSlots.fillAll depth 0 (some 5) { slots with resourceLimits := some limits }).run
            (r₁, b₁) = .ok (.ofBody body, (r', b')) :=
    ContractSlots.fillAll_succ tags (k := 5) (fun _ ↦ rfl) rfl (.inl rfl)
  refine (fillAll_required tags).trans ?_
  simp only [hlast, limitedContractShape, RecordShape.fields, cons_decode_eq_ok, nil_decode_eq_ok]
  simp only [ContractSlots.fillAll, pure_eq_ok, ContractSlots.ofBody,
    ContractSlots.mk.injEq, Option.some.injEq]
  constructor
  · rintro ⟨_, r₁, b₁, h₁, _, r₂, b₂, h₂, _, r₃, b₃, h₃, _, r₄, b₄, h₄, limits, r₅, b₅, h₅,
      ⟨rfl, rfl, rfl, rfl, hlimits⟩, hr, hb⟩
    exact ⟨limits, hlimits, r₁, b₁, h₁, r₂, b₂, h₂, r₃, b₃, h₃, r₄, b₄, h₄, r₅, b₅, h₅, hr, hb⟩
  · rintro ⟨limits, hlimits, r₁, b₁, h₁, r₂, b₂, h₂, r₃, b₃, h₃, r₄, b₄, h₄, r₅, b₅, h₅, hr, hb⟩
    exact ⟨_, r₁, b₁, h₁, _, r₂, b₂, h₂, _, r₃, b₃, h₃, _, r₄, b₄, h₄, limits, r₅, b₅, h₅,
      ⟨rfl, rfl, rfl, rfl, hlimits⟩, hr, hb⟩

/-- The count decides which of the two records a contract is. -/
theorem decodeContract_eq_ok {depth : Nat} :
    (decodeContract depth).run (r, b) = .ok (body, (r', b')) ↔ (body.resourceLimits = none ∧
        ((contractShape.fields depth).decodeRecordFields depth).run (r, b) =
          .ok ((body.target, body.contractKind, body.predicate, body.bindings, ()), (r', b'))) ∨
      ∃ limits, body.resourceLimits = some limits ∧
        ((limitedContractShape.fields depth).decodeRecordFields depth).run (r, b) =
          .ok ((body.target, body.contractKind, body.predicate, body.bindings, limits, ()),
            (r', b')) := by
  simp only [decodeContract, RecordFields.decodeRecordFields, Decoder.bind_eq_ok,
    ofExcept_eq_ok, rejectIf_eq_ok, ContractSlots.toBody_eq_ok, not_not]
  constructor
  · rintro ⟨_, _, _, ⟨hdepth, rfl, rfl⟩, count, r₁, b₁, hcount, _, _, _, ⟨hrange, rfl, rfl⟩, slots,
      _, _, hfill, rfl, rfl, rfl⟩
    obtain rfl | rfl : count = 4 ∨ count = 5 := by omega
    · obtain ⟨hlimits, hfields⟩ := fillAll_four.1 hfill
      exact .inl ⟨hlimits, (), _, _, ⟨hdepth, rfl, rfl⟩, 4, _, _, hcount, (), _, _, ⟨rfl, rfl, rfl⟩,
        hfields⟩
    · obtain ⟨limits, hlimits, hfields⟩ := fillAll_five.1 hfill
      exact .inr ⟨limits, hlimits, (), _, _, ⟨hdepth, rfl, rfl⟩, 5, _, _, hcount, (), _, _,
        ⟨rfl, rfl, rfl⟩, hfields⟩
  · rintro (⟨hlimits, _, _, _, ⟨hdepth, rfl, rfl⟩, _, r₁, b₁, hcount, _, _, _, ⟨rfl, rfl, rfl⟩,
      hfields⟩ | ⟨limits, hlimits, _, _, _, ⟨hdepth, rfl, rfl⟩, _, r₁, b₁, hcount, _, _, _,
      ⟨rfl, rfl, rfl⟩, hfields⟩)
    · exact ⟨(), _, _, ⟨hdepth, rfl, rfl⟩, 4, _, _, hcount, (), _, _, ⟨by decide, rfl, rfl⟩, _, _, _,
        fillAll_four.2 ⟨hlimits, hfields⟩, rfl, rfl, rfl⟩
    · exact ⟨(), _, _, ⟨hdepth, rfl, rfl⟩, 5, _, _, hcount, (), _, _, ⟨by decide, rfl, rfl⟩, _, _, _,
        fillAll_five.2 ⟨limits, hlimits, hfields⟩, rfl, rfl, rfl⟩

theorem exact_decodeContract (depth : Nat) :
    Exact (encodeContract depth) contractCost (decodeContract depth) := by
  have hrequired := (contractShape.exact_fields (RecordShape.wellFormed_iff.1 rfl).1 depth).exact
    (show 4 ≤ _ by decide) depth
  have hlimited := (limitedContractShape.exact_fields
    (RecordShape.wellFormed_iff.1 rfl).1 depth).exact (show 5 ≤ _ by decide) depth
  intro r hr b body r' b'
  rw [decodeContract_eq_ok]
  obtain ⟨target, contractKind, predicate, bindings, limits⟩ := body
  cases limits with
  | none =>
    simp only [reduceCtorEq, false_and, exists_false, or_false, true_and]
    rw [hrequired hr]
    rfl
  | some limits =>
    simp only [reduceCtorEq, false_and, false_or, Option.some.injEq, exists_eq_left']
    rw [hlimited hr]
    rfl

instance : MutationValueCodec ContractBody where
  encodeValue := encodeContract
  decodeValue := decodeContract
  cost := contractCost
  exact := exact_decodeContract

end Sized

end Sley.Mutate
