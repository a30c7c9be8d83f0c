import Sley.Repo.CompareExact
import Sley.Scb1.Sizes

/-!
# A comparison the other way round

Comparing two roots in the other direction exchanges what was added with what was removed, and the
base with the target. The sections are walked in the same order with the same charges, so **one
direction succeeds when the other does** (`exists_compareSides`), and the encodings have the same
size.

One bit is not exchanged in general: flag 4 of a type form says that a shared member changed, and
the source looks a member up in the target only. Where no form repeats a member this is the same in
both directions.
-/

namespace Sley.Repo

open Scb1 Ssmc Mutate Query
open Except hiding ok error
open List (length_append length_map mapM_cons map_append map_cons map_map map_nil)
open Id (splat)
open Prod (fst mk)

/-! ### Exchanging a delta -/

def ChangeClass.exchange : ChangeClass → ChangeClass
  | added => removed
  | removed => added
  | changed => changed
  | retyped => retyped
  | metadataOnly => metadataOnly

def EntityDelta.exchange (delta : EntityDelta) : EntityDelta where
  entityId := delta.entityId
  change := delta.change.exchange
  baseKind := delta.targetKind
  targetKind := delta.baseKind
  baseObject := delta.targetObject
  targetObject := delta.baseObject

def FieldDelta.exchange (delta : FieldDelta) : FieldDelta :=
  { delta with added := delta.removed, removed := delta.added }

def BodyDelta.exchange (delta : BodyDelta) : BodyDelta where
  entityId := delta.entityId
  baseFingerprint := delta.targetFingerprint
  targetFingerprint := delta.baseFingerprint
  baseBlocks := delta.targetBlocks
  targetBlocks := delta.baseBlocks
  baseOperations := delta.targetOperations
  targetOperations := delta.baseOperations

def RelationChange.exchange : RelationChange → RelationChange
  | added => removed
  | removed => added

def RelationDelta.exchange (delta : RelationDelta) : RelationDelta :=
  { delta with change := delta.change.exchange }

/-- Added and removed, base and target change places. -/
def SemanticDelta.exchange (delta : SemanticDelta) : SemanticDelta where
  workspaceId := delta.workspaceId
  rootSchemaEpoch := delta.rootSchemaEpoch
  baseRoot := delta.targetRoot
  targetRoot := delta.baseRoot
  entities := delta.entities.map EntityDelta.exchange
  fields := delta.fields.map FieldDelta.exchange
  bodies := delta.bodies.map BodyDelta.exchange
  relations := delta.relations.map RelationDelta.exchange
  dependencyRootsAdded := delta.dependencyRootsRemoved
  dependencyRootsRemoved := delta.dependencyRootsAdded
  entryPointsAdded := delta.entryPointsRemoved
  entryPointsRemoved := delta.entryPointsAdded
  collateral := delta.collateral

/-- A definition whose form has a member identity twice. -/
def RepeatsMember (body : EntityBodyValue) : Prop :=
  ∃ value : TypeDefBody, body = ⟨.typeDef, value⟩ ∧ ¬ (memberIds value.form).Nodup

/-- The identities of the definitions on either side that repeat a member. -/
def repeatedMembers (base target : CompleteRootRequest) : Set EntityId :=
  {id | ∃ entity ∈ base.entities ++ target.entities,
    entity.entityId = id ∧ RepeatsMember entity.body}

/-- A field delta of the other direction; flag 4 may differ for the identities of `repeats`. -/
structure FieldDelta.IsExchange (repeats : Set EntityId) (delta delta' : FieldDelta) : Prop where
  eq_exchange : delta' = { delta.exchange with flags := delta'.flags }
  otherFlags : delta'.flags ||| 4 = delta.flags ||| 4
  flags : delta.entityId ∉ repeats → delta'.flags = delta.flags

/-- A delta of the other direction: all is exchanged, but for flags 4 of the field deltas. -/
structure SemanticDelta.IsExchange (repeats : Set EntityId) (delta delta' : SemanticDelta) :
    Prop where
  eq_exchange : delta' = { delta.exchange with fields := delta'.fields }
  fields : List.Forall₂ (FieldDelta.IsExchange repeats) delta.fields delta'.fields

theorem FieldDelta.IsExchange.mono {repeats repeats' : Set EntityId} {delta delta' : FieldDelta}
    (h : delta.IsExchange repeats delta') (hsub : delta.entityId ∈ repeats → delta.entityId ∈ repeats') :
    delta.IsExchange repeats' delta' :=
  ⟨h.eq_exchange, h.otherFlags, fun hnot ↦ h.flags fun hmem ↦ hnot (hsub hmem)⟩

/-- Where no member is repeated, the other direction is the exchange. -/
theorem SemanticDelta.IsExchange.eq_of_empty {delta delta' : SemanticDelta}
    (h : delta.IsExchange ∅ delta') : delta' = delta.exchange := by
  have hfields : delta'.fields = delta.exchange.fields := by
    have hall : List.Forall₂ (· = ·) delta'.fields (delta.fields.map FieldDelta.exchange) := by
      refine List.forall₂_map_right_iff.2 (h.fields.flip.imp fun entry' entry hentry ↦ ?_)
      rw [hentry.eq_exchange, hentry.flags (Set.notMem_empty _)]
      rfl
    rwa [List.forall₂_eq_eq_eq] at hall
  rw [h.eq_exchange, hfields]

/-! ### Fields -/

section Fields

/-- A member that both lists have and that differs, looked up from either side. -/
theorem exists_shared {α : Type} {key : α → MemberId} {differs : α → α → Prop} {x y : List α}
    (hx : (x.map key).Nodup) (hsymm : ∀ a b, differs a b → differs b a)
    (h : ∃ a ∈ x, ∃ b, y.find? (key · = key a) = some b ∧ differs b a) :
    ∃ b ∈ y, ∃ a, x.find? (key · = key b) = some a ∧ differs a b := by
  obtain ⟨a, ha, b, hb, hdiffers⟩ := h
  have hfound := List.find?_some hb
  have hkey : key b = key a := of_decide_eq_true hfound
  exact ⟨b, List.mem_of_find?_eq_some hb, a,
    (find?_eq_some_iff_of_nodup hx).2 ⟨ha, hkey.symm⟩, hsymm _ _ hdiffers⟩

theorem mem_memberIds_of_find? {α : Type} {key : α → MemberId} {x : List α} {k : MemberId} {a : α}
    (h : x.find? (key · = k) = some a) : memberEntity k ∈ x.map (memberEntity <| key ·) := by
  have hfound := List.find?_some h
  obtain rfl : key a = k := of_decide_eq_true hfound
  exact List.mem_map_of_mem (List.mem_of_find?_eq_some h)

theorem sharedMemberChanged_record {x y : List RecordField} :
    sharedMemberChanged (.record x) (.record y) ↔
      ∃ a ∈ x, ∃ b, y.find? (·.memberId = a.memberId) = some b ∧
        (b.valueType ≠ a.valueType ∨ b.visibility ≠ a.visibility) := by
  simp only [sharedMemberChanged, List.any_eq_true, decide_eq_true_eq, Bool.decide_and,
    Bool.and_eq_true, Option.any_eq_true, memberIds]
  refine exists_congr fun a ↦ and_congr_right fun ha ↦ ⟨fun h ↦ h.2.2, fun h ↦ ?_⟩
  obtain ⟨b, hb, hdiffer⟩ := h
  exact ⟨mem_memberIds_of_find? hb, List.mem_map_of_mem ha, b, hb, hdiffer⟩

theorem sharedMemberChanged_variant {x y : List VariantCase} :
    sharedMemberChanged (.variant x) (.variant y) ↔
      ∃ a ∈ x, ∃ b, y.find? (·.memberId = a.memberId) = some b ∧ b.payloadType ≠ a.payloadType := by
  simp only [sharedMemberChanged, List.any_eq_true, decide_eq_true_eq, Bool.decide_and,
    Bool.and_eq_true, Option.any_eq_true, memberIds]
  refine exists_congr fun a ↦ and_congr_right fun ha ↦ ⟨fun h ↦ h.2, fun h ↦ ?_⟩
  obtain ⟨b, hb, hdiffer⟩ := h
  exact ⟨mem_memberIds_of_find? hb, b, hb, hdiffer⟩

variable {a b : TypeDefForm}

/-- Where the first form repeats no member, a change that it sees is seen from the other. -/
theorem sharedMemberChanged_of_nodup (ha : (memberIds a).Nodup)
    (h : sharedMemberChanged a b) : sharedMemberChanged b a := by
  cases a with
  | record x =>
    have hx : (x.map RecordField.memberId).Nodup :=
      List.Nodup.of_map memberEntity (by rwa [map_map])
    cases b with
    | record y =>
      rw [sharedMemberChanged_record] at h ⊢
      exact exists_shared hx (fun a b h ↦ h.imp Ne.symm Ne.symm) h
    | variant y => cases h
  | variant x =>
    have hx : (x.map VariantCase.memberId).Nodup :=
      List.Nodup.of_map memberEntity (by rwa [map_map])
    cases b with
    | record y => cases h
    | variant y =>
      rw [sharedMemberChanged_variant] at h ⊢
      exact exists_shared hx (fun a b h ↦ Ne.symm h) h

theorem sharedMemberChanged_comm (ha : (memberIds a).Nodup)
    (hb : (memberIds b).Nodup) : sharedMemberChanged a b = sharedMemberChanged b a :=
  Bool.eq_iff_iff.2 ⟨sharedMemberChanged_of_nodup ha, sharedMemberChanged_of_nodup hb⟩

/-- All flags of two forms but the last are the same from either side. -/
theorem formFlags_or_four (a b : TypeDefForm) : formFlags b a ||| 4 = formFlags a b ||| 4 := by
  have hlast : ∀ (x : UInt32) (c : Prop) [Decidable c],
      (x ||| if c then 4 else 0) ||| 4 = x ||| 4 := by
    intro x c _
    split
    · rw [UInt32.or_assoc, UInt32.or_self]
    · rw [UInt32.or_zero]
  simp only [formFlags, hlast, ne_comm (a := b.tag), ne_comm (a := List.filter _ (memberIds b))]

theorem formFlags_comm (ha : (memberIds a).Nodup) (hb : (memberIds b).Nodup) :
    formFlags b a = formFlags a b := by
  simp only [formFlags, ne_comm (a := b.tag), eq_comm (a := b.tag),
    ne_comm (a := List.filter _ (memberIds b)), sharedMemberChanged_comm ha hb]

/-! ### Rows -/

/-- The context of the other direction. -/
def DeltaContext.exchange (context : DeltaContext) : DeltaContext :=
  { context with
    baseParameters := context.targetParameters
    targetParameters := context.baseParameters }

/-- A row fires in both directions or in none, with exchanged deltas; flag 4 may differ unless both
bodies are `unique`. -/
def DeltaRow.Exchanges {β : Type} (unique : β → Prop) (row : DeltaRow β) : Prop :=
  ∀ context a b, Option.Rel
    (FieldDelta.IsExchange {id | id = context.entityId ∧ ¬ (unique a ∧ unique b)})
    (row.delta context a b) (row.delta context.exchange b a)

variable {α β : Type} {unique : β → Prop}

theorem exchanges_of_ite {field : UInt32} {differs : β → β → Prop} [∀ a b, Decidable (differs a b)]
    (flags : DeltaContext → β → β → UInt32) (ids : β → List EntityId)
    (hdiffers : ∀ a b, differs a b ↔ differs b a)
    (hother : ∀ context a b, flags context.exchange b a ||| 4 = flags context a b ||| 4)
    (hflags : ∀ context a b, unique a → unique b → flags context.exchange b a = flags context a b) :
    DeltaRow.Exchanges unique ⟨field, fun context a b ↦ if differs a b then
      some (pushField context field (flags context a b) (ids a) (ids b)) else none⟩ := by
  intro context a b
  show Option.Rel _ (if differs a b then some _ else none) (if differs b a then some _ else none)
  by_cases h : differs a b
  · have h' : differs b a := (hdiffers a b).1 h
    rw [if_pos h, if_pos h']
    refine .some ⟨rfl, ?_, fun hnot ↦ ?_⟩
    · show 1 ||| flags context.exchange b a ||| 4 = 1 ||| flags context a b ||| 4
      rw [UInt32.or_assoc, UInt32.or_assoc, hother]
    · show 1 ||| flags context.exchange b a = 1 ||| flags context a b
      have hunique : unique a ∧ unique b := by
        by_contra hrepeats
        exact hnot ⟨rfl, hrepeats⟩
      rw [hflags context a b hunique.1 hunique.2]
  · have h' : ¬ differs b a := fun hba ↦ h ((hdiffers a b).2 hba)
    rw [if_neg h, if_neg h']
    exact .none

theorem scalarField_exchanges [DecidableEq α] (field : UInt32) (get : β → α) :
    (scalarField field get).Exchanges unique :=
  exchanges_of_ite (fun _ _ _ ↦ 0) (fun _ ↦ []) (fun _ _ ↦ ne_comm)
    (fun _ _ _ ↦ rfl) fun _ _ _ _ _ ↦ rfl

theorem setField_exchanges (field : UInt32) (get : β → List EntityId) :
    (setField field get).Exchanges unique :=
  exchanges_of_ite (fun _ _ _ ↦ 0) get (fun _ _ ↦ ne_comm) (fun _ _ _ ↦ rfl)
    fun _ _ _ _ _ ↦ rfl

theorem formField_exchanges (field : UInt32) (get : β → TypeDefForm)
    (hunique : ∀ b, unique b → (memberIds (get b)).Nodup) :
    (formField field get).Exchanges unique :=
  exchanges_of_ite (fun _ a b ↦ formFlags (get a) (get b)) (fun b ↦ memberIds (get b))
    (fun _ _ ↦ ne_comm) (fun _ a b ↦ formFlags_or_four (get a) (get b))
    fun _ a b ha hb ↦ formFlags_comm (hunique a ha) (hunique b hb)

theorem parametersField_exchanges (field : UInt32) (get : β → List EntityId) :
    (parametersField field get).Exchanges unique := by
  let types (parameters : EntityMap ParameterBody) (ids : List EntityId) :
      List (Option TypeExpr) := ids.map fun id ↦ parameters[id]?.map (·.valueType)
  have hflags : ∀ (context : DeltaContext) (a b : β),
      (if types context.exchange.baseParameters (get b) ≠
        types context.exchange.targetParameters (get a) then (2 : UInt32) else 0) =
      if types context.baseParameters (get a) ≠ types context.targetParameters (get b)
        then 2 else 0 := fun context a b ↦ if_congr ne_comm rfl rfl
  exact exchanges_of_ite _ get (fun _ _ ↦ ne_comm)
    (fun context a b ↦ congrArg (· ||| 4) (hflags context a b))
    fun context a b _ _ ↦ hflags context a b

/-- The form of a definition repeats no member. -/
def UniqueMembers : (kind : EntityKind) → kind.Body → Prop
  | .typeDef, (value : TypeDefBody) => (memberIds value.form).Nodup
  | _, _ => True

theorem fieldDeltaRows_exchange (kind : EntityKind) :
    ∀ row ∈ fieldDeltaRows kind, row.Exchanges (UniqueMembers kind) := by
  cases kind
  all_goals
    simp only [fieldDeltaRows, List.forall_mem_cons, List.not_mem_nil, false_implies, implies_true,
      and_true]
    repeat' apply And.intro
    all_goals first
      | exact scalarField_exchanges _ _
      | exact setField_exchanges _ _
      | exact parametersField_exchanges _ _
      | exact formField_exchanges _ _ fun _ h ↦ h

theorem forall₂_filterMap {γ δ ε : Type} {R : δ → ε → Prop} {f : γ → Option δ} {g : γ → Option ε}
    {xs : List γ} (h : ∀ x ∈ xs, Option.Rel R (f x) (g x)) :
    List.Forall₂ R (xs.filterMap f) (xs.filterMap g) := by
  induction xs with
  | nil => exact .nil
  | cons x xs ih =>
    have hrest := ih fun y hy ↦ h y (List.mem_cons_of_mem _ hy)
    have hhead := h x List.mem_cons_self
    rw [List.filterMap_cons, List.filterMap_cons]
    cases hfx : f x with
    | none =>
      cases hgx : g x with
      | none => exact hrest
      | some e => rw [hfx, hgx] at hhead; cases hhead
    | some d =>
      cases hgx : g x with
      | none => rw [hfx, hgx] at hhead; cases hhead
      | some e =>
        rw [hfx, hgx] at hhead
        obtain ⟨hde⟩ := hhead
        exact .cons hde hrest

theorem bodyDeltas_exchange (context : DeltaContext) {kind : EntityKind} (before after : kind.Body) :
    List.Forall₂ (FieldDelta.IsExchange {id | id = context.entityId ∧
        ¬ (UniqueMembers kind before ∧ UniqueMembers kind after)})
      (bodyDeltas context before after) (bodyDeltas context.exchange after before) :=
  forall₂_filterMap fun row hrow ↦ fieldDeltaRows_exchange kind row hrow context before after

end Fields

/-! ### Charges -/

theorem chargeCompare_eq_ok {work amount work' : Nat} :
    chargeCompare work amount = .ok work' ↔ work' = work + amount ∧ work' ≤ maxCompareWork := by
  simp only [chargeCompare, CompareErrorCode.charge, mapError_eq_ok, bind_eq_ok, rejectIf_eq_ok,
    Unique.exists_iff, pure_eq_ok, gt_iff_lt, ge_iff_le, Nat.not_lt, Nat.not_le]
  constructor
  · rintro ⟨-, hle, rfl⟩
    exact ⟨rfl, hle⟩
  · rintro ⟨rfl, hle⟩
    exact ⟨lt_of_le_of_lt hle (by decide), hle, rfl⟩

/-! ### Sections 1 and 2 -/

section Entities

theorem repeatsMember_of_not_unique {kind : EntityKind} {body : kind.Body}
    (h : ¬ UniqueMembers kind body) : RepeatsMember ⟨kind, body⟩ := by
  cases kind
  case typeDef => exact ⟨body, rfl, h⟩
  all_goals exact absurd trivial h

variable {before after : ImpactEntity}

theorem exists_fieldDeltas
    {baseParameters targetParameters : EntityMap ParameterBody} {work work' : Nat}
    {fields : List FieldDelta} (repeats : Set EntityId) (hid : after.entityId = before.entityId)
    (hrepeats : RepeatsMember before.body ∨ RepeatsMember after.body → before.entityId ∈ repeats)
    (h : fieldDeltas before after baseParameters targetParameters work = .ok (fields, work')) :
    ∃ fields', fieldDeltas after before targetParameters baseParameters work = .ok (fields', work') ∧
      List.Forall₂ (FieldDelta.IsExchange repeats) fields fields' := by
  obtain ⟨id, kind, a⟩ := before
  obtain ⟨id', kind', b⟩ := after
  obtain rfl : id' = id := hid
  obtain ⟨charged, hcharge, h⟩ := bind_eq_ok.1 h
  dsimp only at h
  by_cases hkind : kind' = kind
  · subst hkind
    rw [dif_pos rfl] at h
    obtain ⟨rfl, rfl⟩ := mk.inj (pure_eq_ok.1 h)
    refine ⟨_, bind_eq_ok.2 ⟨_, hcharge, (dif_pos rfl).trans rfl⟩, ?_⟩
    refine (bodyDeltas_exchange _ a b).imp fun delta delta' hdelta ↦ hdelta.mono ?_
    rintro ⟨hentity, hunique⟩
    rw [hentity]
    obtain ha | hb := not_and_or.1 hunique
    · exact hrepeats (.inl (repeatsMember_of_not_unique ha))
    · exact hrepeats (.inr (repeatsMember_of_not_unique hb))
  · rw [dif_neg hkind] at h
    cases h

theorem sharedChange_comm (before after : ImpactEntity) :
    sharedChange after before = sharedChange before after := by
  rw [sharedChange, sharedChange]
  exact if_congr ne_comm rfl (if_congr eq_comm rfl rfl)

theorem exchange_sharedChange (before after : ImpactEntity) :
    (sharedChange before after).exchange = sharedChange before after := by
  rw [sharedChange]
  split_ifs <;> rfl

theorem unionIds_comm (base target : Side) : unionIds target base = unionIds base target := by
  have hsorted : Ascends (fun id : EntityId ↦ id) (unionIds target base) := unionIds_sorted _ _
  refine hsorted.eq_of_mem_iff (unionIds_sorted base target) fun id ↦ ?_
  simp only [unionIds, Std.ExtTreeSet.mem_toList, EntitySet.mem_ofIds, List.mem_append, or_comm]

/-- The first two sections in the two directions. -/
structure EntitySections.IsExchange (repeats : Set EntityId) (sections sections' : EntitySections) :
    Prop where
  entities : sections'.entities = sections.entities.map EntityDelta.exchange
  fields : List.Forall₂ (FieldDelta.IsExchange repeats) sections.fields sections'.fields
  work : sections'.work = sections.work

variable {base target : Side} {baseRequest targetRequest : CompleteRootRequest}

theorem exists_changedFields (hb : base.Views baseRequest) (ht : target.Views targetRequest)
    {id : EntityId} (hbefore : base.entities[id]? = some before)
    (hafter : target.entities[id]? = some after) {work work' : Nat} {fields : List FieldDelta}
    (h : changedFields base target (sharedChange before after) before after work =
      .ok (fields, work')) :
    ∃ fields', changedFields target base (sharedChange after before) after before work =
        .ok (fields', work') ∧
      List.Forall₂ (FieldDelta.IsExchange (repeatedMembers baseRequest targetRequest)) fields
        fields' := by
  obtain ⟨hbeforeMem, hbeforeId⟩ := hb.mem_entities hbefore
  obtain ⟨hafterMem, hafterId⟩ := ht.mem_entities hafter
  rw [changedFields] at h ⊢
  rw [sharedChange_comm]
  split
  · rename_i hchange
    rw [if_pos hchange, mapError_eq_ok] at h
    obtain ⟨fields', hfields', hexchange⟩ := exists_fieldDeltas
      (repeatedMembers baseRequest targetRequest) (hafterId.trans hbeforeId.symm) (by
        rintro (hrepeats | hrepeats)
        · exact ⟨before, List.mem_append_left _ hbeforeMem, rfl, hrepeats⟩
        · exact ⟨after, List.mem_append_right _ hafterMem, hafterId.trans hbeforeId.symm,
            hrepeats⟩) h
    exact ⟨fields', mapError_eq_ok.2 hfields', hexchange⟩
  · rename_i hchange
    rw [if_neg hchange] at h
    obtain ⟨rfl, rfl⟩ := mk.inj (Except.ok.inj h)
    exact ⟨[], rfl, .nil⟩

/-- **One identity is classified in both directions alike.** -/
theorem exists_classify (hb : base.Views baseRequest) (ht : target.Views targetRequest)
    {s t s' : EntitySections} {id : EntityId}
    (hst : s.IsExchange (repeatedMembers baseRequest targetRequest) t)
    (h : classify base target s id = .ok s') :
    ∃ t', classify target base t id = .ok t' ∧
      s'.IsExchange (repeatedMembers baseRequest targetRequest) t' := by
  obtain ⟨hentities, hfields, hwork⟩ := hst
  obtain ⟨work, hcharge, h⟩ := bind_eq_ok.1 h
  have hcharge' : chargeCompare t.work 1 = .ok work := hwork ▸ hcharge
  rw [classify, hcharge', ok_bind]
  split at h
  · rename_i entity hbase htarget
    obtain rfl := pure_eq_ok.1 h
    rw [hbase, htarget]
    refine ⟨_, rfl, ?_, hfields, rfl⟩
    rw [hentities, map_append]
    rfl
  · rename_i entity hbase htarget
    obtain rfl := pure_eq_ok.1 h
    rw [hbase, htarget]
    refine ⟨_, rfl, ?_, hfields, rfl⟩
    rw [hentities, map_append]
    rfl
  · rename_i before after hbase htarget
    rw [hbase, htarget]
    split at h
    · rename_i hobjects
      obtain rfl := pure_eq_ok.1 h
      exact ⟨_, if_pos hobjects.symm, hentities, hfields, rfl⟩
    · rename_i hobjects
      obtain ⟨⟨changed, work'⟩, hchanged, h⟩ := bind_eq_ok.1 h
      obtain rfl := pure_eq_ok.1 h
      obtain ⟨changed', hchanged', hexchange⟩ := exists_changedFields hb ht hbase htarget hchanged
      refine ⟨_, (if_neg (Ne.symm hobjects)).trans (bind_eq_ok.2 ⟨_, hchanged', rfl⟩), ?_,
        List.rel_append hfields hexchange, rfl⟩
      rw [hentities, map_append, sharedChange_comm]
      show _ = _ ++ [EntityDelta.exchange _]
      rw [EntityDelta.exchange, exchange_sharedChange]
  · cases h

theorem exists_entitySections (hb : base.Views baseRequest) (ht : target.Views targetRequest)
    {s : EntitySections} (h : entitySections base target = .ok s) :
    ∃ t, entitySections target base = .ok t ∧
      s.IsExchange (repeatedMembers baseRequest targetRequest) t := by
  obtain ⟨s', hfold, h⟩ := bind_eq_ok.1 h
  obtain ⟨_, hlimits, h⟩ := bind_eq_ok.1 h
  obtain rfl := pure_eq_ok.1 h
  have hids : List.Forall₂ (· = ·) (unionIds base target) (unionIds target base) := by
    rw [List.forall₂_eq_eq_eq, unionIds_comm]
  obtain ⟨t, hfold', hexchange⟩ := foldlM_related
    (R := EntitySections.IsExchange (repeatedMembers baseRequest targetRequest))
    (fun s t x y s' hst hxy hstep ↦ by
      obtain rfl : x = y := hxy
      exact exists_classify hb ht hst hstep) hids (t := ⟨[], [], 0⟩) ⟨rfl, .nil, rfl⟩ hfold
  refine ⟨t, bind_eq_ok.2 ⟨t, hfold', ?_⟩, hexchange⟩
  rw [rejectIf_eq_ok] at hlimits
  rw [rejectIf_neg]
  · rfl
  · rw [hexchange.entities, length_map, ← hexchange.fields.length_eq]
    exact hlimits

end Entities

/-! ### Section 3 -/

section Bodies

variable [ComparisonBasis] {base target : CompleteRootRequest} {baseSide targetSide : Side}

variable {before after : FunctionBody}

section

omit [ComparisonBasis]

theorem mem_sharedFunctions_iff {id : EntityId} :
    (id, before, after) ∈ sharedFunctions baseSide targetSide ↔
      baseSide.entities[id]? >>= functionBody? = some before ∧
        targetSide.entities[id]? >>= functionBody? = some after := by
  simp only [sharedFunctions, List.mem_filterMap, Prod.exists,
    Std.ExtTreeMap.mem_toList_iff_getElem?_eq_some, Option.bind_eq_bind, Option.bind_eq_some_iff,
    Option.pure_def, Option.some.injEq, mk.injEq]
  constructor
  · rintro ⟨_, entity, hentity, _, hbefore, _, ⟨other, hother, hafter⟩, rfl, rfl, rfl⟩
    exact ⟨⟨entity, hentity, hbefore⟩, other, hother, hafter⟩
  · rintro ⟨⟨entity, hentity, hbefore⟩, other, hother, hafter⟩
    exact ⟨_, entity, hentity, _, hbefore, _, ⟨other, hother, hafter⟩, rfl, rfl, rfl⟩

theorem sharedFunctions_sorted (baseSide targetSide : Side) :
    Ascends fst (sharedFunctions baseSide targetSide) := by
  rw [sharedFunctions, Ascends, List.pairwise_filterMap]
  refine (Std.ExtTreeMap.ordered_keys_toList (t := baseSide.entities)).imp
    fun hlt x hx y hy ↦ ?_
  simp only [Option.bind_eq_bind, Option.bind_eq_some_iff, Option.pure_def, Option.some.injEq] at hx hy
  obtain ⟨_, -, _, -, rfl⟩ := hx
  obtain ⟨_, -, _, -, rfl⟩ := hy
  exact hlt

/-- Both directions compare the same functions, in one order. -/
theorem sharedFunctions_comm (baseSide targetSide : Side) : sharedFunctions targetSide baseSide =
      (sharedFunctions baseSide targetSide).map fun (id, before, after) ↦ (id, after, before) := by
  refine (sharedFunctions_sorted targetSide baseSide).eq_of_mem_iff
    (List.pairwise_map.2 (sharedFunctions_sorted baseSide targetSide)) ?_
  rintro ⟨id, after, before⟩
  simp only [mem_sharedFunctions_iff, List.mem_map, Prod.exists, mk.injEq]
  constructor
  · rintro ⟨hafter, hbefore⟩
    exact ⟨id, before, after, ⟨hbefore, hafter⟩, rfl, rfl, rfl⟩
  · rintro ⟨_, _, _, ⟨hbefore, hafter⟩, rfl, rfl, rfl⟩
    exact ⟨hafter, hbefore⟩

end

theorem compareFunction_exchange {bodies bodies' : List BodyDelta} {work work' : Nat}
    {id : EntityId}
    (h : compareFunction base target (bodies, work) (id, before, after) = .ok (bodies', work')) :
    compareFunction target base (bodies.map BodyDelta.exchange, work) (id, after, before) =
      .ok (bodies'.map BodyDelta.exchange, work') := by
  obtain ⟨charged, hcharge, h⟩ := bind_eq_ok.1 h
  obtain ⟨baseFingerprint, hbase, h⟩ := bind_eq_ok.1 h
  obtain ⟨targetFingerprint, htarget, h⟩ := bind_eq_ok.1 h
  refine bind_eq_ok.2 ⟨charged, ?_, bind_eq_ok.2 ⟨targetFingerprint, htarget,
    bind_eq_ok.2 ⟨baseFingerprint, hbase, ?_⟩⟩⟩
  · rw [Nat.add_comm (FunctionFingerprintInput.size _)]
    exact hcharge
  · split at h
    · rename_i hne
      obtain ⟨baseBlocks, hbaseBlocks, h⟩ := bind_eq_ok.1 h
      obtain ⟨targetBlocks, htargetBlocks, h⟩ := bind_eq_ok.1 h
      obtain ⟨baseOperations, hbaseOperations, h⟩ := bind_eq_ok.1 h
      obtain ⟨targetOperations, htargetOperations, h⟩ := bind_eq_ok.1 h
      obtain ⟨rfl, rfl⟩ := mk.inj (pure_eq_ok.1 h)
      refine (if_pos (Ne.symm hne)).trans ?_
      refine bind_eq_ok.2 ⟨_, htargetBlocks, bind_eq_ok.2 ⟨_, hbaseBlocks,
        bind_eq_ok.2 ⟨_, htargetOperations, bind_eq_ok.2 ⟨_, hbaseOperations, ?_⟩⟩⟩⟩
      rw [map_append]
      rfl
    · rename_i heq
      obtain ⟨rfl, rfl⟩ := mk.inj (pure_eq_ok.1 h)
      exact if_neg fun hne ↦ heq (Ne.symm hne)

theorem bodySection_exchange {bodies : List BodyDelta} {work work' : Nat}
    (h : bodySection base target baseSide targetSide work = .ok (bodies, work')) :
    bodySection target base targetSide baseSide work =
      .ok (bodies.map BodyDelta.exchange, work') := by
  obtain ⟨⟨bodies₁, work₁⟩, hfold, h⟩ := bind_eq_ok.1 h
  obtain ⟨_, hlimit, h⟩ := bind_eq_ok.1 h
  obtain ⟨rfl, rfl⟩ := mk.inj (pure_eq_ok.1 h)
  have hfunctions : List.Forall₂ (fun x y ↦ y = (x.1, x.2.2, x.2.1))
      (sharedFunctions baseSide targetSide) (sharedFunctions targetSide baseSide) := by
    rw [sharedFunctions_comm baseSide targetSide, List.forall₂_map_right_iff, List.forall₂_same]
    exact fun _ _ ↦ rfl
  obtain ⟨_, hfold', rfl⟩ := foldlM_related (g := compareFunction target base)
    (R := fun (s t : List BodyDelta × Nat) ↦ t = (s.1.map BodyDelta.exchange, s.2))
    (by
      rintro ⟨bodies, work⟩ _ ⟨id, before, after⟩ _ ⟨bodies', work'⟩ rfl rfl hstep
      exact ⟨_, compareFunction_exchange hstep, rfl⟩)
    hfunctions (t := ([], work)) rfl hfold
  refine bind_eq_ok.2 ⟨_, hfold', ?_⟩
  rw [rejectIf_eq_ok] at hlimit
  dsimp only
  rw [rejectIf_neg (by rwa [length_map])]
  rfl

end Bodies

/-! ### Section 4 -/

theorem relationDeltas_exchange {base target : List ImpactEdge} {deltas : List RelationDelta}
    {work work' : Nat} (h : relationDeltas base target work = .ok (deltas, work')) :
    relationDeltas target base work = .ok (deltas.map RelationDelta.exchange, work') := by
  obtain ⟨charged, hcharge, h⟩ := bind_eq_ok.1 h
  obtain ⟨rfl, rfl⟩ := mk.inj (pure_eq_ok.1 h)
  rw [Nat.add_comm] at hcharge
  refine bind_eq_ok.2 ⟨work', hcharge, pure_eq_ok.2 (Prod.ext ?_ rfl)⟩
  rw [symmetricDifference.swap base target, map_map, map_map]
  refine List.map_congr_left ?_
  rintro (edge | edge) - <;> rfl

theorem relationSection_exchange {baseSide targetSide : Side} {relations : List RelationDelta}
    {work work' : Nat} (h : relationSection baseSide targetSide work = .ok (relations, work')) :
    relationSection targetSide baseSide work =
      .ok (relations.map RelationDelta.exchange, work') := by
  obtain ⟨⟨relations₁, work₁⟩, hdeltas, h⟩ := bind_eq_ok.1 h
  obtain ⟨_, hlimit, h⟩ := bind_eq_ok.1 h
  obtain ⟨rfl, rfl⟩ := mk.inj (pure_eq_ok.1 h)
  refine bind_eq_ok.2 ⟨_, relationDeltas_exchange hdeltas, ?_⟩
  rw [rejectIf_eq_ok] at hlimit
  dsimp only
  rw [rejectIf_neg (by rwa [length_map])]
  rfl

/-! ### Section 5 -/

section Collateral

theorem seeds_exchange (gone : ChangeClass) (entities : List EntityDelta) (bodies : List BodyDelta) :
    seeds gone.exchange (entities.map EntityDelta.exchange) (bodies.map BodyDelta.exchange) =
      seeds gone entities bodies := by
  have hinvolutive : ∀ change : ChangeClass, change.exchange.exchange = change := by
    rintro (_ | _) <;> rfl
  have hclass : ∀ change : ChangeClass,
      change.exchange ∈ [gone.exchange, .changed, .retyped] ↔ change ∈ [gone, .changed, .retyped] := by
    intro change
    simp only [List.mem_cons, List.not_mem_nil, or_false]
    cases gone <;> cases change <;> simp [ChangeClass.exchange]
  rw [seeds, seeds, List.filter_map, map_map, map_map]
  congr 2
  refine congrArg (List.map _) (List.filter_congr fun delta _ ↦ ?_)
  exact decide_eq_decide.2 (hclass delta.change)

/-- What the seeds of one side reach there, and what this costs. -/
def SideReach (side : Side) (seeds : EntitySet) (closure : List EntityId) (cost : Nat) : Prop :=
  if seeds.isEmpty then closure = [] ∧ cost = 0
  else side.index.transitiveImpact seeds.toList = .ok closure ∧
    cost = seeds.toList.length + closure.length

theorem reachCollateral_eq_ok {reached reached' : EntitySet} {work work' : Nat} {side : Side}
    {seeds : EntitySet} (hwork : work ≤ maxCompareWork) :
    reachCollateral (reached, work) (side, seeds) = .ok (reached', work') ↔
      ∃ closure cost, SideReach side seeds closure cost ∧
        reached' = closure.foldl (fun reached id ↦ reached.insert id) reached ∧
        work' = work + cost ∧ work' ≤ maxCompareWork := by
  rw [reachCollateral]
  dsimp only
  split
  · rename_i hempty
    simp only [SideReach, if_pos hempty, pure_eq_ok, mk.injEq]
    constructor
    · rintro ⟨rfl, rfl⟩
      exact ⟨[], 0, ⟨rfl, rfl⟩, rfl, rfl, hwork⟩
    · rintro ⟨_, _, ⟨rfl, rfl⟩, rfl, rfl, -⟩
      exact ⟨rfl, rfl⟩
  · rename_i hseeds
    simp only [SideReach, if_neg hseeds, bind_eq_ok, mapError_eq_ok,
      chargeCompare_eq_ok, pure_eq_ok, mk.injEq]
    constructor
    · rintro ⟨_, ⟨rfl, -⟩, closure, hclosure, _, ⟨rfl, hle⟩, rfl, rfl⟩
      exact ⟨closure, _, ⟨hclosure, rfl⟩, rfl, Nat.add_assoc _ _ _, hle⟩
    · rintro ⟨closure, _, ⟨hclosure, rfl⟩, rfl, rfl, hle⟩
      exact ⟨_, ⟨rfl, by omega⟩, closure, hclosure, _, ⟨(Nat.add_assoc _ _ _).symm, hle⟩, rfl, rfl⟩

/-- The two sides may be served in either order. -/
theorem foldlM_reachCollateral_comm {first second : Side × EntitySet} {work work' : Nat}
    {reached : EntitySet} (hwork : work ≤ maxCompareWork)
    (h : [first, second].foldlM reachCollateral (∅, work) = .ok (reached, work')) :
    [second, first].foldlM reachCollateral (∅, work) = .ok (reached, work') := by
  obtain ⟨side₁, seeds₁⟩ := first
  obtain ⟨side₂, seeds₂⟩ := second
  simp only [List.foldlM_cons, List.foldlM_nil, bind_eq_ok, Prod.exists, pure_eq_ok] at h ⊢
  obtain ⟨reached₁, work₁, hfirst, reached₂, work₂, hsecond, hout⟩ := h
  obtain ⟨rfl, rfl⟩ := mk.inj hout
  obtain ⟨closure₁, cost₁, hreach₁, rfl, rfl, hle₁⟩ := (reachCollateral_eq_ok hwork).1 hfirst
  obtain ⟨closure₂, cost₂, hreach₂, rfl, rfl, hle₂⟩ := (reachCollateral_eq_ok hle₁).1 hsecond
  have hle : work + cost₂ ≤ maxCompareWork := by omega
  refine ⟨_, _, (reachCollateral_eq_ok hwork).2 ⟨closure₂, cost₂, hreach₂, rfl, rfl, hle⟩, _, _,
    (reachCollateral_eq_ok hle).2 ⟨closure₁, cost₁, hreach₁, rfl, rfl, by omega⟩, ?_⟩
  refine Prod.ext (Std.ExtTreeSet.ext_mem fun id ↦ ?_) (by omega)
  simp only [EntitySet.mem_foldl_insert]
  tauto

theorem collateral_exchange {baseSide targetSide : Side} {entities : List EntityDelta}
    {bodies : List BodyDelta} {work : Nat} {ids : List EntityId} (hwork : work ≤ maxCompareWork)
    (h : collateral baseSide targetSide entities bodies work = .ok ids) :
    collateral targetSide baseSide (entities.map EntityDelta.exchange)
      (bodies.map BodyDelta.exchange) work = .ok ids := by
  obtain ⟨⟨reached, work'⟩, hfold, h⟩ := bind_eq_ok.1 h
  obtain rfl := pure_eq_ok.1 h
  have hremoved : seeds .removed (entities.map EntityDelta.exchange) (bodies.map BodyDelta.exchange) =
      seeds .added entities bodies := seeds_exchange .added entities bodies
  have hadded : seeds .added (entities.map EntityDelta.exchange) (bodies.map BodyDelta.exchange) =
      seeds .removed entities bodies := seeds_exchange .removed entities bodies
  refine bind_eq_ok.2 ⟨(reached, work'), ?_, ?_⟩
  · rw [hremoved, hadded]
    exact foldlM_reachCollateral_comm hwork hfold
  · refine congrArg Except.ok (List.filter_congr fun id _ ↦ decide_eq_decide.2 ?_)
    rw [map_map, and_comm (a := id ∈ targetSide.entities)]
    rfl

end Collateral

/-! ### The sides -/

section Sides

variable [ComparisonBasis] {base target : CompleteRootRequest} {baseSide targetSide : Side}

omit [ComparisonBasis] in
theorem work_le_of_relationSection {relations : List RelationDelta} {work work' : Nat}
    (h : relationSection baseSide targetSide work = .ok (relations, work')) :
    work' ≤ maxCompareWork := by
  obtain ⟨⟨relations₁, work₁⟩, hdeltas, h⟩ := bind_eq_ok.1 h
  obtain ⟨_, -, h⟩ := bind_eq_ok.1 h
  obtain ⟨rfl, rfl⟩ := mk.inj (pure_eq_ok.1 h)
  obtain ⟨charged, hcharge, hdeltas⟩ := bind_eq_ok.1 hdeltas
  obtain ⟨rfl, rfl⟩ := mk.inj (pure_eq_ok.1 hdeltas)
  exact (chargeCompare_eq_ok.1 hcharge).2

/-- **The other direction succeeds and is the exchange.** -/
theorem exists_compareSides (hb : baseSide.Views base) (ht : targetSide.Views target)
    (hworkspace : base.workspaceId = target.workspaceId)
    (hepoch : base.schemaEpochId = target.schemaEpochId) {delta : SemanticDelta}
    (h : compareSides base target baseSide targetSide = .ok delta) :
    ∃ delta', compareSides target base targetSide baseSide = .ok delta' ∧
      delta.IsExchange (repeatedMembers base target) delta' := by
  obtain ⟨sections, hsections, h⟩ := bind_eq_ok.1 h
  obtain ⟨⟨bodies, work₁⟩, hbodies, h⟩ := bind_eq_ok.1 h
  obtain ⟨⟨relations, work₂⟩, hrelations, h⟩ := bind_eq_ok.1 h
  obtain ⟨ids, hcollateral, h⟩ := bind_eq_ok.1 h
  obtain ⟨_, hlimits, h⟩ := bind_eq_ok.1 h
  obtain rfl := pure_eq_ok.1 h
  obtain ⟨sections', hsections', hexchange⟩ := exists_entitySections hb ht hsections
  have hcollateral' := collateral_exchange (work_le_of_relationSection hrelations) hcollateral
  rw [← hexchange.entities] at hcollateral'
  rw [← hexchange.work] at hbodies
  refine ⟨_, bind_eq_ok.2 ⟨sections', hsections', bind_eq_ok.2 ⟨_,
    bodySection_exchange hbodies, bind_eq_ok.2 ⟨_, relationSection_exchange hrelations,
    bind_eq_ok.2 ⟨ids, hcollateral', bind_eq_ok.2 ⟨(), ?_, rfl⟩⟩⟩⟩⟩, ?_,
    hexchange.fields⟩
  · rw [rejectIf_eq_ok] at hlimits ⊢
    rintro (hlimit | hlimit | hlimit | hlimit | hlimit)
    exacts [hlimits (.inl hlimit), hlimits (.inr (.inr (.inl hlimit))), hlimits (.inr (.inl hlimit)),
      hlimits (.inr (.inr (.inr (.inr hlimit)))), hlimits (.inr (.inr (.inr (.inl hlimit))))]
  · simp only [SemanticDelta.exchange, hexchange.entities, hworkspace, hepoch]

end Sides

/-! ### Encoding -/

section Encoding

variable [ComparisonBasis] [Blake3]

/-- Whatever the first encodes to, the second encodes to something of that length. -/
def EncodesAlike (first second : CompareResult Bytes) : Prop :=
  ∀ bs, first = .ok bs → ∃ bs', second = .ok bs' ∧ bs'.length = bs.length

section

omit [ComparisonBasis] [Blake3]

theorem encodesAlike_record {fields fields' : List (UInt32 × Bytes)}
    (hsorted : (fields.map fst).Pairwise (· < ·))
    (htags : fields.map fst = fields'.map fst)
    (hlengths : (fields.map fun f ↦ f.2.length).Perm (fields'.map fun f ↦ f.2.length)) :
    EncodesAlike (scb (encodeRecord fields)) (scb (encodeRecord fields')) := by
  intro bs h
  obtain ⟨bs', hbs', hlength⟩ :=
    exists_encodeRecord_of_lengths hsorted htags hlengths (mapError_eq_ok.1 h)
  exact ⟨bs', mapError_eq_ok.2 hbs', hlength⟩

theorem length_objectBytes (object : Option ObjectId) : (objectBytes object).length = 32 := by
  cases object with
  | none => exact List.length_replicate
  | some object => exact object.length_eq

theorem encodeEntityDelta_exchange (entry : EntityDelta) :
    EncodesAlike (encodeEntityDelta entry) (encodeEntityDelta entry.exchange) := by
  refine encodesAlike_record (by simp only [map_cons, map_nil]; decide) rfl ?_
  have htag : ∀ change, (encodeUvar (ChangeClass.tag change).toUInt64).length = 1 := fun change ↦
    length_encodeUvar_of_lt (by cases change <;> decide)
  simp only [EntityDelta.exchange, map_cons, map_nil, htag, length_objectBytes]
  exact .cons _ (.cons _ (.swap _ _ _))

theorem encodeBodyDelta_exchange (entry : BodyDelta) :
    EncodesAlike (encodeBodyDelta entry) (encodeBodyDelta entry.exchange) := by
  refine encodesAlike_record (by simp only [map_cons, map_nil]; decide) rfl ?_
  simp only [BodyDelta.exchange, map_cons, map_nil, Id.length_eq]
  exact .cons _ (.cons _ (.cons _ ((List.Perm.swap _ _ _).trans
    (.cons _ (.cons _ (.swap _ _ _))))))

theorem encodeRelationDelta_exchange (entry : RelationDelta) :
    EncodesAlike (encodeRelationDelta entry) (encodeRelationDelta entry.exchange) := by
  refine encodesAlike_record (by simp only [map_cons, map_nil]; decide) rfl ?_
  have htag : ∀ change, (encodeUvar (RelationChange.tag change).toUInt64).length = 1 := fun change ↦
    length_encodeUvar_of_lt (by cases change <;> decide)
  simp only [RelationDelta.exchange, map_cons, map_nil, htag]
  exact .refl _

theorem length_encode_flags {flags flags' : UInt32} (h : flags' ||| 4 = flags ||| 4) :
    (encodeUvar flags'.toUInt64).length = (encodeUvar flags.toUInt64).length := by
  have hshift : ∀ x : UInt32, x.toNat / 128 = (x ||| 4).toNat / 128 := by
    intro x
    rw [UInt32.toNat_or, ← Nat.shiftRight_eq_div_pow _ 7, ← Nat.shiftRight_eq_div_pow _ 7,
      Nat.shiftRight_or_distrib]
    exact (Nat.or_zero _).symm
  rw [encodeUvar_tag, encodeUvar_tag]
  refine length_encode_congr ?_
  rw [hshift flags', hshift flags, h]

end

variable {repeats : Set EntityId}

section

omit [ComparisonBasis] [Blake3]

theorem encodeFieldDelta_exchange {entry entry' : FieldDelta}
    (h : entry.IsExchange repeats entry') :
    EncodesAlike (encodeFieldDelta entry) (encodeFieldDelta entry') := by
  intro bs hbs
  obtain ⟨_, hadded, hbs⟩ := bind_eq_ok.1 hbs
  obtain ⟨_, hremoved, hbs⟩ := bind_eq_ok.1 hbs
  obtain ⟨added, haddedBytes, hbs⟩ := bind_eq_ok.1 hbs
  obtain ⟨removed, hremovedBytes, hbs⟩ := bind_eq_ok.1 hbs
  have hlengths : ([(1, entry.entityId.bytes), (2, encodeUvar entry.kind.toUInt64),
        (3, encodeUvar entry.field.toUInt64), (4, encodeUvar entry.flags.toUInt64), (5, added),
        (6, removed)].map fun f : UInt32 × Bytes ↦ f.2.length).Perm
      ([(1, entry.entityId.bytes), (2, encodeUvar entry.kind.toUInt64),
        (3, encodeUvar entry.field.toUInt64), (4, encodeUvar entry'.flags.toUInt64), (5, removed),
        (6, added)].map fun f : UInt32 × Bytes ↦ f.2.length) := by
    simp only [map_cons, map_nil, length_encode_flags h.otherFlags]
    exact .cons _ (.cons _ (.cons _ (.cons _ (.swap _ _ _))))
  obtain ⟨bs', hbs', hlength⟩ := encodesAlike_record
    (by simp only [map_cons, map_nil]; decide) (by rfl) hlengths bs hbs
  rw [h.eq_exchange]
  exact ⟨bs', bind_eq_ok.2 ⟨_, hremoved, bind_eq_ok.2 ⟨_, hadded,
    bind_eq_ok.2 ⟨_, hremovedBytes, bind_eq_ok.2 ⟨_, haddedBytes, hbs'⟩⟩⟩⟩, hlength⟩

/-- Lists of entries that are encoded alike. -/
theorem exists_mapM_of_alike {α : Type} {f : α → CompareResult Bytes} {R : α → α → Prop}
    (halike : ∀ x y, R x y → EncodesAlike (f x) (f y)) {xs ys : List α}
    (hxs : List.Forall₂ R xs ys) {bss : List Bytes} (h : xs.mapM f = .ok bss) :
    ∃ bss', ys.mapM f = .ok bss' ∧ bss.map List.length = bss'.map List.length := by
  induction hxs generalizing bss with
  | nil =>
    obtain rfl := pure_eq_ok.1 h
    exact ⟨[], rfl, rfl⟩
  | cons hxy _ ih =>
    rw [mapM_cons, bind_eq_ok] at h
    obtain ⟨bs, hbs, h⟩ := h
    obtain ⟨rest, hrest, h⟩ := bind_eq_ok.1 h
    obtain rfl := pure_eq_ok.1 h
    obtain ⟨bs', hbs', hlength⟩ := halike _ _ hxy bs hbs
    obtain ⟨rest', hrest', hlengths⟩ := ih hrest
    refine ⟨bs' :: rest', ?_, ?_⟩
    · rw [mapM_cons, hbs', ok_bind, hrest']
      rfl
    · rw [map_cons, map_cons, hlength, hlengths]

theorem exists_section_of_alike {α : Type} {f : α → CompareResult Bytes} {R : α → α → Prop}
    (halike : ∀ x y, R x y → EncodesAlike (f x) (f y)) {xs ys : List α}
    (hxs : List.Forall₂ R xs ys) {bss : List Bytes} (h : xs.mapM f = .ok bss) :
    ∃ bss', ys.mapM f = .ok bss' ∧ EncodesAlike (scb (encodeList bss)) (scb (encodeList bss')) := by
  obtain ⟨bss', hbss', hlengths⟩ := exists_mapM_of_alike halike hxs h
  refine ⟨bss', hbss', fun bs hbs ↦ ?_⟩
  obtain ⟨bs', hbs', hlength⟩ := exists_encodeList_of_lengths hlengths (mapError_eq_ok.1 hbs)
  exact ⟨bs', mapError_eq_ok.2 hbs', hlength⟩

theorem forall₂_map_exchange {α : Type} (f : α → α) (xs : List α) :
    List.Forall₂ (fun x y ↦ y = f x) xs (xs.map f) := by
  rw [List.forall₂_map_right_iff, List.forall₂_same]
  exact fun _ _ ↦ rfl

end

variable {delta delta' : SemanticDelta}

section

omit [ComparisonBasis] [Blake3]

theorem encodeDeltaPayload_exchange (h : delta.IsExchange repeats delta') :
    EncodesAlike (encodeDeltaPayload delta) (encodeDeltaPayload delta') := by
  intro bs hbs
  obtain ⟨entities, hentities, hbs⟩ := bind_eq_ok.1 hbs
  obtain ⟨fields, hfields, hbs⟩ := bind_eq_ok.1 hbs
  obtain ⟨bodies, hbodies, hbs⟩ := bind_eq_ok.1 hbs
  obtain ⟨relations, hrelations, hbs⟩ := bind_eq_ok.1 hbs
  obtain ⟨entityBytes, hentityBytes, hbs⟩ := bind_eq_ok.1 hbs
  obtain ⟨fieldBytes, hfieldBytes, hbs⟩ := bind_eq_ok.1 hbs
  obtain ⟨bodyBytes, hbodyBytes, hbs⟩ := bind_eq_ok.1 hbs
  obtain ⟨relationBytes, hrelationBytes, hbs⟩ := bind_eq_ok.1 hbs
  obtain ⟨rootsAdded, hrootsAdded, hbs⟩ := bind_eq_ok.1 hbs
  obtain ⟨rootsRemoved, hrootsRemoved, hbs⟩ := bind_eq_ok.1 hbs
  obtain ⟨entriesAdded, hentriesAdded, hbs⟩ := bind_eq_ok.1 hbs
  obtain ⟨entriesRemoved, hentriesRemoved, hbs⟩ := bind_eq_ok.1 hbs
  obtain ⟨collateralBytes, hcollateral, hbs⟩ := bind_eq_ok.1 hbs
  obtain ⟨entities', hentities', hentityAlike⟩ := exists_section_of_alike
    (fun x y (hxy : y = x.exchange) ↦ hxy ▸ encodeEntityDelta_exchange x)
    (forall₂_map_exchange EntityDelta.exchange delta.entities) hentities
  obtain ⟨fields', hfields', hfieldAlike⟩ := exists_section_of_alike
    (R := FieldDelta.IsExchange repeats) (fun _ _ ↦ encodeFieldDelta_exchange) h.fields hfields
  obtain ⟨bodies', hbodies', hbodyAlike⟩ := exists_section_of_alike
    (fun x y (hxy : y = x.exchange) ↦ hxy ▸ encodeBodyDelta_exchange x)
    (forall₂_map_exchange BodyDelta.exchange delta.bodies) hbodies
  obtain ⟨relations', hrelations', hrelationAlike⟩ := exists_section_of_alike
    (fun x y (hxy : y = x.exchange) ↦ hxy ▸ encodeRelationDelta_exchange x)
    (forall₂_map_exchange RelationDelta.exchange delta.relations) hrelations
  obtain ⟨entityBytes', hentityBytes', hentityLength⟩ := hentityAlike _ hentityBytes
  obtain ⟨fieldBytes', hfieldBytes', hfieldLength⟩ := hfieldAlike _ hfieldBytes
  obtain ⟨bodyBytes', hbodyBytes', hbodyLength⟩ := hbodyAlike _ hbodyBytes
  obtain ⟨relationBytes', hrelationBytes', hrelationLength⟩ := hrelationAlike _ hrelationBytes
  have hlengths : ([(1, encodeUvar 1), (2, delta.workspaceId.bytes),
        (3, delta.rootSchemaEpoch.bytes), (4, delta.baseRoot.bytes), (5, delta.targetRoot.bytes),
        (6, entityBytes), (7, fieldBytes), (8, bodyBytes), (9, relationBytes), (10, rootsAdded),
        (11, rootsRemoved), (12, entriesAdded), (13, entriesRemoved),
        (14, collateralBytes)].map fun f : UInt32 × Bytes ↦ f.2.length).Perm
      ([(1, encodeUvar 1), (2, delta.workspaceId.bytes),
        (3, delta.rootSchemaEpoch.bytes), (4, delta.targetRoot.bytes), (5, delta.baseRoot.bytes),
        (6, entityBytes'), (7, fieldBytes'), (8, bodyBytes'), (9, relationBytes'),
        (10, rootsRemoved), (11, rootsAdded), (12, entriesRemoved), (13, entriesAdded),
        (14, collateralBytes)].map fun f : UInt32 × Bytes ↦ f.2.length) := by
    simp only [map_cons, map_nil, hentityLength, hfieldLength, hbodyLength,
      hrelationLength, Id.length_eq, List.perm_cons]
    exact (List.Perm.swap _ _ _).trans (.cons _ (.cons _ (.swap _ _ _)))
  obtain ⟨bs', hbs', hlength⟩ := encodesAlike_record
    (by simp only [map_cons, map_nil]; decide) (by rfl) hlengths bs hbs
  rw [h.eq_exchange]
  exact ⟨bs', bind_eq_ok.2 ⟨_, hentities', bind_eq_ok.2 ⟨_, hfields',
    bind_eq_ok.2 ⟨_, hbodies', bind_eq_ok.2 ⟨_, hrelations',
    bind_eq_ok.2 ⟨_, hentityBytes', bind_eq_ok.2 ⟨_, hfieldBytes',
    bind_eq_ok.2 ⟨_, hbodyBytes', bind_eq_ok.2 ⟨_, hrelationBytes',
    bind_eq_ok.2 ⟨_, hrootsRemoved, bind_eq_ok.2 ⟨_, hrootsAdded,
    bind_eq_ok.2 ⟨_, hentriesRemoved, bind_eq_ok.2 ⟨_, hentriesAdded,
    bind_eq_ok.2 ⟨_, hcollateral, hbs'⟩⟩⟩⟩⟩⟩⟩⟩⟩⟩⟩⟩⟩, hlength⟩

/-- Only the keys are looked at. -/
theorem requireSorted_eq {α κ : Type} [Ord κ] (key : α → κ) (xs : List α) :
    requireSorted key xs = requireSorted id (xs.map key) := by
  induction xs with
  | nil => rfl
  | cons a xs ih =>
    cases xs with
    | nil => rfl
    | cons b xs =>
      simp only [map_cons, requireSorted, ih, id]

theorem requireCanonical_exchange
    (h : delta.IsExchange repeats delta') (hcanonical : requireCanonical delta = .ok ()) :
    requireCanonical delta' = .ok () := by
  have hfields : requireSorted (fun entry ↦ (entry.entityId, entry.kind, entry.field)) delta'.fields =
      requireSorted (fun entry ↦ (entry.entityId, entry.kind, entry.field)) delta.fields := by
    rw [requireSorted_eq, requireSorted_eq _ delta.fields]
    refine congrArg (requireSorted id) (List.forall₂_eq_eq_eq ▸ ?_)
    refine List.forall₂_map_left_iff.2 (List.forall₂_map_right_iff.2 (h.fields.flip.imp ?_))
    intro entry' entry hentry
    rw [hentry.eq_exchange]
    rfl
  have hentities : requireSorted (·.entityId) (delta.entities.map EntityDelta.exchange) =
      requireSorted (·.entityId) delta.entities := by
    rw [requireSorted_eq, map_map, requireSorted_eq _ delta.entities]
    rfl
  have hbodies : requireSorted (·.entityId) (delta.bodies.map BodyDelta.exchange) =
      requireSorted (·.entityId) delta.bodies := by
    rw [requireSorted_eq, map_map, requireSorted_eq _ delta.bodies]
    rfl
  have hrelations : requireSorted (fun entry : RelationDelta ↦ (entry.dependent, entry.dependency,
        entry.kind.tag)) (delta.relations.map RelationDelta.exchange) =
      requireSorted (fun entry ↦ (entry.dependent, entry.dependency, entry.kind.tag))
        delta.relations := by
    rw [requireSorted_eq, map_map, requireSorted_eq _ delta.relations]
    rfl
  simp only [requireCanonical, bind_eq_ok, Unique.exists_iff] at hcanonical ⊢
  rw [hfields, h.eq_exchange]
  simp only [SemanticDelta.exchange, hentities, hbodies, hrelations]
  obtain ⟨h₁, h₂, h₃, h₄, h₅, h₆, h₇, h₈, h₉⟩ := hcanonical
  exact ⟨h₁, h₂, h₃, h₄, h₆, h₅, h₈, h₇, h₉⟩

end

variable {stored : StoredSemanticDelta}

theorem delta_of_encodeSemanticDelta {delta : SemanticDelta}
    (h : encodeSemanticDelta delta = .ok stored) : stored.delta = delta := by
  obtain ⟨_, -, h⟩ := bind_eq_ok.1 h
  obtain ⟨_, -, h⟩ := bind_eq_ok.1 h
  obtain ⟨payload, -, h⟩ := bind_eq_ok.1 h
  obtain ⟨epochId, -, h⟩ := bind_eq_ok.1 h
  obtain ⟨_, -, h⟩ := bind_eq_ok.1 h
  obtain rfl := pure_eq_ok.1 h
  rfl

/-- **What the other direction comes to is encoded too.** -/
theorem exists_encodeSemanticDelta (h : delta.IsExchange repeats delta')
    (hstored : encodeSemanticDelta delta = .ok stored) :
    ∃ stored', encodeSemanticDelta delta' = .ok stored' := by
  obtain ⟨_, hlimits, hstored⟩ := bind_eq_ok.1 hstored
  obtain ⟨_, hcanonical, hstored⟩ := bind_eq_ok.1 hstored
  obtain ⟨payload, hpayload, hstored⟩ := bind_eq_ok.1 hstored
  obtain ⟨epochId, hepoch, hstored⟩ := bind_eq_ok.1 hstored
  obtain ⟨_, hbytes, -⟩ := bind_eq_ok.1 hstored
  obtain ⟨payload', hpayload', hlength⟩ := encodeDeltaPayload_exchange h payload hpayload
  refine ⟨_, bind_eq_ok.2 ⟨(), ?_, bind_eq_ok.2 ⟨(),
    requireCanonical_exchange h hcanonical, bind_eq_ok.2 ⟨payload', hpayload',
    bind_eq_ok.2 ⟨epochId, hepoch, bind_eq_ok.2 ⟨(), ?_, rfl⟩⟩⟩⟩⟩⟩
  · rw [rejectIf_eq_ok, not_or, not_or, not_or, not_or, not_or, not_or, not_or, not_or]
      at hlimits ⊢
    rw [← h.fields.length_eq, h.eq_exchange]
    simp only [SemanticDelta.exchange, length_map]
    obtain ⟨h₁, h₂, h₃, h₄, h₅, h₆, h₇, h₈, h₉⟩ := hlimits
    exact ⟨h₁, h₂, h₃, h₄, h₆, h₅, h₈, h₇, h₉⟩
  · simpa only [rejectIf_eq_ok, length_append, hlength] using hbytes

end Encoding

/-! ### The comparison -/

section Comparison

variable [ComparisonBasis] [Blake3]

/-- **The delta of a comparison is exact, and the other direction comes to its exchange**, but for
flag 4 of the forms that repeat a member. -/
theorem compareCompleteRoots_exact_exchange {base target : CompleteRootRequest}
    {stored : StoredSemanticDelta} (h : compareCompleteRoots base target = .ok stored) :
    stored.delta.IsExact base target ∧
      ∃ stored', compareCompleteRoots target base = .ok stored' ∧
        stored.delta.IsExchange (repeatedMembers base target) stored'.delta ∧
        (repeatedMembers base target = ∅ → stored'.delta = stored.delta.exchange) := by
  obtain ⟨baseSide, hbase, h⟩ := Except.bind_eq_ok.1 h
  obtain ⟨targetSide, htarget, h⟩ := Except.bind_eq_ok.1 h
  obtain ⟨_, hworkspace, h⟩ := Except.bind_eq_ok.1 h
  obtain ⟨_, hepoch, h⟩ := Except.bind_eq_ok.1 h
  obtain ⟨delta, hdelta, h⟩ := Except.bind_eq_ok.1 h
  rw [Except.rejectIf_eq_ok, not_not] at hworkspace hepoch
  obtain rfl : stored.delta = delta := delta_of_encodeSemanticDelta h
  have hb := Side.build_views hbase
  have ht := Side.build_views htarget
  obtain ⟨delta', hdelta', hexchange⟩ := exists_compareSides hb ht hworkspace hepoch hdelta
  obtain ⟨stored', hstored'⟩ := exists_encodeSemanticDelta hexchange h
  obtain rfl : stored'.delta = delta' := delta_of_encodeSemanticDelta hstored'
  refine ⟨compareSides_isExact hb ht hdelta, stored', ?_, hexchange, fun hempty ↦ ?_⟩
  · refine Except.bind_eq_ok.2 ⟨_, htarget, Except.bind_eq_ok.2 ⟨_, hbase, Except.bind_eq_ok.2
      ⟨(), ?_, Except.bind_eq_ok.2 ⟨(), ?_, Except.bind_eq_ok.2 ⟨_, hdelta', hstored'⟩⟩⟩⟩⟩
    · rw [Except.rejectIf_eq_ok, not_not, hworkspace]
    · rw [Except.rejectIf_eq_ok, not_not, hepoch]
  · exact (hempty ▸ hexchange).eq_of_empty

/-! ### A repeated member -/

section Repeated

/-- A root of a workspace, its namespace and a record with these fields. -/
def recordRoot (root object : UInt8) (fields : List RecordField) : CompleteRootRequest :=
  let none_ : EntityIdSet := { values := [], ascending := ascending_nil }
  let workspace : WorkspaceBody := {
    packages := none_
    rootNamespace := splat 2
    capabilityRequirements := none_
    contracts := none_
    tests := none_ }
  let namespace_ : NamespaceBody := { parent := none, members := none_ }
  let typeDef : TypeDefBody := {
    typeParameters := []
    form := .record fields
    invariants := none_
    visibility := .private_ }
  { entities := [⟨splat 1, .workspace, workspace⟩, ⟨splat 2, .namespace_, namespace_⟩,
      ⟨splat 3, .typeDef, typeDef⟩]
    root := splat root
    workspaceId := splat 9
    schemaEpochId := splat 8
    boundObjects := [(splat 1, splat 11), (splat 2, splat 12),
      (splat 3, splat object)]
    entryPoints := []
    dependencyRoots := [] }

/-- A record with one member. -/
def singleRoot : CompleteRootRequest := recordRoot 21 13 [⟨splat 5, .bool, .private_⟩]

/-- A record that has this member twice. -/
def doubleRoot : CompleteRootRequest :=
  recordRoot 22 14 [⟨splat 5, .bool, .private_⟩, ⟨splat 5, .unit, .private_⟩]

/-- The delta between them, but for the flags of the form. -/
def doubledDelta (flags : UInt32) : SemanticDelta where
  workspaceId := splat 9
  rootSchemaEpoch := splat 8
  baseRoot := splat 21
  targetRoot := splat 22
  entities := [⟨splat 3, .changed, 4, 4, some (splat 13), some (splat 14)⟩]
  fields := [⟨splat 3, 4, 2, flags, [], []⟩]
  bodies := []
  relations := []
  dependencyRootsAdded := []
  dependencyRootsRemoved := []
  entryPointsAdded := []
  entryPointsRemoved := []
  collateral := []

/-- The epoch of deltas; no function is fingerprinted below. -/
@[reducible]
def deltaBasis : ComparisonBasis where
  fingerprintFunction _ _ := .error .inventoryInvalid
  deltaEpochId := .ok ⟨[37, 177, 134, 213, 236, 66, 56, 243, 240, 94, 138, 240, 84, 84, 246, 43, 172, 100, 145, 67, 235, 221, 243, 124, 1, 193, 120, 97, 128, 182, 222, 228], rfl⟩

section

omit [ComparisonBasis] [Blake3]

/-- What is compared and encoded is the result. -/
theorem compareCompleteRoots_of_sides [ComparisonBasis] [Blake3] {base target : CompleteRootRequest}
    {delta : SemanticDelta} {stored : StoredSemanticDelta}
    (hworkspace : base.workspaceId = target.workspaceId)
    (hepoch : base.schemaEpochId = target.schemaEpochId)
    (hsides : (do
      let baseSide ← Side.build base
      let targetSide ← Side.build target
      compareSides base target baseSide targetSide) = .ok delta)
    (hencode : encodeSemanticDelta delta = .ok stored) :
    compareCompleteRoots base target = .ok stored := by
  obtain ⟨baseSide, hbase, hsides⟩ := bind_eq_ok.1 hsides
  obtain ⟨targetSide, htarget, hsides⟩ := bind_eq_ok.1 hsides
  refine bind_eq_ok.2 ⟨_, hbase, bind_eq_ok.2 ⟨_, htarget, bind_eq_ok.2
    ⟨(), ?_, bind_eq_ok.2 ⟨(), ?_, bind_eq_ok.2 ⟨_, hsides, hencode⟩⟩⟩⟩⟩
  · rw [rejectIf_eq_ok, not_not, hworkspace]
  · rw [rejectIf_eq_ok, not_not, hepoch]

theorem exists_encodeList_single (bs : Bytes) (h : bs.length < 128) :
    ∃ out, scb (encodeList [bs]) = .ok out ∧ out.length = bs.length + 2 := by
  refine ⟨_, mapError_eq_ok.2 (encodeList_eq_ok.2 ⟨?_, ?_, rfl⟩), ?_⟩
  · exact Nat.le_of_lt (by rw [List.length_singleton]; decide)
  · rw [List.forall_mem_singleton]
    exact h.le.trans (by decide)
  · rw [List.flatMap_singleton, length_append, length_sizedBytes, Leb128.encode_of_lt h,
      List.length_singleton, Leb128.encode_of_lt (by decide), List.length_singleton,
      List.length_singleton]
    omega

end

omit [ComparisonBasis] in
theorem exists_encode_doubled :
    ∃ stored, @encodeSemanticDelta deltaBasis _ (doubledDelta 9) = .ok stored := by
  obtain ⟨entity, hentity, hentityLength⟩ : ∃ bs, encodeEntityDelta ⟨splat 3, .changed, 4, 4,
      some (splat 13), some (splat 14)⟩ = .ok bs ∧ bs.length = 112 :=
    ⟨_, mapError_eq_ok.2 ((encodeRecord_eq_ok (by decide)).2
      ⟨by decide, by with_unfolding_all decide, rfl⟩), by with_unfolding_all decide⟩
  obtain ⟨field, hfield, hfieldLength⟩ : ∃ bs, encodeFieldDelta ⟨splat 3, 4, 2, 9, [], []⟩ =
      .ok bs ∧ bs.length = 50 :=
    ⟨_, mapError_eq_ok.2 ((encodeRecord_eq_ok (by decide)).2
      ⟨by decide, by with_unfolding_all decide, rfl⟩), by with_unfolding_all decide⟩
  obtain ⟨entities, hentities, hentitiesLength⟩ := exists_encodeList_single entity (by omega)
  obtain ⟨fields, hfields, hfieldsLength⟩ := exists_encodeList_single field (by omega)
  have hnone : idsList ([] : List EntityId) = .ok [0] := by with_unfolding_all decide
  have hroots : idsList ([] : List StateRoot) = .ok [0] := by with_unfolding_all decide
  have hempty : scb (encodeList []) = .ok [0] := by with_unfolding_all decide
  have hlengths : ([(1, encodeUvar 1), (2, (splat 9 : WorkspaceId).bytes),
      (3, (splat 8 : SchemaEpochId).bytes), (4, (splat 21 : StateRoot).bytes),
      (5, (splat 22 : StateRoot).bytes), (6, entities), (7, fields), (8, [0]), (9, [0]),
      (10, [0]), (11, [0]), (12, [0]), (13, [0]), (14, [0])].map
        fun f : UInt32 × Bytes ↦ f.2.length).Perm
    ([(1, encodeUvar 1), (2, (splat 9 : WorkspaceId).bytes),
      (3, (splat 8 : SchemaEpochId).bytes), (4, (splat 21 : StateRoot).bytes),
      (5, (splat 22 : StateRoot).bytes), (6, List.replicate 114 0), (7, List.replicate 52 0),
      (8, [0]), (9, [0]), (10, [0]), (11, [0]), (12, [0]), (13, [0]), (14, [0])].map
        fun f : UInt32 × Bytes ↦ f.2.length) := by
    simp only [map_cons, map_nil, hentitiesLength, hfieldsLength, hentityLength,
      hfieldLength, List.length_replicate]
    exact .refl _
  obtain ⟨payload, hpayload, hlength⟩ := encodesAlike_record
    (by simp only [map_cons, map_nil]; decide) (by rfl) hlengths.symm _
    (mapError_eq_ok.2 ((encodeRecord_eq_ok (by decide)).2
      ⟨by decide, by with_unfolding_all decide, rfl⟩))
  have hpayloadLength : payload.length = 331 := hlength.trans (by decide +kernel)
  have hsections : encodeDeltaPayload (doubledDelta 9) = .ok payload :=
    bind_eq_ok.2 ⟨[entity], by rw [doubledDelta, mapM_cons, hentity]; rfl,
      bind_eq_ok.2 ⟨[field], by rw [doubledDelta, mapM_cons, hfield]; rfl,
      bind_eq_ok.2 ⟨[], rfl, bind_eq_ok.2 ⟨[], rfl, bind_eq_ok.2 ⟨entities,
      hentities, bind_eq_ok.2 ⟨fields, hfields, bind_eq_ok.2 ⟨_, hempty,
      bind_eq_ok.2 ⟨_, hempty, bind_eq_ok.2 ⟨_, hroots, bind_eq_ok.2 ⟨_,
      hroots, bind_eq_ok.2 ⟨_, hnone, bind_eq_ok.2 ⟨_, hnone, bind_eq_ok.2 ⟨_,
      hnone, hpayload⟩⟩⟩⟩⟩⟩⟩⟩⟩⟩⟩⟩⟩
  refine ⟨_, bind_eq_ok.2 ⟨(), by decide, bind_eq_ok.2 ⟨(), by decide,
    bind_eq_ok.2 ⟨payload, hsections, bind_eq_ok.2 ⟨_, rfl,
    bind_eq_ok.2 ⟨(), ?_, rfl⟩⟩⟩⟩⟩⟩
  have hprefix : (deltaMagic ++ encodeUvar 1 ++ encodeUvar deltaContractTag).length = 11 := by
    with_unfolding_all decide
  have hcount : (encodeCount 331).length = 2 := by with_unfolding_all decide
  rw [rejectIf_eq_ok, length_append, length_append, length_append, hprefix,
    hpayloadLength, hcount, Id.length_eq]
  decide

/-- The digests of the deltas between the two roots; the first byte of the base root is the 143rd of
what is hashed. -/
@[reducible]
def deltaBlake3 : Blake3 where
  hash input :=
    if input.getD 142 0 = 21 then
      ⟨[247, 116, 206, 22, 209, 211, 7, 219, 95, 68, 131, 221, 124, 92, 242, 87, 234, 161, 46, 247,
        186, 181, 40, 222, 156, 22, 44, 102, 236, 188, 30, 47], rfl⟩
    else
      ⟨[233, 5, 70, 69, 168, 21, 236, 32, 222, 145, 217, 25, 202, 94, 14, 165, 31, 37, 201, 15, 9,
        129, 105, 196, 219, 81, 145, 112, 203, 247, 193, 135], rfl⟩

section

omit [ComparisonBasis]

theorem exists_compare_single_double : letI := deltaBasis
    ∃ stored, compareCompleteRoots singleRoot doubleRoot = .ok stored ∧
      stored.delta = doubledDelta 9 := by
  let _ := deltaBasis
  obtain ⟨stored, hstored⟩ := exists_encode_doubled
  have hsides : (do
      let baseSide ← Side.build singleRoot
      let targetSide ← Side.build doubleRoot
      compareSides singleRoot doubleRoot baseSide targetSide) = .ok (doubledDelta 9) := by
    with_unfolding_all decide
  exact ⟨stored, compareCompleteRoots_of_sides rfl rfl hsides hstored,
    delta_of_encodeSemanticDelta hstored⟩

theorem exists_compare_double_single : letI := deltaBasis
    ∃ stored, compareCompleteRoots doubleRoot singleRoot = .ok stored ∧
      stored.delta = (doubledDelta 13).exchange := by
  let _ := deltaBasis
  obtain ⟨stored, hstored⟩ := exists_encode_doubled
  have hexchange : (doubledDelta 9).IsExchange Set.univ (doubledDelta 13).exchange :=
    ⟨rfl, .cons ⟨rfl, by decide, fun hnot ↦ absurd (Set.mem_univ _) hnot⟩ .nil⟩
  obtain ⟨stored', hstored'⟩ := exists_encodeSemanticDelta hexchange hstored
  have hsides : (do
      let baseSide ← Side.build doubleRoot
      let targetSide ← Side.build singleRoot
      compareSides doubleRoot singleRoot baseSide targetSide) = .ok (doubledDelta 13).exchange := by
    with_unfolding_all decide
  exact ⟨stored', compareCompleteRoots_of_sides rfl rfl hsides hstored',
    delta_of_encodeSemanticDelta hstored'⟩

end

section

omit [ComparisonBasis] [Blake3]

/-- The two directions are not the exchange of each other: flag 4 is set in one of them only. -/
theorem compareCompleteRoots_not_exchange :
    letI := deltaBasis
    letI := deltaBlake3
    ∃ stored stored', compareCompleteRoots singleRoot doubleRoot = .ok stored ∧
      compareCompleteRoots doubleRoot singleRoot = .ok stored' ∧
        stored'.delta ≠ stored.delta.exchange := by
  let _ := deltaBlake3
  obtain ⟨stored, hstored, hdelta⟩ := exists_compare_single_double
  obtain ⟨stored', hstored', hdelta'⟩ := exists_compare_double_single
  refine ⟨stored, stored', hstored, hstored', ?_⟩
  rw [hdelta, hdelta']
  decide

/-- Both directions between the two roots, which repeat a member. -/
theorem compareCompleteRoots_exact_exchange_doubled :
    letI := deltaBasis
    letI := deltaBlake3
    ∃ stored, compareCompleteRoots singleRoot doubleRoot = .ok stored ∧
      stored.delta.IsExact singleRoot doubleRoot ∧
        ∃ stored', compareCompleteRoots doubleRoot singleRoot = .ok stored' ∧
          stored.delta.IsExchange (repeatedMembers singleRoot doubleRoot) stored'.delta := by
  let _ := deltaBasis
  let _ := deltaBlake3
  obtain ⟨stored, hstored, -⟩ := exists_compare_single_double
  obtain ⟨hexact, stored', hstored', hexchange, -⟩ := compareCompleteRoots_exact_exchange hstored
  exact ⟨stored, hstored, hexact, stored', hstored', hexchange⟩

end

end Repeated

end Comparison

end Sley.Repo
