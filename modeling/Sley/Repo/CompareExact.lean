import Sley.Lib.SortUnique
import Sley.Repo.Compare

/-!
# What a comparison lists

The two sides of a comparison are views of their requests: the judgment has made sure that the
definitions are those of the bound identities. **Section 1 has one entry for each identity whose
bindings differ**, with the class that its two definitions call for (`mem_entities_iff`), and
section 4 has one for each edge of one request only (`mem_relations_iff`).
-/

namespace Sley.Repo

open Scb1 Ssmc Mutate Query
open Except (bind_eq_ok pure_eq_ok)

/-! ### The purpose of a comparison -/

namespace CompleteRootRequest

/-- The object that an identity is bound to. -/
def boundObject (request : CompleteRootRequest) (id : EntityId) : Option ObjectId :=
  (request.boundObjects.find? (·.1 = id)).map Prod.snd

/-- The definition of an identity. -/
def definition (request : CompleteRootRequest) (id : EntityId) : Option EntityBodyValue :=
  (request.entities.find? (·.entityId = id)).map (·.body)

/-- The edges between the definitions. -/
def edges (request : CompleteRootRequest) : Set ImpactEdge :=
  {edge | ∃ entity ∈ request.entities, edge ∈ Query.edges entity}

end CompleteRootRequest

/-- The class of an identity, by presence, kind and body. -/
inductive HasClass : Option EntityBodyValue → Option EntityBodyValue → ChangeClass → Prop
  | added (after) : HasClass none (some after) .added
  | removed (before) : HasClass (some before) none .removed
  | retyped {before after} (hkind : before.valueKind ≠ after.valueKind) :
      HasClass (some before) (some after) .retyped
  | changed {before after} (hkind : before.valueKind = after.valueKind) (hbody : before ≠ after) :
      HasClass (some before) (some after) .changed
  | metadataOnly (body) : HasClass (some body) (some body) .metadataOnly

/-- The tag of the kind of a definition, 0 for none. -/
def definitionKind (body : Option EntityBodyValue) : UInt32 := body.elim 0 (·.kindTag.toUInt32)

/-- An entry for an identity whose bindings differ. -/
structure DescribesChange (base target : CompleteRootRequest) (delta : EntityDelta) : Prop where
  baseObject : delta.baseObject = base.boundObject delta.entityId
  targetObject : delta.targetObject = target.boundObject delta.entityId
  differ : base.boundObject delta.entityId ≠ target.boundObject delta.entityId
  baseKind : delta.baseKind = definitionKind (base.definition delta.entityId)
  targetKind : delta.targetKind = definitionKind (target.definition delta.entityId)
  change : HasClass (base.definition delta.entityId) (target.definition delta.entityId) delta.change

def RelationDelta.edge (delta : RelationDelta) : ImpactEdge :=
  ⟨delta.dependent, delta.dependency, delta.kind⟩

/-- An entry for an edge of one request only. -/
def DescribesRelation (base target : CompleteRootRequest) (delta : RelationDelta) : Prop :=
  match delta.change with
  | .added => delta.edge ∈ target.edges ∧ delta.edge ∉ base.edges
  | .removed => delta.edge ∈ base.edges ∧ delta.edge ∉ target.edges

/-- **A delta is exact**: its entities are the identities whose bindings differ, its relations the
symmetric difference of the edges, each once and in order. -/
structure SemanticDelta.IsExact (base target : CompleteRootRequest) (delta : SemanticDelta) :
    Prop where
  entities_sorted : Ascends EntityDelta.entityId delta.entities
  mem_ids : ∀ id, id ∈ delta.entities.map EntityDelta.entityId ↔
    base.boundObject id ≠ target.boundObject id
  mem_entities : ∀ entry, entry ∈ delta.entities ↔ DescribesChange base target entry
  relations_sorted : Ascends RelationDelta.edge delta.relations
  mem_relations : ∀ entry, entry ∈ delta.relations ↔ DescribesRelation base target entry

/-! ### The sides -/

theorem find?_eq_some_iff_of_nodup {α κ : Type} [DecidableEq κ] {key : α → κ} {xs : List α}
    (h : (xs.map key).Nodup) {k : κ} {x : α} :
    xs.find? (key · = k) = some x ↔ x ∈ xs ∧ key x = k := by
  constructor
  · intro hfind
    have hkey := List.find?_some hfind
    exact ⟨List.mem_of_find?_eq_some hfind, of_decide_eq_true hkey⟩
  · rintro ⟨hmem, hkey⟩
    have hsome : (xs.find? (key · = k)).isSome := List.find?_isSome.2 ⟨x, hmem, by simpa using hkey⟩
    obtain ⟨y, hy⟩ := Option.isSome_iff_exists.1 hsome
    have hfound := List.find?_some hy
    have hkey' : key y = k := of_decide_eq_true hfound
    rw [hy, List.inj_on_of_nodup_map h (List.mem_of_find?_eq_some hy) hmem (hkey'.trans hkey.symm)]

/-- A side shows what its request says. -/
structure Side.Views (side : Side) (request : CompleteRootRequest) : Prop where
  objects_eq : ∀ id : EntityId, side.objects[id]? = request.boundObject id
  definition_eq : ∀ id : EntityId,
    (side.entities[id]?).map ImpactEntity.body = request.definition id
  mem_entities : ∀ {id : EntityId} {entity : ImpactEntity}, side.entities[id]? = some entity →
    entity ∈ request.entities ∧ entity.entityId = id
  isSome_boundObject : ∀ id, (request.boundObject id).isSome ↔ (request.definition id).isSome
  direct_sorted : side.index.direct.Pairwise (compare · · = .lt)
  mem_direct_iff : ∀ edge, edge ∈ side.index.direct ↔ edge ∈ request.edges

theorem Side.build_views {request : CompleteRootRequest} {side : Side}
    (h : Side.build request = .ok side) : side.Views request := by
  simp only [Side.build, bind_eq_ok, Except.mapError_eq_ok, pure_eq_ok] at h
  obtain ⟨judged, hjudged, rfl⟩ := h
  obtain ⟨hids, hsorted, hindex⟩ := inventory_of_judgeCompleteRoot hjudged
  have hids : request.borrowed.map (·.entityId) = request.boundObjects.map Prod.fst := hids
  have hperm : request.borrowed.Perm request.entities := List.perm_insertionSort _ _
  have hbound : (request.boundObjects.map Prod.fst).Nodup := by
    have hnodup : ((request.boundObjects.map Prod.fst).map id).Nodup := Ascends.nodup_keys hsorted
    rwa [List.map_id] at hnodup
  have hborrowed : (request.borrowed.map (·.entityId)).Nodup := hids ▸ hbound
  have hentities : (request.entities.map (·.entityId)).Nodup := (hperm.map _).nodup_iff.1 hborrowed
  -- the definitions by their identities
  have hlookup : ∀ (id : EntityId) (entity : ImpactEntity),
      (EntityMap.ofEntries (request.borrowed.map fun entity ↦ (entity.entityId, entity)))[id]? =
        some entity ↔ entity ∈ request.entities ∧ entity.entityId = id := by
    intro id entity
    rw [EntityMap.getElem?_ofEntries (by rwa [List.map_map])]
    simp only [List.mem_map, Prod.mk.injEq, exists_eq_right_right, hperm.mem_iff]
  have hfind : ∀ id : EntityId,
      (EntityMap.ofEntries (request.borrowed.map fun entity ↦ (entity.entityId, entity)))[id]? =
        request.entities.find? (·.entityId = id) := fun id ↦
    Option.ext fun entity ↦ (hlookup id entity).trans (find?_eq_some_iff_of_nodup hentities).symm
  refine ⟨fun id ↦ ?_, fun id ↦ ?_, fun {id entity} h ↦ (hlookup id entity).1 h, fun id ↦ ?_,
    ImpactIndex.direct_sorted hindex, fun edge ↦ ?_⟩
  · refine Option.ext fun object ↦ ?_
    rw [EntityMap.getElem?_ofEntries hbound, CompleteRootRequest.boundObject, Option.map_eq_some_iff]
    simp only [find?_eq_some_iff_of_nodup hbound, Prod.exists]
    constructor
    · intro hmem
      exact ⟨_, _, ⟨hmem, rfl⟩, rfl⟩
    · rintro ⟨_, _, ⟨hmem, rfl⟩, rfl⟩
      exact hmem
  · rw [CompleteRootRequest.definition, hfind]
  · have hmem : id ∈ request.boundObjects.map Prod.fst ↔ id ∈ request.entities.map (·.entityId) := by
      rw [← hids]
      exact (hperm.map _).mem_iff
    rw [CompleteRootRequest.boundObject, CompleteRootRequest.definition, Option.isSome_map,
      Option.isSome_map, List.find?_isSome, List.find?_isSome]
    simpa only [List.mem_map, decide_eq_true_eq] using hmem
  · rw [ImpactIndex.mem_direct_iff hindex]
    simp only [hperm.mem_iff]
    rfl

/-! ### Section 1 -/

section Entities

/-- The entry of an identity, if it has one. -/
def entityDelta? (base target : Side) (id : EntityId) : Option EntityDelta :=
  match base.entities[id]?, target.entities[id]? with
  | none, none => none
  | none, some entity => some ⟨id, .added, 0, entity.kindTag, none, target.objects[id]?⟩
  | some entity, none => some ⟨id, .removed, entity.kindTag, 0, base.objects[id]?, none⟩
  | some before, some after =>
    if base.objects[id]? = target.objects[id]? then none
    else some ⟨id, sharedChange before after, before.kindTag, after.kindTag, base.objects[id]?,
      target.objects[id]?⟩

variable {base target : Side} {sections sections' : EntitySections} {id : EntityId}

/-- One step appends the entry of its identity. -/
theorem entities_of_classify (h : classify base target sections id = .ok sections') :
    sections'.entities = sections.entities ++ (entityDelta? base target id).toList := by
  obtain ⟨work, -, h⟩ := bind_eq_ok.1 h
  rw [entityDelta?]
  split at h
  · rename_i hbase htarget
    obtain rfl := pure_eq_ok.1 h
    rw [hbase, htarget]
    rfl
  · rename_i hbase htarget
    obtain rfl := pure_eq_ok.1 h
    rw [hbase, htarget]
    rfl
  · rename_i hbase htarget
    rw [hbase, htarget]
    split at h
    · rename_i hobjects
      obtain rfl := pure_eq_ok.1 h
      simp [hobjects]
    · rename_i hobjects
      obtain ⟨⟨fields, work'⟩, -, h⟩ := bind_eq_ok.1 h
      obtain rfl := pure_eq_ok.1 h
      simp [hobjects]
  · cases h

theorem entities_of_foldlM {ids : List EntityId}
    (h : ids.foldlM (classify base target) sections = .ok sections') :
    sections'.entities = sections.entities ++ ids.filterMap (entityDelta? base target) := by
  induction ids generalizing sections with
  | nil =>
    obtain rfl := pure_eq_ok.1 h
    simp
  | cons id ids ih =>
    rw [List.foldlM_cons, bind_eq_ok] at h
    obtain ⟨next, hfirst, hrest⟩ := h
    rw [ih hrest, entities_of_classify hfirst, List.append_assoc, List.filterMap_cons]
    cases entityDelta? base target id <;> rfl

theorem entityId_of_entityDelta? {delta : EntityDelta}
    (h : entityDelta? base target id = some delta) : delta.entityId = id := by
  rw [entityDelta?] at h
  split at h
  · cases h
  · obtain rfl := Option.some.inj h
    rfl
  · obtain rfl := Option.some.inj h
    rfl
  · obtain ⟨-, h⟩ := Option.ite_none_left_eq_some.1 h
    obtain rfl := Option.some.inj h
    rfl

/-- The class of two definitions that both sides have. -/
theorem sharedChange_hasClass (before after : ImpactEntity) :
    HasClass (some before.body) (some after.body) (sharedChange before after) := by
  rw [sharedChange]
  split_ifs with hkind hbody
  · exact .retyped hkind
  · rw [show after.body = before.body from hbody.symm]
    exact .metadataOnly _
  · exact .changed (not_not.1 hkind) hbody

theorem HasClass.unique {before after : Option EntityBodyValue} {change change' : ChangeClass}
    (h : HasClass before after change) (h' : HasClass before after change') : change = change' := by
  cases h with
  | added => cases h'; rfl
  | removed => cases h'; rfl
  | retyped hkind =>
    cases h' with
    | retyped => rfl
    | changed hkind' => exact absurd hkind' hkind
    | metadataOnly => exact absurd rfl hkind
  | changed hkind hbody =>
    cases h' with
    | retyped hkind' => exact absurd hkind hkind'
    | changed => rfl
    | metadataOnly => exact absurd rfl hbody
  | metadataOnly body =>
    cases h' with
    | retyped hkind' => exact absurd rfl hkind'
    | changed _ hbody => exact absurd rfl hbody
    | metadataOnly => rfl

variable {baseRequest targetRequest : CompleteRootRequest}

theorem DescribesChange.eq {delta delta' : EntityDelta}
    (h : DescribesChange baseRequest targetRequest delta)
    (h' : DescribesChange baseRequest targetRequest delta') (hid : delta.entityId = delta'.entityId) :
    delta = delta' := by
  obtain ⟨id, change, baseKind, targetKind, baseObject, targetObject⟩ := delta
  obtain ⟨id', change', baseKind', targetKind', baseObject', targetObject'⟩ := delta'
  obtain rfl : id = id' := hid
  obtain rfl : change = change' := h.change.unique h'.change
  obtain rfl : baseKind = baseKind' := h.baseKind.trans h'.baseKind.symm
  obtain rfl : targetKind = targetKind' := h.targetKind.trans h'.targetKind.symm
  obtain rfl : baseObject = baseObject' := h.baseObject.trans h'.baseObject.symm
  obtain rfl : targetObject = targetObject' := h.targetObject.trans h'.targetObject.symm
  rfl

/-- The entry of an identity describes its change. -/
theorem describesChange_of_entityDelta? (hb : base.Views baseRequest)
    (ht : target.Views targetRequest) {delta : EntityDelta}
    (h : entityDelta? base target id = some delta) :
    DescribesChange baseRequest targetRequest delta := by
  have hbase := hb.definition_eq id
  have htarget := ht.definition_eq id
  have hbaseBound := hb.isSome_boundObject id
  have htargetBound := ht.isSome_boundObject id
  rw [entityDelta?, hb.objects_eq, ht.objects_eq] at h
  split at h
  · cases h
  · rename_i entity hnone hsome
    obtain rfl := Option.some.inj h
    rw [hnone] at hbase
    rw [hsome] at htarget
    -- no definition, no object
    have hobject : baseRequest.boundObject id = none := by
      rw [← Option.not_isSome_iff_eq_none, hbaseBound, ← hbase]
      simp
    have hisSome : (targetRequest.boundObject id).isSome := by
      rw [htargetBound, ← htarget]
      rfl
    refine ⟨hobject.symm, rfl, ?_, congrArg definitionKind hbase, congrArg definitionKind htarget, ?_⟩
    · intro heq
      rw [← heq, hobject] at hisSome
      cases hisSome
    · rw [← hbase, ← htarget]
      exact .added _
  · rename_i entity hsome hnone
    obtain rfl := Option.some.inj h
    rw [hsome] at hbase
    rw [hnone] at htarget
    have hobject : targetRequest.boundObject id = none := by
      rw [← Option.not_isSome_iff_eq_none, htargetBound, ← htarget]
      simp
    have hisSome : (baseRequest.boundObject id).isSome := by
      rw [hbaseBound, ← hbase]
      rfl
    refine ⟨rfl, hobject.symm, ?_, congrArg definitionKind hbase, congrArg definitionKind htarget, ?_⟩
    · intro heq
      rw [heq, hobject] at hisSome
      cases hisSome
    · rw [← hbase, ← htarget]
      exact .removed _
  · rename_i before after hbefore hafter
    obtain ⟨hdiffer, h⟩ := Option.ite_none_left_eq_some.1 h
    obtain rfl := Option.some.inj h
    rw [hbefore] at hbase
    rw [hafter] at htarget
    refine ⟨rfl, rfl, hdiffer, congrArg definitionKind hbase, congrArg definitionKind htarget, ?_⟩
    rw [← hbase, ← htarget]
    exact sharedChange_hasClass before after

/-- An identity whose bindings differ has an entry. -/
theorem exists_entityDelta? (hb : base.Views baseRequest) (ht : target.Views targetRequest)
    (h : baseRequest.boundObject id ≠ targetRequest.boundObject id) :
    ∃ delta, entityDelta? base target id = some delta := by
  rw [entityDelta?, hb.objects_eq, ht.objects_eq]
  split
  · rename_i hbase htarget
    have hbaseNone : baseRequest.boundObject id = none := by
      rw [← Option.not_isSome_iff_eq_none, hb.isSome_boundObject, ← hb.definition_eq, hbase]
      simp
    have htargetNone : targetRequest.boundObject id = none := by
      rw [← Option.not_isSome_iff_eq_none, ht.isSome_boundObject, ← ht.definition_eq, htarget]
      simp
    exact absurd (hbaseNone.trans htargetNone.symm) h
  · exact ⟨_, rfl⟩
  · exact ⟨_, rfl⟩
  · exact ⟨_, if_neg h⟩

theorem mem_unionIds_of_entityDelta? {delta : EntityDelta}
    (h : entityDelta? base target id = some delta) : id ∈ unionIds base target := by
  rw [unionIds, Std.ExtTreeSet.mem_toList, EntitySet.mem_ofIds, List.mem_append,
    Std.ExtTreeMap.mem_keys, Std.ExtTreeMap.mem_keys, EntityMap.mem_iff_exists,
    EntityMap.mem_iff_exists]
  rw [entityDelta?] at h
  split at h
  · cases h
  · rename_i entity _ hsome
    exact .inr ⟨entity, hsome⟩
  · rename_i entity hsome _
    exact .inl ⟨entity, hsome⟩
  · rename_i before _ hsome _
    exact .inl ⟨before, hsome⟩

theorem unionIds_sorted (base target : Side) :
    (unionIds base target).Pairwise (compare · · = .lt) :=
  EntitySet.sorted_toList _

theorem entities_of_entitySections (h : entitySections base target = .ok sections) :
    sections.entities = (unionIds base target).filterMap (entityDelta? base target) := by
  obtain ⟨sections', hfold, h⟩ := bind_eq_ok.1 h
  obtain ⟨-, -, h⟩ := bind_eq_ok.1 h
  obtain rfl := pure_eq_ok.1 h
  exact entities_of_foldlM hfold

/-- **Section 1 has the entries that describe a change, and no others.** -/
theorem mem_entities_iff (hb : base.Views baseRequest) (ht : target.Views targetRequest)
    (h : entitySections base target = .ok sections) (delta : EntityDelta) :
    delta ∈ sections.entities ↔ DescribesChange baseRequest targetRequest delta := by
  rw [entities_of_entitySections h, List.mem_filterMap]
  constructor
  · rintro ⟨id, -, hdelta⟩
    exact describesChange_of_entityDelta? hb ht hdelta
  · intro hdescribes
    obtain ⟨delta', hdelta'⟩ := exists_entityDelta? hb ht hdescribes.differ
    obtain rfl : delta = delta' :=
      hdescribes.eq (describesChange_of_entityDelta? hb ht hdelta')
        (entityId_of_entityDelta? hdelta').symm
    exact ⟨_, mem_unionIds_of_entityDelta? hdelta', hdelta'⟩

theorem mem_entityIds_iff (hb : base.Views baseRequest) (ht : target.Views targetRequest)
    (h : entitySections base target = .ok sections) (id : EntityId) :
    id ∈ sections.entities.map EntityDelta.entityId ↔
      baseRequest.boundObject id ≠ targetRequest.boundObject id := by
  simp only [List.mem_map, mem_entities_iff hb ht h]
  constructor
  · rintro ⟨delta, hdescribes, rfl⟩
    exact hdescribes.differ
  · intro hdiffer
    obtain ⟨delta, hdelta⟩ := exists_entityDelta? hb ht hdiffer
    exact ⟨delta, describesChange_of_entityDelta? hb ht hdelta, entityId_of_entityDelta? hdelta⟩

/-- Each identity has one entry, and they come in the order of the identities. -/
theorem entities_sorted (h : entitySections base target = .ok sections) :
    Ascends EntityDelta.entityId sections.entities := by
  rw [entities_of_entitySections h, Ascends, List.pairwise_filterMap]
  refine (unionIds_sorted base target).imp fun hlt delta hdelta delta' hdelta' ↦ ?_
  rw [entityId_of_entityDelta? hdelta, entityId_of_entityDelta? hdelta']
  exact hlt

end Entities

/-! ### Section 4 -/

section Relations

variable {base target : Side} {relations : List RelationDelta} {work work' : Nat}
  {baseRequest targetRequest : CompleteRootRequest}

/-- The entry for what is emitted of an edge. -/
def relationOf : ImpactEdge ⊕ ImpactEdge → RelationDelta :=
  Sum.elim (relation · .removed) (relation · .added)

theorem edge_relationOf (x : ImpactEdge ⊕ ImpactEdge) :
    (relationOf x).edge = symmetricDifference.value x := by
  cases x <;> rfl

theorem relations_of_relationSection
    (h : relationSection base target work = .ok (relations, work')) :
    relations = (symmetricDifference base.index.direct target.index.direct).map relationOf := by
  obtain ⟨⟨relations', work₁⟩, hdeltas, h⟩ := bind_eq_ok.1 h
  obtain ⟨-, -, h⟩ := bind_eq_ok.1 h
  obtain ⟨rfl, -⟩ := Prod.mk.inj (pure_eq_ok.1 h)
  obtain ⟨work₂, -, hdeltas⟩ := bind_eq_ok.1 hdeltas
  exact (Prod.mk.inj (pure_eq_ok.1 hdeltas)).1

/-- **Section 4 is the symmetric difference of the edges.** -/
theorem mem_relations_iff (hb : base.Views baseRequest) (ht : target.Views targetRequest)
    (h : relationSection base target work = .ok (relations, work')) (delta : RelationDelta) :
    delta ∈ relations ↔ DescribesRelation baseRequest targetRequest delta := by
  have hdelta : ∀ x : ImpactEdge ⊕ ImpactEdge, relationOf x = delta ↔
      x = match delta.change with | .added => .inr delta.edge | .removed => .inl delta.edge := by
    obtain ⟨dependent, dependency, kind, change⟩ := delta
    intro x
    cases change <;> cases x <;> simp [relationOf, relation, RelationDelta.edge, ImpactEdge.ext_iff]
  rw [relations_of_relationSection h, List.mem_map]
  simp only [hdelta, exists_eq_right, DescribesRelation, ← hb.mem_direct_iff, ← ht.mem_direct_iff]
  cases delta.change with
  | added => exact symmetricDifference.inr_mem_iff hb.direct_sorted ht.direct_sorted _
  | removed => exact symmetricDifference.inl_mem_iff hb.direct_sorted ht.direct_sorted _

theorem relations_sorted (hb : base.Views baseRequest) (ht : target.Views targetRequest)
    (h : relationSection base target work = .ok (relations, work')) :
    Ascends RelationDelta.edge relations := by
  rw [relations_of_relationSection h, Ascends, List.pairwise_map]
  simp only [edge_relationOf]
  exact List.pairwise_map.1 (symmetricDifference.sorted hb.direct_sorted ht.direct_sorted)

end Relations

/-! ### The whole delta -/

variable [ComparisonBasis]

/-- What is compared of two sides is exact. -/
theorem compareSides_isExact {baseRequest targetRequest : CompleteRootRequest} {base target : Side}
    {delta : SemanticDelta} (hb : base.Views baseRequest) (ht : target.Views targetRequest)
    (h : compareSides baseRequest targetRequest base target = .ok delta) :
    delta.IsExact baseRequest targetRequest := by
  obtain ⟨sections, hsections, h⟩ := bind_eq_ok.1 h
  obtain ⟨⟨bodies, work₁⟩, -, h⟩ := bind_eq_ok.1 h
  obtain ⟨⟨relations, work₂⟩, hrelations, h⟩ := bind_eq_ok.1 h
  obtain ⟨collateral, -, h⟩ := bind_eq_ok.1 h
  obtain ⟨-, -, h⟩ := bind_eq_ok.1 h
  obtain rfl := pure_eq_ok.1 h
  exact {
    entities_sorted := entities_sorted hsections
    mem_ids := mem_entityIds_iff hb ht hsections
    mem_entities := mem_entities_iff hb ht hsections
    relations_sorted := relations_sorted hb ht hrelations
    mem_relations := mem_relations_iff hb ht hrelations }

end Sley.Repo
