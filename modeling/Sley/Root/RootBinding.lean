import Mathlib
import Sley.Root.StateRootCodec
import Sley.Scb1.Canonical

/-!
# What a root binds

`recompute_root` is how a query is tied to the facts it is answered from: its documentation has the
fields encoded exactly as given. They are, except for the entity bindings, which go through the map
encoder, and that sorts. **So a root binds the record up to the order of its bindings**
(`recomputeRoot_binds_iff`): two records that list the same bindings in two orders have the same root,
and without collisions of the digest that is the only way in which they can differ.

Every other field is a fixed width identity or a counted sequence of self-delimiting pieces.
-/

namespace Sley.Root

open Scb1
open Prod (fst mk)

/-! ### Records up to the order of their bindings -/

namespace StateRootRecord

/-- The two records differ at most in the order of their entity bindings. -/
structure Rearranges (record record' : StateRootRecord) : Prop where
  entityBindings : record.entityBindings.Perm record'.entityBindings
  others : { record with entityBindings := record'.entityBindings } = record'

/-- The two records list the same bindings in two different orders, and differ in nothing else. -/
structure Reorders (record record' : StateRootRecord) : Prop extends
    record.Rearranges record' where
  differ : record.entityBindings ≠ record'.entityBindings

variable {record record' : StateRootRecord}

theorem Rearranges.eq (h : record.Rearranges record')
    (hsame : record.entityBindings = record'.entityBindings) : record = record' := by
  rw [← h.others, ← hsame]

theorem Reorders.ne (h : record.Reorders record') : record ≠ record' := by
  rintro rfl
  exact h.differ rfl

/-- What the root of the record is a digest of. -/
def Commits (record : StateRootRecord) (preimage : Bytes) : Prop :=
  ∃ payload, encodePayload record = .ok payload ∧
    preimage = rootPreimage record.schemaEpochId payload

end StateRootRecord

/-! ### The payload -/

variable {record record' : StateRootRecord} {payload : Bytes}

theorem encodePayload_congr (h : record.Rearranges record') :
    encodePayload record = encodePayload record' := by
  rw [← h.others, encodePayload, encodePayload, encodeMap_eq_encode,
    Container.encode_congr (h.entityBindings.map _)]

/-- Bindings that have an encoding can be put into order. -/
theorem exists_ascends_of_encodePayload {record : StateRootRecord}
    (h : encodePayload record = .ok payload) :
    ∃ ordered : List (EntityId × ObjectId), ordered.Perm record.entityBindings ∧
      Ascends fst ordered := by
  simp only [encodePayload, Except.mapError_eq_ok, Except.bind_eq_ok] at h
  obtain ⟨bindings, hbindings, -⟩ := h
  have hkeys : (record.entityBindings.map fst).Nodup := by
    have hbytes := Container.nodup_of_encode_eq_ok (c := mapContainer) hbindings
    rw [List.map_map] at hbytes
    rw [show (fst ∘ fun b : EntityId × ObjectId ↦ (b.1.bytes, b.2.bytes)) =
      Id.bytes ∘ fst from rfl, ← List.map_map] at hbytes
    exact List.Nodup.of_map _ hbytes
  cases hsort : sortUnique fst record.entityBindings with
  | none => exact absurd hkeys (sortUnique_eq_none_iff.1 hsort)
  | some ordered => exact ⟨ordered, sortUnique_eq_some.1 hsort⟩

theorem selfDelimiting_bindingBytes : SelfDelimiting bindingBytes :=
  selfDelimiting_entryBytes.comp (f := fun b : EntityId × ObjectId ↦ (b.1.bytes, b.2.bytes))
    fun _ _ h ↦ Prod.ext (Id.ext (mk.inj h).1) (Id.ext (mk.inj h).2)

theorem encodeIdSet_inj {kind : IdKind} {ids ids' : List (Id kind)} {bs : Bytes}
    (h : encodeIdSet ids = .ok bs) (h' : encodeIdSet ids' = .ok bs) : ids = ids' := by
  have hd : SelfDelimiting fun v : Id kind ↦ sizedBytes v.bytes :=
    selfDelimiting_sizedBytes.comp fun _ _ ↦ Id.ext
  exact hd.counted.injective ((encodeIdSet_eq_ok.1 h).2.symm.trans (encodeIdSet_eq_ok.1 h').2)

theorem encodeU32Set_inj {flags flags' : List UInt32} {bs : Bytes}
    (h : encodeU32Set flags = .ok bs) (h' : encodeU32Set flags' = .ok bs) : flags = flags' := by
  have hd : SelfDelimiting fun v ↦ sizedBytes (flagKey v) :=
    selfDelimiting_sizedBytes.comp fun _ _ h ↦ UInt32.toNat_inj.1 (Leb128.encode_injective h)
  exact hd.counted.injective ((encodeU32Set_eq_ok.1 h).2.symm.trans (encodeU32Set_eq_ok.1 h').2)

/-- **Among records with their bindings in order, the payload determines the record.** -/
theorem encodePayload_inj (hasc : Ascends fst record.entityBindings)
    (hasc' : Ascends fst record'.entityBindings)
    (h : encodePayload record = .ok payload) (h' : encodePayload record' = .ok payload) :
    record = record' := by
  obtain ⟨b, e, d, f, ⟨-, hb⟩, he, hd, hf, -, rfl⟩ := (encodePayload_eq_ok hasc).1 h
  obtain ⟨b', e', d', f', ⟨-, hb'⟩, he', hd', hf', -, hfields⟩ := (encodePayload_eq_ok hasc').1 h'
  have hfields : record.fields b e d f = record'.fields b' e' d' f' :=
    selfDelimiting_taggedBytes.counted.injective hfields
  simp only [StateRootRecord.fields, List.cons.injEq, mk.injEq, true_and, and_true] at hfields
  obtain ⟨hworkspace, hepoch, rfl, rfl, rfl, hcontract, htest, hpolicy, rfl⟩ := hfields
  have hbindings := selfDelimiting_bindingBytes.counted.injective (hb.symm.trans hb')
  obtain ⟨w, s, bs, es, ds, c, t, p, fs⟩ := record
  obtain ⟨w', s', bs', es', ds', c', t', p', fs'⟩ := record'
  rw [StateRootRecord.mk.injEq]
  exact ⟨Id.ext hworkspace, Id.ext hepoch, hbindings, encodeIdSet_inj he he',
    encodeIdSet_inj hd hd', Id.ext hcontract, Id.ext htest, Id.ext hpolicy, encodeU32Set_inj hf hf'⟩

theorem rootPreimage_inj {epochId epochId' : SchemaEpochId} {payload payload' : Bytes}
    (h : rootPreimage epochId payload = rootPreimage epochId' payload') :
    epochId = epochId' ∧ payload = payload' := by
  simp only [rootPreimage, List.append_assoc, List.append_cancel_left_eq] at h
  obtain ⟨hepoch, h⟩ := List.append_inj h (by rw [Id.length_eq, Id.length_eq])
  rw [encodeCount, encodeCount, encodeUvar_eq, encodeUvar_eq] at h
  exact ⟨Id.ext hepoch, (Leb128.encode_append_inj h).2⟩

/-- The payload determines the record up to the order of its bindings. -/
theorem rearranges_of_encodePayload
    (h : encodePayload record = .ok payload) (h' : encodePayload record' = .ok payload) :
    record.Rearranges record' := by
  obtain ⟨ordered, hperm, hasc⟩ := exists_ascends_of_encodePayload h
  obtain ⟨ordered', hperm', hasc'⟩ := exists_ascends_of_encodePayload h'
  have hpayload : encodePayload { record with entityBindings := ordered } = encodePayload record :=
    encodePayload_congr ⟨hperm, rfl⟩
  have hpayload' : encodePayload { record' with entityBindings := ordered' } =
      encodePayload record' := encodePayload_congr ⟨hperm', rfl⟩
  rw [← hpayload] at h
  rw [← hpayload'] at h'
  have heq := encodePayload_inj (by exact hasc) (by exact hasc') h h'
  have hordered : ordered = ordered' := congrArg StateRootRecord.entityBindings heq
  refine ⟨hperm.symm.trans (hordered ▸ hperm'), ?_⟩
  exact congrArg (fun r : StateRootRecord ↦ { r with entityBindings := record'.entityBindings }) heq

/-! ### The root -/

section

variable [Blake3] {record record' : StateRootRecord} {root root' : StateRoot}

theorem recomputeRoot_congr (h : record.Rearranges record') :
    recomputeRoot record = recomputeRoot record' := by
  rw [recomputeRoot, recomputeRoot, encodeStateRoot, encodeStateRoot, encodePayload_congr h,
    ← h.others]

theorem exists_commits_of_recomputeRoot (h : recomputeRoot record = .ok root) :
    ∃ preimage, record.Commits preimage ∧ root = StateRoot.derive preimage := by
  simp only [recomputeRoot, encodeStateRoot, Except.bind_eq_ok, Prod.exists, storedBytes_eq_ok,
    Except.pure_eq_ok] at h
  obtain ⟨_, _, ⟨payload, hpayload, -, hroot, -⟩, rfl⟩ := h
  exact ⟨_, ⟨payload, hpayload, rfl⟩, hroot⟩

/-- **A root determines its record up to the order of the bindings**, as long as the digest has no
collisions among the preimages considered. -/
theorem rearranges_of_recomputeRoot {preimages : Set Bytes}
    (hcollision : Set.InjOn StateRoot.derive preimages)
    (hmem : ∀ preimage, record.Commits preimage → preimage ∈ preimages)
    (hmem' : ∀ preimage, record'.Commits preimage → preimage ∈ preimages)
    (h : recomputeRoot record = .ok root) (h' : recomputeRoot record' = .ok root) :
    record.Rearranges record' := by
  obtain ⟨preimage, hcommits, hroot⟩ := exists_commits_of_recomputeRoot h
  obtain ⟨preimage', hcommits', hroot'⟩ := exists_commits_of_recomputeRoot h'
  obtain rfl := hcollision (hmem _ hcommits) (hmem' _ hcommits') (hroot.symm.trans hroot')
  obtain ⟨payload, hpayload, rfl⟩ := hcommits
  obtain ⟨payload', hpayload', hpreimage⟩ := hcommits'
  obtain ⟨-, rfl⟩ := rootPreimage_inj hpreimage
  exact rearranges_of_encodePayload hpayload hpayload'

/-- **What a root binds.** Two records with one root are equal, unless they list the same bindings
in two different orders and agree in every other field; such records always have one root. -/
theorem recomputeRoot_binds_iff {preimages : Set Bytes}
    (hcollision : Set.InjOn StateRoot.derive preimages) {record record' : StateRootRecord}
    {root root' : StateRoot}
    (hmem : ∀ preimage, record.Commits preimage → preimage ∈ preimages)
    (hmem' : ∀ preimage, record'.Commits preimage → preimage ∈ preimages)
    (h : recomputeRoot record = .ok root) (h' : recomputeRoot record' = .ok root') :
    (root = root' → record = record') ↔ ¬ record.Reorders record' := by
  constructor
  · intro hbinds hreorders
    have hroot := recomputeRoot_congr hreorders.toRearranges
    rw [h, h', Except.ok.injEq] at hroot
    exact hreorders.ne (hbinds hroot)
  · rintro hreorders rfl
    have hrearranges := rearranges_of_recomputeRoot hcollision hmem hmem' h h'
    by_cases hsame : record.entityBindings = record'.entityBindings
    · exact hrearranges.eq hsame
    · exact absurd ⟨hrearranges, hsame⟩ hreorders

end

/-! ### The frozen vector, and the same record with its bindings the other way round -/

def frozenReversed : StateRootRecord :=
  { frozenRecord with entityBindings := frozenRecord.entityBindings.reverse }

theorem frozenRecord_reorders : frozenRecord.Reorders frozenReversed where
  entityBindings := (List.reverse_perm _).symm
  others := rfl
  differ := by with_unfolding_all decide

/-- The two records commit to the same bytes. -/
theorem commits_frozen_subsingleton :
    {preimage | frozenRecord.Commits preimage ∨ frozenReversed.Commits preimage}.Subsingleton := by
  have hcongr := encodePayload_congr frozenRecord_reorders.toRearranges
  have hone : ∀ preimage, frozenReversed.Commits preimage → frozenRecord.Commits preimage := by
    rintro _ ⟨payload, hpayload, rfl⟩
    exact ⟨payload, hcongr.trans hpayload, rfl⟩
  rintro x hx y hy
  obtain ⟨payload, hpayload, rfl⟩ := hx.elim id (hone x)
  obtain ⟨payload', hpayload', rfl⟩ := hy.elim id (hone y)
  rw [Except.ok.inj (hpayload.symm.trans hpayload')]

theorem exists_recomputeRoot_frozenRecord [Blake3] :
    ∃ root, recomputeRoot frozenRecord = .ok root ∧ recomputeRoot frozenReversed = .ok root := by
  obtain ⟨payload, hencode, hlen⟩ := exists_encodePayload_frozenRecord
  obtain ⟨-, -, payload', hencode', -, hstored⟩ :=
    validRoot_frozenRegistry frozenRecord_canonical frozenRecord_semantics rfl hencode hlen
  have hroot : recomputeRoot frozenRecord =
      .ok (StateRoot.derive (rootPreimage frozenEpochId payload)) := by
    rw [recomputeRoot, encodeStateRoot, hencode', Except.ok_bind, hstored]
    rfl
  exact ⟨_, hroot, (recomputeRoot_congr frozenRecord_reorders.toRearranges).symm.trans hroot⟩

/-- The two records differ and have one root, although their preimages do not collide. -/
theorem recomputeRoot_ignores_order :
    letI := frozenBlake3
    Set.InjOn StateRoot.derive
        {preimage | frozenRecord.Commits preimage ∨ frozenReversed.Commits preimage} ∧
      frozenRecord ≠ frozenReversed ∧
      ∃ root, recomputeRoot frozenRecord = .ok root ∧ recomputeRoot frozenReversed = .ok root := by
  let _ := frozenBlake3
  exact ⟨commits_frozen_subsingleton.injOn _, frozenRecord_reorders.ne,
    exists_recomputeRoot_frozenRecord⟩

theorem recomputeRoot_binds_iff_frozen :
    letI := frozenBlake3
    ∃ root root', recomputeRoot frozenRecord = .ok root ∧
      recomputeRoot frozenReversed = .ok root' ∧
      ((root = root' → frozenRecord = frozenReversed) ↔
        ¬ frozenRecord.Reorders frozenReversed) := by
  let _ := frozenBlake3
  obtain ⟨root, hroot, hroot'⟩ := exists_recomputeRoot_frozenRecord
  exact ⟨root, root, hroot, hroot', recomputeRoot_binds_iff (commits_frozen_subsingleton.injOn _)
    (fun _ ↦ Or.inl) (fun _ ↦ Or.inr) hroot hroot'⟩

end Sley.Root
