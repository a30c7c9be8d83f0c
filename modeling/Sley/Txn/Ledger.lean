import Mathlib
import Sley.Mutate.Candidate
import Sley.Lib.SortUnique
import Sley.Ssmc.Order

/-!
# The identity ledger of a transaction

What a transaction records about identities (`sley-txn/src/repository.rs`): the bindings that
changed between the parent's root and its own, and the tombstones, the identities that were bound
once and must never be bound again. The source computes both from two lists of bindings through
ordered maps and sets.

**Both computations are characterised by membership alone** (`deriveBindingDiff_eq_ok`,
`nextTombstonesFromRecords_eq_ok`), so nothing after this module looks at the maps.
-/

namespace Sley.Txn

open Mutate Ssmc
open Except hiding ok error
open EntityMap (not_mem_iff ofEntries)
open EntitySet (mem_ofIds ofIds sorted_toList)

/-- Stable transaction failure code. -/
inductive TransactionErrorCode
  | formatVersion
  | kindInvalid
  | parentShape
  | fieldShape
  | changedBindingInvalid
  | tombstoneInvalid
  | resultNotValid
  | resultBindingMismatch
  | testEvidenceUnsupported
  | objectInventoryMismatch
  | receiptBindingMismatch
  | receiptConflict
  | genesisInvalid
  | alreadyInitialized
  | headMissing
  | headCorrupt
  | refCasStale
  | recoveryReceiptIncomplete
  | recoveryRefCasIncomplete
  | io
  | internalInvariant
  | resourceLimit
  | incompleteClone
  deriving DecidableEq, Repr

/-- One exact parent-to-committed entity-binding change. -/
structure ChangedBinding where
  entityId : EntityId
  /-- Exact parent object, absent for creation. -/
  preimage : Option ObjectId
  /-- Exact committed object, absent for deletion. -/
  postimage : Option ObjectId
  /-- Candidate operation ordinals that produced this binding. -/
  mutationOrdinals : List UInt32
  deriving DecidableEq

/-- The bindings of a root: entities to objects. -/
abbrev Bindings := List (EntityId × ObjectId)

section Diff

variable [HostLayout]

/-- The ordinals of the operations that target an entity. -/
def ordinalsOf (operations : Option (List MutationOperation)) (entityId : EntityId) : List UInt32 :=
  match operations with
  | none => []
  | some operations =>
    (operations.filter fun operation ↦ operation.targetEntity = entityId).map (·.ordinal)

/-- One turn of the loop of `derive_binding_diff`: the change at one identity, if there is one. -/
def diffAt (base committed : EntityMap ObjectId) (operations : Option (List MutationOperation))
    (entityId : EntityId) : Except TransactionErrorCode (Option ChangedBinding) :=
  let preimage := base[entityId]?
  let postimage := committed[entityId]?
  if preimage = postimage then
    .ok none
  else do
    let mutationOrdinals := ordinalsOf operations entityId
    rejectIf (operations.isSome ∧ mutationOrdinals = []) .changedBindingInvalid
    return some { entityId, preimage, postimage, mutationOrdinals }

def deriveBindingDiff (base committed : Bindings) (operations : Option (List MutationOperation)) :
    Except TransactionErrorCode (List ChangedBinding) := do
  let base := ofEntries base
  let committed := ofEntries committed
  let identities := ofIds (base.keys ++ committed.keys)
  let out ← identities.toList.mapM (diffAt base committed operations)
  return out.reduceOption

end Diff

/-- One turn of the loop of `next_tombstones_from_records`. -/
def tombstoneStep (tombstones : EntitySet) (binding : ChangedBinding) :
    Except TransactionErrorCode EntitySet := do
  let tombstones := if binding.preimage.isSome ∧ binding.postimage.isNone then
    tombstones.insert binding.entityId else tombstones
  rejectIf (binding.postimage.isSome ∧ binding.entityId ∈ tombstones) .tombstoneInvalid
  return tombstones

def nextTombstonesFromRecords (previous : List EntityId) (changed : List ChangedBinding)
    (committed : Bindings) : Except TransactionErrorCode (List EntityId) := do
  let tombstones ← changed.foldlM tombstoneStep (ofIds previous)
  rejectIf (∃ binding ∈ committed, binding.1 ∈ tombstones) .tombstoneInvalid
  return tombstones.toList

/-! ### Lookups -/

/-- The object an identity is bound to. -/
def lookup (bindings : Bindings) (entityId : EntityId) : Option ObjectId :=
  (ofEntries bindings)[entityId]?

theorem lookup_isSome {bindings : Bindings} {entityId : EntityId} :
    (lookup bindings entityId).isSome ↔ entityId ∈ bindings.map Prod.fst := by
  rw [lookup, ← Std.ExtTreeMap.mem_iff_isSome_getElem?, EntityMap.mem_ofEntries]

/-! ### The diff -/

/-- The changes of a traversal stand in the order of their identities. -/
theorem sublist_reduceOption {ids : List EntityId} {out : List (Option ChangedBinding)}
    (h : List.Forall₂ (fun id change ↦ ∀ c ∈ change, c.entityId = id) ids out) :
    (out.reduceOption.map ChangedBinding.entityId).Sublist ids := by
  induction h with
  | nil => exact List.Sublist.refl _
  | @cons id change ids out hid _ ih =>
    cases change with
    | none =>
      rw [List.reduceOption_cons_of_none]
      exact ih.cons _
    | some c =>
      rw [List.reduceOption_cons_of_some, List.map_cons, hid c rfl]
      exact ih.cons_cons _

section Diff

variable [HostLayout]

variable {operations : Option (List MutationOperation)}

theorem diffAt_eq_ok {base committed : EntityMap ObjectId} {entityId : EntityId}
    {change : Option ChangedBinding} :
    diffAt base committed operations entityId = .ok change ↔
      (base[entityId]? = committed[entityId]? ∧ change = none) ∨
      (base[entityId]? ≠ committed[entityId]? ∧
        (operations.isSome → ordinalsOf operations entityId ≠ []) ∧
        change = some ⟨entityId, base[entityId]?, committed[entityId]?,
          ordinalsOf operations entityId⟩) := by
  simp only [diffAt]
  split
  · rename_i heq
    simp only [Except.ok.injEq, heq, true_and, ne_eq, not_true_eq_false, false_and, or_false]
    exact eq_comm
  · rename_i hne
    simp only [bind_eq_ok, rejectIf_eq_ok, exists_const, pure_eq_ok, not_and,
      hne, false_and, ne_eq, not_false_eq_true, true_and, false_or]

/-- What a transaction records of the difference between two roots. -/
structure BindingDiff (base committed : Bindings) (operations : Option (List MutationOperation))
    (changed : List ChangedBinding) : Prop where
  sorted : Ascends ChangedBinding.entityId changed
  /-- Exactly the identities whose binding differs, with the ordinals of the operations on them. -/
  mem_iff : ∀ change : ChangedBinding, change ∈ changed ↔
    change.preimage = lookup base change.entityId ∧
      change.postimage = lookup committed change.entityId ∧
      change.preimage ≠ change.postimage ∧
      change.mutationOrdinals = ordinalsOf operations change.entityId
  /-- Some operation targets each of them. -/
  caused : operations.isSome → ∀ change ∈ changed, change.mutationOrdinals ≠ []

/-- **The derived diff is the difference of the two roots.** -/
theorem deriveBindingDiff_spec {base committed : Bindings} {changed : List ChangedBinding}
    (h : deriveBindingDiff base committed operations = .ok changed) :
    BindingDiff base committed operations changed := by
  simp only [deriveBindingDiff, bind_eq_ok, pure_eq_ok] at h
  obtain ⟨out, hout, rfl⟩ := h
  have hmem : ∀ {change : ChangedBinding}, change ∈ out.reduceOption ↔
      ∃ id ∈ (ofIds ((ofEntries base).keys ++ (ofEntries committed).keys)).toList,
        diffAt (ofEntries base) (ofEntries committed) operations id = .ok (some change) := by
    intro change
    rw [List.reduceOption_mem_iff, mem_iff_of_mapM_eq_ok hout]
  have hentry : ∀ {id : EntityId} {change : ChangedBinding},
      diffAt (ofEntries base) (ofEntries committed) operations id =
        .ok (some change) ↔ change = ⟨id, lookup base id, lookup committed id,
          ordinalsOf operations id⟩ ∧ lookup base id ≠ lookup committed id ∧
          (operations.isSome → ordinalsOf operations id ≠ []) := by
    intro id change
    rw [diffAt_eq_ok]
    simp only [reduceCtorEq, and_false, false_or, Option.some.injEq, lookup]
    tauto
  -- an identity that is bound on neither side does not differ
  have hlisted : ∀ {id : EntityId}, lookup base id ≠ lookup committed id →
      id ∈ (ofIds ((ofEntries base).keys ++ (ofEntries committed).keys)).toList := by
    intro id hne
    rw [Std.ExtTreeSet.mem_toList, mem_ofIds, List.mem_append,
      Std.ExtTreeMap.mem_keys, Std.ExtTreeMap.mem_keys]
    by_contra hout
    rw [not_or, not_mem_iff, not_mem_iff] at hout
    exact hne (hout.1.trans hout.2.symm)
  constructor
  case sorted =>
    have hsub := sublist_reduceOption
      ((Except.mapM_eq_ok.1 hout).imp fun id change hdiff c hc ↦ by
        rw [Option.mem_def.1 hc, hentry] at hdiff
        rw [hdiff.1])
    exact List.pairwise_map.1 ((sorted_toList _).sublist hsub)
  case mem_iff =>
    intro change
    rw [hmem]
    constructor
    · rintro ⟨id, -, hid⟩
      obtain ⟨rfl, hne, -⟩ := hentry.1 hid
      exact ⟨rfl, rfl, hne, rfl⟩
    · rintro ⟨hpre, hpost, hne, hordinals⟩
      rw [hpre, hpost] at hne
      have hid := hlisted hne
      -- the loop did not stop at this identity
      obtain ⟨result, hresult⟩ := exists_of_mapM_eq_ok hout hid
      obtain ⟨heq, -⟩ | ⟨-, hcaused, rfl⟩ := diffAt_eq_ok.1 hresult
      · exact absurd heq hne
      · refine ⟨_, hid, hentry.2 ⟨?_, hne, hcaused⟩⟩
        rw [← hpre, ← hpost, ← hordinals]
  case caused =>
    intro hsome change hchange
    obtain ⟨id, -, hid⟩ := hmem.1 hchange
    obtain ⟨rfl, -, hordinals⟩ := hentry.1 hid
    exact hordinals hsome

end Diff

/-! ### The tombstones -/

/-- A change that unbinds an identity. -/
def ChangedBinding.Unbinds (change : ChangedBinding) : Prop :=
  change.preimage.isSome ∧ change.postimage.isNone

variable {changed : List ChangedBinding} {tombstones tombstones' : EntitySet}

theorem tombstoneStep_eq_ok {binding : ChangedBinding}
    (h : tombstoneStep tombstones binding = .ok tombstones') {entityId : EntityId} :
    entityId ∈ tombstones' ↔
      entityId ∈ tombstones ∨ (binding.Unbinds ∧ binding.entityId = entityId) := by
  simp only [tombstoneStep, bind_eq_ok, rejectIf_eq_ok, exists_const, pure_eq_ok] at h
  obtain ⟨-, rfl⟩ := h
  split
  · rename_i hunbinds
    rw [EntitySet.mem_insert_iff, or_comm, eq_comm]
    exact or_congr_right (and_iff_right hunbinds).symm
  · rename_i hkeeps
    exact (or_iff_left fun h ↦ hkeeps h.1).symm

/-- The loop over the changes adds the identities they unbind. -/
theorem foldlM_tombstoneStep
    (h : changed.foldlM tombstoneStep tombstones = .ok tombstones') {entityId : EntityId} :
    entityId ∈ tombstones' ↔ entityId ∈ tombstones ∨
      ∃ change ∈ changed, change.Unbinds ∧ change.entityId = entityId := by
  induction changed generalizing tombstones with
  | nil =>
    obtain rfl := Except.pure_eq_ok.1 h
    simp
  | cons change changed ih =>
    rw [List.foldlM_cons, bind_eq_ok] at h
    obtain ⟨mid, hstep, hrest⟩ := h
    rw [ih hrest, tombstoneStep_eq_ok hstep, or_assoc]
    simp only [List.mem_cons, exists_eq_or_imp]

/-- **The next tombstones are the previous ones and what the changes unbind**, and none of them is
bound. -/
theorem nextTombstonesFromRecords_spec {previous tombstones : List EntityId} {committed : Bindings}
    (h : nextTombstonesFromRecords previous changed committed = .ok tombstones) :
    Ascends id tombstones ∧ (∀ entityId, entityId ∈ tombstones ↔ entityId ∈ previous ∨
        ∃ change ∈ changed, change.Unbinds ∧ change.entityId = entityId) ∧
      ∀ entityId ∈ tombstones, entityId ∉ committed.map Prod.fst := by
  simp only [nextTombstonesFromRecords, bind_eq_ok, rejectIf_eq_ok, exists_const, pure_eq_ok] at h
  obtain ⟨set, hset, hdisjoint, rfl⟩ := h
  refine ⟨sorted_toList set, fun entityId ↦ ?_, fun entityId hid hbound ↦ ?_⟩
  · rw [Std.ExtTreeSet.mem_toList, foldlM_tombstoneStep hset, mem_ofIds]
  · obtain ⟨binding, hbinding, rfl⟩ := List.mem_map.1 hbound
    exact hdisjoint ⟨binding, hbinding, Std.ExtTreeSet.mem_toList.1 hid⟩

/-- The next tombstones depend on which bindings there are, not on how they are listed. -/
theorem nextTombstonesFromRecords_perm {previous : List EntityId}
    {committed committed' : Bindings} (h : committed.Perm committed') :
    nextTombstonesFromRecords previous changed committed =
      nextTombstonesFromRecords previous changed committed' := by
  simp only [nextTombstonesFromRecords, h.mem_iff]

end Sley.Txn
