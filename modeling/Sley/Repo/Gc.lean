import Mathlib
import Sley.Lib.Operation
import Sley.Lib.Worklist
import Sley.Repo.Retention
import Sley.Txn.Head

/-!
# Garbage collection

The mark and the sweep of `sley-repo/src/gc.rs` on an object store. Marking goes over two chained
worklists: the roots, along their dependency roots, and then the objects, along the references a
verifier finds in them. What the inventory holds besides is deleted, one object after the other.

A store is the map of its object files; an entry of the object tree that is no object file under
its own path makes the inventory invalid and is not represented. The size budgets of a report are.
-/

namespace Sley.Repo

open Scb1 Ssmc Mutate Root Policy Txn
open Except hiding ok error
open Std.ExtTreeSet (mem_ofList mem_toList ofList)
open VisitGraph (explore_nil explore_skip explore_visit)
open Id (splat)
open RetentionAnchor (key targets)
open List (foldlM_cons mem_flatMap mem_singleton nil_append)
open OrderedMap (mem_iff_exists)

/-! ### The object store -/

/-- The object files of a store, and the length of the path of its root. -/
structure ObjectStore where
  rootLength : Nat
  objects : Std.ExtTreeMap ObjectId Bytes

/-- Canonical verifier plus schema-selected object-reference extraction. -/
structure GcObjectVerifier where
  verify : Bytes → Except ScbErrorCode ObjectId
  references : Bytes → Except ScbErrorCode (List ObjectId)

/-- `objects/scb1/<hex>/<hex>/<hex>.scb1` under the root. -/
def ObjectStore.objectPathLength (store : ObjectStore) : Nat :=
  store.rootLength + "/objects/scb1/".length + "00/00/".length + 64 + ".scb1".length

section

variable [Blake3]

/-- `verify_record`. -/
def verifyStored (record : Bytes) (declaredId : ObjectId) (verifier : GcObjectVerifier) :
    Except StoreErrorCode Unit := do
  let derived ← verifyDigestTrailer record
  rejectIf (derived ≠ declaredId) .storeObjectSubstitution
  let verifiedId ← (verifier.verify record).mapError mapScbError
  rejectIf (verifiedId ≠ declaredId) .storeObjectSubstitution

/-- Reads and verifies an object by path-derived ID. -/
def ObjectStore.read (store : ObjectStore) (objectId : ObjectId) (verifier : GcObjectVerifier) :
    Except StoreErrorCode Bytes := do
  let record ← ofOption .storeObjectNotFound store.objects[objectId]?
  rejectIf (record.length > maxStandaloneBytes) .scbResourceLimit
  verifyStored record objectId verifier
  return record

end

def mapStoreError : StoreErrorCode → GcError
  | .storeObjectNotFound => .gc .objectMissing
  | code => .upstream (.store code)

/-! ### The inventory -/

def maxGcInventoryObjects : Nat := 262144

structure InventoryEntry where
  objectId : ObjectId
  bytes : Nat
  deriving DecidableEq

def inventory (store : ObjectStore) : Except GcError (List InventoryEntry) := do
  rejectIf (store.objects.size > maxGcInventoryObjects) (.gc .resourceLimit)
  return store.objects.toList.map fun (objectId, record) ↦ ⟨objectId, record.length⟩

/-- One entry more in a sum that is a `u64`. -/
def addBytes (total : Nat) (entry : InventoryEntry) : Except GcError Nat := do
  rejectIf (total + entry.bytes ≥ 2 ^ 64) (.gc .resourceLimit)
  return total + entry.bytes

def inventoryIds (entries : List InventoryEntry) : Std.ExtTreeSet ObjectId :=
  .ofList (entries.map InventoryEntry.objectId)

/-- The bytes of some entries. -/
def totalBytes (entries : List InventoryEntry) : Except GcError Nat := entries.foldlM addBytes 0

/-! ### The roots -/

/-- `BTreeMap<StateRoot, AcceptedStateRoot>`. -/
abbrev RootMap := Std.ExtTreeMap StateRoot AcceptedStateRoot

def maxGcDependencyEdges : Nat := 1000000

/-- One dependency edge more, to a root of the catalogue. -/
def countDependency (roots : RootMap) (edgeCount : Nat)
    (dependency : StateRoot) : Except GcError Nat := do
  rejectIf (edgeCount + 1 > maxGcDependencyEdges) (.gc .resourceLimit)
  rejectIf (dependency ∉ roots) (.gc .dependencyMissing)
  return edgeCount + 1

section

variable [Blake3] [ConformanceRegistry]

/-- Import a root of the catalogue once more. -/
def validateRoot (registry : StateRootRegistry)
    (roots : RootMap) (candidate : AcceptedStateRoot) :
    Except GcError RootMap := do
  let imported ← (importStateRoot registry candidate.storedBytes).mapError fun error ↦
    .upstream (.stateRoot error)
  rejectIf (imported.root ≠ candidate.root ∨ imported.record ≠ candidate.record)
    (.gc .rootInvalid)
  rejectIf (imported.root ∈ roots) (.gc .rootInvalid)
  return roots.insert imported.root imported

def validateRoots (snapshot : RetentionSnapshot) :
    Except GcError RootMap := do
  let registry ← ConformanceRegistry.registry.mapError fun error ↦ .upstream (.schema error)
  let roots ← snapshot.roots.foldlM (validateRoot registry) ∅
  let _ ← (roots.toList.flatMap fun (_, root) ↦ root.record.dependencyRoots).foldlM
    (countDependency roots) 0
  return roots

end

/-! ### Reachability -/

/-- The queues of roots and objects that the anchors' targets fill. -/
abbrev Queues := List StateRoot × List ObjectId

def seedTarget (roots : RootMap)
    (inventoryIds : Std.ExtTreeSet ObjectId) (queues : Queues) :
    RetentionTarget → Except GcError Queues
  | .stateRoot root =>
    if root ∈ roots then .ok (queues.1 ++ [root], queues.2) else .error (.gc .rootMissing)
  | .object object =>
    if object ∈ inventoryIds then .ok (queues.1, queues.2 ++ [object])
    else .error (.gc .anchorUnresolved)

def seedAnchorTargets (snapshot : RetentionSnapshot)
    (roots : RootMap) (inventoryIds : Std.ExtTreeSet ObjectId) :
    Except GcError (List RetentionAnchorKey × Queues) := do
  let queues ← (snapshot.anchors.flatMap targets).foldlM
    (seedTarget roots inventoryIds) ([], [])
  return (snapshot.anchors.map key, queues)

/-- What a retained root keeps alive. -/
def rootObjects (root : AcceptedStateRoot) : List ObjectId :=
  root.record.contractRoot :: root.record.testRoot :: root.record.entityBindings.map Prod.snd

/-- Roots along their dependency roots; the state counts the edges and queues the objects. -/
def rootGraph (roots : RootMap) :
    VisitGraph StateRoot (Nat × List ObjectId) GcError where
  nodes := .ofList roots.keys
  missing := .gc .dependencyMissing
  visit rootId state := do
    let root ← ofOption (.gc .dependencyMissing) roots[rootId]?
    let edgeCount ← root.record.dependencyRoots.foldlM (countDependency roots) state.1
    return (root.record.dependencyRoots, edgeCount, state.2 ++ rootObjects root)

def traverseRoots (queue : List StateRoot) (objectQueue : List ObjectId)
    (roots : RootMap) :
    Except GcError (Std.ExtTreeSet StateRoot × List ObjectId) := do
  let (retained, _, objectQueue) ← (rootGraph roots).explore ∅ queue (0, objectQueue)
  return (retained, objectQueue)

def maxGcObjectReferenceEdges : Nat := 1000000

section

variable [Blake3]

/-- Objects along their references; the state counts the edges. -/
def objectGraph (store : ObjectStore) (verifier : GcObjectVerifier)
    (inventoryIds : Std.ExtTreeSet ObjectId) : VisitGraph ObjectId Nat GcError where
  nodes := inventoryIds
  missing := .gc .objectMissing
  visit objectId edgeCount := do
    let record ← (store.read objectId verifier).mapError mapStoreError
    let references ← (verifier.references record).mapError fun _ ↦
      .gc .objectReferenceMalformed
    let references :=
      (references.mergeSort fun a b ↦ (compare a b).isLE).destutter fun a b ↦ a ≠ b
    rejectIf (edgeCount + references.length > maxGcObjectReferenceEdges)
      (.gc .resourceLimit)
    rejectIf (∃ reference ∈ references, reference ∉ inventoryIds) (.gc .objectMissing)
    return (references, edgeCount + references.length)

def traverseObjects (store : ObjectStore) (verifier : GcObjectVerifier)
    (inventoryIds : Std.ExtTreeSet ObjectId) (queue : List ObjectId) :
    Except GcError (Std.ExtTreeSet ObjectId) := do
  let (reachable, _) ← (objectGraph store verifier inventoryIds).explore ∅ queue 0
  return reachable

structure Reachability where
  examinedAnchors : List RetentionAnchorKey
  retainedRoots : Std.ExtTreeSet StateRoot
  reachableObjects : Std.ExtTreeSet ObjectId

def resolveReachability (store : ObjectStore) (snapshot : RetentionSnapshot)
    (verifier : GcObjectVerifier) (roots : RootMap)
    (inventoryIds : Std.ExtTreeSet ObjectId) : Except GcError Reachability := do
  let (examinedAnchors, rootQueue, objectQueue) ← seedAnchorTargets snapshot roots inventoryIds
  let (retainedRoots, objectQueue) ← traverseRoots rootQueue objectQueue roots
  let reachableObjects ← traverseObjects store verifier inventoryIds objectQueue
  return { examinedAnchors, retainedRoots, reachableObjects }

end

/-! ### The plan -/

def maxGcReportEntries : Nat := 786432

def maxGcAllocation : Nat := 134217728

def checkAllocation (reportEntries : Nat) (store : ObjectStore) (entries : List InventoryEntry) :
    Except GcError Unit :=
  rejectIf
    (reportEntries * 128 + entries.length * store.objectPathLength > maxGcAllocation)
    (.gc .resourceLimit)

section

variable [Blake3] [ConformanceRegistry]

def planGc (store : ObjectStore) (snapshot : RetentionSnapshot) (verifier : GcObjectVerifier) :
    Except GcError GcReport := do
  let entries ← inventory store
  let inventoryIds := inventoryIds entries
  let inventoryBytes ← totalBytes entries
  let roots ← validateRoots snapshot
  let reachability ← resolveReachability store snapshot verifier roots inventoryIds
  entries.forM fun entry ↦ do
    if entry.objectId ∉ reachability.reachableObjects then
      let _ ← (store.read entry.objectId verifier).mapError mapStoreError
  let deletionCandidates := inventoryIds.toList.filter (· ∉ reachability.reachableObjects)
  let candidateBytes ← totalBytes (entries.filter (·.objectId ∈ deletionCandidates))
  let reportEntries := reachability.examinedAnchors.length + reachability.retainedRoots.size +
    reachability.reachableObjects.size + entries.length + deletionCandidates.length
  rejectIf (reportEntries > maxGcReportEntries) (.gc .resourceLimit)
  checkAllocation reportEntries store entries
  return {
    examinedAnchors := reachability.examinedAnchors
    retainedRoots := reachability.retainedRoots.toList
    reachableObjects := reachability.reachableObjects.toList
    inventoryObjects := inventoryIds.toList
    deletionCandidates
    inventoryBytes
    candidateBytes
    decision := .dryRun
    deletedObjects := []
    failedObject := none }

/-! ### Collection -/

/-- `SLEYGC01`. -/
def gcLockBytes : Bytes := textBytes "SLEYGC01"

/-- What a guard holds: whether it is active, whether its store and its exclusive maintenance lock
are those of the store at hand, and the bytes of its witness file, where there is one. -/
structure ExclusiveGcGuard where
  active : Bool
  coversStore : Bool
  lockBytes : Option Bytes

def requireGuard (guard : ExclusiveGcGuard) : Except GcError Unit := do
  rejectIf (¬ guard.active) (.gc .exclusiveLockRequired)
  rejectIf (¬ guard.coversStore) (.gc .exclusiveLockRequired)
  rejectIf (guard.lockBytes ≠ some gcLockBytes) (.gc .exclusiveLockRequired)

/-- Which operations of a run the host fails: with what it fails to read a candidate again, and
whether a candidate is no regular file by then. -/
structure GcHost where
  failsLeafSync : Bool
  readFault : ObjectId → Option StoreErrorCode
  failsStat : ObjectId → Bool
  notFile : ObjectId → Bool
  failsRemove : ObjectId → Bool
  failsSync : ObjectId → Bool

abbrev Collection := Operation ObjectStore GcError

/-- Reads a candidate once more, right before it is deleted. -/
def reread (host : GcHost) (verifier : GcObjectVerifier) (objectId : ObjectId)
    (store : ObjectStore) : Except StoreErrorCode Bytes :=
  match host.readFault objectId with
  | some code => .error code
  | none => store.read objectId verifier

def removeFile (objectId : ObjectId) : Collection Unit :=
  .modify fun store ↦ { store with objects := store.objects.erase objectId }

/-- The error of a run that the host stops at an object, with the report of what was done. -/
def partialDelete (report : GcReport) (objectId : ObjectId) : GcError :=
  .ofPartial { report with decision := .partialDeleteFailure, failedObject := some objectId }

/-- The loop over the candidates. -/
def deleteCandidates (host : GcHost) (verifier : GcObjectVerifier) :
    List ObjectId → GcReport → Collection GcReport
  | [], report => pure { report with decision := .collected }
  | objectId :: candidates, report => do
    .ofExcept (rejectIf (objectId ∈ report.reachableObjects) (.gc .reachabilityViolation))
    let _ ← .ofState fun store ↦ (reread host verifier objectId store).mapError mapStoreError
    .ofExcept (rejectIf (host.failsStat objectId) (.gc .deleteIo))
    .ofExcept (rejectIf (host.notFile objectId) (.gc .inventoryInvalid))
    .ofExcept (rejectIf (host.failsRemove objectId) (partialDelete report objectId))
    removeFile objectId
    .ofExcept (rejectIf (host.failsSync objectId) (partialDelete report objectId))
    deleteCandidates host verifier candidates
      { report with deletedObjects := report.deletedObjects ++ [objectId] }

/-- Deletes the plan's candidates in order, after a look at the whole plan. -/
def deletePlannedCandidates (host : GcHost) (verifier : GcObjectVerifier) (report : GcReport) :
    Collection GcReport := do
  .ofExcept (rejectIf (∃ objectId ∈ report.deletionCandidates,
    objectId ∈ report.reachableObjects) (.gc .reachabilityViolation))
  deleteCandidates host verifier report.deletionCandidates report

/-- Replans under the exact exclusive guard and deletes only verified candidates. -/
def gcCollect (host : GcHost) (guard : ExclusiveGcGuard) (snapshot : RetentionSnapshot)
    (verifier : GcObjectVerifier) : Collection GcReport := do
  .ofExcept (requireGuard guard)
  let report ← .ofState fun store ↦ planGc store snapshot verifier
  .ofExcept (rejectIf host.failsLeafSync (.gc .deleteIo))
  deletePlannedCandidates host verifier report

end

/-! ### What is live -/

namespace RetentionSnapshot

variable (snapshot : RetentionSnapshot)

/-- The roots that anchors name. -/
def rootTargets : Set StateRoot :=
  {root | ∃ anchor ∈ snapshot.anchors, .stateRoot root ∈ anchor.targets}

/-- The objects that anchors name. -/
def objectTargets : Set ObjectId :=
  {objectId | ∃ anchor ∈ snapshot.anchors, .object objectId ∈ anchor.targets}

/-- The dependency roots of a root of the catalogue. -/
def dependencies (root : StateRoot) : Set StateRoot :=
  {dependency | ∃ accepted ∈ snapshot.roots, accepted.root = root ∧
    dependency ∈ accepted.record.dependencyRoots}

/-- The roots that anchors reach. -/
def retainedRoots : Set StateRoot := reachable snapshot.dependencies snapshot.rootTargets

/-- The objects that anchors name or that a retained root holds. -/
def liveSeeds : Set ObjectId :=
  snapshot.objectTargets ∪ {objectId | ∃ accepted ∈ snapshot.roots,
    accepted.root ∈ snapshot.retainedRoots ∧ objectId ∈ rootObjects accepted}

end RetentionSnapshot

/-- What the object under an identity refers to. -/
def ObjectStore.references (store : ObjectStore) (verifier : GcObjectVerifier)
    (objectId : ObjectId) : Set ObjectId :=
  {reference | ∃ record references, store.objects[objectId]? = some record ∧
    verifier.references record = .ok references ∧ reference ∈ references}

/-! ### Marking the roots -/

/-- What a target queues among the roots. -/
def RetentionTarget.roots : RetentionTarget → List StateRoot
  | .stateRoot root => [root]
  | .object _ => []

/-- What a target queues among the objects. -/
def RetentionTarget.objects : RetentionTarget → List ObjectId
  | .stateRoot _ => []
  | .object objectId => [objectId]

/-- A target is resolved when its root is in the catalogue, its object in the inventory. -/
def RetentionTarget.Resolved (roots : RootMap) (inventoryIds : Std.ExtTreeSet ObjectId) :
    RetentionTarget → Prop
  | .stateRoot root => root ∈ roots
  | .object objectId => objectId ∈ inventoryIds

/-- The roots that the anchors' targets queue. -/
def RetentionSnapshot.rootQueue (snapshot : RetentionSnapshot) : List StateRoot :=
  (snapshot.anchors.flatMap targets).flatMap RetentionTarget.roots

/-- The objects that the anchors' targets queue. -/
def RetentionSnapshot.objectQueue (snapshot : RetentionSnapshot) : List ObjectId :=
  (snapshot.anchors.flatMap targets).flatMap RetentionTarget.objects

section

variable {roots : RootMap} {inventoryIds : Std.ExtTreeSet ObjectId}
  {snapshot : RetentionSnapshot} {root : StateRoot} {accepted : AcceptedStateRoot}

theorem seedTarget_eq_ok {target : RetentionTarget} {queues queues' : Queues} :
    seedTarget roots inventoryIds queues target = .ok queues' ↔ target.Resolved roots inventoryIds ∧
        queues' = (queues.1 ++ target.roots, queues.2 ++ target.objects) := by
  rcases target with root | objectId
  · by_cases hroot : root ∈ roots
    · simp [seedTarget, hroot, RetentionTarget.Resolved, RetentionTarget.roots,
        RetentionTarget.objects, eq_comm]
    · simp [seedTarget, hroot, RetentionTarget.Resolved]
  · by_cases hobject : objectId ∈ inventoryIds
    · simp [seedTarget, hobject, RetentionTarget.Resolved, RetentionTarget.roots,
        RetentionTarget.objects, eq_comm]
    · simp [seedTarget, hobject, RetentionTarget.Resolved]

theorem foldlM_seedTarget_eq_ok {targets : List RetentionTarget} {queues queues' : Queues} :
    targets.foldlM (seedTarget roots inventoryIds) queues = .ok queues' ↔
      (∀ target ∈ targets, target.Resolved roots inventoryIds) ∧
        queues' = (queues.1 ++ targets.flatMap RetentionTarget.roots,
          queues.2 ++ targets.flatMap RetentionTarget.objects) := by
  induction targets generalizing queues with
  | nil =>
    rw [List.foldlM_nil, pure_eq_ok]
    simp
  | cons target targets ih =>
    simp only [foldlM_cons, bind_eq_ok, seedTarget_eq_ok, ih, List.forall_mem_cons,
      List.flatMap_cons, ← List.append_assoc]
    constructor
    · rintro ⟨_, ⟨hfirst, rfl⟩, hrest, rfl⟩
      exact ⟨⟨hfirst, hrest⟩, rfl⟩
    · rintro ⟨⟨hfirst, hrest⟩, rfl⟩
      exact ⟨_, ⟨hfirst, rfl⟩, hrest, rfl⟩

theorem seedAnchorTargets_eq_ok {examined : List RetentionAnchorKey} {queues : Queues} :
    seedAnchorTargets snapshot roots inventoryIds = .ok (examined, queues) ↔
      (∀ anchor ∈ snapshot.anchors, ∀ target ∈ anchor.targets, target.Resolved roots inventoryIds) ∧
        examined = snapshot.anchors.map key ∧
          queues = (snapshot.rootQueue, snapshot.objectQueue) := by
  simp only [seedAnchorTargets, bind_eq_ok, foldlM_seedTarget_eq_ok, pure_eq_ok,
    Prod.mk.injEq, nil_append, mem_flatMap, forall_exists_index, and_imp]
  constructor
  · rintro ⟨_, ⟨hresolved, rfl⟩, rfl, rfl⟩
    exact ⟨fun anchor hanchor target htarget ↦ hresolved target anchor hanchor htarget, rfl, rfl⟩
  · rintro ⟨hresolved, rfl, rfl⟩
    exact ⟨_, ⟨fun target anchor hanchor htarget ↦ hresolved anchor hanchor target htarget, rfl⟩,
      rfl, rfl⟩

theorem mem_rootQueue_iff : root ∈ snapshot.rootQueue ↔ root ∈ snapshot.rootTargets := by
  rw [RetentionSnapshot.rootQueue, mem_flatMap]
  constructor
  · rintro ⟨target | _, htarget, hmem⟩
    · obtain rfl := mem_singleton.1 hmem
      exact mem_flatMap.1 htarget
    · cases hmem
  · intro hroot
    exact ⟨_, mem_flatMap.2 hroot, mem_singleton.2 rfl⟩

theorem mem_objectQueue_iff {objectId : ObjectId} :
    objectId ∈ snapshot.objectQueue ↔ objectId ∈ snapshot.objectTargets := by
  rw [RetentionSnapshot.objectQueue, mem_flatMap]
  constructor
  · rintro ⟨_ | target, htarget, hmem⟩
    · cases hmem
    · obtain rfl := mem_singleton.1 hmem
      exact mem_flatMap.1 htarget
  · intro hobject
    exact ⟨_, mem_flatMap.2 hobject, mem_singleton.2 rfl⟩

theorem rootGraph_visit_eq_ok {state state' : Nat × List ObjectId} {found : List StateRoot}
    (h : (rootGraph roots).visit root state = .ok (found, state')) :
    ∃ accepted, roots[root]? = some accepted ∧ found = accepted.record.dependencyRoots ∧
      state'.2 = state.2 ++ rootObjects accepted := by
  simp only [rootGraph, bind_eq_ok, ofOption_eq_ok, pure_eq_ok, Prod.mk.injEq] at h
  obtain ⟨accepted, hroot, _, -, rfl, rfl⟩ := h
  exact ⟨accepted, hroot, rfl, rfl⟩

variable [Blake3] {registry : StateRootRegistry}

/-- A root that is imported once more is the root of the catalogue. -/
theorem validateRoot_eq_ok {candidate : AcceptedStateRoot} {before : RootMap}
    (h : validateRoot registry before candidate = .ok roots) :
    candidate.root ∉ before ∧ roots = before.insert candidate.root candidate := by
  simp only [validateRoot, bind_eq_ok, mapError_eq_ok, rejectIf_eq_ok,
    exists_const, not_or, not_not, pure_eq_ok] at h
  obtain ⟨⟨_, _, _⟩, himport, ⟨rfl, rfl⟩, hfresh, rfl⟩ := h
  obtain ⟨rfl, -⟩ := importStateRoot_eq_ok.1 himport
  exact ⟨hfresh, rfl⟩

theorem foldlM_validateRoot_lookup {candidates : List AcceptedStateRoot} {before : RootMap}
    (h : candidates.foldlM (validateRoot registry) before = .ok roots) :
    roots[root]? = some accepted ↔
      before[root]? = some accepted ∨ accepted ∈ candidates ∧ accepted.root = root := by
  induction candidates generalizing before with
  | nil =>
    obtain rfl := Except.pure_eq_ok.1 h
    simp
  | cons candidate candidates ih =>
    rw [foldlM_cons, bind_eq_ok] at h
    obtain ⟨_, hfirst, hrest⟩ := h
    obtain ⟨hfresh, rfl⟩ := validateRoot_eq_ok hfirst
    rw [ih hrest, OrderedMap.getElem?_insert, List.mem_cons, or_and_right, ← or_assoc]
    refine or_congr_left ?_
    split
    · rename_i heq
      subst heq
      rw [OrderedMap.not_mem_iff.1 hfresh, Option.some.injEq, eq_comm]
      simp only [reduceCtorEq, false_or, iff_self_and]
      rintro rfl
      rfl
    · rename_i hne
      refine (or_iff_left ?_).symm
      rintro ⟨rfl, rfl⟩
      exact hne rfl

/-- **The catalogue is validated to itself.** -/
theorem validateRoots_lookup [ConformanceRegistry] (h : validateRoots snapshot = .ok roots) :
    roots[root]? = some accepted ↔ accepted ∈ snapshot.roots ∧ accepted.root = root := by
  simp only [validateRoots, bind_eq_ok, mapError_eq_ok, pure_eq_ok] at h
  obtain ⟨registry, -, _, hfold, _, -, rfl⟩ := h
  rw [foldlM_validateRoot_lookup hfold]
  simp

/-- **Marking finds the retained roots, and queues what they hold.** -/
theorem traverseRoots_spec [ConformanceRegistry] (hroots : validateRoots snapshot = .ok roots)
    {queue : List ObjectId} {retained : Std.ExtTreeSet StateRoot}
    (h : traverseRoots snapshot.rootQueue snapshot.objectQueue roots = .ok (retained, queue)) :
    {objectId | objectId ∈ queue} = snapshot.liveSeeds := by
  simp only [traverseRoots, bind_eq_ok, pure_eq_ok, Prod.exists, Prod.mk.injEq] at h
  obtain ⟨_, _, _, hrun, rfl, rfl⟩ := h
  have hretained : {root | root ∈ retained} = snapshot.retainedRoots := by
    have hseeds : {root | root ∈ snapshot.rootQueue} = snapshot.rootTargets :=
      Set.ext fun _ ↦ mem_rootQueue_iff
    rw [RetentionSnapshot.retainedRoots, ← hseeds]
    refine VisitGraph.explore_eq_reachable (fun root state found state' hvisit dependency ↦ ?_) hrun
    obtain ⟨accepted, hroot, rfl, -⟩ := rootGraph_visit_eq_ok hvisit
    constructor
    · intro hdependency
      exact ⟨accepted, ((validateRoots_lookup hroots).1 hroot).1,
        ((validateRoots_lookup hroots).1 hroot).2, hdependency⟩
    · rintro ⟨other, hother, heq, hdependency⟩
      rw [(validateRoots_lookup hroots).2 ⟨hother, heq⟩] at hroot
      obtain rfl := Option.some.inj hroot
      exact hdependency
  ext objectId
  -- the queue of objects keeps up with the roots that were seen
  have hobjects := VisitGraph.explore_rule
    (P := fun seen _ state ↦ objectId ∈ state.2 ↔ objectId ∈ snapshot.objectQueue ∨
      ∃ root ∈ seen, ∃ accepted, roots[root]? = some accepted ∧ objectId ∈ rootObjects accepted)
    (fun _ _ _ _ _ hP ↦ hP) ?_ hrun ?_
  · rw [Set.mem_ofPred_eq, hobjects, mem_objectQueue_iff]
    refine or_congr_right ⟨?_, ?_⟩
    · rintro ⟨root, hroot, accepted, hlookup, hobject⟩
      obtain ⟨hmem, rfl⟩ := (validateRoots_lookup hroots).1 hlookup
      exact ⟨accepted, hmem, hretained ▸ hroot, hobject⟩
    · rintro ⟨accepted, hmem, hroot, hobject⟩
      rw [← hretained] at hroot
      exact ⟨accepted.root, hroot, accepted, (validateRoots_lookup hroots).2 ⟨hmem, rfl⟩, hobject⟩
  · intro seen queue state root found state' _ _ hvisit hP
    obtain ⟨accepted, hroot, -, hstate⟩ := rootGraph_visit_eq_ok hvisit
    rw [hstate, List.mem_append, hP, or_assoc]
    refine or_congr_right ⟨?_, ?_⟩
    · rintro (⟨other, hother, hholds⟩ | hobject)
      · exact ⟨other, OrderedSet.mem_insert.2 (.inr hother), hholds⟩
      · exact ⟨root, OrderedSet.mem_insert.2 (.inl rfl), accepted, hroot, hobject⟩
    · rintro ⟨other, hother, accepted', hlookup, hobject⟩
      obtain rfl | hother := OrderedSet.mem_insert.1 hother
      · rw [hroot] at hlookup
        obtain rfl := Option.some.inj hlookup
        exact .inr hobject
      · exact .inl ⟨other, hother, accepted', hlookup, hobject⟩
  · simp

end

/-! ### Marking the objects -/

section

variable [Blake3] {store store' : ObjectStore} {verifier : GcObjectVerifier}
  {inventoryIds inventoryIds' : Std.ExtTreeSet ObjectId} {objectId : ObjectId}

theorem ObjectStore.lookup_of_read {record : Bytes}
    (h : store.read objectId verifier = .ok record) : store.objects[objectId]? = some record := by
  simp only [ObjectStore.read, bind_eq_ok, ofOption_eq_ok, pure_eq_ok] at h
  obtain ⟨_, hlookup, _, -, _, -, rfl⟩ := h
  exact hlookup

theorem ObjectStore.read_congr (h : store'.objects[objectId]? = store.objects[objectId]?) :
    store'.read objectId verifier = store.read objectId verifier := by
  rw [ObjectStore.read, h, ObjectStore.read]

theorem objectGraph_visit_eq_ok {n m : Nat} {found : List ObjectId} :
    (objectGraph store verifier inventoryIds).visit objectId n = .ok (found, m) ↔
      ∃ record references, store.read objectId verifier = .ok record ∧
        verifier.references record = .ok references ∧
        found = (references.mergeSort fun a b ↦ (compare a b).isLE).destutter (· ≠ ·) ∧
        n + found.length ≤ maxGcObjectReferenceEdges ∧
        (∀ reference ∈ found, reference ∈ inventoryIds) ∧ m = n + found.length := by
  simp only [objectGraph, bind_eq_ok, mapError_eq_ok, rejectIf_eq_ok, exists_const, pure_eq_ok,
    Prod.mk.injEq, not_exists, not_and, not_not, gt_iff_lt, Nat.not_lt]
  constructor
  · rintro ⟨record, hread, references, hreferences, hle, hmem, rfl, rfl⟩
    exact ⟨record, references, hread, hreferences, rfl, hle, hmem, rfl⟩
  · rintro ⟨record, references, hread, hreferences, rfl, hle, hmem, rfl⟩
    exact ⟨record, hread, references, hreferences, hle, hmem, rfl, rfl⟩

theorem mem_found_iff {n m : Nat} {found : List ObjectId}
    (h : (objectGraph store verifier inventoryIds).visit objectId n = .ok (found, m))
    (reference : ObjectId) : reference ∈ found ↔ reference ∈ store.references verifier objectId := by
  obtain ⟨record, references, hread, hreferences, rfl, -⟩ := objectGraph_visit_eq_ok.1 h
  have hlookup := ObjectStore.lookup_of_read hread
  rw [mem_destutter_ne_iff, List.mem_mergeSort]
  constructor
  · intro hmem
    exact ⟨record, references, hlookup, hreferences, hmem⟩
  · rintro ⟨record', references', hlookup', hreferences', hmem⟩
    obtain rfl := Option.some.inj (hlookup.symm.trans hlookup')
    obtain rfl := Except.ok.inj (hreferences.symm.trans hreferences')
    exact hmem

variable {queue : List ObjectId} {found : Std.ExtTreeSet ObjectId}

theorem traverseObjects_eq_ok : traverseObjects store verifier inventoryIds queue = .ok found ↔
      ∃ n, (objectGraph store verifier inventoryIds).explore ∅ queue 0 = .ok (found, n) := by
  simp only [traverseObjects, bind_eq_ok, pure_eq_ok, Prod.exists]
  constructor
  · rintro ⟨_, n, hrun, rfl⟩
    exact ⟨n, hrun⟩
  · rintro ⟨n, hrun⟩
    exact ⟨_, n, hrun, rfl⟩

section

variable (h : traverseObjects store verifier inventoryIds queue = .ok found)

include h

theorem traverseObjects_eq_reachable :
    {o | o ∈ found} = reachable (store.references verifier) {o | o ∈ queue} := by
  obtain ⟨_, hrun⟩ := traverseObjects_eq_ok.1 h
  exact VisitGraph.explore_eq_reachable (fun _ _ _ _ hvisit ↦ mem_found_iff hvisit) hrun

theorem mem_inventory_of_traverseObjects (hmem : objectId ∈ found) : objectId ∈ inventoryIds := by
  obtain ⟨_, hrun⟩ := traverseObjects_eq_ok.1 h
  exact VisitGraph.mem_nodes_of_explore hrun hmem

/-- Marking does not look at what it does not mark. -/
theorem traverseObjects_congr (hids : ∀ o ∈ found, o ∈ inventoryIds')
    (hobjects : ∀ o ∈ found, store'.objects[o]? = store.objects[o]?) :
    traverseObjects store' verifier inventoryIds' queue = .ok found := by
  have hclosed : IsClosedUnder (store.references verifier) {o | o ∈ queue} {o | o ∈ found} := by
    rw [traverseObjects_eq_reachable h]
    exact isLeast_reachable.1
  obtain ⟨n, hrun⟩ := traverseObjects_eq_ok.1 h
  refine traverseObjects_eq_ok.2 ⟨n, VisitGraph.explore_congr hrun hids fun o ho n r hvisit ↦ ?_⟩
  have hmem := mem_found_iff hvisit
  obtain ⟨record, references, hread, hreferences, hfound, hle, -, hcount⟩ :=
    objectGraph_visit_eq_ok.1 hvisit
  refine objectGraph_visit_eq_ok.2 ⟨record, references, ?_, hreferences, hfound, hle, ?_, hcount⟩
  · rw [ObjectStore.read_congr (hobjects o ho), hread]
  · exact fun reference hreference ↦
      hids _ (hclosed.next_subset o ho ((hmem reference).1 hreference))

end

/-- A loop that comes to its end has deleted every candidate. -/
theorem deleteCandidates_eq_ok {host : GcHost} {candidates : List ObjectId}
    {report report' : GcReport} {store store' : ObjectStore}
    (h : deleteCandidates host verifier candidates report store = (.ok report', store')) :
    report'.deletedObjects = report.deletedObjects ++ candidates ∧
      store'.rootLength = store.rootLength ∧
        ∀ o, store'.objects[o]? = if o ∈ candidates then none else store.objects[o]? := by
  induction candidates generalizing report store with
  | nil =>
    rw [deleteCandidates, Operation.pure_eq_ok] at h
    obtain ⟨rfl, rfl⟩ := h
    simp
  | cons candidate candidates ih =>
    simp only [deleteCandidates, removeFile, Operation.bind_eq_ok, Operation.ofExcept_eq_ok,
      Operation.ofState_eq_ok, Operation.modify_eq_ok] at h
    obtain ⟨_, _, ⟨-, rfl⟩, _, _, ⟨-, rfl⟩, _, _, ⟨-, rfl⟩, _, _, ⟨-, rfl⟩, _, _, ⟨-, rfl⟩, _, _,
      rfl, _, _, ⟨-, rfl⟩, hrest⟩ := h
    obtain ⟨hdeleted, hlength, hobjects⟩ := ih hrest
    refine ⟨by rw [hdeleted, List.append_assoc, List.singleton_append], hlength, fun o ↦ ?_⟩
    rw [hobjects, OrderedMap.getElem?_erase]
    by_cases ho : o = candidate
    · simp [ho]
    · simp [ho]

end

/-! ### The inventory and its sums -/

section

variable {store : ObjectStore} {entries : List InventoryEntry}

theorem inventory_eq_ok :
    inventory store = .ok entries ↔ store.objects.size ≤ maxGcInventoryObjects ∧
      entries = store.objects.toList.map fun (objectId, record) ↦ ⟨objectId, record.length⟩ := by
  simp only [inventory, bind_eq_ok, rejectIf_eq_ok, exists_const, gt_iff_lt, Nat.not_lt, pure_eq_ok]

variable {objectId : ObjectId}

theorem mem_inventoryIds_iff (h : inventory store = .ok entries) :
    objectId ∈ inventoryIds entries ↔ objectId ∈ store.objects := by
  obtain ⟨-, rfl⟩ := inventory_eq_ok.1 h
  rw [inventoryIds, mem_ofList, List.contains_iff_mem, List.map_map, List.mem_map]
  constructor
  · rintro ⟨⟨_, record⟩, hmem, rfl⟩
    exact mem_iff_exists.2
      ⟨record, Std.ExtTreeMap.mem_toList_iff_getElem?_eq_some.1 hmem⟩
  · intro hmem
    obtain ⟨record, hlookup⟩ := mem_iff_exists.1 hmem
    exact ⟨_, Std.ExtTreeMap.mem_toList_iff_getElem?_eq_some.2 hlookup, rfl⟩

theorem foldlM_addBytes_eq_ok {total n : Nat} (htotal : total < 2 ^ 64) :
    entries.foldlM addBytes total = .ok n ↔ n = total + (entries.map InventoryEntry.bytes).sum ∧
        total + (entries.map InventoryEntry.bytes).sum < 2 ^ 64 := by
  induction entries generalizing total with
  | nil =>
    rw [List.foldlM_nil, pure_eq_ok]
    exact ⟨fun h ↦ ⟨h, htotal⟩, And.left⟩
  | cons entry entries ih =>
    simp only [foldlM_cons, addBytes, bind_eq_ok, rejectIf_eq_ok, exists_const,
      ge_iff_le, Nat.not_le, pure_eq_ok, List.map_cons, List.sum_cons, ← Nat.add_assoc]
    constructor
    · rintro ⟨_, ⟨hlt, rfl⟩, hrest⟩
      exact (ih hlt).1 hrest
    · rintro ⟨hn, hsum⟩
      have hlt : total + entry.bytes < 2 ^ 64 := by omega
      exact ⟨_, ⟨hlt, rfl⟩, (ih hlt).2 ⟨hn, hsum⟩⟩

theorem totalBytes_eq_ok {n : Nat} : totalBytes entries = .ok n ↔
      n = (entries.map InventoryEntry.bytes).sum ∧
        (entries.map InventoryEntry.bytes).sum < 2 ^ 64 := by
  rw [totalBytes, foldlM_addBytes_eq_ok (by decide), Nat.zero_add]

/-- The store that is left of the objects to keep. -/
def ObjectStore.restrict (store : ObjectStore) (kept : List ObjectId) : ObjectStore :=
  { store with objects := store.objects.filter fun objectId _ ↦ objectId ∈ kept }

variable {kept : List ObjectId}

theorem ObjectStore.lookup_restrict : (store.restrict kept).objects[objectId]? =
      if objectId ∈ kept then store.objects[objectId]? else none := by
  rw [ObjectStore.restrict, Std.ExtTreeMap.getElem?_filter']
  cases store.objects[objectId]? with
  | none => simp
  | some record =>
    by_cases hmem : objectId ∈ kept
    · simp [hmem]
    · simp [hmem]

theorem inventory_restrict (h : inventory store = .ok entries) :
    inventory (store.restrict kept) = .ok (entries.filter (·.objectId ∈ kept)) := by
  obtain ⟨hsize, rfl⟩ := inventory_eq_ok.1 h
  refine inventory_eq_ok.2 ⟨Std.ExtTreeMap.size_filter_le_size.trans hsize, ?_⟩
  rw [ObjectStore.restrict, Std.ExtTreeMap.toList_filter, List.filter_map]
  rfl

theorem mem_inventoryIds_restrict (h : inventory store = .ok entries) :
    objectId ∈ inventoryIds (entries.filter (·.objectId ∈ kept)) ↔
      objectId ∈ kept ∧ objectId ∈ store.objects := by
  rw [mem_inventoryIds_iff (inventory_restrict h), mem_iff_exists,
    mem_iff_exists, ObjectStore.lookup_restrict]
  by_cases hmem : objectId ∈ kept
  · simp [hmem]
  · simp [hmem]

theorem totalBytes_filter {n : Nat} {p : InventoryEntry → Bool} (h : totalBytes entries = .ok n) :
    ∃ m, totalBytes (entries.filter p) = .ok m := by
  have hle : ((entries.filter p).map InventoryEntry.bytes).sum ≤
      (entries.map InventoryEntry.bytes).sum :=
    (List.filter_sublist.map _).sum_le_sum fun _ _ ↦ Nat.zero_le _
  exact ⟨_, totalBytes_eq_ok.2 ⟨rfl, hle.trans_lt (totalBytes_eq_ok.1 h).2⟩⟩

end

/-! ### The plan is exact -/

section

variable [Blake3] [ConformanceRegistry] {store : ObjectStore} {snapshot : RetentionSnapshot}
  {verifier : GcObjectVerifier} {report : GcReport}

variable {reachability : Reachability}

omit [ConformanceRegistry] in
theorem resolveReachability_eq_ok {roots : RootMap} {inventoryIds : Std.ExtTreeSet ObjectId} :
    resolveReachability store snapshot verifier roots inventoryIds = .ok reachability ↔
      (∀ anchor ∈ snapshot.anchors, ∀ target ∈ anchor.targets, target.Resolved roots inventoryIds) ∧
        reachability.examinedAnchors = snapshot.anchors.map key ∧
          ∃ queue, traverseRoots snapshot.rootQueue snapshot.objectQueue roots =
              .ok (reachability.retainedRoots, queue) ∧
            traverseObjects store verifier inventoryIds queue =
              .ok reachability.reachableObjects := by
  simp only [resolveReachability, bind_eq_ok, pure_eq_ok, Prod.exists,
    seedAnchorTargets_eq_ok, Prod.mk.injEq]
  constructor
  · rintro ⟨_, _, _, ⟨hresolved, rfl, rfl, rfl⟩, retained, queue, hroots, found, hobjects, rfl⟩
    exact ⟨hresolved, rfl, queue, hroots, hobjects⟩
  · rintro ⟨hresolved, hexamined, queue, hroots, hobjects⟩
    obtain ⟨_, _, _⟩ := reachability
    exact ⟨_, _, _, ⟨hresolved, hexamined, rfl, rfl⟩, _, queue, hroots, _, hobjects, rfl⟩

/-- What a plan that succeeds has found. -/
theorem planGc_marks (h : planGc store snapshot verifier = .ok report) :
    {o | o ∈ report.reachableObjects} = reachable (store.references verifier) snapshot.liveSeeds ∧
      (∀ o ∈ report.reachableObjects, o ∈ store.objects) ∧
        (∀ o, o ∈ report.inventoryObjects ↔ o ∈ store.objects) ∧ report.deletionCandidates =
              report.inventoryObjects.filter (· ∉ report.reachableObjects) ∧
            report.deletedObjects = [] := by
  simp only [planGc, bind_eq_ok, rejectIf_eq_ok, pure_eq_ok] at h
  obtain ⟨entries, hentries, _, -, roots, hroots, reachability, hreach, _, -, _, -, _, -, _, -,
    rfl⟩ := h
  obtain ⟨-, -, queue, hqueue, hobjects⟩ := resolveReachability_eq_ok.1 hreach
  simp only [mem_toList]
  refine ⟨?_, fun o ho ↦ ?_, fun o ↦ mem_inventoryIds_iff hentries, trivial, trivial⟩
  · rw [traverseObjects_eq_reachable hobjects, traverseRoots_spec hroots hqueue]
  · exact (mem_inventoryIds_iff hentries).1 (mem_inventory_of_traverseObjects hobjects ho)

/-- The same roots and objects are reached in what a plan leaves. -/
theorem resolveReachability_restrict {roots : RootMap} {entries : List InventoryEntry}
    {kept : List ObjectId} (hentries : inventory store = .ok entries)
    (hroots : validateRoots snapshot = .ok roots)
    (h : resolveReachability store snapshot verifier roots (inventoryIds entries) =
      .ok reachability) (hkept : ∀ o, o ∈ kept ↔ o ∈ reachability.reachableObjects) :
    resolveReachability (store.restrict kept) snapshot verifier roots
      (inventoryIds (entries.filter (·.objectId ∈ kept))) = .ok reachability := by
  obtain ⟨hresolved, hexamined, queue, hqueue, hobjects⟩ := resolveReachability_eq_ok.1 h
  have hids : ∀ o ∈ reachability.reachableObjects,
      o ∈ inventoryIds (entries.filter (·.objectId ∈ kept)) := fun o ho ↦
    (mem_inventoryIds_restrict hentries).2
      ⟨(hkept o).2 ho, (mem_inventoryIds_iff hentries).1 (mem_inventory_of_traverseObjects hobjects ho)⟩
  refine resolveReachability_eq_ok.2 ⟨fun anchor hanchor target htarget ↦ ?_, hexamined, queue,
    hqueue, traverseObjects_congr hobjects hids fun o ho ↦ ?_⟩
  · rcases target with root | o
    · exact hresolved anchor hanchor _ htarget
    -- an object that an anchor names is marked
    · have hlive : o ∈ {o | o ∈ queue} := by
        rw [traverseRoots_spec hroots hqueue]
        exact .inl ⟨anchor, hanchor, htarget⟩
      refine hids o ?_
      show o ∈ {o | o ∈ reachability.reachableObjects}
      rw [traverseObjects_eq_reachable hobjects]
      exact isLeast_reachable.1.seeds_subset hlive
  · rw [ObjectStore.lookup_restrict, if_pos ((hkept o).2 ho)]

/-- **On what it leaves, the same plan has nothing to delete.** -/
theorem planGc_again (h : planGc store snapshot verifier = .ok report) :
    ∃ again, planGc (store.restrict report.reachableObjects) snapshot verifier = .ok again ∧
      again.reachableObjects = report.reachableObjects ∧ again.deletionCandidates = [] := by
  simp only [planGc, bind_eq_ok, rejectIf_eq_ok, pure_eq_ok, gt_iff_lt,
    Nat.not_lt, checkAllocation] at h
  obtain ⟨entries, hentries, total, htotal, roots, hroots, reachability, hreach, _, -, _, -, _,
    hcount, _, hallocation, rfl⟩ := h
  have hkept : ∀ o, o ∈ reachability.reachableObjects.toList ↔ o ∈ reachability.reachableObjects :=
    fun _ ↦ mem_toList
  have hreach' := resolveReachability_restrict hentries hroots hreach hkept
  have hids := fun o : ObjectId ↦ show o ∈ inventoryIds (entries.filter
    (·.objectId ∈ reachability.reachableObjects.toList)) ↔ _ from
    mem_inventoryIds_restrict hentries
  obtain ⟨total', htotal'⟩ :=
    totalBytes_filter (p := (·.objectId ∈ reachability.reachableObjects.toList)) htotal
  have hlength := List.length_filter_le
    (fun entry : InventoryEntry ↦ entry.objectId ∈ reachability.reachableObjects.toList) entries
  -- nothing of the inventory that is left is unreachable
  have hnil : (inventoryIds (entries.filter
      (·.objectId ∈ reachability.reachableObjects.toList))).toList.filter
        (· ∉ reachability.reachableObjects) = [] := by
    refine List.filter_eq_nil_iff.2 fun o ho ↦ ?_
    rw [mem_toList, hids, hkept] at ho
    simp [ho.1]
  generalize hlist : reachability.reachableObjects.toList = kept at *
  simp only [planGc, bind_eq_ok, rejectIf_eq_ok, pure_eq_ok, gt_iff_lt, Nat.not_lt, checkAllocation]
  refine ⟨_, ⟨_, inventory_restrict hentries, total', htotal', roots, hroots, reachability, hreach',
    ⟨⟩, Except.forM_eq_ok.2 fun entry hentry ↦ ?_, 0, ?_, ⟨⟩, ?_, ⟨⟩, ?_, rfl⟩, ?_, ?_⟩
  · obtain ⟨-, hmem⟩ := List.mem_filter.1 hentry
    rw [if_neg (not_not.2 ((hkept _).1 (of_decide_eq_true hmem)))]
    rfl
  · rw [hnil]
    exact totalBytes_eq_ok.2 (by simp)
  · rw [hnil, List.length_nil]
    omega
  · rw [hnil, List.length_nil]
    refine (Nat.add_le_add (Nat.mul_le_mul_right _ ?_) (Nat.mul_le_mul_right _ hlength)).trans
      hallocation
    omega
  · exact hlist
  · exact hnil

/-! ### Collection -/

variable {host : GcHost} {guard : ExclusiveGcGuard}

/-- **A collection that succeeds leaves what its plan marked.** -/
theorem gcCollect_eq_ok {report' : GcReport} {store' : ObjectStore}
    (hplan : planGc store snapshot verifier = .ok report)
    (h : gcCollect host guard snapshot verifier store = (.ok report', store')) :
    report'.deletedObjects = report.deletionCandidates ∧
      store' = store.restrict report.reachableObjects := by
  simp only [gcCollect, deletePlannedCandidates, Operation.bind_eq_ok, Operation.ofExcept_eq_ok,
    Operation.ofState_eq_ok] at h
  obtain ⟨_, _, ⟨-, rfl⟩, _, _, ⟨hplan', rfl⟩, _, _, ⟨-, rfl⟩, _, store, ⟨-, rfl⟩, hdelete⟩ := h
  obtain rfl := Except.ok.inj (hplan.symm.trans hplan')
  obtain ⟨-, -, hinventory, hcandidates, hnone⟩ := planGc_marks hplan
  obtain ⟨hdeleted, hlength, hobjects⟩ := deleteCandidates_eq_ok hdelete
  refine ⟨by rw [hdeleted, hnone, nil_append], ?_⟩
  have hlookup : store'.objects = (store.restrict report.reachableObjects).objects := by
    refine Std.ExtTreeMap.ext_getElem? fun o ↦ ?_
    have hcandidate : o ∈ report.deletionCandidates ↔
        (∃ record, store.objects[o]? = some record) ∧ o ∉ report.reachableObjects := by
      rw [hcandidates, List.mem_filter, hinventory, mem_iff_exists, decide_eq_true_iff]
    rw [hobjects, ObjectStore.lookup_restrict]
    by_cases ho : o ∈ report.reachableObjects
    · rw [if_pos ho, if_neg fun h ↦ (hcandidate.1 h).2 ho]
    · rw [if_neg ho]
      cases hrecord : store.objects[o]? with
      | none => rw [ite_self]
      | some record => rw [if_pos (hcandidate.2 ⟨⟨record, hrecord⟩, ho⟩)]
  obtain ⟨_, _⟩ := store'
  exact (ObjectStore.mk.injEq ..).symm ▸ ⟨hlength, hlookup⟩

/-- A collection whose plan has no candidates deletes nothing, whatever the host does. -/
theorem gcCollect_of_no_candidates (hplan : planGc store snapshot verifier = .ok report)
    (hnone : report.deletionCandidates = []) :
    (gcCollect host guard snapshot verifier store).2 = store ∧
      ∀ report', (gcCollect host guard snapshot verifier store).1 = .ok report' →
        report'.deletedObjects = [] := by
  have hdelete : deletePlannedCandidates host verifier report store =
      (.ok { report with decision := .collected }, store) := by
    rw [deletePlannedCandidates, Operation.ofExcept_bind, rejectIf_neg (by simp [hnone])]
    have hloop : ∀ candidates, candidates = [] →
        deleteCandidates host verifier candidates report store =
          (.ok { report with decision := .collected }, store) := by
      rintro _ rfl
      rw [deleteCandidates]
      rfl
    exact hloop _ hnone
  rw [gcCollect, Operation.ofExcept_bind]
  cases requireGuard guard with
  | error e => exact ⟨rfl, nofun⟩
  | ok _ =>
    simp only [Operation.ofState_bind, hplan, Operation.ofExcept_bind]
    cases rejectIf (host.failsLeafSync = true) (GcError.gc .deleteIo) with
    | error e => exact ⟨rfl, nofun⟩
    | ok _ =>
      rw [hdelete]
      refine ⟨rfl, fun report' hreport ↦ ?_⟩
      rw [← Except.ok.inj hreport]
      exact (planGc_marks hplan).2.2.2.2

/-- **Garbage collection is exact.** Of a plan that succeeds, the reachable objects are the least
set that contains what the anchors name and what the retained roots hold and that is closed under
references, and the candidates are what else the inventory holds. A collection that succeeds leaves
exactly the reachable objects of the inventory; after it the same plan succeeds and has no
candidates, and collecting once more changes nothing. The snapshot does not depend on the order of
the anchors, targets and roots it was made of. -/
theorem gc_exact (hplan : planGc store snapshot verifier = .ok report) :
    IsLeast {S | IsClosedUnder (store.references verifier) snapshot.liveSeeds S}
        {o | o ∈ report.reachableObjects} ∧
      (∀ o, o ∈ report.inventoryObjects ↔ o ∈ store.objects) ∧
      (∀ o, o ∈ report.deletionCandidates ↔
        o ∈ report.inventoryObjects ∧ o ∉ report.reachableObjects) ∧
      (∀ host guard report' store',
        gcCollect host guard snapshot verifier store = (.ok report', store') →
          report'.deletedObjects = report.deletionCandidates ∧
          (∀ o, store'.objects[o]? =
            if o ∈ report.reachableObjects then store.objects[o]? else none) ∧
          (∃ again, planGc store' snapshot verifier = .ok again ∧
            again.reachableObjects = report.reachableObjects ∧ again.deletionCandidates = []) ∧
          ∀ host' guard', (gcCollect host' guard' snapshot verifier store').2 = store' ∧
            ∀ report'', (gcCollect host' guard' snapshot verifier store').1 = .ok report'' →
              report''.deletedObjects = []) ∧
      ∀ anchors anchors' roots roots',
        RetentionSnapshot.Rearranged anchors anchors' roots roots' →
          RetentionSnapshot.new anchors roots = .ok snapshot →
            RetentionSnapshot.new anchors' roots' = .ok snapshot := by
  obtain ⟨hmarked, -, hinventory, hcandidates, -⟩ := planGc_marks hplan
  refine ⟨by rw [hmarked]; exact isLeast_reachable, hinventory, fun o ↦ ?_, ?_, ?_⟩
  · rw [hcandidates, List.mem_filter, decide_eq_true_iff]
  · intro host guard report' store' hcollect
    obtain ⟨hdeleted, rfl⟩ := gcCollect_eq_ok hplan hcollect
    obtain ⟨again, hagain, hreachable, hnone⟩ := planGc_again hplan
    exact ⟨hdeleted, fun _ ↦ ObjectStore.lookup_restrict, ⟨again, hagain, hreachable, hnone⟩,
      fun _ _ ↦ gcCollect_of_no_candidates hagain hnone⟩
  · exact fun _ _ _ _ hrearranged hnew ↦ RetentionSnapshot.new_congr hrearranged hnew

end

/-! ### Two objects that refer to each other -/

/-- A digest that repeats the last byte. -/
@[reducible]
def lastByteBlake3 : Blake3 := ⟨fun bytes ↦ splat (bytes.getLastD 0)⟩

/-- A record of one byte, with its digest behind it. -/
def byteObject (byte : UInt8) : Bytes := byte :: List.replicate 32 byte

/-- The first two objects refer to each other and the first to itself; nothing refers to the
third. -/
def cyclicStore : ObjectStore where
  rootLength := 1
  objects := .ofList [(splat 1, byteObject 1), (splat 2, byteObject 2),
    (splat 3, byteObject 3)]

def cyclicVerifier : GcObjectVerifier where
  verify record := .ok (splat (record.headD 0))
  references record :=
    .ok (if record.headD 0 = 1 then [splat 1, splat 2] else [splat 1])

def cyclicAnchor : RetentionAnchor := ⟨.ref, splat 9, [.object (splat 2)]⟩

def cyclicSnapshot : RetentionSnapshot where
  anchors := [cyclicAnchor]
  roots := []
  anchors_ascend := List.pairwise_singleton ..
  roots_ascend := List.Pairwise.nil

def cyclicReport : GcReport where
  examinedAnchors := [cyclicAnchor.key]
  retainedRoots := []
  reachableObjects := [splat 1, splat 2]
  inventoryObjects := [splat 1, splat 2, splat 3]
  deletionCandidates := [splat 3]
  inventoryBytes := 99
  candidateBytes := 33
  decision := .dryRun
  deletedObjects := []
  failedObject := none

theorem traverseObjects_cyclicStore : letI := lastByteBlake3
    traverseObjects cyclicStore cyclicVerifier (.ofList [splat 1, splat 2, splat 3])
      [splat 2] = .ok (.ofList [splat 2, splat 1]) := by
  let _ := lastByteBlake3
  have hsecond : (objectGraph cyclicStore cyclicVerifier
      (.ofList [splat 1, splat 2, splat 3])).visit (splat 2) 0 = .ok ([splat 1], 1) := by
    refine objectGraph_visit_eq_ok.2 ⟨byteObject 2, [splat 1], by decide, rfl, ?_,
      by decide, by decide, rfl⟩
    rw [List.mergeSort_of_pairwise (by decide)]
    rfl
  have hfirst : (objectGraph cyclicStore cyclicVerifier
      (.ofList [splat 1, splat 2, splat 3])).visit (splat 1) 1 = .ok ([splat 1, splat 2], 3) := by
    refine objectGraph_visit_eq_ok.2 ⟨byteObject 1, [splat 1, splat 2], by decide,
      rfl, ?_, by decide, by decide, rfl⟩
    rw [List.mergeSort_of_pairwise (by decide)]
    rfl
  refine traverseObjects_eq_ok.2 ⟨3, ?_⟩
  rw [explore_visit (by decide) (by decide) hsecond, nil_append,
    explore_visit (by decide) (by decide) hfirst, nil_append, explore_skip (by decide),
    explore_skip (by decide), explore_nil]
  rfl

theorem planGc_cyclicStore : letI := lastByteBlake3
    letI := foundingRegistry
    planGc cyclicStore cyclicSnapshot cyclicVerifier = .ok cyclicReport := by
  let _ := lastByteBlake3
  let _ := foundingRegistry
  have hreach : resolveReachability cyclicStore cyclicSnapshot cyclicVerifier ∅
      (.ofList [splat 1, splat 2, splat 3]) =
        .ok ⟨[cyclicAnchor.key], ∅, .ofList [splat 2, splat 1]⟩ := by
    refine resolveReachability_eq_ok.2 ⟨?_, rfl, _, ?_, traverseObjects_cyclicStore⟩
    · simp only [cyclicSnapshot, cyclicAnchor, List.forall_mem_singleton]
      show splat 2 ∈ ofList [splat 1, splat 2, splat 3]
      decide
    · show traverseRoots [] [splat 2] ∅ = _
      rw [traverseRoots, explore_nil]
      rfl
  have hinventory : inventory cyclicStore = .ok [⟨splat 1, 33⟩, ⟨splat 2, 33⟩, ⟨splat 3, 33⟩] :=
    inventory_eq_ok.2 ⟨by decide, by decide⟩
  simp only [planGc, bind_eq_ok, rejectIf_eq_ok, pure_eq_ok, checkAllocation]
  refine ⟨_, hinventory, 99, rfl, ∅, rfl, _, hreach, ⟨⟩, ?_, 33, ?_, ⟨⟩, ?_, ⟨⟩, ?_, ?_⟩
  · decide
  · decide
  · decide
  · decide
  · decide

theorem gc_exact_cyclicStore :
    letI := lastByteBlake3
    IsLeast {S | IsClosedUnder (cyclicStore.references cyclicVerifier) cyclicSnapshot.liveSeeds S}
        {o | o ∈ [Id.splat 1, Id.splat 2]} ∧
      ∀ o : ObjectId, o ∈ [Id.splat 3] ↔
        o ∈ [Id.splat 1, Id.splat 2, Id.splat 3] ∧ o ∉ [Id.splat 1, Id.splat 2] := by
  let _ := lastByteBlake3
  let _ := foundingRegistry
  obtain ⟨hleast, -, hcandidates, -⟩ := gc_exact planGc_cyclicStore
  exact ⟨hleast, hcandidates⟩

end Sley.Repo
