import Mathlib
import Sley.Lib.OrderedMap
import Sley.Txn.Commit

/-!
# Retention snapshots

What a caller of the garbage collector declares (`sley-repo/src/gc.rs`): anchors, which name the
roots and objects that must survive, and a catalogue of state roots. The snapshot sorts anchors,
targets and roots and refuses duplicates and empty anchors. **A snapshot does not depend on the
order of what it is made of** (`RetentionSnapshot.new_congr`).
-/

namespace Sley.Repo

open Scb1 Ssmc Root Txn Schema

/-! ### Failures and reports -/

/-- Stable garbage-collection failure code. -/
inductive GcErrorCode
  | resourceLimit
  | anchorMalformed
  | anchorUnresolved
  | rootMissing
  | rootInvalid
  | dependencyMissing
  | objectReferenceMalformed
  | objectMissing
  | inventoryInvalid
  | dryRunRequired
  | exclusiveLockRequired
  | deleteIo
  | reachabilityViolation
  | internalInvariant
  deriving DecidableEq, Repr

/-- A collector failure, or the failure of a layer below under its own symbol. -/
inductive GcSymbol
  | gc (code : GcErrorCode)
  | schema (code : SchemaErrorCode)
  | stateRoot (error : StateRootError)
  | store (code : StoreErrorCode)
  deriving DecidableEq, Repr

/-- Closed retention-anchor kind. -/
inductive RetentionKind
  | ref
  | tag
  | lease
  | transaction
  | packManifest
  | protectedRoot
  | sessionPin
  deriving DecidableEq, Repr

def RetentionKind.discriminant : RetentionKind → UInt8
  | .ref => 1
  | .tag => 2
  | .lease => 3
  | .transaction => 4
  | .packManifest => 5
  | .protectedRoot => 6
  | .sessionPin => 7

/-- Canonical key emitted for an examined anchor. -/
@[ext]
structure RetentionAnchorKey where
  kind : RetentionKind
  anchorId : Digest
  deriving DecidableEq

inductive GcDecision
  | dryRun
  | collected
  | partialDeleteFailure
  deriving DecidableEq, Repr

/-- Deterministic garbage-collection report. -/
structure GcReport where
  examinedAnchors : List RetentionAnchorKey
  retainedRoots : List StateRoot
  reachableObjects : List ObjectId
  inventoryObjects : List ObjectId
  deletionCandidates : List ObjectId
  inventoryBytes : Nat
  candidateBytes : Nat
  decision : GcDecision
  deletedObjects : List ObjectId
  failedObject : Option ObjectId
  deriving DecidableEq

/-- Garbage-collection error with an optional partial deletion report. -/
structure GcError where
  symbol : GcSymbol
  partialReport : Option GcReport
  deriving DecidableEq

namespace GcError

def gc (code : GcErrorCode) : GcError := ⟨.gc code, none⟩

def upstream (symbol : GcSymbol) : GcError := ⟨symbol, none⟩

def ofPartial (report : GcReport) : GcError := ⟨.gc .deleteIo, some report⟩

end GcError

/-! ### Anchors -/

/-- One exact retention target. -/
inductive RetentionTarget
  | stateRoot (root : StateRoot)
  | object (objectId : ObjectId)
  deriving DecidableEq

/-- Roots before objects, then by bytes. -/
def RetentionTarget.sortKey : RetentionTarget → Nat × Bytes
  | .stateRoot root => (0, root.bytes)
  | .object objectId => (1, objectId.bytes)

/-- One caller-owned explicit retention anchor. -/
structure RetentionAnchor where
  kind : RetentionKind
  anchorId : Digest
  targets : List RetentionTarget
  deriving DecidableEq

namespace RetentionAnchor

def key (anchor : RetentionAnchor) : RetentionAnchorKey := ⟨anchor.kind, anchor.anchorId⟩

def sortKey (anchor : RetentionAnchor) : UInt8 × Digest := (anchor.kind.discriminant, anchor.anchorId)

/-- `canonical` holds the targets of `anchor`, in ascending order. -/
structure Canonizes (canonical anchor : RetentionAnchor) : Prop where
  key_eq : canonical.key = anchor.key
  targets_perm : canonical.targets.Perm anchor.targets
  targets_ne_nil : canonical.targets ≠ []
  targets_ascend : Ascends RetentionTarget.sortKey canonical.targets

/-- The same anchor, its targets in another order. -/
structure Rearranges (other anchor : RetentionAnchor) : Prop where
  key_eq : other.key = anchor.key
  targets_perm : other.targets.Perm anchor.targets

end RetentionAnchor

/-! ### Snapshots -/

def maxGcAnchors : Nat := 65536

def maxGcTargets : Nat := 262144

def maxGcRoots : Nat := 65536

/-- Validated caller-owned retention snapshot. -/
@[ext]
structure RetentionSnapshot where
  anchors : List RetentionAnchor
  roots : List AcceptedStateRoot
  anchors_ascend : Ascends RetentionAnchor.sortKey anchors
  roots_ascend : Ascends AcceptedStateRoot.root roots

/-- The loop over the anchors: how many targets there are, and each anchor's targets in order. -/
def canonicalizeAnchors (targetCount : Nat) :
    List RetentionAnchor → Except GcError (List RetentionAnchor)
  | [] => .ok []
  | anchor :: anchors => do
    Except.rejectIf anchor.targets.isEmpty (.gc .anchorMalformed)
    Except.rejectIf (targetCount + anchor.targets.length > maxGcTargets) (.gc .resourceLimit)
    let targets ← Except.ofOption (.gc .anchorMalformed)
      (sortUnique RetentionTarget.sortKey anchor.targets)
    let anchors ← canonicalizeAnchors (targetCount + anchor.targets.length) anchors
    return { anchor with targets } :: anchors

namespace RetentionSnapshot

/-- Canonicalizes unordered anchors, targets and roots and rejects duplicates. -/
def new (anchors : List RetentionAnchor) (roots : List AcceptedStateRoot) :
    Except GcError RetentionSnapshot := do
  Except.rejectIf (anchors.length > maxGcAnchors ∨ roots.length > maxGcRoots) (.gc .resourceLimit)
  let anchors ← canonicalizeAnchors 0 anchors
  match hanchors : sortUnique RetentionAnchor.sortKey anchors with
  | none => .error (.gc .anchorMalformed)
  | some anchors =>
    match hroots : sortUnique AcceptedStateRoot.root roots with
    | none => .error (.gc .rootInvalid)
    | some roots =>
      .ok ⟨anchors, roots, (sortUnique_eq_some.1 hanchors).2, (sortUnique_eq_some.1 hroots).2⟩

end RetentionSnapshot

/-! ### The order of the input -/

theorem canonicalizeAnchors_eq_ok {anchors out : List RetentionAnchor} {targetCount : Nat}
    (hcount : targetCount ≤ maxGcTargets) :
    canonicalizeAnchors targetCount anchors = .ok out ↔
      List.Forall₂ (fun anchor canonical ↦ canonical.Canonizes anchor) anchors out ∧
        targetCount + (out.map (·.targets.length)).sum ≤ maxGcTargets := by
  induction anchors generalizing targetCount out with
  | nil =>
    rw [canonicalizeAnchors, List.forall₂_nil_left_iff, Except.ok.injEq, eq_comm]
    exact ⟨fun h ↦ ⟨h, by rwa [h]⟩, And.left⟩
  | cons anchor anchors ih =>
    simp only [canonicalizeAnchors, Except.bind_eq_ok, Except.rejectIf_eq_ok, exists_const,
      List.isEmpty_iff, gt_iff_lt, Nat.not_lt, Except.ofOption_eq_ok, sortUnique_eq_some,
      Except.pure_eq_ok, List.forall₂_cons_left_iff]
    constructor
    · rintro ⟨hne, hle, targets, ⟨hperm, hasc⟩, rest, hrest, rfl⟩
      obtain ⟨hrest, hsum⟩ := (ih hle).1 hrest
      have hne' : targets ≠ [] := fun h ↦ hne (h ▸ hperm).nil_eq.symm
      refine ⟨⟨{ anchor with targets }, rest, ⟨rfl, hperm, hne', hasc⟩, hrest, rfl⟩, ?_⟩
      rw [List.map_cons, List.sum_cons, hperm.length_eq, ← Nat.add_assoc]
      exact hsum
    · rintro ⟨⟨canonical, rest, ⟨hkey, hperm, hne, hasc⟩, hrest, rfl⟩, hsum⟩
      rw [List.map_cons, List.sum_cons, hperm.length_eq, ← Nat.add_assoc] at hsum
      have hle : targetCount + anchor.targets.length ≤ maxGcTargets := by omega
      refine ⟨fun h ↦ hne (h ▸ hperm).eq_nil, hle, canonical.targets, ⟨hperm, hasc⟩, rest,
        (ih hle).2 ⟨hrest, hsum⟩, ?_⟩
      obtain ⟨kind, anchorId, targets⟩ := canonical
      obtain ⟨rfl, rfl⟩ := RetentionAnchorKey.mk.inj hkey
      rfl

namespace RetentionSnapshot

variable {anchors anchors' : List RetentionAnchor} {roots roots' : List AcceptedStateRoot}
  {snapshot : RetentionSnapshot}

/-- **A snapshot is the one canonical arrangement of its input.** -/
theorem new_eq_ok : new anchors roots = .ok snapshot ↔
      (anchors.length ≤ maxGcAnchors ∧ roots.length ≤ maxGcRoots) ∧
        (∃ canonical, List.Forall₂ (fun anchor canonical ↦ canonical.Canonizes anchor) anchors
            canonical ∧ snapshot.anchors.Perm canonical) ∧
          (snapshot.anchors.map (·.targets.length)).sum ≤ maxGcTargets ∧
            snapshot.roots.Perm roots := by
  simp only [new, Except.bind_eq_ok, Except.rejectIf_eq_ok, exists_const, not_or, gt_iff_lt,
    Nat.not_lt, canonicalizeAnchors_eq_ok (Nat.zero_le _), Nat.zero_add]
  refine and_congr_right fun _ ↦ ⟨?_, ?_⟩
  · rintro ⟨canonical, ⟨hcanonical, hsum⟩, h⟩
    split at h
    · cases h
    · rename_i hanchors
      split at h
      · cases h
      · rename_i hroots
        obtain rfl := Except.ok.inj h
        have hperm := (sortUnique_eq_some.1 hanchors).1
        exact ⟨⟨canonical, hcanonical, hperm⟩, ((hperm.map _).sum_eq).trans_le hsum,
          (sortUnique_eq_some.1 hroots).1⟩
  · rintro ⟨⟨canonical, hcanonical, hperm⟩, hsum, hroots⟩
    refine ⟨canonical, ⟨hcanonical, ((hperm.map _).sum_eq).symm.trans_le hsum⟩, ?_⟩
    split
    · rename_i hnone
      rw [sortUnique_eq_some.2 ⟨hperm, snapshot.anchors_ascend⟩] at hnone
      cases hnone
    · rename_i hanchors
      rw [sortUnique_eq_some.2 ⟨hperm, snapshot.anchors_ascend⟩] at hanchors
      obtain rfl := Option.some.inj hanchors
      split
      · rename_i hnone
        rw [sortUnique_eq_some.2 ⟨hroots, snapshot.roots_ascend⟩] at hnone
        cases hnone
      · rename_i hsorted
        rw [sortUnique_eq_some.2 ⟨hroots, snapshot.roots_ascend⟩] at hsorted
        obtain rfl := Option.some.inj hsorted
        rfl

/-- `anchors'` and `roots'` are the given ones in another order, targets included. -/
structure Rearranged (anchors anchors' : List RetentionAnchor)
    (roots roots' : List AcceptedStateRoot) : Prop where
  anchors : ∃ middle, List.Forall₂ (fun anchor other ↦ other.Rearranges anchor) anchors middle ∧
    middle.Perm anchors'
  roots : roots.Perm roots'

/-- **The order of anchors, targets and roots does not matter.** -/
theorem new_congr (h : Rearranged anchors anchors' roots roots')
    (hnew : new anchors roots = .ok snapshot) : new anchors' roots' = .ok snapshot := by
  obtain ⟨⟨middle, hmiddle, hperm⟩, hroots⟩ := h
  obtain ⟨⟨hanchorsLen, hrootsLen⟩, ⟨canonical, hcanonical, hsorted⟩, hsum, hsnapshot⟩ :=
    new_eq_ok.1 hnew
  -- what canonizes an anchor canonizes the anchor with its targets rearranged
  have hrearranged : List.Forall₂ (fun anchor canonical ↦ canonical.Canonizes anchor) middle
      canonical := by
    clear hperm hsorted hanchorsLen hnew
    induction hmiddle generalizing canonical with
    | nil => exact hcanonical
    | cons hfirst _ ih =>
      obtain ⟨first, rest, hcanonizes, hrest, rfl⟩ := List.forall₂_cons_left_iff.1 hcanonical
      refine .cons ⟨hcanonizes.key_eq.trans hfirst.key_eq.symm, ?_, hcanonizes.targets_ne_nil,
        hcanonizes.targets_ascend⟩ (ih _ hrest)
      exact hcanonizes.targets_perm.trans hfirst.targets_perm.symm
  obtain ⟨canonical', hcanonical', hperm'⟩ :
      Relation.Comp (List.Forall₂ fun anchor canonical ↦ canonical.Canonizes anchor) List.Perm
        anchors' canonical := by
    rw [List.forall₂_comp_perm_eq_perm_comp_forall₂]
    exact ⟨middle, hperm.symm, hrearranged⟩
  refine new_eq_ok.2 ⟨⟨?_, hroots.length_eq.symm.trans_le hrootsLen⟩,
    ⟨canonical', hcanonical', hsorted.trans hperm'.symm⟩, hsum, hsnapshot.trans hroots⟩
  exact hperm.length_eq.symm.trans_le (hmiddle.length_eq.symm.trans_le hanchorsLen)

end RetentionSnapshot

end Sley.Repo
