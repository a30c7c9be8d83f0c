import Sley.Lib.SymmetricDifference
import Sley.Query.CompleteRoot
import Sley.Repo.FieldDeltas
import Sley.Ssmc.Identity

/-!
# Comparison of complete roots

Two complete roots of one workspace and schema epoch are compared in five sections
(`sley-repo/src/compare.rs`): the identities whose bindings differ, the fields of the definitions
that changed, the functions whose fingerprints differ, the edges of one index only, and the root
sets with the definitions that depend on a change. The delta is then encoded under the limits of its
decoder.

**The fingerprint of a function is a parameter**, and so is the schema epoch of the encoding:
nothing here depends on what they are, only on their being functions of their inputs.
-/

namespace Sley.Repo

open Scb1 Ssmc Mutate Query
open Except (rejectIf)

/-! ### Failures -/

/-- Stable fingerprint failure code. -/
inductive FingerprintErrorCode
  | entityUnsupported
  | inventoryInvalid
  | localReferenceInvalid
  | claimMissing
  | mismatch
  | resourceLimit
  | valueHashTypeUnsupported
  | valueHashValueInvalid
  deriving DecidableEq, Repr

/-- A comparison failure with the code of the layer below. -/
inductive CompareError
  | compare (code : CompareErrorCode)
  | format (code : ScbErrorCode)
  | impact (code : ImpactErrorCode)
  | fingerprint (code : FingerprintErrorCode)
  deriving DecidableEq

/-- `CompareError::code`. -/
def CompareError.code : CompareError → CompareErrorCode
  | compare code => code
  | format _ => .formatInvalid
  | impact _ => .rootIncomplete
  | fingerprint _ => .inventoryInvalid

abbrev CompareResult (α : Type) := Except CompareError α

/-- `Work::charge`. -/
def chargeCompare (work amount : Nat) : CompareResult Nat :=
  (CompareErrorCode.charge work amount).mapError .compare

def maxDeltaBytes : Nat := 67108864

def maxEntityDeltas : Nat := 131070

def maxFieldDeltas : Nat := 1048560

def maxBodyDeltas : Nat := 65535

def maxRelationDeltas : Nat := 8000000

def maxIdentitySet : Nat := 131070

/-! ### Requests -/

/-- A complete root: its definitions, kind after kind, and the facts of its record. -/
structure CompleteRootRequest where
  entities : List ImpactEntity
  root : StateRoot
  workspaceId : WorkspaceId
  schemaEpochId : SchemaEpochId
  boundObjects : List (EntityId × ObjectId)
  entryPoints : List EntityId
  dependencyRoots : List StateRoot

namespace CompleteRootRequest

/-- `borrow_entities`: the definitions in the order of their identities. -/
def borrowed (request : CompleteRootRequest) : List ImpactEntity :=
  request.entities.insertionSort fun a b ↦ (compare a.entityId b.entityId).isLE

def facts (request : CompleteRootRequest) : CompleteRootFacts where
  boundEntities := request.boundObjects.map Prod.fst
  entryPoints := request.entryPoints
  dependencyRoots := request.dependencyRoots

/-- The definitions of one kind. -/
def definitions (request : CompleteRootRequest) (kind : EntityKind) :
    List (EntityId × kind.Body) :=
  request.entities.filterMap fun entity ↦
    if h : entity.body.valueKind = kind then some (entity.entityId, h ▸ entity.body.body) else none

def parameters (request : CompleteRootRequest) : List (EntityId × ParameterBody) :=
  request.definitions .parameter

def blocks (request : CompleteRootRequest) : List (EntityId × BlockBody) :=
  request.definitions .block

def operations (request : CompleteRootRequest) : List (EntityId × OperationBody) :=
  request.definitions .operation

end CompleteRootRequest

/-- One side of a comparison. -/
structure Side where
  entities : EntityMap ImpactEntity
  objects : EntityMap ObjectId
  parameters : EntityMap ParameterBody
  index : ImpactIndex

/-- `Side::build`. -/
def Side.build (request : CompleteRootRequest) : CompareResult Side := do
  let judged ← (judgeCompleteRoot request.borrowed request.facts).mapError .impact
  return {
    entities := .ofEntries (request.borrowed.map fun entity ↦ (entity.entityId, entity))
    objects := .ofEntries request.boundObjects
    parameters := .ofEntries request.parameters
    index := judged.index }

/-! ### The delta -/

/-- Frozen change class of one bound identity. -/
inductive ChangeClass
  | added
  | removed
  | changed
  | retyped
  | metadataOnly
  deriving DecidableEq, Repr

def ChangeClass.tag : ChangeClass → UInt32
  | added => 1
  | removed => 2
  | changed => 3
  | retyped => 4
  | metadataOnly => 5

/-- Section 1 entry; a kind is 0 where there is no definition. -/
structure EntityDelta where
  entityId : EntityId
  change : ChangeClass
  baseKind : UInt32
  targetKind : UInt32
  baseObject : Option ObjectId
  targetObject : Option ObjectId
  deriving DecidableEq

/-- Section 3 entry. -/
structure BodyDelta where
  entityId : EntityId
  baseFingerprint : SemanticFingerprint
  targetFingerprint : SemanticFingerprint
  baseBlocks : UInt32
  targetBlocks : UInt32
  baseOperations : UInt32
  targetOperations : UInt32
  deriving DecidableEq

/-- Direction of a relation delta. -/
inductive RelationChange
  | added
  | removed
  deriving DecidableEq, Repr

def RelationChange.tag : RelationChange → UInt32
  | added => 1
  | removed => 2

/-- Section 4 entry. -/
structure RelationDelta where
  dependent : EntityId
  dependency : EntityId
  kind : ImpactKind
  change : RelationChange
  deriving DecidableEq

/-- Complete typed delta between two complete roots. -/
structure SemanticDelta where
  workspaceId : WorkspaceId
  rootSchemaEpoch : SchemaEpochId
  baseRoot : StateRoot
  targetRoot : StateRoot
  entities : List EntityDelta
  fields : List FieldDelta
  bodies : List BodyDelta
  relations : List RelationDelta
  dependencyRootsAdded : List StateRoot
  dependencyRootsRemoved : List StateRoot
  entryPointsAdded : List EntityId
  entryPointsRemoved : List EntityId
  collateral : List EntityId
  deriving DecidableEq

/-- Canonical delta bytes with their identity and decoded form. -/
structure StoredSemanticDelta where
  deltaId : Digest
  storedBytes : Bytes
  delta : SemanticDelta

/-! ### Section 1 and 2: entities and their fields -/

/-- `definitions_equal`, for definitions of one kind and identity. -/
def definitionsEqual (before after : ImpactEntity) : Prop := before.body = after.body

instance (before after : ImpactEntity) : Decidable (definitionsEqual before after) :=
  inferInstanceAs (Decidable (before.body = after.body))

/-- The class of an identity that both sides bind, to different objects. -/
def sharedChange (before after : ImpactEntity) : ChangeClass :=
  if before.kind ≠ after.kind then .retyped
  else if definitionsEqual before after then .metadataOnly
  else .changed

/-- The first two sections on their way. -/
structure EntitySections where
  entities : List EntityDelta
  fields : List FieldDelta
  work : Nat

/-- The fields of a definition that changed. -/
def changedFields (base target : Side) (change : ChangeClass) (before after : ImpactEntity)
    (work : Nat) : CompareResult (List FieldDelta × Nat) :=
  if change = .changed then
    (fieldDeltas before after base.parameters target.parameters work).mapError .compare
  else
    .ok ([], work)

/-- Classify one identity of the union. -/
def classify (base target : Side) (sections : EntitySections) (id : EntityId) :
    CompareResult EntitySections := do
  let work ← chargeCompare sections.work 1
  match base.entities[id]?, target.entities[id]? with
  | none, some entity =>
    let delta : EntityDelta := ⟨id, .added, 0, entity.kindTag, none, target.objects[id]?⟩
    return { sections with entities := sections.entities ++ [delta], work }
  | some entity, none =>
    let delta : EntityDelta := ⟨id, .removed, entity.kindTag, 0, base.objects[id]?, none⟩
    return { sections with entities := sections.entities ++ [delta], work }
  | some before, some after =>
    if base.objects[id]? = target.objects[id]? then
      return { sections with work }
    else
      let change := sharedChange before after
      let (fields, work) ← changedFields base target change before after work
      let delta : EntityDelta :=
        ⟨id, change, before.kindTag, after.kindTag, base.objects[id]?, target.objects[id]?⟩
      return ⟨sections.entities ++ [delta], sections.fields ++ fields, work⟩
  | none, none => .error (.compare .internalInvariant)

/-- Every identity that a side defines, in order. -/
def unionIds (base target : Side) : List EntityId :=
  (EntitySet.ofIds (base.entities.keys ++ target.entities.keys)).toList

/-- Sections 1 and 2. -/
def entitySections (base target : Side) : CompareResult EntitySections := do
  let sections ← (unionIds base target).foldlM (classify base target) ⟨[], [], 0⟩
  rejectIf (sections.entities.length > maxEntityDeltas ∨
    sections.fields.length > maxFieldDeltas) (.compare .resourceLimit)
  return sections

/-! ### Section 3: fingerprints -/

/-- Complete inventory that a function owns. -/
structure FunctionFingerprintInput where
  function : EntityId × FunctionBody
  parameters : List (EntityId × ParameterBody)
  blocks : List (EntityId × BlockBody)
  operations : List (EntityId × OperationBody)

/-- What the comparison takes from the crates below it. -/
class ComparisonBasis where
  /-- `fingerprint_function`. -/
  fingerprintFunction :
    SchemaEpochId → FunctionFingerprintInput → Except FingerprintErrorCode SemanticFingerprint
  /-- `delta_epoch_id`. -/
  deltaEpochId : Except CompareErrorCode SchemaEpochId

/-- `owned_inventory`: what the lists of a function and of its blocks name. -/
def ownedInventory (request : CompleteRootRequest) (function : EntityId × FunctionBody) :
    FunctionFingerprintInput :=
  let knownBlocks : EntityMap BlockBody := .ofEntries request.blocks
  let blocks := EntitySet.ofIds function.2.blocks
  let listed := blocks.toList.filterMap (knownBlocks[·]?)
  let blockParameters := EntitySet.ofIds (listed.flatMap (·.parameters))
  let blockOperations := EntitySet.ofIds (listed.flatMap (·.operations))
  { function
    parameters := request.parameters.filter fun parameter ↦
      parameter.1 ∈ function.2.parameters ∨ parameter.1 ∈ blockParameters
    blocks := request.blocks.filter (·.1 ∈ blocks)
    operations := request.operations.filter (·.1 ∈ blockOperations) }

/-- How much an inventory holds. -/
def FunctionFingerprintInput.size (input : FunctionFingerprintInput) : Nat :=
  input.parameters.length + input.blocks.length + input.operations.length

/-- `u32::try_from` of a length. -/
def countU32 (n : Nat) : CompareResult UInt32 := do
  rejectIf (n ≥ 2 ^ 32) (.compare .resourceLimit)
  return UInt32.ofNat n

section Sections

variable [ComparisonBasis]

def functionFingerprint (request : CompleteRootRequest) (input : FunctionFingerprintInput) :
    CompareResult SemanticFingerprint :=
  (ComparisonBasis.fingerprintFunction request.schemaEpochId input).mapError .fingerprint

/-- Compare the fingerprints of a function that both sides define. -/
def compareFunction (base target : CompleteRootRequest) (state : List BodyDelta × Nat)
    (function : EntityId × FunctionBody × FunctionBody) : CompareResult (List BodyDelta × Nat) := do
  let (bodies, work) := state
  let (id, before, after) := function
  let baseInput := ownedInventory base (id, before)
  let targetInput := ownedInventory target (id, after)
  let work ← chargeCompare work (baseInput.size + targetInput.size + 2)
  let baseFingerprint ← functionFingerprint base baseInput
  let targetFingerprint ← functionFingerprint target targetInput
  if baseFingerprint ≠ targetFingerprint then
    let baseBlocks ← countU32 baseInput.blocks.length
    let targetBlocks ← countU32 targetInput.blocks.length
    let baseOperations ← countU32 baseInput.operations.length
    let targetOperations ← countU32 targetInput.operations.length
    let delta : BodyDelta := ⟨id, baseFingerprint, targetFingerprint, baseBlocks, targetBlocks,
      baseOperations, targetOperations⟩
    return (bodies ++ [delta], work)
  else
    return (bodies, work)

/-- A definition as a function. -/
def functionBody? (entity : ImpactEntity) : Option FunctionBody :=
  match entity.body with
  | ⟨.function, body⟩ => some body
  | _ => none

/-- The functions that both sides define, in the order of their identities. -/
def sharedFunctions (base target : Side) : List (EntityId × FunctionBody × FunctionBody) :=
  base.entities.toList.filterMap fun (id, entity) ↦ do
    let before ← functionBody? entity
    let after ← target.entities[id]? >>= functionBody?
    return (id, before, after)

/-- Section 3. -/
def bodySection (base target : CompleteRootRequest) (baseSide targetSide : Side) (work : Nat) :
    CompareResult (List BodyDelta × Nat) := do
  let (bodies, work) ←
    (sharedFunctions baseSide targetSide).foldlM (compareFunction base target) ([], work)
  rejectIf (bodies.length > maxBodyDeltas) (.compare .resourceLimit)
  return (bodies, work)

/-! ### Section 4: relations -/

def relation (edge : ImpactEdge) (change : RelationChange) : RelationDelta :=
  ⟨edge.dependent, edge.dependency, edge.kind, change⟩

/-- `relation_deltas`. -/
def relationDeltas (base target : List ImpactEdge) (work : Nat) :
    CompareResult (List RelationDelta × Nat) := do
  let work ← chargeCompare work (base.length + target.length)
  let deltas := (symmetricDifference base target).map
    (Sum.elim (relation · .removed) (relation · .added))
  return (deltas, work)

/-- Section 4. -/
def relationSection (baseSide targetSide : Side) (work : Nat) :
    CompareResult (List RelationDelta × Nat) := do
  let (relations, work) ← relationDeltas baseSide.index.direct targetSide.index.direct work
  rejectIf (relations.length > maxRelationDeltas) (.compare .resourceLimit)
  return (relations, work)

/-! ### Section 5: root sets and collateral -/

/-- The seeds of one side: what it binds and what is not as it was, and the changed bodies. -/
def seeds (gone : ChangeClass) (entities : List EntityDelta) (bodies : List BodyDelta) :
    EntitySet :=
  .ofIds ((entities.filter fun delta ↦ delta.change ∈ [gone, .changed, .retyped]).map
    (·.entityId) ++ bodies.map (·.entityId))

/-- What depends on the seeds of one side. -/
def reachCollateral (state : EntitySet × Nat) (side : Side × EntitySet) :
    CompareResult (EntitySet × Nat) := do
  let (reached, work) := state
  let (side, seeds) := side
  if seeds.isEmpty then
    return (reached, work)
  else
    let seedList := seeds.toList
    let work ← chargeCompare work seedList.length
    let closure ← (side.index.transitiveImpact seedList).mapError fun code ↦
      if code = .resourceLimit then .compare .resourceLimit else .impact code
    let work ← chargeCompare work closure.length
    return (closure.foldl (fun reached id ↦ reached.insert id) reached, work)

/-- The definitions that did not change themselves and depend on one that did. -/
def collateral (baseSide targetSide : Side) (entities : List EntityDelta) (bodies : List BodyDelta)
    (work : Nat) : CompareResult (List EntityId) := do
  let sides := [(baseSide, seeds .removed entities bodies),
    (targetSide, seeds .added entities bodies)]
  let (reached, _) ← sides.foldlM reachCollateral (∅, work)
  return reached.toList.filter fun id ↦
    id ∉ entities.map (·.entityId) ∧ id ∈ baseSide.entities ∧ id ∈ targetSide.entities

/-! ### Encoding -/

def deltaMagic : Bytes := textBytes "SLEYSCB1"

def deltaContractTag : UInt64 := 510

def deltaDomain : Bytes := textBytes "sley2.semantic-delta.v1"

/-- `require_sorted`: the first pair that does not ascend decides. -/
def requireSorted {α κ : Type} [Ord κ] (key : α → κ) : List α → CompareResult Unit
  | a :: b :: items =>
    match compare (key a) (key b) with
    | .lt => requireSorted key (b :: items)
    | .eq => .error (.compare .duplicateEntry)
    | .gt => .error (.compare .canonicalOrder)
  | _ => .ok ()

def scb {α : Type} (x : Scb1.Result α) : CompareResult α := x.mapError .format

/-- `ids_list` and `roots_list`. -/
def idsList {kind : IdKind} (ids : List (Id kind)) : CompareResult Bytes :=
  scb (encodeList (ids.map Id.bytes))

def objectBytes (object : Option ObjectId) : Bytes := object.elim (List.replicate 32 0) Id.bytes

def encodeEntityDelta (entry : EntityDelta) : CompareResult Bytes :=
  scb (encodeRecord [
    (1, entry.entityId.bytes),
    (2, encodeUvar entry.change.tag.toUInt64),
    (3, encodeUvar entry.baseKind.toUInt64),
    (4, encodeUvar entry.targetKind.toUInt64),
    (5, objectBytes entry.baseObject),
    (6, objectBytes entry.targetObject)])

def encodeFieldDelta (entry : FieldDelta) : CompareResult Bytes := do
  requireSorted id entry.added
  requireSorted id entry.removed
  let added ← idsList entry.added
  let removed ← idsList entry.removed
  scb (encodeRecord [
    (1, entry.entityId.bytes),
    (2, encodeUvar entry.kind.toUInt64),
    (3, encodeUvar entry.field.toUInt64),
    (4, encodeUvar entry.flags.toUInt64),
    (5, added),
    (6, removed)])

def encodeBodyDelta (entry : BodyDelta) : CompareResult Bytes :=
  scb (encodeRecord [
    (1, entry.entityId.bytes),
    (2, entry.baseFingerprint.bytes),
    (3, entry.targetFingerprint.bytes),
    (4, encodeUvar entry.baseBlocks.toUInt64),
    (5, encodeUvar entry.targetBlocks.toUInt64),
    (6, encodeUvar entry.baseOperations.toUInt64),
    (7, encodeUvar entry.targetOperations.toUInt64)])

def encodeRelationDelta (entry : RelationDelta) : CompareResult Bytes :=
  scb (encodeRecord [
    (1, entry.dependent.bytes),
    (2, entry.dependency.bytes),
    (3, encodeUvar entry.kind.tag.toUInt64),
    (4, encodeUvar entry.change.tag.toUInt64)])

/-- The payload of a delta. -/
def encodeDeltaPayload (delta : SemanticDelta) : CompareResult Bytes := do
  let entities ← delta.entities.mapM encodeEntityDelta
  let fields ← delta.fields.mapM encodeFieldDelta
  let bodies ← delta.bodies.mapM encodeBodyDelta
  let relations ← delta.relations.mapM encodeRelationDelta
  let entities ← scb (encodeList entities)
  let fields ← scb (encodeList fields)
  let bodies ← scb (encodeList bodies)
  let relations ← scb (encodeList relations)
  let dependencyRootsAdded ← idsList delta.dependencyRootsAdded
  let dependencyRootsRemoved ← idsList delta.dependencyRootsRemoved
  let entryPointsAdded ← idsList delta.entryPointsAdded
  let entryPointsRemoved ← idsList delta.entryPointsRemoved
  let collateral ← idsList delta.collateral
  scb (encodeRecord [
    (1, encodeUvar 1),
    (2, delta.workspaceId.bytes),
    (3, delta.rootSchemaEpoch.bytes),
    (4, delta.baseRoot.bytes),
    (5, delta.targetRoot.bytes),
    (6, entities),
    (7, fields),
    (8, bodies),
    (9, relations),
    (10, dependencyRootsAdded),
    (11, dependencyRootsRemoved),
    (12, entryPointsAdded),
    (13, entryPointsRemoved),
    (14, collateral)])

/-- The sections are sets, in the order of their keys. -/
def requireCanonical (delta : SemanticDelta) : CompareResult Unit := do
  requireSorted (·.entityId) delta.entities
  requireSorted (fun entry ↦ (entry.entityId, entry.kind, entry.field)) delta.fields
  requireSorted (·.entityId) delta.bodies
  requireSorted (fun entry ↦ (entry.dependent, entry.dependency, entry.kind.tag)) delta.relations
  requireSorted id delta.dependencyRootsAdded
  requireSorted id delta.dependencyRootsRemoved
  requireSorted id delta.entryPointsAdded
  requireSorted id delta.entryPointsRemoved
  requireSorted id delta.collateral

variable [Blake3]

/-- `encode_semantic_delta`. -/
def encodeSemanticDelta (delta : SemanticDelta) : CompareResult StoredSemanticDelta := do
  rejectIf (delta.entities.length > maxEntityDeltas ∨
    delta.fields.length > maxFieldDeltas ∨ delta.bodies.length > maxBodyDeltas ∨
    delta.relations.length > maxRelationDeltas ∨
    delta.dependencyRootsAdded.length > maxIdentitySet ∨
    delta.dependencyRootsRemoved.length > maxIdentitySet ∨
    delta.entryPointsAdded.length > maxIdentitySet ∨
    delta.entryPointsRemoved.length > maxIdentitySet ∨
    delta.collateral.length > maxIdentitySet) (.compare .resourceLimit)
  requireCanonical delta
  let payload ← encodeDeltaPayload delta
  let epochId ← ComparisonBasis.deltaEpochId.mapError .compare
  let preimage := deltaMagic ++ encodeUvar 1 ++ encodeUvar deltaContractTag ++ epochId.bytes ++
    encodeCount payload.length ++ payload
  rejectIf (preimage.length + 32 > maxDeltaBytes) (.compare .resourceLimit)
  let deltaId := Blake3.hash (deltaDomain ++ preimage)
  return ⟨deltaId, preimage ++ deltaId.bytes, delta⟩

/-! ### The comparison -/

/-- What is compared of two judged roots. -/
def compareSides (base target : CompleteRootRequest) (baseSide targetSide : Side) :
    CompareResult SemanticDelta := do
  let sections ← entitySections baseSide targetSide
  let (bodies, work) ← bodySection base target baseSide targetSide sections.work
  let (relations, work) ← relationSection baseSide targetSide work
  let (dependencyRootsAdded, dependencyRootsRemoved) :=
    setDifference base.dependencyRoots target.dependencyRoots
  let (entryPointsAdded, entryPointsRemoved) := setDifference base.entryPoints target.entryPoints
  let collateral ← collateral baseSide targetSide sections.entities bodies work
  rejectIf (collateral.length > maxIdentitySet ∨
    dependencyRootsAdded.length > maxIdentitySet ∨
    dependencyRootsRemoved.length > maxIdentitySet ∨
    entryPointsAdded.length > maxIdentitySet ∨
    entryPointsRemoved.length > maxIdentitySet) (.compare .resourceLimit)
  return {
    workspaceId := base.workspaceId
    rootSchemaEpoch := base.schemaEpochId
    baseRoot := base.root
    targetRoot := target.root
    entities := sections.entities
    fields := sections.fields
    bodies
    relations
    dependencyRootsAdded
    dependencyRootsRemoved
    entryPointsAdded
    entryPointsRemoved
    collateral }

/-- `compare_complete_roots`. -/
def compareCompleteRoots (base target : CompleteRootRequest) :
    CompareResult StoredSemanticDelta := do
  let baseSide ← Side.build base
  let targetSide ← Side.build target
  rejectIf (base.workspaceId ≠ target.workspaceId) (.compare .workspaceMismatch)
  rejectIf (base.schemaEpochId ≠ target.schemaEpochId) (.compare .epochMismatch)
  let delta ← compareSides base target baseSide targetSide
  encodeSemanticDelta delta

end Sections

end Sley.Repo
