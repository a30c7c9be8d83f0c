import Sley.Query.Impact

/-!
# Complete roots

The judgment of a complete root (`sley-query/src/complete_root.rs`): rules C1 to C11 over the
definitions of a request and the three facts that its state root records. The first failure is the
result, and every rule charges work. **An accepted request is the bound inventory and has an impact
index** (`inventory_of_judgeCompleteRoot`).
-/

namespace Sley.Query

open Ssmc Mutate
open StateT (run_bind_eq_ok)

/-- Root facts copied from one strictly decoded state root record. -/
structure CompleteRootFacts where
  boundEntities : List EntityId
  entryPoints : List EntityId
  dependencyRoots : List StateRoot

/-- Exact impact index over one complete root. -/
structure CompleteRootIndex where
  index : ImpactIndex
  workspace : EntityId
  boundEntities : Nat
  packages : Nat
  namespaces : Nat

/-! ### Charged judgments -/

/-- A judgment carries the work done so far. -/
abbrev Judge := StateT Nat (Except ImpactErrorCode)

namespace Judge

def charge (amount : Nat) : Judge Unit := fun work ↦ do
  let work ← chargeWork work amount
  return ((), work)

def rejectIf (c : Prop) [Decidable c] (code : ImpactErrorCode) : Judge Unit :=
  StateT.ofExcept (Except.rejectIf c code)

@[simp]
theorem run_rejectIf_eq_ok {c : Prop} [Decidable c] {code : ImpactErrorCode} {work work' : Nat} :
    (rejectIf c code).run work = .ok ((), work') ↔ ¬ c ∧ work' = work := by
  rw [rejectIf, StateT.run_ofExcept_eq_ok, Except.rejectIf_eq_ok]

/-- `require_sorted_unique`. -/
def requireSortedUnique {kind : IdKind} (values : List (Id kind)) : Judge Unit := do
  charge values.length
  rejectIf (¬ values.IsChain fun a b ↦ compare a b = .lt) .setNotCanonical

theorem sorted_of_requireSortedUnique {kind : IdKind} {values : List (Id kind)} {work work' : Nat}
    (h : (requireSortedUnique values).run work = .ok ((), work')) :
    values.Pairwise (compare · · = .lt) := by
  have : IsTrans (Id kind) (compare · · = .lt) := ⟨fun _ _ _ ↦ Std.TransCmp.lt_trans⟩
  obtain ⟨_, _, -, h⟩ := run_bind_eq_ok.1 h
  obtain ⟨hchain, -⟩ := run_rejectIf_eq_ok.1 h
  exact List.isChain_iff_pairwise.1 (not_not.1 hchain)

end Judge

open Judge

/-! ### Rules C1 to C11 -/

/-- Note the kind of a definition; the identities ascend. -/
def noteKind (state : Option EntityId × EntityMap EntityKind) (entity : ImpactEntity) :
    Judge (Option EntityId × EntityMap EntityKind) := do
  charge 1
  Judge.rejectIf (state.1.any fun prior ↦ (compare prior entity.entityId).isGE) .setNotCanonical
  return (some entity.entityId, state.2.insert entity.entityId entity.kind)

/-- C1: the request equals the bound inventory. -/
def requestInventory (entities : List ImpactEntity) (boundEntities : List EntityId) :
    Judge (EntityMap EntityKind) := do
  let (_, kinds) ← entities.foldlM noteKind (none, ∅)
  Judge.rejectIf (entities.map (·.entityId) ≠ boundEntities) .rootInventoryMismatch
  return kinds

/-- The bodies that the later rules read. -/
structure RootBodies where
  workspaces : List (EntityId × WorkspaceBody) := []
  packages : EntityMap PackageBody := ∅
  namespaces : EntityMap NamespaceBody := ∅
  entryPoints : List EntityId := []
  bindings : EntityMap DependencyBindingBody := ∅

/-- Set aside a body; its sets must be canonical. -/
def RootBodies.collect (bodies : RootBodies) (entity : ImpactEntity) : Judge RootBodies :=
  match entity.body with
  | ⟨.workspace, (value : WorkspaceBody)⟩ => do
    requireSortedUnique value.packages.values
    requireSortedUnique value.capabilityRequirements.values
    requireSortedUnique value.contracts.values
    requireSortedUnique value.tests.values
    return { bodies with workspaces := bodies.workspaces ++ [(entity.entityId, value)] }
  | ⟨.package, (value : PackageBody)⟩ => do
    requireSortedUnique value.dependencies.values
    requireSortedUnique value.exports.values
    return { bodies with packages := bodies.packages.insert entity.entityId value }
  | ⟨.namespace_, (value : NamespaceBody)⟩ => do
    requireSortedUnique value.members.values
    return { bodies with namespaces := bodies.namespaces.insert entity.entityId value }
  | ⟨.entryPoint, _⟩ =>
    return { bodies with entryPoints := bodies.entryPoints ++ [entity.entityId] }
  | ⟨.policyBinding, (value : PolicyBindingBody)⟩ => do
    requireSortedUnique value.requirements.values
    return bodies
  | ⟨.dependencyBinding, (value : DependencyBindingBody)⟩ =>
    return { bodies with bindings := bodies.bindings.insert entity.entityId value }
  | _ => return bodies

/-- C3: exactly one workspace. -/
def rootWorkspace : List (EntityId × WorkspaceBody) → Judge (EntityId × WorkspaceBody)
  | [] => StateT.ofExcept (.error .rootWorkspaceMissing)
  | [workspace] => return workspace
  | _ => StateT.ofExcept (.error .rootWorkspaceAmbiguous)

section Rules

variable (workspace : EntityId × WorkspaceBody) (packages : EntityMap PackageBody)
  (namespaces : EntityMap NamespaceBody)

/-- C4: the workspace lists the packages, and they name it. -/
def packageMembership : Judge Unit := do
  charge packages.size
  Judge.rejectIf (workspace.2.packages.values ≠ packages.keys ∨
    packages.values.any (·.workspace ≠ workspace.1)) .rootPackageMembership

/-- A declared root is a namespace without a parent, and no other declaration names it. -/
def declareRoot (roots : EntitySet) (root : EntityId) : Judge EntitySet := do
  charge 1
  let namespace_ ← StateT.ofExcept (Except.ofOption .rootNamespaceRoot namespaces[root]?)
  Judge.rejectIf (namespace_.parent.isSome ∨ root ∈ roots) .rootNamespaceRoot
  return roots.insert root

/-- C5: the declared roots are the namespaces without a parent. -/
def namespaceRoots : Judge Unit := do
  let declared := workspace.2.rootNamespace :: packages.values.map (·.rootNamespace)
  let roots ← declared.foldlM (declareRoot namespaces) ∅
  namespaces.toList.forM fun (id, namespace_) ↦ do
    charge 1
    Judge.rejectIf (namespace_.parent = none ∧ id ∉ roots) .rootNamespaceRoot

/-- Follow the parents, `steps` times at most. -/
def parentChain : Nat → Option EntityId → Judge Unit
  | _, none => return
  | steps, some parent => do
    charge 1
    match steps with
    | 0 => StateT.ofExcept (.error .rootNamespaceTree)
    | steps + 1 =>
      let namespace_ ← StateT.ofExcept (Except.ofOption .rootNamespaceTree namespaces[parent]?)
      parentChain steps namespace_.parent

/-- C6 of one namespace: its parent lists it, its children name it, and its parents end. -/
def namespaceLinks (id : EntityId) (namespace_ : NamespaceBody) : Judge Unit := do
  charge 1
  if let some parent := namespace_.parent then
    let parentNamespace ← StateT.ofExcept
      (Except.ofOption .rootNamespaceTree namespaces[parent]?)
    Judge.rejectIf (id ∉ parentNamespace.members.values) .rootNamespaceTree
  namespace_.members.values.forM fun member ↦ do
    charge 1
    Judge.rejectIf (namespaces[member]?.any (·.parent ≠ some id)) .rootNamespaceTree
  parentChain namespaces namespaces.size namespace_.parent

/-- A kind that is not a member of a namespace. -/
def isUnlisted (kind : EntityKind) : Bool :=
  kind ∈ [.workspace, .package, .parameter, .block, .operation, .dependencyBinding]

/-- Note the namespace of a member; it has no other. -/
def ownMember (kinds : EntityMap EntityKind) (namespace_ : EntityId)
    (ownerOf : EntityMap EntityId) (member : EntityId) : Judge (EntityMap EntityId) := do
  charge 1
  let kind ← StateT.ofExcept (Except.ofOption .unresolvedEntity kinds[member]?)
  Judge.rejectIf (isUnlisted kind ∨ member ∈ ownerOf) .rootMemberOwnership
  return ownerOf.insert member namespace_

/-- C7: single membership and member kinds. -/
def memberOwners (kinds : EntityMap EntityKind) : Judge (EntityMap EntityId) :=
  namespaces.toList.foldlM (fun ownerOf (id, namespace_) ↦
    namespace_.members.values.foldlM (ownMember kinds id) ownerOf) ∅

/-- Queue a member that is a new namespace of the tree. -/
def growTree (tree : Traversal) (member : EntityId) : Except ImpactErrorCode Traversal := do
  let work ← chargeWork tree.work 1
  if member ∈ namespaces ∧ member ∉ tree.visited then
    return ⟨tree.visited.insert member, tree.queue ++ [member], work⟩
  else
    return { tree with work }

theorem work_le_of_growTree {tree tree' : Traversal} {member : EntityId}
    (h : growTree namespaces tree member = .ok tree') : tree.work ≤ tree'.work := by
  simp only [growTree, Except.bind_eq_ok, chargeWork_eq_ok] at h
  obtain ⟨work, ⟨rfl, -⟩, h⟩ := h
  split at h
  all_goals
    obtain rfl := Except.pure_eq_ok.1 h
    exact Nat.le_succ _

/-- The members of a namespace that was taken from the queue are added to the tree. -/
def treeServer : Traversal.Server where
  serve tree current := do
    let work ← chargeWork tree.work 1
    let namespace_ ← Except.ofOption .rootNamespaceTree namespaces[current]?
    namespace_.members.values.foldlM (growTree namespaces) { tree with work }
  work_lt h := by
    simp only [Except.bind_eq_ok, chargeWork_eq_ok] at h
    obtain ⟨work, ⟨rfl, hmax⟩, namespace_, -, h⟩ := h
    exact ⟨Traversal.work_le_of_foldlM (work_le_of_growTree namespaces) h, hmax⟩

/-- `namespace_tree`: the namespaces below a root, and the root. -/
def namespaceTree (root : EntityId) : Judge EntitySet := fun work ↦ do
  let tree ← (treeServer namespaces).run ⟨(∅ : EntitySet).insert root, [root], work⟩
  return (tree.visited, tree.work)

/-- C8: the exports of a package are members of its tree. -/
def packageExports (ownerOf : EntityMap EntityId) (trees : EntityMap EntitySet)
    (package : EntityId × PackageBody) : Judge (EntityMap EntitySet) := do
  let tree ← namespaceTree namespaces package.2.rootNamespace
  package.2.exports.values.forM fun exported ↦ do
    charge 1
    Judge.rejectIf (¬ ownerOf[exported]?.any (· ∈ tree)) .rootExportUnscoped
  return trees.insert package.1 tree

/-- C10: the roots that the bindings declare are the recorded ones. -/
def declaredDependencyRoots (bindings : EntityMap DependencyBindingBody)
    (dependencyRoots : List StateRoot) : Judge Unit := do
  let declared := bindings.values.map (·.dependencyRoot)
  charge declared.length
  let sorted := (declared.insertionSort fun a b ↦ (compare a b).isLE).destutter (· ≠ ·)
  Judge.rejectIf (sorted ≠ dependencyRoots) .rootDependencyRootsMismatch

/-- Note the package of a dependency binding; it has no other. -/
def ownBinding (package : EntityId) (bindingOwner : EntityMap EntityId) (dependency : EntityId) :
    Judge (EntityMap EntityId) := do
  charge 1
  Judge.rejectIf (dependency ∈ bindingOwner) .rootDependencyBindingUnowned
  return bindingOwner.insert dependency package

/-- C11: every binding is owned by one package and bound into its tree. -/
def bindingOwners (bindings : EntityMap DependencyBindingBody) (trees : EntityMap EntitySet) :
    Judge Unit := do
  let bindingOwner ← packages.toList.foldlM (fun bindingOwner (id, package) ↦
    package.dependencies.values.foldlM (ownBinding id) bindingOwner) ∅
  bindings.toList.forM fun (id, binding) ↦ do
    charge 1
    Judge.rejectIf (¬ bindingOwner[id]?.any fun owner ↦
      trees[owner]?.any (binding.localNamespace ∈ ·)) .rootDependencyBindingUnowned

end Rules

/-- The rules from C3 on: what they say of the inventory and its index. -/
def judgeBodies (bodies : RootBodies) (kinds : EntityMap EntityKind) (facts : CompleteRootFacts) :
    Judge (EntityId × WorkspaceBody) := do
  let workspace ← rootWorkspace bodies.workspaces
  packageMembership workspace bodies.packages
  namespaceRoots workspace bodies.packages bodies.namespaces
  bodies.namespaces.toList.forM fun (id, namespace_) ↦
    namespaceLinks bodies.namespaces id namespace_
  let ownerOf ← memberOwners bodies.namespaces kinds
  let trees ← bodies.packages.toList.foldlM (packageExports bodies.namespaces ownerOf) ∅
  -- C9: the entry points
  charge bodies.entryPoints.length
  Judge.rejectIf (bodies.entryPoints ≠ facts.entryPoints) .rootEntryPointsMismatch
  declaredDependencyRoots bodies.bindings facts.dependencyRoots
  bindingOwners bodies.packages bodies.bindings trees
  return workspace

/-- The judgment, with the work it charges. -/
def judge (entities : List ImpactEntity) (facts : CompleteRootFacts) : Judge CompleteRootIndex := do
  Judge.rejectIf (entities.length > maxImpactEntities ∨
    facts.boundEntities.length > maxImpactEntities) .resourceLimit
  requireSortedUnique facts.boundEntities
  requireSortedUnique facts.entryPoints
  requireSortedUnique facts.dependencyRoots
  let kinds ← requestInventory entities facts.boundEntities
  let bodies ← entities.foldlM RootBodies.collect {}
  -- C2: every edge resolves with the required kind
  let index ← StateT.ofExcept (ImpactIndex.build entities)
  let workspace ← judgeBodies bodies kinds facts
  return {
    index
    workspace := workspace.1
    boundEntities := entities.length
    packages := bodies.packages.size
    namespaces := bodies.namespaces.size }

/-- `judge_complete_root`. -/
def judgeCompleteRoot (entities : List ImpactEntity) (facts : CompleteRootFacts) :
    Except ImpactErrorCode CompleteRootIndex :=
  (judge entities facts).run' 0

/-- What every accepted request satisfies: its definitions are those of the bound identities, which
ascend, and they have an index. -/
theorem inventory_of_judgeCompleteRoot {entities : List ImpactEntity} {facts : CompleteRootFacts}
    {result : CompleteRootIndex} (h : judgeCompleteRoot entities facts = .ok result) :
    entities.map (·.entityId) = facts.boundEntities ∧
      facts.boundEntities.Pairwise (compare · · = .lt) ∧
      ImpactIndex.build entities = .ok result.index := by
  rw [judgeCompleteRoot, StateT.run', Except.map_eq_ok] at h
  obtain ⟨⟨_, work⟩, h, rfl⟩ := h
  obtain ⟨_, work₁, -, h⟩ := run_bind_eq_ok.1 h
  obtain ⟨_, work₂, hbound, h⟩ := run_bind_eq_ok.1 h
  obtain ⟨_, work₃, -, h⟩ := run_bind_eq_ok.1 h
  obtain ⟨_, work₄, -, h⟩ := run_bind_eq_ok.1 h
  obtain ⟨kinds, work₅, hkinds, h⟩ := run_bind_eq_ok.1 h
  obtain ⟨bodies, work₆, -, h⟩ := run_bind_eq_ok.1 h
  obtain ⟨index, work₇, hindex, h⟩ := run_bind_eq_ok.1 h
  obtain ⟨workspace, work₈, -, h⟩ := run_bind_eq_ok.1 h
  obtain ⟨rfl, -⟩ := StateT.run_pure_eq_ok.1 h
  obtain ⟨⟨_, _⟩, work₉, -, hkinds⟩ := run_bind_eq_ok.1 hkinds
  obtain ⟨_, work₁₀, hids, -⟩ := run_bind_eq_ok.1 hkinds
  obtain ⟨hids, -⟩ := run_rejectIf_eq_ok.1 hids
  exact ⟨not_not.1 hids, sorted_of_requireSortedUnique hbound,
    (StateT.run_ofExcept_eq_ok.1 hindex).1⟩

end Sley.Query
