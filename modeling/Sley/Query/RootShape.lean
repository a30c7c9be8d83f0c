import Sley.Lib.Failures
import Sley.Lib.Forest
import Sley.Query.CompleteRoot
import Sley.Query.TransitiveImpact

/-!
# The shape of a complete root

What the rules of a complete root say together. The rules look at the roots, at the parents and at
the member lists in separate passes; **in an accepted request the three agree** (`RootShape`): the
namespaces are a forest under the declared roots, and the search along the members finds the
namespaces whose parents end at the root it started from.
-/

namespace Sley.Query

open Ssmc Mutate Judge
open Except hiding ok error
open StateT (exists_of_forM run_bind_eq_ok run_foldlM run_ofExcept_eq_ok run_pure_eq_ok)
open EntityMap (mem_iff_exists values_eq)

/-! ### The bodies of a request -/

namespace ImpactEntity

def workspace? : ImpactEntity → Option (EntityId × WorkspaceBody)
  | ⟨id, ⟨.workspace, value⟩⟩ => some (id, value)
  | _ => none

def package? : ImpactEntity → Option (EntityId × PackageBody)
  | ⟨id, ⟨.package, value⟩⟩ => some (id, value)
  | _ => none

def namespace? : ImpactEntity → Option (EntityId × NamespaceBody)
  | ⟨id, ⟨.namespace_, value⟩⟩ => some (id, value)
  | _ => none

def entryPoint? : ImpactEntity → Option EntityId
  | ⟨id, ⟨.entryPoint, _⟩⟩ => some id
  | _ => none

def dependencyBinding? : ImpactEntity → Option (EntityId × DependencyBindingBody)
  | ⟨id, ⟨.dependencyBinding, value⟩⟩ => some (id, value)
  | _ => none

end ImpactEntity

namespace RootBodies

/-- The bodies of a request, by kind. -/
def ofEntities (entities : List ImpactEntity) : RootBodies where
  workspaces := entities.filterMap (·.workspace?)
  packages := .ofEntries (entities.filterMap (·.package?))
  namespaces := .ofEntries (entities.filterMap (·.namespace?))
  entryPoints := entities.filterMap (·.entryPoint?)
  bindings := .ofEntries (entities.filterMap (·.dependencyBinding?))

/-- Add the bodies of more entities. -/
def addAll (bodies : RootBodies) (entities : List ImpactEntity) : RootBodies where
  workspaces := bodies.workspaces ++ entities.filterMap (·.workspace?)
  packages := bodies.packages.insertMany (entities.filterMap (·.package?))
  namespaces := bodies.namespaces.insertMany (entities.filterMap (·.namespace?))
  entryPoints := bodies.entryPoints ++ entities.filterMap (·.entryPoint?)
  bindings := bodies.bindings.insertMany (entities.filterMap (·.dependencyBinding?))

theorem addAll_nil (bodies : RootBodies) : bodies.addAll [] = bodies := by
  simp [addAll]

theorem addAll_append (bodies : RootBodies) (entities entities' : List ImpactEntity) :
    bodies.addAll (entities ++ entities') = (bodies.addAll entities).addAll entities' := by
  simp [addAll, Std.ExtTreeMap.insertMany_append]

theorem addAll_empty (entities : List ImpactEntity) :
    ({} : RootBodies).addAll entities = ofEntities entities := by
  simp [addAll, ofEntities, EntityMap.ofEntries, Std.ExtTreeMap.ofList_eq_insertMany_empty]

variable {bodies bodies' : RootBodies} {entity : ImpactEntity} {work work' : Nat}

/-- What is set aside is the body, whatever the kind. -/
theorem collect_eq_ok (h : (bodies.collect entity).run work = .ok (bodies', work')) :
    bodies' = bodies.addAll [entity] := by
  obtain ⟨id, kind, value⟩ := entity
  cases kind
  case workspace =>
    obtain ⟨_, _, -, h⟩ := run_bind_eq_ok.1 h
    obtain ⟨_, _, -, h⟩ := run_bind_eq_ok.1 h
    obtain ⟨_, _, -, h⟩ := run_bind_eq_ok.1 h
    obtain ⟨_, _, -, h⟩ := run_bind_eq_ok.1 h
    obtain ⟨rfl, -⟩ := run_pure_eq_ok.1 h
    simp [addAll, ImpactEntity.workspace?, ImpactEntity.package?, ImpactEntity.namespace?,
      ImpactEntity.entryPoint?, ImpactEntity.dependencyBinding?]
  case package =>
    obtain ⟨_, _, -, h⟩ := run_bind_eq_ok.1 h
    obtain ⟨_, _, -, h⟩ := run_bind_eq_ok.1 h
    obtain ⟨rfl, -⟩ := run_pure_eq_ok.1 h
    simp [addAll, ImpactEntity.workspace?, ImpactEntity.package?, ImpactEntity.namespace?,
      ImpactEntity.entryPoint?, ImpactEntity.dependencyBinding?]
  case namespace_ | policyBinding =>
    obtain ⟨_, _, -, h⟩ := run_bind_eq_ok.1 h
    obtain ⟨rfl, -⟩ := run_pure_eq_ok.1 h
    simp [addAll, ImpactEntity.workspace?, ImpactEntity.package?, ImpactEntity.namespace?,
      ImpactEntity.entryPoint?, ImpactEntity.dependencyBinding?]
  all_goals
    obtain ⟨rfl, -⟩ := run_pure_eq_ok.1 h
    simp [addAll, ImpactEntity.workspace?, ImpactEntity.package?, ImpactEntity.namespace?,
      ImpactEntity.entryPoint?, ImpactEntity.dependencyBinding?]

/-- **The bodies that are set aside are those of the request.** -/
theorem eq_ofEntities {entities : List ImpactEntity}
    (h : (entities.foldlM collect {}).run work = .ok (bodies, work')) :
    bodies = ofEntities entities := by
  suffices hall : ∀ (entities : List ImpactEntity) (start : RootBodies) (work : Nat),
      (entities.foldlM collect start).run work = .ok (bodies, work') →
        bodies = start.addAll entities by
    rw [hall entities {} work h, addAll_empty]
  intro entities
  induction entities with
  | nil =>
    intro start work h
    obtain ⟨rfl, -⟩ := run_pure_eq_ok.1 h
    exact (addAll_nil _).symm
  | cons entity entities ih =>
    intro start work h
    rw [List.foldlM_cons, run_bind_eq_ok] at h
    obtain ⟨next, work₁, hentity, hentities⟩ := h
    rw [ih next work₁ hentities, collect_eq_ok hentity, ← addAll_append, List.singleton_append]

end RootBodies

/-! ### Parents and members -/

/-- The parent of a namespace. -/
def parentOf (namespaces : EntityMap NamespaceBody) (id : EntityId) : Option EntityId :=
  namespaces[id]?.bind (·.parent)

/-- The namespace has the member. -/
def Lists (namespaces : EntityMap NamespaceBody) (id member : EntityId) : Prop :=
  ∃ body, namespaces[id]? = some body ∧ member ∈ body.members.values

/-- The tree of a root: the namespaces whose parents end there. -/
def treeOf (namespaces : EntityMap NamespaceBody) (root : EntityId) : Set EntityId :=
  {id | EndsAt (parentOf namespaces) id root}

/-- The package owns the binding. -/
def Owns (packages : EntityMap PackageBody) (id binding : EntityId) : Prop :=
  ∃ package : PackageBody, packages[id]? = some package ∧ binding ∈ package.dependencies.values

/-- The roots that the workspace and the packages declare. -/
def declaredRoots (workspace : EntityId × WorkspaceBody) (packages : EntityMap PackageBody) :
    List EntityId :=
  workspace.2.rootNamespace :: packages.values.map (·.rootNamespace)

section Rules

variable {workspace : EntityId × WorkspaceBody} {packages : EntityMap PackageBody}
  {namespaces : EntityMap NamespaceBody} {work work' : Nat} {id id' root : EntityId}

theorem parentOf_eq {body : NamespaceBody} (h : namespaces[id]? = some body) :
    parentOf namespaces id = body.parent := by
  rw [parentOf, h]
  rfl

theorem exists_of_parentOf (h : parentOf namespaces id = some id') :
    ∃ body, namespaces[id]? = some body ∧ body.parent = some id' :=
  Option.bind_eq_some_iff.1 h

/-- What ends at a namespace is one. -/
theorem mem_of_endsAt (h : EndsAt (parentOf namespaces) id root) (hroot : root ∈ namespaces) :
    id ∈ namespaces := by
  obtain rfl | ⟨_, hparent, -⟩ := h.1.cases_head
  · exact hroot
  · obtain ⟨body, hbody, -⟩ := exists_of_parentOf hparent
    exact mem_iff_exists.2 ⟨body, hbody⟩

theorem declareRoot_eq_ok {roots roots' : EntitySet}
    (h : (declareRoot namespaces roots root).run work = .ok (roots', work')) :
    (∃ body, namespaces[root]? = some body ∧ body.parent = none) ∧ root ∉ roots ∧
      roots' = roots.insert root := by
  obtain ⟨_, _, -, h⟩ := run_bind_eq_ok.1 h
  obtain ⟨body, _, hbody, h⟩ := run_bind_eq_ok.1 h
  obtain ⟨hbody, -⟩ := run_ofExcept_eq_ok.1 hbody
  obtain ⟨_, _, hfree, h⟩ := run_bind_eq_ok.1 h
  obtain ⟨hfree, -⟩ := run_rejectIf_eq_ok.1 hfree
  obtain ⟨rfl, -⟩ := run_pure_eq_ok.1 h
  rw [not_or, Bool.not_eq_true, Option.isSome_eq_false_iff, Option.isNone_iff_eq_none] at hfree
  exact ⟨⟨body, ofOption_eq_ok.1 hbody, hfree.1⟩, hfree.2, rfl⟩

/-- **The declared roots are distinct, and are the namespaces without a parent.** -/
theorem roots_of_namespaceRoots
    (h : (namespaceRoots workspace packages namespaces).run work = .ok ((), work')) :
    (declaredRoots workspace packages).Nodup ∧ ∀ id, id ∈ declaredRoots workspace packages ↔
      ∃ body, namespaces[id]? = some body ∧ body.parent = none := by
  obtain ⟨roots, work₁, hroots, h⟩ := run_bind_eq_ok.1 h
  rw [run_foldlM] at hroots
  obtain ⟨hnodup, -, hmem⟩ := foldlM_fresh
    (fun (state : EntitySet × Nat) (root : EntityId) state' hstep ↦ by
      obtain ⟨-, hnew, hinsert⟩ := declareRoot_eq_ok hstep
      show root ∉ state.1 ∧ ∀ id, id ∈ state'.1 ↔ id ∈ state.1 ∨ id = root
      refine ⟨hnew, fun id ↦ ?_⟩
      rw [hinsert, EntitySet.mem_insert_iff, or_comm]) hroots
  rw [List.map_id'] at hnodup hmem
  refine ⟨hnodup, fun id ↦ ⟨fun hid ↦ ?_, ?_⟩⟩
  · obtain ⟨state, state', hstep⟩ := exists_of_foldlM_eq_ok hroots hid
    exact (declareRoot_eq_ok hstep).1
  · rintro ⟨body, hbody, hparent⟩
    obtain ⟨work₂, work₃, hid⟩ := exists_of_forM h
      (Std.ExtTreeMap.mem_toList_iff_getElem?_eq_some.2 hbody)
    obtain ⟨_, _, -, hid⟩ := run_bind_eq_ok.1 hid
    obtain ⟨hdeclared, -⟩ := run_rejectIf_eq_ok.1 hid
    have := (hmem id).1 (not_not.1 fun hroot ↦ hdeclared ⟨hparent, hroot⟩)
    exact this.resolve_left Std.ExtTreeSet.not_mem_empty

/-- The parents that were followed end, and at a namespace. -/
theorem endsAt_of_parentChain {steps : Nat} {parent : EntityId}
    (h : (parentChain namespaces steps (some parent)).run work = .ok ((), work')) :
    ∃ root ∈ namespaces, EndsAt (parentOf namespaces) parent root := by
  induction steps generalizing work parent with
  | zero =>
    obtain ⟨_, _, -, h⟩ := run_bind_eq_ok.1 h
    cases (run_ofExcept_eq_ok.1 h).1
  | succ steps ih =>
    obtain ⟨_, _, -, h⟩ := run_bind_eq_ok.1 h
    obtain ⟨body, work₁, hbody, h⟩ := run_bind_eq_ok.1 h
    obtain ⟨hbody, -⟩ := run_ofExcept_eq_ok.1 hbody
    rw [ofOption_eq_ok] at hbody
    cases hparent : body.parent with
    | none =>
      exact ⟨parent, mem_iff_exists.2 ⟨body, hbody⟩,
        .refl ((parentOf_eq hbody).trans hparent)⟩
    | some next =>
      rw [hparent] at h
      obtain ⟨root, hroot, hends⟩ := ih h
      exact ⟨root, hroot, hends.head ((parentOf_eq hbody).trans hparent)⟩

/-- What C6 says of the namespaces: the parents and the members agree, and the parents end. -/
structure Linked (namespaces : EntityMap NamespaceBody) : Prop where
  lists_iff : ∀ id ∈ namespaces, ∀ owner,
    Lists namespaces owner id ↔ parentOf namespaces id = some owner
  endsAt : ∀ id ∈ namespaces, ∃ root ∈ namespaces, EndsAt (parentOf namespaces) id root

theorem namespaceLinks_eq_ok {body : NamespaceBody} (hbody : namespaces[id]? = some body)
    (h : (namespaceLinks namespaces id body).run work = .ok ((), work')) :
    (∀ owner, parentOf namespaces id = some owner → Lists namespaces owner id) ∧
      (∀ member ∈ namespaces, member ∈ body.members.values → parentOf namespaces member = some id) ∧
      ∃ root ∈ namespaces, EndsAt (parentOf namespaces) id root := by
  have hmem : id ∈ namespaces := mem_iff_exists.2 ⟨body, hbody⟩
  obtain ⟨_, _, -, h⟩ := run_bind_eq_ok.1 h
  have hmembers : ∀ {work work' : Nat} {member : EntityId} {child : NamespaceBody},
      (body.members.values.forM fun member ↦ do
        charge 1
        Judge.rejectIf (namespaces[member]?.any (·.parent ≠ some id))
          .rootNamespaceTree : Judge Unit).run work = .ok ((), work') →
      namespaces[member]? = some child → member ∈ body.members.values →
        parentOf namespaces member = some id := by
    intro work work' member child hforM hchild hmember
    obtain ⟨_, _, hone⟩ := exists_of_forM hforM hmember
    obtain ⟨_, _, -, hone⟩ := run_bind_eq_ok.1 hone
    obtain ⟨hparent, -⟩ := run_rejectIf_eq_ok.1 hone
    rw [hchild] at hparent
    rw [parentOf_eq hchild]
    simpa using hparent
  cases hparent : body.parent with
  | none =>
    rw [hparent] at h
    obtain ⟨_, _, hforM, -⟩ := run_bind_eq_ok.1 h
    refine ⟨fun owner howner ↦ ?_, fun member hmember hlisted ↦ ?_, id, hmem,
      .refl ((parentOf_eq hbody).trans hparent)⟩
    · rw [parentOf_eq hbody, hparent] at howner
      cases howner
    · obtain ⟨child, hchild⟩ := mem_iff_exists.1 hmember
      exact hmembers hforM hchild hlisted
  | some parent =>
    rw [hparent] at h
    obtain ⟨parentBody, _, hparentBody, h⟩ := run_bind_eq_ok.1 h
    obtain ⟨hparentBody, -⟩ := run_ofExcept_eq_ok.1 hparentBody
    obtain ⟨_, _, hlisted, h⟩ := run_bind_eq_ok.1 h
    obtain ⟨hlisted, -⟩ := run_rejectIf_eq_ok.1 hlisted
    obtain ⟨_, _, hforM, h⟩ := run_bind_eq_ok.1 h
    obtain ⟨root, hroot, hends⟩ := endsAt_of_parentChain h
    refine ⟨fun owner howner ↦ ?_, fun member hmember hlisted ↦ ?_, root, hroot,
      hends.head ((parentOf_eq hbody).trans hparent)⟩
    · rw [parentOf_eq hbody, hparent] at howner
      obtain rfl := Option.some.inj howner
      exact ⟨parentBody, ofOption_eq_ok.1 hparentBody, not_not.1 hlisted⟩
    · obtain ⟨child, hchild⟩ := mem_iff_exists.1 hmember
      exact hmembers hforM hchild hlisted

theorem linked_of_namespaceLinks
    (h : (namespaces.toList.forM fun (id, body) ↦ namespaceLinks namespaces id body).run work =
      .ok ((), work')) : Linked namespaces := by
  have hlinks : ∀ {id body}, namespaces[id]? = some body → ∃ work work',
      (namespaceLinks namespaces id body).run work = .ok ((), work') := fun hbody ↦
    exists_of_forM h (Std.ExtTreeMap.mem_toList_iff_getElem?_eq_some.2 hbody)
  refine ⟨fun id hid owner ↦ ⟨?_, fun hparent ↦ ?_⟩, fun id hid ↦ ?_⟩
  · rintro ⟨body, hbody, hlisted⟩
    obtain ⟨_, _, hlink⟩ := hlinks hbody
    exact (namespaceLinks_eq_ok hbody hlink).2.1 id hid hlisted
  · obtain ⟨body, hbody, -⟩ := exists_of_parentOf hparent
    obtain ⟨_, _, hlink⟩ := hlinks hbody
    exact (namespaceLinks_eq_ok hbody hlink).1 owner hparent
  · obtain ⟨body, hbody⟩ := mem_iff_exists.1 hid
    obtain ⟨_, _, hlink⟩ := hlinks hbody
    exact (namespaceLinks_eq_ok hbody hlink).2.2

end Rules

/-! ### The tree of a root -/

section Tree

variable {namespaces : EntityMap NamespaceBody} {work work' : Nat} {id root : EntityId}
  {tree tree' : Traversal}

/-- The namespaces among the members. -/
def children (namespaces : EntityMap NamespaceBody) (id : EntityId) : Set EntityId :=
  {member | member ∈ namespaces ∧ Lists namespaces id member}

theorem Linked.mem_children_iff (h : Linked namespaces) (id member : EntityId) :
    member ∈ children namespaces id ↔ parentOf namespaces member = some id := by
  constructor
  · rintro ⟨hmember, hlists⟩
    exact (h.lists_iff member hmember id).1 hlists
  · intro hparent
    obtain ⟨body, hbody, -⟩ := exists_of_parentOf hparent
    have hmember : member ∈ namespaces := mem_iff_exists.2 ⟨body, hbody⟩
    exact ⟨hmember, (h.lists_iff member hmember id).2 hparent⟩

theorem finds_of_growTree {member : EntityId}
    (h : growTree namespaces tree member = .ok tree') :
    ∃ found, tree.Finds ([member].filter (· ∈ namespaces)) tree' found := by
  simp only [growTree, bind_eq_ok] at h
  obtain ⟨work, -, h⟩ := h
  by_cases hmember : member ∈ namespaces
  · rw [List.filter_cons_of_pos (by simpa using hmember), List.filter_nil]
    by_cases hvisited : member ∈ tree.visited
    · rw [if_neg fun hnew ↦ hnew.2 hvisited] at h
      obtain rfl := pure_eq_ok.1 h
      exact ⟨[], .known hvisited work⟩
    · rw [if_pos ⟨hmember, hvisited⟩] at h
      obtain rfl := pure_eq_ok.1 h
      exact ⟨[member], .new hvisited work⟩
  · rw [List.filter_cons_of_neg (by simpa using hmember), List.filter_nil]
    rw [if_neg fun hnew ↦ hmember hnew.1] at h
    obtain rfl := pure_eq_ok.1 h
    exact ⟨[], .idle tree work⟩

theorem finds_of_foldlM_growTree {members : List EntityId}
    (h : members.foldlM (growTree namespaces) tree = .ok tree') :
    ∃ found, tree.Finds (members.filter (· ∈ namespaces)) tree' found := by
  induction members generalizing tree with
  | nil =>
    obtain rfl := pure_eq_ok.1 h
    exact ⟨[], .refl _⟩
  | cons member members ih =>
    rw [List.foldlM_cons, bind_eq_ok] at h
    obtain ⟨next, hmember, hmembers⟩ := h
    obtain ⟨found, hfound⟩ := finds_of_growTree hmember
    obtain ⟨found', hfound'⟩ := ih hmembers
    refine ⟨found ++ found', ?_⟩
    rw [← List.singleton_append, List.filter_append]
    exact hfound.trans hfound'

/-- The errors that are not about resources. -/
def notResource : Set ImpactErrorCode := {code | code ≠ .resourceLimit}

theorem chargeWork_avoids (work amount : Nat) : (chargeWork work amount).Avoids notResource := by
  rw [chargeWork_eq]
  split
  · exact avoids_ok _
  · exact avoids_error_iff.2 fun h ↦ h rfl

theorem growTree_avoids (tree : Traversal) (member : EntityId) :
    (growTree namespaces tree member).Avoids notResource := by
  refine (chargeWork_avoids _ _).bind fun work _ ↦ ?_
  split <;> exact avoids_pure _

/-- A namespace is served, unless the work is too much. -/
theorem serve_avoids (hid : id ∈ namespaces) :
    ((treeServer namespaces).serve tree id).Avoids notResource := by
  refine (chargeWork_avoids _ _).bind fun work _ ↦ ?_
  refine (avoids_ofOption fun _ ↦ ?_).bind fun body _ ↦ ?_
  · rwa [← Std.ExtTreeMap.mem_iff_isSome_getElem?]
  · exact Except.Avoids.foldlM (fun _ _ ↦ True) trivial (fun _ _ _ _ _ _ _ _ ↦ trivial)
      fun _ member _ tree _ _ ↦ growTree_avoids tree member

/-- A tree on its way. -/
structure Growing (namespaces : EntityMap NamespaceBody) (root : EntityId) (tree : Traversal)
    (done : Set EntityId) : Prop where
  closing : Closing (children namespaces) {root} done tree.queue
  mem_visited : ∀ id, id ∈ tree.visited ↔ id ∈ done ∨ id ∈ tree.queue

/-- Serving the first of the queue grows the tree by its children. -/
theorem Growing.serve {done : Set EntityId} {queue : List EntityId}
    (h : Growing namespaces root tree done) (hqueue : tree.queue = id :: queue)
    (hserve : (treeServer namespaces).serve { tree with queue } id = .ok tree') :
    Growing namespaces root tree' (insert id done) := by
  obtain ⟨hclosing, hvisited⟩ := h
  rw [hqueue] at hclosing hvisited
  obtain ⟨work, -, hserve⟩ := bind_eq_ok.1 hserve
  obtain ⟨body, hbody, hserve⟩ := bind_eq_ok.1 hserve
  rw [ofOption_eq_ok] at hbody
  obtain ⟨found, hfound⟩ := finds_of_foldlM_growTree hserve
  have hcandidates : ∀ member, member ∈ body.members.values.filter (· ∈ namespaces) ↔
      member ∈ children namespaces id := by
    intro member
    rw [List.mem_filter, decide_eq_true_eq, and_comm]
    refine and_congr_right fun _ ↦ ⟨fun hmember ↦ ⟨body, hbody, hmember⟩, ?_⟩
    rintro ⟨body', hbody', hmember⟩
    rw [hbody] at hbody'
    exact Option.some.inj hbody' ▸ hmember
  obtain ⟨hclosing', hvisited'⟩ := hfound.closing rfl hclosing hvisited hcandidates
  exact ⟨hclosing', hvisited'⟩

/-- **The tree of a root.** The search along the members finds the namespaces whose parents end at
the root, and only the limit on the work can stop it. -/
theorem namespaceTree_exact (h : Linked namespaces) (hroot : root ∈ namespaces)
    (hparent : parentOf namespaces root = none) :
    (∀ tree work', (namespaceTree namespaces root).run work = .ok (tree, work') →
      ∀ id, id ∈ tree ↔ EndsAt (parentOf namespaces) id root) ∧
    ((namespaceTree namespaces root).run work).Avoids notResource := by
  have hreachable : reachable (children namespaces) {root} =
      {id | EndsAt (parentOf namespaces) id root} :=
    reachable_eq_endsAt h.mem_children_iff hparent
  have hstart : Growing namespaces root ⟨(∅ : EntitySet).insert root, [root], work⟩ ∅ := by
    refine ⟨?_, fun id ↦ ?_⟩
    · have hclosing : Closing (children namespaces) {id | id ∈ [root]} ∅ [root] := Closing.start
      simpa using hclosing
    · rw [EntitySet.mem_insert_iff, Set.mem_empty_iff_false, List.mem_singleton, false_or]
      exact or_iff_left Std.ExtTreeSet.not_mem_empty
  have hrun := (treeServer namespaces).run_rule
    (P := fun tree ↦ ∃ done, Growing namespaces root tree done)
    (Q := fun outcome ↦ outcome.Avoids notResource ∧ ∀ tree, outcome = .ok tree →
      ∀ id, id ∈ tree.visited ↔ EndsAt (parentOf namespaces) id root) ?_ ?_ ?_ ⟨∅, hstart⟩
  · refine ⟨fun tree work' htree id ↦ ?_, hrun.1.bind fun _ _ ↦ avoids_pure _⟩
    obtain ⟨end_, hend, htree⟩ := bind_eq_ok.1 htree
    obtain ⟨rfl, -⟩ := Prod.mk.inj (pure_eq_ok.1 htree)
    exact hrun.2 end_ hend id
  · rintro tree ⟨done, hclosing, hvisited⟩ hqueue
    refine ⟨avoids_ok _, ?_⟩
    rintro _ ⟨⟩ id
    rw [hqueue] at hclosing hvisited
    rw [hvisited, hclosing.eq_reachable, hreachable]
    simp
  · rintro tree id queue code ⟨done, hclosing, -⟩ hqueue hcode
    refine ⟨?_, fun _ hok ↦ by cases hok⟩
    have hid : id ∈ reachable (children namespaces) {root} :=
      hclosing.subset_reachable (.inr (hqueue ▸ List.mem_cons_self))
    rw [hreachable] at hid
    exact hcode ▸ serve_avoids (mem_of_endsAt hid hroot)
  · rintro tree id queue tree' ⟨done, hgrowing⟩ hqueue hserve
    exact ⟨insert id done, hgrowing.serve hqueue hserve⟩

end Tree

/-! ### Owners -/

section Owners

variable {work work' : Nat}

/-- **Single ownership.** Where each of the values of a map notes itself as the owner of what it
lists, and refuses what has an owner already, the owner is the one that lists. -/
theorem owner_iff {β : Type} {map : EntityMap β} (listed : β → List EntityId)
    (own : EntityId → EntityMap EntityId → EntityId → Judge (EntityMap EntityId))
    (hown : ∀ {id owners member work owners' work'},
      (own id owners member).run work = .ok (owners', work') →
        member ∉ owners ∧ owners' = owners.insert member id) {owners : EntityMap EntityId}
    (h : (map.toList.foldlM (fun owners (id, value) ↦
      (listed value).foldlM (own id) owners) ∅).run work = .ok (owners, work'))
    (member id : EntityId) :
    owners[member]? = some id ↔ ∃ value, map[id]? = some value ∧ member ∈ listed value := by
  rw [run_foldlM] at h
  have hinner : ∀ (state : EntityMap EntityId × Nat) (entry : EntityId × β) state',
      ((listed entry.2).foldlM (own entry.1) state.1).run state.2 = .ok state' →
      ∀ d : EntityId × EntityId, state'.1[d.1]? = some d.2 ↔
        state.1[d.1]? = some d.2 ∨ d.1 ∈ listed entry.2 ∧ d.2 = entry.1 := by
    intro state entry state' hrun d
    rw [run_foldlM] at hrun
    rw [foldlM_collects (P := fun state d ↦ state.1[d.1]? = some d.2)
      (Q := fun (member : EntityId) d ↦ d.1 = member ∧ d.2 = entry.1)
      (fun state member state' hstep d ↦ ?_) hrun d]
    · simp
    · obtain ⟨hnew, hinsert⟩ := hown hstep
      rw [hinsert, EntityMap.getElem?_insert_eq]
      by_cases hmember : d.1 = member
      · rw [if_pos hmember, hmember, EntityMap.not_mem_iff.1 hnew, Option.some_inj]
        simp [eq_comm]
      · simp [hmember]
  rw [foldlM_collects (P := fun state d ↦ state.1[d.1]? = some d.2)
    (Q := fun (entry : EntityId × β) (d : EntityId × EntityId) ↦
      d.1 ∈ listed entry.2 ∧ d.2 = entry.1) hinner h (member, id)]
  simp only [Std.ExtTreeMap.getElem?_empty, reduceCtorEq, false_or, Prod.exists,
    Std.ExtTreeMap.mem_toList_iff_getElem?_eq_some]
  constructor
  · rintro ⟨_, value, hvalue, hmember, rfl⟩
    exact ⟨value, hvalue, hmember⟩
  · rintro ⟨value, hvalue, hmember⟩
    exact ⟨id, value, hvalue, hmember, rfl⟩

/-- The owner of a member is the namespace that lists it. -/
theorem owner_iff_of_memberOwners {namespaces : EntityMap NamespaceBody}
    {kinds : EntityMap EntityKind} {ownerOf : EntityMap EntityId}
    (h : (memberOwners namespaces kinds).run work = .ok (ownerOf, work')) (member id : EntityId) :
    ownerOf[member]? = some id ↔ Lists namespaces id member := by
  refine owner_iff (fun body : NamespaceBody ↦ body.members.values) (ownMember kinds)
    (fun hown ↦ ?_) h member id
  obtain ⟨_, _, -, hown⟩ := run_bind_eq_ok.1 hown
  obtain ⟨_, _, -, hown⟩ := run_bind_eq_ok.1 hown
  obtain ⟨_, _, hnew, hown⟩ := run_bind_eq_ok.1 hown
  obtain ⟨hnew, -⟩ := run_rejectIf_eq_ok.1 hnew
  obtain ⟨rfl, -⟩ := run_pure_eq_ok.1 hown
  exact ⟨fun hmember ↦ hnew (.inr hmember), rfl⟩

theorem ownBinding_eq_ok {package dependency : EntityId} {owners owners' : EntityMap EntityId}
    (h : (ownBinding package owners dependency).run work = .ok (owners', work')) :
    dependency ∉ owners ∧ owners' = owners.insert dependency package := by
  obtain ⟨_, _, -, h⟩ := run_bind_eq_ok.1 h
  obtain ⟨_, _, hnew, h⟩ := run_bind_eq_ok.1 h
  obtain ⟨hnew, -⟩ := run_rejectIf_eq_ok.1 hnew
  obtain ⟨rfl, -⟩ := run_pure_eq_ok.1 h
  exact ⟨hnew, rfl⟩

variable {packages : EntityMap PackageBody}

/-- C11: the owner of a binding is the package that lists it, and the binding is in its tree. -/
theorem owned_of_bindingOwners {bindings : EntityMap DependencyBindingBody}
    {trees : EntityMap EntitySet}
    (h : (bindingOwners packages bindings trees).run work = .ok ((), work')) {id : EntityId}
    {binding : DependencyBindingBody} (hbinding : bindings[id]? = some binding) :
    ∃ (owner : EntityId) (tree : EntitySet), trees[owner]? = some tree ∧
      binding.localNamespace ∈ tree ∧ ∀ other, Owns packages other id ↔ other = owner := by
  obtain ⟨bindingOwner, work₁, howners, h⟩ := run_bind_eq_ok.1 h
  obtain ⟨_, _, hone⟩ := exists_of_forM h
    (Std.ExtTreeMap.mem_toList_iff_getElem?_eq_some.2 hbinding)
  obtain ⟨_, _, -, hone⟩ := run_bind_eq_ok.1 hone
  obtain ⟨howned, -⟩ := run_rejectIf_eq_ok.1 hone
  obtain ⟨owner, howner, htree⟩ := (Option.any_eq_true _ _).1 (not_not.1 howned)
  obtain ⟨tree, htree, hlocal⟩ := (Option.any_eq_true _ _).1 htree
  refine ⟨owner, tree, htree, of_decide_eq_true hlocal, fun other ↦ ?_⟩
  have hiff := owner_iff (fun package : PackageBody ↦ package.dependencies.values) _
    ownBinding_eq_ok howners id other
  rw [howner, Option.some_inj] at hiff
  exact hiff.symm.trans eq_comm

end Owners

/-! ### The shape -/

/-- What an accepted request promises: the namespaces are a forest under the declared roots, the
trees of the packages are disjoint, and what a package exports or binds is in its tree. -/
structure RootShape (workspace : EntityId × WorkspaceBody) (packages : EntityMap PackageBody)
    (namespaces : EntityMap NamespaceBody) (bindings : EntityMap DependencyBindingBody) :
    Prop where
  roots_nodup : (declaredRoots workspace packages).Nodup
  mem_roots_iff : ∀ id, id ∈ declaredRoots workspace packages ↔
    id ∈ namespaces ∧ parentOf namespaces id = none
  acyclic : ∀ id, ¬ Relation.TransGen (fun a b ↦ parentOf namespaces a = some b) id id
  lists_iff : ∀ id ∈ namespaces, ∀ owner,
    Lists namespaces owner id ↔ parentOf namespaces id = some owner
  endsAt : ∀ id ∈ namespaces, ∃ root ∈ declaredRoots workspace packages,
    id ∈ treeOf namespaces root
  tree_exact : ∀ root ∈ declaredRoots workspace packages, ∀ work,
    (∀ tree work', (namespaceTree namespaces root).run work = .ok (tree, work') →
      ∀ id, id ∈ tree ↔ id ∈ treeOf namespaces root) ∧
    ((namespaceTree namespaces root).run work).Avoids notResource
  trees_disjoint : ∀ (p q : EntityId) (package package' : PackageBody),
    packages[p]? = some package → packages[q]? = some package' → p ≠ q →
      Disjoint (treeOf namespaces package.rootNamespace) (treeOf namespaces package'.rootNamespace)
  export_scoped : ∀ (p : EntityId) (package : PackageBody), packages[p]? = some package →
    ∀ exported ∈ package.exports.values, ∃ owner ∈ treeOf namespaces package.rootNamespace,
      Lists namespaces owner exported
  binding_owned : ∀ id ∈ bindings, ∃! p, Owns packages p id
  binding_scoped : ∀ (p id : EntityId) (package : PackageBody) (binding : DependencyBindingBody),
    packages[p]? = some package → id ∈ package.dependencies.values →
      bindings[id]? = some binding →
        binding.localNamespace ∈ treeOf namespaces package.rootNamespace

/-- Packages that are not the same declare different roots. -/
theorem rootNamespace_ne {workspace : EntityId × WorkspaceBody} {packages : EntityMap PackageBody}
    (h : (declaredRoots workspace packages).Nodup) {p q : EntityId} {package package' : PackageBody}
    (hp : packages[p]? = some package) (hq : packages[q]? = some package') (hne : p ≠ q) :
    package.rootNamespace ≠ package'.rootNamespace := by
  have hnodup := (List.nodup_cons.1 h).2
  rw [values_eq, EntityMap.intoValues, List.map_map] at hnodup
  intro heq
  have hsame := List.inj_on_of_nodup_map hnodup
    (Std.ExtTreeMap.mem_toList_iff_getElem?_eq_some.2 hp)
    (Std.ExtTreeMap.mem_toList_iff_getElem?_eq_some.2 hq) heq
  exact hne (Prod.mk.inj hsame).1

theorem rootNamespace_mem_declaredRoots {workspace : EntityId × WorkspaceBody}
    {packages : EntityMap PackageBody} {p : EntityId} {package : PackageBody}
    (hp : packages[p]? = some package) :
    package.rootNamespace ∈ declaredRoots workspace packages := by
  refine List.mem_cons_of_mem _ (List.mem_map_of_mem ?_)
  rw [values_eq, EntityMap.mem_intoValues_iff]
  exact ⟨p, hp⟩

section Packages

variable {packages : EntityMap PackageBody} {namespaces : EntityMap NamespaceBody}
  {ownerOf : EntityMap EntityId} {work work' : Nat}

/-- C8: the tree of a package is noted, and the owner of each of its exports is in it. -/
theorem packageExports_eq_ok {trees trees' : EntityMap EntitySet} {p : EntityId}
    {package : PackageBody} (h : (packageExports namespaces ownerOf trees (p, package)).run work =
      .ok (trees', work')) :
    ∃ (tree : EntitySet) (work₁ : Nat),
      (namespaceTree namespaces package.rootNamespace).run work = .ok (tree, work₁) ∧
      trees' = trees.insert p tree ∧ ∀ exported ∈ package.exports.values, ∃ owner ∈ tree,
        ownerOf[exported]? = some owner := by
  obtain ⟨tree, work₁, htree, h⟩ := run_bind_eq_ok.1 h
  obtain ⟨_, _, hexports, h⟩ := run_bind_eq_ok.1 h
  obtain ⟨rfl, -⟩ := run_pure_eq_ok.1 h
  refine ⟨tree, work₁, htree, rfl, fun exported hexported ↦ ?_⟩
  obtain ⟨_, _, hone⟩ := exists_of_forM hexports hexported
  obtain ⟨_, _, -, hone⟩ := run_bind_eq_ok.1 hone
  obtain ⟨hscoped, -⟩ := run_rejectIf_eq_ok.1 hone
  obtain ⟨owner, howner, hmem⟩ := (Option.any_eq_true _ _).1 (not_not.1 hscoped)
  exact ⟨owner, of_decide_eq_true hmem, howner⟩

end Packages

/-- **The rules make the shape.** -/
theorem rootShape_of_judgeBodies {bodies : RootBodies} {kinds : EntityMap EntityKind}
    {facts : CompleteRootFacts} {workspace : EntityId × WorkspaceBody} {work work' : Nat}
    (h : (judgeBodies bodies kinds facts).run work = .ok (workspace, work')) :
    bodies.workspaces = [workspace] ∧
      RootShape workspace bodies.packages bodies.namespaces bodies.bindings := by
  obtain ⟨declared, work₁, hworkspace, h⟩ := run_bind_eq_ok.1 h
  obtain ⟨_, work₂, -, h⟩ := run_bind_eq_ok.1 h
  obtain ⟨_, work₃, hroots, h⟩ := run_bind_eq_ok.1 h
  obtain ⟨_, work₄, hlinks, h⟩ := run_bind_eq_ok.1 h
  obtain ⟨ownerOf, work₅, howners, h⟩ := run_bind_eq_ok.1 h
  obtain ⟨trees, work₆, hexports, h⟩ := run_bind_eq_ok.1 h
  obtain ⟨_, work₇, -, h⟩ := run_bind_eq_ok.1 h
  obtain ⟨_, work₈, -, h⟩ := run_bind_eq_ok.1 h
  obtain ⟨_, work₉, -, h⟩ := run_bind_eq_ok.1 h
  obtain ⟨_, work₁₀, hbindings, h⟩ := run_bind_eq_ok.1 h
  obtain ⟨rfl, -⟩ := run_pure_eq_ok.1 h
  have hunique : bodies.workspaces = [workspace] := by
    match hlist : bodies.workspaces, hworkspace with
    | [], hworkspace => cases (run_ofExcept_eq_ok.1 hworkspace).1
    | [only], hworkspace =>
      obtain ⟨rfl, -⟩ := run_pure_eq_ok.1 hworkspace
      rfl
    | _ :: _ :: _, hworkspace => cases (run_ofExcept_eq_ok.1 hworkspace).1
  refine ⟨hunique, ?_⟩
  obtain ⟨hnodup, hdeclared⟩ := roots_of_namespaceRoots hroots
  have hlinked := linked_of_namespaceLinks hlinks
  have howner := owner_iff_of_memberOwners howners
  have hmemroots : ∀ id, id ∈ declaredRoots workspace bodies.packages ↔
      id ∈ bodies.namespaces ∧ parentOf bodies.namespaces id = none := by
    intro id
    rw [hdeclared, mem_iff_exists]
    constructor
    · rintro ⟨body, hbody, hparent⟩
      exact ⟨⟨body, hbody⟩, (parentOf_eq hbody).trans hparent⟩
    · rintro ⟨⟨body, hbody⟩, hparent⟩
      exact ⟨body, hbody, (parentOf_eq hbody).symm.trans hparent⟩
  have hexact : ∀ root ∈ declaredRoots workspace bodies.packages, ∀ work,
      (∀ tree work', (namespaceTree bodies.namespaces root).run work = .ok (tree, work') →
        ∀ id, id ∈ tree ↔ id ∈ treeOf bodies.namespaces root) ∧
      ((namespaceTree bodies.namespaces root).run work).Avoids notResource := by
    intro root hroot work
    obtain ⟨hmem, hparent⟩ := (hmemroots root).1 hroot
    exact namespaceTree_exact hlinked hmem hparent
  rw [run_foldlM] at hexports
  -- the trees that were noted are those of the packages
  have htrees : ∀ (p : EntityId) (tree : EntitySet), trees[p]? = some tree →
      ∃ package : PackageBody, bodies.packages[p]? = some package ∧
        ∀ id, id ∈ tree ↔ id ∈ treeOf bodies.namespaces package.rootNamespace := by
    refine foldlM_rule (P := fun state : EntityMap EntitySet × Nat ↦
      ∀ (p : EntityId) (tree : EntitySet), state.1[p]? = some tree →
        ∃ package : PackageBody, bodies.packages[p]? = some package ∧
          ∀ id, id ∈ tree ↔ id ∈ treeOf bodies.namespaces package.rootNamespace)
      (fun state entry state' hentry hstep hstate p tree hp ↦ ?_) hexports fun p tree hp ↦ by
        simp at hp
    obtain ⟨q, package⟩ := entry
    rw [Std.ExtTreeMap.mem_toList_iff_getElem?_eq_some] at hentry
    obtain ⟨noted, work, hnoted, hinsert, -⟩ := packageExports_eq_ok hstep
    rw [hinsert, EntityMap.getElem?_insert_eq] at hp
    split at hp
    · rename_i heq
      subst heq
      obtain rfl := Option.some.inj hp
      exact ⟨package, hentry, (hexact _ (rootNamespace_mem_declaredRoots hentry) _).1 _ _ hnoted⟩
    · exact hstate p tree hp
  refine ⟨hnodup, hmemroots, fun id hcycle ↦ ?_, hlinked.lists_iff, fun id hid ↦ ?_, hexact,
    fun p q package package' hp hq hne ↦ ?_, fun p package hp exported hexported ↦ ?_,
    fun id hid ↦ ?_, fun p id package binding hp hid hbinding ↦ ?_⟩
  · obtain ⟨next, hnext, -⟩ := Relation.TransGen.head'_iff.1 hcycle
    obtain ⟨body, hbody, -⟩ := exists_of_parentOf hnext
    obtain ⟨root, -, hends⟩ := hlinked.endsAt id (mem_iff_exists.2 ⟨body, hbody⟩)
    exact hends.not_transGen hcycle
  · obtain ⟨root, hroot, hends⟩ := hlinked.endsAt id hid
    exact ⟨root, (hmemroots root).2 ⟨hroot, hends.2⟩, hends⟩
  · refine Set.disjoint_left.2 fun id hid hid' ↦ ?_
    exact rootNamespace_ne hnodup hp hq hne (EndsAt.unique hid hid')
  · obtain ⟨state, state', hstep⟩ := exists_of_foldlM_eq_ok hexports
      (Std.ExtTreeMap.mem_toList_iff_getElem?_eq_some.2 hp)
    obtain ⟨tree, _, htree, -, hscoped⟩ := packageExports_eq_ok hstep
    obtain ⟨owner, hmem, hownerOf⟩ := hscoped exported hexported
    refine ⟨owner, ?_, (howner exported owner).1 hownerOf⟩
    exact ((hexact _ (rootNamespace_mem_declaredRoots hp) _).1 _ _ htree owner).1 hmem
  · obtain ⟨binding, hbinding⟩ := mem_iff_exists.1 hid
    obtain ⟨owner, _, -, -, howns⟩ := owned_of_bindingOwners hbindings hbinding
    exact ⟨owner, (howns owner).2 rfl, fun other hother ↦ (howns other).1 hother⟩
  · obtain ⟨owner, tree, htree, hlocal, howns⟩ := owned_of_bindingOwners hbindings hbinding
    obtain rfl := (howns p).1 ⟨package, hp, hid⟩
    obtain ⟨package', hp', hmem⟩ := htrees p tree htree
    obtain rfl : package = package' := Option.some.inj (hp.symm.trans hp')
    exact (hmem _).1 hlocal

/-- **An accepted complete root has the promised shape.** -/
theorem judgeCompleteRoot_shape {entities : List ImpactEntity} {facts : CompleteRootFacts}
    {result : CompleteRootIndex} (h : judgeCompleteRoot entities facts = .ok result) :
    ∃ workspace, (RootBodies.ofEntities entities).workspaces = [(result.workspace, workspace)] ∧
      RootShape (result.workspace, workspace) (RootBodies.ofEntities entities).packages
        (RootBodies.ofEntities entities).namespaces (RootBodies.ofEntities entities).bindings := by
  rw [judgeCompleteRoot, StateT.run', Except.map_eq_ok] at h
  obtain ⟨⟨_, work⟩, h, rfl⟩ := h
  obtain ⟨_, work₁, -, h⟩ := StateT.run_bind_eq_ok.1 h
  obtain ⟨_, work₂, -, h⟩ := StateT.run_bind_eq_ok.1 h
  obtain ⟨_, work₃, -, h⟩ := StateT.run_bind_eq_ok.1 h
  obtain ⟨_, work₄, -, h⟩ := StateT.run_bind_eq_ok.1 h
  obtain ⟨kinds, work₅, -, h⟩ := StateT.run_bind_eq_ok.1 h
  obtain ⟨bodies, work₆, hbodies, h⟩ := StateT.run_bind_eq_ok.1 h
  obtain ⟨index, work₇, -, h⟩ := StateT.run_bind_eq_ok.1 h
  obtain ⟨workspace, work₈, hjudged, h⟩ := StateT.run_bind_eq_ok.1 h
  obtain ⟨rfl, -⟩ := StateT.run_pure_eq_ok.1 h
  obtain rfl := RootBodies.eq_ofEntities hbodies
  exact ⟨workspace.2, rootShape_of_judgeBodies hjudged⟩

/-! ### A package with a bound namespace -/

namespace OnePackage

theorem ascending_packages : Ascending (List.map Id.bytes ([.splat 2] : List EntityId)) := by
  decide

def workspace : ImpactEntity :=
  ⟨.splat 1, ⟨.workspace, (⟨⟨[.splat 2], ascending_packages⟩, .splat 3, ⟨[], ascending_nil⟩,
    ⟨[], ascending_nil⟩, ⟨[], ascending_nil⟩⟩ : WorkspaceBody)⟩⟩

def package : ImpactEntity :=
  ⟨.splat 2, ⟨.package, (⟨.splat 1, .splat 4, ⟨[.splat 6], by decide⟩, ⟨[.splat 5], by decide⟩⟩ :
    PackageBody)⟩⟩

def root : ImpactEntity :=
  ⟨.splat 3, ⟨.namespace_, (⟨none, ⟨[], ascending_nil⟩⟩ : NamespaceBody)⟩⟩

def packageRoot : ImpactEntity :=
  ⟨.splat 4, ⟨.namespace_, (⟨none, ⟨[.splat 5], by decide⟩⟩ : NamespaceBody)⟩⟩

def member : ImpactEntity :=
  ⟨.splat 5, ⟨.namespace_, (⟨some (.splat 4), ⟨[], ascending_nil⟩⟩ : NamespaceBody)⟩⟩

def binding : ImpactEntity :=
  ⟨.splat 6, ⟨.dependencyBinding, (⟨.splat 7, .splat 8, .splat 5⟩ : DependencyBindingBody)⟩⟩

def entities : List ImpactEntity := [workspace, package, root, packageRoot, member, binding]

def facts : CompleteRootFacts := ⟨entities.map (·.entityId), [], [.splat 7]⟩

theorem exists_result : ∃ result, judgeCompleteRoot entities facts = .ok result := by
  have hok : (judgeCompleteRoot entities facts).isOk = true := by decide +kernel
  cases h : judgeCompleteRoot entities facts with
  | ok result => exact ⟨result, rfl⟩
  | error e =>
    rw [h] at hok
    cases hok

end OnePackage

open OnePackage in
/-- The member that the binding names is in the tree of the package. -/
theorem judgeCompleteRoot_shape_onePackage :
    ∃ result, judgeCompleteRoot entities facts = .ok result ∧
      .splat 5 ∈ treeOf (RootBodies.ofEntities entities).namespaces (.splat 4) := by
  obtain ⟨result, hresult⟩ := exists_result
  obtain ⟨workspace, -, hshape⟩ := judgeCompleteRoot_shape hresult
  refine ⟨result, hresult, ?_⟩
  exact hshape.binding_scoped (.splat 2) (.splat 6) ⟨.splat 1, .splat 4, ⟨[.splat 6], by decide⟩,
    ⟨[.splat 5], by decide⟩⟩ ⟨.splat 7, .splat 8, .splat 5⟩ (by decide) (by decide)
    (by decide)

end Sley.Query
