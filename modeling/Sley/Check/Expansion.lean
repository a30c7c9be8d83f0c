import Sley.Check.Types

/-!
# What a type reaches through its definitions

A type holds its components, and a named type also holds the members of its definition, with its
arguments in the place of the parameters. What can be reached this way is not a matter of syntax: a
definition may be expanded any number of times, each time with other arguments.

It is a matter of syntax for properties of the head of a type, which instantiation does not change.
**A type of such a property is reached exactly when one occurs in the type itself or in a member of
a definition it depends on**, whatever the arguments were.
-/

namespace Sley.TypeCheck

open Ssmc TypeExpr
open Except hiding ok error

variable {t s : TypeExpr} {id : EntityId} {definition : TypeDefinition}

/-! ### The dependencies of a definition -/

/-- The definition is named somewhere in the syntax of the type. -/
def Names (t : TypeExpr) (id : EntityId) : Prop :=
  ∃ arguments, (named id arguments).OccursIn t

theorem names_iff_components :
    Names t id ↔ (∃ arguments, t = named id arguments) ∨ ∃ c ∈ t.components, Names c id := by
  constructor
  · rintro ⟨arguments, h⟩
    obtain rfl | ⟨c, hc, h⟩ := occursIn_iff.1 h
    · exact .inl ⟨arguments, rfl⟩
    · exact .inr ⟨c, hc, arguments, h⟩
  · rintro (⟨arguments, rfl⟩ | ⟨c, hc, arguments, h⟩)
    · exact ⟨arguments, .refl _⟩
    · exact ⟨arguments, h.trans (.of_mem hc)⟩

theorem mem_collectAllDependencies_of (values : List TypeExpr)
    (h : ∀ v ∈ values, ∀ found, id ∈ collectNamedDependencies v found ↔ id ∈ found ∨ Names v id)
    (found : EntitySet) :
    id ∈ collectAllDependencies values found ↔ id ∈ found ∨ ∃ v ∈ values, Names v id := by
  induction values generalizing found with
  | nil => simp [collectAllDependencies]
  | cons v values ih =>
    obtain ⟨hv, hvalues⟩ := List.forall_mem_cons.1 h
    rw [collectAllDependencies, ih hvalues, hv, or_assoc, List.exists_mem_cons_iff]

/-- The collection gathers what the syntax names. -/
theorem mem_collectNamedDependencies (t : TypeExpr) (found : EntitySet) :
    id ∈ collectNamedDependencies t found ↔ id ∈ found ∨ Names t id := by
  induction t using inductionOn generalizing found with
  | step t ih =>
    rw [names_iff_components]
    cases t with
    | tuple items =>
      rw [collectNamedDependencies, mem_collectAllDependencies_of items ih]
      simp [components]
    | named name items =>
      rw [collectNamedDependencies, mem_collectAllDependencies_of items ih,
        EntitySet.mem_insert_iff]
      simp [components]
      grind
    | functionRef parameters returned effects =>
      have hparameters := fun v hv ↦ ih v (List.mem_append_left [returned] hv)
      have hreturned := ih returned (List.mem_append_right parameters (List.mem_singleton_self _))
      rw [collectNamedDependencies, hreturned, mem_collectAllDependencies_of parameters hparameters]
      simp [components, or_assoc, or_and_right, exists_or]
    | vector element | option element | localCell element =>
      rw [collectNamedDependencies, ih _ (List.mem_singleton_self _)]
      simp [components]
    | orderedMap a b | result a b =>
      rw [collectNamedDependencies, ih b (by simp [components]), ih a (by simp [components])]
      simp [components, or_assoc]
    | _ => simp [collectNamedDependencies, components]

theorem mem_dependencies : id ∈ TypeEnvironment.dependencies definition ↔
      ∃ m ∈ memberTypes definition.form, Names m id := by
  rw [TypeEnvironment.dependencies, Std.ExtTreeSet.mem_toList,
    mem_collectAllDependencies_of _ fun v _ ↦ mem_collectNamedDependencies v]
  simp

/-! ### Substitution -/

theorem substituteAll_eq_ok_of {arguments values values' : List TypeExpr} {depth : Nat}
    (h : ∀ v ∈ values, ∀ {depth v'}, substitute arguments v depth = .ok v' →
      v' = v.instantiate arguments)
    (hok : substituteAll arguments values depth = .ok values') :
    values' = instantiateAll arguments values := by
  induction values generalizing values' with
  | nil =>
    rw [substituteAll, pure_eq_ok] at hok
    rw [hok, instantiateAll]
  | cons v values ih =>
    simp only [substituteAll, bind_eq_ok, pure_eq_ok] at hok
    obtain ⟨v', hv, rest, hrest, rfl⟩ := hok
    obtain ⟨hfirst, hvalues⟩ := List.forall_mem_cons.1 h
    rw [instantiateAll, hfirst hv, ih hvalues hrest]

/-- **A substitution that stays within the limits is the instantiation.** -/
theorem substitute_eq_ok {arguments : List TypeExpr} {depth : Nat}
    (h : substitute arguments t depth = .ok s) : s = t.instantiate arguments := by
  induction t using inductionOn generalizing depth s with
  | step t ih =>
    rw [substitute.eq_def, bind_eq_ok] at h
    obtain ⟨-, -, h⟩ := h
    have hlist : ∀ {values values' : List TypeExpr}, values ⊆ t.components →
        substituteAll arguments values (depth + 1) = .ok values' →
          values' = instantiateAll arguments values :=
      fun hsub ↦ substituteAll_eq_ok_of fun v hv _ _ ↦ ih v (hsub hv)
    cases t with
    | typeParameter index =>
      obtain h := Except.ofOption_eq_ok.1 h
      rw [instantiate, h, Option.getD_some]
    | tuple items | named name items =>
      simp only [bind_eq_ok, pure_eq_ok] at h
      obtain ⟨items', hitems, rfl⟩ := h
      rw [instantiate, hlist (List.Subset.refl items) hitems]
    | functionRef parameters returned effects =>
      simp only [bind_eq_ok, pure_eq_ok] at h
      obtain ⟨parameters', hparameters, returned', hreturned, rfl⟩ := h
      rw [instantiate, hlist (List.subset_append_left _ _) hparameters,
        ih returned (by simp [components]) hreturned]
    | vector element | option element | localCell element =>
      simp only [bind_eq_ok, pure_eq_ok] at h
      obtain ⟨element', helement, rfl⟩ := h
      rw [instantiate, ih element (by simp [components]) helement]
    | orderedMap a b | result a b =>
      simp only [bind_eq_ok, pure_eq_ok] at h
      obtain ⟨a', ha, b', hb, rfl⟩ := h
      rw [instantiate, ih a (by simp [components]) ha, ih b (by simp [components]) hb]
    | _ =>
      obtain rfl := Except.pure_eq_ok.1 h
      simp [instantiate]

/-! ### Reaching -/

namespace TypeEnvironment

variable {env : TypeEnvironment}

/-- What a type directly holds, with the definition of a named type expanded. -/
inductive Holds (env : TypeEnvironment) : TypeExpr → TypeExpr → Prop
  | component {t s : TypeExpr} (h : s ∈ t.components) : env.Holds t s
  | member {id : EntityId} {arguments : List TypeExpr} {definition : TypeDefinition}
      {m : TypeExpr} (hid : env.definition id = .ok definition)
      (hm : m ∈ memberTypes definition.form) :
      env.Holds (named id arguments) (m.instantiate arguments)

/-- The type is held at some depth. -/
def Reaches (env : TypeEnvironment) : TypeExpr → TypeExpr → Prop :=
  Relation.ReflTransGen env.Holds

/-- The type names the definition, or depends on one that does. -/
inductive DependsOn (env : TypeEnvironment) (t : TypeExpr) : EntityId → Prop
  | named {id : EntityId} (h : id ∈ collectNamedDependencies t ∅) : env.DependsOn t id
  | member {id dependency : EntityId} {definition : TypeDefinition} (h : env.DependsOn t id)
      (hid : env.definition id = .ok definition) (hdep : dependency ∈ dependencies definition) :
      env.DependsOn t dependency

theorem Reaches.of_occursIn (h : s.OccursIn t) : env.Reaches t s :=
  Relation.ReflTransGen.mono (fun _ _ hmem ↦ Holds.component hmem) _ _ h

theorem dependsOn_of_names (h : Names t id) : env.DependsOn t id :=
  .named ((mem_collectNamedDependencies t ∅).2 (.inr h))

/-- Some instance of a definition that is depended on is reached. -/
theorem DependsOn.exists_reaches (h : env.DependsOn t id) :
    ∃ arguments, env.Reaches t (TypeExpr.named id arguments) := by
  induction h with
  | named h =>
    obtain h | ⟨arguments, h⟩ := (mem_collectNamedDependencies t ∅).1 h
    · exact absurd h Std.ExtTreeSet.not_mem_empty
    · exact ⟨arguments, .of_occursIn h⟩
  | member _ hid hdep ih =>
    obtain ⟨arguments, hreach⟩ := ih
    obtain ⟨m, hm, inner, hoccurs⟩ := mem_dependencies.1 hdep
    have hinner : ((TypeExpr.named _ inner).instantiate arguments).OccursIn
        (m.instantiate arguments) := occursIn_instantiate hoccurs
    rw [instantiate] at hinner
    exact ⟨_, (hreach.tail (.member hid hm)).trans (Reaches.of_occursIn hinner)⟩

/-- A property of the head of a type: instantiation neither makes it nor breaks it. -/
structure OfHead (Q : TypeExpr → Prop) : Prop where
  instantiate_iff {t : TypeExpr} {arguments : List TypeExpr} :
    (∀ ordinal, t ≠ typeParameter ordinal) → (Q (t.instantiate arguments) ↔ Q t)
  not_typeParameter (ordinal : UInt32) : ¬ Q (typeParameter ordinal)

variable {Q : TypeExpr → Prop}

/-- A member of a definition that the type depends on has such a type inside. -/
def DependsOnMember (env : TypeEnvironment) (Q : TypeExpr → Prop) (t : TypeExpr) : Prop :=
  ∃ id definition, env.DependsOn t id ∧ env.definition id = .ok definition ∧
    ∃ m ∈ memberTypes definition.form, ∃ s : TypeExpr, s.OccursIn m ∧ Q s

/-- What is reached adds no dependency and no type of the property that the syntax does not show. -/
theorem OfHead.of_reaches (hQ : OfHead Q) {r : TypeExpr} (h : env.Reaches t r) :
    (∀ s : TypeExpr, s.OccursIn r → Q s →
        (∃ s : TypeExpr, s.OccursIn t ∧ Q s) ∨ env.DependsOnMember Q t) ∧
      ∀ id, Names r id → env.DependsOn t id := by
  induction h with
  | refl => exact ⟨fun s hs hq ↦ .inl ⟨s, hs, hq⟩, fun _ ↦ dependsOn_of_names⟩
  | tail _ hstep ih =>
    obtain ⟨hfound, hnames⟩ := ih
    cases hstep with
    | component hmem =>
      exact ⟨fun s hs ↦ hfound s (hs.trans (.of_mem hmem)),
        fun id ⟨arguments, hid⟩ ↦ hnames id ⟨arguments, hid.trans (.of_mem hmem)⟩⟩
    | @member id arguments definition m hid hm =>
      have hdep := hnames id ⟨arguments, .refl _⟩
      constructor
      · intro s hs hq
        obtain ⟨r, hr, hne, rfl⟩ | ⟨ordinal, rfl⟩ | ⟨a, ha, hs⟩ := occursIn_of_instantiate hs
        · exact .inr ⟨id, definition, hdep, hid, m, hm, r, hr, (hQ.instantiate_iff hne).1 hq⟩
        · exact absurd hq (hQ.not_typeParameter ordinal)
        · exact hfound s (hs.trans (.of_mem ha)) hq
      · rintro name ⟨inner, hname⟩
        obtain ⟨r, hr, hne, heq⟩ | ⟨ordinal, heq⟩ | ⟨a, ha, hname⟩ := occursIn_of_instantiate hname
        · obtain ⟨inner', rfl⟩ := exists_named_of_instantiate hne heq
          exact .member hdep hid (mem_dependencies.2 ⟨m, hm, inner', hr⟩)
        · cases heq
        · exact hnames name ⟨inner, hname.trans (.of_mem ha)⟩

/-- **What is reached shows in the syntax** of the type and of the definitions it depends on. -/
theorem OfHead.exists_reaches_iff (hQ : OfHead Q) : (∃ s, env.Reaches t s ∧ Q s) ↔
      (∃ s : TypeExpr, s.OccursIn t ∧ Q s) ∨ env.DependsOnMember Q t := by
  constructor
  · rintro ⟨s, hreach, hq⟩
    exact (hQ.of_reaches hreach).1 s (.refl s) hq
  · rintro (⟨s, hs, hq⟩ | ⟨id, definition, hdep, hid, m, hm, s, hs, hq⟩)
    · exact ⟨s, .of_occursIn hs, hq⟩
    · obtain ⟨arguments, hreach⟩ := hdep.exists_reaches
      have hne : ∀ ordinal, s ≠ typeParameter ordinal := by
        rintro ordinal rfl
        exact hQ.not_typeParameter ordinal hq
      exact ⟨s.instantiate arguments, (hreach.tail (.member hid hm)).trans
        (Reaches.of_occursIn (occursIn_instantiate hs)), (hQ.instantiate_iff hne).2 hq⟩

end TypeEnvironment

end Sley.TypeCheck
