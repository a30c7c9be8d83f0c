import Sley.Check.Renaming
import Sley.Check.WalkCost

/-!
# Admission and names

`TypeEnvironment::new` goes through the definitions in the order of their identities, and one walk
through all of them remembers what it found and is charged for what it visits. Neither makes the
outcome depend on names: what the walk costs is the same in every order.

The search for cycles is different. It counts how deep it is, and a definition that was visited
before is not entered again. So a chain of dependencies that is longer than the depth limit is found
too deep when the search enters it at its head, and not when it comes to the tail first: **admission
is independent of names as long as there is no such chain**.
-/

namespace Sley.TypeCheck

open Ssmc TypeExpr StateT TypeEnvironment
open Except (bind_eq_ok forM_eq_ok map_eq_ok ofOption ofOption_eq_ok pure_eq_ok)

/-- A loop whose every step succeeds succeeds. -/
theorem exists_run_forM {σ ε γ : Type} {f : γ → StateT σ (Except ε) Unit} {P : σ → Prop}
    {xs : List γ} (hstep : ∀ x ∈ xs, ∀ s, P s → ∃ s', (f x).run s = .ok ((), s') ∧ P s') {s : σ}
    (hs : P s) : ∃ s', (xs.forM f).run s = .ok ((), s') ∧ P s' := by
  induction xs generalizing s with
  | nil => exact ⟨s, rfl, hs⟩
  | cons x xs ih =>
    obtain ⟨s₁, hx, hs₁⟩ := hstep x List.mem_cons_self s hs
    obtain ⟨s', hxs, hs'⟩ := ih (fun y hy ↦ hstep y (List.mem_cons_of_mem x hy)) hs₁
    refine ⟨s', ?_, hs'⟩
    rw [List.forM_eq_forM, List.forM_cons, run_bind_eq_ok]
    exact ⟨(), s₁, hx, hxs⟩

namespace TypeEnvironment

variable {env env' : TypeEnvironment} {definitions definitions' : List TypeDefinition}
  {ρ : EntityId → EntityId}

/-! ### The stages of admission -/

/-- The definitions by their identity. -/
def indexed (definitions : List TypeDefinition) : EntityMap TypeDefinition :=
  definitions.foldl (fun byId definition ↦ byId.insert definition.entityId definition) ∅

/-- The checks that follow once the definitions are indexed. -/
structure Admitted (env : TypeEnvironment) : Prop where
  shape : ∀ definition ∈ env.definitions.intoValues, env.checkDefinitionShape definition = .ok ()
  cycles : env.rejectDefinitionCycles = .ok ()
  mapKeys : ∃ r, (env.definitions.intoValues.forM env.checkDefinitionMapKeys).run .empty = .ok r

/-- `insert`, when the identity is new. -/
def insertNew (byId : EntityMap TypeDefinition) (definition : TypeDefinition) :
    Result (EntityMap TypeDefinition) := do
  Except.rejectIf (definition.entityId ∈ byId) .definitionDuplicate
  return byId.insert definition.entityId definition

variable {definition : TypeDefinition} {id : EntityId} {byId byId' : EntityMap TypeDefinition}

theorem insertNew_eq_ok : insertNew byId definition = .ok byId' ↔
      definition.entityId ∉ byId ∧ byId' = byId.insert definition.entityId definition := by
  simp only [insertNew, bind_eq_ok, Except.rejectIf_eq_ok, pure_eq_ok, exists_const]

theorem foldlM_insertNew_eq_ok : definitions.foldlM insertNew byId = .ok byId' ↔
      ((definitions.map (·.entityId)).Nodup ∧ ∀ definition ∈ definitions,
        definition.entityId ∉ byId) ∧
      byId' = definitions.foldl
        (fun byId definition ↦ byId.insert definition.entityId definition) byId := by
  induction definitions generalizing byId with
  | nil => simp [pure_eq_ok]
  | cons definition definitions ih =>
    rw [List.foldlM_cons, bind_eq_ok]
    simp only [insertNew_eq_ok, ih, List.map_cons, List.nodup_cons,
      List.foldl_cons, List.forall_mem_cons, List.mem_map]
    grind

section

variable (hnodup : (definitions.map (·.entityId)).Nodup)

include hnodup

theorem getElem?_foldl_insert {byId : EntityMap TypeDefinition}
    (hfresh : ∀ definition ∈ definitions, definition.entityId ∉ byId) :
    (definitions.foldl (fun byId definition ↦ byId.insert definition.entityId definition)
      byId)[id]? = some definition ↔
        byId[id]? = some definition ∨ definition ∈ definitions ∧ definition.entityId = id := by
  induction definitions generalizing byId with
  | nil => simp
  | cons first definitions ih =>
    rw [List.map_cons, List.nodup_cons] at hnodup
    obtain ⟨hfirst, hrest⟩ := List.forall_mem_cons.1 hfresh
    rw [List.foldl_cons, ih hnodup.2 fun d hd hmem ↦ ?_, EntityMap.getElem?_insert_eq]
    · have hnone := EntityMap.not_mem_iff.1 hfirst
      split
      · subst id
        grind
      · grind
    · obtain heq | hmem := EntityMap.mem_insert_iff.1 hmem
      · exact hnodup.1 (heq ▸ List.mem_map_of_mem hd)
      · exact hrest d hd hmem

/-- A definition is found at its own identity. -/
theorem getElem?_indexed : (indexed definitions)[id]? = some definition ↔
      definition ∈ definitions ∧ definition.entityId = id := by
  rw [indexed, getElem?_foldl_insert hnodup fun _ _ ↦ Std.ExtTreeMap.not_mem_empty]
  simp

theorem intoValues_indexed : (indexed definitions).intoValues.Perm definitions := by
  have hvalues : ((indexed definitions).intoValues.map (·.entityId)).Nodup :=
    (EntityMap.sorted_intoValues fun h ↦ ((getElem?_indexed hnodup).1 h).2).imp
      fun hlt heq ↦ by simp [heq] at hlt
  refine (List.perm_ext_iff_of_nodup hvalues.of_map hnodup.of_map).2 fun definition ↦ ?_
  rw [EntityMap.mem_intoValues_iff]
  simp only [getElem?_indexed hnodup, exists_and_left, exists_eq', and_true]

end

theorem new_eq_ok_iff : new definitions = .ok env ↔
    definitions.length ≤ maxDefinitions ∧ (definitions.map (·.entityId)).Nodup ∧
      env = ⟨indexed definitions⟩ ∧ Admitted ⟨indexed definitions⟩ := by
  have hfold : ∀ byId, definitions.foldlM insertNew ∅ = .ok byId ↔
      (definitions.map (·.entityId)).Nodup ∧ byId = indexed definitions := fun byId ↦ by
    rw [foldlM_insertNew_eq_ok]
    simp [indexed]
  constructor
  · intro h
    obtain ⟨_, hlength, h⟩ := bind_eq_ok.1 h
    obtain ⟨byId, hbyId, h⟩ := bind_eq_ok.1 h
    obtain ⟨hnodup, rfl⟩ := (hfold byId).1 hbyId
    obtain ⟨_, hshape, h⟩ := bind_eq_ok.1 h
    obtain ⟨_, hcycles, h⟩ := bind_eq_ok.1 h
    obtain ⟨_, hkeys, h⟩ := bind_eq_ok.1 h
    obtain ⟨r, hrun, -⟩ := map_eq_ok.1 hkeys
    exact ⟨Nat.not_lt.1 (Except.rejectIf_eq_ok.1 hlength), hnodup, pure_eq_ok.1 h,
      forM_eq_ok.1 hshape, hcycles, r, hrun⟩
  · rintro ⟨hlength, hnodup, rfl, hshape, hcycles, r, hkeys⟩
    refine bind_eq_ok.2 ⟨(), Except.rejectIf_neg (Nat.not_lt.2 hlength) _,
      bind_eq_ok.2 ⟨_, (hfold _).2 ⟨hnodup, rfl⟩, bind_eq_ok.2 ⟨(), ?_,
        bind_eq_ok.2 ⟨(), hcycles, bind_eq_ok.2 ⟨(), ?_, rfl⟩⟩⟩⟩⟩
    · exact forM_eq_ok.2 hshape
    · exact map_eq_ok.2 ⟨_, hkeys, rfl⟩

theorem definition_indexed (hnodup : (definitions.map (·.entityId)).Nodup) :
    TypeEnvironment.definition ⟨indexed definitions⟩ id = .ok definition ↔
      definition ∈ definitions ∧ definition.entityId = id :=
  ofOption_eq_ok.trans (getElem?_indexed hnodup)

/-! ### Renaming -/

theorem rename_entityId (definition : TypeDefinition) :
    (definition.rename ρ).entityId = ρ definition.entityId := rfl

theorem nodup_rename_iff (hρ : Function.Injective ρ)
    (hperm : definitions'.Perm (definitions.map (·.rename ρ))) :
    (definitions'.map (·.entityId)).Nodup ↔ (definitions.map (·.entityId)).Nodup := by
  rw [(hperm.map _).nodup_iff, List.map_map]
  show (definitions.map (ρ ∘ (·.entityId))).Nodup ↔ _
  rw [← List.map_map, List.nodup_map_iff hρ]

theorem renames_indexed (hρ : Function.Injective ρ)
    (hperm : definitions'.Perm (definitions.map (·.rename ρ)))
    (hnodup : (definitions.map (·.entityId)).Nodup) :
    Renames ρ ⟨indexed definitions⟩ ⟨indexed definitions'⟩ := by
  have hnodup' := (nodup_rename_iff hρ hperm).2 hnodup
  have hmem : ∀ definition', definition' ∈ definitions' ↔
      ∃ definition ∈ definitions, definition.rename ρ = definition' := fun definition' ↦ by
    rw [hperm.mem_iff, List.mem_map]
  refine ⟨hρ, fun id ↦ ?_, fun {id definition'} h ↦ ?_⟩
  · have hlookup : (indexed definitions')[ρ id]? =
        ((indexed definitions)[id]?).map (TypeDefinition.rename ρ) := by
      ext definition'
      rw [getElem?_indexed hnodup', hmem]
      simp only [Option.map_eq_some_iff, getElem?_indexed hnodup]
      constructor
      · rintro ⟨⟨definition, hdefinition, rfl⟩, hid⟩
        exact ⟨definition, ⟨hdefinition, hρ hid⟩, rfl⟩
      · rintro ⟨definition, ⟨hdefinition, rfl⟩, rfl⟩
        exact ⟨⟨definition, hdefinition, rfl⟩, rfl⟩
    show ofOption _ (indexed definitions')[ρ id]? =
      _ <$> ofOption _ (indexed definitions)[id]?
    rw [hlookup]
    cases (indexed definitions)[id]? <;> rfl
  · obtain ⟨hdefinition, hid⟩ := (definition_indexed hnodup').1 h
    obtain ⟨definition, -, rfl⟩ := (hmem definition').1 hdefinition
    exact ⟨definition.entityId, hid.symm⟩

theorem mem_dependencies_rename :
    id ∈ dependencies (definition.rename ρ) ↔ ∃ name ∈ dependencies definition, id = ρ name := by
  simp only [mem_dependencies, memberTypes_rename, List.mem_map]
  constructor
  · rintro ⟨_, ⟨m, hm, rfl⟩, hnames⟩
    obtain ⟨name, hname, rfl⟩ := names_rename_iff.1 hnames
    exact ⟨name, ⟨m, hm, hname⟩, rfl⟩
  · rintro ⟨name, ⟨m, hm, hname⟩, rfl⟩
    exact ⟨_, ⟨m, hm, rfl⟩, names_rename_iff.2 ⟨name, hname, rfl⟩⟩

theorem Renames.exists_of_depends (h : Renames ρ env env') {dependency id : EntityId}
    (hdepends : env'.Depends dependency id) :
    ∃ dependency₀ id₀, env.Depends dependency₀ id₀ ∧ dependency = ρ dependency₀ ∧ id = ρ id₀ := by
  obtain ⟨_, hfound, hmem⟩ := hdepends
  obtain ⟨id₀, rfl⟩ := h.exists_of_ok hfound
  rw [h.definition, map_eq_ok] at hfound
  obtain ⟨definition, hid, rfl⟩ := hfound
  obtain ⟨dependency₀, hdependency, rfl⟩ := mem_dependencies_rename.1 hmem
  exact ⟨dependency₀, id₀, ⟨definition, hid, hdependency⟩, rfl, rfl⟩

theorem Renames.depends_iff (h : Renames ρ env env') {dependency id : EntityId} :
    env'.Depends (ρ dependency) (ρ id) ↔ env.Depends dependency id := by
  constructor
  · intro hdepends
    obtain ⟨dependency₀, id₀, hdepends, hdependency, hid⟩ := h.exists_of_depends hdepends
    rwa [h.injective hdependency, h.injective hid]
  · rintro ⟨definition, hid, hdependency⟩
    refine ⟨definition.rename ρ, ?_, mem_dependencies_rename.2 ⟨dependency, hdependency, rfl⟩⟩
    rw [h.definition, hid]
    rfl

theorem Renames.acc_iff (h : Renames ρ env env') :
    Acc env'.Depends (ρ id) ↔ Acc env.Depends id := by
  constructor
  · exact fun hacc ↦ Subrelation.accessible (fun hdepends ↦ h.depends_iff.2 hdepends)
      (InvImage.accessible ρ hacc)
  · intro hacc
    induction hacc with
    | intro id _ ih =>
      refine ⟨_, fun dependency hdepends ↦ ?_⟩
      obtain ⟨dependency₀, id₀, hdepends₀, rfl, hid⟩ := h.exists_of_depends hdepends
      exact ih dependency₀ (h.injective hid ▸ hdepends₀)

/-! ### The search for cycles -/

/-- Every definition that a definition names is there. -/
def Resolved (env : TypeEnvironment) : Prop :=
  ∀ {dependency id : EntityId}, env.Depends dependency id →
    ∃ definition, env.definition dependency = .ok definition

/-- No chain of definitions, each named by the next, is longer than the depth limit. -/
def Shallow (env : TypeEnvironment) : Prop :=
  ∀ chain : List EntityId, chain.IsChain env.Depends →
    (∀ id ∈ chain, ∃ definition, env.definition id = .ok definition) → chain.length ≤ maxTypeDepth

/-- A visit below a chain of active definitions succeeds, and leaves active what was. -/
theorem exists_run_visitDefinition (hresolved : env.Resolved) (hshallow : env.Shallow)
    (hacc : ∀ {id definition}, env.definition id = .ok definition → Acc env.Depends id)
    (chain : List EntityId) (visits : EntityMap Visit) (hchain : (id :: chain).IsChain env.Depends)
    (hfound : ∀ id' ∈ id :: chain, ∃ definition, env.definition id' = .ok definition)
    (hactive : ∀ other : EntityId, visits[other]? = some .active →
      Relation.TransGen env.Depends id other) :
    ∃ visits', (env.visitDefinition id (id :: chain).length).run visits = .ok ((), visits') ∧
      ∀ other : EntityId, visits'[other]? = some .active ↔ visits[other]? = some .active := by
  have hdepth := hshallow _ hchain hfound
  induction hfuel : maxTypeDepth + 1 - (id :: chain).length using Nat.strong_induction_on
    generalizing id chain visits with
  | _ fuel ih =>
  obtain ⟨definition, hid⟩ := hfound id List.mem_cons_self
  rw [visitDefinition.eq_def, dif_neg (Nat.not_lt.2 hdepth)]
  match hstate : visits[id]? with
  | some .active => exact absurd (hactive id hstate) (not_transGen_of_acc (hacc hid))
  | some .complete =>
    refine ⟨visits, run_bind_eq_ok.2 ⟨visits, visits, rfl, ?_⟩, fun other ↦ Iff.rfl⟩
    rw [hstate]
    rfl
  | none =>
    have hstart : ∀ other : EntityId, (visits.insert id .active)[other]? = some .active ↔
        other = id ∨ visits[other]? = some .active := fun other ↦ by
      rw [EntityMap.getElem?_insert_eq]
      split <;> simp [*]
    obtain ⟨visits₁, hloop, hactive₁⟩ : ∃ visits₁, ((dependencies definition).forM fun dependency ↦ do
        discard (StateT.ofExcept (env.definition dependency))
        env.visitDefinition dependency ((id :: chain).length + 1)).run (visits.insert id .active) =
          .ok ((), visits₁) ∧ ∀ other : EntityId, visits₁[other]? = some .active ↔
            other = id ∨ visits[other]? = some .active := by
      refine exists_run_forM (fun dependency hdependency visits₁ hactive₁ ↦ ?_) hstart
      have hdepends : env.Depends dependency id := ⟨definition, hid, hdependency⟩
      obtain ⟨found, hdefinition⟩ := hresolved hdepends
      have hlonger : (dependency :: id :: chain).IsChain env.Depends := hchain.cons_cons hdepends
      have hfoundAll : ∀ id' ∈ dependency :: id :: chain,
          ∃ definition, env.definition id' = .ok definition :=
        List.forall_mem_cons.2 ⟨⟨found, hdefinition⟩, hfound⟩
      have hdeeper := hshallow _ hlonger hfoundAll
      have hlength : (dependency :: id :: chain).length = (id :: chain).length + 1 := rfl
      obtain ⟨visits₂, hrun, hsame⟩ := ih _ (by omega) (id :: chain) visits₁ hlonger hfoundAll
        (fun other hother ↦ by
          obtain rfl | hother := (hactive₁ other).1 hother
          · exact .single hdepends
          · exact .head hdepends (hactive other hother)) hdeeper rfl
      refine ⟨visits₂, run_bind_eq_ok.2 ⟨(), visits₁, ?_, hrun⟩,
        fun other ↦ (hsame other).trans (hactive₁ other)⟩
      rw [hdefinition]
      rfl
    refine ⟨visits₁.insert id .complete, run_bind_eq_ok.2 ⟨visits, visits, rfl, ?_⟩, fun other ↦ ?_⟩
    · rw [hstate]
      exact run_bind_eq_ok.2 ⟨_, _, rfl, run_bind_eq_ok.2 ⟨definition, _,
        run_ofExcept_eq_ok.2 ⟨hid, rfl⟩, run_bind_eq_ok.2 ⟨_, _, hloop, rfl⟩⟩⟩
    · rw [EntityMap.getElem?_insert_eq]
      split
      · subst other
        simp [hstate]
      · rw [hactive₁]
        simp [*]

/-- **The search passes what is founded**, when no chain is too long. -/
theorem rejectDefinitionCycles_eq_ok_iff (hresolved : env.Resolved) (hshallow : env.Shallow) :
    env.rejectDefinitionCycles = .ok () ↔
      ∀ id definition, env.definition id = .ok definition → Acc env.Depends id := by
  refine ⟨fun h id definition hid ↦ acc_of_rejectDefinitionCycles h hid, fun hacc ↦ ?_⟩
  obtain ⟨visits, hrun, -⟩ : ∃ visits, (env.definitions.toList.forM fun entry ↦
      env.visitDefinition entry.1 1).run ∅ = .ok ((), visits) ∧
        ∀ id : EntityId, visits[id]? ≠ some .active := by
    refine exists_run_forM (fun entry hentry visits hnone ↦ ?_) (by simp)
    have hid : env.definition entry.1 = .ok entry.2 :=
      ofOption_eq_ok.2 (Std.ExtTreeMap.mem_toList_iff_getElem?_eq_some.1 hentry)
    obtain ⟨visits', hrun, hsame⟩ := exists_run_visitDefinition hresolved hshallow
      (fun {id definition} ↦ hacc id definition) [] visits (.singleton entry.1)
      (by simpa using ⟨_, hid⟩) fun other hother ↦ absurd hother (hnone other)
    exact ⟨visits', hrun, fun id hid ↦ hnone id ((hsame id).1 hid)⟩
  exact map_eq_ok.2 ⟨_, hrun, rfl⟩

theorem not_transGen_of_rejectDefinitionCycles (h : env.rejectDefinitionCycles = .ok ())
    (id : EntityId) : ¬ Relation.TransGen env.Depends id id := by
  intro hcycle
  obtain ⟨_, -, definition, hid, -⟩ := Relation.TransGen.tail'_iff.1 hcycle
  exact not_transGen_of_acc (acc_of_rejectDefinitionCycles h hid) hcycle

theorem resolved_of_shape (h : ∀ {id definition}, env.definition id = .ok definition →
    env.checkDefinitionShape definition = .ok ()) : env.Resolved := by
  rintro dependency id ⟨definition, hid, hdependency⟩
  obtain ⟨m, hm, arguments, hoccurs⟩ := mem_dependencies.1 hdependency
  obtain ⟨-, found, hfound, -⟩ := inScope_of_checkDefinitionShape (h hid) hm _ hoccurs
  exact ⟨found, hfound⟩

/-! ### One walk in any order -/

/-- **The walk for the keys of maps may go through the definitions in any order.** -/
theorem exists_walk_of_perm {xs ys : List TypeDefinition} (hperm : xs.Perm ys)
    (h : ∃ r, (xs.forM env.checkDefinitionMapKeys).run .empty = .ok r) :
    ∃ r, (ys.forM env.checkDefinitionMapKeys).run .empty = .ok r := by
  obtain ⟨r, hrun⟩ := h
  have hagrees : ∀ zs : List TypeDefinition, Agrees env (zs.forM env.checkDefinitionMapKeys)
      (zs.forM fun definition ↦
        (memberTypes definition.form).forM fun m ↦ env.structuralMapKeys m 1) := fun zs ↦
    .forM fun definition _ ↦ .forM fun m _ ↦ agrees_mapKeys m 1
  have hitems : ∀ zs : List TypeDefinition, env.walkBill.Itemizes outOfVisits
      (zs.forM env.checkDefinitionMapKeys) _ := fun zs ↦
    .forM fun definition _ ↦ itemizes_definition definition
  have hstructural := ((hagrees xs).ok TypeWalk.sound_empty hrun).1
  cases hother : (ys.forM env.checkDefinitionMapKeys).run .empty with
  | ok r' => exact ⟨r', rfl⟩
  | error e =>
    obtain hlimit | hwrong := (hagrees ys).error TypeWalk.sound_empty hother
    · have hclosed : env.walkBill.Closed .empty := fun k hk ↦ absurd hk (Finset.notMem_empty k)
      exact absurd hother ((hitems xs).of_perm (hitems ys) (hperm.flatMap_right _) hclosed
        (Nat.zero_le _) hrun hlimit)
    · have hall := forM_eq_ok.1 hstructural
      have hpass := (forM_eq_ok (u := ())).2 fun definition hdefinition ↦
        hall definition (hperm.mem_iff.2 hdefinition)
      rw [hpass] at hwrong
      cases hwrong

/-! ### Admission -/

/-- The definition names the other. -/
def NamedBy (definitions : List TypeDefinition) (dependency id : EntityId) : Prop :=
  ∃ definition ∈ definitions, definition.entityId = id ∧ dependency ∈ dependencies definition

/-- No definition depends on itself, and some chain of definitions, each named by the next, is longer
than the depth limit. -/
def Overlong (definitions : List TypeDefinition) : Prop :=
  (∀ id, ¬ Relation.TransGen (NamedBy definitions) id id) ∧
    ∃ chain : List EntityId, chain.IsChain (NamedBy definitions) ∧
      (∀ id ∈ chain, id ∈ definitions.map (·.entityId)) ∧ maxTypeDepth < chain.length

theorem depends_indexed (hnodup : (definitions.map (·.entityId)).Nodup) :
    Depends ⟨indexed definitions⟩ = NamedBy definitions := by
  funext dependency id
  simp only [Depends, NamedBy, definition_indexed hnodup, and_assoc]

theorem shallow_indexed (hnodup : (definitions.map (·.entityId)).Nodup)
    (hacyclic : ∀ id, ¬ Relation.TransGen (NamedBy definitions) id id)
    (h : ¬ Overlong definitions) : Shallow ⟨indexed definitions⟩ := by
  intro chain hchain hfound
  rw [depends_indexed hnodup] at hchain
  by_contra hlong
  refine h ⟨hacyclic, chain, hchain, fun id hid ↦ ?_, Nat.not_le.1 hlong⟩
  obtain ⟨definition, hdefinition⟩ := hfound id hid
  obtain ⟨hmem, rfl⟩ := (definition_indexed hnodup).1 hdefinition
  exact List.mem_map_of_mem hmem

theorem Renames.shallow (h : Renames ρ env env') (hshallow : env.Shallow) : env'.Shallow := by
  intro chain hchain hfound
  obtain ⟨chain, rfl⟩ : ∃ names : List EntityId, names.map ρ = chain := by
    have hrange : chain ∈ Set.range (List.map ρ) := by
      rw [Set.range_list_map]
      intro id hid
      obtain ⟨definition, hdefinition⟩ := hfound id hid
      obtain ⟨name, rfl⟩ := h.exists_of_ok hdefinition
      exact ⟨name, rfl⟩
    exact hrange
  rw [List.length_map]
  rw [List.isChain_map] at hchain
  refine hshallow chain (hchain.imp fun _ _ ↦ h.depends_iff.1) fun id hid ↦ ?_
  obtain ⟨definition, hdefinition⟩ := hfound _ (List.mem_map_of_mem hid)
  rw [h.definition, map_eq_ok] at hdefinition
  obtain ⟨definition₀, hid₀, -⟩ := hdefinition
  exact ⟨definition₀, hid₀⟩

theorem Renames.cycles_iff (h : Renames ρ env env') (hresolved : env.Resolved)
    (hresolved' : env'.Resolved) (hshallow : env.Shallow) :
    env'.rejectDefinitionCycles = .ok () ↔ env.rejectDefinitionCycles = .ok () := by
  rw [rejectDefinitionCycles_eq_ok_iff hresolved hshallow,
    rejectDefinitionCycles_eq_ok_iff hresolved' (h.shallow hshallow)]
  constructor
  · intro hacc id definition hid
    refine h.acc_iff.1 (hacc (ρ id) (definition.rename ρ) ?_)
    rw [h.definition, hid]
    rfl
  · intro hacc id definition hid
    obtain ⟨name, rfl⟩ := h.exists_of_ok hid
    rw [h.definition, map_eq_ok] at hid
    obtain ⟨definition₀, hname, -⟩ := hid
    exact h.acc_iff.2 (hacc name definition₀ hname)

/-- The checks after the index, before and after renaming. -/
theorem admitted_rename_iff (hρ : Function.Injective ρ)
    (hperm : definitions'.Perm (definitions.map (·.rename ρ)))
    (hnodup : (definitions.map (·.entityId)).Nodup) (hshallow : ¬ Overlong definitions) :
    Admitted ⟨indexed definitions'⟩ ↔ Admitted ⟨indexed definitions⟩ := by
  have hnodup' := (nodup_rename_iff hρ hperm).2 hnodup
  have hrenames := renames_indexed hρ hperm hnodup
  have hvalues := intoValues_indexed hnodup
  have hvalues' : (indexed definitions').intoValues.Perm
      ((indexed definitions).intoValues.map (·.rename ρ)) :=
    (intoValues_indexed hnodup').trans (hperm.trans (hvalues.symm.map _))
  have hshape : (∀ definition ∈ (indexed definitions').intoValues,
      checkDefinitionShape ⟨indexed definitions'⟩ definition = .ok ()) ↔
        ∀ definition ∈ (indexed definitions).intoValues,
          checkDefinitionShape ⟨indexed definitions⟩ definition = .ok () := by
    simp only [hvalues'.mem_iff, List.forall_mem_map, hrenames.checkDefinitionShape]
  have hkeys : (∃ r, ((indexed definitions').intoValues.forM
        (checkDefinitionMapKeys ⟨indexed definitions'⟩)).run .empty = .ok r) ↔
      ∃ r, ((indexed definitions).intoValues.forM
        (checkDefinitionMapKeys ⟨indexed definitions⟩)).run .empty = .ok r := by
    have htransports : (∃ r, (((indexed definitions).intoValues.map (·.rename ρ)).forM
          (checkDefinitionMapKeys ⟨indexed definitions'⟩)).run (renameWalk ρ .empty) = .ok r) ↔ _ :=
      (Transports.forM fun definition _ ↦
        hrenames.transports_definition definition).exists_ok_iff .empty
    rw [← htransports]
    exact ⟨exists_walk_of_perm hvalues', exists_walk_of_perm hvalues'.symm⟩
  have hfound : ∀ {definitions : List TypeDefinition} {id : EntityId} {definition : TypeDefinition},
      TypeEnvironment.definition ⟨indexed definitions⟩ id = .ok definition →
        definition ∈ (indexed definitions).intoValues := fun hid ↦
    EntityMap.mem_intoValues_iff.2 ⟨_, ofOption_eq_ok.1 hid⟩
  have hcycles (hall : ∀ definition ∈ (indexed definitions).intoValues,
      checkDefinitionShape ⟨indexed definitions⟩ definition = .ok ()) :
      rejectDefinitionCycles ⟨indexed definitions'⟩ = .ok () ↔
        rejectDefinitionCycles ⟨indexed definitions⟩ = .ok () := by
    have hresolved : Resolved ⟨indexed definitions⟩ :=
      resolved_of_shape fun hid ↦ hall _ (hfound hid)
    have hresolved' : Resolved ⟨indexed definitions'⟩ :=
      resolved_of_shape fun hid ↦ hshape.2 hall _ (hfound hid)
    by_cases hacyclic : ∀ id, ¬ Relation.TransGen (NamedBy definitions) id id
    · exact hrenames.cycles_iff hresolved hresolved' (shallow_indexed hnodup hacyclic hshallow)
    -- neither search passes a cycle
    obtain ⟨id, hcycle⟩ : ∃ id, Relation.TransGen (NamedBy definitions) id id := by
      simpa using hacyclic
    rw [← depends_indexed hnodup] at hcycle
    refine ⟨fun h ↦ ?_, fun h ↦ absurd hcycle (not_transGen_of_rejectDefinitionCycles h id)⟩
    exact absurd (hcycle.lift ρ fun _ _ ↦ hrenames.depends_iff.2)
      (not_transGen_of_rejectDefinitionCycles h (ρ id))
  constructor
  · rintro ⟨hshapes, hacyclic, hwalk⟩
    have hall := hshape.1 hshapes
    exact ⟨hall, (hcycles hall).1 hacyclic, hkeys.1 hwalk⟩
  · rintro ⟨hall, hacyclic, hwalk⟩
    exact ⟨hshape.2 hall, (hcycles hall).2 hacyclic, hkeys.2 hwalk⟩

/-- **Admission does not depend on the names of definitions**, when no chain of definitions is too
long. -/
theorem exists_new_rename_iff (hρ : Function.Injective ρ)
    (hperm : definitions'.Perm (definitions.map (·.rename ρ)))
    (hshallow : ¬ Overlong definitions) :
    (∃ env', new definitions' = .ok env') ↔ ∃ env, new definitions = .ok env := by
  simp only [new_eq_ok_iff, exists_and_left, exists_eq_left]
  rw [hperm.length_eq, List.length_map, nodup_rename_iff hρ hperm]
  exact and_congr_right fun _ ↦ and_congr_right fun hnodup ↦
    admitted_rename_iff hρ hperm hnodup hshallow

/-! ### A long chain -/

namespace Chained

/-- The identities in the opposite order. -/
def complement (id : EntityId) : EntityId :=
  ⟨id.bytes.map (~~~ ·), by rw [List.length_map, id.length_eq]⟩

theorem complement_injective : Function.Injective complement := by
  refine Function.LeftInverse.injective (g := complement) fun id ↦ Id.ext ?_
  simp [complement, Function.comp_def]

/-- A record with one type parameter and one field. -/
def link (id : UInt8) (valueType : TypeExpr) : TypeDefinition where
  entityId := .splat id
  typeParameters := [⟨0⟩]
  form := .record [⟨.splat 1, valueType, .exported⟩]
  invariants := []

/-- Each of 65 records holds the next, applied to its own parameter. -/
def links : List TypeDefinition :=
  (List.range 64).map (fun k ↦
    link k.toUInt8 (.named (.splat (k + 1).toUInt8) [.typeParameter 0])) ++
      [link 64 (.typeParameter 0)]

end Chained

open Chained in
/-- The chain is too deep when the search meets it at its head, and is admitted under names that sort
the other way. -/
theorem not_new_rename_iff_links : Function.Injective complement ∧
    (links.map (·.rename complement)).reverse.Perm (links.map (·.rename complement)) ∧
    ¬ ((∃ env', new (links.map (·.rename complement)).reverse = .ok env') ↔
      ∃ env, new links = .ok env) := by
  have hrefused : (new links).isOk = false := by decide +kernel
  have hadmitted : (new (links.map (·.rename complement)).reverse).isOk = true := by decide +kernel
  refine ⟨complement_injective, List.reverse_perm _, fun hiff ↦ ?_⟩
  obtain ⟨env', henv'⟩ : ∃ env', new (links.map (·.rename complement)).reverse = .ok env' := by
    cases h : new (links.map (·.rename complement)).reverse with
    | ok env' => exact ⟨env', rfl⟩
    | error e => rw [h] at hadmitted; cases hadmitted
  obtain ⟨env, henv⟩ := hiff.1 ⟨env', henv'⟩
  rw [henv] at hrefused
  cases hrefused

open Boxed in
theorem eq_of_namedBy_boxed {dependency id : EntityId} (h : NamedBy [box, boxes] dependency id) :
    dependency = .splat 1 ∧ id = .splat 2 := by
  have hbox : dependencies box = [] := by decide
  have hboxes : dependencies boxes = [.splat 1] := by decide
  obtain ⟨definition, hdefinition, rfl, hdependency⟩ := h
  obtain rfl | hdefinition := List.mem_cons.1 hdefinition
  · rw [hbox] at hdependency
    exact (List.not_mem_nil hdependency).elim
  · obtain rfl := List.mem_singleton.1 hdefinition
    rw [hboxes] at hdependency
    exact ⟨List.mem_singleton.1 hdependency, rfl⟩

open Boxed Chained in
/-- A record of boxes under other names. -/
theorem exists_new_rename_iff_boxed :
    (∃ env', new [boxes.rename complement, box.rename complement] = .ok env') ↔
      ∃ env, new [box, boxes] = .ok env := by
  refine exists_new_rename_iff complement_injective (List.Perm.swap _ _ _) ?_
  rintro ⟨-, chain, hchain, -, hlong⟩
  match chain, hchain, hlong with
  | [], _, hlong => exact absurd hlong (by decide)
  | [_], _, hlong => exact absurd hlong (by simp [maxTypeDepth])
  | [_, _], _, hlong => exact absurd hlong (by simp [maxTypeDepth])
  | _ :: middle :: _ :: _, hchain, _ =>
    -- what names a definition here is not named itself
    rw [List.isChain_cons_cons, List.isChain_cons_cons] at hchain
    have hnamed := (eq_of_namedBy_boxed hchain.1).2
    rw [(eq_of_namedBy_boxed hchain.2.1).1] at hnamed
    exact absurd hnamed (by decide)

end TypeEnvironment

end Sley.TypeCheck
