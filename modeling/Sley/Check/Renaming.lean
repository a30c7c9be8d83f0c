import Sley.Check.Substitution
import Sley.Lib.Itemized
import Sley.Lib.Transport

/-!
# Names of definitions

The identity of a definition is a name: a renaming replaces it in the definition and in every type
that refers to it. The checks of a definition and the walks into the definitions that a type names
do the same after an injective renaming, error by error.
-/

namespace Sley.Ssmc.TypeExpr

mutual

/-- The type with its definitions renamed. -/
def rename (ρ : EntityId → EntityId) : TypeExpr → TypeExpr
  | tuple items => tuple (renameAll ρ items)
  | named definition arguments => named (ρ definition) (renameAll ρ arguments)
  | vector element => vector (element.rename ρ)
  | orderedMap key value => orderedMap (key.rename ρ) (value.rename ρ)
  | option element => option (element.rename ρ)
  | result ok error => result (ok.rename ρ) (error.rename ρ)
  | functionRef parameters returned effects =>
    functionRef (renameAll ρ parameters) (returned.rename ρ) effects
  | localCell element => localCell (element.rename ρ)
  | other => other

def renameAll (ρ : EntityId → EntityId) : List TypeExpr → List TypeExpr
  | [] => []
  | value :: values => value.rename ρ :: renameAll ρ values

end

variable {ρ σ : EntityId → EntityId} {t : TypeExpr}

theorem renameAll_eq_map (values : List TypeExpr) : renameAll ρ values = values.map (rename ρ) := by
  induction values with
  | nil => rw [renameAll, List.map_nil]
  | cons value values ih => rw [renameAll, List.map_cons, ih]

theorem components_rename (t : TypeExpr) : (t.rename ρ).components = t.components.map (rename ρ) := by
  cases t <;> simp [rename, components, renameAll_eq_map]

/-- Renaming back is no renaming. -/
theorem leftInverse_rename (h : Function.LeftInverse σ ρ) :
    Function.LeftInverse (rename σ) (rename ρ) := by
  intro t
  induction t using inductionOn with
  | step t ih =>
    have hlist : ∀ {values : List TypeExpr}, values ⊆ t.components →
        (values.map (rename ρ)).map (rename σ) = values := fun {values} hsub ↦ by
      rw [List.map_map]
      exact (List.map_congr_left fun v hv ↦ ih v (hsub hv)).trans (List.map_id values)
    cases t with
    | tuple items =>
      rw [rename, rename, renameAll_eq_map, renameAll_eq_map, hlist (List.Subset.refl items)]
    | named definition arguments =>
      rw [rename, rename, renameAll_eq_map, renameAll_eq_map, hlist (List.Subset.refl arguments),
        h definition]
    | functionRef parameters returned effects =>
      rw [rename, rename, renameAll_eq_map, renameAll_eq_map,
        hlist (List.subset_append_left _ _), ih returned (by simp [components])]
    | vector element | option element | localCell element =>
      rw [rename, rename, ih element (by simp [components])]
    | orderedMap a b | result a b =>
      rw [rename, rename, ih a (by simp [components]), ih b (by simp [components])]
    | _ => rfl

theorem rename_injective (hρ : Function.Injective ρ) : Function.Injective (rename ρ) :=
  (leftInverse_rename (Function.leftInverse_invFun hρ)).injective

end Sley.Ssmc.TypeExpr

namespace Sley.TypeCheck

open Ssmc TypeExpr StateT TypeEnvironment

variable {ρ : EntityId → EntityId} {t : TypeExpr} {depth : Nat} {arguments : List TypeExpr}

/-- The definition with its name and those it refers to renamed. -/
def TypeDefinition.rename (ρ : EntityId → EntityId) (definition : TypeDefinition) :
    TypeDefinition where
  entityId := ρ definition.entityId
  typeParameters := definition.typeParameters
  form := match definition.form with
    | .record fields => .record
        (fields.map fun field ↦ { field with valueType := field.valueType.rename ρ })
    | .variant cases => .variant
        (cases.map fun case ↦ { case with payloadType := case.payloadType.map (·.rename ρ) })
  invariants := definition.invariants

theorem memberTypes_rename (definition : TypeDefinition) : memberTypes (definition.rename ρ).form =
      (memberTypes definition.form).map (TypeExpr.rename ρ) := by
  obtain ⟨id, parameters, form, invariants⟩ := definition
  cases form with
  | record fields => simp [TypeDefinition.rename, memberTypes, Function.comp_def]
  | variant cases =>
    simp [TypeDefinition.rename, memberTypes, List.filterMap_map, List.map_filterMap]

theorem memberIds_rename (definition : TypeDefinition) :
    memberIds (definition.rename ρ).form = memberIds definition.form := by
  obtain ⟨id, parameters, form, invariants⟩ := definition
  cases form <;> simp [TypeDefinition.rename, memberIds, Function.comp_def]

/-! ### Types -/

theorem containsParameter_rename (t : TypeExpr) :
    containsParameter (t.rename ρ) = containsParameter t := by
  rw [Bool.eq_iff_iff]
  refine (walk_iff_exists_occursIn (P := fun t ↦ containsParameter (t.rename ρ) = true)
    (Q := fun t ↦ ∃ ordinal, t = typeParameter ordinal) (fun t ↦ ?_) t).trans ?_
  · cases t <;> simp [TypeExpr.rename, containsParameter, containsTypeParameter,
      anyContainsTypeParameter_eq, components, renameAll_eq_map, or_and_right, exists_or]
  · rw [containsParameter_iff]
    constructor
    · rintro ⟨_, hoccurs, ordinal, h⟩
      exact ⟨ordinal, h ▸ hoccurs⟩
    · rintro ⟨ordinal, hoccurs⟩
      exact ⟨_, hoccurs, ordinal, rfl⟩

theorem any_containsParameter_rename (values : List TypeExpr) :
    (values.map (TypeExpr.rename ρ)).any containsParameter = values.any containsParameter := by
  rw [List.any_map]
  exact congrArg values.any (funext containsParameter_rename)

theorem names_rename_iff {id : EntityId} :
    Names (t.rename ρ) id ↔ ∃ name, Names t name ∧ id = ρ name := by
  induction t using inductionOn with
  | step t ih =>
    rw [names_iff_components, components_rename]
    simp only [List.mem_map, exists_exists_and_eq_and]
    constructor
    · rintro (⟨inner, h⟩ | ⟨c, hc, h⟩)
      · cases t <;> cases h
        exact ⟨_, ⟨_, .refl _⟩, rfl⟩
      · obtain ⟨name, ⟨inner, hname⟩, rfl⟩ := (ih c hc).1 h
        exact ⟨name, ⟨inner, hname.trans (.of_mem hc)⟩, rfl⟩
    · rintro ⟨name, hname, rfl⟩
      obtain ⟨inner, rfl⟩ | ⟨c, hc, h⟩ := names_iff_components.1 hname
      · exact .inl ⟨_, rfl⟩
      · exact .inr ⟨c, hc, (ih c hc).2 ⟨name, h, rfl⟩⟩

theorem substituteAll_rename {values : List TypeExpr}
    (h : ∀ v ∈ values, substitute (arguments.map (TypeExpr.rename ρ)) (v.rename ρ) depth =
      TypeExpr.rename ρ <$> substitute arguments v depth) :
    substituteAll (arguments.map (TypeExpr.rename ρ)) (values.map (TypeExpr.rename ρ)) depth =
      List.map (TypeExpr.rename ρ) <$> substituteAll arguments values depth := by
  induction values with
  | nil => rfl
  | cons v values ih =>
    obtain ⟨hv, hvalues⟩ := List.forall_mem_cons.1 h
    rw [List.map_cons, substituteAll, substituteAll, hv, ih hvalues]
    cases substitute arguments v depth with
    | error e => rfl
    | ok v' => cases substituteAll arguments values depth <;> rfl

/-- Substitution does not look at names. -/
theorem substitute_rename (t : TypeExpr) (depth : Nat) :
    substitute (arguments.map (TypeExpr.rename ρ)) (t.rename ρ) depth =
      TypeExpr.rename ρ <$> substitute arguments t depth := by
  induction t using inductionOn generalizing depth with
  | step t ih =>
    have hlist : ∀ {values : List TypeExpr}, values ⊆ t.components →
        substituteAll (arguments.map (TypeExpr.rename ρ)) (renameAll ρ values) (depth + 1) =
          List.map (TypeExpr.rename ρ) <$> substituteAll arguments values (depth + 1) :=
      fun {values} hsub ↦ by
        rw [renameAll_eq_map]
        exact substituteAll_rename fun v hv ↦ ih v (hsub hv) (depth + 1)
    have hone : ∀ c ∈ t.components,
        substitute (arguments.map (TypeExpr.rename ρ)) (c.rename ρ) (depth + 1) =
          TypeExpr.rename ρ <$> substitute arguments c (depth + 1) := fun c hc ↦ ih c hc _
    rw [substitute.eq_def, substitute.eq_def arguments t]
    show checkDepth depth >>= _ = _ <$> (checkDepth depth >>= _)
    cases checkDepth depth with
    | error e => rfl
    | ok u =>
    cases t with
    | typeParameter index =>
      show Except.ofOption _ (arguments.map _)[index.toNat]? =
        _ <$> Except.ofOption _ arguments[index.toNat]?
      rw [List.getElem?_map]
      cases arguments[index.toNat]? <;> rfl
    | tuple items | named definition items =>
      show (substituteAll _ (renameAll ρ items) (depth + 1) >>= _) =
        _ <$> (substituteAll arguments items (depth + 1) >>= _)
      rw [hlist (List.Subset.refl items)]
      cases substituteAll arguments items (depth + 1) with
      | error e => rfl
      | ok items' =>
        show Except.ok _ = Except.ok (TypeExpr.rename ρ _)
        rw [TypeExpr.rename, renameAll_eq_map]
    | functionRef parameters returned effects =>
      show (substituteAll _ (renameAll ρ parameters) (depth + 1) >>= _) =
        _ <$> (substituteAll arguments parameters (depth + 1) >>= _)
      rw [hlist (List.subset_append_left _ _), hone returned (by simp [components])]
      cases substituteAll arguments parameters (depth + 1) with
      | error e => rfl
      | ok parameters' =>
        cases substitute arguments returned (depth + 1) with
        | error e => rfl
        | ok returned' =>
          show Except.ok _ = Except.ok (TypeExpr.rename ρ _)
          rw [TypeExpr.rename, renameAll_eq_map]
    | vector element | option element | localCell element =>
      show (substitute _ (element.rename ρ) (depth + 1) >>= _) =
        _ <$> (substitute arguments element (depth + 1) >>= _)
      rw [hone element (by simp [components])]
      cases substitute arguments element (depth + 1) <;> rfl
    | orderedMap a b | result a b =>
      show (substitute _ (a.rename ρ) (depth + 1) >>= _) =
        _ <$> (substitute arguments a (depth + 1) >>= _)
      rw [hone a (by simp [components]), hone b (by simp [components])]
      cases substitute arguments a (depth + 1) with
      | error e => rfl
      | ok a' => cases substitute arguments b (depth + 1) <;> rfl
    | _ => rfl

/-! ### Environments -/

namespace TypeEnvironment

variable {env env' : TypeEnvironment} {n : Nat}

/-- The second environment is the first with its definitions renamed. -/
structure Renames (ρ : EntityId → EntityId) (env env' : TypeEnvironment) : Prop where
  injective : Function.Injective ρ
  definition (id : EntityId) :
    env'.definition (ρ id) = TypeDefinition.rename ρ <$> env.definition id
  exists_of_ok {id : EntityId} {definition : TypeDefinition} :
    env'.definition id = .ok definition → ∃ name, id = ρ name

namespace Renames

theorem checkTypesInner {values : List TypeExpr}
    (h : ∀ v ∈ values, env'.checkTypeInner n (v.rename ρ) depth = env.checkTypeInner n v depth) :
    env'.checkTypesInner n (renameAll ρ values) depth = env.checkTypesInner n values depth := by
  induction values with
  | nil => rfl
  | cons v values ih =>
    obtain ⟨hv, hvalues⟩ := List.forall_mem_cons.1 h
    rw [renameAll, TypeEnvironment.checkTypesInner, TypeEnvironment.checkTypesInner, hv, ih hvalues]

/-- A renamed type is as well formed as it was. -/
theorem checkTypeInner (h : Renames ρ env env') (t : TypeExpr) (depth : Nat) :
    env'.checkTypeInner n (t.rename ρ) depth = env.checkTypeInner n t depth := by
  induction t using inductionOn generalizing depth with
  | step t ih =>
    have hlist : ∀ {values : List TypeExpr}, values ⊆ t.components →
        env'.checkTypesInner n (renameAll ρ values) (depth + 1) =
          env.checkTypesInner n values (depth + 1) :=
      fun hsub ↦ checkTypesInner fun v hv ↦ ih v (hsub hv) _
    have hlength : ∀ values : List TypeExpr, (renameAll ρ values).length = values.length :=
      fun values ↦ by rw [renameAll_eq_map, List.length_map]
    rw [TypeEnvironment.checkTypeInner.eq_def, TypeEnvironment.checkTypeInner.eq_def env n t]
    show checkDepth depth >>= _ = checkDepth depth >>= _
    refine congrArg _ (funext fun _ ↦ ?_)
    cases t with
    | tuple items =>
      show (Except.rejectIf ((renameAll ρ items).length > _) _ >>= fun _ ↦
        env'.checkTypesInner n (renameAll ρ items) (depth + 1)) = _
      rw [hlength, hlist (List.Subset.refl items)]
    | named definition items =>
      show (Except.rejectIf ((renameAll ρ items).length > _) _ >>= fun _ ↦
        env'.definition (ρ definition) >>= fun found ↦
          Except.rejectIf ((renameAll ρ items).length ≠ _) _ >>= fun _ ↦
            env'.checkTypesInner n (renameAll ρ items) (depth + 1)) = _
      rw [hlength, hlist (List.Subset.refl items), h.definition]
      refine congrArg _ (funext fun _ ↦ ?_)
      cases env.definition definition <;> rfl
    | functionRef parameters returned effects =>
      show (Except.rejectIf ((renameAll ρ parameters).length > _) _ >>= fun _ ↦
        ensureSortedUnique effects >>= fun _ ↦
          env'.checkTypesInner n (renameAll ρ parameters) (depth + 1) >>= fun _ ↦
            env'.checkTypeInner n (returned.rename ρ) (depth + 1)) = _
      rw [hlength, hlist (List.subset_append_left _ _), ih returned (by simp [components])]
    | vector element | option element | localCell element =>
      exact ih element (by simp [components]) _
    | orderedMap a b | result a b =>
      show (env'.checkTypeInner n (a.rename ρ) (depth + 1) >>= fun _ ↦
        env'.checkTypeInner n (b.rename ρ) (depth + 1)) = _
      rw [ih a (by simp [components]), ih b (by simp [components])]
    | _ => rfl

theorem checkDefinitionShape (h : Renames ρ env env') (definition : TypeDefinition) :
    env'.checkDefinitionShape (definition.rename ρ) = env.checkDefinitionShape definition := by
  obtain ⟨id, parameters, form, invariants⟩ := definition
  have hids := memberIds_rename (ρ := ρ) ⟨id, parameters, form, invariants⟩
  rw [TypeEnvironment.checkDefinitionShape, TypeEnvironment.checkDefinitionShape, hids]
  refine congrArg _ (funext fun _ ↦ congrArg _ (funext fun _ ↦ congrArg _ (funext fun _ ↦
    congrArg _ (funext fun _ ↦ ?_))))
  cases form with
  | record fields =>
    simp only [TypeDefinition.rename, List.foldlM_map, h.checkTypeInner]
  | variant cases =>
    simp only [TypeDefinition.rename, List.foldlM_map]
    refine congrArg _ (congrArg (List.foldlM · [] cases) (funext fun members ↦ funext fun case ↦ ?_))
    have hpayload : (case.payloadType.map (TypeExpr.rename ρ)).forM
        (fun payload ↦ env'.checkTypeInner parameters.length payload 1) =
          case.payloadType.forM fun payload ↦ env.checkTypeInner parameters.length payload 1 := by
      cases case.payloadType with
      | none => rfl
      | some payload => exact h.checkTypeInner payload 1
    rw [hpayload]

end Renames

/-! ### Walks -/

/-- What is remembered of a named type, renamed. -/
def renameKey (ρ : EntityId → EntityId) (key : NamedType × Nat) : NamedType × Nat :=
  ((ρ key.1.1, key.1.2.map (TypeExpr.rename ρ)), key.2)

theorem renameKey_injective (hρ : Function.Injective ρ) : Function.Injective (renameKey ρ) := by
  rintro ⟨⟨id, arguments⟩, depth⟩ ⟨⟨id', arguments'⟩, depth'⟩ h
  simp only [renameKey, Prod.mk.injEq] at h
  obtain ⟨⟨hid, harguments⟩, rfl⟩ := h
  obtain rfl := hρ hid
  rw [List.map_injective_iff.2 (rename_injective hρ) harguments]

/-- What a walk remembers, renamed. -/
def renameWalk (ρ : EntityId → EntityId) (walk : TypeWalk) : TypeWalk where
  visits := walk.visits
  mapKeys := walk.mapKeys.map (renameKey ρ)
  traits := walk.traits.map (Prod.map (renameKey ρ) id)

theorem transports_charge : Transports (renameWalk ρ) id TypeWalk.charge TypeWalk.charge := by
  intro walk
  rw [TypeWalk.run_charge, TypeWalk.run_charge]
  show (if walk.visits + 1 > maxTypeWalkVisits then _ else _) = _
  split <;> rfl

theorem lookup_renameWalk (hρ : Function.Injective ρ) (walk : TypeWalk) (key : NamedType × Nat) :
    (renameWalk ρ walk).traits.lookup (renameKey ρ key) = walk.traits.lookup key := by
  show (walk.traits.map _).lookup _ = _
  induction walk.traits with
  | nil => rfl
  | cons entry entries ih =>
    rw [List.map_cons, List.lookup_cons, List.lookup_cons, ih]
    simp only [Prod.map_fst, Prod.map_snd, id, beq_eq_decide, (renameKey_injective hρ).eq_iff]

theorem mem_renameWalk (hρ : Function.Injective ρ) (walk : TypeWalk) (key : NamedType × Nat) :
    renameKey ρ key ∈ (renameWalk ρ walk).mapKeys ↔ key ∈ walk.mapKeys :=
  List.mem_map_of_injective (renameKey_injective hρ)

/-- **A walk for traits does the same after renaming.** -/
theorem Renames.transports_traits (h : Renames ρ env env') (value : TypeExpr) (depth : Nat) :
    Transports (renameWalk ρ) id (env.traitsInnerWith value depth)
      (env'.traitsInnerWith (value.rename ρ) depth) := by
  induction hfuel : maxTypeDepth + 1 - depth using Nat.strong_induction_on generalizing value depth
    with
  | _ fuel ih =>
  rw [traitsInnerWith.eq_def, traitsInnerWith.eq_def env']
  by_cases hdepth : depth > maxTypeDepth
  · rw [dif_pos hdepth, dif_pos hdepth]
    exact .ofExcept_id _
  rw [dif_neg hdepth, dif_neg hdepth]
  have hdown : ∀ value, Transports (renameWalk ρ) id (env.traitsInnerWith value (depth + 1))
      (env'.traitsInnerWith (value.rename ρ) (depth + 1)) := fun value ↦
    ih _ (by omega) value (depth + 1) rfl
  refine transports_charge.bind_id fun _ ↦ ?_
  cases value with
  | tuple elements =>
    rw [TypeExpr.rename, renameAll_eq_map]
    exact .foldlM (fun combined element _ ↦ (hdown element).bind_id fun traits ↦ .pure_id _) _
  | named id arguments =>
    rw [TypeExpr.rename, renameAll_eq_map]
    refine .get fun walk ↦ ?_
    have hlookup := lookup_renameWalk h.injective walk ((id, arguments), depth)
    rw [renameKey] at hlookup
    rw [hlookup]
    cases walk.traits.lookup ((id, arguments), depth) with
    | some traits => exact .pure_id traits
    | none =>
      refine (Transports.ofExcept (h.definition id)).bind fun definition ↦ ?_
      rw [memberTypes_rename]
      refine (Transports.foldlM (fun combined member _ ↦ ?_) _).bind_id fun combined ↦
        (Transports.modify fun walk ↦ ?_).bind_id fun _ ↦ .pure_id combined
      · exact (Transports.ofExcept (substitute_rename member (depth + 1))).bind fun member ↦
          (hdown member).bind_id fun traits ↦ .pure_id _
      · rfl
  | vector element => exact (hdown element).bind_id fun traits ↦ .pure_id _
  | orderedMap key value =>
    exact (hdown key).bind_id fun keyTraits ↦ (Transports.ofExcept_id _).bind_id fun _ ↦
      (hdown value).bind_id fun traits ↦ .pure_id _
  | option element => exact hdown element
  | result ok error =>
    exact (hdown ok).bind_id fun okTraits ↦ (hdown error).bind_id fun traits ↦ .pure_id _
  | typeParameter index => exact .ofExcept_id _
  | _ => exact .pure_id _

/-- **So does the walk for the keys of maps.** -/
theorem Renames.transports_mapKeys (h : Renames ρ env env') (value : TypeExpr) (depth : Nat) :
    Transports (renameWalk ρ) id (env.checkMapKeysWith value depth)
      (env'.checkMapKeysWith (value.rename ρ) depth) := by
  induction hfuel : maxTypeDepth + 1 - depth using Nat.strong_induction_on generalizing value depth
    with
  | _ fuel ih =>
  rw [checkMapKeysWith.eq_def, checkMapKeysWith.eq_def env']
  by_cases hdepth : depth > maxTypeDepth
  · rw [dif_pos hdepth, dif_pos hdepth]
    exact .ofExcept_id _
  rw [dif_neg hdepth, dif_neg hdepth]
  have hdown : ∀ value, Transports (renameWalk ρ) id (env.checkMapKeysWith value (depth + 1))
      (env'.checkMapKeysWith (value.rename ρ) (depth + 1)) := fun value ↦
    ih _ (by omega) value (depth + 1) rfl
  refine transports_charge.bind_id fun _ ↦ ?_
  cases value with
  | orderedMap key value =>
    rw [TypeExpr.rename]
    refine (hdown key).bind_id fun _ ↦ (hdown value).bind_id fun _ ↦ ?_
    rw [containsParameter_rename]
    exact (Transports.ofExcept_id _).bind_id fun _ ↦
      (h.transports_traits key (depth + 1)).bind_id fun traits ↦ .ofExcept_id _
  | named id arguments =>
    rw [TypeExpr.rename, renameAll_eq_map]
    show Transports _ _ (if _ then _ else _) (if _ then _ else _)
    rw [any_containsParameter_rename]
    split
    · exact .pure_id _
    refine .get fun walk ↦ ?_
    have hmem := mem_renameWalk h.injective walk ((id, arguments), depth)
    rw [renameKey] at hmem
    rw [if_congr hmem rfl rfl]
    split
    · exact .pure_id _
    refine (Transports.ofExcept (h.definition id)).bind fun definition ↦ ?_
    rw [memberTypes_rename]
    refine (Transports.forM fun member _ ↦ ?_).bind_id fun _ ↦ Transports.modify fun walk ↦ rfl
    exact (Transports.ofExcept (substitute_rename member (depth + 1))).bind fun member ↦
      hdown member
  | tuple elements =>
    rw [TypeExpr.rename, renameAll_eq_map]
    exact .forM fun element _ ↦ hdown element
  | vector element | option element | localCell element => exact hdown element
  | result ok error => exact (hdown ok).bind_id fun _ ↦ hdown error
  | functionRef parameters returned effects =>
    rw [TypeExpr.rename, renameAll_eq_map]
    exact (Transports.forM fun parameter _ ↦ hdown parameter).bind_id fun _ ↦ hdown returned
  | _ => exact .pure_id _

theorem Renames.transports_definition (h : Renames ρ env env') (definition : TypeDefinition) :
    Transports (renameWalk ρ) id (env.checkDefinitionMapKeys definition)
      (env'.checkDefinitionMapKeys (definition.rename ρ)) := by
  rw [checkDefinitionMapKeys, checkDefinitionMapKeys, memberTypes_rename]
  exact .forM fun member _ ↦ h.transports_mapKeys member 1

end TypeEnvironment

end Sley.TypeCheck
