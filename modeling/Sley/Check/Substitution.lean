import Sley.Check.TypeWalks
import Sley.Lib.Failures
import Sley.Ssmc.Instantiation

/-!
# The laws of substitution

`substitute` is the instantiation of a type, cut off at the depth limit (`substitute_eq`), so that
its laws are those of instantiation **as long as nothing on the way is too deep**. A well-formed type
stays well formed under well-formed arguments, but for two things: it may get too deep, and a named
type that was open may be expanded for the first time, when a map below it turns out to have keys
that are not ordered.
-/

namespace Sley.TypeCheck

open Ssmc TypeExpr
open Except hiding ok error
open List (length_map)

variable {t s : TypeExpr} {n depth : Nat} {arguments arguments' : List TypeExpr}

/-! ### Substitution within the limit -/

theorem substituteAll_eq {values : List TypeExpr}
    (h : ∀ v ∈ values, substitute arguments v depth =
      if v.height + depth ≤ maxTypeDepth + 1 then .ok (v.instantiate arguments)
      else .error .depthLimit) :
    substituteAll arguments values depth =
      if ∀ v ∈ values, v.height + depth ≤ maxTypeDepth + 1 then
        .ok (instantiateAll arguments values)
      else .error .depthLimit := by
  induction values with
  | nil => simp [substituteAll, instantiateAll, pure, Except.pure]
  | cons v values ih =>
    obtain ⟨hv, hvalues⟩ := List.forall_mem_cons.1 h
    rw [substituteAll, hv, ih hvalues, instantiateAll]
    rw [ite_bind_ite_bind_pure]
    refine if_congr ?_ rfl rfl
    rw [List.forall_mem_cons]

theorem checkDepth_eq (depth : Nat) :
    checkDepth depth = if depth ≤ maxTypeDepth then .ok () else .error .depthLimit := by
  rw [checkDepth]
  by_cases h : depth ≤ maxTypeDepth
  · rw [if_pos h, rejectIf_neg (Nat.not_lt.2 h)]
  · rw [if_neg h, rejectIf_pos (Nat.not_le.1 h)]

/-- **Substitution is instantiation, within the depth limit.** -/
theorem substitute_eq (h : ParametersBelow arguments.length t) : substitute arguments t depth =
      if t.height + depth ≤ maxTypeDepth + 1 then .ok (t.instantiate arguments)
      else .error .depthLimit := by
  induction t using inductionOn generalizing depth with
  | step t ih =>
    have hpos := one_le_height t
    by_cases hdepth : depth ≤ maxTypeDepth
    swap
    · rw [substitute.eq_def, if_neg (by omega)]
      show checkDepth depth >>= _ = _
      rw [checkDepth_eq, if_neg hdepth]
      rfl
    have hone : ∀ c ∈ t.components, substitute arguments c (depth + 1) =
        if c.height + (depth + 1) ≤ maxTypeDepth + 1 then .ok (c.instantiate arguments)
        else .error .depthLimit := fun c hc ↦ ih c hc (h.of_mem hc)
    have hlist : ∀ {values : List TypeExpr}, values ⊆ t.components →
        substituteAll arguments values (depth + 1) =
          if ∀ v ∈ values, v.height + (depth + 1) ≤ maxTypeDepth + 1 then
            .ok (instantiateAll arguments values)
          else .error .depthLimit := fun hsub ↦
      substituteAll_eq fun v hv ↦ hone v (hsub hv)
    rw [substitute.eq_def]
    show checkDepth depth >>= _ = _
    rw [checkDepth_eq, if_pos hdepth, if_congr (height_add_le_iff hdepth) rfl rfl]
    cases t with
    | typeParameter ordinal =>
      have hlt := parametersBelow_typeParameter.1 h
      show ofOption _ _ = _
      rw [List.getElem?_eq_getElem hlt, if_pos (by simp [components]), instantiate,
        List.getElem?_eq_getElem hlt]
      rfl
    | tuple items | named definition items =>
      show (substituteAll arguments items (depth + 1) >>= _) = _
      rw [hlist (List.Subset.refl items), ite_bind_pure, instantiate]
      rfl
    | functionRef parameters returned effects =>
      show (substituteAll arguments parameters (depth + 1) >>= _) = _
      rw [hlist (List.subset_append_left _ _), hone returned (by simp [components]), instantiate]
      refine Except.ite_bind_ite_bind_pure.trans (if_congr ?_ rfl rfl)
      simp [components, or_imp, forall_and]
    | vector element | option element | localCell element =>
      show (substitute arguments element (depth + 1) >>= _) = _
      rw [hone element (by simp [components]), ite_bind_pure, instantiate]
      exact if_congr (by simp [components]) rfl rfl
    | orderedMap a b | result a b =>
      show (substitute arguments a (depth + 1) >>= _) = _
      rw [hone a (by simp [components]), hone b (by simp [components]), instantiate]
      refine Except.ite_bind_ite_bind_pure.trans (if_congr ?_ rfl rfl)
      simp [components]
    | _ =>
      rw [if_pos (by simp [components])]
      simp [instantiate, pure, Except.pure]

theorem substituteAll_eq_mapM (values : List TypeExpr) :
    substituteAll arguments values depth = values.mapM (substitute arguments · depth) := by
  induction values with
  | nil => rfl
  | cons v values ih => rw [substituteAll, ih, List.mapM_cons]

/-- A substitution that succeeds has succeeded on the components. -/
theorem exists_of_substitute (h : substitute arguments t depth = .ok s) {c : TypeExpr}
    (hc : c ∈ t.components) : ∃ c', substitute arguments c (depth + 1) = .ok c' := by
  rw [substitute.eq_def] at h
  obtain ⟨-, -, h⟩ := bind_eq_ok.1 h
  cases t with
  | tuple items | named definition items =>
    obtain ⟨items', hitems, -⟩ := bind_eq_ok.1 h
    rw [substituteAll_eq_mapM] at hitems
    exact exists_of_mapM_eq_ok hitems hc
  | functionRef parameters returned effects =>
    obtain ⟨parameters', hparameters, h⟩ := bind_eq_ok.1 h
    obtain ⟨returned', hreturned, -⟩ := bind_eq_ok.1 h
    rw [substituteAll_eq_mapM] at hparameters
    obtain hc | hc := List.mem_append.1 hc
    · exact exists_of_mapM_eq_ok hparameters hc
    · obtain rfl := List.mem_singleton.1 hc
      exact ⟨_, hreturned⟩
  | vector element | option element | localCell element =>
    obtain ⟨element', helement, -⟩ := bind_eq_ok.1 h
    obtain rfl := List.mem_singleton.1 hc
    exact ⟨_, helement⟩
  | orderedMap a b | result a b =>
    obtain ⟨a', ha, h⟩ := bind_eq_ok.1 h
    obtain ⟨b', hb, -⟩ := bind_eq_ok.1 h
    obtain rfl | hc := List.mem_cons.1 hc
    · exact ⟨_, ha⟩
    · obtain rfl := List.mem_singleton.1 hc
      exact ⟨_, hb⟩
  | _ => exact (List.not_mem_nil hc).elim

/-- What could be substituted has its parameters below the number of arguments. -/
theorem parametersBelow_of_substitute (h : substitute arguments t depth = .ok s) :
    ParametersBelow arguments.length t := by
  induction t using inductionOn generalizing depth s with
  | step t ih =>
    intro ordinal hordinal
    obtain rfl | ⟨c, hc, hordinal⟩ := occursIn_iff.1 hordinal
    · rw [substitute.eq_def] at h
      obtain ⟨-, -, h⟩ := bind_eq_ok.1 h
      exact (List.getElem?_eq_some_iff.1 (Except.ofOption_eq_ok.1 h)).1
    · obtain ⟨c', hc'⟩ := exists_of_substitute h hc
      exact ih c hc hc' ordinal hordinal

/-- Substitution in two steps that succeeds. -/
theorem substitute_of_twoSteps {r : TypeExpr} (h : ParametersBelow arguments.length t)
    (htwo : (substitute arguments t 1 >>= (substitute arguments' · 1)) = .ok r) :
    substitute (arguments.map (instantiate arguments')) t 1 = .ok r := by
  obtain ⟨middle, hfirst, hsecond⟩ := bind_eq_ok.1 htwo
  rw [substitute_eq h] at hfirst
  split at hfirst
  swap
  · cases hfirst
  obtain rfl := Except.ok.inj hfirst
  obtain rfl := substitute_eq_ok hsecond
  rw [substitute_eq (by rwa [length_map]), if_pos ‹_›, instantiate_instantiate h]

/-- **Two steps are one**, but that the type between them may be too deep. -/
theorem twoSteps_eq (h : ParametersBelow arguments.length t) {composed : List TypeExpr}
    (hcomposed : arguments.mapM (substitute arguments' · 1) = .ok composed) :
    composed = arguments.map (instantiate arguments') ∧
      ((substitute arguments t 1 >>= (substitute arguments' · 1)) = substitute composed t 1 ∨
        (substitute arguments t 1 >>= (substitute arguments' · 1)) = .error .depthLimit) := by
  have hforall := Except.mapM_eq_ok.1 hcomposed
  have hmap : composed = arguments.map (instantiate arguments') := by
    refine List.ext_getElem (by rw [length_map, hforall.length_eq]) fun i hi hi' ↦ ?_
    rw [List.getElem_map]
    exact substitute_eq_ok (hforall.get (by rwa [length_map] at hi') hi)
  have hbelow : ∀ a ∈ arguments, ParametersBelow arguments'.length a := fun a ha ↦ by
    obtain ⟨a', ha'⟩ := exists_of_mapM_eq_ok hcomposed ha
    exact parametersBelow_of_substitute ha'
  refine ⟨hmap, ?_⟩
  have hcomposed' : ParametersBelow (arguments.map (instantiate arguments')).length t := by
    rwa [length_map]
  rw [hmap, substitute_eq h, substitute_eq hcomposed']
  by_cases hfirst : t.height + 1 ≤ maxTypeDepth + 1
  · rw [if_pos hfirst, if_pos hfirst]
    show substitute arguments' (t.instantiate arguments) 1 = _ ∨
      substitute arguments' (t.instantiate arguments) 1 = _
    rw [substitute_eq (h.instantiate hbelow), instantiate_instantiate h]
    split
    · exact .inl rfl
    · exact .inr rfl
  · rw [if_neg hfirst]
    exact .inr rfl

/-- **Substitution of the parameters themselves** changes nothing. -/
theorem substitute_identityArguments (h : ParametersBelow n t) :
    substitute (identityArguments n) t 1 =
      if t.height ≤ maxTypeDepth then .ok t else .error .depthLimit := by
  have hlength : (identityArguments n).length = n := by
    rw [identityArguments, length_map, List.length_range]
  rw [substitute_eq (by rwa [hlength]), instantiate_identityArguments]
  exact if_congr (Nat.add_le_add_iff_right) rfl rfl

namespace TypeEnvironment

variable {env : TypeEnvironment}

/-! ### Types that are in scope -/

/-- What is checked of a type apart from its components. -/
def Fits (env : TypeEnvironment) (parameterCount : Nat) : TypeExpr → Prop
  | sInt width | uInt width => isEpoch1 width = true
  | tuple elements => elements.length ≤ maxTupleItems
  | named id arguments => arguments.length ≤ maxTypeArguments ∧ ∃ definition,
      env.definition id = .ok definition ∧ arguments.length = definition.typeParameters.length
  | functionRef parameters _ effects =>
    parameters.length ≤ maxMembers ∧ sortedUnique effects = true
  | typeParameter index => index.toNat < parameterCount
  | _ => True

/-- The check of a type, the limit on its depth apart. -/
def InScope (env : TypeEnvironment) (parameterCount : Nat) (t : TypeExpr) : Prop :=
  ∀ s : TypeExpr, s.OccursIn t → env.Fits parameterCount s

theorem InScope.of_mem (h : env.InScope n t) (hs : s ∈ t.components) : env.InScope n s :=
  fun r hr ↦ h r (hr.trans (.of_mem hs))

theorem inScope_iff : env.InScope n t ↔ env.Fits n t ∧ ∀ c ∈ t.components, env.InScope n c := by
  refine ⟨fun h ↦ ⟨h t (.refl t), fun c hc ↦ h.of_mem hc⟩, ?_⟩
  rintro ⟨hfits, hcomponents⟩ s hs
  obtain rfl | ⟨c, hc, hs⟩ := occursIn_iff.1 hs
  · exact hfits
  · exact hcomponents c hc s hs

theorem InScope.parametersBelow (h : env.InScope n t) : ParametersBelow n t :=
  fun _ hordinal ↦ h _ hordinal

theorem checkTypesInner_eq (values : List TypeExpr) :
    env.checkTypesInner n values depth = values.forM (env.checkTypeInner n · depth) := by
  induction values with
  | nil => rfl
  | cons v values ih =>
    rw [checkTypesInner, ih]
    rfl

theorem checkTypesInner_eq_ok {values : List TypeExpr} {u : Unit} :
    env.checkTypesInner n values depth = .ok u ↔
      ∀ v ∈ values, env.checkTypeInner n v depth = .ok () := by
  rw [checkTypesInner_eq, forM_eq_ok]

/-- One level of the check. -/
theorem checkTypeInner_eq_ok : env.checkTypeInner n t depth = .ok () ↔
    depth ≤ maxTypeDepth ∧ env.Fits n t ∧
      ∀ c ∈ t.components, env.checkTypeInner n c (depth + 1) = .ok () := by
  rw [checkTypeInner.eq_def]
  simp only [checkDepth, bind_eq_ok, rejectIf_eq_ok, Nat.not_lt, exists_const, gt_iff_lt]
  refine and_congr_right fun _ ↦ ?_
  cases t with
  | tuple elements =>
    simp [bind_eq_ok, checkTypesInner_eq_ok, Fits, components]
  | named id arguments =>
    simp only [bind_eq_ok, rejectIf_eq_ok, Unique.exists_iff, checkTypesInner_eq_ok,
      Fits, components, Nat.not_lt, not_not, ne_eq]
    constructor
    · rintro ⟨hlimit, definition, hid, harity, harguments⟩
      exact ⟨⟨hlimit, definition, hid, harity⟩, harguments⟩
    · rintro ⟨⟨hlimit, definition, hid, harity⟩, harguments⟩
      exact ⟨hlimit, definition, hid, harity, harguments⟩
  | functionRef parameters returned effects =>
    simp only [bind_eq_ok, rejectIf_eq_ok, Unique.exists_iff, checkTypesInner_eq_ok, Fits,
      components, ensureSortedUnique, Nat.not_lt, Bool.not_eq_true', Bool.not_eq_false,
      List.mem_append, List.mem_singleton, or_imp, forall_and, forall_eq, and_assoc]
  | sInt width | uInt width => simp [checkWidth, Fits, components]
  | orderedMap a b | result a b =>
    simp [bind_eq_ok, Unique.exists_iff, Fits, components]
  | typeParameter index => simp [Fits, components]
  | _ => simp [Fits, components, pure_eq_ok]

/-- **The check passes the types that are in scope and not too deep.** -/
theorem checkTypeInner_eq_ok_iff : env.checkTypeInner n t depth = .ok () ↔
    env.InScope n t ∧ t.height + depth ≤ maxTypeDepth + 1 := by
  induction t using inductionOn generalizing depth with
  | step t ih =>
    rw [checkTypeInner_eq_ok, inScope_iff]
    by_cases hdepth : depth ≤ maxTypeDepth
    swap
    · have := one_le_height t
      exact ⟨fun h ↦ absurd h.1 hdepth, fun h ↦ by omega⟩
    rw [height_add_le_iff hdepth]
    constructor
    · rintro ⟨-, hfits, hcomponents⟩
      exact ⟨⟨hfits, fun c hc ↦ ((ih c hc).1 (hcomponents c hc)).1⟩,
        fun c hc ↦ ((ih c hc).1 (hcomponents c hc)).2⟩
    · rintro ⟨⟨hfits, hcomponents⟩, hheight⟩
      exact ⟨hdepth, hfits, fun c hc ↦ (ih c hc).2 ⟨hcomponents c hc, hheight c hc⟩⟩

/-- The errors that are not about the depth. -/
def notDepth : Set TypeErrorCode := {code | code ≠ .depthLimit}

theorem checkDepth_avoids (depth : Nat) : (checkDepth depth).Avoids notDepth :=
  avoids_rejectIf fun h ↦ absurd rfl h

/-- What is in scope can only be too deep. -/
theorem checkTypeInner_avoids (h : env.InScope n t) :
    (env.checkTypeInner n t depth).Avoids notDepth := by
  induction t using inductionOn generalizing depth with
  | step t ih =>
    obtain ⟨hfits, hcomponents⟩ := inScope_iff.1 h
    have hone : ∀ c ∈ t.components, (env.checkTypeInner n c (depth + 1)).Avoids notDepth :=
      fun c hc ↦ ih c hc (hcomponents c hc)
    have hlist : ∀ {values : List TypeExpr}, values ⊆ t.components →
        (env.checkTypesInner n values (depth + 1)).Avoids notDepth := fun hsub ↦ by
      rw [checkTypesInner_eq]
      exact Except.Avoids.forM fun v hv ↦ hone v (hsub hv)
    rw [checkTypeInner.eq_def]
    refine (checkDepth_avoids depth).bind fun _ _ ↦ ?_
    cases t with
    | tuple elements =>
      exact (avoids_rejectIf fun _ ↦ Nat.not_lt.2 hfits).bind fun _ _ ↦
        hlist (List.Subset.refl elements)
    | named id arguments =>
      obtain ⟨hlimit, definition, hid, harity⟩ := hfits
      refine (avoids_rejectIf fun _ ↦ Nat.not_lt.2 hlimit).bind fun _ _ ↦ ?_
      rw [hid]
      exact (avoids_rejectIf fun _ ↦ not_not.2 harity).bind fun _ _ ↦
        hlist (List.Subset.refl arguments)
    | functionRef parameters returned effects =>
      refine (avoids_rejectIf fun _ ↦ Nat.not_lt.2 hfits.1).bind fun _ _ ↦ ?_
      refine (avoids_rejectIf fun _ ↦ by simp [hfits.2]).bind fun _ _ ↦ ?_
      exact (hlist (List.subset_append_left _ _)).bind fun _ _ ↦
        hone returned (by simp [components])
    | sInt width | uInt width =>
      have hwidth : isEpoch1 width = true := hfits
      exact avoids_rejectIf fun _ ↦ by simp [hwidth]
    | vector element | option element | localCell element =>
      exact hone element (by simp [components])
    | orderedMap a b | result a b =>
      exact (hone a (by simp [components])).bind fun _ _ ↦ hone b (by simp [components])
    | typeParameter index => exact avoids_rejectIf fun _ ↦ Nat.not_le.2 hfits
    | _ => exact avoids_pure _

/-- **An instance of a type in scope is in scope**, when the arguments are. -/
theorem InScope.instantiate (h : env.InScope arguments.length t)
    (harguments : ∀ a ∈ arguments, env.InScope n a) : env.InScope n (t.instantiate arguments) := by
  refine forall_occursIn_instantiate h (fun s hne hfits ↦ ?_) fun ordinal hlt ↦
    ⟨_, List.getElem?_eq_getElem hlt, harguments _ (List.getElem_mem hlt)⟩
  cases s with
  | typeParameter ordinal => exact absurd rfl (hne ordinal)
  | tuple elements =>
    show (instantiateAll arguments elements).length ≤ maxTupleItems
    rwa [instantiateAll_eq_map, length_map]
  | named id inner =>
    obtain ⟨hlimit, definition, hid, harity⟩ := hfits
    rw [TypeExpr.instantiate, instantiateAll_eq_map]
    refine ⟨?_, definition, hid, ?_⟩
    · rwa [length_map]
    · rwa [length_map]
  | functionRef parameters returned effects =>
    rw [TypeExpr.instantiate, instantiateAll_eq_map]
    exact ⟨by rw [length_map]; exact hfits.1, hfits.2⟩
  | _ => exact hfits

/-! ### Closed types -/

theorem anyContainsTypeParameter_eq {values : List TypeExpr} :
    anyContainsTypeParameter values = values.any containsTypeParameter := by
  induction values with
  | nil => rfl
  | cons v values ih => rw [anyContainsTypeParameter, ih, List.any_cons]

theorem containsParameter_iff : containsParameter t = true ↔
    ∃ ordinal, (typeParameter ordinal).OccursIn t := by
  have hwalk := walk_iff_exists_occursIn (P := fun t ↦ containsParameter t = true)
    (Q := fun t ↦ ∃ ordinal, t = typeParameter ordinal) (fun t ↦ by
      cases t <;> simp [containsParameter, containsTypeParameter, anyContainsTypeParameter_eq,
        components, or_and_right, exists_or]) t
  rw [hwalk]
  constructor
  · rintro ⟨_, hoccurs, ordinal, rfl⟩
    exact ⟨ordinal, hoccurs⟩
  · rintro ⟨ordinal, hoccurs⟩
    exact ⟨_, hoccurs, ordinal, rfl⟩

theorem parametersBelow_zero_iff : ParametersBelow 0 t ↔ ¬ containsParameter t = true := by
  rw [containsParameter_iff]
  constructor
  · rintro h ⟨ordinal, hordinal⟩
    exact Nat.not_lt_zero _ (h ordinal hordinal)
  · exact fun h ordinal hordinal ↦ absurd ⟨ordinal, hordinal⟩ h

/-- A closed type is in every scope that it is in at all. -/
theorem InScope.of_closed (h : env.InScope n t) (hclosed : ParametersBelow 0 t) :
    env.InScope 0 t := by
  intro s hs
  have hfits := h s hs
  cases s with
  | typeParameter ordinal => exact hclosed ordinal hs
  | _ => exact hfits

variable {E : Set TypeErrorCode} {definition : TypeDefinition} {depth' : Nat}

/-- The members of a definition that has passed its own check are in scope. -/
theorem inScope_of_checkDefinitionShape
    (hshape : env.checkDefinitionShape definition = .ok ()) {m : TypeExpr}
    (hm : m ∈ memberTypes definition.form) : env.InScope definition.typeParameters.length m := by
  simp only [checkDefinitionShape, bind_eq_ok] at hshape
  obtain ⟨_, -, _, -, _, -, _, -, hform⟩ := hshape
  suffices hcheck : env.checkTypeInner definition.typeParameters.length m 1 = .ok () from
    (checkTypeInner_eq_ok_iff.1 hcheck).1
  cases hdefinition : definition.form with
  | record fields =>
    rw [hdefinition] at hform hm
    obtain ⟨members, hfold, -⟩ := Except.map_eq_ok.1 hform
    obtain ⟨field, hfield, rfl⟩ := List.mem_map.1 hm
    obtain ⟨_, _, hstep⟩ := exists_of_foldlM_eq_ok hfold hfield
    obtain ⟨_, -, hstep⟩ := bind_eq_ok.1 hstep
    obtain ⟨_, hcheck, -⟩ := bind_eq_ok.1 hstep
    exact hcheck
  | variant cases =>
    rw [hdefinition] at hform hm
    obtain ⟨members, hfold, -⟩ := Except.map_eq_ok.1 hform
    obtain ⟨case, hcase, hpayload⟩ := List.mem_filterMap.1 hm
    obtain ⟨_, _, hstep⟩ := exists_of_foldlM_eq_ok hfold hcase
    obtain ⟨_, -, hstep⟩ := bind_eq_ok.1 hstep
    obtain ⟨_, hcheck, -⟩ := bind_eq_ok.1 hstep
    rw [hpayload] at hcheck
    exact hcheck

/-- So are those of the definitions of an accepted environment. -/
theorem Accepted.inScope (h : env.Accepted) {id : EntityId}
    (hid : env.definition id = .ok definition) {m : TypeExpr}
    (hm : m ∈ memberTypes definition.form) : env.InScope definition.typeParameters.length m :=
  inScope_of_checkDefinitionShape (h.shape hid) hm

/-! ### What can go wrong -/

/-- The errors that say that a type is not fit to be a key. -/
def keyErrors : Set TypeErrorCode :=
  {code | code = .notOrderable ∨ code = .notHashable ∨ code = .notPersistable}

/-- Neither the depth nor the keys of maps. -/
def unexpected : Set TypeErrorCode := {code | code ≠ .depthLimit ∧ code ∉ keyErrors}

theorem substitute_avoids (hE : .depthLimit ∉ E)
    (h : ParametersBelow arguments.length t) : (substitute arguments t depth).Avoids E := by
  rw [substitute_eq h]
  split
  · exact avoids_ok _
  · exact avoids_error_iff.2 hE

theorem requireMapKeyTraits_avoids (traits : TypeTraits) :
    (requireMapKeyTraits traits).Avoids unexpected := by
  refine (avoids_rejectIf fun h ↦ absurd ?_ h.2).bind fun _ _ ↦
    (avoids_rejectIf fun h ↦ absurd ?_ h.2).bind fun _ _ ↦
      (avoids_rejectIf fun h ↦ absurd ?_ h.2).bind fun _ _ ↦
        avoids_rejectIf fun h ↦ absurd ?_ h.2
  all_goals simp [keyErrors]

/-- The traits of a closed type in scope fail for the depth or for a key. -/
theorem Accepted.structuralTraits_avoids (h : env.Accepted) (ht : env.InScope 0 t) :
    (env.structuralTraits t depth).Avoids unexpected := by
  induction hfuel : maxTypeDepth + 1 - depth using Nat.strong_induction_on generalizing t depth with
  | _ fuel ih =>
  have hdepthLimit : TypeErrorCode.depthLimit ∉ unexpected := fun hmem ↦ hmem.1 rfl
  rw [structuralTraits.eq_def]
  by_cases hdepth : depth > maxTypeDepth
  · rw [dif_pos hdepth]
    exact avoids_error_iff.2 hdepthLimit
  rw [dif_neg hdepth]
  have hdown : ∀ {c : TypeExpr}, env.InScope 0 c →
      (env.structuralTraits c (depth + 1)).Avoids unexpected := fun hc ↦
    ih _ (by omega) hc rfl
  have hcomponents : ∀ c ∈ t.components, (env.structuralTraits c (depth + 1)).Avoids unexpected :=
    fun c hc ↦ hdown (ht.of_mem hc)
  cases t with
  | tuple elements =>
    exact .foldlM_of_forall (fun traits element helement ↦
      (hcomponents element helement).bind fun _ _ ↦ avoids_pure _) _
  | named id arguments =>
    obtain ⟨-, definition, hid, harity⟩ := ht _ (.refl _)
    show (env.definition id >>= _).Avoids unexpected
    rw [hid]
    refine .foldlM_of_forall (fun traits m hm ↦ ?_) _
    have hscope := h.inScope hid hm
    rw [← harity] at hscope
    refine (substitute_avoids hdepthLimit hscope.parametersBelow).bind fun m' hm' ↦ ?_
    obtain rfl := substitute_eq_ok hm'
    exact (hdown (hscope.instantiate fun a ha ↦ ht.of_mem ha)).bind fun _ _ ↦ avoids_pure _
  | vector element =>
    exact (hcomponents element (by simp [components])).bind fun _ _ ↦ avoids_pure _
  | orderedMap key value =>
    exact (hcomponents key (by simp [components])).bind fun _ _ ↦
      (requireMapKeyTraits_avoids _).bind fun _ _ ↦
        (hcomponents value (by simp [components])).bind fun _ _ ↦ avoids_pure _
  | option element => exact hcomponents element (by simp [components])
  | result ok error =>
    exact (hcomponents ok (by simp [components])).bind fun _ _ ↦
      (hcomponents error (by simp [components])).bind fun _ _ ↦ avoids_pure _
  | typeParameter ordinal => exact absurd (ht _ (.refl _)) (Nat.not_lt_zero _)
  | _ => exact avoids_pure _

/-- The walk for the keys of maps fails for the depth or for a key. -/
theorem Accepted.structuralMapKeys_avoids (h : env.Accepted) (ht : env.InScope n t) :
    (env.structuralMapKeys t depth).Avoids unexpected := by
  induction hfuel : maxTypeDepth + 1 - depth using Nat.strong_induction_on generalizing t depth with
  | _ fuel ih =>
  have hdepthLimit : TypeErrorCode.depthLimit ∉ unexpected := fun hmem ↦ hmem.1 rfl
  rw [structuralMapKeys.eq_def]
  by_cases hdepth : depth > maxTypeDepth
  · rw [dif_pos hdepth]
    exact avoids_error_iff.2 hdepthLimit
  rw [dif_neg hdepth]
  have hdown : ∀ {c : TypeExpr}, env.InScope n c →
      (env.structuralMapKeys c (depth + 1)).Avoids unexpected := fun hc ↦
    ih _ (by omega) hc rfl
  have hcomponents : ∀ c ∈ t.components, (env.structuralMapKeys c (depth + 1)).Avoids unexpected :=
    fun c hc ↦ hdown (ht.of_mem hc)
  cases t with
  | orderedMap key value =>
    refine (hcomponents key (by simp [components])).bind fun _ _ ↦
      (hcomponents value (by simp [components])).bind fun _ _ ↦
        (avoids_rejectIf fun hmem ↦ absurd (.inl rfl) hmem.2).bind fun _ hclosed ↦ ?_
    rw [rejectIf_eq_ok, ← parametersBelow_zero_iff] at hclosed
    have hkey := (ht.of_mem (s := key) (by simp [components])).of_closed hclosed
    exact (h.structuralTraits_avoids hkey).bind fun traits _ ↦ requireMapKeyTraits_avoids traits
  | named id arguments =>
    obtain ⟨-, definition, hid, harity⟩ := ht _ (.refl _)
    show (if _ then _ else _ : Result Unit).Avoids unexpected
    split
    · exact avoids_pure _
    rw [hid]
    refine Except.Avoids.forM fun m hm ↦ ?_
    have hscope := h.inScope hid hm
    rw [← harity] at hscope
    refine (substitute_avoids hdepthLimit hscope.parametersBelow).bind fun m' hm' ↦ ?_
    obtain rfl := substitute_eq_ok hm'
    exact hdown (hscope.instantiate fun a ha ↦ ht.of_mem ha)
  | tuple elements => exact Except.Avoids.forM hcomponents
  | vector element | option element | localCell element =>
    exact hcomponents element (by simp [components])
  | result ok error =>
    exact (hcomponents ok (by simp [components])).bind fun _ _ ↦
      hcomponents error (by simp [components])
  | functionRef parameters returned effects =>
    exact (Except.Avoids.forM fun v hv ↦ hcomponents v (List.mem_append_left _ hv)).bind
      fun _ _ ↦ hcomponents returned (by simp [components])
  | _ => exact avoids_pure _

/-! ### Further down -/

/-- Further down a substitution does the same, or is cut off. -/
theorem substitute_sameUnless (hle : depth ≤ depth') :
    SameUnless .depthLimit (substitute arguments t depth)
      (substitute arguments t depth') := by
  induction t using inductionOn generalizing depth depth' with
  | step t ih =>
    have hone : ∀ c ∈ t.components, SameUnless .depthLimit
        (substitute arguments c (depth + 1)) (substitute arguments c (depth' + 1)) := fun c hc ↦
      ih c hc (by omega)
    have hlist : ∀ {values : List TypeExpr}, values ⊆ t.components →
        SameUnless .depthLimit (substituteAll arguments values (depth + 1))
          (substituteAll arguments values (depth' + 1)) := by
      intro values
      induction values with
      | nil => exact fun _ ↦ .refl _
      | cons v values ih =>
        intro hsub
        rw [substituteAll, substituteAll]
        exact (hone v (hsub List.mem_cons_self)).bind fun v' ↦
          (ih fun w hw ↦ hsub (List.mem_cons_of_mem v hw)).bind fun values' ↦ .refl _
    rw [substitute.eq_def, substitute.eq_def]
    refine Except.SameUnless.bind ?_ fun _ ↦ ?_
    · rw [checkDepth_eq, checkDepth_eq]
      by_cases hdepth' : depth' ≤ maxTypeDepth
      · rw [if_pos hdepth', if_pos (hle.trans hdepth')]
        exact .refl _
      · rw [if_neg hdepth']
        exact .inr rfl
    cases t with
    | tuple items | named definition items =>
      exact (hlist (List.Subset.refl items)).bind fun _ ↦ .refl _
    | functionRef parameters returned effects =>
      exact (hlist (List.subset_append_left _ _)).bind fun _ ↦
        (hone returned (by simp [components])).bind fun _ ↦ .refl _
    | vector element | option element | localCell element =>
      exact (hone element (by simp [components])).bind fun _ ↦ .refl _
    | orderedMap a b | result a b =>
      exact (hone a (by simp [components])).bind fun _ ↦
        (hone b (by simp [components])).bind fun _ ↦ .refl _
    | _ => exact .refl _

/-- Further down a type has the same traits, or the walk is cut off. -/
theorem structuralTraits_sameUnless (hle : depth ≤ depth') :
    SameUnless .depthLimit (env.structuralTraits t depth)
      (env.structuralTraits t depth') := by
  induction hfuel : maxTypeDepth + 1 - depth using Nat.strong_induction_on
    generalizing t depth depth' with
  | _ fuel ih =>
  rw [structuralTraits.eq_def, structuralTraits.eq_def]
  by_cases hdepth' : depth' > maxTypeDepth
  · rw [dif_pos hdepth']
    exact .inr rfl
  rw [dif_neg hdepth', dif_neg (by omega)]
  have hdown : ∀ c, SameUnless .depthLimit (env.structuralTraits c (depth + 1))
      (env.structuralTraits c (depth' + 1)) := fun c ↦ ih _ (by omega) (by omega) rfl
  cases t with
  | tuple elements => exact .foldlM (fun traits c _ ↦ (hdown c).bind fun _ ↦ .refl _) _
  | named id arguments =>
    exact (Except.SameUnless.refl _).bind fun definition ↦ .foldlM (fun traits m _ ↦
      (substitute_sameUnless (by omega)).bind fun m' ↦ (hdown m').bind fun _ ↦ .refl _) _
  | vector element => exact (hdown element).bind fun _ ↦ .refl _
  | orderedMap key value =>
    exact (hdown key).bind fun _ ↦ (Except.SameUnless.refl _).bind fun _ ↦
      (hdown value).bind fun _ ↦ .refl _
  | option element => exact hdown element
  | result ok error => exact (hdown ok).bind fun _ ↦ (hdown error).bind fun _ ↦ .refl _
  | _ => exact .refl _

/-- Further down the keys of maps are judged alike, or the walk is cut off. -/
theorem structuralMapKeys_sameUnless (hle : depth ≤ depth') :
    SameUnless .depthLimit (env.structuralMapKeys t depth)
      (env.structuralMapKeys t depth') := by
  induction hfuel : maxTypeDepth + 1 - depth using Nat.strong_induction_on
    generalizing t depth depth' with
  | _ fuel ih =>
  rw [structuralMapKeys.eq_def, structuralMapKeys.eq_def]
  by_cases hdepth' : depth' > maxTypeDepth
  · rw [dif_pos hdepth']
    exact .inr rfl
  rw [dif_neg hdepth', dif_neg (by omega)]
  have hdown : ∀ c, SameUnless .depthLimit (env.structuralMapKeys c (depth + 1))
      (env.structuralMapKeys c (depth' + 1)) := fun c ↦ ih _ (by omega) (by omega) rfl
  cases t with
  | orderedMap key value =>
    exact (hdown key).bind fun _ ↦ (hdown value).bind fun _ ↦ (Except.SameUnless.refl _).bind
      fun _ ↦ (structuralTraits_sameUnless (by omega)).bind fun _ ↦ .refl _
  | named id arguments =>
    show SameUnless _ (if _ then _ else _) (if _ then _ else _)
    split
    · exact .refl _
    · exact (Except.SameUnless.refl _).bind fun definition ↦ .forM fun m _ ↦
        (substitute_sameUnless (by omega)).bind fun m' ↦ hdown m'
  | tuple elements => exact .forM fun c _ ↦ hdown c
  | vector element | option element | localCell element => exact hdown element
  | result ok error => exact (hdown ok).bind fun _ ↦ hdown error
  | functionRef parameters returned effects =>
    exact (Except.SameUnless.forM fun c _ ↦ hdown c).bind fun _ ↦ hdown returned
  | _ => exact .refl _

/-! ### Keys that are ordered -/

/-- Every map type that is written in the type has closed keys of an ordered type. -/
def OrderedKeys (env : TypeEnvironment) (t : TypeExpr) : Prop :=
  ∀ key value : TypeExpr, (orderedMap key value).OccursIn t → ParametersBelow 0 key ∧
    ∃ traits, env.structuralTraits key 1 = .ok traits ∧ requireMapKeyTraits traits = .ok ()

theorem OrderedKeys.of_mem (h : env.OrderedKeys t) (hs : s ∈ t.components) : env.OrderedKeys s :=
  fun key value hmap ↦ h key value (hmap.trans (.of_mem hs))

/-- So has every map type that is written in a definition. -/
def OrderedKeysInDefinitions (env : TypeEnvironment) : Prop :=
  ∀ id definition, env.definition id = .ok definition →
    ∀ m ∈ memberTypes definition.form, env.OrderedKeys m

/-- From a depth on, the keys of maps are judged without a failure, but for the depth. -/
def KeysPassFrom (env : TypeEnvironment) (depth : Nat) (t : TypeExpr) : Prop :=
  ∀ depth', depth ≤ depth' → (env.structuralMapKeys t depth').Avoids notDepth

theorem keysPassFrom_of_eq_ok (h : env.structuralMapKeys t depth = .ok ()) :
    env.KeysPassFrom depth t := by
  intro depth' hle
  obtain hsame | hcut := env.structuralMapKeys_sameUnless (t := t) hle
  · rw [hsame, h]
    exact avoids_ok _
  · rw [hcut]
    exact avoids_error_iff.2 fun hmem ↦ hmem rfl

/-- **Instances of types with ordered keys pass**, when the arguments do. An argument of a named
type is judged wherever the members of the definition put it, so that the induction is on the depth
and takes every further depth at once. -/
theorem Accepted.keysPassFrom_instantiate (h : env.Accepted) (hdefinitions :
    env.OrderedKeysInDefinitions) (ht : env.InScope arguments.length t) (hkeys : env.OrderedKeys t)
    (harguments : ∀ a ∈ arguments, env.InScope n a ∧ env.KeysPassFrom depth a) :
    env.KeysPassFrom depth (t.instantiate arguments) := by
  intro depth' hle
  replace harguments : ∀ a ∈ arguments, env.InScope n a ∧ env.KeysPassFrom depth' a :=
    fun a ha ↦ ⟨(harguments a ha).1, fun _ hle' ↦ (harguments a ha).2 _ (hle.trans hle')⟩
  clear hle
  induction hfuel : maxTypeDepth + 1 - depth' using Nat.strong_induction_on
    generalizing t arguments depth' with
  | _ fuel ih =>
  have hcut : TypeErrorCode.depthLimit ∉ notDepth := fun hmem ↦ hmem rfl
  by_cases hdepth : depth' > maxTypeDepth
  · rw [structuralMapKeys.eq_def, dif_pos hdepth]
    exact avoids_error_iff.2 hcut
  -- what the induction gives for any type further down
  have hdown : ∀ {c : TypeExpr} {inner : List TypeExpr} {depth'' : Nat}, depth' < depth'' →
      env.InScope inner.length c → env.OrderedKeys c →
      (∀ a ∈ inner, env.InScope n a ∧ env.KeysPassFrom depth'' a) →
        (env.structuralMapKeys (c.instantiate inner) depth'').Avoids notDepth :=
    fun hlt hc hckeys hinner ↦ ih _ (by omega) hc hckeys _ hinner rfl
  have hlater : ∀ {depth''}, depth' < depth'' →
      ∀ a ∈ arguments, env.InScope n a ∧ env.KeysPassFrom depth'' a := fun hlt a ha ↦
    ⟨(harguments a ha).1, fun _ hle' ↦ (harguments a ha).2 _ (by omega)⟩
  have hcomponents : ∀ c ∈ t.components,
      (env.structuralMapKeys (c.instantiate arguments) (depth' + 1)).Avoids notDepth := fun c hc ↦
    hdown (Nat.lt_succ_self _) (ht.of_mem hc) (hkeys.of_mem hc) (hlater (Nat.lt_succ_self _))
  cases t with
  | typeParameter ordinal =>
    have hlt : ordinal.toNat < arguments.length := ht _ (.refl _)
    rw [TypeExpr.instantiate, List.getElem?_eq_getElem hlt]
    exact (harguments _ (List.getElem_mem hlt)).2 depth' le_rfl
  | orderedMap key value =>
    obtain ⟨hclosed, traits, htraits, hordered⟩ := hkeys key value (.refl _)
    rw [TypeExpr.instantiate, structuralMapKeys.eq_def, dif_neg hdepth]
    refine (hcomponents key (by simp [components])).bind fun _ _ ↦
      (hcomponents value (by simp [components])).bind fun _ _ ↦ ?_
    rw [instantiate_eq_self hclosed]
    refine (avoids_rejectIf fun _ ↦ parametersBelow_zero_iff.1 hclosed).bind fun _ _ ↦ ?_
    obtain hsame | hstop := env.structuralTraits_sameUnless (t := key)
      (show 1 ≤ depth' + 1 by omega)
    · rw [hsame, htraits]
      show (requireMapKeyTraits traits).Avoids notDepth
      rw [hordered]
      exact avoids_ok _
    · rw [hstop]
      exact avoids_error_iff.2 hcut
  | named id inner =>
    obtain ⟨-, definition, hid, harity⟩ := ht _ (.refl _)
    rw [TypeExpr.instantiate, instantiateAll_eq_map, structuralMapKeys.eq_def, dif_neg hdepth]
    show (if _ then _ else _ : Result Unit).Avoids notDepth
    split
    · exact avoids_pure _
    rw [hid]
    refine Except.Avoids.forM fun m hm ↦ ?_
    have hscope := h.inScope hid hm
    rw [← harity, ← length_map (f := TypeExpr.instantiate arguments)] at hscope
    refine (substitute_avoids hcut hscope.parametersBelow).bind fun m' hm' ↦ ?_
    obtain rfl := substitute_eq_ok hm'
    refine hdown (Nat.lt_succ_self _) hscope (hdefinitions id definition hid m hm) fun a ha ↦ ?_
    obtain ⟨b, hb, rfl⟩ := List.mem_map.1 ha
    refine ⟨(ht.of_mem hb).instantiate fun a ha ↦ (harguments a ha).1, fun depth'' hle ↦ ?_⟩
    exact hdown (by omega) (ht.of_mem hb) (hkeys.of_mem hb) (hlater (by omega))
  | tuple elements =>
    rw [TypeExpr.instantiate, instantiateAll_eq_map, structuralMapKeys.eq_def, dif_neg hdepth]
    refine Except.Avoids.forM fun c hc ↦ ?_
    obtain ⟨b, hb, rfl⟩ := List.mem_map.1 hc
    exact hcomponents b hb
  | vector element | option element | localCell element =>
    rw [TypeExpr.instantiate, structuralMapKeys.eq_def, dif_neg hdepth]
    exact hcomponents element (by simp [components])
  | result ok error =>
    rw [TypeExpr.instantiate, structuralMapKeys.eq_def, dif_neg hdepth]
    exact (hcomponents ok (by simp [components])).bind fun _ _ ↦
      hcomponents error (by simp [components])
  | functionRef parameters returned effects =>
    rw [TypeExpr.instantiate, instantiateAll_eq_map, structuralMapKeys.eq_def, dif_neg hdepth]
    refine (Except.Avoids.forM fun c hc ↦ ?_).bind fun _ _ ↦ hcomponents returned (by simp
      [components])
    obtain ⟨b, hb, rfl⟩ := List.mem_map.1 hc
    exact hcomponents b (List.mem_append_left _ hb)
  | _ =>
    rw [structuralMapKeys.eq_def, dif_neg hdepth]
    exact avoids_pure _

/-! ### Instantiation in a scope -/

/-- `instantiate_in_scope`. -/
def instantiateInScope (env : TypeEnvironment) (value : TypeExpr) (arguments : List TypeExpr)
    (parameterCount : Nat) : Result TypeExpr := do
  rejectIf (arguments.length > maxTypeArguments) .argumentLimit
  arguments.forM (env.checkType · parameterCount)
  let instantiated ← substitute arguments value 1
  env.checkType instantiated parameterCount
  return instantiated

/-- The limits on a type. -/
def limits : Set TypeErrorCode :=
  {code | code = .depthLimit ∨ code = .resourceLimit ∨ code = .argumentLimit}

theorem structuralCheckType_of_checkType (h : env.checkType t n = .ok ()) :
    env.InScope n t ∧ env.structuralMapKeys t 1 = .ok () := by
  obtain heq | herror := env.checkType_eq t n
  · rw [heq] at h
    obtain ⟨_, hcheck, hkeys⟩ := bind_eq_ok.1 h
    exact ⟨(checkTypeInner_eq_ok_iff.1 hcheck).1, hkeys⟩
  · rw [herror] at h
    cases h

/-- Where the walk for the keys avoids errors that are no limits, the check of a type in scope
avoids them. -/
theorem checkType_avoids (ht : env.InScope n t)
    (hE : ∀ code ∈ limits, code ∉ E) (hkeys : (env.structuralMapKeys t 1).Avoids E) :
    (env.checkType t n).Avoids E := by
  obtain heq | herror := env.checkType_eq t n
  · rw [heq]
    refine Except.Avoids.bind ?_ fun _ _ ↦ hkeys
    exact (checkTypeInner_avoids ht).mono fun code hcode heq ↦ hE code (.inl heq) hcode
  · rw [herror]
    exact avoids_error_iff.2 (hE _ (.inr (.inl rfl)))

/-- The outcome of an instantiation in a scope is decided by the walk for the keys of maps. -/
theorem instantiateInScope_avoids (hE : ∀ code ∈ limits, code ∉ E)
    (ht : env.InScope arguments.length t) (harguments : ∀ a ∈ arguments, env.checkType a n = .ok ())
    (hkeys : (env.structuralMapKeys (t.instantiate arguments) 1).Avoids E) :
    (env.instantiateInScope t arguments n).Avoids E := by
  refine (avoids_rejectIf fun hmem ↦ absurd hmem (hE _ (.inr (.inr rfl)))).bind
    fun _ _ ↦ ?_
  refine Except.Avoids.bind (Except.Avoids.forM fun a ha ↦ ?_) fun _ _ ↦ ?_
  · rw [harguments a ha]
    exact avoids_ok _
  refine (substitute_avoids (hE _ (.inl rfl)) ht.parametersBelow).bind fun r hr ↦ ?_
  obtain rfl := substitute_eq_ok hr
  refine (checkType_avoids (ht.instantiate fun a ha ↦ ?_) hE hkeys).bind fun _ _ ↦
    avoids_pure _
  exact (structuralCheckType_of_checkType (harguments a ha)).1

/-- **The laws of substitution.** Two steps are one, but that the type between them may be too deep;
the parameters themselves change nothing; and an instance of a well-formed type under well-formed
arguments is well formed, unless a limit is met or a map turns out to have keys that are not
ordered, which does not happen where all the maps that are written have ordered keys. -/
theorem substitution_laws {definitions : List TypeDefinition} (h : new definitions = .ok env) :
    (∀ t arguments arguments', ParametersBelow arguments.length t →
      (∀ r, (substitute arguments t 1 >>= (substitute arguments' · 1)) = .ok r →
        substitute (arguments.map (TypeExpr.instantiate arguments')) t 1 = .ok r) ∧
      ∀ composed, arguments.mapM (substitute arguments' · 1) = .ok composed →
        composed = arguments.map (TypeExpr.instantiate arguments') ∧
          ((substitute arguments t 1 >>= (substitute arguments' · 1)) = substitute composed t 1 ∨
            (substitute arguments t 1 >>= (substitute arguments' · 1)) = .error .depthLimit)) ∧
    (∀ t n, ParametersBelow n t → substitute (identityArguments n) t 1 =
      if t.height ≤ maxTypeDepth then .ok t else .error .depthLimit) ∧
    ∀ t arguments n, env.checkType t arguments.length = .ok () →
      (∀ a ∈ arguments, env.checkType a n = .ok ()) →
      (∀ r, env.instantiateInScope t arguments n = .ok r → env.checkType r n = .ok ()) ∧
      (∀ code, env.instantiateInScope t arguments n = .error code →
        code ∈ limits ∨ code ∈ keyErrors) ∧
      (env.OrderedKeysInDefinitions → env.OrderedKeys t →
        ∀ code, env.instantiateInScope t arguments n = .error code → code ∈ limits) := by
  have haccepted := accepted_of_new h
  refine ⟨fun t arguments arguments' ht ↦ ⟨fun r ↦ substitute_of_twoSteps ht,
    fun composed ↦ twoSteps_eq ht⟩, fun t n ↦ substitute_identityArguments,
    fun t arguments n ht harguments ↦ ⟨fun r hr ↦ ?_, fun code hcode ↦ ?_,
      fun hdefinitions hordered code hcode ↦ ?_⟩⟩
  · obtain ⟨_, -, hr⟩ := Except.bind_eq_ok.1 hr
    obtain ⟨_, -, hr⟩ := Except.bind_eq_ok.1 hr
    obtain ⟨instantiated, -, hr⟩ := Except.bind_eq_ok.1 hr
    obtain ⟨_, hcheck, hr⟩ := Except.bind_eq_ok.1 hr
    obtain rfl := Except.pure_eq_ok.1 hr
    exact hcheck
  · obtain ⟨hscope, -⟩ := structuralCheckType_of_checkType ht
    have hinstance := hscope.instantiate fun a ha ↦
      (structuralCheckType_of_checkType (harguments a ha)).1
    by_contra hother
    rw [not_or] at hother
    refine instantiateInScope_avoids (E := {code | code ∉ limits ∧ code ∉ keyErrors})
      (fun code hcode hmem ↦ hmem.1 hcode) hscope harguments ?_ code hcode hother
    exact (haccepted.structuralMapKeys_avoids hinstance).mono fun code hmem ↦
      ⟨fun heq ↦ hmem.1 (.inl heq), hmem.2⟩
  · obtain ⟨hscope, -⟩ := structuralCheckType_of_checkType ht
    by_contra hother
    refine instantiateInScope_avoids (E := {code | code ∉ limits})
      (fun code hcode hmem ↦ hmem hcode) hscope harguments ?_ code hcode hother
    have hpass : env.KeysPassFrom 1 _ := haccepted.keysPassFrom_instantiate hdefinitions hscope hordered
      fun a ha ↦ by
        obtain ⟨ha, hkeys⟩ := structuralCheckType_of_checkType (harguments a ha)
        exact ⟨ha, keysPassFrom_of_eq_ok hkeys⟩
    exact (hpass 1 le_rfl).mono fun code hmem heq ↦ hmem (.inl heq)

/-! ### A pair whose second field is a map -/

namespace Paired

/-- A record with two fields of the types that it is applied to. -/
def pair : TypeDefinition where
  entityId := .splat 1
  typeParameters := [⟨0⟩, ⟨1⟩]
  form := .record [⟨.splat 1, .typeParameter 0, .exported⟩, ⟨.splat 2, .typeParameter 1, .exported⟩]
  invariants := []

def environment : TypeEnvironment := ⟨(∅ : EntityMap TypeDefinition).insert pair.entityId pair⟩

theorem new_pair : new [pair] = .ok environment := by
  have hshape : [pair].forM environment.checkDefinitionShape = .ok () := by decide
  have hcycles : environment.rejectDefinitionCycles = .ok () := by with_unfolding_all decide
  have hkeys : discard (([pair].forM environment.checkDefinitionMapKeys).run .empty) = .ok () := by
    with_unfolding_all decide
  simp only [new, bind_eq_ok]
  exact ⟨(), by decide, environment.definitions, rfl, (), hshape, (), hcycles, (), hkeys, rfl⟩

/-- Open, so that it is not expanded, although the keys of the map are floats. -/
def openPair : TypeExpr := .named (.splat 1) [.typeParameter 0, .orderedMap .f64 .unit]

end Paired

open Paired in
/-- An instance of a well-formed type under a well-formed argument may fail without any limit: the
map is looked at when the pair is closed. -/
theorem instantiateInScope_openPair : ∃ env, new [pair] = .ok env ∧
    env.checkType openPair 1 = .ok () ∧ env.checkType .unit 0 = .ok () ∧
      env.instantiateInScope openPair [.unit] 0 = .error .notOrderable :=
  ⟨environment, new_pair, by with_unfolding_all decide, by with_unfolding_all decide, by with_unfolding_all decide⟩

open Paired in
/-- The pair without the map. -/
theorem substitution_laws_pair : ∃ env, new [pair] = .ok env ∧
    ∀ code, env.instantiateInScope (.named (.splat 1) [.typeParameter 0, .text]) [.unit] 0 =
      .error code → code ∈ limits ∨ code ∈ keyErrors := by
  refine ⟨environment, new_pair, ?_⟩
  refine ((substitution_laws new_pair).2.2 (.named (.splat 1) [.typeParameter 0, .text]) [.unit] 0
    (by with_unfolding_all decide) fun a ha ↦ ?_).2.1
  obtain rfl := List.mem_singleton.1 ha
  with_unfolding_all decide

end TypeEnvironment

end Sley.TypeCheck
