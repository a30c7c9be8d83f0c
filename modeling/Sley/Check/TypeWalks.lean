import Sley.Check.Expansion
import Sley.Lib.Memo

/-!
# Walks through the definitions

The judgments on types that walk into the definitions they name, beside the recursion that neither
counts its visits nor remembers what it found (`structuralTraits`, `structuralMapKeys`). A named type
is remembered together with the depth at which it was met, so that **what is remembered is what the
recursion finds there** (`TypeWalk.Sound`), and the two judge alike until a walk is given up. In an
environment that was accepted no definition is reached from its own members.
-/

namespace Sley.TypeCheck

open Ssmc TypeExpr StateT
open TypeTraits (all)
open Except (bind_eq_ok forM_eq_ok pure_eq_ok rejectIf)

namespace TypeEnvironment

variable (env : TypeEnvironment)

/-! ### The recursion -/

/-- The traits of a type, by its structure and that of the definitions it names. -/
def structuralTraits (value : TypeExpr) (depth : Nat) : Result TypeTraits :=
  if _hdepth : depth > maxTypeDepth then .error .depthLimit
  else
    match value with
    | .unit | .bool | .sInt _ | .uInt _ | .bytes | .text | .builtinFailure _ =>
      return all
    | .f32 | .f64 => return { all with totalOrder := false }
    | .tuple elements =>
      elements.foldlM (fun combined element ↦ do
        return combined.combine (← structuralTraits element (depth + 1))) all
    | .named id arguments => do
      let definition ← env.definition id
      (memberTypes definition.form).foldlM (fun combined member ↦ do
        let member ← substitute arguments member (depth + 1)
        return combined.combine (← structuralTraits member (depth + 1))) all
    | .vector element => do
      let element ← structuralTraits element (depth + 1)
      return { element with totalOrder := false }
    | .orderedMap key value => do
      let key ← structuralTraits key (depth + 1)
      requireMapKeyTraits key
      let combined := key.combine (← structuralTraits value (depth + 1))
      return { combined with totalOrder := false }
    | .option element => structuralTraits element (depth + 1)
    | .result ok error => do
      let ok ← structuralTraits ok (depth + 1)
      return ok.combine (← structuralTraits error (depth + 1))
    | .functionRef _ _ _ => return { all with totalOrder := false }
    | .adapterHandle _ | .capabilityToken _ =>
      return { equality := true, totalOrder := false, canonicalHash := false, persistable := false }
    | .localCell _ =>
      return { equality := false, totalOrder := false, canonicalHash := false,
               persistable := false }
    | .typeParameter _ => .error .parameterOutOfScope
termination_by maxTypeDepth + 1 - depth

/-- Whether every map that the type holds or reaches has keys of an ordered type. -/
def structuralMapKeys (value : TypeExpr) (depth : Nat) : Result Unit :=
  if _hdepth : depth > maxTypeDepth then .error .depthLimit
  else
    match value with
    | .orderedMap key value => do
      structuralMapKeys key (depth + 1)
      structuralMapKeys value (depth + 1)
      rejectIf (containsParameter key) .notOrderable
      let traits ← env.structuralTraits key (depth + 1)
      requireMapKeyTraits traits
    | .named id arguments =>
      if arguments.any containsParameter then return ()
      else do
        let definition ← env.definition id
        (memberTypes definition.form).forM fun member ↦ do
          let member ← substitute arguments member (depth + 1)
          structuralMapKeys member (depth + 1)
    | .tuple elements => elements.forM fun element ↦ structuralMapKeys element (depth + 1)
    | .vector element | .option element | .localCell element =>
      structuralMapKeys element (depth + 1)
    | .result ok error => do
      structuralMapKeys ok (depth + 1)
      structuralMapKeys error (depth + 1)
    | .functionRef parameters returned _ => do
      parameters.forM fun parameter ↦ structuralMapKeys parameter (depth + 1)
      structuralMapKeys returned (depth + 1)
    | _ => return ()
termination_by maxTypeDepth + 1 - depth

/-- `check_type`, by the recursion. -/
def structuralCheckType (value : TypeExpr) (parameterCount : Nat) : Result Unit := do
  env.checkTypeInner parameterCount value 1
  env.structuralMapKeys value 1

/-- `traits`, by the recursion. -/
def structuralClosedTraits (value : TypeExpr) : Result TypeTraits := do
  env.structuralCheckType value 0
  env.structuralTraits value 1

end TypeEnvironment

/-! ### What a walk remembers -/

/-- A walk remembers what the recursion finds. -/
structure TypeWalk.Sound (env : TypeEnvironment) (walk : TypeWalk) : Prop where
  traits : ∀ {id arguments depth traits}, (((id, arguments), depth), traits) ∈ walk.traits →
    env.structuralTraits (named id arguments) depth = .ok traits
  mapKeys : ∀ {id arguments depth}, ((id, arguments), depth) ∈ walk.mapKeys →
    env.structuralMapKeys (named id arguments) depth = .ok ()

variable {env : TypeEnvironment}

theorem TypeWalk.sound_empty : TypeWalk.empty.Sound env where
  traits h := (List.not_mem_nil h).elim
  mapKeys h := (List.not_mem_nil h).elim

theorem TypeWalk.run_charge (walk : TypeWalk) : TypeWalk.charge.run walk =
    if walk.visits + 1 > maxTypeWalkVisits then .error .resourceLimit
    else .ok ((), { walk with visits := walk.visits + 1 }) := by
  by_cases hlimit : walk.visits + 1 > maxTypeWalkVisits
  · rw [if_pos hlimit]
    show (StateT.ofExcept (rejectIf _ _)).run _ = _
    rw [Except.rejectIf_pos hlimit]
    rfl
  · rw [if_neg hlimit]
    show (StateT.ofExcept (rejectIf _ _)).run _ = _
    rw [Except.rejectIf_neg hlimit]
    rfl

/-- The walk comes to what the recursion comes to, or is given up. -/
abbrev Agrees {α : Type} (env : TypeEnvironment) (x : Walk α) (p : Result α) : Prop :=
  Computes (TypeWalk.Sound env) {.resourceLimit} x p

theorem agrees_charge : Agrees env TypeWalk.charge (pure ()) := by
  constructor
  · intro walk _ walk' hsound h
    rw [TypeWalk.run_charge] at h
    split at h
    · cases h
    · obtain ⟨rfl, rfl⟩ := Prod.mk.inj (Except.ok.inj h)
      exact ⟨rfl, hsound.traits, hsound.mapKeys⟩
  · intro walk e hsound h
    rw [TypeWalk.run_charge] at h
    split at h
    · obtain rfl := Except.error.inj h
      exact .inl rfl
    · cases h

theorem mem_of_lookup {κ ν : Type} [BEq κ] [LawfulBEq κ] {entries : List (κ × ν)} {key : κ} {value : ν}
    (h : entries.lookup key = some value) : (key, value) ∈ entries := by
  obtain ⟨before, after, rfl, -⟩ := List.lookup_eq_some_iff.1 h
  exact List.mem_append_right before List.mem_cons_self

namespace TypeEnvironment

/-- **The walk for the traits of a type agrees with the recursion.** -/
theorem agrees_traits (value : TypeExpr) (depth : Nat) :
    Agrees env (env.traitsInnerWith value depth) (env.structuralTraits value depth) := by
  -- the walk goes one level down in every call
  induction hfuel : maxTypeDepth + 1 - depth using Nat.strong_induction_on generalizing value depth
    with
  | _ fuel ih =>
  rw [traitsInnerWith.eq_def, structuralTraits.eq_def]
  by_cases hdepth : depth > maxTypeDepth
  · rw [dif_pos hdepth, dif_pos hdepth]
    exact .ofExcept _
  rw [dif_neg hdepth, dif_neg hdepth]
  have hdown : ∀ value, Agrees env (env.traitsInnerWith value (depth + 1))
      (env.structuralTraits value (depth + 1)) := fun value ↦
    ih _ (by omega) value (depth + 1) rfl
  refine agrees_charge.step ?_
  cases value with
  | tuple elements =>
    exact .foldlM (fun combined element _ ↦ (hdown element).bind fun traits _ ↦ .pure _) _
  | named id arguments =>
    refine .get fun walk hsound ↦ ?_
    cases hlookup : walk.traits.lookup ((id, arguments), depth) with
    | some traits =>
      have hmem := hsound.traits (mem_of_lookup hlookup)
      rw [structuralTraits.eq_def, dif_neg hdepth] at hmem
      exact hmem ▸ .pure traits
    | none =>
      refine (Computes.ofExcept _).bind fun definition hdefinition ↦ ?_
      refine Computes.note (.foldlM (fun combined member _ ↦ ?_) _) fun combined walk hp hsound ↦ ?_
      · exact (Computes.ofExcept _).bind fun member _ ↦ (hdown member).bind fun traits _ ↦ .pure _
      · refine ⟨fun {id' arguments' depth' traits} hmem ↦ ?_, hsound.mapKeys⟩
        obtain heq | hmem := List.mem_cons.1 hmem
        · simp only [Prod.mk.injEq] at heq
          obtain ⟨⟨⟨rfl, rfl⟩, rfl⟩, rfl⟩ := heq
          rw [structuralTraits.eq_def, dif_neg hdepth]
          show env.definition _ >>= _ = _
          rw [hdefinition]
          exact hp
        · exact hsound.traits hmem
  | vector element => exact (hdown element).bind fun traits _ ↦ .pure _
  | orderedMap key value =>
    exact (hdown key).bind fun keyTraits _ ↦ (Computes.ofExcept _).bind fun _ _ ↦
      (hdown value).bind fun traits _ ↦ .pure _
  | option element => exact hdown element
  | result ok error =>
    exact (hdown ok).bind fun okTraits _ ↦ (hdown error).bind fun traits _ ↦ .pure _
  | typeParameter index => exact .ofExcept _
  | _ => exact .pure _

/-- **So does the walk for the keys of maps.** -/
theorem agrees_mapKeys (value : TypeExpr) (depth : Nat) :
    Agrees env (env.checkMapKeysWith value depth) (env.structuralMapKeys value depth) := by
  induction hfuel : maxTypeDepth + 1 - depth using Nat.strong_induction_on generalizing value depth
    with
  | _ fuel ih =>
  rw [checkMapKeysWith.eq_def, structuralMapKeys.eq_def]
  by_cases hdepth : depth > maxTypeDepth
  · rw [dif_pos hdepth, dif_pos hdepth]
    exact .ofExcept _
  rw [dif_neg hdepth, dif_neg hdepth]
  have hdown : ∀ value, Agrees env (env.checkMapKeysWith value (depth + 1))
      (env.structuralMapKeys value (depth + 1)) := fun value ↦
    ih _ (by omega) value (depth + 1) rfl
  refine agrees_charge.step ?_
  cases value with
  | orderedMap key value =>
    exact (hdown key).bind fun _ _ ↦ (hdown value).bind fun _ _ ↦ (Computes.ofExcept _).bind
      fun _ _ ↦ (agrees_traits key (depth + 1)).bind fun traits _ ↦ .ofExcept _
  | named id arguments =>
    by_cases hopen : arguments.any containsParameter
    · show Agrees env (if _ then _ else _) (if _ then _ else _)
      rw [if_pos hopen, if_pos hopen]
      exact .pure _
    show Agrees env (if _ then _ else _) (if _ then _ else _)
    rw [if_neg hopen, if_neg hopen]
    refine .get fun walk hsound ↦ ?_
    by_cases hmem : ((id, arguments), depth) ∈ walk.mapKeys
    · have hknown := hsound.mapKeys hmem
      rw [structuralMapKeys.eq_def, dif_neg hdepth] at hknown
      change (if _ then _ else _) = _ at hknown
      rw [if_neg hopen] at hknown
      rw [if_pos hmem, hknown]
      exact .pure _
    · rw [if_neg hmem]
      refine (Computes.ofExcept _).bind fun definition hdefinition ↦ ?_
      refine (Computes.forM fun member _ ↦ ?_).noteChecked fun walk hmembers hsound ↦ ?_
      · exact (Computes.ofExcept _).bind fun member _ ↦ hdown member
      · refine ⟨hsound.traits, fun {id' arguments' depth'} hmem ↦ ?_⟩
        obtain heq | hmem := List.mem_cons.1 hmem
        · simp only [Prod.mk.injEq] at heq
          obtain ⟨⟨rfl, rfl⟩, rfl⟩ := heq
          rw [structuralMapKeys.eq_def, dif_neg hdepth]
          show (if _ then _ else _) = _
          rw [if_neg hopen, hdefinition]
          exact hmembers
        · exact hsound.mapKeys hmem
  | tuple elements => exact .forM fun element _ ↦ hdown element
  | vector element | option element | localCell element => exact hdown element
  | result ok error => exact (hdown ok).bind fun _ _ ↦ hdown error
  | functionRef parameters returned effects =>
    exact (Computes.forM fun parameter _ ↦ hdown parameter).bind fun _ _ ↦ hdown returned
  | _ => exact .pure _

/-! ### The judgments -/

theorem run_mapKeys_eq (value : TypeExpr) (depth : Nat) :
    (env.checkMapKeysWith value depth).run' .empty = env.structuralMapKeys value depth ∨
      (env.checkMapKeysWith value depth).run' .empty = .error .resourceLimit := by
  obtain h | ⟨_, rfl, h⟩ := (agrees_mapKeys value depth).run'_eq TypeWalk.sound_empty
  · exact .inl h
  · exact .inr h

theorem run_traits_eq (value : TypeExpr) (depth : Nat) :
    (env.traitsInnerWith value depth).run' .empty = env.structuralTraits value depth ∨
      (env.traitsInnerWith value depth).run' .empty = .error .resourceLimit := by
  obtain h | ⟨_, rfl, h⟩ := (agrees_traits value depth).run'_eq TypeWalk.sound_empty
  · exact .inl h
  · exact .inr h

theorem checkType_eq (value : TypeExpr) (parameterCount : Nat) :
    env.checkType value parameterCount = env.structuralCheckType value parameterCount ∨
      env.checkType value parameterCount = .error .resourceLimit := by
  have heq : env.checkType value parameterCount = env.checkTypeInner parameterCount value 1 >>=
      fun _ ↦ (env.checkMapKeysWith value 1).run' .empty := rfl
  rw [heq, structuralCheckType]
  cases env.checkTypeInner parameterCount value 1 with
  | error e => exact .inl rfl
  | ok u => exact run_mapKeys_eq value 1

theorem traits_eq (value : TypeExpr) : env.traits value = env.structuralClosedTraits value ∨
      env.traits value = .error .resourceLimit := by
  have heq : env.traits value = env.checkClosedType value >>=
      fun _ ↦ (env.traitsInnerWith value 1).run' .empty := by
    show (_ >>= fun _ ↦ (env.traitsInnerWith value 1).run .empty >>= fun p ↦ pure p.1) = _
    exact congrArg _ (funext fun _ ↦ (map_eq_pure_bind _ _).symm)
  rw [heq, structuralClosedTraits]
  obtain h | h := env.checkType_eq value 0
  · rw [checkClosedType, h]
    cases env.structuralCheckType value 0 with
    | error e => exact .inl rfl
    | ok u => exact run_traits_eq value 1
  · rw [checkClosedType, h]
    exact .inr rfl

/-! ### Definitions that do not contain themselves -/

/-- A definition names the other in one of its members. -/
def Depends (env : TypeEnvironment) (dependency id : EntityId) : Prop :=
  ∃ definition, env.definition id = .ok definition ∧ dependency ∈ dependencies definition

/-- What is complete is founded. -/
def Founded (env : TypeEnvironment) (visits : EntityMap Visit) : Prop :=
  ∀ id : EntityId, visits[id]? = some .complete → Acc env.Depends id

/-- What a visit keeps: what was complete stays so, and is founded. -/
structure Advances (env : TypeEnvironment) (visits visits' : EntityMap Visit) : Prop where
  founded : env.Founded visits → env.Founded visits'
  complete : ∀ id : EntityId, visits[id]? = some .complete → visits'[id]? = some .complete

theorem Advances.refl (visits : EntityMap Visit) : env.Advances visits visits := ⟨id, fun _ ↦ id⟩

theorem Advances.trans {visits visits₁ visits₂ : EntityMap Visit}
    (h : env.Advances visits visits₁) (h' : env.Advances visits₁ visits₂) :
    env.Advances visits visits₂ :=
  ⟨fun hvisits ↦ h'.founded (h.founded hvisits), fun id hid ↦ h'.complete id (h.complete id hid)⟩

variable {definition : TypeDefinition} {id : EntityId} {visits visits' : EntityMap Visit}

/-- A loop of visits completes all of its elements. -/
theorem advances_of_forM {visit : EntityId → StateT (EntityMap Visit) (Except TypeErrorCode) Unit}
    {ids : List EntityId} (hvisit : ∀ id visits visits', (visit id).run visits = .ok ((), visits') →
      env.Advances visits visits' ∧ visits'[id]? = some .complete)
    (h : (ids.forM visit).run visits = .ok ((), visits')) :
    env.Advances visits visits' ∧ ∀ id ∈ ids, visits'[id]? = some .complete := by
  induction ids generalizing visits with
  | nil =>
    obtain ⟨-, rfl⟩ := run_pure_eq_ok.1 h
    exact ⟨.refl _, fun id hid ↦ (List.not_mem_nil hid).elim⟩
  | cons id ids ih =>
    rw [List.forM_eq_forM, List.forM_cons, run_bind_eq_ok] at h
    obtain ⟨_, visits₁, hid, hids⟩ := h
    obtain ⟨hadvances, hcomplete⟩ := hvisit id visits visits₁ hid
    obtain ⟨hadvances', hrest⟩ := ih hids
    refine ⟨hadvances.trans hadvances', fun other hother ↦ ?_⟩
    obtain rfl | hother := List.mem_cons.1 hother
    · exact hadvances'.complete _ hcomplete
    · exact hrest other hother

/-- A definition becomes active. -/
theorem Advances.start {visits : EntityMap Visit} (h : visits[id]? = none) :
    env.Advances visits (visits.insert id .active) := by
  refine ⟨fun hfounded other hother ↦ ?_, fun other hother ↦ ?_⟩
  · rw [EntityMap.getElem?_insert_eq] at hother
    split at hother
    · cases hother
    · exact hfounded other hother
  · rw [EntityMap.getElem?_insert_eq, if_neg, hother]
    rintro rfl
    rw [h] at hother
    cases hother

/-- A definition whose dependencies are complete becomes complete. -/
theorem Advances.finish {visits : EntityMap Visit} (hid : env.definition id = .ok definition)
    (h : ∀ dependency ∈ dependencies definition, visits[dependency]? = some .complete) :
    env.Advances visits (visits.insert id .complete) := by
  refine ⟨fun hfounded other hother ↦ ?_, fun other hother ↦ ?_⟩
  · rw [EntityMap.getElem?_insert_eq] at hother
    split at hother
    · rename_i heq
      subst heq
      refine ⟨_, fun dependency ⟨definition', hdefinition', hdependency⟩ ↦ ?_⟩
      obtain rfl := Except.ok.inj (hid.symm.trans hdefinition')
      exact hfounded dependency (h dependency hdependency)
    · exact hfounded other hother
  · rw [EntityMap.getElem?_insert_eq]
    split
    · rfl
    · exact hother

/-- **A definition whose visit ends is complete, and founded.** -/
theorem advances_of_visitDefinition {depth : Nat}
    (h : (env.visitDefinition id depth).run visits = .ok ((), visits')) :
    env.Advances visits visits' ∧ visits'[id]? = some .complete := by
  induction hfuel : maxTypeDepth + 1 - depth using Nat.strong_induction_on
    generalizing id depth visits visits' with
  | _ fuel ih =>
  rw [visitDefinition.eq_def] at h
  by_cases hdepth : depth > maxTypeDepth
  · rw [dif_pos hdepth] at h
    cases (run_ofExcept_eq_ok.1 h).1
  rw [dif_neg hdepth] at h
  obtain ⟨_, _, hget, h⟩ := run_bind_eq_ok.1 h
  obtain ⟨rfl, rfl⟩ := Prod.mk.inj (Except.ok.inj hget)
  match hstate : visits[id]?, h with
  | some .active, h => cases (run_ofExcept_eq_ok.1 h).1
  | some .complete, h =>
    obtain ⟨-, rfl⟩ := run_pure_eq_ok.1 h
    exact ⟨.refl _, hstate⟩
  | none, h =>
    obtain ⟨_, _, hactive, h⟩ := run_bind_eq_ok.1 h
    obtain ⟨-, rfl⟩ := Prod.mk.inj (Except.ok.inj hactive)
    obtain ⟨definition, _, hdefinition, h⟩ := run_bind_eq_ok.1 h
    obtain ⟨hfound, rfl⟩ := run_ofExcept_eq_ok.1 hdefinition
    obtain ⟨_, visits₁, hloop, h⟩ := run_bind_eq_ok.1 h
    obtain ⟨-, rfl⟩ := Prod.mk.inj (Except.ok.inj h)
    obtain ⟨hadvances, hcomplete⟩ := env.advances_of_forM (fun dependency _ _ hstep ↦ by
      obtain ⟨_, _, hknown, hvisit⟩ := run_bind_eq_ok.1 hstep
      obtain ⟨⟨_, _⟩, hknown, hsame⟩ := bind_eq_ok.1 hknown
      obtain ⟨-, rfl⟩ := run_ofExcept_eq_ok.1 hknown
      obtain ⟨-, rfl⟩ := Prod.mk.inj (pure_eq_ok.1 hsame)
      exact ih _ (by omega) hvisit rfl) hloop
    refine ⟨(Advances.start hstate).trans (hadvances.trans (Advances.finish hfound hcomplete)), ?_⟩
    rw [EntityMap.getElem?_insert_eq, if_pos rfl]

/-- **No definition depends on itself** when none was met while it was active. -/
theorem acc_of_rejectDefinitionCycles (h : env.rejectDefinitionCycles = .ok ())
    (hid : env.definition id = .ok definition) :
    Acc env.Depends id := by
  obtain ⟨⟨_, visits⟩, hrun, -⟩ := bind_eq_ok.1
    ((map_eq_pure_bind (fun _ ↦ ()) _).symm.trans h)
  have hmem : (id, definition) ∈ env.definitions.toList :=
    Std.ExtTreeMap.mem_toList_iff_getElem?_eq_some.2 (Except.ofOption_eq_ok.1 hid)
  have hfounded : env.Founded (∅ : EntityMap Visit) := fun id hid ↦ by simp at hid
  have hloop : ((env.definitions.toList.map Prod.fst).forM fun id ↦ env.visitDefinition id 1).run ∅
      = .ok ((), visits) := by
    rw [← hrun]
    congr 1
    exact (List.forM_map ..)
  obtain ⟨hadvances, hcomplete⟩ := advances_of_forM
    (fun _ _ _ hvisit ↦ advances_of_visitDefinition hvisit) hloop
  exact hadvances.founded hfounded id (hcomplete id (List.mem_map_of_mem hmem))

/-- What a member reaches, its definition depends on. -/
theorem transGen_of_dependsOn {id root : EntityId} {m : TypeExpr}
    (hroot : env.definition root = .ok definition) (hm : m ∈ memberTypes definition.form)
    (h : env.DependsOn m id) : Relation.TransGen env.Depends id root := by
  induction h with
  | named hnamed =>
    obtain hempty | hnames := (mem_collectNamedDependencies m ∅).1 hnamed
    · exact absurd hempty Std.ExtTreeSet.not_mem_empty
    · exact .single ⟨definition, hroot, mem_dependencies.2 ⟨m, hm, hnames⟩⟩
  | member _ hid hdep ih => exact .head ⟨_, hid, hdep⟩ ih

/-- What is founded is on no cycle. -/
theorem not_transGen_of_acc {α : Type} {r : α → α → Prop} {a : α} (h : Acc r a) :
    ¬ Relation.TransGen r a a := by
  induction h with
  | intro a _ ih =>
    intro hcycle
    obtain ⟨b, hab, hba⟩ := Relation.TransGen.tail'_iff.1 hcycle
    exact ih b hba (.head' hba hab)

/-! ### Accepted environments -/

/-- What admission establishes of the definitions. -/
structure Accepted (env : TypeEnvironment) : Prop where
  shape : ∀ {id definition}, env.definition id = .ok definition →
    env.checkDefinitionShape definition = .ok ()
  acc : ∀ {id definition}, env.definition id = .ok definition → Acc env.Depends id
  mapKeys : ∀ {id definition}, env.definition id = .ok definition →
    ∀ m ∈ memberTypes definition.form, env.structuralMapKeys m 1 = .ok ()

theorem accepted_of_new {definitions : List TypeDefinition} (h : new definitions = .ok env) :
    env.Accepted := by
  obtain ⟨_, -, h⟩ := bind_eq_ok.1 h
  obtain ⟨byId, -, h⟩ := bind_eq_ok.1 h
  obtain ⟨_, hshape, h⟩ := bind_eq_ok.1 h
  obtain ⟨_, hcycles, h⟩ := bind_eq_ok.1 h
  obtain ⟨_, hkeys, h⟩ := bind_eq_ok.1 h
  obtain rfl := pure_eq_ok.1 h
  have hmem : ∀ {id definition}, (⟨byId⟩ : TypeEnvironment).definition id = .ok definition →
      definition ∈ byId.intoValues := fun hid ↦
    EntityMap.mem_intoValues_iff.2 ⟨_, Except.ofOption_eq_ok.1 hid⟩
  refine ⟨fun hid ↦ forM_eq_ok.1 hshape _ (hmem hid),
    fun hid ↦ acc_of_rejectDefinitionCycles hcycles hid, fun {id definition} hid m hm ↦ ?_⟩
  obtain ⟨⟨_, walk⟩, hrun, -⟩ := bind_eq_ok.1
    ((map_eq_pure_bind (fun _ ↦ ()) _).symm.trans hkeys)
  -- one walk goes through all the definitions
  have hagrees : Agrees ⟨byId⟩ (byId.intoValues.forM (checkDefinitionMapKeys ⟨byId⟩))
      (byId.intoValues.forM fun definition ↦
        (memberTypes definition.form).forM fun m ↦ structuralMapKeys ⟨byId⟩ m 1) :=
    .forM fun definition _ ↦ .forM fun m _ ↦ agrees_mapKeys m 1
  have hall := (hagrees.ok TypeWalk.sound_empty hrun).1
  exact forM_eq_ok.1 (forM_eq_ok.1 hall definition (hmem hid)) m hm

/-- **No definition contains itself**, at any depth and with any arguments. -/
theorem Accepted.not_reaches (h : env.Accepted)
    (hid : env.definition id = .ok definition) {m : TypeExpr}
    (hm : m ∈ memberTypes definition.form) (arguments : List TypeExpr) :
    ¬ env.Reaches m (named id arguments) := by
  intro hreaches
  have hnone : OfHead fun _ ↦ False := ⟨fun _ ↦ .rfl, fun _ ↦ not_false⟩
  have hdepends := (hnone.of_reaches hreaches).2 id ⟨arguments, .refl _⟩
  exact not_transGen_of_acc (h.acc hid) (transGen_of_dependsOn hid hm hdepends)

/-- **Walks that remember judge as the recursion does**, unless they are given up, and no definition
of an accepted environment contains itself. -/
theorem memoised_walks {definitions : List TypeDefinition} (h : new definitions = .ok env) :
    (∀ value depth,
      ((env.checkMapKeysWith value depth).run' .empty = env.structuralMapKeys value depth ∨
        (env.checkMapKeysWith value depth).run' .empty = .error .resourceLimit) ∧
      ((env.traitsInnerWith value depth).run' .empty = env.structuralTraits value depth ∨
        (env.traitsInnerWith value depth).run' .empty = .error .resourceLimit)) ∧
    (∀ value parameterCount,
      env.checkType value parameterCount = env.structuralCheckType value parameterCount ∨
        env.checkType value parameterCount = .error .resourceLimit) ∧
    (∀ value, env.traits value = env.structuralClosedTraits value ∨
      env.traits value = .error .resourceLimit) ∧
    ∀ id definition, env.definition id = .ok definition →
      ∀ m ∈ memberTypes definition.form, ∀ arguments, ¬ env.Reaches m (named id arguments) :=
  ⟨fun value depth ↦ ⟨run_mapKeys_eq value depth, run_traits_eq value depth⟩, checkType_eq,
    traits_eq, fun _ _ hid _ hm ↦ (accepted_of_new h).not_reaches hid hm⟩

/-! ### A generic definition and its use -/

namespace Boxed

/-- A record with one field of the type that it is applied to. -/
def box : TypeDefinition where
  entityId := .splat 1
  typeParameters := [⟨0⟩]
  form := .record [⟨.splat 1, .typeParameter 0, .exported⟩]
  invariants := []

/-- A box inside a box, and a map from boxes. -/
def boxes : TypeDefinition where
  entityId := .splat 2
  typeParameters := []
  form := .record [⟨.splat 1, .named (.splat 1) [.named (.splat 1) [.unit]], .exported⟩,
    ⟨.splat 2, .orderedMap (.named (.splat 1) [.text]) .f64, .exported⟩]
  invariants := []

theorem exists_environment : ∃ env, new [box, boxes] = .ok env := by
  have hok : (new [box, boxes]).isOk = true := by with_unfolding_all decide
  cases h : new [box, boxes] with
  | ok env => exact ⟨env, rfl⟩
  | error e =>
    rw [h] at hok
    cases hok

end Boxed

open Boxed in
/-- The walks over the boxes. -/
theorem memoised_walks_boxed : ∃ env, new [box, boxes] = .ok env ∧
    (env.traits (.named (.splat 2) []) = env.structuralClosedTraits (.named (.splat 2) []) ∨
      env.traits (.named (.splat 2) []) = .error .resourceLimit) := by
  obtain ⟨env, henv⟩ := exists_environment
  exact ⟨env, henv, (memoised_walks henv).2.2.1 _⟩

end TypeEnvironment

end Sley.TypeCheck
