import Sley.Check.Substitution
import Sley.Lib.Itemized

/-!
# What a walk into the definitions costs

The items of a walk through a type (`traitsItems`, `mapKeysItems`): one for each type that it visits
before it comes to a named type, and one for each named type, which stands for what is remembered of
it. The items of a named type are those of the members of its definition, one level down, so that
**no named type is among its own items**.

Only a walk that runs out of visits stops with `resourceLimit`. So whether one walk through several
types runs out does not depend on their order.
-/

namespace Sley.TypeCheck

open Ssmc TypeExpr StateT
open Except (avoids_pure)

variable {arguments : List TypeExpr} {t : TypeExpr} {depth : Nat}

/-- What is remembered of a named type at a depth: that its maps have ordered keys, or its
traits. -/
inductive Remembered
  | mapKeys (key : NamedType × Nat)
  | traits (key : NamedType × Nat)
  deriving DecidableEq

/-- The depth at which the type was met. -/
def Remembered.level : Remembered → Nat
  | mapKeys key | traits key => key.2

/-- Everything that a walk remembers. -/
def TypeWalk.remembered (walk : TypeWalk) : Finset Remembered :=
  (walk.mapKeys.map Remembered.mapKeys ++
    walk.traits.map fun entry ↦ Remembered.traits entry.1).toFinset

def traitsItems (value : TypeExpr) (depth : Nat) : List (Option Remembered) :=
  if _hdepth : depth > maxTypeDepth then []
  else
    match value with
    | .tuple elements => none :: elements.flatMap fun element ↦ traitsItems element (depth + 1)
    | .named id arguments => [some (.traits ((id, arguments), depth))]
    | .vector element | .option element => none :: traitsItems element (depth + 1)
    | .orderedMap key value =>
      none :: (traitsItems key (depth + 1) ++ traitsItems value (depth + 1))
    | .result ok error => none :: (traitsItems ok (depth + 1) ++ traitsItems error (depth + 1))
    | _ => [none]
termination_by maxTypeDepth + 1 - depth

def mapKeysItems (value : TypeExpr) (depth : Nat) : List (Option Remembered) :=
  if _hdepth : depth > maxTypeDepth then []
  else
    match value with
    | .orderedMap key value =>
      none :: (mapKeysItems key (depth + 1) ++ (mapKeysItems value (depth + 1) ++
        traitsItems key (depth + 1)))
    | .named id arguments =>
      if arguments.any containsParameter then [none] else [some (.mapKeys ((id, arguments), depth))]
    | .tuple elements => none :: elements.flatMap fun element ↦ mapKeysItems element (depth + 1)
    | .vector element | .option element | .localCell element =>
      none :: mapKeysItems element (depth + 1)
    | .result ok error => none :: (mapKeysItems ok (depth + 1) ++ mapKeysItems error (depth + 1))
    | .functionRef parameters returned _ =>
      none :: ((parameters.flatMap fun parameter ↦ mapKeysItems parameter (depth + 1)) ++
        mapKeysItems returned (depth + 1))
    | _ => [none]
termination_by maxTypeDepth + 1 - depth

namespace TypeEnvironment

variable (env : TypeEnvironment)

/-- The items of the members of a definition, with the arguments in the place of its parameters. -/
def memberItems (items : TypeExpr → Nat → List (Option Remembered)) (key : NamedType × Nat) :
    List (Option Remembered) :=
  match env.definition key.1.1 with
  | .error _ => []
  | .ok definition => (memberTypes definition.form).flatMap fun member ↦
    match substitute key.1.2 member (key.2 + 1) with
    | .error _ => []
    | .ok member => items member (key.2 + 1)

def walkBill : Bill TypeWalk Remembered where
  spent walk := walk.visits
  memo walk := walk.remembered
  body
    | .mapKeys key => env.memberItems mapKeysItems key
    | .traits key => env.memberItems traitsItems key
  limit := maxTypeWalkVisits

variable {env}

/-! ### Deeper and deeper -/

theorem level_le_of_mem_traitsItems {k : Remembered} (h : some k ∈ traitsItems t depth) :
    depth ≤ k.level := by
  induction hfuel : maxTypeDepth + 1 - depth using Nat.strong_induction_on generalizing t depth with
  | _ fuel ih =>
  rw [traitsItems.eq_def] at h
  by_cases hdepth : depth > maxTypeDepth
  · rw [dif_pos hdepth] at h
    exact (List.not_mem_nil h).elim
  rw [dif_neg hdepth] at h
  have hdown : ∀ {t}, some k ∈ traitsItems t (depth + 1) → depth ≤ k.level := fun h ↦
    Nat.le_of_succ_le (ih _ (by omega) h rfl)
  cases t with
  | named id arguments =>
    obtain rfl := Option.some.inj (List.mem_singleton.1 h)
    exact Nat.le_refl depth
  | _ => simp at h <;> grind

theorem level_le_of_mem_mapKeysItems {k : Remembered} (h : some k ∈ mapKeysItems t depth) :
    depth ≤ k.level := by
  induction hfuel : maxTypeDepth + 1 - depth using Nat.strong_induction_on generalizing t depth with
  | _ fuel ih =>
  rw [mapKeysItems.eq_def] at h
  by_cases hdepth : depth > maxTypeDepth
  · rw [dif_pos hdepth] at h
    exact (List.not_mem_nil h).elim
  rw [dif_neg hdepth] at h
  have hdown : ∀ {t}, some k ∈ mapKeysItems t (depth + 1) → depth ≤ k.level := fun h ↦
    Nat.le_of_succ_le (ih _ (by omega) h rfl)
  cases t with
  | named id arguments =>
    change some k ∈ (if _ then _ else _) at h
    split at h
    · simp at h
    · obtain rfl := Option.some.inj (List.mem_singleton.1 h)
      exact Nat.le_refl depth
  | orderedMap key value =>
    simp at h
    obtain h | h | h := h
    · exact hdown h
    · exact hdown h
    · exact Nat.le_of_succ_le (level_le_of_mem_traitsItems h)
  | _ => simp at h <;> grind

theorem level_lt_of_mem_body {k k' : Remembered} (h : some k' ∈ env.walkBill.body k) :
    k.level < k'.level := by
  have hmembers : ∀ {items : TypeExpr → Nat → List (Option Remembered)} {key : NamedType × Nat},
      (∀ {t depth}, some k' ∈ items t depth → depth ≤ k'.level) →
        some k' ∈ env.memberItems items key → key.2 < k'.level := by
    intro items key hitems h
    rw [memberItems] at h
    split at h
    · exact (List.not_mem_nil h).elim
    obtain ⟨member, -, h⟩ := List.mem_flatMap.1 h
    split at h
    · exact (List.not_mem_nil h).elim
    · exact hitems h
  cases k with
  | mapKeys key => exact hmembers level_le_of_mem_mapKeysItems h
  | traits key => exact hmembers level_le_of_mem_traitsItems h

theorem level_le_of_reflTransGen {k k' : Remembered}
    (h : Relation.ReflTransGen (fun k k' ↦ k' ∈ env.walkBill.next k) k k') : k.level ≤ k'.level := by
  induction h with
  | refl => exact Nat.le_refl _
  | tail _ hstep ih => exact ih.trans (level_lt_of_mem_body hstep).le

/-- **No named type is among its own items**, at whatever distance. -/
theorem not_mem_keysOf_body (k : Remembered) : k ∉ env.walkBill.keysOf (env.walkBill.body k) := by
  rintro ⟨first, hfirst, h⟩
  exact Nat.not_le.2 (level_lt_of_mem_body hfirst) (level_le_of_reflTransGen h)

/-! ### The walks -/

/-- The error of a walk that has run out of visits. -/
def outOfVisits : Set TypeErrorCode := {.resourceLimit}

theorem substituteAll_avoids_outOfVisits {values : List TypeExpr}
    (h : ∀ v ∈ values, (substitute arguments v depth).Avoids outOfVisits) :
    (substituteAll arguments values depth).Avoids outOfVisits := by
  induction values with
  | nil => exact avoids_pure _
  | cons v values ih =>
    obtain ⟨hv, hvalues⟩ := List.forall_mem_cons.1 h
    rw [substituteAll]
    exact hv.bind fun _ _ ↦ (ih hvalues).bind fun _ _ ↦ avoids_pure _

theorem substitute_avoids_outOfVisits (t : TypeExpr) (depth : Nat) :
    (substitute arguments t depth).Avoids outOfVisits := by
  induction t using inductionOn generalizing depth with
  | step t ih =>
    have hlist : ∀ {values : List TypeExpr}, values ⊆ t.components →
        (substituteAll arguments values (depth + 1)).Avoids outOfVisits := fun hsub ↦
      substituteAll_avoids_outOfVisits fun v hv ↦ ih v (hsub hv) _
    rw [substitute.eq_def]
    refine (Except.avoids_rejectIf fun h ↦ by cases h).bind fun _ _ ↦ ?_
    cases t with
    | typeParameter index => exact Except.avoids_ofOption fun h ↦ by cases h
    | tuple items | named definition items =>
      exact (hlist (List.Subset.refl items)).bind fun _ _ ↦ avoids_pure _
    | functionRef parameters returned effects =>
      exact (hlist (List.subset_append_left _ _)).bind fun _ _ ↦
        (ih returned (by simp [components]) _).bind fun _ _ ↦ avoids_pure _
    | vector element | option element | localCell element =>
      exact (ih element (by simp [components]) _).bind fun _ _ ↦ avoids_pure _
    | orderedMap a b | result a b =>
      exact (ih a (by simp [components]) _).bind fun _ _ ↦
        (ih b (by simp [components]) _).bind fun _ _ ↦ avoids_pure _
    | _ => exact avoids_pure _

theorem definition_avoids_outOfVisits (id : EntityId) : (env.definition id).Avoids outOfVisits :=
  Except.avoids_ofOption fun h ↦ by cases h

theorem requireMapKeyTraits_avoids_outOfVisits (traits : TypeTraits) :
    (requireMapKeyTraits traits).Avoids outOfVisits :=
  (requireMapKeyTraits_avoids traits).mono fun _ h ↦ by
    obtain rfl := h
    simp [unexpected, keyErrors]

/-- Every visit is charged. -/
theorem charges_charge : env.walkBill.Charges TypeWalk.charge where
  ok {walk _ walk'} h := by
    rw [TypeWalk.run_charge] at h
    split at h
    · cases h
    · obtain ⟨-, rfl⟩ := Prod.mk.inj (Except.ok.inj h)
      exact ⟨rfl, rfl, Nat.not_lt.1 ‹_›⟩
  error {walk e} h := by
    rw [TypeWalk.run_charge] at h
    split at h
    · rename_i hover
      exact hover
    · cases h

theorem mem_remembered_traits {walk : TypeWalk} {key : NamedType × Nat} :
    .traits key ∈ walk.remembered ↔ ∃ traits, (key, traits) ∈ walk.traits := by
  simp [TypeWalk.remembered]

theorem mem_remembered_mapKeys {walk : TypeWalk} {key : NamedType × Nat} :
    .mapKeys key ∈ walk.remembered ↔ key ∈ walk.mapKeys := by
  simp [TypeWalk.remembered]

theorem itemizes_traits (value : TypeExpr) (depth : Nat) :
    env.walkBill.Itemizes outOfVisits (env.traitsInnerWith value depth)
      (traitsItems value depth) := by
  induction hfuel : maxTypeDepth + 1 - depth using Nat.strong_induction_on generalizing value depth
    with
  | _ fuel ih =>
  rw [traitsInnerWith.eq_def, traitsItems.eq_def]
  by_cases hdepth : depth > maxTypeDepth
  · rw [dif_pos hdepth, dif_pos hdepth]
    exact .ofExcept (Except.avoids_error_iff.2 fun h ↦ by cases h)
  rw [dif_neg hdepth, dif_neg hdepth]
  have hdown : ∀ value, env.walkBill.Itemizes outOfVisits (env.traitsInnerWith value (depth + 1))
      (traitsItems value (depth + 1)) := fun value ↦ ih _ (by omega) value (depth + 1) rfl
  have hvisit := (charges_charge : env.walkBill.Charges TypeWalk.charge).itemizes (E := outOfVisits)
  cases value with
  | tuple elements =>
    exact hvisit.bind fun _ ↦ .foldlM (fun combined element _ ↦ (hdown element).map) _
  | named id arguments =>
    refine .recall charges_charge (not_mem_keysOf_body _) (fun walk hmem ↦ ?_) fun walk hmem ↦ ?_
    · obtain ⟨traits, hentry⟩ := mem_remembered_traits.1 hmem
      cases hlookup : walk.traits.lookup ((id, arguments), depth) with
      | some traits => exact .pure traits
      | none =>
        have hne := List.lookup_eq_none_iff.1 hlookup _ hentry
        simp at hne
    · cases hlookup : walk.traits.lookup ((id, arguments), depth) with
      | some traits =>
        exact absurd (mem_remembered_traits.2 ⟨traits, mem_of_lookup hlookup⟩) hmem
      | none =>
        refine .ofExcept_bind (definition_avoids_outOfVisits id) fun definition hdefinition ↦ ?_
        refine Bill.Itemizes.note ?_ fun combined walk ↦ ⟨?_, rfl⟩
        · show env.walkBill.Itemizes _ _ (env.memberItems traitsItems _)
          rw [memberItems, hdefinition]
          refine .foldlM (fun combined member _ ↦ ?_) _
          refine .ofExcept_bind (substitute_avoids_outOfVisits member _) fun member' hmember ↦ ?_
          rw [hmember]
          exact (hdown member').map
        · ext k
          simp [walkBill, TypeWalk.remembered]
  | vector element => exact hvisit.bind fun _ ↦ (hdown element).map
  | orderedMap key value =>
    exact hvisit.bind fun _ ↦ (hdown key).bind fun keyTraits ↦
      .ofExcept_bind (requireMapKeyTraits_avoids_outOfVisits keyTraits) fun _ _ ↦
        (hdown value).map
  | option element => exact hvisit.bind fun _ ↦ hdown element
  | result ok error =>
    exact hvisit.bind fun _ ↦ (hdown ok).bind fun okTraits ↦ (hdown error).map
  | typeParameter index =>
    exact hvisit.bind fun _ ↦ .ofExcept (Except.avoids_error_iff.2 fun h ↦ by cases h)
  | _ => exact hvisit.map

theorem itemizes_mapKeys (value : TypeExpr) (depth : Nat) :
    env.walkBill.Itemizes outOfVisits (env.checkMapKeysWith value depth)
      (mapKeysItems value depth) := by
  induction hfuel : maxTypeDepth + 1 - depth using Nat.strong_induction_on generalizing value depth
    with
  | _ fuel ih =>
  rw [checkMapKeysWith.eq_def, mapKeysItems.eq_def]
  by_cases hdepth : depth > maxTypeDepth
  · rw [dif_pos hdepth, dif_pos hdepth]
    exact .ofExcept (Except.avoids_error_iff.2 fun h ↦ by cases h)
  rw [dif_neg hdepth, dif_neg hdepth]
  have hdown : ∀ value, env.walkBill.Itemizes outOfVisits (env.checkMapKeysWith value (depth + 1))
      (mapKeysItems value (depth + 1)) := fun value ↦ ih _ (by omega) value (depth + 1) rfl
  have hvisit := (charges_charge : env.walkBill.Charges TypeWalk.charge).itemizes (E := outOfVisits)
  cases value with
  | orderedMap key value =>
    refine hvisit.bind fun _ ↦ (hdown key).bind fun _ ↦ (hdown value).bind fun _ ↦
      .ofExcept_bind (Except.avoids_rejectIf fun h ↦ by cases h) fun _ _ ↦ ?_
    rw [← List.append_nil (traitsItems key (depth + 1))]
    exact (itemizes_traits key (depth + 1)).bind fun traits ↦
      .ofExcept (requireMapKeyTraits_avoids_outOfVisits traits)
  | named id arguments =>
    by_cases hopen : arguments.any containsParameter = true
    · simp only [if_pos hopen]
      exact hvisit.bind fun _ ↦ .pure _
    simp only [if_neg hopen]
    refine .recall charges_charge (not_mem_keysOf_body _) (fun walk hmem ↦ ?_) fun walk hmem ↦ ?_
    · rw [if_pos (mem_remembered_mapKeys.1 hmem)]
      exact .pure _
    · rw [if_neg fun h ↦ hmem (mem_remembered_mapKeys.2 h)]
      refine .ofExcept_bind (definition_avoids_outOfVisits id) fun definition hdefinition ↦ ?_
      refine Bill.Itemizes.noteChecked ?_ fun walk ↦ ⟨?_, rfl⟩
      · show env.walkBill.Itemizes _ _ (env.memberItems mapKeysItems _)
        rw [memberItems, hdefinition]
        refine .forM fun member _ ↦ ?_
        refine .ofExcept_bind (substitute_avoids_outOfVisits member _) fun member' hmember ↦ ?_
        rw [hmember]
        exact hdown member'
      · ext k
        simp [walkBill, TypeWalk.remembered]
  | tuple elements => exact hvisit.bind fun _ ↦ .forM fun element _ ↦ hdown element
  | vector element | option element | localCell element =>
    exact hvisit.bind fun _ ↦ hdown element
  | result ok error => exact hvisit.bind fun _ ↦ (hdown ok).bind fun _ ↦ hdown error
  | functionRef parameters returned effects =>
    exact hvisit.bind fun _ ↦ (Bill.Itemizes.forM fun parameter _ ↦ hdown parameter).bind fun _ ↦
      hdown returned
  | _ => exact hvisit.map

/-- The items of a definition. -/
theorem itemizes_definition (definition : TypeDefinition) :
    env.walkBill.Itemizes outOfVisits (env.checkDefinitionMapKeys definition)
      ((memberTypes definition.form).flatMap (mapKeysItems · 1)) :=
  .forM fun member _ ↦ itemizes_mapKeys member 1

end TypeEnvironment

end Sley.TypeCheck
