import Mathlib
import Sley.Ssmc.Types

/-!
# Types inside types

A type is built from its components: the items of a tuple, the arguments of a named type, the key
and the value of a map and so on. A type **occurs** in another when a chain of components leads to
it, and every walk of the source over the syntax of a type is a search for such an occurrence.

Replacing the parameters of a body by arguments replaces them in whatever occurs in it, and nothing
occurs in the outcome that did not occur in the body or in an argument.
-/

namespace Sley.Ssmc.TypeExpr

/-- The types a type is directly built from. -/
def components : TypeExpr → List TypeExpr
  | tuple items => items
  | named _ arguments => arguments
  | vector element | option element | localCell element => [element]
  | orderedMap key value => [key, value]
  | result ok error => [ok, error]
  | functionRef parameters returned _ => parameters ++ [returned]
  | unit | bool | sInt _ | uInt _ | f32 | f64 | bytes | text | adapterHandle _ | capabilityToken _
  | typeParameter _ | builtinFailure _ => []

theorem sizeOf_lt_of_mem_components {t s : TypeExpr} (h : s ∈ t.components) :
    sizeOf s < sizeOf t := by
  cases t with
  | tuple items =>
    have := List.sizeOf_lt_of_mem (show s ∈ items from h)
    simp only [tuple.sizeOf_spec]
    omega
  | named definition arguments =>
    have := List.sizeOf_lt_of_mem (show s ∈ arguments from h)
    simp only [named.sizeOf_spec]
    omega
  | functionRef parameters returned effects =>
    simp only [functionRef.sizeOf_spec]
    obtain h | h := List.mem_append.1 h
    · have := List.sizeOf_lt_of_mem h
      omega
    · obtain rfl := List.mem_singleton.1 h
      omega
  | vector | option | localCell | orderedMap | result =>
    simp only [components, List.mem_cons, List.not_mem_nil, or_false] at h
    rcases h with rfl | rfl <;> simp <;> omega
  | _ => exact (List.not_mem_nil h).elim

/-- Induction along the components. -/
theorem inductionOn {P : TypeExpr → Prop} (t : TypeExpr)
    (step : ∀ t, (∀ s ∈ t.components, P s) → P t) : P t :=
  step t fun s _ ↦ inductionOn s step
termination_by sizeOf t
decreasing_by exact sizeOf_lt_of_mem_components ‹_›

/-- The type is found in the other, at any depth. -/
def OccursIn (s t : TypeExpr) : Prop := Relation.ReflTransGen (fun t s ↦ s ∈ t.components) t s

theorem occursIn_iff {s t : TypeExpr} :
    s.OccursIn t ↔ s = t ∨ ∃ c ∈ t.components, s.OccursIn c := by
  rw [OccursIn, Relation.ReflTransGen.cases_head_iff, eq_comm]
  rfl

theorem OccursIn.refl (t : TypeExpr) : t.OccursIn t := Relation.ReflTransGen.refl

theorem OccursIn.of_mem {s t : TypeExpr} (h : s ∈ t.components) : s.OccursIn t :=
  Relation.ReflTransGen.single h

theorem OccursIn.trans {r s t : TypeExpr} (h : r.OccursIn s) (h' : s.OccursIn t) : r.OccursIn t :=
  Relation.ReflTransGen.trans h' h

/-- **A walk over the syntax is a search for an occurrence.** -/
theorem walk_iff_exists_occursIn {P Q : TypeExpr → Prop}
    (h : ∀ t, P t ↔ Q t ∨ ∃ c ∈ t.components, P c) (t : TypeExpr) :
    P t ↔ ∃ s, s.OccursIn t ∧ Q s := by
  induction t using inductionOn with
  | step t ih =>
    rw [h]
    constructor
    · rintro (hQ | ⟨c, hc, hP⟩)
      · exact ⟨t, .refl t, hQ⟩
      · obtain ⟨s, hs, hQ⟩ := (ih c hc).1 hP
        exact ⟨s, hs.trans (.of_mem hc), hQ⟩
    · rintro ⟨s, hs, hQ⟩
      obtain rfl | ⟨c, hc, hs⟩ := occursIn_iff.1 hs
      · exact .inl hQ
      · exact .inr ⟨c, hc, (ih c hc).2 ⟨s, hs, hQ⟩⟩

/-! ### Instantiation -/

mutual

/-- The type with the arguments in the place of its parameters. -/
def instantiate (arguments : List TypeExpr) : TypeExpr → TypeExpr
  | typeParameter ordinal => (arguments[ordinal.toNat]?).getD (typeParameter ordinal)
  | tuple items => tuple (instantiateAll arguments items)
  | named definition inner => named definition (instantiateAll arguments inner)
  | vector element => vector (element.instantiate arguments)
  | orderedMap key value => orderedMap (key.instantiate arguments) (value.instantiate arguments)
  | option element => option (element.instantiate arguments)
  | result ok error => result (ok.instantiate arguments) (error.instantiate arguments)
  | functionRef parameters returned effects =>
    functionRef (instantiateAll arguments parameters) (returned.instantiate arguments) effects
  | localCell element => localCell (element.instantiate arguments)
  | other => other

def instantiateAll (arguments : List TypeExpr) : List TypeExpr → List TypeExpr
  | [] => []
  | value :: values => value.instantiate arguments :: instantiateAll arguments values

end

example : ((tuple [typeParameter 0]).instantiate [unit]).components = [unit] := by
  simp [instantiate, instantiateAll, components]

variable {arguments : List TypeExpr} {s t : TypeExpr}

theorem instantiateAll_eq_map {values : List TypeExpr} :
    instantiateAll arguments values = values.map (instantiate arguments) := by
  induction values with
  | nil => rw [instantiateAll, List.map_nil]
  | cons value values ih => rw [instantiateAll, List.map_cons, ih]

/-- Instantiation keeps the way a type is built, parameters apart. -/
theorem components_instantiate (h : ∀ ordinal, t ≠ typeParameter ordinal) :
    (t.instantiate arguments).components = t.components.map (instantiate arguments) := by
  cases t with
  | typeParameter ordinal => exact absurd rfl (h ordinal)
  | _ => simp [instantiate, components, instantiateAll_eq_map]

/-- Only a named type, or a parameter, is instantiated to a named type. -/
theorem exists_named_of_instantiate {definition : EntityId} {inner : List TypeExpr}
    (hne : ∀ ordinal, t ≠ typeParameter ordinal)
    (h : named definition inner = t.instantiate arguments) :
    ∃ inner', t = named definition inner' := by
  cases t with
  | typeParameter ordinal => exact absurd rfl (hne ordinal)
  | named definition' inner' =>
    rw [instantiate] at h
    obtain ⟨rfl, -⟩ := named.inj h
    exact ⟨inner', rfl⟩
  | _ => simp [instantiate] at h

theorem occursIn_instantiate (h : s.OccursIn t) :
    (s.instantiate arguments).OccursIn (t.instantiate arguments) := by
  induction h with
  | refl => exact .refl _
  | @tail u s _ hs ih =>
    refine OccursIn.trans (.of_mem ?_) ih
    rw [components_instantiate (by rintro _ rfl; cases hs)]
    exact List.mem_map_of_mem hs

/-- What occurs after instantiation comes from the body, is a parameter that has no argument, or
occurs in an argument. -/
theorem occursIn_of_instantiate (h : s.OccursIn (t.instantiate arguments)) :
    (∃ r : TypeExpr, r.OccursIn t ∧ (∀ ordinal, r ≠ typeParameter ordinal) ∧
        s = r.instantiate arguments) ∨
      (∃ ordinal, s = typeParameter ordinal) ∨ ∃ a ∈ arguments, s.OccursIn a := by
  induction t using inductionOn with
  | step t ih =>
    by_cases hparam : ∃ ordinal, t = typeParameter ordinal
    · obtain ⟨ordinal, rfl⟩ := hparam
      obtain hnone | ⟨a, ha⟩ := Option.eq_none_or_eq_some arguments[ordinal.toNat]?
      · rw [instantiate, hnone, Option.getD_none, occursIn_iff] at h
        obtain rfl | ⟨c, hc, -⟩ := h
        · exact .inr (.inl ⟨ordinal, rfl⟩)
        · exact (List.not_mem_nil hc).elim
      · rw [instantiate, ha] at h
        exact .inr (.inr ⟨a, List.mem_of_getElem? ha, h⟩)
    · have hne : ∀ ordinal, t ≠ typeParameter ordinal := fun ordinal heq ↦ hparam ⟨ordinal, heq⟩
      obtain rfl | ⟨c, hc, hs⟩ := occursIn_iff.1 h
      · exact .inl ⟨t, .refl t, hne, rfl⟩
      rw [components_instantiate hne] at hc
      obtain ⟨before, hbefore, rfl⟩ := List.mem_map.1 hc
      obtain ⟨r, hr, hner, rfl⟩ | hrest := ih before hbefore hs
      · exact .inl ⟨r, hr.trans (.of_mem hbefore), hner, rfl⟩
      · exact .inr hrest

end Sley.Ssmc.TypeExpr
