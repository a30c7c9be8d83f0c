import Sley.Ssmc.Occurs

/-!
# The laws of instantiation

A type whose parameters are below the number of the arguments is closed over by them: **to
instantiate twice is to instantiate once with the instantiated arguments**, and the parameters
themselves, as arguments, change nothing. The height of a type bounds what a walk from its head can
meet.
-/

namespace Sley.Ssmc.TypeExpr

variable {t s : TypeExpr} {n : Nat} {arguments arguments' : List TypeExpr}

/-! ### Parameters -/

/-- The parameters of the type are below `n`. -/
def ParametersBelow (n : Nat) (t : TypeExpr) : Prop :=
  ∀ ordinal, (typeParameter ordinal).OccursIn t → ordinal.toNat < n

theorem ParametersBelow.of_mem (h : ParametersBelow n t) (hs : s ∈ t.components) :
    ParametersBelow n s :=
  fun ordinal hordinal ↦ h ordinal (hordinal.trans (.of_mem hs))

theorem parametersBelow_typeParameter {ordinal : UInt32} :
    ParametersBelow n (typeParameter ordinal) ↔ ordinal.toNat < n := by
  refine ⟨fun h ↦ h ordinal (.refl _), fun h other hother ↦ ?_⟩
  obtain heq | ⟨c, hc, -⟩ := occursIn_iff.1 hother
  · obtain rfl := typeParameter.inj heq
    exact h
  · exact (List.not_mem_nil hc).elim

/-! ### Instantiation -/

/-- **To instantiate twice is to instantiate once**, with the instantiated arguments. -/
theorem instantiate_instantiate (h : ParametersBelow arguments.length t) :
    (t.instantiate arguments).instantiate arguments' =
      t.instantiate (arguments.map (instantiate arguments')) := by
  induction t using inductionOn with
  | step t ih =>
    have hone : ∀ v ∈ t.components, (v.instantiate arguments).instantiate arguments' =
        v.instantiate (arguments.map (instantiate arguments')) := fun v hv ↦
      ih v hv (h.of_mem hv)
    cases t with
    | typeParameter ordinal =>
      have hlt := parametersBelow_typeParameter.1 h
      rw [instantiate, instantiate, List.getElem?_map, List.getElem?_eq_getElem hlt]
      rfl
    | tuple items | named definition items =>
      simpa [instantiate, instantiateAll_eq_map, components] using hone
    | functionRef parameters returned effects =>
      have hparameters := fun v hv ↦ hone v (List.mem_append_left [returned] hv)
      have hreturned := hone returned (by simp [components])
      simpa [instantiate, instantiateAll_eq_map] using ⟨hparameters, hreturned⟩
    | vector element | option element | localCell element =>
      simpa [instantiate] using hone element (by simp [components])
    | orderedMap a b | result a b =>
      simpa [instantiate] using
        ⟨hone a (by simp [components]), hone b (by simp [components])⟩
    | _ => simp [instantiate]

theorem instantiate_ne_typeParameter (hne : ∀ ordinal, t ≠ typeParameter ordinal)
    (ordinal : UInt32) : t.instantiate arguments ≠ typeParameter ordinal := by
  cases t with
  | typeParameter ordinal => exact absurd rfl (hne ordinal)
  | _ => simp [instantiate]

/-- **What holds everywhere in a type holds everywhere in its instance**, where it carries over to
the instance of a head and holds everywhere in the arguments that are used. -/
theorem forall_occursIn_instantiate {P Q : TypeExpr → Prop} (h : ∀ s : TypeExpr, s.OccursIn t → P s)
    (hhead : ∀ s : TypeExpr, (∀ ordinal, s ≠ typeParameter ordinal) → P s →
      Q (s.instantiate arguments))
    (hparameter : ∀ ordinal, P (typeParameter ordinal) → ∃ a, arguments[ordinal.toNat]? = some a ∧
      ∀ s : TypeExpr, s.OccursIn a → Q s) :
    ∀ s : TypeExpr, s.OccursIn (t.instantiate arguments) → Q s := by
  induction t using inductionOn with
  | step t ih =>
    by_cases hparam : ∃ ordinal, t = typeParameter ordinal
    · obtain ⟨ordinal, rfl⟩ := hparam
      obtain ⟨a, ha, hQ⟩ := hparameter ordinal (h _ (.refl _))
      rw [instantiate, ha]
      exact hQ
    · have hne : ∀ ordinal, t ≠ typeParameter ordinal := fun ordinal heq ↦ hparam ⟨ordinal, heq⟩
      intro s hs
      obtain rfl | ⟨c, hc, hs⟩ := occursIn_iff.1 hs
      · exact hhead t hne (h t (.refl t))
      · rw [components_instantiate hne] at hc
        obtain ⟨before, hbefore, rfl⟩ := List.mem_map.1 hc
        exact ih before hbefore (fun r hr ↦ h r (hr.trans (.of_mem hbefore))) s hs

theorem ParametersBelow.instantiate (h : ParametersBelow arguments.length t)
    (harguments : ∀ a ∈ arguments, ParametersBelow n a) :
    ParametersBelow n (t.instantiate arguments) := by
  have hall := forall_occursIn_instantiate (t := t)
    (P := fun s ↦ ∀ ordinal, s = typeParameter ordinal → ordinal.toNat < arguments.length)
    (Q := fun s ↦ ∀ ordinal, s = typeParameter ordinal → ordinal.toNat < n)
    (fun s hs ordinal heq ↦ h ordinal (heq ▸ hs))
    (fun s hne _ ordinal heq ↦ absurd heq (instantiate_ne_typeParameter hne ordinal))
    (fun ordinal hlt ↦ ⟨_, List.getElem?_eq_getElem (hlt ordinal rfl), fun s hs other heq ↦
      harguments _ (List.getElem_mem _) other (heq ▸ hs)⟩)
  exact fun ordinal hordinal ↦ hall _ hordinal ordinal rfl

/-- The parameters below `n`, in order. -/
def identityArguments (n : Nat) : List TypeExpr :=
  (List.range n).map fun ordinal ↦ typeParameter (UInt32.ofNat ordinal)

/-- **The parameters themselves change nothing.** -/
theorem instantiate_identityArguments (n : Nat) (t : TypeExpr) :
    t.instantiate (identityArguments n) = t := by
  induction t using inductionOn with
  | step t ih =>
    have hlist : ∀ {values : List TypeExpr}, values ⊆ t.components →
        values.map (instantiate (identityArguments n)) = values := fun hsub ↦
      (List.map_congr_left fun v hv ↦ ih v (hsub hv)).trans (List.map_id' _)
    cases t with
    | typeParameter ordinal =>
      rw [instantiate, identityArguments, List.getElem?_map]
      by_cases hlt : ordinal.toNat < n
      · rw [List.getElem?_range hlt]
        simp
      · rw [List.getElem?_eq_none (by simpa using hlt)]
        rfl
    | tuple items | named definition items =>
      simpa [instantiate, instantiateAll_eq_map] using hlist (List.Subset.refl items)
    | functionRef parameters returned effects =>
      have hparameters := hlist (List.subset_append_left parameters [returned])
      simpa [instantiate, instantiateAll_eq_map] using
        ⟨hparameters, ih returned (by simp [components])⟩
    | vector element | option element | localCell element =>
      simpa [instantiate] using ih element (by simp [components])
    | orderedMap a b | result a b =>
      simpa [instantiate] using
        ⟨ih a (by simp [components]), ih b (by simp [components])⟩
    | _ => simp [instantiate]

/-- A type without parameters is its own instance. -/
theorem instantiate_eq_self (h : ParametersBelow 0 t) (arguments : List TypeExpr) :
    t.instantiate arguments = t := by
  have hsame : (t.instantiate []).instantiate arguments = _ := instantiate_instantiate h
  have hempty := instantiate_identityArguments 0 t
  rw [show identityArguments 0 = [] from rfl] at hempty
  rwa [List.map_nil, hempty] at hsame

/-! ### Height -/

mutual

/-- How many types a walk from the head can meet, one inside the other. -/
def height : TypeExpr → Nat
  | tuple items => heightAll items + 1
  | named _ arguments => heightAll arguments + 1
  | vector element | option element | localCell element => element.height + 1
  | orderedMap key value => max key.height value.height + 1
  | result ok error => max ok.height error.height + 1
  | functionRef parameters returned _ => max (heightAll parameters) returned.height + 1
  | _ => 1

def heightAll : List TypeExpr → Nat
  | [] => 0
  | value :: values => max value.height (heightAll values)

end

theorem heightAll_le_iff {values : List TypeExpr} {bound : Nat} :
    heightAll values ≤ bound ↔ ∀ v ∈ values, v.height ≤ bound := by
  induction values with
  | nil => simp [heightAll]
  | cons v values ih => rw [heightAll, Nat.max_le, ih, List.forall_mem_cons]

theorem height_le_iff {bound : Nat} :
    t.height ≤ bound + 1 ↔ ∀ c ∈ t.components, c.height ≤ bound := by
  cases t with
  | tuple items | named definition items =>
    rw [height, Nat.add_le_add_iff_right, heightAll_le_iff]
    rfl
  | functionRef parameters returned effects =>
    rw [height, Nat.add_le_add_iff_right, Nat.max_le, heightAll_le_iff, components]
    simp [or_imp, forall_and]
  | _ => simp [height, components, Nat.max_le]

/-- The height below a depth, by the components. -/
theorem height_add_le_iff {depth bound : Nat} (hdepth : depth ≤ bound) :
    t.height + depth ≤ bound + 1 ↔ ∀ c ∈ t.components, c.height + (depth + 1) ≤ bound + 1 := by
  have hiff : t.height ≤ bound - depth + 1 ↔ ∀ c ∈ t.components, c.height ≤ bound - depth :=
    height_le_iff
  constructor
  · intro ht c hc
    have := hiff.1 (by omega) c hc
    omega
  · intro hall
    have := hiff.2 fun c hc ↦ by
      have := hall c hc
      omega
    omega

theorem one_le_height (t : TypeExpr) : 1 ≤ t.height := by
  cases t <;> simp [height]

end Sley.Ssmc.TypeExpr
