import Sley.Check.Expansion
import Sley.Vm.Bytecode

/-!
# Equality and floats

The judgment of the extended profile (`sley-vm/src/extended.rs`) on the operations `Equal` and
`NotEqual`. Equality is structural, so it must not see a NaN: types that contain a float are to be
refused, floats themselves apart. The test for a float walks the syntax of the operand's type, with
the arguments of a named type but **without the definition it names**. A record with a float field
is compared; exactly the types that depend on no definition with a float in a member are safe.
-/

namespace Sley.Vm

open TypeCheck
open Ssmc hiding TypeEnvironment
open Ssmc.TypeExpr

mutual

/-- `contains_float`. -/
def containsFloat : TypeExpr → Bool
  | .f32 | .f64 => true
  | .tuple items => anyContainsFloat items
  | .named _ arguments => anyContainsFloat arguments
  | .vector inner | .option inner | .localCell inner => containsFloat inner
  | .orderedMap key value => containsFloat key || containsFloat value
  | .result ok error => containsFloat ok || containsFloat error
  | .functionRef parameters returned _ => anyContainsFloat parameters || containsFloat returned
  | _ => false

def anyContainsFloat : List TypeExpr → Bool
  | [] => false
  | value :: values => containsFloat value || anyContainsFloat values

end

mutual

/-- `contains_cell`. -/
def containsCell : TypeExpr → Bool
  | .localCell _ => true
  | .tuple items => anyContainsCell items
  | .named _ arguments => anyContainsCell arguments
  | .vector inner | .option inner => containsCell inner
  | .orderedMap key value => containsCell key || containsCell value
  | .result ok error => containsCell ok || containsCell error
  | .functionRef parameters returned _ => anyContainsCell parameters || containsCell returned
  | _ => false

def anyContainsCell : List TypeExpr → Bool
  | [] => false
  | value :: values => containsCell value || anyContainsCell values

end

def isFloat : TypeExpr → Bool
  | .f32 | .f64 => true
  | _ => false

def immediateNone : Immediate → Except LowerErrorCode Unit
  | .none => .ok ()
  | _ => .error .immediateMismatch

/-- The arm of `Equal` and `NotEqual`: two operands of one hashable type. -/
def judgeEqualOperands (types : TypeEnvironment) :
    List TypeExpr → Except LowerErrorCode TypeExpr
  | [left, right] => do
    Except.rejectIf (left ≠ right ∨ (types.requireHashable left).isOk = false ∨
      (containsFloat left && !isFloat left)) .signatureMismatch
    return .bool
  | _ => .error .signatureMismatch

/-- `judge_extended_operation` on `Equal` and on `NotEqual`. -/
def judgeEqual (types : TypeEnvironment) (immediate : Immediate)
    (operands declared : List TypeExpr) : Except LowerErrorCode TypeExpr := do
  Except.rejectIf (operands.any containsCell) .signatureMismatch
  immediateNone immediate
  let derived ← judgeEqualOperands types operands
  Except.rejectIf (declared ≠ [derived]) .signatureMismatch
  return derived

/-! ### What the walk finds -/

theorem anyContainsFloat_eq {values : List TypeExpr} :
    anyContainsFloat values = values.any containsFloat := by
  induction values with
  | nil => rfl
  | cons value values ih => rw [anyContainsFloat, ih, List.any_cons]

theorem containsFloat_iff (t : TypeExpr) :
    containsFloat t ↔ ∃ s : TypeExpr, s.OccursIn t ∧ isFloat s := by
  refine walk_iff_exists_occursIn (P := fun t ↦ containsFloat t) (fun t ↦ ?_) t
  cases t <;>
    simp [containsFloat, anyContainsFloat_eq, isFloat, components, or_and_right, exists_or]

theorem ofHead_isFloat : TypeEnvironment.OfHead fun t ↦ isFloat t where
  instantiate_iff {t arguments} hne := by
    cases t with
    | typeParameter ordinal => exact absurd rfl (hne ordinal)
    | _ => simp [TypeExpr.instantiate, isFloat]
  not_typeParameter ordinal := by simp [isFloat]

/-- An operand that was let through is a float, or shows none. -/
theorem containsFloat_of_judgeEqual {types : TypeEnvironment} {immediate : Immediate}
    {operands declared : List TypeExpr} {derived t : TypeExpr}
    (h : judgeEqual types immediate operands declared = .ok derived) (ht : t ∈ operands) :
    isFloat t ∨ containsFloat t = false := by
  simp only [judgeEqual, Except.bind_eq_ok] at h
  obtain ⟨-, -, -, -, derived, harm, -⟩ := h
  obtain ⟨left, right, rfl⟩ : ∃ left right, operands = [left, right] := by
    rcases operands with _ | ⟨left, _ | ⟨right, _ | ⟨third, rest⟩⟩⟩
    case cons.cons.nil => exact ⟨left, right, rfl⟩
    all_goals cases harm
  simp only [judgeEqualOperands, Except.bind_eq_ok, Except.rejectIf_eq_ok, not_or,
    Decidable.not_not] at harm
  obtain ⟨-, ⟨rfl, -, hfloat⟩, -⟩ := harm
  obtain rfl : t = left := by simpa using ht
  grind

/-- **Equality is kept from floats exactly where the definitions are free of them.** For an operand
that is accepted and is not itself a float, no float is reached through components, arguments and
definitions iff no member of a definition that the type depends on contains one. -/
theorem judgeEqual_reaches_no_float_iff {types : TypeEnvironment} {immediate : Immediate}
    {operands declared : List TypeExpr} {derived t : TypeExpr}
    (h : judgeEqual types immediate operands declared = .ok derived) (ht : t ∈ operands)
    (hbare : isFloat t = false) :
    (∀ s, types.Reaches t s → isFloat s = false) ↔
      ∀ id definition, types.DependsOn t id → types.definition id = .ok definition →
        ∀ m ∈ memberTypes definition.form, containsFloat m = false := by
  have hshown : ¬ ∃ s : TypeExpr, s.OccursIn t ∧ isFloat s := by
    rw [← containsFloat_iff]
    simpa [hbare] using containsFloat_of_judgeEqual h ht
  have hiff : (∃ s, types.Reaches t s ∧ isFloat s) ↔ _ := ofHead_isFloat.exists_reaches_iff
  rw [or_iff_right hshown] at hiff
  rw [← not_iff_not]
  simp only [not_forall, Bool.not_eq_false, exists_prop]
  rw [hiff, TypeEnvironment.DependsOnMember]
  simp only [containsFloat_iff]

/-! ### A record with a float field -/

/-- `record Sample { value: F32 }`. -/
def sample : TypeDefinition :=
  { entityId := .splat 1, typeParameters := [],
    form := .record [⟨.splat 2, .f32, .private_⟩], invariants := [] }

/-- The environment that holds it alone. -/
def sampleTypes : TypeEnvironment := ⟨(∅ : EntityMap TypeDefinition).insert sample.entityId sample⟩

theorem new_sample : TypeEnvironment.new [sample] = .ok sampleTypes := by
  have hshape : [sample].forM sampleTypes.checkDefinitionShape = .ok () := by decide
  have hcycles : sampleTypes.rejectDefinitionCycles = .ok () := by with_unfolding_all decide
  have hkeys : discard (([sample].forM sampleTypes.checkDefinitionMapKeys).run .empty) =
      .ok () := by with_unfolding_all decide
  simp only [TypeEnvironment.new, Except.bind_eq_ok]
  exact ⟨(), by decide, sampleTypes.definitions, rfl, (), hshape, (), hcycles, (), hkeys, rfl⟩

theorem judgeEqual_sample :
    judgeEqual sampleTypes .none [.named (.splat 1) [], .named (.splat 1) []] [.bool] =
      .ok .bool := by
  with_unfolding_all decide

theorem reaches_sample : sampleTypes.Reaches (.named (.splat 1) []) .f32 := by
  have hid : sampleTypes.definition (.splat 1) = .ok sample := by
    rw [TypeCheck.TypeEnvironment.definition, Except.ofOption_eq_ok, sampleTypes,
      EntityMap.getElem?_insert_eq, if_pos (by rfl)]
  exact .single (.member hid (List.mem_singleton_self _))

/-- The type of the record is accepted although it reaches a float. -/
theorem judgeEqual_accepts_float_field :
    ¬ ∀ (definitions : List TypeDefinition) (types : TypeEnvironment) (immediate : Immediate)
      (operands declared : List TypeExpr) (derived t : TypeExpr),
      TypeEnvironment.new definitions = .ok types →
      judgeEqual types immediate operands declared = .ok derived → t ∈ operands →
      isFloat t = false → ∀ s, types.Reaches t s → isFloat s = false := by
  intro h
  have := h [sample] sampleTypes .none _ _ _ _ new_sample judgeEqual_sample List.mem_cons_self rfl
    .f32 reaches_sample
  cases this

theorem judgeEqual_reaches_no_float_iff_sample :
    (∀ s, sampleTypes.Reaches (.named (.splat 1) []) s → isFloat s = false) ↔
      ∀ id definition, sampleTypes.DependsOn (.named (.splat 1) []) id →
        sampleTypes.definition id = .ok definition →
          ∀ m ∈ memberTypes definition.form, containsFloat m = false :=
  judgeEqual_reaches_no_float_iff judgeEqual_sample List.mem_cons_self rfl

end Sley.Vm
