import Mathlib
import Sley.Ssmc.Definitions

/-!
# The values inside of a value

The checks on a value that the machine makes before and after a run walk over its parts with a
stack of their own. The parts of a value are smaller than it, also together, so that every such walk
ends, and an induction along them is sound.
-/

namespace Sley.Vm

open Ssmc

/-- `push_nested_values`: every value directly inside of another. -/
def nestedValues (value : ConstValue) : List ConstValue :=
  match value.data with
  | .sequence values => values
  | .record record => record.fields.map (·.value)
  | .variant variant => variant.payload.toList
  | .map entries => entries.flatMap fun entry ↦ [entry.key, entry.value]
  | .option payload => payload.toList
  | .result (.ok payload) | .result (.err payload) => [payload]
  | .unit | .bool _ | .sInt _ | .uInt _ | .f32Bits _ | .f64Bits _ | .bytes _ | .text _
  | .functionRef _ | .builtinFailure _ => []

theorem sum_sizeOf_le {α β : Type} [SizeOf α] [SizeOf β] (inside : α → List β)
    (h : ∀ a, ((inside a).map sizeOf).sum ≤ sizeOf a) (items : List α) :
    ((items.flatMap inside).map sizeOf).sum ≤ sizeOf items := by
  induction items with
  | nil => simp
  | cons item items ih =>
    have := h item
    simp only [List.flatMap_cons, List.map_append, List.sum_append, List.cons.sizeOf_spec]
    omega

theorem sum_sizeOf_nestedValues_lt (value : ConstValue) :
    ((nestedValues value).map sizeOf).sum < sizeOf value := by
  obtain ⟨type, data⟩ := value
  cases data with
  | sequence values =>
    have hvalues := sum_sizeOf_le (fun v : ConstValue ↦ [v]) (fun _ ↦ by simp) values
    rw [List.flatMap_singleton'] at hvalues
    simp only [nestedValues, ConstValue.mk.sizeOf_spec, ConstData.sequence.sizeOf_spec]
    omega
  | record record =>
    obtain ⟨definition, fields⟩ := record
    have hfields := sum_sizeOf_le (fun f : FieldConst ↦ [f.value]) (fun f ↦ by cases f; simp) fields
    rw [← List.map_eq_flatMap] at hfields
    show ((fields.map FieldConst.value).map sizeOf).sum < _
    simp only [ConstValue.mk.sizeOf_spec, ConstData.record.sizeOf_spec, RecordConst.mk.sizeOf_spec]
    omega
  | variant variant =>
    obtain ⟨definition, memberId, payload⟩ := variant
    cases payload <;> simp [nestedValues]
    omega
  | map entries =>
    have hentries := sum_sizeOf_le (fun e : MapEntryConst ↦ [e.key, e.value])
      (fun e ↦ by cases e; simp) entries
    simp only [nestedValues, ConstValue.mk.sizeOf_spec, ConstData.map.sizeOf_spec]
    omega
  | option payload =>
    cases payload with
    | none => simp [nestedValues]
    | some payload =>
      simp [nestedValues]
      omega
  | result payload =>
    cases payload <;> simp only [nestedValues, ConstValue.mk.sizeOf_spec,
      ConstData.result.sizeOf_spec, ResultConst.ok.sizeOf_spec, ResultConst.err.sizeOf_spec,
      List.map_cons, List.map_nil, List.sum_cons, List.sum_nil] <;> omega
  | _ => simp [nestedValues]

/-- Induction along the values inside of a value. -/
theorem nestedInduction {P : ConstValue → Prop} (value : ConstValue)
    (step : ∀ value, (∀ v ∈ nestedValues value, P v) → P value) : P value := by
  induction hn : sizeOf value using Nat.strongRecOn generalizing value with
  | ind n ih =>
    subst hn
    refine step value fun v hv ↦ ih _ ?_ v rfl
    have hsum := sum_sizeOf_nestedValues_lt value
    have hle := List.single_le_sum (fun _ _ ↦ Nat.zero_le _) _ (List.mem_map_of_mem (f := sizeOf) hv)
    omega

end Sley.Vm
