import Sley.Ssmc.Definitions

/-!
# Values with few members

A record definition has at most `MAX_MEMBERS` fields (`sley-ssmc`, checked in `sley-check`), and the
constants and inputs of an execution are checked against the definitions. `Narrow` is what follows
for a value: **no record in it, at any depth, has more fields than a definition may have**, so the
position of a field fits the 32 bits of a step into a value.
-/

namespace Sley.Vm

open Ssmc

/-- `MAX_MEMBERS`. -/
def maxMembers : Nat := 65535

mutual

/-- Every record in the value has at most `maxMembers` fields. -/
def Narrow : ConstValue → Prop
  | ⟨_, data⟩ => NarrowData data

def NarrowData : ConstData → Prop
  | .sequence values => NarrowAll values
  | .record ⟨_, fields⟩ => fields.length ≤ maxMembers ∧ NarrowFields fields
  | .variant ⟨_, _, some value⟩ | .option (some value) => Narrow value
  | .map entries => NarrowEntries entries
  | .result (.ok value) | .result (.err value) => Narrow value
  | .variant ⟨_, _, none⟩ | .option none | .unit | .bool _ | .sInt _ | .uInt _ | .f32Bits _
  | .f64Bits _ | .bytes _ | .text _ | .functionRef _ | .builtinFailure _ => True

def NarrowAll : List ConstValue → Prop
  | [] => True
  | value :: values => Narrow value ∧ NarrowAll values

def NarrowFields : List FieldConst → Prop
  | [] => True
  | ⟨_, value⟩ :: fields => Narrow value ∧ NarrowFields fields

def NarrowEntries : List MapEntryConst → Prop
  | [] => True
  | ⟨key, value⟩ :: entries => Narrow key ∧ Narrow value ∧ NarrowEntries entries

end

variable {valueType : TypeExpr}

theorem narrowAll_iff {values : List ConstValue} : NarrowAll values ↔ ∀ v ∈ values, Narrow v := by
  induction values with
  | nil => simp [NarrowAll]
  | cons value values ih => rw [NarrowAll, ih, List.forall_mem_cons]

theorem narrowFields_iff {fields : List FieldConst} :
    NarrowFields fields ↔ ∀ field ∈ fields, Narrow field.value := by
  induction fields with
  | nil => simp [NarrowFields]
  | cons field fields ih =>
    obtain ⟨_, value⟩ := field
    rw [NarrowFields, ih, List.forall_mem_cons]

theorem narrowEntries_iff {entries : List MapEntryConst} :
    NarrowEntries entries ↔ ∀ entry ∈ entries, Narrow entry.key ∧ Narrow entry.value := by
  induction entries with
  | nil => simp [NarrowEntries]
  | cons entry entries ih =>
    obtain ⟨key, value⟩ := entry
    rw [NarrowEntries, ih, List.forall_mem_cons, and_assoc]

@[simp]
theorem narrow_sequence {values : List ConstValue} :
    Narrow ⟨valueType, .sequence values⟩ ↔ ∀ v ∈ values, Narrow v := narrowAll_iff

@[simp]
theorem narrow_record {record : RecordConst} : Narrow ⟨valueType, .record record⟩ ↔
    record.fields.length ≤ maxMembers ∧ ∀ field ∈ record.fields, Narrow field.value := by
  obtain ⟨definition, fields⟩ := record
  exact and_congr_right fun _ ↦ narrowFields_iff

@[simp]
theorem narrow_map {entries : List MapEntryConst} : Narrow ⟨valueType, .map entries⟩ ↔
    ∀ entry ∈ entries, Narrow entry.key ∧ Narrow entry.value := narrowEntries_iff

@[simp]
theorem narrow_variant {variant : VariantConst} :
    Narrow ⟨valueType, .variant variant⟩ ↔ ∀ v ∈ variant.payload, Narrow v := by
  obtain ⟨definition, memberId, payload⟩ := variant
  cases payload <;> simp [Narrow, NarrowData]

@[simp]
theorem narrow_option {payload : Option ConstValue} :
    Narrow ⟨valueType, .option payload⟩ ↔ ∀ v ∈ payload, Narrow v := by
  cases payload <;> simp [Narrow, NarrowData]

@[simp]
theorem narrow_ok {payload : ConstValue} :
    Narrow ⟨valueType, .result (.ok payload)⟩ ↔ Narrow payload := Iff.rfl

@[simp]
theorem narrow_err {payload : ConstValue} :
    Narrow ⟨valueType, .result (.err payload)⟩ ↔ Narrow payload := Iff.rfl

end Sley.Vm
