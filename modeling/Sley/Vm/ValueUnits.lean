import Sley.Lib.Saturating
import Sley.Ssmc.Definitions

/-!
# Value units

The semantic size of a value (`value_units_const` of `sley-vm/src/execute.rs`): one unit, the units
of its type and those of its data, where every sum saturates at `u64::MAX`. `size` is the same walk
over the natural numbers. **The units are the size, cut off once** (`toNat_valueUnitsConst`), so as
long as they stay below the largest number they add up exactly.
-/

namespace Sley.Vm

open Ssmc UInt64
open UInt64 (reduceToNat)

/-! ### The units of the source -/

mutual

def valueUnitsType : TypeExpr → UInt64
  | .sInt _ | .uInt _ | .builtinFailure _ => 3
  | .unit | .bool | .f32 | .f64 | .bytes | .text => 1
  | .tuple items => (saturatingAdd 1 (saturate items.length)).saturatingAdd (sumUnitsType 0 items)
  | .named _ arguments =>
    (saturatingAdd 33 (saturate arguments.length)).saturatingAdd (sumUnitsType 0 arguments)
  | .vector item | .option item | .localCell item => saturatingAdd 1 (valueUnitsType item)
  | .orderedMap key value | .result key value =>
    (saturatingAdd 1 (valueUnitsType key)).saturatingAdd (valueUnitsType value)
  | .functionRef parameters result effects =>
    ((((saturatingAdd 1 (saturate parameters.length)).saturatingAdd
      (sumUnitsType 0 parameters)).saturatingAdd (valueUnitsType result)).saturatingAdd
      (saturate effects.length)).saturatingAdd ((saturate effects.length).saturatingMul 32)
  | .adapterHandle _ | .capabilityToken _ => 33
  | .typeParameter _ => 5

/-- A fold of `saturating_add` over the types of a list. -/
def sumUnitsType (sum : UInt64) : List TypeExpr → UInt64
  | [] => sum
  | item :: items => sumUnitsType (sum.saturatingAdd (valueUnitsType item)) items

end

mutual

def valueUnitsConst : ConstValue → UInt64
  | ⟨valueType, data⟩ =>
    (saturatingAdd 1 (valueUnitsType valueType)).saturatingAdd (valueUnitsData data)

def valueUnitsData : ConstData → UInt64
  | .bool _ => 2
  | .sInt _ | .uInt _ => 17
  | .f32Bits _ | .builtinFailure _ => 5
  | .f64Bits _ => 9
  | .bytes bytes => saturatingAdd 1 (saturate bytes.length)
  | .text text => saturatingAdd 1 (saturate text.utf8ByteSize)
  | .sequence values =>
    (saturatingAdd 1 (saturate values.length)).saturatingAdd (sumUnitsConst 0 values)
  | .record ⟨_, fields⟩ =>
    (saturatingAdd 33 (saturate fields.length)).saturatingAdd (sumUnitsField 0 fields)
  | .variant ⟨_, _, none⟩ => saturatingAdd 65 0
  | .variant ⟨_, _, some value⟩ => saturatingAdd 65 (saturatingAdd 1 (valueUnitsConst value))
  | .map entries =>
    (saturatingAdd 1 (saturate entries.length)).saturatingAdd (sumUnitsEntry 0 entries)
  | .unit | .option none => 1
  | .option (some value) => saturatingAdd 2 (valueUnitsConst value)
  | .result (.ok value) | .result (.err value) => saturatingAdd 2 (valueUnitsConst value)
  | .functionRef reference =>
    (saturatingAdd 33 (saturate reference.typeArguments.length)).saturatingAdd
      (sumUnitsType 0 reference.typeArguments)

def sumUnitsConst (sum : UInt64) : List ConstValue → UInt64
  | [] => sum
  | value :: values => sumUnitsConst (sum.saturatingAdd (valueUnitsConst value)) values

def sumUnitsField (sum : UInt64) : List FieldConst → UInt64
  | [] => sum
  | ⟨_, value⟩ :: fields =>
    sumUnitsField (sum.saturatingAdd (saturatingAdd 32 (valueUnitsConst value))) fields

def sumUnitsEntry (sum : UInt64) : List MapEntryConst → UInt64
  | [] => sum
  | ⟨key, value⟩ :: entries =>
    sumUnitsEntry (sum.saturatingAdd ((valueUnitsConst key).saturatingAdd (valueUnitsConst value)))
      entries

end

/-! ### Exact sizes -/

mutual

def typeSize : TypeExpr → ℕ
  | .sInt _ | .uInt _ | .builtinFailure _ => 3
  | .unit | .bool | .f32 | .f64 | .bytes | .text => 1
  | .tuple items => 1 + items.length + typeSizes items
  | .named _ arguments => 33 + arguments.length + typeSizes arguments
  | .vector item | .option item | .localCell item => 1 + typeSize item
  | .orderedMap key value | .result key value => 1 + typeSize key + typeSize value
  | .functionRef parameters result effects =>
    1 + parameters.length + typeSizes parameters + typeSize result + 33 * effects.length
  | .adapterHandle _ | .capabilityToken _ => 33
  | .typeParameter _ => 5

def typeSizes : List TypeExpr → ℕ
  | [] => 0
  | item :: items => typeSize item + typeSizes items

end

mutual

def size : ConstValue → ℕ
  | ⟨valueType, data⟩ => 1 + typeSize valueType + dataSize data

def dataSize : ConstData → ℕ
  | .bool _ => 2
  | .sInt _ | .uInt _ => 17
  | .f32Bits _ | .builtinFailure _ => 5
  | .f64Bits _ => 9
  | .bytes bytes => 1 + bytes.length
  | .text text => 1 + text.utf8ByteSize
  | .sequence values => 1 + values.length + sizes values
  | .record ⟨_, fields⟩ => 33 + fields.length + fieldSizes fields
  | .variant ⟨_, _, none⟩ => 65
  | .variant ⟨_, _, some value⟩ => 66 + size value
  | .map entries => 1 + entries.length + entrySizes entries
  | .unit | .option none => 1
  | .option (some value) => 2 + size value
  | .result (.ok value) | .result (.err value) => 2 + size value
  | .functionRef reference =>
    33 + reference.typeArguments.length + typeSizes reference.typeArguments

def sizes : List ConstValue → ℕ
  | [] => 0
  | value :: values => size value + sizes values

def fieldSizes : List FieldConst → ℕ
  | [] => 0
  | ⟨_, value⟩ :: fields => 32 + size value + fieldSizes fields

def entrySizes : List MapEntryConst → ℕ
  | [] => 0
  | ⟨key, value⟩ :: entries => size key + size value + entrySizes entries

end

mutual

theorem toNat_valueUnitsType : ∀ t, (valueUnitsType t).toNat = min (typeSize t) (2 ^ 64 - 1)
  | .sInt _ | .uInt _ | .builtinFailure _ | .unit | .bool | .f32 | .f64 | .bytes | .text
  | .adapterHandle _ | .capabilityToken _ | .typeParameter _ => rfl
  | .tuple items => by
    have h := toNat_sumUnitsType 0 items
    simp only [valueUnitsType, typeSize, toNat_saturatingAdd, toNat_saturate, reduceToNat]
      at h ⊢
    omega
  | .named _ arguments => by
    have h := toNat_sumUnitsType 0 arguments
    simp only [valueUnitsType, typeSize, toNat_saturatingAdd, toNat_saturate, reduceToNat]
      at h ⊢
    omega
  | .vector item | .option item | .localCell item => by
    have h := toNat_valueUnitsType item
    simp only [valueUnitsType, typeSize, toNat_saturatingAdd, reduceToNat]
    omega
  | .orderedMap key value | .result key value => by
    have hkey := toNat_valueUnitsType key
    have hvalue := toNat_valueUnitsType value
    simp only [valueUnitsType, typeSize, toNat_saturatingAdd, reduceToNat]
    omega
  | .functionRef parameters result effects => by
    have h := toNat_sumUnitsType 0 parameters
    have hresult := toNat_valueUnitsType result
    simp only [valueUnitsType, typeSize, saturatingMul, toNat_saturatingAdd, toNat_saturate,
      reduceToNat] at h ⊢
    omega

theorem toNat_sumUnitsType : ∀ (sum : UInt64) items,
    (sumUnitsType sum items).toNat = min (sum.toNat + typeSizes items) (2 ^ 64 - 1)
  | sum, [] => by
    have hsum := sum.toNat_le_maxValue
    simp only [sumUnitsType, typeSizes]
    omega
  | sum, item :: items => by
    have hitem := toNat_valueUnitsType item
    have h := toNat_sumUnitsType (sum.saturatingAdd (valueUnitsType item)) items
    simp only [sumUnitsType, typeSizes, toNat_saturatingAdd] at h ⊢
    omega

end

mutual

/-- **The units are the size, cut off once.** -/
theorem toNat_valueUnitsConst : ∀ v, (valueUnitsConst v).toNat = min (size v) (2 ^ 64 - 1)
  | ⟨valueType, data⟩ => by
    have htype := toNat_valueUnitsType valueType
    have hdata := toNat_valueUnitsData data
    simp only [valueUnitsConst, size, toNat_saturatingAdd, reduceToNat]
    omega

theorem toNat_valueUnitsData : ∀ d, (valueUnitsData d).toNat = min (dataSize d) (2 ^ 64 - 1)
  | .bool _ | .sInt _ | .uInt _ | .f32Bits _ | .builtinFailure _ | .f64Bits _ | .unit
  | .option none => rfl
  | .variant ⟨_, _, none⟩ => by
    simp [valueUnitsData, dataSize]
  | .bytes _ | .text _ => by
    simp only [valueUnitsData, dataSize, toNat_saturatingAdd, toNat_saturate, reduceToNat]
    omega
  | .sequence values => by
    have h := toNat_sumUnitsConst 0 values
    simp only [valueUnitsData, dataSize, toNat_saturatingAdd, toNat_saturate, reduceToNat]
      at h ⊢
    omega
  | .record ⟨_, fields⟩ => by
    have h := toNat_sumUnitsField 0 fields
    simp only [valueUnitsData, dataSize, toNat_saturatingAdd, toNat_saturate, reduceToNat]
      at h ⊢
    omega
  | .map entries => by
    have h := toNat_sumUnitsEntry 0 entries
    simp only [valueUnitsData, dataSize, toNat_saturatingAdd, toNat_saturate, reduceToNat]
      at h ⊢
    omega
  | .functionRef reference => by
    have h := toNat_sumUnitsType 0 reference.typeArguments
    simp only [valueUnitsData, dataSize, toNat_saturatingAdd, toNat_saturate, reduceToNat]
      at h ⊢
    omega
  | .variant ⟨_, _, some value⟩ | .option (some value) | .result (.ok value)
  | .result (.err value) => by
    have h := toNat_valueUnitsConst value
    simp only [valueUnitsData, dataSize, toNat_saturatingAdd, reduceToNat]
    omega

theorem toNat_sumUnitsConst : ∀ (sum : UInt64) values,
    (sumUnitsConst sum values).toNat = min (sum.toNat + sizes values) (2 ^ 64 - 1)
  | sum, [] => by
    have hsum := sum.toNat_le_maxValue
    simp only [sumUnitsConst, sizes]
    omega
  | sum, value :: values => by
    have hvalue := toNat_valueUnitsConst value
    have h := toNat_sumUnitsConst (sum.saturatingAdd (valueUnitsConst value)) values
    simp only [sumUnitsConst, sizes, toNat_saturatingAdd] at h ⊢
    omega

theorem toNat_sumUnitsField : ∀ (sum : UInt64) fields,
    (sumUnitsField sum fields).toNat = min (sum.toNat + fieldSizes fields) (2 ^ 64 - 1)
  | sum, [] => by
    have hsum := sum.toNat_le_maxValue
    simp only [sumUnitsField, fieldSizes]
    omega
  | sum, ⟨_, value⟩ :: fields => by
    have hvalue := toNat_valueUnitsConst value
    have h := toNat_sumUnitsField
      (sum.saturatingAdd (saturatingAdd 32 (valueUnitsConst value))) fields
    simp only [sumUnitsField, fieldSizes, toNat_saturatingAdd, reduceToNat] at h ⊢
    omega

theorem toNat_sumUnitsEntry : ∀ (sum : UInt64) entries,
    (sumUnitsEntry sum entries).toNat = min (sum.toNat + entrySizes entries) (2 ^ 64 - 1)
  | sum, [] => by
    have hsum := sum.toNat_le_maxValue
    simp only [sumUnitsEntry, entrySizes]
    omega
  | sum, ⟨key, value⟩ :: entries => by
    have hkey := toNat_valueUnitsConst key
    have hvalue := toNat_valueUnitsConst value
    have h := toNat_sumUnitsEntry
      (sum.saturatingAdd ((valueUnitsConst key).saturatingAdd (valueUnitsConst value))) entries
    simp only [sumUnitsEntry, entrySizes, toNat_saturatingAdd] at h ⊢
    omega

end

theorem valueUnitsConst_eq (v : ConstValue) : valueUnitsConst v = saturate (size v) :=
  UInt64.toNat_inj.1 (by rw [toNat_valueUnitsConst, toNat_saturate])

end Sley.Vm
