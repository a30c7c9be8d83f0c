import Sley.Vm.ValueUnits

/-!
# Runtime values

A register holds a shared root and a path into it (`RuntimeValue` of `sley-vm/src/execute.rs`), with
the units of the part it shows, so that a projection copies nothing and a charge walks nothing. What
the sharing saves is not part of the model: a root is the constant itself, and taking a value out of
its root (`into_value`) gives the value whether the root is shared or not.

`RuntimeValue.Shows` says that a runtime value stands for a constant and that **every number it
caches is exact**: its own units and the units of the parts that projections will ask for. Each
constructor and each projection keeps this.
-/

namespace Sley.Vm

open Ssmc UInt64

/-- One step from a value into a part of it. -/
inductive Step
  /-- The payload of a variant, `Some`, `Ok` or `Err`. -/
  | payload
  /-- Element `index` of a tuple or vector, or field `index` of a record. -/
  | item (index : UInt32)
  deriving DecidableEq

/-- Longest path kept; a deeper view copies its target. -/
def maxViewPath : Nat := 6

/-- The payload of a wrapper. -/
def payloadOf (value : ConstValue) : Option ConstValue :=
  match value.data with
  | .variant variant => variant.payload
  | .option (some payload) | .result (.ok payload) | .result (.err payload) => some payload
  | _ => none

/-- Element or field `index`. -/
def partAt (value : ConstValue) (index : Nat) : Option ConstValue :=
  match value.data with
  | .sequence items => items[index]?
  | .record record => record.fields[index]?.map (·.value)
  | _ => none

def stepInto (value : ConstValue) : Step → Option ConstValue
  | .payload => payloadOf value
  | .item index => partAt value index.toNat

/-- A root and a path into it; `none` below is the source's `RuntimeFault`. -/
structure RuntimeValue where
  root : ConstValue
  path : List Step
  units : UInt64
  /-- Cached units of each part of a root without a path. -/
  parts : Option (List UInt64)
  /-- The same table for the payload of a wrapper, handed to its payload view. -/
  inner : Option (List UInt64)

namespace RuntimeValue

def withUnits (value : ConstValue) (units : UInt64) : RuntimeValue := ⟨value, [], units, none, none⟩

def new (value : ConstValue) : RuntimeValue := withUnits value (valueUnitsConst value)

def withInner (value : ConstValue) (units : UInt64) (inner : Option (List UInt64)) : RuntimeValue :=
  { withUnits value units with inner := inner }

def withParts (value : ConstValue) (units : UInt64) (parts : List UInt64) : RuntimeValue :=
  { withUnits value units with parts := some parts }

/-- The cached units of part `index`, when known. -/
def partUnits (value : RuntimeValue) (index : Nat) : Option UInt64 :=
  value.parts.bind (·[index]?)

def value (value : RuntimeValue) : Option ConstValue := value.path.foldlM stepInto value.root

/-- A view one step deeper, which copies its target when the path is full. -/
def view (value : RuntimeValue) (step : Step) (units : UInt64) : Option RuntimeValue := do
  let target ← stepInto (← value.value) step
  if value.path.length = maxViewPath then return withUnits target units
  return ⟨value.root, value.path ++ [step], units,
    if step = .payload then value.inner else none, none⟩

/-- What a wrapper has over its payload. -/
def wrapperUnits (value : ConstValue) : Option UInt64 :=
  match value.data with
  | .variant ⟨_, _, some _⟩ => some (saturatingAdd 67 (valueUnitsType value.valueType))
  | .option (some _) | .result _ => some (saturatingAdd 3 (valueUnitsType value.valueType))
  | _ => none

def payloadView (value : RuntimeValue) : Option RuntimeValue := do
  let wrapper ← wrapperUnits (← value.value)
  value.view .payload (← value.units.checkedSub wrapper)

/-- A view of element or field `index`, whose units are given. -/
def itemView (value : RuntimeValue) (index : UInt32) (units : UInt64) : Option RuntimeValue :=
  value.view (.item index) units

/-! ### What a runtime value shows -/

/-- The numbers of a table are the sizes of the parts of a value. -/
def PartsExact (parts : Option (List UInt64)) (value : ConstValue) : Prop :=
  ∀ table ∈ parts, ∀ (index : Nat) (units : UInt64) (part : ConstValue),
    table[index]? = some units → partAt value index = some part → units.toNat = size part

/-- The value stands for a constant, and all that it caches about it is exact. -/
structure Shows (value : RuntimeValue) (shown : ConstValue) : Prop where
  value_eq : value.value = some shown
  units_eq : value.units.toNat = size shown
  parts : PartsExact value.parts shown
  inner : ∀ payload, payloadOf shown = some payload → PartsExact value.inner payload

variable {value : RuntimeValue} {shown target payload part : ConstValue} {units : UInt64}
  {step : Step} {index : Nat} {table : List UInt64} {inner : Option (List UInt64)}

theorem partsExact_none : PartsExact none shown := fun _ h ↦ nomatch h

theorem shows_withUnits (h : units.toNat = size shown) : (withUnits shown units).Shows shown :=
  ⟨rfl, h, partsExact_none, fun _ _ ↦ partsExact_none⟩

theorem shows_withInner (h : units.toNat = size shown)
    (hinner : ∀ payload, payloadOf shown = some payload → PartsExact inner payload) :
    (withInner shown units inner).Shows shown :=
  ⟨rfl, h, partsExact_none, hinner⟩

theorem shows_withParts (h : units.toNat = size shown) (hparts : PartsExact (some table) shown) :
    (withParts shown units table).Shows shown :=
  ⟨rfl, h, hparts, fun _ _ ↦ partsExact_none⟩

theorem Shows.valueUnits_eq (h : value.Shows shown) : value.units = valueUnitsConst shown := by
  have hunits := h.units_eq
  have hlt := value.units.toNat_lt
  refine UInt64.toNat_inj.1 ?_
  rw [toNat_valueUnitsConst]
  omega

/-- **A view shows the part that it selects**, with the units that it is given. -/
theorem Shows.view (h : value.Shows shown) (htarget : stepInto shown step = some target)
    (hunits : units.toNat = size target) :
    ∃ view, value.view step units = some view ∧ view.Shows target := by
  have hview : value.view step units = if value.path.length = maxViewPath then
      some (withUnits target units)
    else some ⟨value.root, value.path ++ [step], units,
      if step = .payload then value.inner else none, none⟩ := by
    rw [RuntimeValue.view, h.value_eq, Option.bind_eq_bind, Option.bind_some, htarget]
    rfl
  rw [hview]
  by_cases hfull : value.path.length = maxViewPath
  · exact ⟨_, if_pos hfull, shows_withUnits hunits⟩
  · refine ⟨_, if_neg hfull, ?_, hunits, ?_, fun _ _ ↦ partsExact_none⟩
    · show (value.path ++ [step]).foldlM stepInto value.root = some target
      rw [List.foldlM_append]
      show value.value.bind _ = some target
      rw [h.value_eq]
      simpa using htarget
    · show PartsExact (if step = .payload then value.inner else none) target
      split_ifs with hpayload
      · subst hpayload
        exact h.inner target htarget
      · exact partsExact_none

/-- The size of a wrapper is that of its payload and a header that its type determines. -/
theorem wrapperUnits_eq (hpayload : payloadOf shown = some payload) (h : size shown < 2 ^ 64) :
    ∃ header, wrapperUnits shown = some header ∧ size shown = size payload + header.toNat := by
  obtain ⟨valueType, data⟩ := shown
  have htype := toNat_valueUnitsType valueType
  cases data with
  | variant variant =>
    obtain ⟨definition, memberId, _ | held⟩ := variant
    · cases hpayload
    · cases hpayload
      refine ⟨_, rfl, ?_⟩
      simp only [size, dataSize, toNat_saturatingAdd, UInt64.reduceToNat] at h ⊢
      omega
  | option held =>
    cases held with
    | none => cases hpayload
    | some held =>
      cases hpayload
      refine ⟨_, rfl, ?_⟩
      simp only [size, dataSize, toNat_saturatingAdd, UInt64.reduceToNat] at h ⊢
      omega
  | result held =>
    cases held <;>
    · cases hpayload
      refine ⟨_, rfl, ?_⟩
      simp only [size, dataSize, toNat_saturatingAdd, UInt64.reduceToNat] at h ⊢
      omega
  | _ => cases hpayload

theorem Shows.size_lt (h : value.Shows shown) : size shown < 2 ^ 64 :=
  h.units_eq ▸ value.units.toNat_lt

theorem Shows.payloadView (h : value.Shows shown) (hpayload : payloadOf shown = some payload) :
    ∃ view, value.payloadView = some view ∧ view.Shows payload := by
  have hunits := h.units_eq
  obtain ⟨header, hheader, hsize⟩ := wrapperUnits_eq hpayload h.size_lt
  have hrest : value.units.checkedSub header = some (value.units - header) := by
    rw [checkedSub_eq_some, UInt64.toNat_sub_of_le _ _ (UInt64.le_iff_toNat_le.2 (by omega))]
    omega
  rw [RuntimeValue.payloadView, h.value_eq, Option.bind_eq_bind, Option.bind_some, hheader,
    Option.bind_eq_bind, Option.bind_some, hrest]
  refine h.view hpayload ?_
  have := checkedSub_eq_some.1 hrest
  omega

end RuntimeValue

end Sley.Vm
