import Sley.Ssmc.Definitions

/-!
# Deciding equality of types and constants

The source derives equality for its data model. Types and constants nest through lists and options,
where Lean derives nothing, so their comparisons are written out: each is structural, and each is
proved to decide equality from one constructor at a time.
-/

namespace Sley.Ssmc

open Bool (and_eq_true false_eq_true)

/-! ### Types -/

mutual

def TypeExpr.beq : TypeExpr → TypeExpr → Bool
  | .unit, .unit => true
  | .bool, .bool => true
  | .sInt width, .sInt width' => width = width'
  | .uInt width, .uInt width' => width = width'
  | .f32, .f32 => true
  | .f64, .f64 => true
  | .bytes, .bytes => true
  | .text, .text => true
  | .tuple items, .tuple items' => TypeExpr.beqAll items items'
  | .named definition arguments, .named definition' arguments' =>
    definition = definition' && TypeExpr.beqAll arguments arguments'
  | .vector element, .vector element' => TypeExpr.beq element element'
  | .orderedMap key value, .orderedMap key' value' =>
    TypeExpr.beq key key' && TypeExpr.beq value value'
  | .option element, .option element' => TypeExpr.beq element element'
  | .result value failure, .result value' failure' =>
    TypeExpr.beq value value' && TypeExpr.beq failure failure'
  | .functionRef parameters value effects, .functionRef parameters' value' effects' =>
    TypeExpr.beqAll parameters parameters' && TypeExpr.beq value value' && effects = effects'
  | .adapterHandle adapter, .adapterHandle adapter' => adapter = adapter'
  | .capabilityToken effect, .capabilityToken effect' => effect = effect'
  | .localCell element, .localCell element' => TypeExpr.beq element element'
  | .typeParameter ordinal, .typeParameter ordinal' => ordinal = ordinal'
  | .builtinFailure kind, .builtinFailure kind' => kind = kind'
  | _, _ => false

def TypeExpr.beqAll : List TypeExpr → List TypeExpr → Bool
  | [], [] => true
  | t :: ts, t' :: ts' => TypeExpr.beq t t' && TypeExpr.beqAll ts ts'
  | _, _ => false

end

mutual

theorem TypeExpr.eq_of_beq : ∀ {t t' : TypeExpr}, TypeExpr.beq t t' = true → t = t'
  | .unit, t', h | .bool, t', h | .sInt _, t', h | .uInt _, t', h | .f32, t', h | .f64, t', h
  | .bytes, t', h | .text, t', h | .adapterHandle _, t', h | .capabilityToken _, t', h
  | .typeParameter _, t', h | .builtinFailure _, t', h => by
    cases t' <;> simp_all [TypeExpr.beq]
  | .tuple items, t', h => by
    cases t' <;> simp only [TypeExpr.beq, false_eq_true] at h
    rw [TypeExpr.eq_of_beqAll h]
  | .named definition arguments, t', h => by
    cases t' <;> simp only [TypeExpr.beq, false_eq_true, and_eq_true, decide_eq_true_eq] at h
    rw [h.1, TypeExpr.eq_of_beqAll h.2]
  | .vector element, t', h => by
    cases t' <;> simp only [TypeExpr.beq, false_eq_true] at h
    rw [TypeExpr.eq_of_beq h]
  | .orderedMap key value, t', h => by
    cases t' <;> simp only [TypeExpr.beq, false_eq_true, and_eq_true] at h
    rw [TypeExpr.eq_of_beq h.1, TypeExpr.eq_of_beq h.2]
  | .option element, t', h => by
    cases t' <;> simp only [TypeExpr.beq, false_eq_true] at h
    rw [TypeExpr.eq_of_beq h]
  | .result value failure, t', h => by
    cases t' <;> simp only [TypeExpr.beq, false_eq_true, and_eq_true] at h
    rw [TypeExpr.eq_of_beq h.1, TypeExpr.eq_of_beq h.2]
  | .functionRef parameters value effects, t', h => by
    cases t' <;> simp only [TypeExpr.beq, false_eq_true, and_eq_true, decide_eq_true_eq] at h
    rw [TypeExpr.eq_of_beqAll h.1.1, TypeExpr.eq_of_beq h.1.2, h.2]
  | .localCell element, t', h => by
    cases t' <;> simp only [TypeExpr.beq, false_eq_true] at h
    rw [TypeExpr.eq_of_beq h]

theorem TypeExpr.eq_of_beqAll : ∀ {ts ts' : List TypeExpr}, TypeExpr.beqAll ts ts' = true → ts = ts'
  | [], ts', h => by cases ts' <;> simp_all [TypeExpr.beqAll]
  | t :: ts, ts', h => by
    cases ts' <;> simp only [TypeExpr.beqAll, false_eq_true, and_eq_true] at h
    rw [TypeExpr.eq_of_beq h.1, TypeExpr.eq_of_beqAll h.2]

end

mutual

theorem TypeExpr.beq_self : ∀ t : TypeExpr, TypeExpr.beq t t = true
  | .unit | .bool | .sInt _ | .uInt _ | .f32 | .f64 | .bytes | .text | .adapterHandle _
  | .capabilityToken _ | .typeParameter _ | .builtinFailure _ => by simp [TypeExpr.beq]
  | .tuple items => by simp [TypeExpr.beq, TypeExpr.beqAll_self items]
  | .named _ arguments => by simp [TypeExpr.beq, TypeExpr.beqAll_self arguments]
  | .vector element | .option element | .localCell element => by
    simp [TypeExpr.beq, TypeExpr.beq_self element]
  | .orderedMap a b | .result a b => by
    simp [TypeExpr.beq, TypeExpr.beq_self a, TypeExpr.beq_self b]
  | .functionRef parameters value _ => by
    simp [TypeExpr.beq, TypeExpr.beqAll_self parameters, TypeExpr.beq_self value]

theorem TypeExpr.beqAll_self : ∀ ts : List TypeExpr, TypeExpr.beqAll ts ts = true
  | [] => rfl
  | t :: ts => by simp [TypeExpr.beqAll, TypeExpr.beq_self t, TypeExpr.beqAll_self ts]

end

instance : DecidableEq TypeExpr := fun t t' ↦
  decidable_of_iff (TypeExpr.beq t t' = true)
    ⟨TypeExpr.eq_of_beq, fun h ↦ h ▸ TypeExpr.beq_self t⟩

deriving instance DecidableEq for FunctionRefValue
deriving instance DecidableEq for Immediate
deriving instance DecidableEq for RecordField
deriving instance DecidableEq for VariantCase
deriving instance DecidableEq for TypeDefForm

/-! ### Constants -/

mutual

def ConstValue.beq : ConstValue → ConstValue → Bool
  | ⟨valueType, data⟩, ⟨valueType', data'⟩ => valueType = valueType' && ConstData.beq data data'

def ConstValue.beqAll : List ConstValue → List ConstValue → Bool
  | [], [] => true
  | v :: vs, v' :: vs' => ConstValue.beq v v' && ConstValue.beqAll vs vs'
  | _, _ => false

def ConstValue.beqOption : Option ConstValue → Option ConstValue → Bool
  | none, none => true
  | some v, some v' => ConstValue.beq v v'
  | _, _ => false

def FieldConst.beq : FieldConst → FieldConst → Bool
  | ⟨memberId, value⟩, ⟨memberId', value'⟩ => memberId = memberId' && ConstValue.beq value value'

def FieldConst.beqAll : List FieldConst → List FieldConst → Bool
  | [], [] => true
  | f :: fs, f' :: fs' => FieldConst.beq f f' && FieldConst.beqAll fs fs'
  | _, _ => false

def RecordConst.beq : RecordConst → RecordConst → Bool
  | ⟨definition, fields⟩, ⟨definition', fields'⟩ =>
    definition = definition' && FieldConst.beqAll fields fields'

def VariantConst.beq : VariantConst → VariantConst → Bool
  | ⟨definition, memberId, payload⟩, ⟨definition', memberId', payload'⟩ =>
    definition = definition' && memberId = memberId' && ConstValue.beqOption payload payload'

def MapEntryConst.beq : MapEntryConst → MapEntryConst → Bool
  | ⟨key, value⟩, ⟨key', value'⟩ => ConstValue.beq key key' && ConstValue.beq value value'

def MapEntryConst.beqAll : List MapEntryConst → List MapEntryConst → Bool
  | [], [] => true
  | e :: es, e' :: es' => MapEntryConst.beq e e' && MapEntryConst.beqAll es es'
  | _, _ => false

def ResultConst.beq : ResultConst → ResultConst → Bool
  | .ok value, .ok value' => ConstValue.beq value value'
  | .err value, .err value' => ConstValue.beq value value'
  | _, _ => false

def ConstData.beq : ConstData → ConstData → Bool
  | .unit, .unit => true
  | .bool value, .bool value' => value = value'
  | .sInt value, .sInt value' => value = value'
  | .uInt value, .uInt value' => value = value'
  | .f32Bits bits, .f32Bits bits' => bits = bits'
  | .f64Bits bits, .f64Bits bits' => bits = bits'
  | .bytes value, .bytes value' => value = value'
  | .text value, .text value' => value = value'
  | .sequence values, .sequence values' => ConstValue.beqAll values values'
  | .record value, .record value' => RecordConst.beq value value'
  | .variant value, .variant value' => VariantConst.beq value value'
  | .map entries, .map entries' => MapEntryConst.beqAll entries entries'
  | .option value, .option value' => ConstValue.beqOption value value'
  | .result value, .result value' => ResultConst.beq value value'
  | .functionRef value, .functionRef value' => value = value'
  | .builtinFailure value, .builtinFailure value' => value = value'
  | _, _ => false

end

mutual

theorem ConstValue.eq_of_beq : ∀ {v v' : ConstValue}, ConstValue.beq v v' = true → v = v'
  | ⟨_, data⟩, ⟨_, data'⟩, h => by
    simp only [ConstValue.beq, and_eq_true, decide_eq_true_eq] at h
    rw [h.1, ConstData.eq_of_beq h.2]

theorem ConstValue.eq_of_beqAll : ∀ {vs vs' : List ConstValue},
    ConstValue.beqAll vs vs' = true → vs = vs'
  | [], vs', h => by cases vs' <;> simp_all [ConstValue.beqAll]
  | v :: vs, vs', h => by
    cases vs' <;> simp only [ConstValue.beqAll, false_eq_true, and_eq_true] at h
    rw [ConstValue.eq_of_beq h.1, ConstValue.eq_of_beqAll h.2]

theorem ConstValue.eq_of_beqOption : ∀ {o o' : Option ConstValue},
    ConstValue.beqOption o o' = true → o = o'
  | none, o', h => by cases o' <;> simp_all [ConstValue.beqOption]
  | some v, o', h => by
    cases o' <;> simp only [ConstValue.beqOption, false_eq_true] at h
    rw [ConstValue.eq_of_beq h]

theorem FieldConst.eq_of_beq : ∀ {f f' : FieldConst}, FieldConst.beq f f' = true → f = f'
  | ⟨_, value⟩, ⟨_, value'⟩, h => by
    simp only [FieldConst.beq, and_eq_true, decide_eq_true_eq] at h
    rw [h.1, ConstValue.eq_of_beq h.2]

theorem FieldConst.eq_of_beqAll : ∀ {fs fs' : List FieldConst},
    FieldConst.beqAll fs fs' = true → fs = fs'
  | [], fs', h => by cases fs' <;> simp_all [FieldConst.beqAll]
  | f :: fs, fs', h => by
    cases fs' <;> simp only [FieldConst.beqAll, false_eq_true, and_eq_true] at h
    rw [FieldConst.eq_of_beq h.1, FieldConst.eq_of_beqAll h.2]

theorem RecordConst.eq_of_beq : ∀ {r r' : RecordConst}, RecordConst.beq r r' = true → r = r'
  | ⟨_, fields⟩, ⟨_, fields'⟩, h => by
    simp only [RecordConst.beq, and_eq_true, decide_eq_true_eq] at h
    rw [h.1, FieldConst.eq_of_beqAll h.2]

theorem VariantConst.eq_of_beq : ∀ {v v' : VariantConst}, VariantConst.beq v v' = true → v = v'
  | ⟨_, _, payload⟩, ⟨_, _, payload'⟩, h => by
    simp only [VariantConst.beq, and_eq_true, decide_eq_true_eq] at h
    rw [h.1.1, h.1.2, ConstValue.eq_of_beqOption h.2]

theorem MapEntryConst.eq_of_beq : ∀ {e e' : MapEntryConst}, MapEntryConst.beq e e' = true → e = e'
  | ⟨key, value⟩, ⟨key', value'⟩, h => by
    simp only [MapEntryConst.beq, and_eq_true] at h
    rw [ConstValue.eq_of_beq h.1, ConstValue.eq_of_beq h.2]

theorem MapEntryConst.eq_of_beqAll : ∀ {es es' : List MapEntryConst},
    MapEntryConst.beqAll es es' = true → es = es'
  | [], es', h => by cases es' <;> simp_all [MapEntryConst.beqAll]
  | e :: es, es', h => by
    cases es' <;> simp only [MapEntryConst.beqAll, false_eq_true, and_eq_true] at h
    rw [MapEntryConst.eq_of_beq h.1, MapEntryConst.eq_of_beqAll h.2]

theorem ResultConst.eq_of_beq : ∀ {r r' : ResultConst}, ResultConst.beq r r' = true → r = r'
  | .ok value, r', h => by
    cases r' <;> simp only [ResultConst.beq, false_eq_true] at h
    rw [ConstValue.eq_of_beq h]
  | .err value, r', h => by
    cases r' <;> simp only [ResultConst.beq, false_eq_true] at h
    rw [ConstValue.eq_of_beq h]

theorem ConstData.eq_of_beq : ∀ {d d' : ConstData}, ConstData.beq d d' = true → d = d'
  | .unit, d', h | .bool _, d', h | .sInt _, d', h | .uInt _, d', h | .f32Bits _, d', h
  | .f64Bits _, d', h | .bytes _, d', h | .text _, d', h | .functionRef _, d', h
  | .builtinFailure _, d', h => by
    cases d' <;> simp_all [ConstData.beq]
  | .sequence values, d', h => by
    cases d' <;> simp only [ConstData.beq, false_eq_true] at h
    rw [ConstValue.eq_of_beqAll h]
  | .record value, d', h => by
    cases d' <;> simp only [ConstData.beq, false_eq_true] at h
    rw [RecordConst.eq_of_beq h]
  | .variant value, d', h => by
    cases d' <;> simp only [ConstData.beq, false_eq_true] at h
    rw [VariantConst.eq_of_beq h]
  | .map entries, d', h => by
    cases d' <;> simp only [ConstData.beq, false_eq_true] at h
    rw [MapEntryConst.eq_of_beqAll h]
  | .option value, d', h => by
    cases d' <;> simp only [ConstData.beq, false_eq_true] at h
    rw [ConstValue.eq_of_beqOption h]
  | .result value, d', h => by
    cases d' <;> simp only [ConstData.beq, false_eq_true] at h
    rw [ResultConst.eq_of_beq h]

end

mutual

theorem ConstValue.beq_self : ∀ v : ConstValue, ConstValue.beq v v = true
  | ⟨_, data⟩ => by simp [ConstValue.beq, ConstData.beq_self data]

theorem ConstValue.beqAll_self : ∀ vs : List ConstValue, ConstValue.beqAll vs vs = true
  | [] => by simp only [ConstValue.beqAll]
  | v :: vs => by simp [ConstValue.beqAll, ConstValue.beq_self v, ConstValue.beqAll_self vs]

theorem ConstValue.beqOption_self : ∀ o : Option ConstValue, ConstValue.beqOption o o = true
  | none => by simp only [ConstValue.beqOption]
  | some v => by simp [ConstValue.beqOption, ConstValue.beq_self v]

theorem FieldConst.beq_self : ∀ f : FieldConst, FieldConst.beq f f = true
  | ⟨_, value⟩ => by simp [FieldConst.beq, ConstValue.beq_self value]

theorem FieldConst.beqAll_self : ∀ fs : List FieldConst, FieldConst.beqAll fs fs = true
  | [] => by simp only [FieldConst.beqAll]
  | f :: fs => by simp [FieldConst.beqAll, FieldConst.beq_self f, FieldConst.beqAll_self fs]

theorem RecordConst.beq_self : ∀ r : RecordConst, RecordConst.beq r r = true
  | ⟨_, fields⟩ => by simp [RecordConst.beq, FieldConst.beqAll_self fields]

theorem VariantConst.beq_self : ∀ v : VariantConst, VariantConst.beq v v = true
  | ⟨_, _, payload⟩ => by simp [VariantConst.beq, ConstValue.beqOption_self payload]

theorem MapEntryConst.beq_self : ∀ e : MapEntryConst, MapEntryConst.beq e e = true
  | ⟨key, value⟩ => by
    simp [MapEntryConst.beq, ConstValue.beq_self key, ConstValue.beq_self value]

theorem MapEntryConst.beqAll_self : ∀ es : List MapEntryConst, MapEntryConst.beqAll es es = true
  | [] => by simp only [MapEntryConst.beqAll]
  | e :: es => by
    simp [MapEntryConst.beqAll, MapEntryConst.beq_self e, MapEntryConst.beqAll_self es]

theorem ResultConst.beq_self : ∀ r : ResultConst, ResultConst.beq r r = true
  | .ok value | .err value => by simp [ResultConst.beq, ConstValue.beq_self value]

theorem ConstData.beq_self : ∀ d : ConstData, ConstData.beq d d = true
  | .unit | .bool _ | .sInt _ | .uInt _ | .f32Bits _ | .f64Bits _ | .bytes _ | .text _
  | .functionRef _ | .builtinFailure _ => by simp [ConstData.beq]
  | .sequence values => by simp [ConstData.beq, ConstValue.beqAll_self values]
  | .record value => by simp [ConstData.beq, RecordConst.beq_self value]
  | .variant value => by simp [ConstData.beq, VariantConst.beq_self value]
  | .map entries => by simp [ConstData.beq, MapEntryConst.beqAll_self entries]
  | .option value => by simp [ConstData.beq, ConstValue.beqOption_self value]
  | .result value => by simp [ConstData.beq, ResultConst.beq_self value]

end

instance : DecidableEq ConstValue := fun v v' ↦
  decidable_of_iff (ConstValue.beq v v' = true)
    ⟨ConstValue.eq_of_beq, fun h ↦ h ▸ ConstValue.beq_self v⟩

instance : DecidableEq ResultConst := fun r r' ↦
  decidable_of_iff (ResultConst.beq r r' = true)
    ⟨ResultConst.eq_of_beq, fun h ↦ h ▸ ResultConst.beq_self r⟩

deriving instance DecidableEq for ReplayBinding
deriving instance DecidableEq for AdapterConfig
deriving instance DecidableEq for EffectEnvironment
deriving instance DecidableEq for ExpectedOutcome
deriving instance DecidableEq for ExpectedObservation

end Sley.Ssmc
