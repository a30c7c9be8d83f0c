import Sley.Check.Constants
import Sley.Check.Substitution
import Sley.Lib.StackWalk
import Sley.Vm.Integers
import Sley.Vm.NestedValues

/-!
# The admission of the inputs of a package

Beyond what the codec establishes, the package path of `sley-vm/src/execute.rs` asks two things of
an input: every integer in it fits the width that its own type declares, and every value in it
carries the type that its container declares (`integers_fit_declared_widths`,
`nested_types_agree`). Both walk the value on an explicit stack, and so does `instantiates_to`,
which decides whether a type is a template with arguments in the place of its parameters.
-/

namespace Sley.Vm

open Ssmc HostInt
open Except hiding ok error
open TypeCheck hiding TypeEnvironment
open Bool (and_eq_true)
open List (all_eq_true forall_mem_cons forall_mem_singleton map_cons zip_cons_cons)
open TypeCheck.TypeEnvironment (checkConstant checkConstantAs checkConstantData
  checkFieldConstants checkMapConstant checkPayloadConstant checkRecordConstant checkTupleConstant
  checkVariantConstant checkVectorConstant)
open Unique (exists_iff)
open TypeExpr (components instantiate instantiateAll_eq_map)

/-! ### Templates -/

/-- One pair of `instantiates_to`: a part of the template and the part of the type in its place. -/
def visitTemplate (arguments : List TypeExpr) : TypeExpr × TypeExpr → Option (List (TypeExpr × TypeExpr))
  | (.typeParameter index, actual) =>
    if arguments[index.toNat]? = some actual then some [] else none
  | (.tuple templates, .tuple actuals) =>
    if templates.length ≠ actuals.length then none else some (templates.zip actuals)
  | (.named definition templates, .named definition' actuals) =>
    if definition ≠ definition' ∨ templates.length ≠ actuals.length then none
    else some (templates.zip actuals)
  | (.vector template, .vector actual) | (.option template, .option actual)
  | (.localCell template, .localCell actual) => some [(template, actual)]
  | (.orderedMap key value, .orderedMap key' value') => some [(key, key'), (value, value')]
  | (.result ok error, .result ok' error') => some [(ok, ok'), (error, error')]
  | (.functionRef templates template effects, .functionRef actuals actual effects') =>
    if effects ≠ effects' ∨ templates.length ≠ actuals.length then none
    else some (templates.zip actuals ++ [(template, actual)])
  | (template, actual) => if template = actual then some [] else none

theorem sum_sizeOf_zip_le (templates actuals : List TypeExpr) :
    ((templates.zip actuals).map (sizeOf ·.1)).sum ≤ sizeOf templates := by
  induction templates generalizing actuals with
  | nil => simp
  | cons template templates ih =>
    cases actuals with
    | nil => simp
    | cons actual actuals =>
      have := ih actuals
      simp only [zip_cons_cons, map_cons, List.sum_cons, List.cons.sizeOf_spec]
      omega

theorem sizeOf_pos (type : TypeExpr) : 0 < sizeOf type := by
  cases type <;> simp

theorem visitTemplate_shrinks {arguments : List TypeExpr} {pair : TypeExpr × TypeExpr}
    {found : List (TypeExpr × TypeExpr)} (h : visitTemplate arguments pair = some found) :
    (found.map (sizeOf ·.1)).sum < sizeOf pair.1 := by
  unfold visitTemplate at h
  split at h
  case h_2 templates actuals =>
    obtain ⟨-, h⟩ := Option.ite_none_left_eq_some.1 h
    obtain rfl := Option.some.inj h
    have := sum_sizeOf_zip_le templates actuals
    simp only [TypeExpr.tuple.sizeOf_spec]
    omega
  case h_3 templates _ actuals =>
    obtain ⟨-, h⟩ := Option.ite_none_left_eq_some.1 h
    obtain rfl := Option.some.inj h
    have := sum_sizeOf_zip_le templates actuals
    simp only [TypeExpr.named.sizeOf_spec]
    omega
  case h_9 templates template _ actuals _ _ =>
    obtain ⟨-, h⟩ := Option.ite_none_left_eq_some.1 h
    obtain rfl := Option.some.inj h
    have := sum_sizeOf_zip_le templates actuals
    simp only [TypeExpr.functionRef.sizeOf_spec, List.map_append, List.sum_append, map_cons,
      List.map_nil, List.sum_cons, List.sum_nil]
    omega
  case h_1 | h_10 =>
    obtain ⟨-, h⟩ := Option.ite_none_right_eq_some.1 h
    obtain rfl := Option.some.inj h
    exact sizeOf_pos _
  all_goals
    obtain rfl := Option.some.inj h
    simp

/-- `instantiates_to` serves its pairs from a stack. -/
def templateWalk (arguments : List TypeExpr) : StackWalk (TypeExpr × TypeExpr) where
  visit := visitTemplate arguments
  shrinks := ⟨(sizeOf ·.1), visitTemplate_shrinks⟩

/-- `instantiates_to`: whether the type is the template with the arguments in the place of its
parameters. -/
def instantiatesTo (template : TypeExpr) (arguments : List TypeExpr) (actual : TypeExpr) : Bool :=
  (templateWalk arguments).passes [(template, actual)]

variable {arguments : List TypeExpr} {template actual : TypeExpr}

theorem forall_zip_iff {P : TypeExpr → Prop} {f : TypeExpr → TypeExpr}
    {templates actuals : List TypeExpr} :
    (templates.length = actuals.length ∧ ∀ p ∈ templates.zip actuals, P p.1 ∧ f p.1 = p.2) ↔
      (∀ t ∈ templates, P t) ∧ templates.map f = actuals := by
  induction templates generalizing actuals with
  | nil => simp [eq_comm]
  | cons template templates ih =>
    cases actuals with
    | nil => simp
    | cons actual actuals =>
      have := @ih actuals
      simp only [List.length_cons, Nat.add_right_cancel_iff, zip_cons_cons,
        forall_mem_cons, map_cons, List.cons.injEq]
      tauto

/-- The type is the template with the arguments in the place of its parameters, all of which are
there. -/
def Instance (arguments : List TypeExpr) (template actual : TypeExpr) : Prop :=
  template.ParametersBelow arguments.length ∧ template.instantiate arguments = actual

theorem parametersBelow_iff {n : ℕ} (hne : ∀ ordinal, template ≠ .typeParameter ordinal) :
    template.ParametersBelow n ↔ ∀ c ∈ template.components, c.ParametersBelow n := by
  refine ⟨fun h c hc ↦ h.of_mem hc, fun h ordinal hordinal ↦ ?_⟩
  obtain heq | ⟨c, hc, hordinal⟩ := TypeExpr.occursIn_iff.1 hordinal
  · exact absurd heq.symm (hne ordinal)
  · exact h c hc ordinal hordinal

theorem instance_typeParameter {index : UInt32} : Instance arguments (.typeParameter index) actual ↔
      arguments[index.toNat]? = some actual := by
  rw [Instance, TypeExpr.parametersBelow_typeParameter, instantiate]
  cases h : arguments[index.toNat]? with
  | none => simp [List.getElem?_eq_none_iff.1 h]
  | some argument => simp [(List.getElem?_eq_some_iff.1 h).1]

theorem judges_templateWalk :
    (templateWalk arguments).Judges fun pair ↦ Instance arguments pair.1 pair.2 := by
  rintro ⟨template, actual⟩
  show Instance arguments template actual ↔
    ∃ found, visitTemplate arguments (template, actual) = some found ∧ _
  by_cases hparameter : ∃ ordinal, template = .typeParameter ordinal
  · obtain ⟨ordinal, rfl⟩ := hparameter
    simp [visitTemplate, instance_typeParameter]
  have hne : ∀ ordinal, template ≠ .typeParameter ordinal := fun ordinal heq ↦
    hparameter ⟨ordinal, heq⟩
  rw [Instance, parametersBelow_iff hne]
  cases template with
  | typeParameter ordinal => exact absurd rfl (hne ordinal)
  | tuple templates =>
    cases actual with
    | tuple actuals =>
      simp [visitTemplate, components, instantiate,
        instantiateAll_eq_map, ← forall_zip_iff, Instance]
    | _ => simp [visitTemplate, instantiate]
  | named definition templates =>
    cases actual with
    | named definition' actuals =>
      simp only [visitTemplate, Option.ite_none_left_eq_some, Option.some.injEq, not_or, not_not,
        and_assoc, Instance, forall_zip_iff, components,
        instantiate, instantiateAll_eq_map, TypeExpr.named.injEq, ne_eq,
        exists_and_left, exists_eq_left']
      tauto
    | _ => simp [visitTemplate, instantiate]
  | functionRef templates template effects =>
    cases actual with
    | functionRef actuals actual effects' =>
      simp only [visitTemplate, Option.ite_none_left_eq_some, Option.some.injEq, not_or, not_not,
        and_assoc, Instance, components, List.forall_mem_append, forall_mem_singleton,
        instantiate, instantiateAll_eq_map, TypeExpr.functionRef.injEq, ne_eq,
        exists_and_left, exists_eq_left']
      rw [← and_assoc (a := templates.length = actuals.length), forall_zip_iff]
      tauto
    | _ => simp [visitTemplate, instantiate]
  | vector template | option template | localCell template =>
    cases actual <;> simp [visitTemplate, components, instantiate, Instance]
  | orderedMap key value | result ok error =>
    cases actual <;> simp [visitTemplate, components, instantiate, Instance, or_imp, forall_and]
  | _ => simp [visitTemplate, components, instantiate]

/-- **`instantiates_to` accepts the instances of its template**, and nothing else. -/
theorem instantiatesTo_iff :
    instantiatesTo template arguments actual = true ↔ Instance arguments template actual := by
  rw [instantiatesTo, StackWalk.passes_iff_of_judges judges_templateWalk, forall_mem_singleton]

/-! ### Values -/

/-- A walk over a value and all that is inside of it. -/
def valueWalk (holds : ConstValue → Bool) : StackWalk ConstValue where
  visit value := if holds value then some (nestedValues value) else none
  shrinks := ⟨sizeOf, fun {value found} h ↦ by
    obtain ⟨-, h⟩ := Option.ite_none_right_eq_some.1 h
    obtain rfl := Option.some.inj h
    exact sum_sizeOf_nestedValues_lt value⟩

/-- One value of `integers_fit_declared_widths`. No width of the first epoch is out of the reach of
`fits`. -/
def integerFits (value : ConstValue) : Bool :=
  match value.valueType, value.data with
  | .sInt width, .sInt number =>
    isEpoch1 width && fitsWidth true width.bits (ofBitVec true number) 0 = .ok true
  | .uInt width, .uInt number =>
    isEpoch1 width && fitsWidth false width.bits 0 (ofBitVec false number) = .ok true
  | .sInt _, _ | .uInt _, _ => false
  | _, .sInt _ | _, .uInt _ => false
  | _, _ => true

/-- `integers_fit_declared_widths` -/
def integersFitDeclaredWidths (value : ConstValue) : Bool := (valueWalk integerFits).passes [value]

variable (types : TypeCheck.TypeEnvironment)

/-- `record_fields_agree` -/
def recordFieldsAgree (named : EntityId) (arguments : List TypeExpr) (record : RecordConst) : Bool :=
  if record.definition ≠ named then false
  else match types.definition named with
    | .error _ => false
    | .ok definition => match definition.form with
      | .variant _ => false
      | .record fields => definition.typeParameters.length = arguments.length &&
        (fields.length = record.fields.length &&
          (fields.zip record.fields).all fun pair ↦ pair.1.memberId = pair.2.memberId &&
            instantiatesTo pair.1.valueType arguments pair.2.value.valueType)

/-- `variant_payload_agrees` -/
def variantPayloadAgrees (named : EntityId) (arguments : List TypeExpr) (variant : VariantConst) :
    Bool :=
  if variant.definition ≠ named then false
  else match types.definition named with
    | .error _ => false
    | .ok definition => match definition.form with
      | .record _ => false
      | .variant cases =>
        if definition.typeParameters.length ≠ arguments.length then false
        else match cases.find? (·.memberId = variant.memberId) with
          | none => false
          | some case => match case.payloadType, variant.payload with
            | none, none => true
            | some payloadType, some payload =>
              instantiatesTo payloadType arguments payload.valueType
            | _, _ => false

/-- One value of `nested_types_agree`. -/
def typesAgree (value : ConstValue) : Bool :=
  match value.valueType, value.data with
  | .unit, .unit | .bool, .bool _ | .sInt _, .sInt _ | .uInt _, .uInt _ | .f32, .f32Bits _
  | .f64, .f64Bits _ | .bytes, .bytes _ | .text, .text _ | .functionRef _ _ _, .functionRef _
  | .option _, .option none => true
  | .builtinFailure kind, .builtinFailure failure => kind = failure.kind
  | .tuple elementTypes, .sequence values => values.length = elementTypes.length &&
    (values.zip elementTypes).all fun pair ↦ pair.1.valueType = pair.2
  | .vector element, .sequence values => values.all (·.valueType = element)
  | .orderedMap key value, .map entries =>
    entries.all fun entry ↦ entry.key.valueType = key && entry.value.valueType = value
  | .option element, .option (some item) => item.valueType = element
  | .result ok _, .result (.ok item) => item.valueType = ok
  | .result _ error, .result (.err item) => item.valueType = error
  | .named named arguments, .record record => recordFieldsAgree types named arguments record
  | .named named arguments, .variant variant => variantPayloadAgrees types named arguments variant
  | _, _ => false

/-- `nested_types_agree` -/
def nestedTypesAgree (value : ConstValue) : Bool := (valueWalk (typesAgree types)).passes [value]

/-- What `validate_package_inputs_structural` asks of an input beyond its codec. -/
def admitsPackageInput (value : ConstValue) : Bool :=
  integersFitDeclaredWidths value && nestedTypesAgree types value

/-! ### What is left to the compiler -/

/-- How much deeper the checker of constants stands inside of a value. -/
def levels (value : ConstValue) : ℕ :=
  match value.data with
  | .record _ | .variant _ | .map _ => 2
  | _ => 1

/-- The field and payload types of a named value are substituted within the depth limit. -/
def SubstitutesWithin (value : ConstValue) (depth : ℕ) : Prop :=
  match value.valueType, value.data with
  | .named named _, .record _ => ∀ definition fields, types.definition named = .ok definition →
    definition.form = .record fields → ∀ field ∈ fields,
      field.valueType.height + (depth + 2) ≤ maxTypeDepth + 1
  | .named named _, .variant variant => ∀ definition cases case payloadType,
    types.definition named = .ok definition → definition.form = .variant cases →
      cases.find? (·.memberId = variant.memberId) = some case → case.payloadType = some payloadType →
        payloadType.height + (depth + 2) ≤ maxTypeDepth + 1
  | _, _ => True

/-- The judgments on one value that its form says nothing about: limits, floats, failure codes, keys
and function references. -/
def JudgedAlone (value : ConstValue) : Prop :=
  match value.valueType, value.data with
  | _, .f32Bits bits => checkF32 bits = .ok ()
  | _, .f64Bits bits => checkF64 bits = .ok ()
  | _, .bytes bytes => bytes.length ≤ maxConstantPayloadBytes
  | _, .text text => text.utf8ByteSize ≤ maxConstantPayloadBytes
  | .vector _, .sequence values => values.length ≤ maxConstantElements
  | .orderedMap key _, .map entries => entries.length ≤ maxConstantElements ∧
    (types.traits key >>= requireMapKeyTraits) = .ok () ∧ (entries.map (·.key)).Nodup
  | _, .functionRef reference => reference.typeArguments.length ≤ maxTypeArguments ∧
    ∀ argument ∈ reference.typeArguments, types.checkClosedType argument = .ok ()
  | _, .builtinFailure failure => checkBuiltinFailure failure.kind failure.code = .ok ()
  | _, _ => True

/-- A named value has as many arguments as its definition has parameters. -/
def Applied (value : ConstValue) : Prop :=
  match value.valueType, value.data with
  | .named named arguments, .record _ | .named named arguments, .variant _ =>
    ∀ definition, types.definition named = .ok definition →
      definition.typeParameters.length = arguments.length
  | _, _ => True

/-! ### The judgment on constants, level by level -/

section Levels

variable {types} {value : ConstValue} {type : TypeExpr} {depth : ℕ}

theorem checkConstantAs_eq_ok : types.checkConstantAs value type depth = .ok () ↔
    value.valueType = type ∧ depth ≤ maxTypeDepth ∧
      types.checkConstantData value.data value.valueType depth = .ok () := by
  obtain ⟨valueType, data⟩ := value
  simp only [checkConstantAs, checkDepth, bind_eq_ok,
    rejectIf_eq_ok, exists_const, not_not, ne_eq, gt_iff_lt, Nat.not_lt]
  constructor
  · rintro ⟨hdepth, rfl, hdata⟩
    exact ⟨rfl, hdepth, hdata⟩
  · rintro ⟨rfl, hdepth, hdata⟩
    exact ⟨hdepth, rfl, hdata⟩

/-- A constant is checked against its own type. -/
theorem checkConstantAs_iff : types.checkConstantAs value type depth = .ok () ↔
    value.valueType = type ∧ types.checkConstantAs value value.valueType depth = .ok () := by
  simp only [checkConstantAs_eq_ok, true_and]

variable {values : List ConstValue} {entries : List MapEntryConst} {keyType valueType : TypeExpr}

theorem checkTupleConstant_eq_ok {elements : List TypeExpr} :
    types.checkTupleConstant values elements depth = .ok () ↔
      ∀ p ∈ values.zip elements, types.checkConstantAs p.1 p.2 depth = .ok () := by
  induction values generalizing elements with
  | nil => simp [checkTupleConstant, pure_eq_ok]
  | cons value values ih =>
    cases elements with
    | nil => simp [checkTupleConstant, pure_eq_ok]
    | cons element elements =>
      rw [checkTupleConstant, bind_eq_ok, zip_cons_cons, forall_mem_cons, ih, exists_iff]

theorem checkVectorConstant_eq_ok : types.checkVectorConstant values type depth = .ok () ↔
      ∀ v ∈ values, types.checkConstantAs v type depth = .ok () := by
  induction values with
  | nil => simp [checkVectorConstant, pure_eq_ok]
  | cons value values ih =>
    rw [checkVectorConstant, bind_eq_ok, forall_mem_cons, ih, exists_iff]

theorem checkFieldConstants_eq_ok {values : List FieldConst} {fields : List RecordField} :
    types.checkFieldConstants values fields arguments depth = .ok () ↔
      ∀ p ∈ fields.zip values, p.1.memberId = p.2.memberId ∧
        ∃ s, substitute arguments p.1.valueType depth = .ok s ∧
          types.checkConstantAs p.2.value s depth = .ok () := by
  induction values generalizing fields with
  | nil => simp [checkFieldConstants, pure_eq_ok]
  | cons value values ih =>
    cases fields with
    | nil => simp [checkFieldConstants, pure_eq_ok]
    | cons field fields =>
      obtain ⟨memberId, value⟩ := value
      simp only [checkFieldConstants, bind_eq_ok, rejectIf_eq_ok, exists_const, ne_eq, not_not,
        zip_cons_cons, forall_mem_cons, ih]
      tauto

theorem checkMapConstant_eq_ok {previous : List ConstValue} :
    types.checkMapConstant previous entries keyType valueType depth = .ok () ↔
      (∀ e ∈ entries, types.checkConstantAs e.key keyType depth = .ok () ∧
        types.checkConstantAs e.value valueType depth = .ok ()) ∧
      (entries.map (·.key)).Nodup ∧ ∀ e ∈ entries, e.key ∉ previous := by
  induction entries generalizing previous with
  | nil => simp [checkMapConstant, pure_eq_ok]
  | cons entry entries ih =>
    obtain ⟨key, value⟩ := entry
    simp only [checkMapConstant, bind_eq_ok, rejectIf_eq_ok, exists_iff, forall_mem_cons, ih,
      map_cons, List.nodup_cons, List.mem_append, List.mem_singleton, not_or, forall_and,
      List.mem_map, not_exists, not_and]
    tauto

theorem checkSignedRange_eq_ok {width : IntegerWidth} {number : BitVec 128} :
    checkSignedRange width number = .ok () ↔ integerFits ⟨.sInt width, .sInt number⟩ = true := by
  obtain ⟨bits⟩ := width
  simp only [checkSignedRange, checkWidth, bind_eq_ok, rejectIf_eq_ok, exists_iff,
    Bool.not_eq_true', Bool.not_eq_false, integerFits, and_eq_true, decide_eq_true_eq]
  refine and_congr_right fun hwidth ↦ ?_
  obtain ⟨hpos, hle⟩ := le_of_isEpoch1 hwidth
  rw [fitsWidth_eq hpos hle, Except.ok.injEq, decide_eq_true_iff]
  show _ ↔ Representable true bits.toNat number.toInt
  by_cases hbits : bits = 128
  · subst hbits
    exact iff_of_true (fun h ↦ h.1 rfl) (ofBitVec true number).representable
  · rw [representable_signed]
    simp [hbits]

theorem checkUnsignedRange_eq_ok {width : IntegerWidth} {number : BitVec 128} :
    checkUnsignedRange width number = .ok () ↔ integerFits ⟨.uInt width, .uInt number⟩ = true := by
  obtain ⟨bits⟩ := width
  simp only [checkUnsignedRange, checkWidth, bind_eq_ok, rejectIf_eq_ok, exists_iff,
    Bool.not_eq_true', Bool.not_eq_false, integerFits, and_eq_true, decide_eq_true_eq]
  refine and_congr_right fun hwidth ↦ ?_
  obtain ⟨hpos, hle⟩ := le_of_isEpoch1 hwidth
  rw [fitsWidth_eq hpos hle, Except.ok.injEq, decide_eq_true_iff]
  show _ ↔ Representable false bits.toNat number.toNat
  by_cases hbits : bits = 128
  · subst hbits
    exact iff_of_true (fun h ↦ h.1 rfl) (ofBitVec false number).representable
  · rw [representable_unsigned]
    simp [hbits]
    exact_mod_cast Iff.rfl

theorem checkTuple_iff {elements : List TypeExpr} (h : values.length = elements.length) :
    types.checkTupleConstant values elements depth = .ok () ↔
      (∀ p ∈ values.zip elements, p.1.valueType = p.2) ∧
        ∀ v ∈ values, types.checkConstantAs v v.valueType depth = .ok () := by
  have hzip : (values.zip elements).map Prod.fst = values := List.map_fst_zip h.le
  rw [checkTupleConstant_eq_ok]
  nth_rewrite 3 [← hzip]
  rw [List.forall_mem_map, ← forall₂_and]
  exact forall₂_congr fun _ _ ↦ checkConstantAs_iff

theorem checkVector_iff : types.checkVectorConstant values type depth = .ok () ↔
      (∀ v ∈ values, v.valueType = type) ∧
        ∀ v ∈ values, types.checkConstantAs v v.valueType depth = .ok () := by
  rw [checkVectorConstant_eq_ok, ← forall₂_and]
  exact forall₂_congr fun _ _ ↦ checkConstantAs_iff

theorem checkMap_iff : types.checkMapConstant [] entries keyType valueType depth = .ok () ↔
      (∀ e ∈ entries, e.key.valueType = keyType ∧ e.value.valueType = valueType) ∧
        (entries.map (·.key)).Nodup ∧ ∀ v ∈ entries.flatMap fun e ↦ [e.key, e.value],
            types.checkConstantAs v v.valueType depth = .ok () := by
  have hentry : ∀ e ∈ entries, types.checkConstantAs e.key keyType depth = .ok () ∧
      types.checkConstantAs e.value valueType depth = .ok () ↔
        (e.key.valueType = keyType ∧ e.value.valueType = valueType) ∧
          ∀ v ∈ [e.key, e.value], types.checkConstantAs v v.valueType depth = .ok () := by
    intro e _
    rw [checkConstantAs_iff, @checkConstantAs_iff _ e.value, forall_mem_cons,
      forall_mem_singleton, and_and_and_comm]
  rw [checkMapConstant_eq_ok, forall₂_congr hentry, forall₂_and, List.forall_mem_flatMap]
  simp only [List.not_mem_nil, not_false_iff, implies_true, and_true]
  tauto

/-- An instance is what the checker substitutes, within its depth limit. -/
theorem substitute_eq_ok {s : TypeExpr} : substitute arguments type depth = .ok s ↔
    Instance arguments type s ∧ type.height + depth ≤ maxTypeDepth + 1 := by
  constructor
  · intro h
    have hbelow := TypeCheck.parametersBelow_of_substitute h
    rw [TypeCheck.substitute_eq hbelow] at h
    split at h
    · exact ⟨⟨hbelow, Except.ok.inj h⟩, ‹_›⟩
    · cases h
  · rintro ⟨⟨hbelow, rfl⟩, hheight⟩
    rw [TypeCheck.substitute_eq hbelow, if_pos hheight]

/-- A value is checked against what is substituted for its type. -/
theorem checkSubstituted_iff {payload : ConstValue} :
    (∃ s, substitute arguments type depth = .ok s ∧
        types.checkConstantAs payload s depth = .ok ()) ↔
      instantiatesTo type arguments payload.valueType = true ∧
        type.height + depth ≤ maxTypeDepth + 1 ∧
          types.checkConstantAs payload payload.valueType depth = .ok () := by
  rw [instantiatesTo_iff]
  constructor
  · rintro ⟨s, hs, hcheck⟩
    obtain ⟨rfl, hcheck⟩ := checkConstantAs_iff.1 hcheck
    obtain ⟨hinstance, hheight⟩ := substitute_eq_ok.1 hs
    exact ⟨hinstance, hheight, hcheck⟩
  · rintro ⟨hinstance, hheight, hcheck⟩
    exact ⟨_, substitute_eq_ok.2 ⟨hinstance, hheight⟩, hcheck⟩

theorem checkFields_iff {values : List FieldConst} {fields : List RecordField}
    (h : fields.length = values.length) :
    types.checkFieldConstants values fields arguments depth = .ok () ↔
      (∀ p ∈ fields.zip values, p.1.memberId = p.2.memberId ∧
        instantiatesTo p.1.valueType arguments p.2.value.valueType = true) ∧
      (∀ field ∈ fields, field.valueType.height + depth ≤ maxTypeDepth + 1) ∧
        ∀ v ∈ values.map (·.value), types.checkConstantAs v v.valueType depth = .ok () := by
  have hfields : (fields.zip values).map Prod.fst = fields := List.map_fst_zip h.le
  have hvalues : (fields.zip values).map Prod.snd = values := List.map_snd_zip h.ge
  have hleft : (∀ field ∈ fields, field.valueType.height + depth ≤ maxTypeDepth + 1) ↔
      ∀ p ∈ fields.zip values, p.1.valueType.height + depth ≤ maxTypeDepth + 1 := by
    conv_lhs => rw [← hfields]
    rw [List.forall_mem_map]
  have hright : (∀ v ∈ values.map (·.value), types.checkConstantAs v v.valueType depth = .ok ()) ↔
      ∀ p ∈ fields.zip values,
        types.checkConstantAs p.2.value p.2.value.valueType depth = .ok () := by
    conv_lhs => rw [← hvalues]
    rw [List.map_map, List.forall_mem_map]
    rfl
  rw [checkFieldConstants_eq_ok, hleft, hright, ← forall₂_and, ← forall₂_and]
  refine forall₂_congr fun p _ ↦ ?_
  rw [checkSubstituted_iff, and_assoc]

theorem checkPayload_iff {payload : Option ConstValue} {expected : Option TypeExpr} :
    types.checkPayloadConstant payload expected arguments depth = .ok () ↔
      (match expected, payload with
        | none, none => true
        | some payloadType, some payload => instantiatesTo payloadType arguments payload.valueType
        | _, _ => false) = true ∧
      (∀ type ∈ expected, type.height + depth ≤ maxTypeDepth + 1) ∧
        ∀ v ∈ payload.toList, types.checkConstantAs v v.valueType depth = .ok () := by
  cases payload with
  | none =>
    cases expected with
    | none => simp [checkPayloadConstant, pure_eq_ok]
    | some expected => simp [checkPayloadConstant]
  | some payload =>
    cases expected with
    | none => simp [checkPayloadConstant]
    | some expected =>
      rw [checkPayloadConstant, bind_eq_ok, checkSubstituted_iff]
      simp

/-- One level of the judgment on constants is one step of both walks, and what is left to the
compiler. -/
def LevelOf (types : TypeCheck.TypeEnvironment) (value : ConstValue) (depth : ℕ) : Prop :=
  types.checkConstantData value.data value.valueType depth = .ok () ∧ Applied types value ↔
    (integerFits value = true ∧ typesAgree types value = true) ∧
      (SubstitutesWithin types value depth ∧ JudgedAlone types value) ∧
        ∀ c ∈ nestedValues value,
          types.checkConstantAs c c.valueType (depth + levels value) = .ok ()

theorem levelOf_record {named : EntityId} {record : RecordConst} :
    LevelOf types ⟨.named named arguments, .record record⟩ depth := by
  obtain ⟨definition', values⟩ := record
  rw [LevelOf]
  by_cases hdefinition : definition' = named
  swap
  · simp [checkConstantData, checkRecordConstant, typesAgree, recordFieldsAgree, bind_eq_ok,
      rejectIf_eq_ok, hdefinition, Ne.symm hdefinition]
  subst hdefinition
  cases hlookup : types.definition definition' with
  | error e =>
    simp [checkConstantData, checkRecordConstant, typesAgree, recordFieldsAgree, bind_eq_ok,
      hlookup]
  | ok definition =>
    cases hform : definition.form with
    | variant cases =>
      simp [checkConstantData, checkRecordConstant, typesAgree, recordFieldsAgree, bind_eq_ok,
        hlookup, hform]
    | record fields =>
      by_cases hlength : fields.length = values.length
      swap
      · simp [checkConstantData, checkRecordConstant, typesAgree, recordFieldsAgree, bind_eq_ok,
          rejectIf_eq_ok, hlookup, hform, hlength]
      have hwithin : SubstitutesWithin types
          ⟨.named definition' arguments, .record ⟨definition', values⟩⟩ depth ↔
            ∀ field ∈ fields, field.valueType.height + (depth + 2) ≤ maxTypeDepth + 1 := by
        refine ⟨fun h ↦ h definition fields hlookup hform, fun h _ _ hlookup' hform' ↦ ?_⟩
        obtain rfl := Except.ok.inj (hlookup.symm.trans hlookup')
        obtain rfl := TypeDefForm.record.inj (hform.symm.trans hform')
        exact h
      rw [hwithin]
      simp [checkConstantData, checkRecordConstant, typesAgree, recordFieldsAgree, bind_eq_ok,
        rejectIf_eq_ok, hlookup, hform, hlength, checkFields_iff hlength, JudgedAlone, Applied,
        integerFits, nestedValues, levels]
      tauto

theorem levelOf_variant {named : EntityId} {variant : VariantConst} :
    LevelOf types ⟨.named named arguments, .variant variant⟩ depth := by
  obtain ⟨definition', memberId, payload⟩ := variant
  rw [LevelOf]
  by_cases hdefinition : definition' = named
  swap
  · simp [checkConstantData, checkVariantConstant, typesAgree, variantPayloadAgrees, bind_eq_ok,
      rejectIf_eq_ok, hdefinition, Ne.symm hdefinition]
  subst hdefinition
  cases hlookup : types.definition definition' with
  | error e =>
    simp [checkConstantData, checkVariantConstant, typesAgree, variantPayloadAgrees, bind_eq_ok,
      hlookup]
  | ok definition =>
    cases hform : definition.form with
    | record fields =>
      simp [checkConstantData, checkVariantConstant, typesAgree, variantPayloadAgrees, bind_eq_ok,
        hlookup, hform]
    | variant cases =>
      cases hcase : cases.find? (·.memberId = memberId) with
      | none =>
        simp [checkConstantData, checkVariantConstant, typesAgree, variantPayloadAgrees, bind_eq_ok,
          hlookup, hform, hcase, Except.ofOption]
      | some case =>
        have hwithin : SubstitutesWithin types
            ⟨.named definition' arguments, .variant ⟨definition', memberId, payload⟩⟩ depth ↔
              ∀ type ∈ case.payloadType, type.height + (depth + 2) ≤ maxTypeDepth + 1 := by
          refine ⟨fun h type htype ↦ h definition cases case type hlookup hform hcase htype,
            fun h _ _ _ type hlookup' hform' hcase' htype ↦ ?_⟩
          obtain rfl := Except.ok.inj (hlookup.symm.trans hlookup')
          obtain rfl := TypeDefForm.variant.inj (hform.symm.trans hform')
          obtain rfl := Option.some.inj (hcase.symm.trans hcase')
          exact h type htype
        rw [hwithin]
        have hcheck : types.checkVariantConstant ⟨definition', memberId, payload⟩ definition'
            arguments (depth + 1) =
              types.checkPayloadConstant payload case.payloadType arguments (depth + 2) := by
          rw [checkVariantConstant, rejectIf_neg (by simp), hlookup, ok_bind, ok_bind]
          simp only [hform, hcase]
          rfl
        simp only [checkConstantData, hcheck, checkPayload_iff,
          typesAgree, variantPayloadAgrees, hlookup, hform, hcase]
        simp [JudgedAlone, Applied, integerFits, nestedValues, levels, hlookup]
        tauto

/-- **The judgment on constants goes level by level as the walks do.** -/
theorem levelOf (value : ConstValue) (depth : ℕ) : LevelOf types value depth := by
  obtain ⟨type, data⟩ := value
  rw [LevelOf]
  cases data with
  | unit | bool =>
    cases type <;> simp [checkConstantData, integerFits, typesAgree,
      SubstitutesWithin, JudgedAlone, nestedValues, Applied, pure_eq_ok]
  | f32Bits | f64Bits | bytes | text =>
    cases type <;> simp [checkConstantData, integerFits, typesAgree,
      SubstitutesWithin, JudgedAlone, nestedValues, Applied, checkPayloadLen, rejectIf_eq_ok]
  | builtinFailure failure =>
    cases type <;> simp [checkConstantData, integerFits, typesAgree, SubstitutesWithin, JudgedAlone,
      nestedValues, Applied, rejectIf_eq_ok, bind_eq_ok]
  | functionRef reference =>
    cases type with
    | functionRef parameters returned effects =>
      simp only [checkConstantData, bind_eq_ok, rejectIf_eq_ok, exists_iff, integerFits, typesAgree,
        SubstitutesWithin, JudgedAlone, nestedValues, Applied, forM_eq_ok, Nat.not_lt,
        List.not_mem_nil, false_imp_iff, implies_true, and_true, true_and, gt_iff_lt]
    | _ => simp [checkConstantData, typesAgree]
  | sInt number =>
    cases type with
    | sInt width => simp [checkConstantData, typesAgree,
      SubstitutesWithin, JudgedAlone, nestedValues, Applied, checkSignedRange_eq_ok]
    | _ => simp [checkConstantData, typesAgree]
  | uInt number =>
    cases type with
    | uInt width => simp [checkConstantData, typesAgree,
      SubstitutesWithin, JudgedAlone, nestedValues, Applied, checkUnsignedRange_eq_ok]
    | _ => simp [checkConstantData, typesAgree]
  | option payload =>
    cases type with
    | option element =>
      cases payload with
      | none => simp [checkConstantData, typesAgree, integerFits,
        SubstitutesWithin, JudgedAlone, nestedValues, Applied, pure_eq_ok]
      | some payload =>
        rw [checkConstantData, checkConstantAs_iff]
        simp [typesAgree, integerFits, SubstitutesWithin, JudgedAlone, nestedValues, Applied,
          levels]
    | _ => cases payload <;> simp [checkConstantData, typesAgree]
  | result payload =>
    cases type with
    | result ok error =>
      cases payload with
      | ok payload | err payload =>
        rw [checkConstantData, checkConstantAs_iff]
        simp [typesAgree, integerFits, SubstitutesWithin, JudgedAlone, nestedValues, Applied,
          levels]
    | _ => cases payload <;> simp [checkConstantData, typesAgree]
  | sequence values =>
    cases type with
    | tuple elements =>
      by_cases hlength : values.length = elements.length
      · simp [checkConstantData, typesAgree, integerFits,
          SubstitutesWithin, JudgedAlone, nestedValues, Applied, levels, bind_eq_ok,
          rejectIf_eq_ok, checkTuple_iff hlength, hlength]
      · simp [checkConstantData, typesAgree, bind_eq_ok, rejectIf_eq_ok, hlength]
    | vector element =>
      simp [checkConstantData, typesAgree, integerFits,
        SubstitutesWithin, JudgedAlone, nestedValues, Applied, levels, bind_eq_ok,
        rejectIf_eq_ok, checkCollectionLen, checkVector_iff]
      tauto
    | _ => simp [checkConstantData, typesAgree]
  | map entries =>
    cases type with
    | orderedMap keyType valueType =>
      simp [checkConstantData, typesAgree, integerFits, SubstitutesWithin, JudgedAlone,
        nestedValues, Applied, levels, bind_eq_ok, rejectIf_eq_ok, checkCollectionLen, checkMap_iff]
      constructor
      · rintro ⟨hcount, traits, htraits, ⟨⟨⟩, hkeys⟩, hform, hnodup, hall⟩
        exact ⟨hform, ⟨hcount, ⟨traits, htraits, hkeys⟩, hnodup⟩, hall⟩
      · rintro ⟨hform, ⟨hcount, ⟨traits, htraits, hkeys⟩, hnodup⟩, hall⟩
        exact ⟨hcount, traits, htraits, ⟨(), hkeys⟩, hform, hnodup, hall⟩
    | _ => simp [checkConstantData, typesAgree]
  | record record =>
    cases type with
    | named named arguments => exact levelOf_record
    | _ => simp [checkConstantData, typesAgree]
  | variant variant =>
    cases type with
    | named named arguments => exact levelOf_variant
    | _ => simp [checkConstantData, typesAgree]

end Levels

/-! ### Admission and judgment -/

/-- A value and all that is inside of it. -/
def Nested : ConstValue → ConstValue → Prop :=
  Relation.ReflTransGen fun outer inner ↦ inner ∈ nestedValues outer

/-- A value directly inside of another, each with the depth at which the checker meets it. -/
def Inside (outer inner : ConstValue × ℕ) : Prop :=
  inner.1 ∈ nestedValues outer.1 ∧ inner.2 = outer.2 + levels outer.1

/-- A value at a depth and all that is inside of it. -/
def NestedAt : ConstValue × ℕ → ConstValue × ℕ → Prop := Relation.ReflTransGen Inside

/-- What is left to the compiler of a value: the judgments on every value inside of it. -/
def LeftToCompiler (value : ConstValue) (depth : ℕ) : Prop :=
  ∀ p, NestedAt (value, depth) p →
    p.2 ≤ maxTypeDepth ∧ SubstitutesWithin types p.1 p.2 ∧ JudgedAlone types p.1

section Judgment

variable {types} {value : ConstValue} {depth : ℕ}

/-- A walk passes a value when each value inside of it passes alone. -/
theorem passes_valueWalk_iff {holds : ConstValue → Bool} :
    (valueWalk holds).passes [value] = true ↔ ∀ v, Nested value v → holds v = true := by
  have hjudges : (valueWalk holds).Judges fun value ↦ ∀ v, Nested value v → holds v = true := by
    intro value
    show (∀ v, Nested value v → holds v = true) ↔
      ∃ found, (if holds value then some (nestedValues value) else none) = some found ∧
        ∀ b ∈ found, ∀ v, Nested b v → holds v = true
    simp only [Nested, Option.ite_none_right_eq_some, Option.some.injEq, and_assoc,
      exists_and_left, exists_eq_left']
    exact forall_reflTransGen_iff
  rw [StackWalk.passes_iff_of_judges hjudges, forall_mem_singleton]

theorem leftToCompiler_iff : LeftToCompiler types value depth ↔
    (depth ≤ maxTypeDepth ∧ SubstitutesWithin types value depth ∧ JudgedAlone types value) ∧
      ∀ v ∈ nestedValues value, LeftToCompiler types v (depth + levels value) := by
  rw [LeftToCompiler, NestedAt, forall_reflTransGen_iff]
  refine and_congr_right fun _ ↦ ⟨fun h v hv ↦ h (v, _) ⟨hv, rfl⟩, fun h ↦ ?_⟩
  rintro ⟨v, depth'⟩ ⟨hv, rfl⟩
  exact h v hv

theorem admitsPackageInput_iff : admitsPackageInput types value = true ↔
    ∀ v, Nested value v → integerFits v = true ∧ typesAgree types v = true := by
  rw [admitsPackageInput, and_eq_true, integersFitDeclaredWidths, nestedTypesAgree,
    passes_valueWalk_iff, passes_valueWalk_iff, forall₂_and]

/-- **The judgment on constants is the admission and what is left to the compiler**, where every
named value has as many arguments as its definition has parameters. -/
theorem checkConstantAs_iff_admitted : types.checkConstantAs value value.valueType depth = .ok () ∧
        (∀ v, Nested value v → Applied types v) ↔
      admitsPackageInput types value = true ∧ LeftToCompiler types value depth := by
  induction value using nestedInduction generalizing depth with
  | step value ih =>
    have hlevel := @levelOf types value depth
    rw [LevelOf] at hlevel
    rw [leftToCompiler_iff, admitsPackageInput_iff, Nested, forall_reflTransGen_iff,
      forall_reflTransGen_iff, checkConstantAs_eq_ok]
    have hinside : (∀ v ∈ nestedValues value,
        types.checkConstantAs v v.valueType (depth + levels value) = .ok ()) ∧
          (∀ v ∈ nestedValues value, ∀ w, Nested v w → Applied types w) ↔
        (∀ v ∈ nestedValues value, ∀ w, Nested v w → integerFits w = true ∧
          typesAgree types w = true) ∧
          ∀ v ∈ nestedValues value, LeftToCompiler types v (depth + levels value) := by
      rw [← forall₂_and, ← forall₂_and]
      refine forall₂_congr fun v hv ↦ ?_
      rw [ih v hv, admitsPackageInput_iff]
    simp only [Nested] at hinside
    tauto

theorem of_recordFieldsAgree {named : EntityId} {record : RecordConst}
    (h : recordFieldsAgree types named arguments record = true) :
    ∃ definition fields, types.definition named = .ok definition ∧
      definition.form = .record fields ∧ definition.typeParameters.length = arguments.length ∧
        fields.length = record.fields.length ∧ ∀ p ∈ fields.zip record.fields,
          instantiatesTo p.1.valueType arguments p.2.value.valueType = true := by
  unfold recordFieldsAgree at h
  split at h
  · cases h
  split at h
  · cases h
  rename_i definition hid
  split at h
  · cases h
  rename_i fields hform
  simp only [and_eq_true, decide_eq_true_eq, all_eq_true] at h
  obtain ⟨harity, hlength, hfields⟩ := h
  exact ⟨definition, fields, hid, hform, harity, hlength, fun p hp ↦ (hfields p hp).2⟩

theorem of_variantPayloadAgrees {named : EntityId} {variant : VariantConst}
    (h : variantPayloadAgrees types named arguments variant = true) :
    ∃ definition cases case, types.definition named = .ok definition ∧
      definition.form = .variant cases ∧ definition.typeParameters.length = arguments.length ∧
        cases.find? (·.memberId = variant.memberId) = some case ∧ ∀ v ∈ variant.payload,
          ∃ type, case.payloadType = some type ∧
            instantiatesTo type arguments v.valueType = true := by
  unfold variantPayloadAgrees at h
  split at h
  · cases h
  split at h
  · cases h
  rename_i definition hid
  split at h
  · cases h
  rename_i cases hform
  split at h
  · cases h
  rename_i harity
  split at h
  · cases h
  rename_i case hcase
  refine ⟨definition, cases, case, hid, hform, not_not.1 harity, hcase, ?_⟩
  intro v hv
  rw [show variant.payload = some v from hv] at h
  cases hpayload : case.payloadType with
  | none =>
    rw [hpayload] at h
    cases h
  | some type =>
    rw [hpayload] at h
    exact ⟨type, rfl, h⟩

theorem inScope_of_instantiatesTo (haccepted : types.Accepted) {id : EntityId}
    {definition : TypeDefinition} (hid : types.definition id = .ok definition)
    (harity : definition.typeParameters.length = arguments.length) {member : TypeExpr}
    (hmember : member ∈ memberTypes definition.form)
    (h : instantiatesTo member arguments actual = true)
    (harguments : ∀ a ∈ arguments, types.InScope 0 a) : types.InScope 0 actual := by
  obtain ⟨-, rfl⟩ := instantiatesTo_iff.1 h
  exact (harity ▸ haccepted.inScope hid hmember).instantiate harguments

/-- The values inside of a value with a type in scope have types in scope, where they have the types
that are declared. -/
theorem inScope_nestedValues (haccepted : types.Accepted) (h : types.InScope 0 value.valueType)
    (hagree : typesAgree types value = true) :
    ∀ v ∈ nestedValues value, types.InScope 0 v.valueType := by
  obtain ⟨type, data⟩ := value
  have hcomponent : ∀ {t : TypeExpr}, t ∈ type.components → types.InScope 0 t := h.of_mem
  cases data with
  | sequence values =>
    cases type with
    | tuple elements =>
      simp only [typesAgree, and_eq_true, decide_eq_true_eq, all_eq_true] at hagree
      obtain ⟨hlength, hall⟩ := hagree
      intro v hv
      rw [← List.map_fst_zip hlength.le] at hv
      obtain ⟨p, hp, rfl⟩ := List.mem_map.1 hv
      rw [hall p hp]
      exact hcomponent (List.of_mem_zip hp).2
    | vector element =>
      simp only [typesAgree, all_eq_true, decide_eq_true_eq] at hagree
      intro v hv
      rw [hagree v hv]
      exact hcomponent List.mem_cons_self
    | _ => simp [typesAgree] at hagree
  | record record =>
    cases type with
    | named named arguments =>
      obtain ⟨definition, fields, hid, hform, harity, hlength, hfields⟩ :=
        of_recordFieldsAgree hagree
      refine List.forall_mem_map.2 fun value hvalue ↦ ?_
      rw [← List.map_snd_zip hlength.ge] at hvalue
      obtain ⟨p, hp, rfl⟩ := List.mem_map.1 hvalue
      refine inScope_of_instantiatesTo haccepted hid harity ?_ (hfields p hp) fun _ ↦ hcomponent
      rw [hform]
      exact List.mem_map_of_mem (List.of_mem_zip hp).1
    | _ => simp [typesAgree] at hagree
  | variant variant =>
    cases type with
    | named named arguments =>
      obtain ⟨definition, cases, case, hid, hform, harity, hcase, hpayload⟩ :=
        of_variantPayloadAgrees hagree
      intro v hv
      obtain ⟨type, htype, hinstance⟩ := hpayload v (Option.mem_toList.1 hv)
      refine inScope_of_instantiatesTo haccepted hid harity ?_ hinstance fun _ ↦ hcomponent
      rw [hform]
      exact List.mem_filterMap.2 ⟨case, List.mem_of_find?_eq_some hcase, htype⟩
    | _ => simp [typesAgree] at hagree
  | map entries =>
    cases type with
    | orderedMap keyType valueType =>
      simp only [typesAgree, all_eq_true, and_eq_true, decide_eq_true_eq] at hagree
      refine List.forall_mem_flatMap.2 fun e he ↦ ?_
      obtain ⟨hkey, hvalue⟩ := hagree e he
      rw [forall_mem_cons, forall_mem_singleton, hkey, hvalue]
      exact ⟨hcomponent (by simp [components]), hcomponent (by simp [components])⟩
    | _ => simp [typesAgree] at hagree
  | option payload =>
    cases type with
    | option element =>
      cases payload with
      | none => simp [nestedValues]
      | some payload =>
        simp only [typesAgree, decide_eq_true_eq] at hagree
        show ∀ v ∈ [payload], types.InScope 0 v.valueType
        rw [forall_mem_singleton, hagree]
        exact hcomponent List.mem_cons_self
    | _ => cases payload <;> simp [typesAgree] at hagree
  | result payload =>
    cases type with
    | result ok error =>
      cases payload with
      | ok payload | err payload =>
        simp only [typesAgree, decide_eq_true_eq] at hagree
        show ∀ v ∈ [payload], types.InScope 0 v.valueType
        rw [forall_mem_singleton, hagree]
        exact hcomponent (by simp [components])
    | _ => cases payload <;> simp [typesAgree] at hagree
  | _ => simp [nestedValues]

theorem applied_of_inScope (h : types.InScope 0 value.valueType) : Applied types value := by
  obtain ⟨type, data⟩ := value
  have happlied : ∀ named arguments, type = .named named arguments → ∀ definition,
      types.definition named = .ok definition →
        definition.typeParameters.length = arguments.length := by
    rintro named arguments rfl definition hdefinition
    obtain ⟨-, definition', hdefinition', harity⟩ := h _ (.refl _)
    obtain rfl := Except.ok.inj (hdefinition.symm.trans hdefinition')
    exact harity.symm
  cases type with
  | named named arguments =>
    cases data with
    | record | variant => exact happlied named arguments rfl
    | _ => trivial
  | _ => trivial

/-- In an environment that the checker has built, every value that is checked has as many arguments
as its definition has parameters. -/
theorem applied_of_checkConstantAs (haccepted : types.Accepted)
    (h : types.checkConstantAs value value.valueType depth = .ok ())
    (hscope : types.InScope 0 value.valueType) : ∀ v, Nested value v → Applied types v := by
  induction value using nestedInduction generalizing depth with
  | step value ih =>
    have happlied : Applied types value := applied_of_inScope hscope
    obtain ⟨-, -, hdata⟩ := checkConstantAs_eq_ok.1 h
    obtain ⟨⟨-, hagree⟩, -, hinside⟩ := (levelOf value depth).1 ⟨hdata, happlied⟩
    refine forall_reflTransGen_iff.2 ⟨happlied, fun v hv ↦ ih v hv (hinside v hv) ?_⟩
    exact inScope_nestedValues haccepted hscope hagree v hv

/-- What the package path leaves to the compiler: a closed and persistable type, and the judgments
on the values inside. -/
structure LanguageJudged (types : TypeCheck.TypeEnvironment) (value : ConstValue) : Prop where
  closed : types.checkClosedType value.valueType = .ok ()
  persistable : ∃ traits, types.traits value.valueType = .ok traits ∧ traits.persistable = true
  left : LeftToCompiler types value 1

theorem checkConstant_eq_ok : types.checkConstant value = .ok () ↔
    types.checkClosedType value.valueType = .ok () ∧
      (∃ traits, types.traits value.valueType = .ok traits ∧ traits.persistable = true) ∧
        types.checkConstantAs value value.valueType 1 = .ok () := by
  simp only [checkConstant, bind_eq_ok, rejectIf_eq_ok,
    exists_iff, Bool.not_eq_true', Bool.not_eq_false]
  constructor
  · rintro ⟨hclosed, traits, htraits, hpersistable, hvalue⟩
    exact ⟨hclosed, ⟨traits, htraits, hpersistable⟩, hvalue⟩
  · rintro ⟨hclosed, ⟨traits, htraits, hpersistable⟩, hvalue⟩
    exact ⟨hclosed, traits, htraits, hpersistable, hvalue⟩

theorem checkConstant_iff_admitted :
    types.checkConstant value = .ok () ∧ (∀ v, Nested value v → Applied types v) ↔
      admitsPackageInput types value = true ∧ LanguageJudged types value := by
  rw [checkConstant_eq_ok]
  constructor
  · rintro ⟨⟨hclosed, hpersistable, hvalue⟩, happlied⟩
    obtain ⟨hadmits, hleft⟩ := checkConstantAs_iff_admitted.1 ⟨hvalue, happlied⟩
    exact ⟨hadmits, hclosed, hpersistable, hleft⟩
  · rintro ⟨hadmits, hclosed, hpersistable, hleft⟩
    obtain ⟨hvalue, happlied⟩ := checkConstantAs_iff_admitted.2 ⟨hadmits, hleft⟩
    exact ⟨⟨hclosed, hpersistable, hvalue⟩, happlied⟩

end Judgment

/-- **The matcher is exact, and the admission of package inputs is the structural part of the
judgment on constants.** `instantiates_to` accepts the instances of its template, and so what the
checker substitutes. In an environment that the checker has built, a constant is judged persistable
exactly when the package path admits it and what that path leaves to the compiler holds; in any
environment, so where named values have as many arguments as their definitions have parameters. -/
theorem admission_of_package_inputs :
    (∀ template arguments actual,
      instantiatesTo template arguments actual = true ↔ Instance arguments template actual) ∧
    (∀ template arguments depth s, substitute arguments template depth = .ok s →
      ∀ actual, instantiatesTo template arguments actual = true ↔ s = actual) ∧
    (∀ definitions types, TypeCheck.TypeEnvironment.new definitions = .ok types →
      ∀ value, types.checkConstant value = .ok () ↔
        admitsPackageInput types value = true ∧ LanguageJudged types value) ∧
    ∀ types value,
      types.checkConstant value = .ok () ∧ (∀ v, Nested value v → Applied types v) ↔
        admitsPackageInput types value = true ∧ LanguageJudged types value := by
  refine ⟨fun template arguments actual ↦ instantiatesTo_iff, ?_, ?_,
    fun types value ↦ checkConstant_iff_admitted⟩
  · intro template arguments depth s hs actual
    obtain ⟨⟨hbelow, hinstance⟩, -⟩ := substitute_eq_ok.1 hs
    rw [instantiatesTo_iff, Instance, hinstance]
    exact and_iff_right hbelow
  · intro definitions types hnew value
    rw [← checkConstant_iff_admitted]
    refine ⟨fun h ↦ ⟨h, ?_⟩, fun h ↦ h.1⟩
    obtain ⟨hclosed, -, hvalue⟩ := checkConstant_eq_ok.1 h
    exact applied_of_checkConstantAs (TypeCheck.TypeEnvironment.accepted_of_new hnew) hvalue
      (TypeCheck.TypeEnvironment.structuralCheckType_of_checkType hclosed).1

/-- A reference to a function at a type that is open. -/
def openReference : ConstValue where
  valueType := .functionRef [] .unit []
  data := .functionRef ⟨Id.splat 1, [.typeParameter 0]⟩

/-- The package path admits it, and no judgment on constants accepts it. -/
theorem not_admission_iff_checkConstant :
    ¬ ∀ definitions types, TypeCheck.TypeEnvironment.new definitions = .ok types →
      ∀ value, admitsPackageInput types value = true ↔ types.checkConstant value = .ok () := by
  intro h
  have hadmits : admitsPackageInput ⟨∅⟩ openReference = true := by
    refine admitsPackageInput_iff.2 (forall_reflTransGen_iff.2 ⟨⟨rfl, rfl⟩, fun v hv ↦ ?_⟩)
    cases hv
  have hcheck := (h [] ⟨∅⟩ rfl openReference).1 hadmits
  obtain ⟨-, -, hvalue⟩ := checkConstant_eq_ok.1 hcheck
  obtain ⟨-, -, hdata⟩ := checkConstantAs_eq_ok.1 hvalue
  obtain ⟨-, ⟨-, -, hclosed⟩, -⟩ := (levelOf openReference 1).1 ⟨hdata, trivial⟩
  have hscope := (TypeCheck.TypeEnvironment.structuralCheckType_of_checkType
    (hclosed _ List.mem_cons_self)).1
  exact Nat.not_lt_zero _ (hscope _ (.refl _))

end Sley.Vm
