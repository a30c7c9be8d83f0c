import Sley.Check.Graphs
import Sley.Lib.PointwiseOrder
import Sley.Lib.SortUnique
import Sley.Ssmc.Occurs

/-!
# The allowed scopes of a requirement

What `compare_const_values` looks at, in the order in which it does, is written down as a key of
each type and of each constant: the tag, then numbers, identities and the types or constants inside.
**The comparison is that of the keys, and the keys tell everything apart**, so it is a total order
by induction over the tree. A list of allowed scopes that is accepted ascends in it: nothing in it
repeats, and no other arrangement of the same scopes is accepted anywhere.
-/

namespace Sley.Check

open Ssmc
open List (compareLex compareLex_cons_cons compareLex_nil_nil map_cons mem_map mem_singleton)
open Ordering (eq_then then_eq)
open ConstData (tag)
open Except (bind_eq_ok forM_eq_ok)

/-! ### Types -/

theorem compareTypeLists_eq (as bs : List TypeExpr) :
    compareTypeLists as bs = compareLex compareTypes as bs := by
  induction as generalizing bs with
  | nil => cases bs <;> rfl
  | cons a as ih =>
    cases bs with
    | nil => rfl
    | cons b bs => rw [compareTypeLists, ih, compareLex_cons_cons]

/-- What is compared of a type: its tag, a number, an identity, the types inside, the effects. -/
abbrev TypeKey := (((UInt32 × List Nat) × List EntityId) × List (List TypeExpr)) × List EntityId

def typeKey (t : TypeExpr) : TypeKey :=
  match t with
  | .sInt width | .uInt width => ((((t.tag, [width.bits.toNat]), []), []), [])
  | .tuple items => ((((t.tag, []), []), [items]), [])
  | .named definition arguments => ((((t.tag, []), [definition]), [arguments]), [])
  | .vector element | .option element | .localCell element => ((((t.tag, []), []), [[element]]), [])
  | .orderedMap a b | .result a b => ((((t.tag, []), []), [[a], [b]]), [])
  | .functionRef parameters returned effects =>
    ((((t.tag, []), []), [parameters, [returned]]), effects)
  | .adapterHandle id | .capabilityToken id => ((((t.tag, []), [id]), []), [])
  | .typeParameter ordinal => ((((t.tag, [ordinal.toNat]), []), []), [])
  | .builtinFailure kind => ((((t.tag, [kind.tag.toNat]), []), []), [])
  | .unit | .bool | .f32 | .f64 | .bytes | .text => ((((t.tag, []), []), []), [])

def compareTypeKeys (p q : TypeKey) : Ordering :=
  ((((compare p.1.1.1.1 q.1.1.1.1).then (compare p.1.1.1.2 q.1.1.1.2)).then
    (compare p.1.1.2 q.1.1.2)).then
      (compareLex (compareLex compareTypes) p.1.2 q.1.2)).then (compare p.2 q.2)

theorem compareTypes_eq (a b : TypeExpr) :
    compareTypes a b = compareTypeKeys (typeKey a) (typeKey b) := by
  cases a <;> cases b <;> first
    | rfl
    | simp [compareTypes, compareTypeKeys, typeKey, TypeExpr.tag, compareTypeLists_eq,
        compareLex_cons_cons, compareLex_nil_nil, Ordering.then_assoc,
        UInt16.compare_eq_toNat_compare_toNat, UInt32.compare_eq_toNat_compare_toNat]

theorem bits_inj {a b : IntegerWidth} : a.bits = b.bits ↔ a = b := by
  cases a
  cases b
  simp

theorem failureTag_inj {a b : BuiltinFailureKind} : a.tag = b.tag ↔ a = b := by
  cases a <;> cases b <;> decide

theorem typeKey_injective : Function.Injective typeKey := by
  intro a b h
  cases a <;> cases b <;> simp [typeKey, TypeExpr.tag] at h <;>
    simp_all [UInt16.toNat_inj, UInt32.toNat_inj, bits_inj, failureTag_inj]

/-- Every list of types in the key is one of components. -/
theorem mem_components_of_typeKey {t s : TypeExpr} {ts : List TypeExpr} (h : ts ∈ (typeKey t).1.2)
    (hs : s ∈ ts) : s ∈ t.components := by
  cases t <;> simp only [typeKey, TypeExpr.components, List.mem_cons, List.not_mem_nil, or_false,
    List.mem_append] at h ⊢ <;> rcases h with rfl | rfl <;> simp_all

theorem orderAt_compareTypes (t : TypeExpr) : OrderAt compareTypes t := by
  induction t using TypeExpr.inductionOn with
  | step t ih =>
    have hkey : OrderAt compareTypeKeys (typeKey t) := by
      refine .lex (.lex (.lex (.lex (.compare _) (.compare _)) (.compare _)) ?_) (.compare _)
      refine .list fun ts hts ↦ .list fun s hs ↦ ih s (mem_components_of_typeKey hts hs)
    have hcomap := hkey.comap typeKey_injective
    rwa [← funext₂ compareTypes_eq] at hcomap

/-! ### Constants -/

/-- The members named by a part of a constant and the constants in it. -/
abbrev ConstPart := List MemberId × List ConstValue

def fieldPart (field : FieldConst) : ConstPart := ([field.memberId], [field.value])

def entryPart (entry : MapEntryConst) : ConstPart := ([], [entry.key, entry.value])

def valuePart (value : ConstValue) : ConstPart := ([], [value])

def compareParts (p q : ConstPart) : Ordering :=
  (compare p.1 q.1).then (compareLex compareConstValues p.2 q.2)

theorem compare_singleton (a b : MemberId) : compare [a] [b] = compare a b := by
  rw [List.compare_cons_cons, List.compare_nil_nil, then_eq]

theorem compareConstLists_eq (as bs : List ConstValue) :
    compareConstLists as bs = compareLex compareParts (as.map valuePart) (bs.map valuePart) := by
  induction as generalizing bs with
  | nil =>
    rw [compareConstLists.eq_def]
    cases bs <;> rfl
  | cons a as ih =>
    rw [compareConstLists.eq_def]
    cases bs with
    | nil => rfl
    | cons b bs =>
      simp only [ih, map_cons, compareLex_cons_cons, compareLex_nil_nil,
        compareParts, valuePart, then_eq, Std.ReflCmp.compare_self, eq_then]

theorem compareFieldLists_eq (as bs : List FieldConst) :
    compareFieldLists as bs = compareLex compareParts (as.map fieldPart) (bs.map fieldPart) := by
  induction as generalizing bs with
  | nil =>
    rw [compareFieldLists.eq_def]
    cases bs <;> rfl
  | cons a as ih =>
    rw [compareFieldLists.eq_def]
    cases bs with
    | nil => rfl
    | cons b bs =>
      obtain ⟨first, value⟩ := a
      obtain ⟨first', value'⟩ := b
      simp only [ih, map_cons, compareLex_cons_cons, compareLex_nil_nil,
        compareParts, fieldPart, then_eq, compare_singleton]

theorem compareEntryLists_eq (as bs : List MapEntryConst) :
    compareEntryLists as bs = compareLex compareParts (as.map entryPart) (bs.map entryPart) := by
  induction as generalizing bs with
  | nil =>
    rw [compareEntryLists.eq_def]
    cases bs <;> rfl
  | cons a as ih =>
    rw [compareEntryLists.eq_def]
    cases bs with
    | nil => rfl
    | cons b bs =>
      obtain ⟨first, value⟩ := a
      obtain ⟨first', value'⟩ := b
      simp only [ih, map_cons, compareLex_cons_cons, compareLex_nil_nil,
        compareParts, entryPart, then_eq, Std.ReflCmp.compare_self, eq_then]

theorem compareConstOptions_eq (a b : Option ConstValue) : compareConstOptions a b =
      compareLex compareParts (a.toList.map valuePart) (b.toList.map valuePart) := by
  rw [← compareConstLists_eq, compareConstOptions.eq_def, compareConstLists.eq_def]
  cases a <;> cases b <;> simp [compareConstLists]

/-- What is compared of constant data: its tag, numbers, octets, identities, a member, the types and
the constants inside. -/
abbrev ConstKey :=
  ((((((UInt32 × List Nat) × List Int) × Scb1.Bytes) × List EntityId) × List MemberId) ×
    List TypeExpr) × List ConstPart

def constKey (data : ConstData) : ConstKey :=
  match data with
  | .unit => (((((((data.tag, []), []), []), []), []), []), [])
  | .bool value => (((((((data.tag, [value.toNat]), []), []), []), []), []), [])
  | .sInt value => (((((((data.tag, []), [value.toInt]), []), []), []), []), [])
  | .uInt value => (((((((data.tag, [value.toNat]), []), []), []), []), []), [])
  | .f32Bits bits => (((((((data.tag, [bits.toNat]), []), []), []), []), []), [])
  | .f64Bits bits => (((((((data.tag, [bits.toNat]), []), []), []), []), []), [])
  | .bytes value => (((((((data.tag, []), []), value), []), []), []), [])
  | .text value => (((((((data.tag, []), []), value.toByteArray.data.toList), []), []), []), [])
  | .sequence values => (((((((data.tag, []), []), []), []), []), []), values.map valuePart)
  | .record value =>
    (((((((data.tag, []), []), []), [value.definition]), []), []), value.fields.map fieldPart)
  | .variant value =>
    (((((((data.tag, []), []), []), [value.definition]), [value.memberId]), []),
      value.payload.toList.map valuePart)
  | .map entries => (((((((data.tag, []), []), []), []), []), []), entries.map entryPart)
  | .option value => (((((((data.tag, []), []), []), []), []), []), value.toList.map valuePart)
  | .result value =>
    (((((((data.tag, [value.tag.toNat]), []), []), []), []), []),
      match value with | .ok value | .err value => [valuePart value])
  | .functionRef value =>
    (((((((data.tag, []), []), []), [value.function]), []), value.typeArguments), [])
  | .builtinFailure value =>
    (((((((data.tag, [value.kind.tag.toNat, value.code.toNat]), []), []), []), []), []), [])

def compareConstKeys (p q : ConstKey) : Ordering :=
  (((((((compare p.1.1.1.1.1.1.1 q.1.1.1.1.1.1.1).then
    (compare p.1.1.1.1.1.1.2 q.1.1.1.1.1.1.2)).then (compare p.1.1.1.1.1.2 q.1.1.1.1.1.2)).then
      (compare p.1.1.1.1.2 q.1.1.1.1.2)).then (compare p.1.1.1.2 q.1.1.1.2)).then
        (compare p.1.1.2 q.1.1.2)).then (compareLex compareTypes p.1.2 q.1.2)).then
          (compareLex compareParts p.2 q.2)

theorem compareConstData_of_tag_ne {a b : ConstData} (h : a.tag ≠ b.tag) :
    compareConstData a b = compare a.tag b.tag := by
  rw [compareConstData.eq_def]
  split <;> first | rfl | exact absurd rfl h

theorem tag_constKey (a : ConstData) : (constKey a).1.1.1.1.1.1.1 = a.tag := by cases a <;> rfl

theorem compareConstKeys_of_tag_ne {p q : ConstKey}
    (h : p.1.1.1.1.1.1.1 ≠ q.1.1.1.1.1.1.1) :
    compareConstKeys p q = compare p.1.1.1.1.1.1.1 q.1.1.1.1.1.1.1 := by
  have hne : compare p.1.1.1.1.1.1.1 q.1.1.1.1.1.1.1 ≠ .eq :=
    fun heq ↦ h (Std.LawfulEqCmp.eq_of_compare heq)
  rw [compareConstKeys]
  revert hne
  cases compare p.1.1.1.1.1.1.1 q.1.1.1.1.1.1.1 <;> simp

theorem compareConstData_result (a b : ResultConst) : compareConstData (.result a) (.result b) =
      compareConstKeys (constKey (.result a)) (constKey (.result b)) := by
  cases a <;> cases b <;> rw [compareConstData] <;>
    simp [compareConstKeys, constKey, tag, ResultConst.tag, compareParts, valuePart,
      compareLex_cons_cons, compareLex_nil_nil] <;> rfl

theorem compareConstData_eq (a b : ConstData) :
    compareConstData a b = compareConstKeys (constKey a) (constKey b) := by
  by_cases htag : a.tag = b.tag
  · cases a <;> cases b <;> simp [tag] at htag
    case bool a b =>
      rw [compareConstData]
      cases a <;> cases b <;> rfl
    case result a b => exact compareConstData_result a b
    case record a b =>
      cases a
      cases b
      simp [compareConstData, compareConstKeys, constKey, tag, compareFieldLists_eq,
        compareLex_nil_nil]
    case variant a b =>
      cases a
      cases b
      simp [compareConstData, compareConstKeys, constKey, tag, compareConstOptions_eq,
        compareLex_nil_nil]
    all_goals simp [compareConstData, compareConstKeys, constKey, tag,
      compareTypeLists_eq, compareConstLists_eq, compareEntryLists_eq, compareConstOptions_eq,
      compareLex_nil_nil, UInt16.compare_eq_toNat_compare_toNat,
      UInt32.compare_eq_toNat_compare_toNat, UInt64.compare_eq_toNat_compare_toNat]
  · rw [compareConstData_of_tag_ne htag, compareConstKeys_of_tag_ne, tag_constKey, tag_constKey]
    rwa [tag_constKey, tag_constKey]

theorem valueParts_inj {as bs : List ConstValue} :
    as.map valuePart = bs.map valuePart ↔ as = bs := by
  refine (List.map_injective_iff.2 fun a b h ↦ ?_).eq_iff
  simpa [valuePart] using h

theorem payloadParts_inj {a b : Option ConstValue} :
    a.toList.map valuePart = b.toList.map valuePart ↔ a = b := by
  rw [valueParts_inj]
  cases a <;> cases b <;> simp

theorem fieldParts_inj {as bs : List FieldConst} :
    as.map fieldPart = bs.map fieldPart ↔ as = bs := by
  refine (List.map_injective_iff.2 ?_).eq_iff
  rintro ⟨member, value⟩ ⟨member', value'⟩ h
  simpa [fieldPart] using h

theorem entryParts_inj {as bs : List MapEntryConst} :
    as.map entryPart = bs.map entryPart ↔ as = bs := by
  refine (List.map_injective_iff.2 ?_).eq_iff
  rintro ⟨key, value⟩ ⟨key', value'⟩ h
  simpa [entryPart] using h

theorem constKey_injective : Function.Injective constKey := by
  intro a b h
  have htag : a.tag = b.tag := by rw [← tag_constKey, ← tag_constKey, h]
  cases a <;> cases b <;> simp [tag] at htag
  case bool a b => cases a <;> cases b <;> simp_all [constKey]
  case text =>
    simp [constKey, tag] at h
    exact congrArg _ (String.toByteArray_inj.1 (ByteArray.ext h))
  case sInt => exact congrArg _ (BitVec.eq_of_toInt_eq (by simpa [constKey, tag] using h))
  case uInt => exact congrArg _ (BitVec.eq_of_toNat_eq (by simpa [constKey, tag] using h))
  case sequence => simpa [constKey, tag, valueParts_inj] using h
  case map => simpa [constKey, tag, entryParts_inj] using h
  case option => simpa [constKey, tag, payloadParts_inj] using h
  case record a b =>
    cases a
    cases b
    simpa [constKey, tag, fieldParts_inj] using h
  case variant a b =>
    cases a
    cases b
    simpa [constKey, tag, payloadParts_inj, and_assoc] using h
  case result a b => cases a <;> cases b <;> simp_all [constKey, ResultConst.tag, valuePart]
  case functionRef a b =>
    cases a
    cases b
    simpa [constKey, tag] using h
  case builtinFailure a b =>
    cases a
    cases b
    simpa [constKey, tag, UInt16.toNat_inj, failureTag_inj] using h
  all_goals simp_all [constKey, UInt32.toNat_inj, UInt64.toNat_inj]

/-- The constants inside the parts of a constant are smaller than it. -/
theorem sizeOf_lt_of_mem_parts {a : ConstData} {part : ConstPart} {value : ConstValue}
    (h : part ∈ (constKey a).2) (hvalue : value ∈ part.2) : sizeOf value < sizeOf a := by
  cases a with
  | sequence values =>
    obtain ⟨v, hv, rfl⟩ := mem_map.1 h
    obtain rfl := mem_singleton.1 hvalue
    have := List.sizeOf_lt_of_mem hv
    simp only [ConstData.sequence.sizeOf_spec]
    omega
  | record record =>
    obtain ⟨f, hf, rfl⟩ := mem_map.1 h
    obtain rfl := mem_singleton.1 hvalue
    have := List.sizeOf_lt_of_mem hf
    cases record
    cases f
    simp only [ConstData.record.sizeOf_spec, RecordConst.mk.sizeOf_spec,
      FieldConst.mk.sizeOf_spec] at this ⊢
    omega
  | variant variant =>
    obtain ⟨v, hv, rfl⟩ := mem_map.1 h
    obtain rfl := mem_singleton.1 hvalue
    obtain ⟨definition, member, payload⟩ := variant
    obtain rfl := Option.mem_toList.1 hv
    simp only [ConstData.variant.sizeOf_spec, VariantConst.mk.sizeOf_spec, Option.some.sizeOf_spec]
    omega
  | map entries =>
    obtain ⟨⟨key, v⟩, hv, rfl⟩ := mem_map.1 h
    have := List.sizeOf_lt_of_mem hv
    simp only [ConstData.map.sizeOf_spec, MapEntryConst.mk.sizeOf_spec] at this ⊢
    obtain rfl | hvalue := List.mem_cons.1 hvalue
    · omega
    · obtain rfl := mem_singleton.1 hvalue
      omega
  | option option =>
    obtain ⟨v, hv, rfl⟩ := mem_map.1 h
    obtain rfl := mem_singleton.1 hvalue
    obtain rfl := Option.mem_toList.1 hv
    simp only [ConstData.option.sizeOf_spec, Option.some.sizeOf_spec]
    omega
  | result result =>
    cases result <;> obtain rfl := mem_singleton.1 h <;>
      obtain rfl := mem_singleton.1 hvalue <;> simp <;> omega
  | _ => exact (List.not_mem_nil h).elim

theorem compareConstValues_eq (a b : ConstValue) : compareConstValues a b =
      (compareTypes a.valueType b.valueType).then (compareConstData a.data b.data) := by
  cases a
  cases b
  rw [compareConstValues]

theorem orderAt_compareConstValues (a : ConstValue) : OrderAt compareConstValues a := by
  obtain ⟨type, data⟩ := a
  have hparts : ∀ part ∈ (constKey data).2, OrderAt compareParts part := fun part hpart ↦
    .lex (.compare _) (.list fun value hvalue ↦ orderAt_compareConstValues value)
  have hkey : OrderAt compareConstKeys (constKey data) :=
    .lex (.lex (.lex (.lex (.lex (.lex (.lex (.compare _) (.compare _)) (.compare _)) (.compare _))
      (.compare _)) (.compare _)) (.list fun t _ ↦ orderAt_compareTypes t)) (.list hparts)
  have hdata : OrderAt compareConstData data := by
    rw [funext₂ compareConstData_eq]
    exact hkey.comap constKey_injective
  rw [funext₂ compareConstValues_eq]
  refine OrderAt.comap (f := fun value : ConstValue ↦ (value.valueType, value.data)) ?_
    (OrderAt.lex (orderAt_compareTypes type) hdata)
  rintro ⟨type, data⟩ ⟨type', data'⟩ h
  simpa using h
termination_by sizeOf a
decreasing_by
  have := sizeOf_lt_of_mem_parts hpart hvalue
  simp only [ConstValue.mk.sizeOf_spec]
  omega

/-! ### The scopes of a requirement -/

/-- The scopes of a requirement that is accepted ascend. -/
theorem allowedScopes_ascend {ε : Type} {types : EffectTypes ε} {index : ProgramIndex}
    {id : EntityId} {requirement : CapabilityRequirement}
    (h : validateRequirements types index = .ok ())
    (hrequirement : index.requirements[id]? = some requirement) :
    requirement.allowedScopes.Pairwise (compareConstValues · · = .lt) := by
  have hmem := EntityMap.mem_intoValues_iff.2 ⟨id, hrequirement⟩
  obtain ⟨effect, -, h⟩ := bind_eq_ok.1 (forM_eq_ok.1 h requirement hmem)
  obtain ⟨-, -, h⟩ := bind_eq_ok.1 h
  obtain ⟨-, -, h⟩ := bind_eq_ok.1 h
  obtain ⟨last, h, -⟩ := bind_eq_ok.1 h
  have := OrderAt.transCmp orderAt_compareConstValues
  have : IsTrans ConstValue (compareConstValues · · = .lt) :=
    ⟨fun _ _ _ hab hbc ↦ Std.TransCmp.lt_trans hab hbc⟩
  refine List.isChain_iff_pairwise.1 (Except.isChain_of_foldlM (fun previous scope next hstep ↦ ?_) h)
  obtain ⟨-, -, hstep⟩ := bind_eq_ok.1 hstep
  obtain ⟨-, -, hstep⟩ := bind_eq_ok.1 hstep
  obtain ⟨_, hguard, hstep⟩ := bind_eq_ok.1 hstep
  refine ⟨(Except.ok.inj hstep).symm, fun value hvalue ↦ ?_⟩
  by_contra hne
  exact Except.rejectIf_eq_ok.1 hguard ⟨value, hvalue, hne⟩

/-- **Constants are totally ordered, and allowed scopes are accepted in one arrangement only.** -/
theorem compareConstValues_total_order :
    (∀ a, (compareConstValues a a).isLE) ∧
    (∀ a b, (compareConstValues a b).isLE → (compareConstValues b a).isLE → a = b) ∧
    (∀ a b c, (compareConstValues a b).isLE → (compareConstValues b c).isLE →
      (compareConstValues a c).isLE) ∧
    (∀ a b, compareConstValues a b = (compareConstValues b a).swap) ∧
    (∀ a b, compareConstValues a b = .eq ↔ a = b) ∧
    ∀ {ε : Type} (types : EffectTypes ε) (index : ProgramIndex),
      validateRequirements types index = .ok () →
      ∀ (id : EntityId) (requirement : CapabilityRequirement),
        index.requirements[id]? = some requirement →
        requirement.allowedScopes.Nodup ∧
        ∀ {ε' : Type} (types' : EffectTypes ε') (index' : ProgramIndex),
          validateRequirements types' index' = .ok () →
          ∀ (id' : EntityId) (requirement' : CapabilityRequirement),
            index'.requirements[id']? = some requirement' →
            (∀ scope, scope ∈ requirement'.allowedScopes ↔ scope ∈ requirement.allowedScopes) →
            requirement'.allowedScopes = requirement.allowedScopes := by
  have htrans := OrderAt.transCmp orderAt_compareConstValues
  have hlawful := OrderAt.lawfulEqCmp orderAt_compareConstValues
  refine ⟨fun a ↦ ?_, fun a b hab hba ↦ ?_, fun a b c ↦ Std.TransCmp.isLE_trans,
    fun a b ↦ Std.OrientedCmp.eq_swap, fun a b ↦ Std.LawfulEqCmp.compare_eq_iff_eq, ?_⟩
  · rw [(orderAt_compareConstValues a).self]
    rfl
  · exact Std.LawfulEqCmp.eq_of_compare (Std.OrientedCmp.isLE_antisymm hab hba)
  intro ε types index haccepted id requirement hrequirement
  let : Ord ConstValue := ⟨compareConstValues⟩
  have : Std.TransOrd ConstValue := htrans
  have hascends : Ascends (fun scope ↦ scope) requirement.allowedScopes :=
    allowedScopes_ascend haccepted hrequirement
  refine ⟨by simpa using hascends.nodup_keys, ?_⟩
  intro ε' types' index' haccepted' id' requirement' hrequirement' hmem
  have hascends' : Ascends (fun scope ↦ scope) requirement'.allowedScopes :=
    allowedScopes_ascend haccepted' hrequirement'
  exact hascends'.eq_of_mem_iff hascends hmem

/-! ### Two scopes of one requirement -/

namespace TwoScopes

/-- Judgments that take every type and every constant as well formed. -/
def judgments : EffectTypes Unit where
  definition _ := .error ()
  checkType _ _ := .ok ()
  persistable _ := .ok true
  instantiateInScope type _ _ := .ok type
  requirePersistable _ := .ok ()
  checkConstant _ := .ok ()

def flag (value : Bool) : ConstValue := ⟨.bool, .bool value⟩

def requirement : CapabilityRequirement := ⟨.splat 2, .splat 1, [flag false, flag true], []⟩

def program : ProgramIndex where
  units := []
  functions := ∅
  effects := (∅ : EntityMap EffectDefinition).insert (.splat 1)
    ⟨.splat 1, .clockRead, .bool, .unit, .unit, .unit⟩
  requirements := (∅ : EntityMap CapabilityRequirement).insert (.splat 2) requirement
  adapters := ∅
  contracts := ∅
  allIds := ∅

theorem compare_flags : compareConstValues (flag false) (flag true) = .lt := by
  rw [compareConstValues_eq, flag, flag, compareConstData]
  rfl

theorem requirements_program : program.requirements[(.splat 2 : EntityId)]? = some requirement := by
  rw [program, EntityMap.getElem?_insert_eq, if_pos rfl]

/-- The scopes ascend and have the type of their effect. -/
theorem accepted : validateRequirements judgments program = .ok () := by
  refine forM_eq_ok.2 fun value hvalue ↦ ?_
  obtain ⟨id, hid⟩ := EntityMap.mem_intoValues_iff.1 hvalue
  rw [program, EntityMap.getElem?_insert_eq] at hid
  split at hid
  · obtain rfl := Option.some.inj hid
    have heffect : program.effects[(.splat 1 : EntityId)]? =
        some ⟨.splat 1, .clockRead, .bool, .unit, .unit, .unit⟩ := by
      rw [program, EntityMap.getElem?_insert_eq, if_pos rfl]
    have hflag : ∀ value, (flag value).valueType = .bool := fun _ ↦ rfl
    simp [requirement, lookupEntity, heffect, ensureSorted, effectRejectIf, Except.rejectIf,
      judgments, typeJudged, Except.mapError, hflag, compare_flags]
  · simp at hid

end TwoScopes

open TwoScopes in
/-- No program is accepted with the two scopes in the other order. -/
theorem compareConstValues_total_order_twoScopes :
    ∀ (index : ProgramIndex), validateRequirements judgments index = .ok () →
      ∀ (id : EntityId) (other : CapabilityRequirement), index.requirements[id]? = some other →
        other.allowedScopes ≠ [flag true, flag false] := by
  intro index haccepted id other hother hswapped
  have hunique := (compareConstValues_total_order.2.2.2.2.2 judgments program accepted (.splat 2)
    requirement requirements_program).2 judgments index haccepted id other hother
  rw [hswapped] at hunique
  have := hunique (by simp [requirement, or_comm])
  simp [requirement, flag] at this

end Sley.Check
