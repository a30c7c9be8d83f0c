import Sley.Check.Types

/-!
# The judgment on constants

`check_constant` of `sley-check/src/lib.rs`: a constant must have the shape that its type declares,
all the way down, within the ranges and limits of the type. Two keys of a map must not be the same
constant. **Nothing is said about the order of the entries of a map**, which is the codec's to
establish.
-/

namespace Sley.TypeCheck

open Ssmc hiding TypeEnvironment
open Except (rejectIf)

def maxConstantElements : Nat := 1000000

def maxConstantPayloadBytes : Nat := 16777216

def canonicalF32Nan : UInt32 := 0x7fc00000

def canonicalF64Nan : UInt64 := 0x7ff8000000000000

/-! ### Ranges -/

def checkSignedRange (width : IntegerWidth) (value : BitVec 128) : Result Unit := do
  checkWidth width
  let limit : Int := 2 ^ (width.bits.toNat - 1)
  rejectIf (width.bits ≠ 128 ∧ ¬ (-limit ≤ value.toInt ∧ value.toInt < limit)) .constRange

def checkUnsignedRange (width : IntegerWidth) (value : BitVec 128) : Result Unit := do
  checkWidth width
  rejectIf (width.bits ≠ 128 ∧ ¬ value.toNat < 2 ^ width.bits.toNat) .constRange

def checkF32 (bits : UInt32) : Result Unit := do
  rejectIf (bits = 0x80000000) .floatNonCanonical
  rejectIf (bits &&& 0x7f800000 = 0x7f800000 ∧ bits &&& 0x007fffff ≠ 0 ∧
    bits ≠ canonicalF32Nan) .floatNonCanonical

def checkF64 (bits : UInt64) : Result Unit := do
  rejectIf (bits = 0x8000000000000000) .floatNonCanonical
  rejectIf (bits &&& 0x7ff0000000000000 = 0x7ff0000000000000 ∧
    bits &&& 0x000fffffffffffff ≠ 0 ∧ bits ≠ canonicalF64Nan) .floatNonCanonical

def checkPayloadLen (length : Nat) : Result Unit :=
  rejectIf (length > maxConstantPayloadBytes) .resourceLimit

def checkCollectionLen (length : Nat) : Result Unit :=
  rejectIf (length > maxConstantElements) .resourceLimit

def checkBuiltinFailure (kind : BuiltinFailureKind) (code : UInt16) : Result Unit :=
  let valid := match kind with
    | .arithmetic => 1 ≤ code && code ≤ 3
    | .index => 1 ≤ code && code ≤ 2
    | .duplicateKey | .contractViolation => code = 1
    | .capability => 1 ≤ code && code ≤ 4
  rejectIf (!valid) .builtinFailureInvalid

/-! ### Constants -/

/-- The code of data that is not of the form of its type. -/
def unfitCode : TypeExpr → TypeErrorCode
  | .adapterHandle _ | .capabilityToken _ | .localCell _ | .typeParameter _ => .notPersistable
  | _ => .constShape

namespace TypeEnvironment

variable (env : TypeEnvironment)

mutual

/-- `check_constant_as`: a constant against the type that is expected of it. -/
def checkConstantAs : ConstValue → TypeExpr → Nat → Result Unit
  | ⟨valueType, data⟩, expected, depth => do
    checkDepth depth
    rejectIf (valueType ≠ expected) .implicitCoercion
    checkConstantData data expected depth

/-- The data of a constant, by the type. -/
def checkConstantData : ConstData → TypeExpr → Nat → Result Unit
  | .unit, .unit, _ | .bool _, .bool, _ => return ()
  | .sInt number, .sInt width, _ => checkSignedRange width number
  | .uInt number, .uInt width, _ => checkUnsignedRange width number
  | .f32Bits bits, .f32, _ => checkF32 bits
  | .f64Bits bits, .f64, _ => checkF64 bits
  | .bytes bytes, .bytes, _ => checkPayloadLen bytes.length
  | .text text, .text, _ => checkPayloadLen text.utf8ByteSize
  | .sequence values, .tuple types, depth => do
    rejectIf (values.length ≠ types.length) .constShape
    checkTupleConstant values types (depth + 1)
  | .sequence values, .vector element, depth => do
    checkCollectionLen values.length
    checkVectorConstant values element (depth + 1)
  | .record record, .named id arguments, depth =>
    checkRecordConstant record id arguments (depth + 1)
  | .variant variant, .named id arguments, depth =>
    checkVariantConstant variant id arguments (depth + 1)
  | .map entries, .orderedMap key value, depth => do
    checkCollectionLen entries.length
    requireMapKeyTraits (← env.traits key)
    checkMapConstant [] entries key value (depth + 2)
  | .option none, .option _, _ => return ()
  | .option (some value), .option element, depth => checkConstantAs value element (depth + 1)
  | .result (.ok value), .result ok _, depth => checkConstantAs value ok (depth + 1)
  | .result (.err value), .result _ error, depth => checkConstantAs value error (depth + 1)
  | .functionRef reference, .functionRef _ _ _, _ => do
    rejectIf (reference.typeArguments.length > maxTypeArguments) .argumentLimit
    reference.typeArguments.forM env.checkClosedType
  | .builtinFailure failure, .builtinFailure kind, _ => do
    rejectIf (kind ≠ failure.kind) .constShape
    checkBuiltinFailure failure.kind failure.code
  | _, type, _ => .error (unfitCode type)

def checkTupleConstant : List ConstValue → List TypeExpr → Nat → Result Unit
  | item :: items, type :: types, depth => do
    checkConstantAs item type depth
    checkTupleConstant items types depth
  | _, _, _ => return ()

def checkVectorConstant : List ConstValue → TypeExpr → Nat → Result Unit
  | [], _, _ => return ()
  | item :: items, element, depth => do
    checkConstantAs item element depth
    checkVectorConstant items element depth

def checkRecordConstant : RecordConst → EntityId → List TypeExpr → Nat → Result Unit
  | ⟨recordDefinition, values⟩, id, arguments, depth => do
    rejectIf (id ≠ recordDefinition) .implicitCoercion
    let definition ← env.definition id
    match definition.form with
    | .variant _ => .error .constShape
    | .record fields =>
      rejectIf (fields.length ≠ values.length) .constShape
      checkFieldConstants values fields arguments (depth + 1)

def checkVariantConstant : VariantConst → EntityId → List TypeExpr → Nat → Result Unit
  | ⟨variantDefinition, memberId, payload⟩, id, arguments, depth => do
    rejectIf (id ≠ variantDefinition) .implicitCoercion
    let definition ← env.definition id
    match definition.form with
    | .record _ => .error .constShape
    | .variant cases =>
      let case ← Except.ofOption .memberUnknown (cases.find? (·.memberId = memberId))
      checkPayloadConstant payload case.payloadType arguments (depth + 1)

def checkPayloadConstant : Option ConstValue → Option TypeExpr → List TypeExpr → Nat → Result Unit
  | none, none, _, _ => return ()
  | some value, some expected, arguments, depth => do
    let expected ← substitute arguments expected depth
    checkConstantAs value expected depth
  | _, _, _, _ => .error .constShape

/-- The fields of a record with those of its definition. -/
def checkFieldConstants : List FieldConst → List RecordField → List TypeExpr → Nat → Result Unit
  | ⟨memberId, value⟩ :: values, field :: fields, arguments, depth => do
    rejectIf (field.memberId ≠ memberId) .memberUnknown
    let fieldType ← substitute arguments field.valueType depth
    checkConstantAs value fieldType depth
    checkFieldConstants values fields arguments depth
  | _, _, _, _ => return ()

/-- The entries of a map, behind the keys that have been checked. -/
def checkMapConstant : List ConstValue → List MapEntryConst → TypeExpr → TypeExpr → Nat →
    Result Unit
  | _, [], _, _, _ => return ()
  | previous, ⟨key, value⟩ :: entries, keyType, valueType, depth => do
    checkConstantAs key keyType depth
    checkConstantAs value valueType depth
    rejectIf (key ∈ previous) .constDuplicateKey
    checkMapConstant (previous ++ [key]) entries keyType valueType depth

end

/-- `check_constant`: one persistable constant against its own type. -/
def checkConstant (value : ConstValue) : Result Unit := do
  env.checkClosedType value.valueType
  let traits ← env.traits value.valueType
  rejectIf (!traits.persistable) .notPersistable
  env.checkConstantAs value value.valueType 1

/-! ### Maps that are admitted -/

variable {env} {previous : List ConstValue} {entries : List MapEntryConst}
  {keyType valueType : TypeExpr} {depth : Nat}

end TypeEnvironment

end Sley.TypeCheck
