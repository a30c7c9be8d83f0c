import Sley.Ssmc.Definitions
import Sley.Ssmc.Order

/-!
# The order of constants

`compare_const_values` of `sley-check/src/effects.rs`, by which the allowed scopes of a requirement
are sorted: types and data by their tag, then by what they hold, from left to right. Lists are
compared item by item and a proper prefix comes first. **Where the tags differ nothing else is
looked at**, which is the last case of each comparison here.
-/

namespace Sley.Check

open Ssmc

mutual

def compareTypes : TypeExpr → TypeExpr → Ordering
  | .sInt a, .sInt b | .uInt a, .uInt b => compare a.bits b.bits
  | .tuple as, .tuple bs => compareTypeLists as bs
  | .named a as, .named b bs => (compare a b).then (compareTypeLists as bs)
  | .vector a, .vector b | .option a, .option b | .localCell a, .localCell b => compareTypes a b
  | .orderedMap a a', .orderedMap b b' | .result a a', .result b b' =>
    (compareTypes a b).then (compareTypes a' b')
  | .functionRef as a effects, .functionRef bs b effects' =>
    ((compareTypeLists as bs).then (compareTypes a b)).then (compare effects effects')
  | .adapterHandle a, .adapterHandle b | .capabilityToken a, .capabilityToken b => compare a b
  | .typeParameter a, .typeParameter b => compare a b
  | .builtinFailure a, .builtinFailure b => compare a.tag b.tag
  | a, b => compare a.tag b.tag

def compareTypeLists : List TypeExpr → List TypeExpr → Ordering
  | [], [] => .eq
  | [], _ :: _ => .lt
  | _ :: _, [] => .gt
  | a :: as, b :: bs => (compareTypes a b).then (compareTypeLists as bs)

end

mutual

def compareConstValues : ConstValue → ConstValue → Ordering
  | ⟨type, a⟩, ⟨type', b⟩ => (compareTypes type type').then (compareConstData a b)

def compareConstData : ConstData → ConstData → Ordering
  | .bool a, .bool b => compare a b
  | .sInt a, .sInt b => compare a.toInt b.toInt
  | .uInt a, .uInt b => compare a.toNat b.toNat
  | .f32Bits a, .f32Bits b => compare a b
  | .f64Bits a, .f64Bits b => compare a b
  | .bytes a, .bytes b => compare a b
  | .text a, .text b => compare a.toByteArray.data.toList b.toByteArray.data.toList
  | .sequence as, .sequence bs => compareConstLists as bs
  | .record ⟨a, as⟩, .record ⟨b, bs⟩ => (compare a b).then (compareFieldLists as bs)
  | .variant ⟨a, member, payload⟩, .variant ⟨b, member', payload'⟩ =>
    ((compare a b).then (compare member member')).then (compareConstOptions payload payload')
  | .map as, .map bs => compareEntryLists as bs
  | .option a, .option b => compareConstOptions a b
  | .result (.ok a), .result (.ok b) | .result (.err a), .result (.err b) =>
    compareConstValues a b
  | .result a, .result b => compare a.tag b.tag
  | .functionRef a, .functionRef b =>
    (compare a.function b.function).then (compareTypeLists a.typeArguments b.typeArguments)
  | .builtinFailure a, .builtinFailure b =>
    (compare a.kind.tag b.kind.tag).then (compare a.code b.code)
  | a, b => compare a.tag b.tag

def compareConstLists : List ConstValue → List ConstValue → Ordering
  | [], [] => .eq
  | [], _ :: _ => .lt
  | _ :: _, [] => .gt
  | a :: as, b :: bs => (compareConstValues a b).then (compareConstLists as bs)

def compareFieldLists : List FieldConst → List FieldConst → Ordering
  | [], [] => .eq
  | [], _ :: _ => .lt
  | _ :: _, [] => .gt
  | ⟨member, a⟩ :: as, ⟨member', b⟩ :: bs =>
    ((compare member member').then (compareConstValues a b)).then (compareFieldLists as bs)

def compareEntryLists : List MapEntryConst → List MapEntryConst → Ordering
  | [], [] => .eq
  | [], _ :: _ => .lt
  | _ :: _, [] => .gt
  | ⟨key, a⟩ :: as, ⟨key', b⟩ :: bs =>
    ((compareConstValues key key').then (compareConstValues a b)).then (compareEntryLists as bs)

def compareConstOptions : Option ConstValue → Option ConstValue → Ordering
  | none, none => .eq
  | none, some _ => .lt
  | some _, none => .gt
  | some a, some b => compareConstValues a b

end

end Sley.Check
