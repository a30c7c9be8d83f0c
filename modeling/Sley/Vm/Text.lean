import Sley.Check.Graphs
import Sley.Lib.TextSlice
import Sley.Vm.Borrowed

/-!
# The text entries

The seven pure operations on texts of `sley-vm/src/text.rs`. A text is an exact sequence of Unicode
scalars, and every count, index and length is one of scalars; a slice turns its two indices into
byte offsets by walking the text once. An entry ends with its response or with a typed refusal, and
**the operands are checked again before it starts**.

An index is held to the addresses of the machine, which has 64 bits. Slicing a text inside of a
scalar would stop the program where the source does; it is an outcome of its own here.
-/

namespace Sley.Vm

open Ssmc
open Check (TextKind textRowTypes pureIndexError)

def textMaxBytes : Nat := 16777216

def outOfRangeCode : UInt16 := 1

def bridgeCapacityCode : UInt16 := 2

/-- The fields of the frozen row of an entry that its execution looks at. -/
def textImport (kind : TextKind) : AdapterImport where
  requestType := (textRowTypes kind).2.1
  responseType := (textRowTypes kind).2.2
  failureType := pureIndexError

/-- Why an entry does not end with a value. -/
inductive TextStop
  /-- `ExtendedFault`. -/
  | fault
  /-- A slice of a string that is not at the boundaries of its scalars. -/
  | panicked
  deriving DecidableEq

/-- What an entry comes to: its response, or the code of its refusal. -/
abbrev TextOutcome := Except UInt16 ConstData

def done (data : ConstData) : Except TextStop TextOutcome := .ok (.ok data)

def refuse (code : UInt16) : Except TextStop TextOutcome := .ok (.error code)

/-! ### The entries -/

def textLength (text : String) : Except TextStop TextOutcome :=
  done (.uInt (.ofNat 128 text.toList.length))

/-- `Iterator::nth`: the item, and what is left behind it. -/
def nth (n : Nat) (items : List Nat) : Option (Nat × List Nat) :=
  match items.drop n with
  | [] => none
  | item :: rest => some (item, rest)

/-- Where the slice ends; an empty one ends where it starts. -/
def sliceEnd (start : Nat) (offsets : List Nat) (length : Nat) : Option Nat :=
  if length = 0 then some start else (nth (length - 1) offsets).map Prod.fst

def textSlice (text : String) (start length : Nat) : Except TextStop TextOutcome :=
  if 2 ^ 64 ≤ start ∨ 2 ^ 64 ≤ length then refuse outOfRangeCode
  else if 2 ^ 64 ≤ start + length then refuse outOfRangeCode
  else
    match nth start text.cuts with
    | none => refuse outOfRangeCode
    | some (first, offsets) =>
      match sliceEnd first offsets length with
      | none => refuse outOfRangeCode
      | some last =>
        match text.byteSlice first last with
        | none => .error .panicked
        | some slice => done (.text slice)

/-- The texts of a sequence of them. -/
def textItems (items : List ConstValue) : Except TextStop (List String) :=
  items.mapM fun item ↦
    match item with
    | ⟨.text, .text text⟩ => .ok text
    | _ => .error .fault

/-- `saturating_add` of the byte lengths. -/
def totalBytes (texts : List String) : Nat :=
  texts.foldl (fun total text ↦ min (total + text.utf8ByteSize) (2 ^ 64 - 1)) 0

def textConcat (items : List ConstValue) : Except TextStop TextOutcome := do
  let texts ← textItems items
  if totalBytes texts > textMaxBytes then refuse bridgeCapacityCode
  else done (.text (texts.foldl (· ++ ·) ""))

def oneScalar (c : Char) : ConstValue := ⟨.text, .text (String.singleton c)⟩

def textScalars (text : String) : Except TextStop TextOutcome :=
  if text.toList.length > bridgeMaxItems then refuse bridgeCapacityCode
  else done (.sequence (text.toList.map oneScalar))

def textOrd (text : String) : Except TextStop TextOutcome :=
  match text.toList with
  | [c] => done (.uInt (.ofNat 128 c.toNat))
  | _ => refuse outOfRangeCode

def textChr (value : Nat) : Except TextStop TextOutcome :=
  if value < 2 ^ 32 ∧ value.isValidChar then done (.text (String.singleton (Char.ofNat value)))
  else refuse outOfRangeCode

def textFromInt (value : BitVec 128) : Except TextStop TextOutcome :=
  done (.text (toString value.toInt))

/-- One arm for each entry; operands of another shape are a fault. -/
def runEntry (kind : TextKind) (scope request : ConstData) : Except TextStop TextOutcome :=
  match kind, scope, request with
  | .length, .unit, .text text => textLength text
  | .slice, .text text, .sequence [⟨_, .uInt start⟩, ⟨_, .uInt length⟩] =>
    textSlice text start.toNat length.toNat
  | .concat, .unit, .sequence items => textConcat items
  | .scalars, .unit, .text text => textScalars text
  | .ord, .unit, .text text => textOrd text
  | .chr, .unit, .uInt value => textChr value.toNat
  | .fromInt, .unit, .sInt value => textFromInt value
  | _, _, _ => .error .fault

/-- The typed result that an outcome stands for. -/
def textResult (resultType response : TypeExpr) : TextOutcome → ConstValue
  | .ok data => ⟨resultType, .result (.ok ⟨response, data⟩)⟩
  | .error code => ⟨resultType, .result (.err ⟨pureIndexError, .builtinFailure ⟨.index, code⟩⟩)⟩

/-- `text_execute`. -/
def textExecute (kind : TextKind) (carried : AdapterImport) (operands : List ConstValue)
    (resultType : TypeExpr) : Except TextStop ConstValue :=
  match operands, resultType with
  | [scope, request], .result ok error =>
    let (wantScope, wantRequest, response) := textRowTypes kind
    if ok ≠ response ∨ error ≠ pureIndexError ∨ carried.responseType ≠ response ∨
        carried.requestType ≠ wantRequest ∨ scope.valueType ≠ wantScope ∨
        request.valueType ≠ wantRequest then
      .error .fault
    else
      (runEntry kind scope.data request.data).map (textResult resultType response)
  | _, _ => .error .fault

/-! ### Slicing -/

variable {text : String} {start length : Nat}

theorem nth_eq (n : Nat) (items : List Nat) :
    nth n items = items[n]?.map fun item ↦ (item, items.drop (n + 1)) := by
  rw [nth]
  obtain hlt | hle := Nat.lt_or_ge n items.length
  · rw [List.drop_eq_getElem_cons hlt, List.getElem?_eq_getElem hlt]
    rfl
  · rw [List.drop_eq_nil_of_le hle, List.getElem?_eq_none hle]
    rfl

/-- Past the end there is no cut. -/
theorem getElem?_cuts_eq_none (h : text.length < start) : text.cuts[start]? = none := by
  rw [List.getElem?_eq_none_iff, String.length_cuts]
  omega

/-- The end of a slice is the cut that many scalars on. -/
theorem sliceEnd_eq {first : Nat} (h : text.cuts[start]? = some first) :
    sliceEnd first (text.cuts.drop (start + 1)) length = text.cuts[start + length]? := by
  rw [sliceEnd]
  split
  · rename_i hzero
    rw [hzero, Nat.add_zero, h]
  · rw [nth_eq, Option.map_map, List.getElem?_drop]
    rw [show start + 1 + (length - 1) = start + length by omega]
    exact Option.map_id'

/-- **A slice is there exactly when its scalars are.** -/
theorem textSlice_eq (hsize : text.utf8ByteSize < 2 ^ 64) (hstart : start < 2 ^ 64)
    (hlength : length < 2 ^ 64) :
    textSlice text start length =
      if start + length ≤ text.length then
        done (.text (.ofList ((text.toList.drop start).take length)))
      else refuse outOfRangeCode := by
  have hcount := text.length_le_utf8ByteSize
  rw [textSlice, if_neg (by omega)]
  by_cases hoverflow : 2 ^ 64 ≤ start + length
  · rw [if_pos hoverflow, if_neg (by omega)]
  rw [if_neg hoverflow, nth_eq]
  by_cases hfirst : start ≤ text.length
  · rw [String.getElem?_cuts hfirst]
    show (match sliceEnd _ _ length with | none => _ | some last => _) = _
    rw [sliceEnd_eq (String.getElem?_cuts hfirst)]
    by_cases hlast : start + length ≤ text.length
    · rw [String.getElem?_cuts hlast, if_pos hlast]
      show (match text.byteSlice _ _ with | none => _ | some slice => _) = _
      rw [String.byteSlice_take (Nat.le_add_right _ _) hlast, Nat.add_sub_cancel_left]
    · rw [getElem?_cuts_eq_none (by omega), if_neg hlast]
  · rw [getElem?_cuts_eq_none (by omega), if_neg (by omega)]
    rfl

/-! ### Putting together -/

theorem textItems_textValues (texts : List String) :
    textItems (texts.map fun text ↦ ⟨.text, .text text⟩) = .ok texts := by
  refine Except.mapM_eq_ok.2 ?_
  rw [List.forall₂_map_left_iff]
  exact List.forall₂_same.2 fun _ _ ↦ rfl

theorem foldl_saturating (texts : List String) (total : Nat) :
    texts.foldl (fun total text ↦ min (total + text.utf8ByteSize) (2 ^ 64 - 1))
        (min total (2 ^ 64 - 1)) =
      min (total + (texts.map (·.utf8ByteSize)).sum) (2 ^ 64 - 1) := by
  induction texts generalizing total with
  | nil => rfl
  | cons text texts ih =>
    have hnext : min (min total (2 ^ 64 - 1) + text.utf8ByteSize) (2 ^ 64 - 1) =
        min (total + text.utf8ByteSize) (2 ^ 64 - 1) := by omega
    rw [List.foldl_cons, hnext, ih, List.map_cons, List.sum_cons, Nat.add_assoc]

/-- A sum that overflowed would be over the limit too. -/
theorem totalBytes_le_iff {texts : List String} :
    totalBytes texts ≤ textMaxBytes ↔ (texts.map (·.utf8ByteSize)).sum ≤ textMaxBytes := by
  have hmax : textMaxBytes < 2 ^ 64 - 1 := by decide
  rw [totalBytes, show (0 : Nat) = min 0 (2 ^ 64 - 1) from rfl, foldl_saturating]
  omega

theorem foldl_append (texts : List String) (before : String) :
    texts.foldl (· ++ ·) before = .ofList (before.toList ++ texts.flatMap String.toList) := by
  induction texts generalizing before with
  | nil => simp
  | cons text texts ih => rw [List.foldl_cons, ih, String.toList_append, List.flatMap_cons,
      List.append_assoc]

theorem textConcat_eq (texts : List String) :
    textConcat (texts.map fun text ↦ ⟨.text, .text text⟩) =
      if (texts.map (·.utf8ByteSize)).sum ≤ textMaxBytes then
        done (.text (.ofList (texts.flatMap String.toList)))
      else refuse bridgeCapacityCode := by
  rw [textConcat, textItems_textValues]
  show (if _ then _ else _) = _
  by_cases hcap : (texts.map (·.utf8ByteSize)).sum ≤ textMaxBytes
  · rw [if_neg (by rw [Nat.not_lt]; exact totalBytes_le_iff.2 hcap), if_pos hcap, foldl_append]
    rfl
  · rw [if_pos (Nat.not_le.1 fun hle ↦ hcap (totalBytes_le_iff.1 hle)), if_neg hcap]

/-! ### The entries on values -/

def textValue (text : String) : ConstValue := ⟨.text, .text text⟩

def unitValue : ConstValue := ⟨.unit, .unit⟩

/-- A start and a length. -/
def rangeValue (start length : BitVec 128) : ConstValue :=
  ⟨.tuple [.uInt ⟨64⟩, .uInt ⟨64⟩],
    .sequence [⟨.uInt ⟨64⟩, .uInt start⟩, ⟨.uInt ⟨64⟩, .uInt length⟩]⟩

def textVector (texts : List String) : ConstValue :=
  ⟨.vector .text, .sequence (texts.map textValue)⟩

/-- The result type that is judged for an entry. -/
def textResultType (kind : TextKind) : TypeExpr := .result (textRowTypes kind).2.2 pureIndexError

/-- An entry under its own row. -/
def runText (kind : TextKind) (scope request : ConstValue) : Except TextStop ConstValue :=
  textExecute kind (textImport kind) [scope, request] (textResultType kind)

def textAccepted (kind : TextKind) (data : ConstData) : ConstValue :=
  textResult (textResultType kind) (textRowTypes kind).2.2 (.ok data)

def textRefused (kind : TextKind) (code : UInt16) : ConstValue :=
  textResult (textResultType kind) (textRowTypes kind).2.2 (.error code)

/-- Operands of the types of the row are run. -/
theorem runText_eq {kind : TextKind} {scope request : ConstValue}
    (hscope : scope.valueType = (textRowTypes kind).1)
    (hrequest : request.valueType = (textRowTypes kind).2.1) :
    runText kind scope request = (runEntry kind scope.data request.data).map
      (textResult (textResultType kind) (textRowTypes kind).2.2) := by
  simp only [runText, textExecute, textResultType, textImport, hscope, hrequest, ne_eq,
    not_true_eq_false, or_self, if_false]

theorem runText_slice (hsize : text.utf8ByteSize < 2 ^ 64) {start length : BitVec 128}
    (hstart : start.toNat < 2 ^ 64) (hlength : length.toNat < 2 ^ 64) :
    runText .slice (textValue text) (rangeValue start length) =
      .ok (if start.toNat + length.toNat ≤ text.length then
        textAccepted .slice (.text (.ofList ((text.toList.drop start.toNat).take length.toNat)))
      else textRefused .slice outOfRangeCode) := by
  rw [runText_eq rfl rfl]
  show (textSlice text start.toNat length.toNat).map _ = _
  rw [textSlice_eq hsize hstart hlength]
  split <;> rfl

theorem runText_length (text : String) : runText .length unitValue (textValue text) =
      .ok (textAccepted .length (.uInt (.ofNat 128 text.length))) := by
  rw [runText_eq rfl rfl, ← String.length_toList]
  rfl

theorem runText_scalars (text : String) : runText .scalars unitValue (textValue text) =
      .ok (if text.length ≤ bridgeMaxItems then
        textAccepted .scalars (.sequence (text.toList.map oneScalar))
      else textRefused .scalars bridgeCapacityCode) := by
  rw [runText_eq rfl rfl]
  show (textScalars text).map _ = _
  rw [textScalars, String.length_toList]
  by_cases hcap : text.length ≤ bridgeMaxItems
  · rw [if_neg (Nat.not_lt.2 hcap), if_pos hcap]
    rfl
  · rw [if_pos (Nat.not_le.1 hcap), if_neg hcap]
    rfl

theorem runText_concat (texts : List String) : runText .concat unitValue (textVector texts) =
      .ok (if (texts.map (·.utf8ByteSize)).sum ≤ textMaxBytes then
        textAccepted .concat (.text (.ofList (texts.flatMap String.toList)))
      else textRefused .concat bridgeCapacityCode) := by
  rw [runText_eq rfl rfl]
  show (textConcat (texts.map fun text ↦ ⟨.text, .text text⟩)).map _ = _
  rw [textConcat_eq]
  split <;> rfl

/-- Texts that make up a text are put together to it. -/
theorem runText_concat_of_flatMap {texts : List String} (hcap : text.utf8ByteSize ≤ textMaxBytes)
    (h : texts.flatMap String.toList = text.toList) :
    runText .concat unitValue (textVector texts) = .ok (textAccepted .concat (.text text)) := by
  have hbytes : (texts.map (·.utf8ByteSize)).sum = text.utf8ByteSize := by
    rw [← String.ofList_toList (s := text), ← h]
    clear h hcap
    induction texts with
    | nil => rfl
    | cons first texts ih =>
      rw [List.map_cons, List.sum_cons, ih, List.flatMap_cons, String.ofList_append,
        String.utf8ByteSize_append, String.ofList_toList]
  rw [runText_concat, if_pos (hbytes ▸ hcap), h, String.ofList_toList]

/-- **The laws of the text entries**, for any text that a machine can hold. -/
theorem text_scalar_laws (text : String) (hsize : text.utf8ByteSize < 2 ^ 64) :
    (∀ start length : BitVec 128, start.toNat < 2 ^ 64 → length.toNat < 2 ^ 64 →
      runText .slice (textValue text) (rangeValue start length) =
        .ok (if start.toNat + length.toNat ≤ text.length then
          textAccepted .slice (.text (.ofList ((text.toList.drop start.toNat).take length.toNat)))
        else textRefused .slice outOfRangeCode)) ∧
    (text.length < 2 ^ 64 ∧ runText .length unitValue (textValue text) =
      .ok (textAccepted .length (.uInt (.ofNat 128 text.length)))) ∧
    runText .scalars unitValue (textValue text) =
      .ok (if text.length ≤ bridgeMaxItems then
        textAccepted .scalars (.sequence (text.toList.map oneScalar))
      else textRefused .scalars bridgeCapacityCode) ∧
    (text.utf8ByteSize ≤ textMaxBytes →
      runText .concat unitValue ⟨.vector .text, .sequence (text.toList.map oneScalar)⟩ =
        .ok (textAccepted .concat (.text text))) ∧
    (∀ split ≤ text.length, ∃ first second,
      runText .slice (textValue text) (rangeValue 0 (.ofNat 128 split)) =
        .ok (textAccepted .slice (.text first)) ∧
      runText .slice (textValue text)
          (rangeValue (.ofNat 128 split) (.ofNat 128 (text.length - split))) =
        .ok (textAccepted .slice (.text second)) ∧
      first.length = split ∧ second.length = text.length - split ∧
      (text.utf8ByteSize ≤ textMaxBytes →
        runText .concat unitValue (textVector [first, second]) =
          .ok (textAccepted .concat (.text text)))) ∧
    ∀ texts : List String, (texts.map (·.utf8ByteSize)).sum ≤ textMaxBytes →
      ∃ joined, runText .concat unitValue (textVector texts) =
          .ok (textAccepted .concat (.text joined)) ∧
        joined.toList = texts.flatMap String.toList ∧
        joined.length = (texts.map String.length).sum := by
  have hcount := text.length_le_utf8ByteSize
  refine ⟨fun start length ↦ runText_slice hsize, ⟨by omega, runText_length text⟩,
    runText_scalars text, fun hcap ↦ ?_, fun split hsplit ↦ ?_, fun texts hcap ↦ ?_⟩
  · have hvector : (⟨.vector .text, .sequence (text.toList.map oneScalar)⟩ : ConstValue) =
        textVector (text.toList.map String.singleton) := by
      rw [textVector, List.map_map]
      rfl
    rw [hvector]
    refine runText_concat_of_flatMap hcap ?_
    simp [List.flatMap_map]
  · have hstart : (BitVec.ofNat 128 split).toNat = split := Nat.mod_eq_of_lt (by omega)
    have hlength : (BitVec.ofNat 128 (text.length - split)).toNat = text.length - split :=
      Nat.mod_eq_of_lt (by omega)
    refine ⟨.ofList (text.toList.take split), .ofList (text.toList.drop split), ?_, ?_, ?_, ?_,
      fun hcap ↦ runText_concat_of_flatMap hcap ?_⟩
    · rw [runText_slice hsize (by decide) (by omega), hstart, if_pos (by simpa using hsplit)]
      rfl
    · rw [runText_slice hsize (by omega) (by omega), hstart, hlength, if_pos (by omega),
        List.take_of_length_le (by rw [List.length_drop, String.length_toList])]
    · rw [String.length_ofList, List.length_take, String.length_toList, Nat.min_eq_left hsplit]
    · rw [String.length_ofList, List.length_drop, String.length_toList]
    · simp
  · refine ⟨_, (runText_concat texts).trans (by rw [if_pos hcap]), String.toList_ofList, ?_⟩
    rw [String.length_ofList, List.length_flatMap]
    exact congrArg List.sum (List.map_congr_left fun _ _ ↦ String.length_toList)

/-- Two scalars of two and of three bytes: the second of them is sliced out. -/
theorem text_scalar_laws_accented :
    runText .slice (textValue "é€") (rangeValue 1 1) =
      .ok (textAccepted .slice (.text "€")) ∧
    runText .slice (textValue "é€") (rangeValue 1 2) =
      .ok (textRefused .slice outOfRangeCode) := by
  have hslice := (text_scalar_laws "é€" (by decide)).1
  exact ⟨hslice 1 1 (by decide) (by decide), hslice 1 2 (by decide) (by decide)⟩

end Sley.Vm
