import Mathlib

/-!
# Texts by scalars and by bytes

A text is a sequence of scalars, and a cut of its bytes is one of its scalars exactly where it falls
between them. The offsets at which it may be cut are those of the scalars and the end, and **the
bytes between the offsets of two scalars are the bytes of the scalars between the two**.
-/

namespace String

/-- The bytes from one offset to another; nothing past the end or inside of a scalar. -/
def byteSlice (text : String) (start stop : Nat) : Option String :=
  if start ≤ stop ∧ (⟨start⟩ : Pos.Raw).IsValid text ∧ (⟨stop⟩ : Pos.Raw).IsValid text then
    fromUTF8? (text.toByteArray.extract start stop)
  else none

/-- The offset of each scalar, the first of which is at `offset`. -/
def scalarOffsets (offset : Nat) : List Char → List Nat
  | [] => []
  | c :: cs => offset :: scalarOffsets (offset + c.utf8Size) cs

/-- Where a text may be cut: before each of its scalars, and at its end. -/
def cuts (text : String) : List Nat := scalarOffsets 0 text.toList ++ [text.utf8ByteSize]

variable {text : String} {i j offset : Nat} {cs : List Char}

theorem utf8ByteSize_ofList_cons (c : Char) (cs : List Char) :
    (ofList (c :: cs)).utf8ByteSize = c.utf8Size + (ofList cs).utf8ByteSize := by
  rw [← size_toByteArray, ← size_toByteArray, toByteArray_ofList, toByteArray_ofList,
    List.utf8Encode_cons, ByteArray.size_append, List.utf8Encode_singleton]
  simp

/-- A scalar takes a byte at least. -/
theorem length_le_utf8ByteSize (text : String) : text.length ≤ text.utf8ByteSize := by
  obtain ⟨cs, rfl⟩ := text.exists_eq_ofList
  rw [length_ofList]
  induction cs with
  | nil => exact Nat.zero_le _
  | cons c cs ih =>
    rw [List.length_cons, utf8ByteSize_ofList_cons]
    have := c.utf8Size_pos
    omega

theorem length_scalarOffsets : (scalarOffsets offset cs).length = cs.length := by
  induction cs generalizing offset with
  | nil => rfl
  | cons c cs ih => rw [scalarOffsets, List.length_cons, List.length_cons, ih]

theorem getElem?_scalarOffsets (h : i < cs.length) :
    (scalarOffsets offset cs)[i]? = some (offset + (ofList (cs.take i)).utf8ByteSize) := by
  induction cs generalizing offset i with
  | nil => cases h
  | cons c cs ih =>
    cases i with
    | zero => rfl
    | succ i =>
      rw [scalarOffsets, List.getElem?_cons_succ, ih (Nat.lt_of_succ_lt_succ h),
        List.take_succ_cons, utf8ByteSize_ofList_cons, Nat.add_assoc]

theorem length_cuts : text.cuts.length = text.length + 1 := by
  rw [cuts, List.length_append, length_scalarOffsets, length_toList, List.length_singleton]

/-- A cut is where the scalars before it end. -/
theorem getElem?_cuts (h : i ≤ text.length) :
    text.cuts[i]? = some (ofList (text.toList.take i)).utf8ByteSize := by
  have hlength : (scalarOffsets 0 text.toList).length = text.length := by
    rw [length_scalarOffsets, length_toList]
  obtain hlt | rfl := Nat.lt_or_eq_of_le h
  · rw [cuts, List.getElem?_append_left (hlength ▸ hlt),
      getElem?_scalarOffsets (by rwa [length_toList]), Nat.zero_add]
  · rw [cuts, List.getElem?_append_right (Nat.le_of_eq hlength), hlength, Nat.sub_self,
      List.take_of_length_le (Nat.le_of_eq length_toList), ofList_toList]
    rfl

theorem fromUTF8?_toByteArray : fromUTF8? text.toByteArray = some text := by
  rw [fromUTF8?, dif_pos text.isValidUTF8]
  rfl

/-- **Cutting between scalars.** -/
theorem byteSlice_take (hij : i ≤ j) (hj : j ≤ text.length) :
    text.byteSlice (ofList (text.toList.take i)).utf8ByteSize
        (ofList (text.toList.take j)).utf8ByteSize =
      some (ofList ((text.toList.drop i).take (j - i))) := by
  obtain ⟨cs, rfl⟩ := text.exists_eq_ofList
  rw [toList_ofList]
  -- the text is what is before the first cut, what is between the two, and what is after
  have htake : cs.take j = cs.take i ++ (cs.drop i).take (j - i) := by
    rw [← List.take_add, Nat.add_sub_cancel' hij]
  have hsize : (ofList (cs.take j)).utf8ByteSize = (ofList (cs.take i)).utf8ByteSize +
      (ofList ((cs.drop i).take (j - i))).utf8ByteSize := by
    rw [htake, ofList_append, utf8ByteSize_append]
  have hbytes : (ofList cs).toByteArray = (ofList (cs.take i)).toByteArray ++
      ((ofList ((cs.drop i).take (j - i))).toByteArray ++ (ofList (cs.drop j)).toByteArray) := by
    rw [← ByteArray.append_assoc, ← toByteArray_append, ← ofList_append, ← htake,
      ← toByteArray_append, ← ofList_append, List.take_append_drop]
  have hvalid : ∀ k, (⟨(ofList (cs.take k)).utf8ByteSize⟩ : Pos.Raw).IsValid (ofList cs) :=
    fun k ↦ Pos.Raw.isValid_ofList.2 ⟨k, rfl⟩
  rw [byteSlice, if_pos ⟨by omega, hvalid i, hvalid j⟩, hsize, hbytes, ← size_toByteArray,
    ← size_toByteArray, ← Nat.add_zero (ofList (cs.take i)).toByteArray.size, Nat.add_assoc,
    ByteArray.extract_append_size_add, Nat.zero_add, ByteArray.extract_append_eq_left rfl]
  exact fromUTF8?_toByteArray

end String
