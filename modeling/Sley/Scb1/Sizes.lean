import Mathlib
import Sley.Scb1.Value

/-!
# Sizes of encodings

Lists and records are accepted or refused by the lengths of what stands in them, and their own
length is a function of these. **Payloads of the same lengths are encoded alike**, in a record even
when the lengths stand in another order.
-/

namespace Sley.Scb1

open Leb128 (encode encode_of_lt)
open List (length length_append map_map sum)

theorem length_sizedBytes (payload : Bytes) :
    (sizedBytes payload).length = (encode payload.length).length + payload.length := by
  rw [sizedBytes, length_append]

/-- The length of a varint depends on what is left of the first seven bits. -/
theorem length_encode_congr {m n : Nat} (h : m / 128 = n / 128) :
    (encode m).length = (encode n).length := by
  by_cases hm : m < 128
  · have hn : n < 128 := by omega
    rw [encode_of_lt hm, encode_of_lt hn]
    rfl
  · have hn : 128 ≤ n := by omega
    rw [Leb128.encode_of_le (Nat.not_lt.1 hm), Leb128.encode_of_le hn, h]
    rfl

/-- A small number is one byte. -/
theorem length_encodeUvar_of_lt {tag : UInt32} (h : tag.toNat < 128) :
    (encodeUvar tag.toUInt64).length = 1 := by
  rw [encodeUvar_tag, encode_of_lt h]
  rfl

/-- Lists of the same lengths are encoded alike. -/
theorem exists_encodeList_of_lengths {elements elements' : List Bytes} {bs : Bytes}
    (hlengths : elements.map length = elements'.map length)
    (h : encodeList elements = .ok bs) :
    ∃ bs', encodeList elements' = .ok bs' ∧ bs'.length = bs.length := by
  obtain ⟨hcount, hsizes, rfl⟩ := encodeList_eq_ok.1 h
  have hlength : elements.length = elements'.length := by
    simpa only [List.length_map] using congrArg length hlengths
  refine ⟨_, encodeList_eq_ok.2 ⟨hlength ▸ hcount, ?_, rfl⟩, ?_⟩
  · have hsizes' : ∀ n ∈ elements.map length, n ≤ maxStandaloneBytes := by
      simpa only [List.forall_mem_map] using hsizes
    rw [hlengths] at hsizes'
    simpa only [List.forall_mem_map] using hsizes'
  · have hsum : ∀ es : List Bytes, (es.flatMap sizedBytes).length =
        ((es.map length).map fun n ↦ (encode n).length + n).sum := by
      intro es
      rw [List.length_flatMap, map_map]
      exact congrArg sum (List.map_congr_left fun e _ ↦ length_sizedBytes e)
    rw [length_append, length_append, hsum, hsum, hlengths, hlength]

/-- Records with the same tags and the same lengths, in some order, are encoded alike. -/
theorem exists_encodeRecord_of_lengths {fields fields' : List (UInt32 × Bytes)} {bs : Bytes}
    (hsorted : (fields.map Prod.fst).Pairwise (· < ·))
    (htags : fields.map Prod.fst = fields'.map Prod.fst)
    (hlengths : (fields.map fun f ↦ f.2.length).Perm (fields'.map fun f ↦ f.2.length))
    (h : encodeRecord fields = .ok bs) :
    ∃ bs', encodeRecord fields' = .ok bs' ∧ bs'.length = bs.length := by
  obtain ⟨hcount, hsizes, rfl⟩ := (encodeRecord_eq_ok hsorted).1 h
  have hlength : fields.length = fields'.length := by
    simpa only [List.length_map] using congrArg length htags
  refine ⟨_, (encodeRecord_eq_ok (htags ▸ hsorted)).2 ⟨hlength ▸ hcount, ?_, rfl⟩, ?_⟩
  · have hsizes' : ∀ n ∈ fields.map (fun f ↦ f.2.length), n ≤ maxStandaloneBytes := by
      simpa only [List.forall_mem_map] using hsizes
    intro f hf
    exact hsizes' _ (hlengths.mem_iff.2 (List.mem_map_of_mem hf))
  · have hsum : ∀ fs : List (UInt32 × Bytes),
        (fs.flatMap fun f ↦ taggedBytes f.1 f.2).length =
          ((fs.map Prod.fst).map fun tag ↦ (encode tag.toNat).length).sum +
            ((fs.map fun f ↦ f.2.length).map fun n ↦ (encode n).length + n).sum := by
      intro fs
      rw [List.length_flatMap, map_map, map_map, ← List.sum_map_add]
      refine congrArg sum (List.map_congr_left fun f _ ↦ ?_)
      rw [taggedBytes, length_append, length_sizedBytes]
      rfl
    rw [length_append, length_append, hsum, hsum, htags, hlength, (hlengths.map _).sum_eq]

end Sley.Scb1
