import Sley.Txn.History

/-!
# The head file

The file that names the accepted transaction (`encode_head` and `decode_head` of
`sley-txn/src/repository.rs`): **a head is read back, and read only from what is written**
(`decodeHead_eq_ok`). Last comes the check of an object's digest trailer, which the garbage collector
shares with the object store (`sley-store/src/lib.rs`).
-/

namespace Sley.Txn

open Scb1 Mutate Root Policy

/-! ### The accepted head -/

/-- `SLEYHD01`. -/
def headMagic : Bytes := [0x53, 0x4c, 0x45, 0x59, 0x48, 0x44, 0x30, 0x31]

def headVersion : UInt64 := 1

def headLen : Nat := 8 + 1 + 32 + 32

def headChecksumDomain : Bytes := textBytes "sley2.accepted-head.v1"

section

variable [Blake3]

def headPrefix (transactionId : TransactionId) : Bytes :=
  headMagic ++ encodeUvar headVersion ++ transactionId.bytes

def headChecksum (written : Bytes) : Bytes := (Blake3.hash (headChecksumDomain ++ written)).bytes

def encodeHead (transactionId : TransactionId) : Bytes :=
  headPrefix transactionId ++ headChecksum (headPrefix transactionId)

def decodeHead (bytes : Bytes) : Except TransactionErrorCode TransactionId := do
  Except.rejectIf (bytes.length ≠ headLen ∨ bytes.take 8 ≠ headMagic ∨ bytes[8]? ≠ some 1)
    .headCorrupt
  Except.rejectIf (bytes.drop (headLen - 32) ≠ headChecksum (bytes.take (headLen - 32)))
    .headCorrupt
  (exactArray ((bytes.take (headLen - 32)).drop 9)).mapError fun _ ↦ .headCorrupt

omit [Blake3] in
theorem length_headPrefix (transactionId : TransactionId) :
    (headPrefix transactionId).length = headLen - 32 := by
  have hlength : (headMagic ++ encodeUvar headVersion).length = 9 := by with_unfolding_all decide
  rw [headPrefix, List.length_append, hlength, Id.length_eq]
  rfl

theorem length_encodeHead (transactionId : TransactionId) :
    (encodeHead transactionId).length = headLen := by
  rw [encodeHead, List.length_append, length_headPrefix, headChecksum, Id.length_eq]
  rfl

/-- **A head is read back.** -/
theorem decodeHead_encodeHead (transactionId : TransactionId) :
    decodeHead (encodeHead transactionId) = .ok transactionId := by
  have htake : (encodeHead transactionId).take (headLen - 32) = headPrefix transactionId :=
    List.take_left' (length_headPrefix transactionId)
  have hdrop : (encodeHead transactionId).drop (headLen - 32) =
      headChecksum (headPrefix transactionId) := List.drop_left' (length_headPrefix transactionId)
  have hmagic : headMagic ++ encodeUvar headVersion = headMagic ++ [1] := by
    with_unfolding_all decide
  simp only [decodeHead, Except.bind_eq_ok, Except.rejectIf_eq_ok, Unique.exists_iff, not_or,
    not_not, Except.mapError_eq_ok, exactArray_eq_ok, htake, hdrop]
  refine ⟨⟨length_encodeHead transactionId, ?_, ?_⟩, trivial, ?_⟩
  all_goals
    simp only [encodeHead, headPrefix, hmagic]
    rfl

/-- **A head is read only from what is written.** -/
theorem decodeHead_eq_ok {bytes : Bytes} {transactionId : TransactionId} :
    decodeHead bytes = .ok transactionId ↔ bytes = encodeHead transactionId := by
  constructor
  · intro h
    simp only [decodeHead, Except.bind_eq_ok, Except.rejectIf_eq_ok, exists_const, not_or,
      not_not, Except.mapError_eq_ok, exactArray_eq_ok] at h
    obtain ⟨⟨hlen, hmagic, hversion⟩, hchecksum, hid⟩ := h
    have hsplit : bytes.take 9 = headMagic ++ [1] := by
      rw [List.take_add_one, hmagic, hversion]
      rfl
    have hprefix : bytes.take (headLen - 32) = headPrefix transactionId := by
      have htake : (bytes.take (headLen - 32)).take 9 = bytes.take 9 := by
        rw [List.take_take]
        rfl
      have hheader : headMagic ++ [1] = headMagic ++ encodeUvar headVersion := by
        with_unfolding_all decide
      rw [← List.take_append_drop 9 (bytes.take (headLen - 32)), htake, hsplit, ← hid, hheader]
      rfl
    calc bytes = bytes.take (headLen - 32) ++ bytes.drop (headLen - 32) :=
          (List.take_append_drop _ _).symm
      _ = encodeHead transactionId := by rw [hchecksum, hprefix, encodeHead]
  · rintro rfl
    exact decodeHead_encodeHead transactionId

/-! ### Digest trailers -/

/-- `verify_digest_trailer`. -/
def verifyDigestTrailer (record : Bytes) : Except StoreErrorCode ObjectId := do
  Except.rejectIf (record.length > maxStandaloneBytes) .scbResourceLimit
  Except.rejectIf (record.length < 32) .scbDigestMismatch
  let derived := ObjectId.derive (record.take (record.length - 32))
  Except.rejectIf (record.drop (record.length - 32) ≠ derived.bytes) .scbDigestMismatch
  return derived

def mapScbError : ScbErrorCode → StoreErrorCode
  | .resourceLimit => .scbResourceLimit
  | .digestMismatch => .scbDigestMismatch
  | other => .scb other

end

end Sley.Txn
