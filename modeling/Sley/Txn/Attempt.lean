import Sley.Txn.Head

/-!
# Attempt records

The journal record of a native commit attempt (`sley-txn/src/native_commit.rs`): which attempt it is,
what it binds, how far it got and, from the promotion on, which transaction and receipt it claims.

Writing checks nothing and reading checks everything, so **what is read is what is written of the
records whose claim fits their state** (`AttemptRecord.parse_eq_ok`). The last section puts this
together with the codecs of transactions, receipts and heads.
-/

namespace Sley.Txn

open Scb1 Mutate Root Policy
open Except (bind_eq_ok ofOption pure_eq_ok rejectIf rejectIf_eq_ok)
open BigEndian (bytes length_bytes value)
open StateT (run_bind_eq_ok run_ofExcept_eq_ok run_pure_eq_ok)

/-! ### Records -/

/-- Client-generated 128-bit native commit attempt identity. -/
@[ext]
structure NativeAttemptId where
  bytes : Bytes
  length_eq : bytes.length = 16
  deriving DecidableEq

/-- Attempt journal state. -/
inductive AttemptState
  | admitted
  | running
  | abortedBeforePromotion
  | promotionStarted
  | committed
  | outcomeUnknown
  deriving DecidableEq, Repr

namespace AttemptState

/-- Frozen journal wire tag. -/
def tag : AttemptState → Nat
  | admitted => 1
  | running => 2
  | abortedBeforePromotion => 3
  | promotionStarted => 4
  | committed => 5
  | outcomeUnknown => 6

def fromTag : Nat → Option AttemptState
  | 1 => some admitted
  | 2 => some running
  | 3 => some abortedBeforePromotion
  | 4 => some promotionStarted
  | 5 => some committed
  | 6 => some outcomeUnknown
  | _ => none

theorem fromTag_eq_some {n : Nat} {state : AttemptState} :
    fromTag n = some state ↔ n = state.tag := by
  constructor
  · intro h
    unfold fromTag at h
    split at h
    all_goals cases h
    all_goals rfl
  · rintro rfl
    cases state <;> rfl

end AttemptState

/-- Durable attempt binding with its current journal state. -/
structure AttemptRecord where
  attemptId : NativeAttemptId
  workspace : WorkspaceId
  principal : PrincipalId
  candidateId : CandidateId
  expectedParent : TransactionId
  state : AttemptState
  transactionId : Option TransactionId
  receiptId : Option ReceiptId
  deriving DecidableEq

/-- `SLEYNAT1`. -/
def journalMagic : Bytes := [0x53, 0x4c, 0x45, 0x59, 0x4e, 0x41, 0x54, 0x31]

def journalVersion : Nat := 1

namespace AttemptRecord

/-- A flag, and the identity when there is one. -/
def optionBytes {kind : IdKind} : Option (Id kind) → Bytes
  | none => [0]
  | some id => 1 :: id.bytes

def encodeBody (self : AttemptRecord) : Bytes :=
  journalMagic ++ (bytes 8 journalVersion ++ (bytes 8 self.state.tag ++
    (self.attemptId.bytes ++ (self.workspace.bytes ++ (self.principal.bytes ++
      (self.candidateId.bytes ++ (self.expectedParent.bytes ++
        (optionBytes self.transactionId ++ optionBytes self.receiptId))))))))

/-- Encodes the canonical journal record with its checksum trailer. -/
def encode [Blake3] (self : AttemptRecord) : Bytes :=
  self.encodeBody ++ (Blake3.hash self.encodeBody).bytes

/-- What the state of a record says about the promotion claim. -/
def claimFits (self : AttemptRecord) : Bool :=
  match self.state with
  | .committed => self.transactionId.isSome && self.receiptId.isSome
  | .promotionStarted => true
  | _ => self.transactionId.isNone && self.receiptId.isNone

/-- A position in the body of a record. -/
abbrev Parse (α : Type) := StateT (Cursor UInt8) (Except NativeCommitError) α

def takeBytes (count : Nat) : Parse Bytes := fun r ↦ ofOption .journalCorrupt (r.take? count)

def takeId (kind : IdKind) : Parse (Id kind) := do
  let bytes ← takeBytes 32
  StateT.ofExcept (if h : bytes.length = 32 then .ok ⟨bytes, h⟩ else .error .journalCorrupt)

def takeAttemptId : Parse NativeAttemptId := do
  let bytes ← takeBytes 16
  StateT.ofExcept (if h : bytes.length = 16 then .ok ⟨bytes, h⟩ else .error .journalCorrupt)

/-- A flag, and the identity when the flag says so. -/
def takeOption (kind : IdKind) : Parse (Option (Id kind)) := do
  let flag ← takeBytes 1
  if flag = [0] then
    return none
  else if flag = [1] then do
    let id ← takeId kind
    return some id
  else
    StateT.ofExcept (.error .journalCorrupt)

def parseBody : Parse AttemptRecord := do
  let magic ← takeBytes 8
  StateT.ofExcept (rejectIf (magic ≠ journalMagic) .journalCorrupt)
  let version ← takeBytes 8
  StateT.ofExcept (rejectIf (value version ≠ journalVersion) .journalCorrupt)
  let tag ← takeBytes 8
  let state ← StateT.ofExcept
    (ofOption .journalCorrupt (AttemptState.fromTag (value tag)))
  let attemptId ← takeAttemptId
  let workspace ← takeId .workspace
  let principal ← takeId .principal
  let candidateId ← takeId .candidate
  let expectedParent ← takeId .transaction
  let transactionId ← takeOption .transaction
  let receiptId ← takeOption .receipt
  return {
    attemptId, workspace, principal, candidateId, expectedParent, state, transactionId, receiptId }

/-- Strictly parses and checksum-verifies one journal record. -/
def parse [Blake3] (input : Bytes) : Except NativeCommitError AttemptRecord := do
  rejectIf (input.length < 8 + 8 + 8 + 16 + 32 * 4 + 2 + 32 ∨
      input.length > 8 + 8 + 8 + 16 + 32 * 6 + 2 + 32)
    .journalCorrupt
  let body := input.take (input.length - 32)
  let checksum := input.drop (input.length - 32)
  rejectIf ((Blake3.hash body).bytes ≠ checksum) .journalCorrupt
  let (record, r) ← parseBody.run (Cursor.new body)
  rejectIf (r.isFinished = false) .journalCorrupt
  rejectIf (record.claimFits = false) .journalCorrupt
  return record

/-- Two records bind the same attempt facts. -/
def sameBindings (self other : AttemptRecord) : Bool :=
  self.attemptId = other.attemptId && self.workspace = other.workspace &&
    self.principal = other.principal && self.candidateId = other.candidateId &&
    self.expectedParent = other.expectedParent

/-! ### Reading inverts writing -/

variable {self record : AttemptRecord} {input : Bytes} {r r' : Cursor UInt8}

theorem takeBytes_eq_ok {count : Nat} {bs : Bytes} :
    (takeBytes count).run r = .ok (bs, r') ↔ bs.length = count ∧ r.Consumes bs r' :=
  Except.ofOption_eq_ok.trans Cursor.take?_eq_some_iff

theorem takeId_eq_ok {kind : IdKind} {id : Id kind} :
    (takeId kind).run r = .ok (id, r') ↔ r.Consumes id.bytes r' := by
  simp only [takeId, run_bind_eq_ok, run_ofExcept_eq_ok, takeBytes_eq_ok]
  constructor
  · rintro ⟨bs, r₁, ⟨hlen, hcons⟩, hid, rfl⟩
    rw [dif_pos hlen, Except.ok.injEq] at hid
    rwa [← hid]
  · exact fun hcons ↦ ⟨id.bytes, r', ⟨id.length_eq, hcons⟩, dif_pos id.length_eq, rfl⟩

theorem takeAttemptId_eq_ok {id : NativeAttemptId} :
    takeAttemptId.run r = .ok (id, r') ↔ r.Consumes id.bytes r' := by
  simp only [takeAttemptId, run_bind_eq_ok, run_ofExcept_eq_ok, takeBytes_eq_ok]
  constructor
  · rintro ⟨bs, r₁, ⟨hlen, hcons⟩, hid, rfl⟩
    rw [dif_pos hlen, Except.ok.injEq] at hid
    rwa [← hid]
  · exact fun hcons ↦ ⟨id.bytes, r', ⟨id.length_eq, hcons⟩, dif_pos id.length_eq, rfl⟩

theorem takeOption_eq_ok {kind : IdKind} {value : Option (Id kind)} :
    (takeOption kind).run r = .ok (value, r') ↔ r.Consumes (optionBytes value) r' := by
  simp only [takeOption, run_bind_eq_ok, takeBytes_eq_ok]
  constructor
  · rintro ⟨flag, r₁, ⟨-, hflag⟩, h⟩
    split at h
    · rename_i hnone
      obtain ⟨rfl, rfl⟩ := run_pure_eq_ok.1 h
      rwa [hnone] at hflag
    split at h
    · rename_i hsome
      obtain ⟨id, r₂, hid, h⟩ := run_bind_eq_ok.1 h
      obtain ⟨rfl, rfl⟩ := run_pure_eq_ok.1 h
      rw [hsome] at hflag
      exact hflag.trans (takeId_eq_ok.1 hid)
    · cases (run_ofExcept_eq_ok.1 h).1
  · intro hcons
    cases value with
    | none => exact ⟨[0], r', ⟨rfl, hcons⟩, rfl⟩
    | some id =>
      have hcons : r.Consumes ([1] ++ id.bytes) r' := hcons
      obtain ⟨r₁, hflag, hid⟩ := hcons.split
      refine ⟨[1], r₁, ⟨rfl, hflag⟩, ?_⟩
      rw [if_neg (by decide), if_pos rfl]
      exact run_bind_eq_ok.2 ⟨id, r', takeId_eq_ok.2 hid, rfl⟩

theorem value_eq_iff {bs : Bytes} {n : Nat} (hn : n < 256 ^ 8) :
    bs.length = 8 ∧ value bs = n ↔ bs = bytes 8 n := by
  constructor
  · rintro ⟨hlen, rfl⟩
    rw [← hlen, BigEndian.bytes_value]
  · rintro rfl
    rw [length_bytes, BigEndian.value_bytes, Nat.mod_eq_of_lt hn]
    exact ⟨rfl, rfl⟩

theorem parseBody_eq_ok : parseBody.run r = .ok (record, r') ↔ r.Consumes record.encodeBody r' := by
  have htag : record.state.tag < 256 ^ 8 := by cases record.state <;> decide
  simp only [parseBody, run_bind_eq_ok, run_ofExcept_eq_ok, run_pure_eq_ok,
    takeBytes_eq_ok, rejectIf_eq_ok, not_not, Except.ofOption_eq_ok,
    AttemptState.fromTag_eq_some, takeAttemptId_eq_ok, takeId_eq_ok, takeOption_eq_ok]
  constructor
  · rintro ⟨_, r₁, ⟨-, h₁⟩, _, _, ⟨rfl, rfl⟩, version, r₂, ⟨hversionLen, h₂⟩, _, _, ⟨hversion, rfl⟩,
      tag, r₃, ⟨htagLen, h₃⟩, state, _, ⟨hstate, rfl⟩, attempt, r₄, h₄, workspace, r₅, h₅, principal,
      r₆, h₆, candidate, r₇, h₇, parent, r₈, h₈, transaction, r₉, h₉, receipt, _, h₁₀, rfl, rfl⟩
    rw [(value_eq_iff (by decide)).1 ⟨hversionLen, hversion⟩] at h₂
    rw [(value_eq_iff htag).1 ⟨htagLen, hstate⟩] at h₃
    exact h₁.trans (h₂.trans (h₃.trans (h₄.trans (h₅.trans (h₆.trans (h₇.trans (h₈.trans
      (h₉.trans h₁₀))))))))
  · intro h
    obtain ⟨r₁, h₁, h⟩ := h.split
    obtain ⟨r₂, h₂, h⟩ := h.split
    obtain ⟨r₃, h₃, h⟩ := h.split
    obtain ⟨r₄, h₄, h⟩ := h.split
    obtain ⟨r₅, h₅, h⟩ := h.split
    obtain ⟨r₆, h₆, h⟩ := h.split
    obtain ⟨r₇, h₇, h⟩ := h.split
    obtain ⟨r₈, h₈, h⟩ := h.split
    obtain ⟨r₉, h₉, h₁₀⟩ := h.split
    obtain ⟨hversionLen, hversion⟩ := (value_eq_iff (n := journalVersion) (by decide)).2 rfl
    obtain ⟨htagLen, hstate⟩ := (value_eq_iff htag).2 rfl
    exact ⟨_, r₁, ⟨rfl, h₁⟩, (), _, ⟨rfl, rfl⟩, _, r₂, ⟨hversionLen, h₂⟩, (), _, ⟨hversion, rfl⟩, _,
      r₃, ⟨htagLen, h₃⟩, _, _, ⟨hstate, rfl⟩, _, r₄, h₄, _, r₅, h₅, _, r₆, h₆, _, r₇, h₇, _, r₈, h₈,
      _, r₉, h₉, _, r', h₁₀, rfl, rfl⟩

theorem length_optionBytes {kind : IdKind} (value : Option (Id kind)) :
    1 ≤ (optionBytes value).length ∧ (optionBytes value).length ≤ 33 := by
  cases value with
  | none => exact ⟨Nat.le_refl 1, show 1 ≤ 33 by decide⟩
  | some id =>
    rw [optionBytes, List.length_cons, id.length_eq]
    decide

variable [Blake3]

/-- **What is read is what is written of a record whose claim fits.** -/
theorem parse_eq_ok :
    parse input = .ok record ↔ record.claimFits = true ∧ input = record.encode := by
  simp only [parse, bind_eq_ok, rejectIf_eq_ok, exists_const, Prod.exists, parseBody_eq_ok,
    pure_eq_ok, not_or, not_not, gt_iff_lt, Nat.not_lt, Bool.not_eq_false, Cursor.isFinished_iff]
  constructor
  · rintro ⟨-, hchecksum, _, r', hbody, hfinished, hfits, rfl⟩
    have hrest := hbody.rest_eq
    rw [Cursor.new_rest, hfinished, List.append_nil] at hrest
    rw [hrest] at hchecksum
    refine ⟨hfits, ?_⟩
    calc input = input.take (input.length - 32) ++ input.drop (input.length - 32) :=
          (List.take_append_drop _ _).symm
      _ = record.encode := by rw [hrest, ← hchecksum, encode]
  · rintro ⟨hfits, rfl⟩
    have hlen : record.encode.length - 32 = record.encodeBody.length := by
      rw [encode, List.length_append, Id.length_eq, Nat.add_sub_cancel]
    have htake : record.encode.take record.encodeBody.length = record.encodeBody :=
      List.take_left' rfl
    have hdrop : record.encode.drop record.encodeBody.length =
        (Blake3.hash record.encodeBody).bytes := List.drop_left' rfl
    obtain ⟨r', hbody, hfinished⟩ := Cursor.exists_consumes_of_rest
      (c := Cursor.new record.encodeBody)
      (show _ = record.encodeBody ++ [] by rw [Cursor.new_rest, List.append_nil])
    rw [hlen, htake, hdrop]
    refine ⟨?_, rfl, record, r', hbody, hfinished, hfits, rfl⟩
    have htransaction := length_optionBytes record.transactionId
    have hreceipt := length_optionBytes record.receiptId
    have hmagic : journalMagic.length = 8 := rfl
    simp only [encode, encodeBody, List.length_append, length_bytes, Id.length_eq,
      record.attemptId.length_eq, hmagic]
    omega

end AttemptRecord

/-! ### The stored records of a repository -/

section

variable [HostLayout] [CandidateLayout] [Blake3] [ConformanceRegistry] [ReceiptParts]

/-- The builder bounds the manifest as the reader does. -/
theorem length_le_of_buildTransactionReceipt {record : TransactionReceiptRecord}
    {receipt : ImportedTransactionReceipt} (h : buildTransactionReceipt record = .ok receipt) :
    receipt.record = record ∧ record.objectManifest.length ≤ maxTransactionItems := by
  simp only [buildTransactionReceipt, bind_eq_ok, pure_eq_ok] at h
  obtain ⟨nested, hnested, _, -, _, -, _, -, rfl⟩ := h
  simp only [validateReceiptRecord, validateManifest, bind_eq_ok, rejectIf_eq_ok,
    exists_const, not_or, gt_iff_lt, Nat.not_lt] at hnested
  exact ⟨rfl, hnested.2.2.1.1⟩

/-- **The stored records of a repository are canonical.** What is built is read back, for
transactions as long as no changed binding lists too many ordinals and for attempts as long as the
claim fits the state; what is read is built again to the same bytes, without a condition. -/
theorem stored_records_canonical :
    (∀ (record : TransactionRecord) (transaction : ImportedTransaction),
      buildTransaction record = .ok transaction →
        (∀ binding ∈ record.changedEntityBindings,
          binding.mutationOrdinals.length ≤ maxTransactionItems) →
          transaction.record = record ∧
            importTransaction transaction.storedBytes = .ok transaction) ∧
      (∀ (input : Bytes) (transaction : ImportedTransaction),
        importTransaction input = .ok transaction →
          buildTransaction transaction.record = .ok transaction ∧
            transaction.storedBytes = input) ∧
      (∀ (record : TransactionReceiptRecord) (receipt : ImportedTransactionReceipt),
        buildTransactionReceipt record = .ok receipt →
          receipt.record = record ∧
            importTransactionReceipt receipt.storedBytes = .ok receipt) ∧
      (∀ (input : Bytes) (receipt : ImportedTransactionReceipt),
        importTransactionReceipt input = .ok receipt →
          buildTransactionReceipt receipt.record = .ok receipt ∧ receipt.storedBytes = input) ∧
      (∀ transactionId : TransactionId,
        decodeHead (encodeHead transactionId) = .ok transactionId) ∧
      (∀ (bytes : Bytes) (transactionId : TransactionId),
        decodeHead bytes = .ok transactionId → encodeHead transactionId = bytes) ∧
      (∀ record : AttemptRecord, record.claimFits = true →
        AttemptRecord.parse record.encode = .ok record) ∧
      ∀ (input : Bytes) (record : AttemptRecord),
        AttemptRecord.parse input = .ok record → record.encode = input := by
  refine ⟨fun record transaction h hordinals ↦ ?_, fun input transaction h ↦ ?_,
    fun record receipt h ↦ ?_, fun input receipt h ↦ ?_, decodeHead_encodeHead,
    fun bytes transactionId h ↦ (decodeHead_eq_ok.1 h).symm,
    fun record h ↦ AttemptRecord.parse_eq_ok.2 ⟨h, rfl⟩,
    fun input record h ↦ (AttemptRecord.parse_eq_ok.1 h).2.symm⟩
  · exact ⟨(buildCore_eq_ok h).1, importTransaction_of_buildTransaction h hordinals⟩
  · obtain ⟨hbuild, hstored, -⟩ := importTransaction_eq_ok.1 h
    exact ⟨hbuild, hstored⟩
  · obtain ⟨rfl, hitems⟩ := length_le_of_buildTransactionReceipt h
    exact ⟨rfl, importTransactionReceipt_eq_ok.2 ⟨h, rfl, hitems⟩⟩
  · obtain ⟨hbuild, hstored, -⟩ := importTransactionReceipt_eq_ok.1 h
    exact ⟨hbuild, hstored⟩

end

/-- An attempt that claims a promotion before it has one. -/
def earlyClaim : AttemptRecord where
  attemptId := ⟨List.replicate 16 0, rfl⟩
  workspace := Id.splat 1
  principal := Id.splat 2
  candidateId := Id.splat 3
  expectedParent := Id.splat 4
  state := .admitted
  transactionId := some (Id.splat 5)
  receiptId := none

/-- It is written and not read back. -/
theorem parse_earlyClaim :
    letI : Blake3 := ⟨fun _ ↦ Id.splat 0⟩
    AttemptRecord.parse earlyClaim.encode ≠ .ok earlyClaim := by
  let _ : Blake3 := ⟨fun _ ↦ Id.splat 0⟩
  intro h
  exact absurd (AttemptRecord.parse_eq_ok.1 h).1 (by decide)

end Sley.Txn
