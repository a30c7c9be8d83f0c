import Sley.Lib.Operation
import Sley.Txn.Attempt

/-!
# The attempt journal

How the journal of native commit attempts is written and read (`sley-txn/src/native_commit.rs`), and
who writes it: `commit_native` with its transitions, and the reconciliation of a recovery
(`sley-txn/src/repository.rs`).

A record is read back before it becomes the journal, so a write of a record that the parser refuses
does nothing but fail. Every writer keeps the rule of the parser on which states carry a promotion
claim, with one exception: a commit whose head was overtaken writes the aborted attempt with its
claim, and drops the failure. **The journal says what was last written to it exactly as long as no
commit loses the head** (`journal_faithful_iff`).
-/

namespace Sley.Txn

open Scb1 Mutate Root Policy
open AttemptRecord (claimFits parse parse_eq_ok)
open Function (update update_of_ne update_self)
open Operation (after attempt_bind bind_of_ok modify_eq ofExcept_eq ofState_bind
  preserves_ofExcept preserves_pure)
open Operation.Preserves (attempt bind ofExcept_bind)
open Except (bind_eq_ok mapError_eq_ok ofOption rejectIf)

section

variable [HostLayout] [Blake3]

/-! ### The files -/

/-- The files of one attempt. -/
structure AttemptFiles where
  active : Option Bytes
  settled : Option Bytes

/-- `attempts/` and `attempts/settled/`. Stages are not kept here: a write that fails removes its
stage. -/
abbrev AttemptDirectory := NativeAttemptId → AttemptFiles

def maxJournalBytes : Nat := 1024

namespace AttemptFiles

/-- What `attempt_path` leads to. -/
def current (files : AttemptFiles) : Option Bytes := files.active <|> files.settled

/-- A settled record is moved back before it is written. -/
def reactivate (files : AttemptFiles) : AttemptFiles :=
  match files.active with
  | some _ => files
  | none => ⟨files.settled, none⟩

end AttemptFiles

/-- Reads one journal record. -/
def readAttemptRecord (directory : AttemptDirectory) (attemptId : NativeAttemptId) :
    Except CommitError (Option AttemptRecord) :=
  match (directory attemptId).current with
  | none => .ok none
  | some bytes => do
    rejectIf (bytes.length > maxJournalBytes) (.native .journalCorrupt)
    let record ← (parse bytes).mapError .native
    return some record

/-- Removes a record from the recovery scan. -/
def parkAttemptRecord (attemptId : NativeAttemptId) :
    Operation AttemptDirectory CommitError Unit := do
  let active ← .ofState fun directory ↦
    ofOption (.transaction .io) (directory attemptId).active
  .modify fun directory ↦ update directory attemptId ⟨none, some active⟩

/-- The states whose records leave the recovery scan. -/
def AttemptState.settles : AttemptState → Bool
  | abortedBeforePromotion | committed | outcomeUnknown => true
  | _ => false

/-- Atomically persists one journal record. The stage and the final file are read back; both are the
bytes that were written. -/
def writeAttemptRecord (record : AttemptRecord) : Operation AttemptDirectory CommitError Unit := do
  .modify fun directory ↦
    update directory record.attemptId (directory record.attemptId).reactivate
  let _ ← .ofExcept ((parse record.encode).mapError fun _ ↦ .transaction .io)
  .modify fun directory ↦ update directory record.attemptId
    { directory record.attemptId with active := some record.encode }
  if record.state.settles then
    parkAttemptRecord record.attemptId

/-! ### The writers -/

/-- A record handed to `write_attempt_record`, and the files after it. -/
structure JournalWrite where
  record : AttemptRecord
  after : AttemptDirectory

/-- The journal, and what was handed to it, latest first. -/
structure Journal where
  directory : AttemptDirectory
  writes : List JournalWrite

namespace Journal

def read (attemptId : NativeAttemptId) : Operation Journal CommitError (Option AttemptRecord) :=
  .ofState fun journal ↦ readAttemptRecord journal.directory attemptId

def write (record : AttemptRecord) : Operation Journal CommitError Unit := fun journal ↦
  let (result, directory) := writeAttemptRecord record journal.directory
  (result, ⟨directory, ⟨record, directory⟩ :: journal.writes⟩)

def park (attemptId : NativeAttemptId) : Operation Journal CommitError Unit := fun journal ↦
  let (result, directory) := parkAttemptRecord attemptId journal.directory
  (result, ⟨directory, journal.writes⟩)

end Journal

/-- Records one journal state transition for the bound attempt. -/
def transitionAttempt (record : AttemptRecord) (state : AttemptState) :
    Operation Journal CommitError Unit :=
  Journal.write { record with state }

/-- What a committed attempt is reported as. -/
inductive NativeCommitOutcome
  | committed (transactionId : TransactionId) (receiptId : ReceiptId) (attemptId : NativeAttemptId)
  | rejected

/-- What one call of `commit_native` is given and meets, apart from the journal. -/
structure NativeCommitRun where
  attemptId : NativeAttemptId
  principal : PrincipalId
  expectedParent : TransactionId
  /-- The locks, the accepted head, and the validation of the candidate against the expected parent:
  the head, and the workspace and candidate that the attempt binds. -/
  validated : Except CommitError (TransactionId × WorkspaceId × CandidateId)
  /-- The verified replay of a committed attempt. -/
  replayed : AttemptRecord → Except CommitError NativeCommitOutcome
  /-- What the executor comes back with, if there is one. -/
  executor : Option (Except NativeCommitError Unit)
  coverage : Except TransactionErrorCode Unit
  /-- Whether the assembled evidence is accepted. -/
  evidence : Except CommitError Bool
  /-- The transaction and receipt that are built and verified. -/
  receipt : Except CommitError (TransactionId × ReceiptId)
  /-- The objects and the receipt are persisted. -/
  persisted : Except CommitError Unit
  /-- The head that the compare-and-swap reads, unless it cannot. -/
  headAtSwap : Except CommitError (Option TransactionId)
  /-- The rest of the compare-and-swap succeeds. -/
  swapped : Bool
  /-- The head that is read after a lost compare-and-swap. -/
  headAfter : Except CommitError (Option TransactionId)

namespace NativeCommitRun

variable (run : NativeCommitRun)

def unknown : CommitError := .native .outcomeUnknown

/-- The record that admits the attempt. -/
def journaled (workspace : WorkspaceId) (candidateId : CandidateId) : AttemptRecord where
  attemptId := run.attemptId
  workspace
  principal := run.principal
  candidateId
  expectedParent := run.expectedParent
  state := .admitted
  transactionId := none
  receiptId := none

/-- The attempt with its promotion claim. -/
def promoting (journaled : AttemptRecord) (transactionId : TransactionId) (receiptId : ReceiptId) :
    AttemptRecord :=
  { journaled with
    state := .promotionStarted
    transactionId := some transactionId
    receiptId := some receiptId }

/-- What follows the compare-and-swap. -/
def conclude (actual : TransactionId) (promoting : AttemptRecord) (outcome : NativeCommitOutcome)
    (found : Option TransactionId) : Operation Journal CommitError NativeCommitOutcome :=
  if found ≠ some actual then do
    -- a concurrent commit won
    (transitionAttempt promoting .abortedBeforePromotion).attempt
    let head ← .ofExcept run.headAfter
    let actual ← .ofExcept (ofOption unknown head)
    .ofExcept (.error (.staleRoot run.expectedParent actual))
  else if run.swapped = false then
    .ofExcept (.error unknown)
  else do
    (Journal.write { promoting with state := .committed }).mapError fun _ ↦ unknown
    return outcome

/-- From the promotion claim to the head. -/
def promote (actual : TransactionId) (journaled : AttemptRecord) (transactionId : TransactionId)
    (receiptId : ReceiptId) : Operation Journal CommitError NativeCommitOutcome := do
  (Journal.write (promoting journaled transactionId receiptId)).mapError fun _ ↦ unknown
  .ofExcept (run.persisted.mapError fun _ ↦ unknown)
  let found ← .ofExcept (run.headAtSwap.mapError fun _ ↦ unknown)
  run.conclude actual (promoting journaled transactionId receiptId)
    (.committed transactionId receiptId run.attemptId) found

/-- From the admitted attempt to the evidence. -/
def execute (actual : TransactionId) (journaled : AttemptRecord) :
    Operation Journal CommitError NativeCommitOutcome :=
  if actual ≠ run.expectedParent then do
    (transitionAttempt journaled .abortedBeforePromotion).attempt
    .ofExcept (.error (.staleRoot run.expectedParent actual))
  else match run.executor with
  | none => do
    (transitionAttempt journaled .abortedBeforePromotion).attempt
    .ofExcept (.error (.native .executorUnavailable))
  | some execution => do
    transitionAttempt journaled .running
    match execution with
    | .error error => do
      let state := if error = .outcomeUnknown ∨ error = .trustUnavailable ∨ error = .trustRejected
        then AttemptState.outcomeUnknown else .abortedBeforePromotion
      (transitionAttempt journaled state).attempt
      .ofExcept (.error (.native error))
    | .ok () =>
      match run.coverage with
      | .error code => do
        (transitionAttempt journaled .outcomeUnknown).attempt
        .ofExcept (.error (.transaction code))
      | .ok () =>
        match run.evidence with
        | .error error => do
          (transitionAttempt journaled .outcomeUnknown).attempt
          .ofExcept (.error error)
        | .ok false => do
          (transitionAttempt journaled .abortedBeforePromotion).attempt
          return .rejected
        | .ok true => do
          let (transactionId, receiptId) ← .ofExcept run.receipt
          run.promote actual journaled transactionId receiptId

/-- The attempt is journaled, unless the journal says how it ended. -/
def enter (actual : TransactionId) (journaled : AttemptRecord) :
    Operation Journal CommitError NativeCommitOutcome := do
  match ← Journal.read run.attemptId with
  | none => do
    Journal.write journaled
    run.execute actual journaled
  | some existing =>
    if existing.sameBindings journaled = false then
      .ofExcept (.error (.native .attemptConflict))
    else match existing.state with
    | .admitted | .running | .abortedBeforePromotion => do
      Journal.write journaled
      run.execute actual journaled
    | .promotionStarted | .outcomeUnknown => .ofExcept (.error unknown)
    | .committed => .ofExcept (run.replayed existing)

/-- `commit_native_inner`, as far as the journal is concerned. -/
def commitNative : Operation Journal CommitError NativeCommitOutcome := do
  let (actual, workspace, candidateId) ← .ofExcept run.validated
  run.enter actual (run.journaled workspace candidateId)

end NativeCommitRun

/-- What a recovery reconciles the journal with: the accepted head, and the receipts of format 2. -/
structure RecoveryView where
  acceptedTransactionId : Option TransactionId
  receiptOf : TransactionId → Option ReceiptId

namespace RecoveryView

variable (view : RecoveryView)

def maxJournalReconcileClaims : Nat := 4096

/-- A promotion claim or a committed record against the verified bytes. -/
def reconcileClaim (record : AttemptRecord) : Operation Journal CommitError Unit :=
  match record.transactionId, record.receiptId with
  | some transactionId, some receiptId =>
    if view.receiptOf transactionId ≠ some receiptId then
      Journal.write
        { record with state := .outcomeUnknown, transactionId := none, receiptId := none }
    else if view.acceptedTransactionId = some transactionId ∧ record.state = .promotionStarted then
      Journal.write { record with state := .committed }
    else if record.state = .committed then
      Journal.park record.attemptId
    else
      return
  | _, _ => .ofExcept (.error (.native .journalCorrupt))

/-- One entry of the directory, whose name may not be one of an attempt. -/
def reconcileEntry (claims : Nat) (entry : Option NativeAttemptId) :
    Operation Journal CommitError Nat := do
  let attemptId ← .ofExcept (ofOption (.native .journalCorrupt) entry)
  let found ← Journal.read attemptId
  let record ← .ofExcept (ofOption (.native .journalCorrupt) found)
  .ofExcept (rejectIf (record.attemptId ≠ attemptId) (.native .journalCorrupt))
  match record.state with
  | .promotionStarted => do
    .ofExcept (rejectIf (claims + 1 > maxJournalReconcileClaims)
      (.transaction .resourceLimit))
    view.reconcileClaim record
    return claims + 1
  | .committed => do
    view.reconcileClaim record
    return claims
  | _ => do
    Journal.park attemptId
    return claims

/-- Reconciles attempt hints against verified receipt and head bytes. -/
def reconcileAttemptJournal (entries : List (Option NativeAttemptId)) :
    Operation Journal CommitError Unit := do
  let _ ← entries.foldlM view.reconcileEntry 0
  return ()

end RecoveryView

/-- A call that writes the journal. -/
inductive JournalCall
  | commitNative (run : NativeCommitRun)
  | reconcile (view : RecoveryView) (entries : List (Option NativeAttemptId))

def JournalCall.run : JournalCall → Operation Journal CommitError Unit
  | commitNative run => do
    let _ ← run.commitNative
    return ()
  | reconcile view entries => view.reconcileAttemptJournal entries

/-! ### One write -/

variable {directory directory' : AttemptDirectory} {record : AttemptRecord}
  {attemptId : NativeAttemptId}

omit [HostLayout] [Blake3] in
theorem AttemptFiles.current_reactivate (files : AttemptFiles) :
    files.reactivate.current = files.current := by
  obtain ⟨active, settled⟩ := files
  cases active with
  | none => cases settled <;> rfl
  | some bytes => rfl

theorem readAttemptRecord_congr (h : (directory attemptId).current = (directory' attemptId).current) :
    readAttemptRecord directory attemptId = readAttemptRecord directory' attemptId := by
  rw [readAttemptRecord, readAttemptRecord, h]

omit [HostLayout] in
theorem AttemptRecord.length_encode_le (record : AttemptRecord) :
    record.encode.length ≤ maxJournalBytes := by
  have htransaction := length_optionBytes record.transactionId
  have hreceipt := length_optionBytes record.receiptId
  have hmagic : journalMagic.length = 8 := rfl
  have hmax : maxJournalBytes = 1024 := rfl
  simp only [encode, encodeBody, List.length_append, BigEndian.length_bytes, Id.length_eq,
    record.attemptId.length_eq, hmagic]
  omega

theorem readAttemptRecord_of_current (hfits : record.claimFits = true)
    (h : (directory attemptId).current = some record.encode) :
    readAttemptRecord directory attemptId = .ok (some record) := by
  rw [readAttemptRecord, h]
  refine bind_eq_ok.2 ⟨(), Except.rejectIf_eq_ok.2 (Nat.not_lt.2 record.length_encode_le), ?_⟩
  exact bind_eq_ok.2 ⟨record,
    mapError_eq_ok.2 (parse_eq_ok.2 ⟨hfits, rfl⟩), rfl⟩

omit [Blake3] in
theorem parkAttemptRecord_current (directory : AttemptDirectory) (attemptId other : NativeAttemptId) :
    ((parkAttemptRecord attemptId directory).2 other).current = (directory other).current := by
  rw [parkAttemptRecord, ofState_bind]
  split
  · rfl
  · rename_i active hactive
    have hactive : (directory attemptId).active = some active := Except.ofOption_eq_ok.1 hactive
    show (update directory attemptId ⟨none, some active⟩ other).current = _
    by_cases hother : other = attemptId
    · subst hother
      rw [update_self, AttemptFiles.current, AttemptFiles.current, hactive]
      rfl
    · rw [update_of_ne hother]

/-- The files with a record moved back and replaced. -/
def AttemptDirectory.activate (directory : AttemptDirectory) (record : AttemptRecord) :
    AttemptDirectory :=
  update (update directory record.attemptId (directory record.attemptId).reactivate)
    record.attemptId
    { (directory record.attemptId).reactivate with active := some record.encode }

omit [HostLayout] in
theorem AttemptDirectory.current_activate (other : NativeAttemptId) :
    (directory.activate record other).current =
      if other = record.attemptId then some record.encode else (directory other).current := by
  rw [activate]
  split
  · rename_i hother
    rw [hother, update_self]
    rfl
  · rename_i hother
    rw [update_of_ne hother, update_of_ne hother]

theorem writeAttemptRecord_eq (hfits : record.claimFits = true) (directory : AttemptDirectory) :
    writeAttemptRecord record directory =
      (if record.state.settles then parkAttemptRecord record.attemptId else pure ())
        (directory.activate record) := by
  have hparse : (parse record.encode).mapError (fun _ ↦ CommitError.transaction .io) =
      .ok record := mapError_eq_ok.2 (parse_eq_ok.2 ⟨hfits, rfl⟩)
  rw [writeAttemptRecord, bind_of_ok modify_eq, hparse, bind_of_ok ofExcept_eq,
    bind_of_ok modify_eq, update_self]
  rfl

/-- **A record whose claim fits is what is read from then on**, and no other record changes. -/
theorem writeAttemptRecord_current (hfits : record.claimFits = true) (directory : AttemptDirectory)
    (other : NativeAttemptId) :
    ((writeAttemptRecord record directory).2 other).current =
      if other = record.attemptId then some record.encode else (directory other).current := by
  rw [writeAttemptRecord_eq hfits, ← AttemptDirectory.current_activate]
  split
  · exact parkAttemptRecord_current _ _ _
  · rfl

omit [HostLayout] in
theorem AttemptRecord.encode_injective : Function.Injective AttemptRecord.encode := by
  intro self other h
  have hbody : self.encodeBody = other.encodeBody :=
    (List.append_inj' h (by rw [Id.length_eq, Id.length_eq])).1
  obtain ⟨r', hself, -⟩ := Cursor.exists_consumes_of_rest (c := Cursor.new self.encodeBody)
    (show _ = self.encodeBody ++ [] by rw [Cursor.new_rest, List.append_nil])
  have hother := hself
  rw [hbody] at hother
  have hparse := parseBody_eq_ok.2 hself
  rw [hbody, parseBody_eq_ok.2 hother] at hparse
  exact (Prod.mk.inj (Except.ok.inj hparse)).1.symm

/-- **A record whose claim does not fit is not written.** -/
theorem writeAttemptRecord_refused (hfits : record.claimFits = false) (directory : AttemptDirectory)
    (other : NativeAttemptId) :
    ((writeAttemptRecord record directory).2 other).current = (directory other).current := by
  rw [writeAttemptRecord, bind_of_ok modify_eq]
  cases hcase : parse record.encode with
  | error error =>
    have hstage : (Except.error error : Except NativeCommitError AttemptRecord).mapError
        (fun _ ↦ CommitError.transaction .io) = .error (.transaction .io) := rfl
    rw [hstage, Operation.bind_of_error ofExcept_eq]
    show (update directory record.attemptId _ other).current = _
    by_cases hother : other = record.attemptId
    · rw [hother, update_self, AttemptFiles.current_reactivate]
    · rw [update_of_ne hother]
  | ok found =>
    obtain ⟨hfound, hencode⟩ := parse_eq_ok.1 hcase
    rw [AttemptRecord.encode_injective hencode, hfound] at hfits
    cases hfits

/-! ### What the journal says -/

/-- The record that was handed over is parsed to itself, and is what is read. -/
def JournalWrite.TakesEffect (write : JournalWrite) : Prop :=
  parse write.record.encode = .ok write.record ∧
    readAttemptRecord write.after write.record.attemptId = .ok (some write.record)

namespace Journal

/-- The record of an attempt that was handed over last. -/
def lastWrite (journal : Journal) (attemptId : NativeAttemptId) : Option AttemptRecord :=
  (journal.writes.map (·.record)).find? fun record ↦ record.attemptId = attemptId

/-- Every write takes effect, and what is read of an attempt is what was written last. -/
structure Faithful (start : AttemptDirectory) (journal : Journal) : Prop where
  effective : ∀ write ∈ journal.writes, write.TakesEffect
  read_eq : ∀ attemptId, readAttemptRecord journal.directory attemptId =
    match journal.lastWrite attemptId with
    | some record => .ok (some record)
    | none => readAttemptRecord start attemptId

variable {start : AttemptDirectory} {journal : Journal}

theorem faithful_start (start : AttemptDirectory) : Faithful start ⟨start, []⟩ where
  effective := fun _ h ↦ (List.not_mem_nil h).elim
  read_eq := fun _ ↦ rfl

theorem preserves_write (hfits : record.claimFits = true) : (write record).Preserves (Faithful start) := by
  intro journal hjournal
  have hread : readAttemptRecord (writeAttemptRecord record journal.directory).2 record.attemptId =
      .ok (some record) := by
    refine readAttemptRecord_of_current hfits ?_
    rw [writeAttemptRecord_current hfits, if_pos rfl]
  constructor
  · refine List.forall_mem_cons.2 ⟨⟨parse_eq_ok.2 ⟨hfits, rfl⟩, hread⟩, ?_⟩
    exact hjournal.effective
  · intro attemptId
    show readAttemptRecord (writeAttemptRecord record journal.directory).2 attemptId =
      match (record :: journal.writes.map (·.record)).find? fun record ↦
          record.attemptId = attemptId with
      | some record => .ok (some record)
      | none => readAttemptRecord start attemptId
    by_cases hid : record.attemptId = attemptId
    · subst hid
      rw [List.find?_cons_of_pos (by simp), hread]
    · rw [List.find?_cons_of_neg (by simpa using hid)]
      refine Eq.trans (readAttemptRecord_congr ?_) (hjournal.read_eq attemptId)
      rw [writeAttemptRecord_current hfits, if_neg (Ne.symm hid)]

theorem preserves_park (attemptId : NativeAttemptId) :
    (park attemptId : Operation Journal CommitError Unit).Preserves (Faithful start) := by
  intro journal hjournal
  refine ⟨hjournal.effective, fun other ↦ ?_⟩
  exact (readAttemptRecord_congr (parkAttemptRecord_current _ _ _)).trans (hjournal.read_eq other)

theorem write_ok (hfits : record.claimFits = true) (journal : Journal) :
    ∃ journal', write record journal = (.ok (), journal') := by
  refine ⟨(write record journal).2, Prod.ext ?_ rfl⟩
  show (writeAttemptRecord record journal.directory).1 = .ok ()
  rw [writeAttemptRecord_eq hfits]
  split
  · rw [parkAttemptRecord, ofState_bind, AttemptDirectory.activate, update_self]
    rfl
  · rfl

/-- Some write does not take effect. -/
def Fails (journal : Journal) : Prop := ∃ write ∈ journal.writes, ¬ write.TakesEffect

theorem fails_write (hfits : record.claimFits = false) (journal : Journal) :
    (write record journal).2.Fails := by
  refine ⟨_, List.mem_cons_self, fun htakes ↦ ?_⟩
  rw [(parse_eq_ok.1 htakes.1).1] at hfits
  cases hfits

theorem preserves_fails_write : (write record).Preserves Fails := by
  rintro journal ⟨bad, hbad, htakes⟩
  exact ⟨bad, List.mem_cons_of_mem _ hbad, htakes⟩

theorem preserves_fails_park (attemptId : NativeAttemptId) :
    (park attemptId : Operation Journal CommitError Unit).Preserves Fails := fun _ hjournal ↦ hjournal

theorem Faithful.not_fails (h : Faithful start journal) : ¬ journal.Fails :=
  fun ⟨bad, hbad, htakes⟩ ↦ htakes (h.effective bad hbad)

end Journal

/-! ### Commits -/

namespace NativeCommitRun

variable {run : NativeCommitRun} {actual : TransactionId} {workspace : WorkspaceId}
  {candidateId : CandidateId} {transactionId : TransactionId} {receiptId : ReceiptId}
  {I : Journal → Prop}

/-- The commit comes to the compare-and-swap and finds another head than the one it started from. -/
def Overtaken (run : NativeCommitRun) : Prop :=
  run.executor = some (.ok ()) ∧ run.coverage = .ok () ∧ run.evidence = .ok true ∧
    (∃ identities, run.receipt = .ok identities) ∧ run.persisted = .ok () ∧
      ∃ found, run.headAtSwap = .ok found ∧ found ≠ some run.expectedParent

/-- The journal lets the attempt start, or start again. -/
def Admits (directory : AttemptDirectory) (record : AttemptRecord) : Prop :=
  ∃ found, readAttemptRecord directory record.attemptId = .ok found ∧
    ∀ existing ∈ found, existing.sameBindings record = true ∧
      (existing.state = .admitted ∨ existing.state = .running ∨
        existing.state = .abortedBeforePromotion)

/-- The commit loses the head to another one. -/
def LosesHead (run : NativeCommitRun) (directory : AttemptDirectory) : Prop :=
  run.Overtaken ∧ ∃ workspace candidateId,
    run.validated = .ok (run.expectedParent, workspace, candidateId) ∧
      Admits directory (run.journaled workspace candidateId)

variable {found : Option TransactionId} {outcome : NativeCommitOutcome}

section

variable (hwrite : ∀ record : AttemptRecord, record.claimFits = true → (Journal.write record).Preserves I)

include hwrite

theorem preserves_conclude
    (hlost : found ≠ some actual → ∀ record : AttemptRecord, (Journal.write record).Preserves I) :
    (run.conclude actual (promoting (run.journaled workspace candidateId) transactionId receiptId)
      outcome found).Preserves I := by
  rw [conclude]
  split
  · rename_i hne
    exact (hlost hne _).attempt.bind fun _ ↦ preserves_ofExcept.bind fun _ ↦
      preserves_ofExcept.bind fun _ ↦ preserves_ofExcept
  split
  · exact preserves_ofExcept
  · exact (hwrite _ rfl).mapError.bind fun _ ↦ preserves_pure

/-- **Every write of a commit is kept**, if the writes of records whose claim fits are, and the one
after a lost compare-and-swap. -/
theorem preserves_promote
    (hlost : run.persisted = .ok () → ∀ found, run.headAtSwap = .ok found → found ≠ some actual →
      ∀ record : AttemptRecord, (Journal.write record).Preserves I) :
    (run.promote actual (run.journaled workspace candidateId) transactionId receiptId).Preserves I := by
  refine (hwrite _ rfl).mapError.bind fun _ ↦ ofExcept_bind fun _ hpersisted ↦ ?_
  refine ofExcept_bind fun found hfound ↦ preserves_conclude hwrite ?_
  exact hlost (mapError_eq_ok.1 hpersisted) found (mapError_eq_ok.1 hfound)

theorem preserves_execute (hlost : actual = run.expectedParent → run.Overtaken →
      ∀ record : AttemptRecord, (Journal.write record).Preserves I) :
    (run.execute actual (run.journaled workspace candidateId)).Preserves I := by
  rw [execute]
  split
  · exact (hwrite _ rfl).attempt.bind fun _ ↦ preserves_ofExcept
  rename_i hactual
  split
  · exact (hwrite _ rfl).attempt.bind fun _ ↦ preserves_ofExcept
  rename_i execution hexecution
  refine bind (hwrite _ rfl) fun _ ↦ ?_
  split
  · refine bind (attempt (hwrite _ ?_)) fun _ ↦
      preserves_ofExcept
    split <;> rfl
  split
  · exact (hwrite _ rfl).attempt.bind fun _ ↦ preserves_ofExcept
  rename_i hcoverage
  split
  · exact (hwrite _ rfl).attempt.bind fun _ ↦ preserves_ofExcept
  · exact (hwrite _ rfl).attempt.bind fun _ ↦ preserves_pure
  rename_i hevidence
  refine ofExcept_bind fun identities hreceipt ↦ ?_
  refine preserves_promote hwrite fun hpersisted found hfound hne ↦ ?_
  have hparent : actual = run.expectedParent := not_not.1 hactual
  rw [hparent] at hne
  exact hlost hparent
    ⟨hexecution, hcoverage, hevidence, ⟨identities, hreceipt⟩, hpersisted, found, hfound, hne⟩

end

variable {journal : Journal}

theorem enter_preserves (hI : I journal)
    (hwrite : ∀ record : AttemptRecord, record.claimFits = true → (Journal.write record).Preserves I)
    (hlost : actual = run.expectedParent → run.Overtaken →
      Admits journal.directory (run.journaled workspace candidateId) →
        ∀ record : AttemptRecord, (Journal.write record).Preserves I) :
    I (run.enter actual (run.journaled workspace candidateId) journal).2 := by
  have hstart (hadmits : Admits journal.directory (run.journaled workspace candidateId)) :
      I ((Journal.write (run.journaled workspace candidateId) >>= fun _ ↦
        run.execute actual (run.journaled workspace candidateId)) journal).2 :=
    (hwrite _ rfl).bind (fun _ ↦ preserves_execute hwrite fun hactual hovertaken ↦
      hlost hactual hovertaken hadmits) journal hI
  rw [enter, Journal.read, ofState_bind]
  split
  · exact hI
  rename_i found hfound
  split
  · exact hstart ⟨none, hfound, fun _ h ↦ (Option.not_mem_none _ h).elim⟩
  rename_i existing
  split
  · exact hI
  rename_i hbindings
  have hadmits (hstate : existing.state = .admitted ∨ existing.state = .running ∨
      existing.state = .abortedBeforePromotion) :
      Admits journal.directory (run.journaled workspace candidateId) := by
    refine ⟨some existing, hfound, fun other hother ↦ ?_⟩
    obtain rfl := Option.some.inj hother
    exact ⟨Bool.eq_true_of_not_eq_false hbindings, hstate⟩
  cases hstate : existing.state with
  | admitted => exact hstart (hadmits (.inl hstate))
  | running => exact hstart (hadmits (.inr (.inl hstate)))
  | abortedBeforePromotion => exact hstart (hadmits (.inr (.inr hstate)))
  | promotionStarted => exact hI
  | outcomeUnknown => exact hI
  | committed => exact hI

theorem commitNative_preserves (hI : I journal)
    (hwrite : ∀ record : AttemptRecord, record.claimFits = true → (Journal.write record).Preserves I)
    (hlost : run.LosesHead journal.directory →
      ∀ record : AttemptRecord, (Journal.write record).Preserves I) :
    I (run.commitNative journal).2 := by
  rw [commitNative, Operation.ofExcept_bind]
  split
  · exact hI
  rename_i validated hvalidated
  obtain ⟨actual, workspace, candidateId⟩ := validated
  refine enter_preserves hI hwrite fun hactual hovertaken hadmits ↦ ?_
  exact hlost ⟨hovertaken, workspace, candidateId, by rw [hvalidated, hactual], hadmits⟩

/-- **A commit that loses the head hands over a record that is not written.** -/
theorem fails_conclude (hne : found ≠ some actual) (journal : Journal) :
    (run.conclude actual (promoting (run.journaled workspace candidateId) transactionId receiptId)
      outcome found journal).2.Fails := by
  have hfails : (transitionAttempt
      (promoting (run.journaled workspace candidateId) transactionId receiptId)
        .abortedBeforePromotion journal).2.Fails := Journal.fails_write rfl journal
  rw [conclude, if_pos hne, attempt_bind]
  exact (preserves_ofExcept.bind fun _ ↦ preserves_ofExcept.bind fun _ ↦
    preserves_ofExcept) _ hfails

/-- A lost compare-and-swap leaves what is read as it was. -/
theorem read_conclude
    (hne : found ≠ some actual) (journal : Journal) (attemptId : NativeAttemptId) :
    readAttemptRecord (run.conclude actual (promoting (run.journaled workspace candidateId)
      transactionId receiptId) outcome found journal).2.directory attemptId =
        readAttemptRecord journal.directory attemptId := by
  rw [conclude, if_pos hne, attempt_bind]
  refine Eq.trans ?_ (readAttemptRecord_congr (writeAttemptRecord_refused
    (show claimFits { run.journaled workspace candidateId with
      state := .abortedBeforePromotion
      transactionId := some transactionId
      receiptId := some receiptId } = false from rfl) journal.directory attemptId))
  exact (preserves_ofExcept.bind fun _ ↦ preserves_ofExcept.bind fun _ ↦
    preserves_ofExcept (I := fun journal' : Journal ↦ readAttemptRecord journal'.directory attemptId = _))
    _ rfl

theorem exists_promote (hpersisted : run.persisted = .ok ())
    (hfound : run.headAtSwap = .ok found) (journal : Journal) :
    ∃ journal', Journal.write (promoting (run.journaled workspace candidateId) transactionId receiptId)
        journal = (.ok (), journal') ∧
      run.promote actual (run.journaled workspace candidateId) transactionId receiptId journal =
        run.conclude actual (promoting (run.journaled workspace candidateId) transactionId receiptId)
          (.committed transactionId receiptId run.attemptId) found journal' := by
  obtain ⟨journal', hwrite⟩ := Journal.write_ok
    (show (promoting (run.journaled workspace candidateId) transactionId receiptId).claimFits = true
      from rfl) journal
  have hpromoting : (Journal.write (promoting (run.journaled workspace candidateId) transactionId
      receiptId)).mapError (fun _ ↦ unknown) journal = (.ok (), journal') := by
    rw [Operation.mapError, hwrite]
    rfl
  have hpersisted : run.persisted.mapError (fun _ ↦ unknown) = .ok () :=
    mapError_eq_ok.2 hpersisted
  have hfound : run.headAtSwap.mapError (fun _ ↦ unknown) = .ok found :=
    mapError_eq_ok.2 hfound
  refine ⟨journal', hwrite, ?_⟩
  rw [promote, hpersisted, hfound, bind_of_ok hpromoting,
    bind_of_ok ofExcept_eq, bind_of_ok ofExcept_eq]

theorem exists_execute (hovertaken : run.Overtaken) (journal : Journal) :
    ∃ journal', run.execute run.expectedParent (run.journaled workspace candidateId) journal = (do
        let (transactionId, receiptId) ← Operation.ofExcept run.receipt
        run.promote run.expectedParent (run.journaled workspace candidateId) transactionId
          receiptId) journal' := by
  obtain ⟨hexecutor, hcoverage, hevidence, -⟩ := hovertaken
  obtain ⟨journal', hrunning⟩ := Journal.write_ok
    (show claimFits { run.journaled workspace candidateId with state := .running } = true
      from rfl) journal
  have hrunning : transitionAttempt (run.journaled workspace candidateId) .running journal =
      (.ok (), journal') := hrunning
  refine ⟨journal', ?_⟩
  rw [execute, if_neg (not_not.2 rfl), hexecutor]
  show (transitionAttempt _ _ >>= fun _ ↦ _) journal = _
  rw [bind_of_ok hrunning, hcoverage, hevidence]

theorem exists_enter (hadmits : Admits journal.directory (run.journaled workspace candidateId)) :
    ∃ journal', run.enter actual (run.journaled workspace candidateId) journal =
      run.execute actual (run.journaled workspace candidateId) journal' := by
  obtain ⟨found, hfound, hexisting⟩ := hadmits
  obtain ⟨journal', hadmitted⟩ := Journal.write_ok
    (show (run.journaled workspace candidateId).claimFits = true from rfl) journal
  have hfound : readAttemptRecord journal.directory run.attemptId = .ok found := hfound
  refine ⟨journal', ?_⟩
  rw [enter, Journal.read, ofState_bind, hfound]
  cases found with
  | none => exact bind_of_ok hadmitted
  | some existing =>
    obtain ⟨hbindings, hstate⟩ := hexisting existing rfl
    show (if existing.sameBindings _ = false then _ else _ : Operation Journal CommitError _)
      journal = _
    rw [if_neg (Bool.not_eq_false _ ▸ hbindings)]
    rcases hstate with hstate | hstate | hstate
    all_goals
      rw [hstate]
      exact bind_of_ok hadmitted

section

variable (h : run.LosesHead journal.directory)

include h

/-- **How a commit that loses the head ends**: with the promotion claim written, behind the
compare-and-swap. -/
theorem exists_conclude : ∃ workspace candidateId transactionId receiptId found journal₀ journal₁,
      found ≠ some run.expectedParent ∧
        Journal.write (promoting (run.journaled workspace candidateId) transactionId receiptId)
          journal₀ = (.ok (), journal₁) ∧
        run.commitNative journal = run.conclude run.expectedParent
          (promoting (run.journaled workspace candidateId) transactionId receiptId)
          (.committed transactionId receiptId run.attemptId) found journal₁ := by
  obtain ⟨hovertaken, workspace, candidateId, hvalidated, hadmits⟩ := h
  have hstages := hovertaken
  obtain ⟨-, -, -, ⟨⟨transactionId, receiptId⟩, hreceipt⟩, hpersisted, found, hfound, hne⟩ :=
    hstages
  obtain ⟨journal', hadmit⟩ := exists_enter hadmits
  obtain ⟨journal₀, hexecute⟩ := exists_execute hovertaken journal'
  obtain ⟨journal₁, hwrite, hpromote⟩ := exists_promote hpersisted hfound journal₀
  refine ⟨workspace, candidateId, transactionId, receiptId, found, journal₀, journal₁, hne, hwrite, ?_⟩
  rw [commitNative, hvalidated, bind_of_ok ofExcept_eq]
  refine hadmit.trans (hexecute.trans ?_)
  rw [hreceipt, bind_of_ok ofExcept_eq]
  exact hpromote

/-- **A commit that loses the head hands over a record that is not written.** -/
theorem fails_commitNative : (run.commitNative journal).2.Fails := by
  obtain ⟨workspace, candidateId, transactionId, receiptId, found, -, journal₁, hne, -, hcommit⟩ :=
    exists_conclude h
  rw [hcommit]
  exact fails_conclude hne journal₁

/-- Its attempt stays a promotion claim. -/
theorem read_commitNative :
    ∃ record, readAttemptRecord (run.commitNative journal).2.directory run.attemptId =
      .ok (some record) ∧ record.state = .promotionStarted := by
  obtain ⟨workspace, candidateId, transactionId, receiptId, found, journal₀, journal₁, hne, hwrite,
    hcommit⟩ := exists_conclude h
  refine ⟨promoting (run.journaled workspace candidateId) transactionId receiptId, ?_, rfl⟩
  rw [hcommit, read_conclude hne]
  refine readAttemptRecord_of_current rfl ?_
  have hdirectory : journal₁.directory = (writeAttemptRecord (promoting
      (run.journaled workspace candidateId) transactionId receiptId) journal₀.directory).2 :=
    congrArg (fun result ↦ result.2.directory) hwrite.symm
  rw [hdirectory, writeAttemptRecord_current rfl]
  exact if_pos rfl

end

end NativeCommitRun

/-! ### Recoveries -/

namespace RecoveryView

variable {view : RecoveryView} {I : Journal → Prop}

section

variable (hwrite : ∀ record : AttemptRecord, record.claimFits = true → (Journal.write record).Preserves I)

include hwrite

section

variable (hpark : ∀ attemptId, (Journal.park attemptId : Operation Journal CommitError Unit).Preserves I)

include hpark

theorem preserves_reconcileClaim : (view.reconcileClaim record).Preserves I := by
  rw [reconcileClaim]
  split
  · rename_i transactionId receiptId htransaction hreceipt
    split
    · exact hwrite _ rfl
    split
    · refine hwrite _ ?_
      show (record.transactionId.isSome && record.receiptId.isSome) = true
      rw [htransaction, hreceipt]
      rfl
    split
    · exact hpark _
    · exact preserves_pure
  · exact preserves_ofExcept

theorem preserves_reconcileEntry {claims : Nat} {entry : Option NativeAttemptId} :
    (view.reconcileEntry claims entry).Preserves I := by
  refine preserves_ofExcept.bind fun attemptId ↦ Operation.reads_ofState.preserves.bind fun found ↦
    preserves_ofExcept.bind fun record ↦ preserves_ofExcept.bind fun _ ↦ ?_
  have hclaim : (view.reconcileClaim record).Preserves I := preserves_reconcileClaim hwrite hpark
  cases record.state with
  | promotionStarted =>
    exact preserves_ofExcept.bind fun _ ↦ hclaim.bind fun _ ↦ preserves_pure
  | committed => exact hclaim.bind fun _ ↦ preserves_pure
  | admitted => exact (hpark attemptId).bind fun _ ↦ preserves_pure
  | running => exact (hpark attemptId).bind fun _ ↦ preserves_pure
  | abortedBeforePromotion => exact (hpark attemptId).bind fun _ ↦ preserves_pure
  | outcomeUnknown => exact (hpark attemptId).bind fun _ ↦ preserves_pure

/-- **A recovery writes no record that is refused.** -/
theorem preserves_reconcileAttemptJournal {entries : List (Option NativeAttemptId)} :
    (view.reconcileAttemptJournal entries).Preserves I :=
  (Operation.preserves_foldlM fun _ _ ↦ preserves_reconcileEntry hwrite hpark).bind fun _ ↦
    preserves_pure

end

end

end RecoveryView

/-! ### Runs of calls -/

namespace JournalCall

/-- The call is a commit that loses the head. -/
def LosesHead (journal : Journal) : JournalCall → Prop
  | commitNative run => run.LosesHead journal.directory
  | reconcile _ _ => False

variable {journal : Journal}

theorem snd_run_commitNative {run : NativeCommitRun} :
    ((commitNative run).run journal).2 = (run.commitNative journal).2 := by
  rw [JournalCall.run, Operation.snd_bind_pure]

theorem run_preserves {I : Journal → Prop} {call : JournalCall} (hI : I journal)
    (hwrite : ∀ record : AttemptRecord, record.claimFits = true → (Journal.write record).Preserves I)
    (hpark : ∀ attemptId, (Journal.park attemptId : Operation Journal CommitError Unit).Preserves I)
    (hlost : call.LosesHead journal → ∀ record : AttemptRecord, (Journal.write record).Preserves I) :
    I (call.run journal).2 := by
  cases call with
  | commitNative run =>
    rw [snd_run_commitNative]
    exact NativeCommitRun.commitNative_preserves hI hwrite hlost
  | reconcile view entries =>
    exact RecoveryView.preserves_reconcileAttemptJournal hwrite hpark journal hI

theorem fails_run {call : JournalCall} (h : call.LosesHead journal) :
    (call.run journal).2.Fails := by
  cases call with
  | commitNative run =>
    rw [snd_run_commitNative]
    exact NativeCommitRun.fails_commitNative h
  | reconcile view entries => exact h.elim

end JournalCall

/-- **The journal says what was written, as long as no commit loses the head.** In a run of commits
and recoveries every record that is handed over is parsed to itself, takes effect at once, and is read
until the next one, exactly if every commit that comes to the compare-and-swap finds the head it
started from. -/
theorem journal_faithful_iff (calls : List JournalCall) (start : AttemptDirectory) :
    Journal.Faithful start (Operation.after JournalCall.run calls ⟨start, []⟩) ↔
      Operation.Admitted (fun journal call ↦ ¬ call.LosesHead journal) JournalCall.run calls
        ⟨start, []⟩ := by
  constructor
  · intro hfaithful
    by_contra hadmitted
    refine hfaithful.not_fails (Operation.after_of_not_admitted (fun journal call hlost ↦ ?_)
      (fun call journal hfails ↦ ?_) hadmitted)
    · exact JournalCall.fails_run (not_not.1 hlost)
    · exact JournalCall.run_preserves hfails (fun _ _ ↦ Journal.preserves_fails_write)
        Journal.preserves_fails_park fun _ _ ↦ Journal.preserves_fails_write
  · intro hadmitted
    refine Operation.invariant_of_admitted (I := fun _ ↦ Journal.Faithful start) hadmitted
      (Journal.faithful_start start) fun _ journal call hfaithful hkeeps ↦ ?_
    exact JournalCall.run_preserves hfaithful (fun _ ↦ Journal.preserves_write) Journal.preserves_park
      fun hlost ↦ absurd hlost hkeeps

end

/-- A commit that another one overtakes between its start and its compare-and-swap. -/
def overtakenRun [HostLayout] : NativeCommitRun where
  attemptId := ⟨List.replicate 16 7, rfl⟩
  principal := Id.splat 1
  expectedParent := Id.splat 2
  validated := .ok (Id.splat 2, Id.splat 3, Id.splat 4)
  replayed := fun _ ↦ .ok .rejected
  executor := some (.ok ())
  coverage := .ok ()
  evidence := .ok true
  receipt := .ok (Id.splat 5, Id.splat 6)
  persisted := .ok ()
  headAtSwap := .ok (some (Id.splat 8))
  swapped := true
  headAfter := .ok (some (Id.splat 8))

/-- The journal it leaves behind. -/
def overtakenJournal [HostLayout] [Blake3] : Journal :=
  after JournalCall.run [.commitNative overtakenRun] ⟨fun _ ↦ ⟨none, none⟩, []⟩

theorem overtakenJournal_eq [HostLayout] [Blake3] :
    overtakenJournal = (overtakenRun.commitNative ⟨fun _ ↦ ⟨none, none⟩, []⟩).2 := by
  rw [overtakenJournal, after, after, JournalCall.snd_run_commitNative]

theorem overtakenRun_losesHead [HostLayout] [Blake3] :
    overtakenRun.LosesHead fun _ ↦ ⟨none, none⟩ := by
  refine ⟨⟨rfl, rfl, rfl, ⟨_, rfl⟩, rfl, _, rfl, fun h ↦ ?_⟩, _, _, rfl, none, rfl,
    fun _ h ↦ (Option.not_mem_none _ h).elim⟩
  exact absurd (Option.some.inj h) (show (Id.splat 8 : TransactionId) ≠ Id.splat 2 by decide)

/-- **The attempt stays a promotion claim.** The aborted record still holds the claim; it is refused
where it is staged, and what is read of the attempt is what was written before. -/
theorem not_journal_faithful :
    letI := hostLayout64
    letI : Blake3 := ⟨fun _ ↦ Id.splat 0⟩
    ¬ Journal.Faithful (fun _ ↦ ⟨none, none⟩) overtakenJournal ∧
      ∃ record, readAttemptRecord overtakenJournal.directory overtakenRun.attemptId =
        .ok (some record) ∧ record.state = .promotionStarted := by
  let _ := hostLayout64
  let _ : Blake3 := ⟨fun _ ↦ Id.splat 0⟩
  rw [overtakenJournal_eq]
  exact ⟨fun hfaithful ↦
    hfaithful.not_fails (NativeCommitRun.fails_commitNative overtakenRun_losesHead),
    NativeCommitRun.read_commitNative overtakenRun_losesHead⟩

end Sley.Txn
