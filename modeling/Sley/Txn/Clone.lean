import Sley.Lib.Deferral
import Sley.Lib.Operation
import Sley.Lib.OrderedMap
import Sley.Txn.Commit

/-!
# Installing the receipts of a clone

A clone installs the receipts it is given into a marked root
(`initialize_trusted_clone_receipts_with_maintenance` and its mixed-format twin in
`sley-txn/src/repository.rs`): it reads them all, and then goes over them in passes, each of which
installs the receipts whose parents among them are installed.

What is verified and written of one receipt is a parameter, `CloneHost`, and may stop the call. **The
installation is the run of these steps along an order that depends on the set of receipts alone, in
which every receipt stands once and behind its parents**; what the passes leave over is the receipts
of a cycle and of what descends from it (`initializeCloneReceipts_installs`).
-/

namespace Sley.Txn

open Scb1 Mutate Root Policy
open Except (bind_eq_ok pure_eq_ok rejectIf)
open Operation (bind_of_error bind_of_ok)
open Deferral (length_pass schedule)

/-! ### Reading the receipts -/

namespace ImportedReceipt

variable [HostLayout]

def parentTransactionIds (receipt : ImportedReceipt) : List TransactionId :=
  receipt.transactionRecord.parentTransactionIds

/-- The record of a receipt, which says what receipt it is (`record_injective`). -/
def record : ImportedReceipt → TransactionReceiptRecord ⊕ NativeTransactionReceiptRecord
  | v1 receipt => .inl receipt.record
  | v2 receipt => .inr receipt.record

end ImportedReceipt

/-- Whether the stored bytes are all of format 1, or each says its format. -/
inductive CloneFormat
  | v1
  | mixed

section

variable [HostLayout] [CandidateLayout] [Blake3] [ConformanceRegistry] [ReceiptParts]

namespace CloneFormat

variable (format : CloneFormat)

def importReceipt (stored : Bytes) : CodecResult ImportedReceipt :=
  match format with
  | v1 => do
    let receipt ← importTransactionReceipt stored
    return .v1 receipt
  | mixed => importReceiptAny stored

/-- `BTreeMap<TransactionId, ImportedReceipt>`. -/
abbrev Decoded := Std.ExtTreeMap TransactionId ImportedReceipt

def decodeReceipt (decoded : Decoded) (stored : Bytes) : Except CommitError Decoded := do
  let receipt ← ofCodec (format.importReceipt stored)
  match decoded[receipt.transactionId]? with
  | some existing =>
    rejectIf (existing.record ≠ receipt.record) (.transaction .receiptConflict)
    return decoded
  | none => return decoded.insert receipt.transactionId receipt

def decodeReceipts (receipts : List Bytes) : Except CommitError Decoded :=
  receipts.foldlM format.decodeReceipt ∅

/-- Some of the stored bytes are read as the receipt. -/
def Lists (receipts : List Bytes) (receipt : ImportedReceipt) : Prop :=
  ∃ stored ∈ receipts, format.importReceipt stored = .ok receipt

end CloneFormat

variable {format : CloneFormat} {receipts receipts' : List Bytes} {stored : Bytes}
  {receipt : ImportedReceipt}

theorem buildNativeTransactionReceipt_record {record : NativeTransactionReceiptRecord}
    {receipt : ImportedNativeTransactionReceipt}
    (h : buildNativeTransactionReceipt record = .ok receipt) : receipt.record = record := by
  simp only [buildNativeTransactionReceipt, bind_eq_ok, pure_eq_ok] at h
  obtain ⟨_, -, _, -, _, -, _, -, _, -, _, -, _, -, _, -, _, -, _, -, _, -, _, -, _, -, _, -, _, -,
    _, -, _, -, _, -, _, -, rfl⟩ := h
  rfl

theorem buildNative_of_importNativeTransactionReceipt
    {receipt : ImportedNativeTransactionReceipt}
    (h : importNativeTransactionReceipt stored = .ok receipt) :
    buildNativeTransactionReceipt receipt.record = .ok receipt := by
  simp only [importNativeTransactionReceipt, bind_eq_ok, pure_eq_ok] at h
  obtain ⟨_, -, _, -, record, -, rebuilt, hrebuilt, _, -, rfl⟩ := h
  rwa [buildNativeTransactionReceipt_record hrebuilt]

/-- A receipt that is read is what its record builds. -/
theorem ImportedReceipt.builds_of_importReceiptAny (h : importReceiptAny stored = .ok receipt) :
    match receipt with
    | .v1 receipt => buildTransactionReceipt receipt.record = .ok receipt
    | .v2 receipt => buildNativeTransactionReceipt receipt.record = .ok receipt := by
  obtain ⟨-, -, h⟩ := bind_eq_ok.1 h
  split at h
  · obtain ⟨inner, hinner, h⟩ := bind_eq_ok.1 h
    obtain rfl := pure_eq_ok.1 h
    exact (importTransactionReceipt_eq_ok.1 hinner).1
  · split at h
    · obtain ⟨inner, hinner, h⟩ := bind_eq_ok.1 h
      obtain rfl := pure_eq_ok.1 h
      exact buildNative_of_importNativeTransactionReceipt hinner
    · cases h

theorem importReceiptAny_of_importReceipt (h : format.importReceipt stored = .ok receipt) :
    importReceiptAny stored = .ok receipt := by
  cases format with
  | mixed => exact h
  | v1 =>
    obtain ⟨inner, hinner, h⟩ := bind_eq_ok.1 h
    obtain rfl := pure_eq_ok.1 h
    exact importReceiptAny_of_importTransactionReceipt hinner

/-- Receipts that are read are compared by their records. -/
theorem record_injective {stored' : Bytes} {receipt' : ImportedReceipt}
    (h : format.importReceipt stored = .ok receipt)
    (h' : format.importReceipt stored' = .ok receipt') :
    receipt.record = receipt'.record ↔ receipt = receipt' := by
  refine ⟨fun heq ↦ ?_, congrArg _⟩
  have hbuild := ImportedReceipt.builds_of_importReceiptAny (importReceiptAny_of_importReceipt h)
  have hbuild' := ImportedReceipt.builds_of_importReceiptAny (importReceiptAny_of_importReceipt h')
  cases receipt with
  | v1 inner =>
    cases receipt' with
    | v1 inner' =>
      simp only at hbuild hbuild'
      rw [Sum.inl.inj heq] at hbuild
      exact congrArg _ (Except.ok.inj (hbuild.symm.trans hbuild'))
    | v2 inner' => cases heq
  | v2 inner =>
    cases receipt' with
    | v1 inner' => cases heq
    | v2 inner' =>
      simp only at hbuild hbuild'
      rw [Sum.inr.inj heq] at hbuild
      exact congrArg _ (Except.ok.inj (hbuild.symm.trans hbuild'))

/-- What a map of receipts holds: receipts that were read, each under its own identity. -/
def CloneFormat.Holds (format : CloneFormat) (decoded : CloneFormat.Decoded) : Prop :=
  ∀ id receipt, decoded[id]? = some receipt →
    receipt.transactionId = id ∧ ∃ stored, format.importReceipt stored = .ok receipt

/-- One receipt more, which is new or was read before. -/
def CloneFormat.Decoded.Adds (decoded : CloneFormat.Decoded) (receipt : ImportedReceipt)
    (decoded' : CloneFormat.Decoded) : Prop :=
  decoded[receipt.transactionId]? = some receipt ∧ decoded' = decoded ∨
    decoded[receipt.transactionId]? = none ∧
      decoded' = decoded.insert receipt.transactionId receipt

variable {decoded decoded' : CloneFormat.Decoded}

theorem CloneFormat.Holds.adds
    (hholds : format.Holds decoded) (h : format.importReceipt stored = .ok receipt)
    (hadds : decoded.Adds receipt decoded') : format.Holds decoded' := by
  obtain ⟨-, rfl⟩ | ⟨-, rfl⟩ := hadds
  · exact hholds
  · intro id other hother
    rw [OrderedMap.getElem?_insert] at hother
    split at hother
    · rename_i hid
      obtain rfl := Option.some.inj hother
      exact ⟨hid.symm, stored, h⟩
    · exact hholds id other hother

omit [CandidateLayout] [Blake3] [ConformanceRegistry] [ReceiptParts] in
theorem CloneFormat.Decoded.Adds.lookup
    (hadds : decoded.Adds receipt decoded') (id : TransactionId) (other : ImportedReceipt) :
    decoded'[id]? = some other ↔
      decoded[id]? = some other ∨ other.transactionId = id ∧ receipt = other := by
  obtain ⟨hold, rfl⟩ | ⟨hnew, rfl⟩ := hadds
  · refine ⟨.inl, fun h ↦ h.elim (fun h ↦ h) ?_⟩
    rintro ⟨rfl, rfl⟩
    exact hold
  · rw [OrderedMap.getElem?_insert]
    split
    · rename_i hid
      subst hid
      simp only [hnew, Option.some.injEq, reduceCtorEq, false_or]
      exact ⟨fun h ↦ ⟨h ▸ rfl, h⟩, And.right⟩
    · rename_i hid
      refine ⟨.inl, fun h ↦ h.elim (fun h ↦ h) ?_⟩
      rintro ⟨rfl, rfl⟩
      exact absurd rfl hid

/-- One more receipt is read when it is new or was read before. -/
theorem decodeReceipt_eq_ok (hholds : format.Holds decoded) :
    format.decodeReceipt decoded stored = .ok decoded' ↔
      ∃ receipt, format.importReceipt stored = .ok receipt ∧ decoded.Adds receipt decoded' := by
  simp only [CloneFormat.decodeReceipt, bind_eq_ok, ofCodec_eq_ok]
  refine exists_congr fun receipt ↦ and_congr_right fun hreceipt ↦ ?_
  rw [CloneFormat.Decoded.Adds]
  cases hlookup : decoded[receipt.transactionId]? with
  | none => simp [pure_eq_ok]
  | some existing =>
    obtain ⟨-, stored', hstored'⟩ := hholds _ existing hlookup
    simp only [bind_eq_ok, Except.rejectIf_eq_ok, Unique.exists_iff, pure_eq_ok, not_not,
      record_injective hstored' hreceipt, Option.some.injEq, reduceCtorEq, false_and, or_false]

/-- What more receipts add to a map, when they can be read and agree. -/
theorem foldlM_decodeReceipt_eq_ok (hholds : format.Holds decoded) :
    receipts.foldlM format.decodeReceipt decoded = .ok decoded' ↔
      (∀ stored ∈ receipts, ∃ receipt, format.importReceipt stored = .ok receipt) ∧
        ∀ id receipt, decoded'[id]? = some receipt ↔ decoded[id]? = some receipt ∨
          receipt.transactionId = id ∧ format.Lists receipts receipt := by
  induction receipts generalizing decoded with
  | nil =>
    rw [List.foldlM_nil, pure_eq_ok]
    refine ⟨?_, fun h ↦ ?_⟩
    · rintro rfl
      exact ⟨fun _ h ↦ (List.not_mem_nil h).elim, fun id receipt ↦ by simp [CloneFormat.Lists]⟩
    · refine Std.ExtTreeMap.ext_getElem? fun id ↦ Option.ext fun receipt ↦ ?_
      simpa [CloneFormat.Lists] using (h.2 id receipt)
  | cons stored receipts ih =>
    rw [List.foldlM_cons, bind_eq_ok]
    simp only [decodeReceipt_eq_ok hholds, CloneFormat.Lists, List.exists_mem_cons_iff,
      List.forall_mem_cons]
    constructor
    · rintro ⟨next, ⟨receipt, hreceipt, hadds⟩, hrest⟩
      obtain ⟨hread, hdecoded⟩ := (ih (hholds.adds hreceipt hadds)).1 hrest
      refine ⟨⟨⟨receipt, hreceipt⟩, hread⟩, fun id other ↦ ?_⟩
      rw [hdecoded, hadds.lookup, hreceipt, Except.ok.injEq, or_assoc, ← and_or_left]
      rfl
    · rintro ⟨⟨⟨receipt, hreceipt⟩, hread⟩, hdecoded⟩
      have hown := (hdecoded _ receipt).2 (.inr ⟨rfl, .inl hreceipt⟩)
      obtain ⟨next, hadds⟩ : ∃ next, decoded.Adds receipt next := by
        cases hlookup : decoded[receipt.transactionId]? with
        | none => exact ⟨_, .inr ⟨hlookup, rfl⟩⟩
        | some existing =>
          have hexisting := (hdecoded _ existing).2 (.inl hlookup)
          obtain rfl := Option.some.inj (hexisting.symm.trans hown)
          exact ⟨_, .inl ⟨hlookup, rfl⟩⟩
      refine ⟨next, ⟨receipt, hreceipt, hadds⟩, (ih (hholds.adds hreceipt hadds)).2 ⟨hread, ?_⟩⟩
      intro id other
      rw [hdecoded, hadds.lookup, hreceipt, Except.ok.injEq, or_assoc, ← and_or_left]
      rfl

/-- **The receipts are read when each can be and those of one identity are equal**; the map then
holds the receipts that were read. -/
theorem decodeReceipts_eq_ok {decoded : CloneFormat.Decoded} :
    format.decodeReceipts receipts = .ok decoded ↔
      (∀ stored ∈ receipts, ∃ receipt, format.importReceipt stored = .ok receipt) ∧
        ∀ id receipt, decoded[id]? = some receipt ↔
          receipt.transactionId = id ∧ format.Lists receipts receipt := by
  have hempty : format.Holds ∅ := fun _ _ h ↦ by simp at h
  rw [CloneFormat.decodeReceipts, foldlM_decodeReceipt_eq_ok hempty]
  simp

/-- Neither the order of the receipts nor their repetition matters. -/
theorem decodeReceipts_congr (h : ∀ stored, stored ∈ receipts' ↔ stored ∈ receipts)
    (decoded : CloneFormat.Decoded) :
    format.decodeReceipts receipts' = .ok decoded ↔ format.decodeReceipts receipts = .ok decoded := by
  simp only [decodeReceipts_eq_ok, CloneFormat.Lists, h]

end

/-! ### Installing -/

/-- What an installation asks of the repository it fills. -/
structure CloneHost [HostLayout] (σ : Type) where
  /-- Checks the exclusive maintenance guard, makes the layout and takes the lock. -/
  enter : Operation σ CommitError Unit
  incompleteCloneMarkerPresent : σ → Except CommitError Bool
  readHead : σ → Except CommitError (Option TransactionId)
  receiptExists : TransactionId → σ → Except CommitError Bool
  /-- Verifies a receipt against the durable objects and its durable parent. -/
  verify : ImportedReceipt → Operation σ CommitError Unit
  persist : ImportedReceipt → Operation σ CommitError Unit

/-- The accumulators of one pass over the pending receipts. -/
structure ClonePass [HostLayout] where
  remaining : List ImportedReceipt
  installed : Std.ExtTreeSet TransactionId
  progressed : Bool

section

variable [HostLayout] {σ : Type} (host : CloneHost σ)

/-- Every parent is installed or none of the receipts at hand. -/
def parentsReady (decoded : CloneFormat.Decoded) (installed : Std.ExtTreeSet TransactionId)
    (receipt : ImportedReceipt) : Bool :=
  receipt.parentTransactionIds.all fun parent ↦
    installed.contains parent || !decoded.contains parent

namespace CloneHost

def requireIncompleteClone : Operation σ CommitError Unit := do
  let marked ← .ofState host.incompleteCloneMarkerPresent
  .ofExcept (rejectIf (¬ marked) (.transaction .alreadyInitialized))

/-- The fixed head is absent, or the expected one with its receipt durable. -/
def requireHead (expectedHead : TransactionId) : Operation σ CommitError Unit := do
  match ← .ofState host.readHead with
  | none => pure ()
  | some head =>
    .ofExcept (rejectIf (head ≠ expectedHead) (.transaction .alreadyInitialized))
    let durable ← .ofState (host.receiptExists head)
    .ofExcept (rejectIf (¬ durable) (.transaction .alreadyInitialized))

/-- One receipt is verified and written. -/
def install (receipt : ImportedReceipt) : Operation σ CommitError Unit := do
  host.verify receipt
  host.persist receipt

/-- One pending receipt: it is installed, or it waits. -/
def visit (decoded : CloneFormat.Decoded) (pass : ClonePass) (receipt : ImportedReceipt) :
    Operation σ CommitError ClonePass := do
  if parentsReady decoded pass.installed receipt then
    host.install receipt
    return { pass with
      installed := pass.installed.insert receipt.transactionId
      progressed := true }
  else
    return { pass with remaining := pass.remaining ++ [receipt] }

/-- A pass over the pending receipts. -/
def runPass (decoded : CloneFormat.Decoded) (pending : List ImportedReceipt)
    (installed : Std.ExtTreeSet TransactionId) : Operation σ CommitError ClonePass :=
  pending.foldlM (host.visit decoded) ⟨[], installed, false⟩

end CloneHost

/-! ### The order of the passes -/

/-- The parents of a receipt among the receipts at hand. -/
def parentsIn (decoded : CloneFormat.Decoded) (receipt : ImportedReceipt) : List TransactionId :=
  receipt.parentTransactionIds.filter (· ∈ decoded)

/-- The identities of some receipts, installed behind others. -/
def insertAll (installed : Std.ExtTreeSet TransactionId) (receipts : List ImportedReceipt) :
    Std.ExtTreeSet TransactionId :=
  receipts.foldl (fun installed receipt ↦ installed.insert receipt.transactionId) installed

variable {host} {decoded : CloneFormat.Decoded} {installed : Std.ExtTreeSet TransactionId}
  {done : List TransactionId} {pending : List ImportedReceipt}

variable {receipts : List ImportedReceipt}

theorem mem_insertAll {id : TransactionId} : id ∈ insertAll installed receipts ↔
      id ∈ installed ∨ id ∈ receipts.map ImportedReceipt.transactionId := by
  induction receipts generalizing installed with
  | nil => simp [insertAll]
  | cons receipt receipts ih =>
    refine (@ih (installed.insert receipt.transactionId)).trans ?_
    rw [OrderedSet.mem_insert, List.map_cons, List.mem_cons, or_assoc, or_left_comm]

theorem size_insertAll (hnodup : (receipts.map ImportedReceipt.transactionId).Nodup)
    (hnew : ∀ receipt ∈ receipts, receipt.transactionId ∉ installed) :
    (insertAll installed receipts).size = installed.size + receipts.length := by
  induction receipts generalizing installed with
  | nil => rfl
  | cons receipt receipts ih =>
    obtain ⟨hfirst, hnodup⟩ := List.nodup_cons.1 hnodup
    obtain ⟨hreceipt, hnew⟩ := List.forall_mem_cons.1 hnew
    have hrest : (insertAll (installed.insert receipt.transactionId) receipts).size = _ :=
      ih hnodup fun other hother hmem ↦ by
        obtain heq | hmem := OrderedSet.mem_insert.1 hmem
        · exact hfirst (heq ▸ List.mem_map_of_mem hother)
        · exact hnew other hother hmem
    rw [Std.ExtTreeSet.size_insert, if_neg (mt Std.ExtTreeSet.contains_iff_mem.1 hreceipt)] at hrest
    rw [List.length_cons, Nat.add_comm receipts.length, ← Nat.add_assoc]
    exact hrest

theorem parentsReady_iff (hdone : ∀ id, id ∈ installed ↔ id ∈ done) {receipt : ImportedReceipt} :
    parentsReady decoded installed receipt = true ↔ ∀ id ∈ parentsIn decoded receipt, id ∈ done := by
  simp only [parentsReady, parentsIn, List.all_eq_true, Bool.or_eq_true, Bool.not_eq_true',
    List.mem_filter, decide_eq_true_eq, ← hdone, Std.ExtTreeSet.contains_iff_mem,
    ← Bool.not_eq_true, Std.ExtTreeMap.contains_iff_mem, and_imp]
  exact forall₂_congr fun id _ ↦ by rw [or_iff_not_imp_right, not_not]

/-- **A pass installs what the order of passes does**, and leaves what it leaves. -/
theorem foldlM_visit (hdone : ∀ id, id ∈ installed ↔ id ∈ done)
    (remaining : List ImportedReceipt) (progressed : Bool) :
    pending.foldlM (host.visit decoded) ⟨remaining, installed, progressed⟩ = do
      let run := Deferral.pass ImportedReceipt.transactionId (parentsIn decoded) done pending
      run.1.forM host.install
      return ⟨remaining ++ run.2, insertAll installed run.1, progressed || !run.1.isEmpty⟩ := by
  induction pending generalizing installed done remaining progressed with
  | nil => simp [Deferral.pass, insertAll]
  | cons receipt pending ih =>
    rw [List.foldlM_cons, CloneHost.visit, Deferral.pass]
    by_cases hready : ∀ id ∈ parentsIn decoded receipt, id ∈ done
    · have hdone' : ∀ id, id ∈ installed.insert receipt.transactionId ↔
          id ∈ receipt.transactionId :: done := fun id ↦ by
        rw [OrderedSet.mem_insert, List.mem_cons, hdone]
      rw [if_pos ((parentsReady_iff hdone).2 hready), if_pos hready]
      simp only [bind_assoc, pure_bind, ih hdone', List.forM_eq_forM, List.forM_cons, List.isEmpty_cons,
        Bool.not_false, Bool.or_true, Bool.true_or]
      rfl
    · rw [if_neg fun h ↦ hready ((parentsReady_iff hdone).1 h), if_neg hready]
      simp only [pure_bind, ih hdone, List.append_assoc, List.singleton_append]

/-! ### The passes -/

theorem runPass_eq (hdone : ∀ id, id ∈ installed ↔ id ∈ done) :
    host.runPass decoded pending installed = do
      let run := Deferral.pass ImportedReceipt.transactionId (parentsIn decoded) done pending
      run.1.forM host.install
      return ⟨run.2, insertAll installed run.1, !run.1.isEmpty⟩ := by
  rw [CloneHost.runPass, foldlM_visit hdone]
  rfl

/-- A pass leaves fewer receipts, or says that it did nothing and leaves what there was. -/
theorem length_remaining {pass : ClonePass} {s s' : σ}
    (h : host.runPass decoded pending installed s = (.ok pass, s')) :
    pass.progressed = true ∧ pass.remaining.length < pending.length ∨
      pass.progressed = false ∧ pass.remaining.length = pending.length := by
  have hdone : ∀ id, id ∈ installed ↔ id ∈ installed.toList := fun _ ↦
    Std.ExtTreeSet.mem_toList.symm
  rw [runPass_eq hdone] at h
  obtain ⟨_, _, -, h⟩ := Operation.bind_eq_ok.1 h
  obtain ⟨rfl, -⟩ := Operation.pure_eq_ok.1 h
  have hlen := length_pass ImportedReceipt.transactionId (parentsIn decoded)
    installed.toList pending
  generalize Deferral.pass ImportedReceipt.transactionId (parentsIn decoded) installed.toList
    pending = run at hlen
  match run with
  | ([], waiting) =>
    simp only [List.length_nil] at hlen
    exact .inr ⟨rfl, by simpa using hlen⟩
  | (first :: rest, waiting) =>
    simp only [List.length_cons] at hlen
    exact .inl ⟨rfl, by simp only; omega⟩

/-- Passes until nothing is pending, or until one does nothing. -/
def CloneHost.runPasses (host : CloneHost σ) (decoded : CloneFormat.Decoded) :
    List ImportedReceipt → Std.ExtTreeSet TransactionId → Operation σ CommitError Nat
  | [], installed => pure installed.size
  | first :: rest, installed => fun s ↦
    match _hpass : host.runPass decoded (first :: rest) installed s with
    | (.error e, s') => (.error e, s')
    | (.ok pass, s') =>
      if _hstuck : pass.progressed = false ∧ pass.remaining ≠ [] then
        (.error (.transaction .parentShape), s')
      else runPasses host decoded pass.remaining pass.installed s'
termination_by pending => pending.length
decreasing_by
  obtain ⟨-, hlt⟩ | ⟨hnone, hlen⟩ := length_remaining _hpass
  · exact hlt
  · have hnil : pass.remaining = [] := by
      by_contra hne
      exact _hstuck ⟨hnone, hne⟩
    rw [hnil] at hlen
    cases hlen

section

variable {first : ImportedReceipt} {rest : List ImportedReceipt} {pass : ClonePass} {s s' : σ}
  {e : CommitError}

theorem runPasses_of_error
    (h : host.runPass decoded (first :: rest) installed s = (.error e, s')) :
    host.runPasses decoded (first :: rest) installed s = (.error e, s') := by
  rw [CloneHost.runPasses]
  dsimp only
  split
  · rename_i heq
    cases h.symm.trans heq
    rfl
  · rename_i heq
    cases h.symm.trans heq

theorem runPasses_of_stuck
    (h : host.runPass decoded (first :: rest) installed s = (.ok pass, s'))
    (hnone : pass.progressed = false) (hne : pass.remaining ≠ []) :
    host.runPasses decoded (first :: rest) installed s =
      (.error (.transaction .parentShape), s') := by
  rw [CloneHost.runPasses]
  dsimp only
  split
  · rename_i heq
    cases h.symm.trans heq
  · rename_i heq
    cases h.symm.trans heq
    exact dif_pos ⟨hnone, hne⟩

theorem runPasses_of_progressed
    (h : host.runPass decoded (first :: rest) installed s = (.ok pass, s'))
    (hprogressed : pass.progressed = true) :
    host.runPasses decoded (first :: rest) installed s =
      host.runPasses decoded pass.remaining pass.installed s' := by
  rw [CloneHost.runPasses]
  dsimp only
  split
  · rename_i heq
    cases h.symm.trans heq
  · rename_i heq
    cases h.symm.trans heq
    exact dif_neg fun hstuck ↦ by simp [hprogressed] at hstuck

end

/-- **The passes install along the order of passes**, and fail when something is left. -/
theorem runPasses_eq (hdone : ∀ id, id ∈ installed ↔ id ∈ done) :
    host.runPasses decoded pending installed = (do
      let run := schedule ImportedReceipt.transactionId (parentsIn decoded) done pending
      run.1.forM host.install
      .ofExcept (if run.2 = [] then .ok (insertAll installed run.1).size
        else .error (.transaction .parentShape))) := by
  induction hn : pending.length using Nat.strong_induction_on
    generalizing pending installed done with
  | _ n ih =>
    cases pending with
    | nil =>
      rw [CloneHost.runPasses, Deferral.schedule_of_pass_nil rfl]
      rfl
    | cons first rest =>
      funext s
      have hlen := length_pass ImportedReceipt.transactionId (parentsIn decoded) done
        (first :: rest)
      have hrun : host.runPass decoded (first :: rest) installed s = _ :=
        congrFun (runPass_eq hdone) s
      match hpass : Deferral.pass ImportedReceipt.transactionId (parentsIn decoded) done
          (first :: rest) with
      | ([], waiting) =>
        rw [hpass] at hlen hrun
        have hwaiting : waiting ≠ [] := by
          rintro rfl
          cases hlen
        rw [Deferral.schedule_of_pass_nil hpass, runPasses_of_stuck hrun rfl hwaiting]
        simp only [if_neg hwaiting]
        rfl
      | (receipt :: new, waiting) =>
        rw [hpass] at hlen hrun
        have hdone' : ∀ id, id ∈ insertAll installed (receipt :: new) ↔
            id ∈ done ++ (receipt :: new).map ImportedReceipt.transactionId := fun id ↦ by
          rw [mem_insertAll, hdone, List.mem_append]
        have hlt : waiting.length < n := by
          simp only [List.length_cons] at hlen hn
          omega
        have hrest := ih _ hlt hdone' rfl
        rw [Deferral.schedule_of_pass_cons hpass]
        simp only [List.forM_eq_forM, List.forM_append, bind_assoc]
        rcases hnew : forM (receipt :: new) host.install s with ⟨e | _, s'⟩
        · rw [bind_of_error hnew]
          exact runPasses_of_error (hrun.trans (bind_of_error hnew))
        · rw [bind_of_ok hnew, runPasses_of_progressed (hrun.trans (bind_of_ok hnew)) rfl]
          refine (congrFun hrest s').trans ?_
          simp only [insertAll, List.foldl_append, List.forM_eq_forM]

end

/-! ### The calls -/

section

variable [HostLayout] [CandidateLayout] [Blake3] [ConformanceRegistry] [ReceiptParts] {σ : Type}
  (host : CloneHost σ) (format : CloneFormat)

/-- The receipts to install, in the order of their identities. -/
def CloneFormat.Decoded.pending (decoded : CloneFormat.Decoded) : List ImportedReceipt :=
  decoded.toList.map Prod.snd

namespace CloneHost

/-- What is checked before a receipt is read. -/
def requireClone (expectedHead : TransactionId) : Operation σ CommitError Unit := do
  host.enter
  host.requireIncompleteClone
  host.requireHead expectedHead

/-- Reads the receipts and installs them, and says how many are durable after the call. -/
def initializeCloneReceipts (expectedHead : TransactionId) (receipts : List Bytes) :
    Operation σ CommitError Nat := do
  host.requireClone expectedHead
  let decoded ← .ofExcept (format.decodeReceipts receipts)
  host.runPasses decoded decoded.pending ∅

def initializeTrustedCloneReceipts : TransactionId → List Bytes → Operation σ CommitError Nat :=
  host.initializeCloneReceipts .v1

def initializeTrustedMixedCloneReceipts :
    TransactionId → List Bytes → Operation σ CommitError Nat :=
  host.initializeCloneReceipts .mixed

end CloneHost

/-- The receipts that an installation goes through, in order. -/
def installOrder (receipts : List Bytes) : List ImportedReceipt :=
  match format.decodeReceipts receipts with
  | .error _ => []
  | .ok decoded =>
    (schedule ImportedReceipt.transactionId (parentsIn decoded) [] decoded.pending).1

/-- One listed receipt names another as a parent. -/
def ListedParent (receipts : List Bytes) (child parent : ImportedReceipt) : Prop :=
  format.Lists receipts child ∧ format.Lists receipts parent ∧
    parent.transactionId ∈ child.parentTransactionIds

/-- The parents of some listed receipt lead back to it. -/
def ParentCycle (receipts : List Bytes) : Prop :=
  ∃ receipt, Relation.TransGen (ListedParent format receipts) receipt receipt

variable {format} {receipts : List Bytes} {decoded : CloneFormat.Decoded}
  {receipt : ImportedReceipt}

section

variable (h : format.decodeReceipts receipts = .ok decoded)

include h

theorem mem_pending : receipt ∈ decoded.pending ↔ format.Lists receipts receipt := by
  simp only [CloneFormat.Decoded.pending, List.mem_map, Prod.exists, exists_eq_right,
    Std.ExtTreeMap.mem_toList_iff_getElem?_eq_some, (decodeReceipts_eq_ok.1 h).2]
  exact ⟨fun ⟨_, _, hlists⟩ ↦ hlists, fun hlists ↦ ⟨_, rfl, hlists⟩⟩

theorem mem_decoded_of_lists
    (hlists : format.Lists receipts receipt) : receipt.transactionId ∈ decoded :=
  OrderedMap.mem_iff_exists.2 ⟨receipt, ((decodeReceipts_eq_ok.1 h).2 _ _).2 ⟨rfl, hlists⟩⟩

/-- Receipts of one identity are equal. -/
theorem eq_of_transactionId {receipt' : ImportedReceipt} (hlists : format.Lists receipts receipt)
    (hlists' : format.Lists receipts receipt')
    (heq : receipt'.transactionId = receipt.transactionId) : receipt' = receipt := by
  have hlookup := ((decodeReceipts_eq_ok.1 h).2 receipt.transactionId receipt).2 ⟨rfl, hlists⟩
  have hlookup' := ((decodeReceipts_eq_ok.1 h).2 receipt.transactionId receipt').2 ⟨heq, hlists'⟩
  exact Option.some.inj (hlookup'.symm.trans hlookup)

theorem nodup_pending : (decoded.pending.map ImportedReceipt.transactionId).Nodup := by
  have hkeys : decoded.pending.map ImportedReceipt.transactionId = decoded.toList.map Prod.fst := by
    rw [CloneFormat.Decoded.pending, List.map_map]
    refine List.map_congr_left fun entry hentry ↦ ?_
    exact (((decodeReceipts_eq_ok.1 h).2 entry.1 entry.2).1
      (Std.ExtTreeMap.mem_toList_iff_getElem?_eq_some.1 hentry)).1
  rw [hkeys, Std.ExtTreeMap.map_fst_toList_eq_keys]
  exact Std.ExtTreeMap.nodup_keys

theorem needs_eq_listedParent :
    Deferral.Needs ImportedReceipt.transactionId (parentsIn decoded) decoded.pending =
      ListedParent format receipts := by
  funext child parent
  simp only [Deferral.Needs, ListedParent, mem_pending h, parentsIn, List.mem_filter,
    decide_eq_true_eq, eq_iff_iff]
  refine and_congr_right fun _ ↦ and_congr_right fun hparent ↦ ?_
  exact and_iff_left (mem_decoded_of_lists h hparent)

end

omit [CandidateLayout] [Blake3] [ConformanceRegistry] [ReceiptParts] in
/-- The receipts that are installed and the ones left waiting. -/
theorem perm_pending (decoded : CloneFormat.Decoded) :
    ((schedule ImportedReceipt.transactionId (parentsIn decoded) [] decoded.pending).1 ++
      (schedule ImportedReceipt.transactionId (parentsIn decoded) []
        decoded.pending).2).Perm decoded.pending :=
  Deferral.schedule_perm [] decoded.pending

section

variable (h : format.decodeReceipts receipts = .ok decoded)

include h

theorem waiting_eq_nil_iff :
    (schedule ImportedReceipt.transactionId (parentsIn decoded) [] decoded.pending).2 = [] ↔
      ¬ ParentCycle format receipts := by
  rw [Deferral.schedule_waiting_eq_nil_iff, Deferral.Cyclic, needs_eq_listedParent h, ParentCycle]
  · intro child hchild other hother
    exact eq_of_transactionId h ((mem_pending h).1 hchild) ((mem_pending h).1 hother)
  · intro child _ id hid
    obtain ⟨-, hmem⟩ := List.mem_filter.1 hid
    obtain ⟨parent, hparent⟩ := OrderedMap.mem_iff_exists.1 (of_decide_eq_true hmem)
    obtain ⟨rfl, hlists⟩ := ((decodeReceipts_eq_ok.1 h).2 id parent).1 hparent
    exact ⟨parent, (mem_pending h).2 hlists, rfl⟩

theorem installOrder_of_decoded :
    installOrder format receipts = (schedule ImportedReceipt.transactionId
      (parentsIn decoded) [] decoded.pending).1 := by
  rw [installOrder, h]

/-- The passes over what was read run the steps along the order. -/
theorem runPasses_pending {s s' : σ} :
    (∀ e, (installOrder format receipts).forM host.install s = (.error e, s') →
      host.runPasses decoded decoded.pending ∅ s = (.error e, s')) ∧
    ((installOrder format receipts).forM host.install s = (.ok ⟨⟩, s') →
      (ParentCycle format receipts →
        host.runPasses decoded decoded.pending ∅ s = (.error (.transaction .parentShape), s')) ∧
      (¬ ParentCycle format receipts → host.runPasses decoded decoded.pending ∅ s =
        (.ok (installOrder format receipts).length, s'))) := by
  have hdone : ∀ id : TransactionId, id ∈ (∅ : Std.ExtTreeSet TransactionId) ↔ id ∈ [] := by simp
  have hrun : host.runPasses decoded decoded.pending ∅ s = _ := congrFun (runPasses_eq hdone) s
  have hperm := perm_pending decoded
  have hwaiting := waiting_eq_nil_iff h
  rw [installOrder_of_decoded h]
  generalize schedule ImportedReceipt.transactionId (parentsIn decoded) []
    decoded.pending = run at hrun hperm hwaiting ⊢
  refine ⟨fun e herror ↦ hrun.trans (bind_of_error herror), fun hok ↦ ?_⟩
  have hend := hrun.trans (bind_of_ok hok)
  refine ⟨fun hcycle ↦ hend.trans ?_, fun hacyclic ↦ hend.trans ?_⟩
  · rw [if_neg fun hnone ↦ hwaiting.1 hnone hcycle]
    rfl
  · have hnodup : ((run.1 ++ run.2).map ImportedReceipt.transactionId).Nodup :=
      (hperm.map _).nodup_iff.2 (nodup_pending h)
    rw [List.map_append] at hnodup
    have hsize : (insertAll ∅ run.1).size = _ :=
      size_insertAll hnodup.of_append_left fun _ _ ↦ by simp
    rw [if_pos (hwaiting.2 hacyclic), hsize]
    simp

end

theorem installOrder_of_error {e : CommitError} (h : format.decodeReceipts receipts = .error e) :
    installOrder format receipts = [] := by
  rw [installOrder, h]

theorem nodup_installOrder :
    ((installOrder format receipts).map ImportedReceipt.transactionId).Nodup := by
  cases h : format.decodeReceipts receipts with
  | error e =>
    rw [installOrder_of_error h]
    exact List.nodup_nil
  | ok decoded =>
    rw [installOrder_of_decoded h]
    have hperm := perm_pending decoded
    have hnodup := (hperm.map ImportedReceipt.transactionId).nodup_iff.2 (nodup_pending h)
    rw [List.map_append] at hnodup
    exact hnodup.of_append_left

theorem lists_of_mem_installOrder (hmem : receipt ∈ installOrder format receipts) :
    format.Lists receipts receipt := by
  cases h : format.decodeReceipts receipts with
  | error e =>
    rw [installOrder_of_error h] at hmem
    cases hmem
  | ok decoded =>
    rw [installOrder_of_decoded h] at hmem
    exact (mem_pending h).1 ((perm_pending decoded).mem_iff.1 (List.mem_append_left _ hmem))

/-- Listed parents come first. -/
theorem parent_mem_of_installOrder {before after : List ImportedReceipt} {parent : ImportedReceipt}
    (hsplit : installOrder format receipts = before ++ receipt :: after)
    (hparent : ListedParent format receipts receipt parent) : parent ∈ before := by
  cases h : format.decodeReceipts receipts with
  | error e =>
    rw [installOrder_of_error h] at hsplit
    cases before <;> cases hsplit
  | ok decoded =>
    have hlisted : ∀ other ∈ before, format.Lists receipts other := fun other hother ↦
      lists_of_mem_installOrder (hsplit ▸ List.mem_append_left _ hother)
    rw [installOrder_of_decoded h] at hsplit
    have hin : parent.transactionId ∈ parentsIn decoded receipt :=
      List.mem_filter.2 ⟨hparent.2.2, decide_eq_true (mem_decoded_of_lists h hparent.2.1)⟩
    have hbefore := Deferral.ordered_schedule [] decoded.pending before receipt after hsplit _ hin
    obtain ⟨other, hother, heq⟩ := List.mem_map.1 hbefore
    rwa [← eq_of_transactionId h hparent.2.1 (hlisted other hother) heq]

theorem mem_installOrder (h : format.decodeReceipts receipts = .ok decoded)
    (hacyclic : ¬ ParentCycle format receipts) (hlists : format.Lists receipts receipt) :
    receipt ∈ installOrder format receipts := by
  have hmem := (perm_pending decoded).mem_iff.2 ((mem_pending h).2 hlists)
  rw [(waiting_eq_nil_iff h).2 hacyclic, List.append_nil] at hmem
  rwa [installOrder_of_decoded h]

theorem installOrder_congr {receipts' : List Bytes}
    (hsame : ∀ stored, stored ∈ receipts' ↔ stored ∈ receipts) :
    installOrder format receipts' = installOrder format receipts := by
  have hdecoded : ∀ decoded, format.decodeReceipts receipts' = .ok decoded ↔ _ :=
    decodeReceipts_congr hsame
  cases h : format.decodeReceipts receipts with
  | ok decoded => rw [installOrder_of_decoded h, installOrder_of_decoded ((hdecoded decoded).2 h)]
  | error e =>
    rw [installOrder_of_error h]
    cases h' : format.decodeReceipts receipts' with
    | error e' => rw [installOrder_of_error h']
    | ok decoded =>
      rw [(hdecoded decoded).1 h'] at h
      cases h

/-- **An installation runs its steps along one order of the listed receipts.** Each stands in it
once, behind its listed parents, and the order does not depend on how the receipts are listed. When
no step stops the call, it fails exactly when the parents have a cycle, and otherwise has installed
every receipt. -/
theorem initializeCloneReceipts_installs (format : CloneFormat) (host : CloneHost σ)
    (expectedHead : TransactionId) (receipts : List Bytes) :
    let order := installOrder format receipts
    ((order.map ImportedReceipt.transactionId).Nodup ∧
      (∀ receipt ∈ order, format.Lists receipts receipt) ∧
      ∀ before receipt after, order = before ++ receipt :: after →
        ∀ parent, ListedParent format receipts receipt parent → parent ∈ before) ∧
    (∀ receipts', (∀ stored, stored ∈ receipts' ↔ stored ∈ receipts) →
      installOrder format receipts' = order) ∧
    ∀ s s₁, host.requireClone expectedHead s = (.ok (), s₁) →
      (∀ e, format.decodeReceipts receipts = .error e → order = [] ∧
        host.initializeCloneReceipts format expectedHead receipts s = (.error e, s₁)) ∧
      ∀ decoded, format.decodeReceipts receipts = .ok decoded →
        (∀ e s', order.forM host.install s₁ = (.error e, s') →
          host.initializeCloneReceipts format expectedHead receipts s = (.error e, s')) ∧
        ∀ s', order.forM host.install s₁ = (.ok (), s') →
          (ParentCycle format receipts →
            host.initializeCloneReceipts format expectedHead receipts s =
              (.error (.transaction .parentShape), s')) ∧
          (¬ ParentCycle format receipts →
            (∀ receipt, format.Lists receipts receipt → receipt ∈ order) ∧
            host.initializeCloneReceipts format expectedHead receipts s =
              (.ok order.length, s')) := by
  intro order
  refine ⟨⟨nodup_installOrder, fun _ ↦ lists_of_mem_installOrder,
      fun _ _ _ hsplit _ ↦ parent_mem_of_installOrder hsplit⟩,
    fun _ ↦ installOrder_congr, fun s s₁ hclone ↦ ⟨fun e herror ↦ ?_, fun decoded h ↦ ?_⟩⟩
  · refine ⟨installOrder_of_error herror, ?_⟩
    rw [CloneHost.initializeCloneReceipts, Operation.bind_of_ok hclone, Operation.ofExcept_bind,
      herror]
  · have hcall : host.initializeCloneReceipts format expectedHead receipts s =
        host.runPasses decoded decoded.pending ∅ s₁ := by
      rw [CloneHost.initializeCloneReceipts, Operation.bind_of_ok hclone, Operation.ofExcept_bind, h]
    rw [hcall]
    refine ⟨fun e s' ↦ (runPasses_pending host h).1 e, fun s' hok ↦ ?_⟩
    obtain ⟨hcycle, hacyclic⟩ := (runPasses_pending host h).2 hok
    exact ⟨hcycle, fun hnone ↦ ⟨fun _ ↦ mem_installOrder h hnone, hacyclic hnone⟩⟩

end

end Sley.Txn
