import Sley.Lib.Tombstones
import Sley.Txn.Commit

/-!
# Histories of receipts

A history is a trusted genesis and the commits after it, of either format, each made on a repository
whose accepted head is the receipt before (`History`). What a commit prepares and what a verification
checks are computed by different code: a commit derives the changed bindings and the tombstones from
its plan, a verification derives them again from the receipts. Both come to the same relation between
a receipt and its parent, the check of `verify_ordinary_relationship` (`Follows`). In a format-1
commit this has to be shown, through the readers that the receipt is built with (`CommitsOn.follows`);
a native commit runs the check on itself.

**A receipt that follows another is a step of a ledger of identities** (`Follows.spec`), so what holds
of a whole history (`history_ledgerLaw`) is read off the ledger.
-/

namespace Sley.Txn

open Scb1 Mutate Root Policy
open Except hiding ok error
open Except (bind_eq_ok pure_eq_ok)
open Unique (exists_iff)
open Id (splat)
open Prod (fst)

section

variable [HostLayout] [CandidateLayout] [Blake3] [UnicodeNormalization] [ConformanceRegistry]
  [ReceiptParts]

/-! ### A commit follows its parent -/

omit [CandidateLayout] [Blake3] [UnicodeNormalization] [ConformanceRegistry] [ReceiptParts] in
theorem verifyOrdinaryRelationship_eq_ok {record : TransactionRecord}
    {candidate : Option ImportedCandidate} {ownBindings : Bindings} {parent : AnyParent}
    {u : Unit} :
    verifyOrdinaryRelationship record candidate ownBindings (some parent) = .ok u ↔
      record.parentTransactionIds.head? = some parent.transactionId ∧
      record.parentRoots.head? = some parent.stateRoot.root ∧
      parent.stateRoot.record.workspaceId = record.workspaceId ∧
      parent.stateRoot.record.schemaEpochId = record.schemaEpochId ∧
      parent.policyRoot.root = record.policyRootId ∧
      ∃ imported, candidate = some imported ∧
        deriveBindingDiff parent.stateRoot.record.entityBindings ownBindings
          (some imported.record.operations) = .ok record.changedEntityBindings ∧
        nextTombstonesFromRecords parent.tombstonedEntities record.changedEntityBindings
          ownBindings = .ok record.tombstonedEntities := by
  simp only [verifyOrdinaryRelationship, bind_eq_ok, ofOption_eq_ok,
    rejectIf_eq_ok, exists_iff, ofTransaction_eq_ok, not_or, not_not]
  constructor
  · rintro ⟨_, hid, _, hroot, _, ⟨⟩, ⟨rfl, rfl, hworkspace, hepoch, hpolicy⟩, imported, hcandidate,
      _, hdiff, rfl, _, htombstones, rfl⟩
    exact ⟨hid, hroot, hworkspace, hepoch, hpolicy, imported, hcandidate, hdiff, htombstones⟩
  · rintro ⟨hid, hroot, hworkspace, hepoch, hpolicy, imported, hcandidate, hdiff, htombstones⟩
    exact ⟨_, hid, _, hroot, _, rfl, ⟨rfl, rfl, hworkspace, hepoch, hpolicy⟩, imported, hcandidate,
      _, hdiff, rfl, _, htombstones, rfl⟩

/-- One receipt stands on another: the check of `verify_ordinary_relationship` passes. -/
def Follows (parent child : ImportedReceipt) : Prop :=
  verifyOrdinaryRelationship child.transactionRecord child.candidate child.bindings
    (some (AnyParent.ofAny parent)) = .ok ()

omit [HostLayout] [CandidateLayout] [UnicodeNormalization] [ReceiptParts] in
/-- A valid root is read back from a receipt that embeds it. -/
theorem importReceiptRoot_of_validRoot {registry : StateRootRegistry} {root : AcceptedStateRoot}
    (hregistry : ConformanceRegistry.registry = .ok registry) (h : ValidRoot registry root) :
    importReceiptRoot root.storedBytes = .ok root := by
  simp only [importReceiptRoot, hregistry, bind_eq_ok, mapError_eq_ok, importStateRoot_eq_ok]
  exact ⟨registry, rfl, trivial, h⟩

section Commit

variable {Capability : Type} [ConformanceEpoch] [CandidateJudgment Capability]

variable {input : CommitInput Capability} {base : VerifiedRevision} {repository : Repository}
  {plan : ValidatedCandidatePlan} {context : CandidateValidationContext Capability}
  {receipt : ImportedTransactionReceipt} {result : ImportedCandidateResult}

section

omit [ReceiptParts]

/-- A plan against a base comes from a judgment in its context. -/
theorem judgeAgainst_judged (h : judgeAgainst base input = .ok (context, result, plan)) :
    context.baseState = base.receipt.stateRoot ∧ context.baseObjects = base.objects ∧
      ∃ selectedTests, judgeCandidate context input.storedCandidate = .ok (plan, selectedTests) := by
  simp only [judgeAgainst, bind_eq_ok, mapError_eq_ok, rejectIf_eq_ok,
    exists_iff, ofOption_eq_ok, pure_eq_ok, Prod.mk.injEq] at h
  obtain ⟨context, hcontext, validation, hvalidation, -, plan, hplan, rfl, rfl, rfl⟩ := h
  simp only [CandidateValidationContext.new, bind_eq_ok, pure_eq_ok] at hcontext
  obtain ⟨_, -, rfl⟩ := hcontext
  obtain ⟨selectedTests, hjudge, -⟩ := validateCandidateBytes_judged hvalidation hplan
  exact ⟨rfl, rfl, selectedTests, hjudge⟩

theorem judgeAgainst_plannedOn (h : judgeAgainst base input = .ok (context, result, plan)) :
    PlannedOn base.receipt.stateRoot plan := by
  obtain ⟨hbase, -, _, hjudge⟩ := judgeAgainst_judged h
  rw [← hbase]
  exact judgeCandidate_plannedOn hjudge

end

omit [UnicodeNormalization] [ReceiptParts] in
/-- What a plan records is the difference to its base and the tombstones that follow from it. -/
theorem planLedger_eq_ok {ledger : PlannedLedger} (hplan : PlannedOn base.receipt.stateRoot plan)
    (h : planLedger base plan = .ok ledger) :
    deriveBindingDiff base.receipt.bindings plan.candidateRoot.record.entityBindings
        (some plan.candidate.record.operations) = .ok ledger.changedEntityBindings ∧
      nextTombstonesFromRecords base.receipt.tombstonedEntities ledger.changedEntityBindings
        plan.candidateRoot.record.entityBindings = .ok ledger.tombstones := by
  simp only [planLedger, bind_eq_ok, ofTransaction_eq_ok, pure_eq_ok] at h
  obtain ⟨changed, hchanged, manifest, -, tombstones, htombstones, rfl⟩ := h
  obtain ⟨-, -, hperm, -⟩ := hplan.describes
  refine ⟨hchanged, ?_⟩
  rw [nextTombstonesFromRecords_perm hperm]
  exact htombstones

omit [CandidateLayout] [Blake3] [UnicodeNormalization] [ConformanceRegistry] [ReceiptParts]
  [ConformanceEpoch] in
/-- An entry of a diff lists at most the operations there are. -/
theorem BindingDiff.length_ordinals_le {base committed : Bindings}
    {operations : List MutationOperation} {changed : List ChangedBinding}
    (h : BindingDiff base committed (some operations) changed) {change : ChangedBinding}
    (hchange : change ∈ changed) : change.mutationOrdinals.length ≤ operations.length := by
  obtain ⟨-, -, -, hordinals⟩ := (h.mem_iff change).1 hchange
  rw [hordinals, ordinalsOf, List.length_map]
  exact List.length_filter_le _ _

/-- **What a format-1 commit prepares**: a plan on its accepted base, whose transaction, root and
candidate are the ones the receipt embeds. -/
structure CommitsOn (base : VerifiedRevision) (input : CommitInput Capability)
    (plan : ValidatedCandidatePlan) (ledger : PlannedLedger)
    (receipt : ImportedTransactionReceipt) : Prop where
  plannedOn : PlannedOn base.receipt.stateRoot plan
  planLedger : planLedger base plan = .ok ledger
  transaction : ∃ result commitMetadata selectedTests, receipt.transaction.record =
    plannedTransaction base input plan result ledger 1 commitMetadata selectedTests []
  candidate : receipt.candidate = some plan.candidate
  stateRoot : receipt.stateRoot = plan.candidateRoot
  manifest : receipt.record.objectManifest = ledger.manifest
  embeds : receipt.Embeds

theorem planCommit_eq_ok {planned : CommitPlan} (h : repository.planCommit input = .ok planned) :
    repository.head = some planned.actual ∧
      repository.loadAccepted planned.actual = .ok planned.base ∧
      (∃ context, judgeAgainst planned.base input = .ok (context, planned.result, planned.plan)) ∧
      Txn.planLedger planned.base planned.plan = .ok planned.ledger := by
  simp only [Repository.planCommit, bind_eq_ok, ofOption_eq_ok,
    rejectIf_eq_ok, exists_iff, pure_eq_ok, Prod.exists] at h
  obtain ⟨actual, hhead, -, base, hbase, context, result, plan, hjudge, -, ledger, hledger, rfl⟩ :=
    h
  exact ⟨hhead, hbase, ⟨context, hjudge⟩, hledger⟩

/-- The receipt of a plan stands on the base of the plan. -/
theorem commitReceipt_eq_ok {planned : CommitPlan}
    (hplanned : repository.planCommit input = .ok planned)
    (h : commitReceipt input planned = .ok receipt) :
    CommitsOn planned.base input planned.plan planned.ledger receipt := by
  obtain ⟨-, -, ⟨context, hjudge⟩, hledger⟩ := planCommit_eq_ok hplanned
  simp only [commitReceipt, bind_eq_ok, ofCodec_eq_ok] at h
  obtain ⟨transaction, htransaction, hreceipt⟩ := h
  have hplan := judgeAgainst_plannedOn hjudge
  obtain ⟨hrecord, hembeds⟩ := buildTransactionReceipt_embeds hreceipt
  refine ⟨hplan, hledger, ?_, ?_, ?_, ?_, hembeds⟩
  case refine_1 =>
    obtain ⟨hdiff, -⟩ := planLedger_eq_ok hplan hledger
    have himport := importTransaction_of_buildTransaction htransaction fun binding hbinding ↦
      ((deriveBindingDiff_spec hdiff).length_ordinals_le hbinding).trans hplan.operations_le
    have hread := hembeds.transaction
    simp only [hrecord, plannedReceipt, himport, Except.ok.injEq] at hread
    rw [← hread, (buildCore_eq_ok htransaction).1]
    exact ⟨_, _, _, rfl⟩
  case refine_2 =>
    have hread := hembeds.candidate
    simp only [hrecord, plannedReceipt, importOption, hplan.imported] at hread
    exact (Except.ok.inj hread).symm
  case refine_3 =>
    obtain ⟨registry, hregistry, -, -, -, hvalid⟩ := hplan.describes
    have hread := hembeds.stateRoot
    rw [hrecord] at hread
    simp only [plannedReceipt, importReceiptRoot_of_validRoot hregistry hvalid, Except.ok.injEq]
      at hread
    exact hread.symm
  case refine_4 => rw [hrecord]; rfl

theorem prepareCommit_eq_ok {prepared : Prepared ImportedTransactionReceipt}
    (h : repository.prepareCommit input = .ok prepared) :
    ∃ actual base plan ledger, repository.head = some actual ∧
      repository.loadAccepted actual = .ok base ∧
      CommitsOn base input plan ledger prepared.receipt ∧
      prepared.manifest = ledger.manifest ∧ prepared.objects = plan.proposedState.entities := by
  rw [Repository.prepareCommit_eq] at h
  simp only [bind_eq_ok, pure_eq_ok] at h
  obtain ⟨planned, hplanned, receipt, hreceipt, rfl⟩ := h
  obtain ⟨hhead, hbase, -, -⟩ := planCommit_eq_ok hplanned
  exact ⟨planned.actual, planned.base, planned.plan, planned.ledger, hhead, hbase,
    commitReceipt_eq_ok hplanned hreceipt, rfl, rfl⟩

omit [UnicodeNormalization] [CandidateJudgment Capability] in
theorem CommitsOn.follows {ledger : PlannedLedger} (h : CommitsOn base input plan ledger receipt) :
    Follows base.receipt (.v1 receipt) := by
  obtain ⟨result, metadata, tests, hrecord⟩ := h.transaction
  obtain ⟨hdiff, htombstones⟩ := planLedger_eq_ok h.plannedOn h.planLedger
  obtain ⟨-, -, -, hworkspace, -, -⟩ := h.plannedOn.describes
  -- the epoch of the new root is the one of the candidate, hence of the base
  have hepoch : plan.candidate.record.schemaEpochId = plan.candidateRoot.record.schemaEpochId := by
    have hnested := h.embeds.nested
    simp only [validateNested, hrecord, plannedTransaction, h.candidate, validateOrdinaryNested,
      ofOption_eq_ok, bind_eq_ok, rejectIf_eq_ok, exists_iff, not_or, not_not] at hnested
    obtain ⟨_, ⟨⟩, _, -, -, _, -, _, -, -, -, -, -, -, -, -, -, -, -, hepoch, -⟩ := hnested
    exact hepoch
  refine verifyOrdinaryRelationship_eq_ok.2 ⟨?_, ?_, ?_, ?_, ?_, plan.candidate, h.candidate, ?_⟩
  all_goals simp only [ImportedReceipt.transactionRecord, hrecord]
  · rfl
  · rfl
  · exact hworkspace.symm
  · exact h.plannedOn.epoch.symm.trans hepoch
  · rfl
  · have hbindings : (ImportedReceipt.v1 receipt).bindings =
        plan.candidateRoot.record.entityBindings := by
      rw [← h.stateRoot]
      rfl
    rw [hbindings]
    exact ⟨hdiff, htombstones⟩

omit [ConformanceEpoch] in
theorem loadParent_eq_ok {actual transactionId : TransactionId} {parent : ImportedReceipt}
    (h : repository.loadParent actual transactionId = .ok (parent, base)) :
    repository.readReceiptAny transactionId = .ok parent := by
  simp only [Repository.loadParent, bind_eq_ok, mapError_eq_ok] at h
  obtain ⟨receipt, hreceipt, hbase⟩ := h
  split at hbase
  all_goals
    obtain ⟨_, -, hpair⟩ := Except.bind_eq_ok.1 hbase
    obtain ⟨rfl, -⟩ := Prod.mk.inj (Except.pure_eq_ok.1 hpair)
    exact hreceipt

theorem prepareNativeCommit_eq_ok [NativeAdmission Capability]
    {prepared : Prepared ImportedNativeTransactionReceipt}
    (h : repository.prepareNativeCommit input = .ok prepared) :
    ∃ actual parent, repository.head = some actual ∧
      repository.readReceiptAny actual = .ok parent ∧ Follows parent (.v2 prepared.receipt) := by
  simp only [Repository.prepareNativeCommit, bind_eq_ok, ofOption_eq_ok, rejectIf_eq_ok, exists_iff,
    ofCodec_eq_ok, pure_eq_ok, Prod.exists, not_not] at h
  obtain ⟨actual, hhead, parent, _, hparent, _, _, _, -, rfl, _, -, _, -, _, -, _, -, receipt, -,
    hverify, rfl⟩ := h
  simp only [verifyNativeReceiptAgainstObjects, bind_eq_ok, exists_iff] at hverify
  obtain ⟨-, _, -, hfollows, -⟩ := hverify
  exact ⟨_, parent, hhead, loadParent_eq_ok hparent, hfollows⟩

end Commit

/-! ### Histories -/

variable {repository : Repository} {receipt : ImportedTransactionReceipt}
  {transactionId : TransactionId} {revision : VerifiedRevision} {input : TrustedGenesisInput}

/-- The revision that is loaded was read, in format 1, against the parent its receipt names. -/
theorem loadAccepted_eq_ok : repository.loadAccepted transactionId = .ok revision ↔
      ∃ receipt parent, repository.readReceipt transactionId = .ok receipt ∧
        repository.readParent receipt.transaction.record = .ok parent ∧
        verifyTransactionRelationshipWithParent receipt parent = .ok () ∧
        repository.loadInventory (.v1 receipt) = .ok revision.objects ∧
        revision.receipt = .v1 receipt := by
  simp only [Repository.loadAccepted, bind_eq_ok, exists_iff, pure_eq_ok]
  constructor
  · rintro ⟨receipt, hreceipt, parent, hparent, hverify, objects, hobjects, rfl⟩
    exact ⟨receipt, parent, hreceipt, hparent, hverify, hobjects, rfl⟩
  · rintro ⟨receipt, parent, hreceipt, hparent, hverify, hobjects, hrevision⟩
    exact ⟨receipt, hreceipt, parent, hparent, hverify, _, hobjects, by rw [← hrevision]⟩

omit [UnicodeNormalization] in
/-- A receipt that is read in format 1 is read as the same one in either. -/
theorem readReceiptAny_of_readReceipt (h : repository.readReceipt transactionId = .ok receipt) :
    repository.readReceiptAny transactionId = .ok (.v1 receipt) := by
  simp only [Repository.readReceipt, Repository.readReceiptAny, Repository.readReceiptWith,
    bind_eq_ok, ofOption_eq_ok, ofCodec_eq_ok, rejectIf_eq_ok, exists_iff, pure_eq_ok] at h ⊢
  obtain ⟨bytes, hbytes, _, himport, hid, rfl⟩ := h
  exact ⟨bytes, hbytes, _, importReceiptAny_of_importTransactionReceipt himport, hid, rfl⟩

/-- A repository whose accepted head is a receipt: its head names it and reads back as it. -/
structure Repository.Serves (repository : Repository) (receipt : ImportedReceipt) : Prop where
  head : repository.head = some receipt.transactionId
  read : repository.readReceiptAny receipt.transactionId = .ok receipt

/-- The receipt of a genesis embeds what was planned. -/
theorem genesisReceipt_eq_ok {changed : List ChangedBinding} {manifest : List ObjectManifestEntry}
    (hplan : planGenesis input = .ok (changed, manifest))
    (h : genesisReceipt input changed manifest = .ok receipt) :
    (receipt.transaction.record.transactionKind = .trustedGenesis ∧
      receipt.transaction.record.changedEntityBindings = changed ∧
      receipt.transaction.record.tombstonedEntities = input.tombstonedEntities ∧
      receipt.record.objectManifest = manifest) ∧ receipt.Embeds ∧
      receipt.record.storedStateRoot = input.stateRoot.storedBytes := by
  simp only [planGenesis, bind_eq_ok, ofTransaction_eq_ok, pure_eq_ok, Prod.mk.injEq] at hplan
  obtain ⟨-, -, _, hchanged, _, -, rfl, rfl⟩ := hplan
  simp only [genesisReceipt, bind_eq_ok, ofCodec_eq_ok] at h
  obtain ⟨transaction, htransaction, hreceipt⟩ := h
  obtain ⟨hrecord, hembeds⟩ := buildTransactionReceipt_embeds hreceipt
  -- the transaction that is read back is the one that was built
  have himport := importTransaction_of_buildTransaction htransaction fun binding hbinding ↦ by
    obtain ⟨-, -, -, hordinals⟩ := ((deriveBindingDiff_spec hchanged).mem_iff binding).1 hbinding
    rw [hordinals]
    exact Nat.zero_le _
  have hread := hembeds.transaction
  simp only [hrecord, himport, Except.ok.injEq] at hread
  rw [← hread, (buildCore_eq_ok htransaction).1, hrecord]
  exact ⟨⟨rfl, rfl, rfl, rfl⟩, hembeds, rfl⟩

variable (Capability : Type) [ConformanceEpoch] [CandidateJudgment Capability]
  [NativeAdmission Capability]

/-- **A history**, newest receipt first: a trusted genesis, then commits of either format, each on a
repository whose accepted head is the receipt before. -/
inductive History : List ImportedReceipt → Prop
  | genesis {input : TrustedGenesisInput} {prepared : Prepared ImportedTransactionReceipt}
      {repository : Repository} {revision : VerifiedRevision}
      (prepare : prepareGenesis input = .ok prepared)
      (serves : repository.Serves (.v1 prepared.receipt))
      (accepted : repository.loadAccepted prepared.receipt.transaction.transactionId =
        .ok revision) :
      History [.v1 prepared.receipt]
  | commit {parent : ImportedReceipt} {ancestors : List ImportedReceipt}
      {repository : Repository} {input : CommitInput Capability}
      {prepared : Prepared ImportedTransactionReceipt}
      (history : History (parent :: ancestors)) (serves : repository.Serves parent)
      (prepare : repository.prepareCommit input = .ok prepared) :
      History (.v1 prepared.receipt :: parent :: ancestors)
  | native {parent : ImportedReceipt} {ancestors : List ImportedReceipt}
      {repository : Repository} {input : CommitInput Capability}
      {prepared : Prepared ImportedNativeTransactionReceipt}
      (history : History (parent :: ancestors)) (serves : repository.Serves parent)
      (prepare : repository.prepareNativeCommit input = .ok prepared) :
      History (.v2 prepared.receipt :: parent :: ancestors)

/-- A first receipt: no candidate, and its changes are its bindings. -/
structure Founds (receipt : ImportedReceipt) : Prop where
  candidate : receipt.candidate = none
  changed : deriveBindingDiff [] receipt.bindings none =
    .ok receipt.transactionRecord.changedEntityBindings
  tombstones : Ascends id receipt.tombstonedEntities
  disjoint : ∀ entityId ∈ receipt.tombstonedEntities, entityId ∉ receipt.bindings.map fst

variable {Capability}

omit [ConformanceEpoch] in
theorem prepareGenesis_founds {prepared : Prepared ImportedTransactionReceipt}
    (h : prepareGenesis input = .ok prepared) (hserves : repository.Serves (.v1 prepared.receipt))
    (haccepted : repository.loadAccepted prepared.receipt.transaction.transactionId =
      .ok revision) : Founds (.v1 prepared.receipt) := by
  rw [prepareGenesis_eq] at h
  simp only [bind_eq_ok, Prod.exists, pure_eq_ok] at h
  obtain ⟨changed, manifest, hplan, receipt, hreceipt, rfl⟩ := h
  obtain ⟨⟨hkind, -, -, -⟩, hembeds, -⟩ := genesisReceipt_eq_ok hplan hreceipt
  obtain ⟨receipt', parent, hread, -, hverify, hinventory, -⟩ := loadAccepted_eq_ok.1 haccepted
  obtain rfl : receipt' = receipt := by
    have hany := (readReceiptAny_of_readReceipt hread).symm.trans hserves.read
    injection hany with hany
    injection hany
  constructor
  case candidate =>
    have hnested := hembeds.nested
    simp only [validateNested, hkind, rejectIf_eq_ok, not_or] at hnested
    exact Option.not_isSome_iff_eq_none.1 hnested.1
  case changed =>
    simp only [verifyTransactionRelationshipWithParent, hkind, bind_eq_ok,
      rejectIf_eq_ok, exists_iff, ofTransaction_eq_ok, not_not] at hverify
    obtain ⟨-, _, hdiff, rfl⟩ := hverify
    exact hdiff
  all_goals
    simp only [Repository.loadInventory, validateLoadedInventory, validateInventoryOf,
      bind_eq_ok, exists_iff, rejectIf_eq_ok, pure_eq_ok] at hinventory
    obtain ⟨_, -, -, ⟨hshape, -, hdisjoint⟩, -⟩ := hinventory
  case tombstones =>
    simp only [not_or, not_not] at hshape
    exact ascends_iff_isChain.2 hshape.2.2.2
  case disjoint =>
    intro entityId hid hbound
    exact hdisjoint ⟨entityId, hid, findBinding_isSome.2 hbound⟩

/-- Every receipt of a history but the last follows the next one, and the last founds it. -/
theorem History.isChain {receipts : List ImportedReceipt} (h : History Capability receipts) :
    receipts.IsChain (fun child parent ↦ Follows parent child) ∧
      ∀ first ∈ receipts.getLast?, Founds first := by
  induction h with
  | genesis prepare serves accepted =>
    refine ⟨List.IsChain.singleton _, fun first hfirst ↦ ?_⟩
    obtain rfl := Option.some.inj hfirst
    exact prepareGenesis_founds prepare serves accepted
  | @commit parent ancestors repository input prepared _ serves prepare ih =>
    obtain ⟨actual, base, plan, ledger, hhead, hbase, hcommits, -⟩ := prepareCommit_eq_ok prepare
    obtain rfl := Option.some.inj (hhead.symm.trans serves.head)
    obtain ⟨receipt, _, hread, -, -, -, hreceipt⟩ := loadAccepted_eq_ok.1 hbase
    have hparent : base.receipt = parent := by
      rw [hreceipt]
      exact Except.ok.inj ((readReceiptAny_of_readReceipt hread).symm.trans serves.read)
    exact ⟨.cons_cons (hparent ▸ hcommits.follows) ih.1, ih.2⟩
  | @native parent ancestors repository input prepared _ serves prepare ih =>
    obtain ⟨actual, parent', hhead, hread, hfollows⟩ := prepareNativeCommit_eq_ok prepare
    obtain rfl := Option.some.inj (hhead.symm.trans serves.head)
    obtain rfl := Except.ok.inj (hread.symm.trans serves.read)
    exact ⟨.cons_cons hfollows ih.1, ih.2⟩

/-! ### The ledger of a history -/

/-- What a receipt says about identities. -/
def ImportedReceipt.ledger (receipt : ImportedReceipt) : Ledger EntityId where
  bound := {entityId | entityId ∈ receipt.bindings.map fst}
  dead := {entityId | entityId ∈ receipt.tombstonedEntities}

omit [CandidateLayout] [Blake3] [UnicodeNormalization] [ConformanceRegistry] [ReceiptParts]
  [ConformanceEpoch] in
/-- A receipt that follows another records the difference, and buries what it unbinds. -/
theorem Follows.spec {parent child : ImportedReceipt} (h : Follows parent child) :
    (∃ candidate, child.candidate = some candidate ∧
      BindingDiff parent.bindings child.bindings (some candidate.record.operations)
        child.transactionRecord.changedEntityBindings) ∧
      Ascends id child.tombstonedEntities ∧ Ledger.Step parent.ledger child.ledger := by
  obtain ⟨-, -, -, -, -, candidate, hcandidate, hdiff, htombstones⟩ :=
    verifyOrdinaryRelationship_eq_ok.1 h
  have hspec := deriveBindingDiff_spec hdiff
  obtain ⟨hsorted, hmem, hdisjoint⟩ := nextTombstonesFromRecords_spec htombstones
  refine ⟨⟨candidate, hcandidate, hspec⟩, hsorted, ?_, ?_⟩
  · ext entityId
    refine (hmem entityId).trans (or_congr Iff.rfl ?_)
    show _ ↔ entityId ∈ parent.bindings.map fst ∧ entityId ∉ child.bindings.map fst
    rw [← lookup_isSome, ← lookup_isSome]
    constructor
    · rintro ⟨change, hchange, ⟨hpre, hpost⟩, rfl⟩
      obtain ⟨hpre', hpost', -⟩ := (hspec.mem_iff change).1 hchange
      exact ⟨hpre' ▸ hpre, by rw [← hpost']; simpa using hpost⟩
    · rintro ⟨hbound, hfree⟩
      refine ⟨⟨entityId, lookup parent.bindings entityId, lookup child.bindings entityId,
        ordinalsOf (some candidate.record.operations) entityId⟩,
        (hspec.mem_iff _).2 ⟨rfl, rfl, ?_, rfl⟩, ⟨hbound, ?_⟩, rfl⟩
      · exact fun heq : lookup parent.bindings entityId = lookup child.bindings entityId ↦
          hfree (heq ▸ hbound)
      · simpa using hfree
  · exact Set.disjoint_left.2 fun entityId hdead hbound ↦ hdisjoint entityId hdead hbound

/-- What the receipts of a history say about identities, seen from one of them. -/
structure LedgerLaw (newer : List ImportedReceipt) (receipt : ImportedReceipt)
    (ancestors : List ImportedReceipt) : Prop where
  sorted : Ascends id receipt.tombstonedEntities
  keeps : ∀ parent ∈ ancestors.head?, ∀ entityId ∈ parent.tombstonedEntities,
    entityId ∈ receipt.tombstonedEntities
  disjoint : ∀ entityId ∈ receipt.tombstonedEntities, entityId ∉ receipt.bindings.map fst
  /-- What some ancestor bound is bound or dead. -/
  buried : ∀ ancestor ∈ ancestors, ∀ entityId ∈ ancestor.bindings.map fst,
    entityId ∉ receipt.bindings.map fst → entityId ∈ receipt.tombstonedEntities
  /-- What is dead is bound in no descendant. -/
  neverAgain : ∀ descendant ∈ newer, ∀ entityId ∈ receipt.tombstonedEntities,
    entityId ∉ descendant.bindings.map fst
  /-- A receipt without a parent has no candidate; its changes are its bindings. -/
  changed : BindingDiff ((ancestors.head?.map ImportedReceipt.bindings).getD []) receipt.bindings
    (receipt.candidate.map fun candidate ↦ candidate.record.operations)
    receipt.transactionRecord.changedEntityBindings
  candidate : receipt.candidate.isSome ↔ ancestors ≠ []

end

/-! ### A history of one receipt -/

/-- The digests of the object, the root, the transaction and the receipt below. -/
@[reducible]
def foundingBlake3 : Blake3 where
  hash input :=
    if input.take 15 = textBytes "sley2.object.v1" then ⟨[126, 200, 27, 39, 205, 41, 190, 95, 10, 0,
      234, 5, 242, 32, 168, 222, 239, 8, 65, 234, 217, 94, 59, 174, 237, 193, 142, 40, 245, 29, 95,
      2], rfl⟩
    else if input.take 19 = textBytes "sley2.state-root.v1" then ⟨[153, 207, 220, 248, 3, 50, 132,
      85, 244, 106, 17, 38, 11, 148, 63, 41, 171, 201, 133, 2, 112, 158, 71, 100, 179, 216, 105, 60,
      59, 56, 71, 28], rfl⟩
    else if input.take 20 = textBytes "sley2.transaction.v1" then ⟨[69, 127, 120, 87, 159, 33, 65,
      200, 56, 200, 94, 240, 195, 241, 232, 81, 0, 230, 107, 8, 102, 185, 101, 222, 122, 17, 250, 3,
      199, 200, 145, 215], rfl⟩
    else ⟨[242, 234, 41, 124, 210, 63, 154, 45, 220, 70, 216, 93, 194, 246, 80, 7, 247, 21, 135, 65,
      104, 218, 153, 169, 70, 216, 164, 94, 80, 151, 116, 226], rfl⟩

/-- The one object of the founding root: an entry point that the root does not list. -/
def foundingObject : EntityObject :=
  letI := foundingBlake3
  objectAround frozenEpochId cafeRecord cafePayload

def foundingRecord : StateRootRecord where
  workspaceId := splat 1
  schemaEpochId := frozenEpochId
  entityBindings := [(splat 1, foundingObject.objectId)]
  entryPoints := []
  dependencyRoots := []
  contractRoot := splat 20
  testRoot := splat 21
  policyRoot := splat 22
  interpretationFlags := []

theorem foundingRecord_canonical : foundingRecord.Canonical := by
  constructor <;> simp [Ascends, foundingRecord]

def foundingPayload : Bytes :=
  recordBytes ((foundingRecord.fields (1 :: bindingBytes (splat 1, foundingObject.objectId)) [0]
    [0] [0]).map Prod.snd)

example : foundingPayload.length < maxStandaloneBytes := by decide +kernel

theorem encodePayload_foundingRecord : encodePayload foundingRecord = .ok foundingPayload :=
  (encodePayload_eq_ok foundingRecord_canonical.bindings).2 ⟨_, _, _, _, ⟨by decide, rfl⟩,
    encodeIdSet_eq_ok.2 ⟨by decide, rfl⟩, encodeIdSet_eq_ok.2 ⟨by decide, rfl⟩,
    encodeU32Set_eq_ok.2 ⟨by decide, rfl⟩, by decide +kernel, by decide +kernel⟩

def foundingRoot : AcceptedStateRoot :=
  letI := foundingBlake3
  ⟨StateRoot.derive (rootPreimage frozenEpochId foundingPayload),
    rootPreimage frozenEpochId foundingPayload ++
      (StateRoot.derive (rootPreimage frozenEpochId foundingPayload)).bytes, foundingRecord⟩

theorem validRoot_foundingRoot : letI := foundingBlake3
    ValidRoot frozenRegistry foundingRoot :=
  letI := foundingBlake3
  validRoot_frozenRegistry foundingRecord_canonical rfl rfl encodePayload_foundingRecord
    (by decide +kernel)

def foundingPolicy : AcceptedPolicyRoot := ⟨splat 22, [1], ⟨splat 1, none⟩⟩

@[reducible]
def foundingParts : ReceiptParts where
  importPolicyRoot _ := .ok foundingPolicy
  importCandidateResult _ := .error (.transaction .resultNotValid)
  verifyNativeEvidence _ _ _ _ _ := .error (.transaction .testEvidenceUnsupported)

def foundingInput : TrustedGenesisInput where
  stateRoot := foundingRoot
  policyRoot := foundingPolicy
  objects := [foundingObject]
  tombstonedEntities := [splat 2]

theorem deriveBindingDiff_foundingRecord : letI := hostLayout64
    deriveBindingDiff [] foundingRecord.entityBindings none =
      .ok [⟨splat 1, none, some foundingObject.objectId, []⟩] := by
  decide

theorem importEntityObject_foundingObject : letI := hostLayout64
    letI := foundingBlake3
    letI := composedText
    importEntityObject frozenEpochId foundingObject.storedBytes = .ok foundingObject := by
  let _ := hostLayout64
  let _ := foundingBlake3
  let _ := composedText
  exact importEntityObject_eq_ok.2 ⟨buildEntityObject_eq_ok.2 ⟨_, encode_cafeRecord rfl,
    by decide +kernel, rfl⟩, rfl, by decide⟩

def foundingManifest : List ObjectManifestEntry :=
  [⟨foundingObject.objectId, UInt64.ofNat foundingObject.storedBytes.length⟩]

example : validateManifest foundingManifest = .ok () := by decide +kernel

def foundingTransaction : TransactionRecord where
  formatVersion := 1
  transactionKind := .trustedGenesis
  workspaceId := splat 1
  parentTransactionIds := []
  parentRoots := []
  schemaEpochId := frozenEpochId
  policyRootId := splat 22
  principalId := none
  candidateId := none
  candidateResultId := none
  validationContextDigest := none
  validationProfileId := none
  committedRoot := foundingRoot.root
  changedEntityBindings := [⟨splat 1, none, some foundingObject.objectId, []⟩]
  capabilitySummaryDigest := none
  selectedTests := []
  testResultRefs := []
  tombstonedEntities := [splat 2]
  commitMetadata := .restrictedV1

theorem exists_buildTransaction_founding : letI := foundingBlake3
    ∃ transaction, buildTransaction foundingTransaction = .ok transaction ∧
      transaction.storedBytes.length ≤ 2000 := by
  let _ := foundingBlake3
  have hmetadata : encodeCommitMetadata .restrictedV1 =
      .ok (recordBytes [encodeUvar 1, encodeUvar 1, encodeUvar 1]) := by
    have hle : ∀ p ∈ [encodeUvar 1, encodeUvar 1, encodeUvar 1],
        p.length ≤ maxStandaloneBytes := by with_unfolding_all decide
    exact encodeRecord_numbered (by decide) hle
  have hchanged : encodeChangedBinding ⟨splat 1, none, some foundingObject.objectId, []⟩ =
      .ok (recordBytes [(splat 1 : EntityId).bytes, [0, 0],
        [1, 32] ++ foundingObject.objectId.bytes, [0]]) := by
    simp only [encodeChangedBinding, bind_eq_ok]
    exact ⟨_, by with_unfolding_all decide, _, by with_unfolding_all decide, _, by with_unfolding_all decide,
      encodeRecord_numbered (by decide) (by decide)⟩
  obtain ⟨fields, hfields, hsmall⟩ : ∃ fields, transactionFields foundingTransaction = .ok fields ∧
      fields.length = 19 ∧ (∀ p ∈ fields, p.length ≤ maxStandaloneBytes) ∧
      (envelopeBytes transactionMagic (recordBytes fields)).length ≤ 1900 := by
    have hlist : [(⟨splat 1, none, some foundingObject.objectId, []⟩ : ChangedBinding)].mapM
        encodeChangedBinding = .ok [recordBytes [(splat 1 : EntityId).bytes, [0, 0],
        [1, 32] ++ foundingObject.objectId.bytes, [0]]] := by
      rw [List.mapM_cons, hchanged]
      rfl
    simp only [transactionFields, foundingTransaction, hmetadata, hlist, ok_bind,
      bind_eq_ok, pure_eq_ok]
    refine ⟨_, ⟨_, rfl, _, rfl, _, rfl, _, rfl, _, rfl, _, rfl, _, rfl, _, rfl, _, rfl, _, rfl, _,
      encodeList_eq_ok.2 ⟨by decide, by with_unfolding_all decide, rfl⟩, _, rfl, rfl⟩, ?_⟩
    decide +kernel
  have hencode : encodeTransactionRecord foundingTransaction = .ok (recordBytes fields) := by
    rw [encodeTransactionRecord, hfields]
    exact encodeRecord_numbered (by rw [hsmall.1]; decide) hsmall.2.1
  have henvelope : encodeEnvelope transactionMagic (recordBytes fields) =
      .ok (envelopeBytes transactionMagic (recordBytes fields)) :=
    encodeEnvelope_eq_ok.2 ⟨(Nat.add_le_add_right hsmall.2.2 32).trans (by decide), rfl⟩
  have hvalidate : validateTransactionRecord foundingTransaction = .ok () := by decide
  simp only [buildTransaction, buildCore, hvalidate, hencode, henvelope, ofScb, Except.mapError,
    ok_bind, appendDigest]
  rw [rejectIf_neg]
  · refine ⟨_, rfl, ?_⟩
    rw [List.length_append, Id.length_eq]
    omega
  · rw [Id.length_eq, Nat.not_lt]
    exact (Nat.add_le_add_right hsmall.2.2 32).trans (by decide)

@[reducible]
def foundingRegistry : ConformanceRegistry := ⟨.ok frozenRegistry⟩

def foundingReceipt (transaction : ImportedTransaction) : TransactionReceiptRecord where
  formatVersion := 1
  transactionId := transaction.transactionId
  storedTransaction := transaction.storedBytes
  storedCandidate := none
  storedCandidateResult := none
  storedStateRoot := foundingRoot.storedBytes
  storedPolicyRoot := foundingPolicy.storedBytes
  objectManifest := foundingManifest
  durabilityProfile := 1

theorem exists_buildTransactionReceipt_founding {transaction : ImportedTransaction}
    (h : letI := foundingBlake3; buildTransaction foundingTransaction = .ok transaction)
    (hlen : transaction.storedBytes.length ≤ 2000) :
    letI := hostLayout64
    letI := candidateLayout64
    letI := foundingBlake3
    letI := foundingParts
    letI := foundingRegistry
    ∃ receipt, buildTransactionReceipt (foundingReceipt transaction) = .ok receipt ∧
      receipt.record = foundingReceipt transaction ∧ receipt.transaction = transaction ∧
      receipt.stateRoot = foundingRoot ∧ receipt.policyRoot = foundingPolicy ∧ receipt.candidate =
        none := by
  let _ := hostLayout64
  let _ := candidateLayout64
  let _ := foundingBlake3
  let _ := foundingParts
  let _ := foundingRegistry
  have himport : importTransaction transaction.storedBytes = .ok transaction :=
    importTransaction_of_buildTransaction h (by decide)
  have hrecord := (buildCore_eq_ok h).1
  have hnested : validateReceiptRecord (foundingReceipt transaction) =
      .ok ⟨transaction, none, none, foundingRoot, foundingPolicy⟩ := by
    simp only [validateReceiptRecord, bind_eq_ok, rejectIf_eq_ok, exists_iff, pure_eq_ok]
    refine ⟨not_not.2 rfl, not_not.2 rfl,
      (by decide +kernel : validateManifest foundingManifest = .ok ()), transaction, himport,
        not_not.2 rfl, foundingRoot,
      importReceiptRoot_of_validRoot rfl validRoot_foundingRoot, foundingPolicy, rfl, ?_, none, rfl,
        none, rfl, ?_, ?_, rfl⟩
    all_goals rw [hrecord]
    · exact (by decide : validateRoots foundingTransaction foundingRoot foundingPolicy 1 = .ok ())
    · rfl
    · exact (by decide : validateManifestBinding foundingTransaction foundingManifest = .ok ())
  have hentry : foundingManifest.mapM encodeManifestEntry =
      .ok [recordBytes [foundingObject.objectId.bytes,
        encodeUvar (UInt64.ofNat foundingObject.storedBytes.length)]] := by
    rw [foundingManifest, List.mapM_cons, encodeManifestEntry,
      encodeRecord_numbered (by decide) (by decide +kernel)]
    rfl
  obtain ⟨fields, hfields, hcount, hsmall⟩ : ∃ fields, receiptFields (foundingReceipt transaction) =
      .ok fields ∧ fields.length = 9 ∧ ∀ p ∈ fields, p.length ≤ 3000 := by
    simp only [receiptFields, foundingReceipt, hentry, ok_bind, bind_eq_ok, pure_eq_ok]
    refine ⟨_, ⟨_, encodeBytes_eq_ok.2 ⟨hlen.trans (by decide), rfl⟩, _, rfl, _, rfl, _,
        encodeBytes_eq_ok.2 ⟨by decide +kernel, rfl⟩, _, rfl, _,
        encodeList_eq_ok.2 ⟨by decide, by decide +kernel, rfl⟩, rfl⟩, rfl, ?_⟩
    have htransaction := length_sizedBytes_le (hlen.trans (by decide : 2000 ≤ maxStandaloneBytes))
    simp only [List.forall_mem_cons, List.not_mem_nil, IsEmpty.forall_iff, implies_true, and_true,
      Id.length_eq]
    refine ⟨by with_unfolding_all decide, by decide, by omega, by with_unfolding_all decide, by with_unfolding_all decide,
      by decide +kernel, by decide +kernel, by decide +kernel, by decide +kernel⟩
  have hmax : ∀ p ∈ fields, p.length ≤ maxStandaloneBytes := fun p hp ↦
    (hsmall p hp).trans (by decide)
  have hencode : encodeReceiptRecord (foundingReceipt transaction) = .ok (recordBytes fields) := by
    rw [encodeReceiptRecord, hfields]
    exact encodeRecord_numbered (by rw [hcount]; decide) hmax
  have hbytes := length_recordBytes_le (by decide) (by rw [hcount]; decide) hsmall
  have henvelope : encodeEnvelope receiptMagic (recordBytes fields) =
      .ok (envelopeBytes receiptMagic (recordBytes fields)) := by
    refine encodeEnvelope_of_length rfl (hbytes.trans ?_)
    rw [hcount]
    decide
  simp only [buildTransactionReceipt, hnested, hencode, henvelope, ofScb, Except.mapError,
    ok_bind, appendDigest]
  rw [rejectIf_neg]
  · exact ⟨_, rfl, rfl, rfl, rfl, rfl, rfl⟩
  · rw [Id.length_eq, Nat.not_lt]
    exact (encodeEnvelope_eq_ok.1 henvelope).1

/-- A repository that holds one receipt and one object. -/
def foundingRepository (transactionId : TransactionId) (storedBytes : Bytes) : Repository where
  head := some transactionId
  receipts _ := some storedBytes
  objects _ := some foundingObject.storedBytes

@[reducible]
def foundingJudgment : @CandidateJudgment hostLayout64 Unit :=
  letI := hostLayout64
  { projectContext := fun _ ↦ .error .capability
    judgeProgram := fun _ _ _ ↦ .ok ()
    judgeRoot := fun _ _ _ _ ↦ .ok []
    finishFailure := fun _ _ _ ↦ .error .result
    finishValid := fun _ _ _ ↦ .error .result }

@[reducible]
def foundingAdmission : @NativeAdmission hostLayout64 Unit :=
  letI := hostLayout64
  { admission := fun _ _ _ _ ↦ .error (.native .executorUnavailable)
    sign := fun _ _ _ _ _ _ ↦ .error (.native .trustUnavailable) }

end Sley.Txn
