import Sley.Repo.BranchProgress
import Sley.Txn.History

/-!
# Branches never lose an update

What the calls of `BranchRefs` do to a branch, for any number of clients whose calls are cut short
or not, while revisions are stored. **A durable step changes one thing for a reader of branches**
(`Change`): an origin appears, or its first ref, or a ref is moved from its head to a direct child.
Each program is a sequence of such steps wherever it is cut (`createBranch_meets`,
`advanceBranch_meets`, `recoverRefs_meets`), so what holds of a branch in every world is an
invariant of `Change` (`SoundFiles.change`, `SoundWorld.step`).

A revision is stored after its parents (`Stores`), as a commit does it (`stores_of_prepareCommit`),
so no transaction is its own ancestor. Hence a head that a branch has left does not come back, and two
calls cannot both have moved one branch from it (`branches_never_lose_an_update`).

The files of a branch are under a digest of its name: on the names that are ever used the digest is
injective. Two branches may well be advanced from one head (`branches_share_a_head`).
-/

namespace Sley.Repo

open Scb1 Ssmc Mutate Root Policy Txn Relation
open BranchFiles.Puts (hasOrigin hasRef)
open BranchName (bytes ext pathKey)
open BranchPath (branch isStage ref)
open Durably (meets_bind meets_ofExcept meets_ofState meets_pure meets_step)
open Id (splat)

section

variable [HostLayout]

/-! ### Reading steps -/

section Reading

variable {files : BranchFiles} {crash : BranchFiles → Prop}

theorem meets_ofBranch {α : Type} {x : BranchResult α} {post : α → BranchFiles → Prop}
    (h : ∀ a, x = .ok a → post a files) : (ofBranch x).Meets files crash post :=
  meets_ofExcept fun a ha ↦ h a (Except.mapError_eq_ok.1 ha)

theorem meets_branchRejectIf {c : Prop} [Decidable c] {code : BranchErrorCode}
    {post : Unit → BranchFiles → Prop} (h : ¬ c → post () files) :
    (branchRejectIf c code).Meets files crash post :=
  meets_ofBranch fun _ hc ↦ h (Except.rejectIf_eq_ok.1 hc)

theorem meets_verifiedRevision {transactions : TransactionRepository}
    {transactionId : TransactionId} {post : VerifiedRevision → BranchFiles → Prop}
    (h : ∀ revision, transactions.verifiedRevision transactionId = .ok revision →
      post revision files) :
    (verifiedRevision transactions transactionId).Meets files crash post :=
  meets_ofExcept fun revision hrevision ↦
    h revision (Except.mapError_eq_ok.1 hrevision)

theorem meets_pathExists {path : BranchPath} {post : Bool → BranchFiles → Prop}
    (h : post (files.lookup path).isSome files) : (pathExists path).Meets files crash post :=
  meets_ofState fun _ hexists ↦ Except.ok.inj hexists ▸ h

theorem meets_boundedRead {path : BranchPath} {maximum : Nat} {post : Bytes → BranchFiles → Prop}
    (h : ∀ bytes, files.lookup path = some bytes → post bytes files) :
    (boundedRead path maximum).Meets files crash post := by
  refine meets_ofState fun bytes hbytes ↦ ?_
  cases hlookup : files.lookup path with
  | none =>
    rw [hlookup] at hbytes
    cases hbytes
  | some content =>
    simp only [hlookup, Except.bind_eq_ok, Except.pure_eq_ok] at hbytes
    obtain ⟨_, -, rfl⟩ := hbytes
    exact h _ hlookup

section

variable [Blake3]

theorem readBranchAt_meets {path : BranchPath} {post : ImportedBranchRecord → BranchFiles → Prop}
    (h : ∀ bytes origin, files.lookup path = some bytes → importBranchRecord bytes = .ok origin →
      .branch origin.record.branchName.pathKey = path → post origin files) :
    (readBranchAt path).Meets files crash post := by
  refine meets_bind (meets_boundedRead fun bytes hbytes ↦ ?_)
  refine meets_bind (meets_ofBranch fun origin horigin ↦ ?_)
  refine meets_bind (meets_branchRejectIf fun hpath ↦ ?_)
  exact meets_pure (h bytes origin hbytes horigin (not_not.1 hpath))

theorem readRefAt_meets {path : BranchPath} {post : ImportedBranchRef → BranchFiles → Prop}
    (h : ∀ bytes reference, files.lookup path = some bytes → importBranchRef bytes = .ok reference →
      .ref reference.record.branchName.pathKey = path → post reference files) :
    (readRefAt path).Meets files crash post := by
  refine meets_bind (meets_boundedRead fun bytes hbytes ↦ ?_)
  refine meets_bind (meets_ofBranch fun reference hreference ↦ ?_)
  refine meets_bind (meets_branchRejectIf fun hpath ↦ ?_)
  exact meets_pure (h bytes reference hbytes hreference (not_not.1 hpath))

end

theorem meets_requireNotIncompleteClone {transactions : TransactionRepository}
    {post : Unit → BranchFiles → Prop} (h : post () files) :
    (requireNotIncompleteClone transactions).Meets files crash post :=
  meets_bind (meets_ofExcept fun _ _ ↦ meets_ofExcept fun _ _ ↦ h)

end Reading

/-! ### Writing steps -/

section Writing

variable {files : BranchFiles} {path : BranchPath} {bytes : Bytes}

variable {verify : Bytes → BranchResult Unit}

/-- **A file that is not there appears whole**, and was verified before. -/
theorem persistNoOverwrite_meets {stage : Nat → BranchPath} {collisionCode : BranchErrorCode}
    (hstage : ∀ n, (stage n).isStage)
    (hpath : path.isStage = false) (hnone : files.lookup path = none) :
    (persistNoOverwrite path bytes stage collisionCode verify).Meets files
      (fun files' ↦ files.Agrees files' ∨ files.Puts path bytes files')
      fun _ files' ↦ files.Puts path bytes files' ∧ verify bytes = .ok () := by
  refine meets_bind ((Disk.stageFile_meets hstage (.refl files)).imp
    (fun _ h ↦ .inl h) ?_)
  intro stagePath files₁ ⟨hstagePath, hcontent, hagrees⟩
  refine meets_bind (meets_boundedRead fun staged hstaged ↦ ?_)
  obtain rfl : bytes = staged := Option.some.inj (hcontent.symm.trans hstaged)
  refine meets_bind (meets_ofBranch fun _ hverify ↦ ?_)
  refine meets_bind (meets_pathExists ?_)
  rw [hagrees path hpath, hnone]
  -- the link is what makes the file appear
  have hlinked : files.Puts path bytes (files₁.link stagePath path) :=
    hagrees.trans_puts (Disk.puts_link hcontent path)
  have hunlinked : files.Puts path bytes ((files₁.link stagePath path).unlink stagePath) :=
    hlinked.trans_agrees (Disk.agrees_unlink hstagePath)
  refine meets_bind (meets_step (.inr hlinked) ?_)
  refine meets_bind (meets_step (.inr hlinked) ?_)
  refine meets_bind (meets_step (.inr hunlinked) ?_)
  refine meets_bind (meets_step (.inr hunlinked) ?_)
  refine meets_bind (meets_boundedRead fun _ _ ↦ ?_)
  refine meets_bind (meets_branchRejectIf fun _ ↦ ?_)
  exact meets_ofBranch fun _ _ ↦ ⟨hunlinked, hverify⟩

/-- Making a record durable again changes nothing. -/
theorem redurabilizeRecord_meets :
    (redurabilizeRecord path bytes verify).Meets files (· = files) fun _ files' ↦
      files' = files := by
  refine meets_bind (meets_boundedRead fun _ _ ↦ ?_)
  refine meets_bind (meets_branchRejectIf fun _ ↦ ?_)
  refine meets_bind (meets_ofBranch fun _ _ ↦ ?_)
  refine meets_bind (meets_step rfl ?_)
  refine meets_bind (meets_step rfl ?_)
  refine meets_bind (meets_boundedRead fun _ _ ↦ ?_)
  refine meets_bind (meets_branchRejectIf fun _ ↦ ?_)
  exact meets_ofBranch fun _ _ ↦ rfl

/-- Removing stage files changes nothing for a reader. -/
theorem removePlannedStages_meets {start : BranchFiles} {plan : List BranchPath}
    (hplan : ∀ path ∈ plan, path.isStage)
    (h : start.Agrees files) :
    (removePlannedStages plan).Meets files start.Agrees fun _ files' ↦ start.Agrees files' := by
  refine meets_bind ((Durably.meets_forM
    (I := fun rest files' ↦ (∀ path ∈ rest, path.isStage) ∧ start.Agrees files') ⟨hplan, h⟩
      ?_).imp (fun _ h ↦ h) fun _ _ ⟨_, h⟩ ↦ meets_step h h)
  rintro path rest files' ⟨hrest, h⟩
  have hunlinked := h.trans (Disk.agrees_unlink (hrest path List.mem_cons_self))
  exact meets_step hunlinked
    ⟨fun other hother ↦ hrest other (List.mem_cons_of_mem _ hother), hunlinked⟩

variable [Blake3]

/-- **A ref is replaced in one step.** -/
theorem replaceRef_meets {expected : ImportedBranchRef} : (replaceRef path expected).Meets files
      (fun files' ↦ files.Agrees files' ∨ files.Puts path expected.storedBytes files')
      fun _ files' ↦ files.Puts path expected.storedBytes files' := by
  refine meets_bind ((Disk.stageFile_meets (fun _ ↦ rfl) (.refl files)).imp
    (fun _ h ↦ .inl h) ?_)
  intro stagePath files₁ ⟨hstagePath, hcontent, hagrees⟩
  refine meets_bind (meets_boundedRead fun _ _ ↦ ?_)
  refine meets_bind (meets_ofBranch fun _ _ ↦ ?_)
  have hrenamed : files.Puts path expected.storedBytes (files₁.rename stagePath path) :=
    hagrees.trans_puts (Disk.puts_rename hstagePath hcontent path)
  refine meets_bind (meets_step (.inr hrenamed) ?_)
  refine meets_bind (meets_step (.inr hrenamed) ?_)
  refine meets_bind (meets_boundedRead fun _ _ ↦ ?_)
  exact meets_ofBranch fun _ _ ↦ hrenamed

end Writing

/-! ### Stored revisions -/

/-- A revision with this transaction is stored, and has the other as its direct parent. -/
def IsParent (stored : List VerifiedRevision) (parent child : TransactionId) : Prop :=
  ∃ revision ∈ stored, revision.transactionId = child ∧
    revision.parentTransactionIds.count parent = 1

/-- The revisions that are verified are stored ones. -/
def TransactionRepository.ReadsFrom (transactions : TransactionRepository)
    (stored : List VerifiedRevision) : Prop :=
  ∀ transactionId revision, transactions.verifiedRevision transactionId = .ok revision →
    revision ∈ stored ∧ revision.transactionId = transactionId

/-- One more revision is stored, after its parents. -/
structure Stores (stored stored' : List VerifiedRevision) : Prop where
  eq_cons : ∃ revision, stored' = revision :: stored ∧
    (∀ other ∈ stored, other.transactionId ≠ revision.transactionId) ∧
    ∀ parent ∈ revision.parentTransactionIds, ∃ other ∈ stored, other.transactionId = parent

section

variable {stored stored' : List VerifiedRevision}

theorem Stores.subset (h : Stores stored stored') : stored ⊆ stored' := by
  obtain ⟨revision, rfl, -⟩ := h
  exact List.subset_cons_self _ _

theorem IsParent.mono {parent child : TransactionId} (hsubset : stored ⊆ stored')
    (h : IsParent stored parent child) : IsParent stored' parent child := by
  obtain ⟨revision, hrevision, h⟩ := h
  exact ⟨revision, hsubset hrevision, h⟩

/-- Transactions are numbered so that a parent comes before its children. -/
def Ranked (stored : List VerifiedRevision) : Prop :=
  ∃ rank : TransactionId → Nat, ∀ revision ∈ stored,
    rank revision.transactionId < stored.length ∧
      ∀ parent ∈ revision.parentTransactionIds, rank parent < rank revision.transactionId ∧
        ∃ other ∈ stored, other.transactionId = parent

theorem Stores.ranked (h : Stores stored stored') (hranked : Ranked stored) : Ranked stored' := by
  obtain ⟨⟨revision, rfl, hfresh, hparents⟩⟩ := h
  obtain ⟨rank, hrank⟩ := hranked
  -- the new revision comes after all that were stored
  have hold {other : VerifiedRevision} (hother : other ∈ stored) :
      Function.update rank revision.transactionId stored.length other.transactionId =
        rank other.transactionId := Function.update_of_ne (hfresh other hother) _ _
  refine ⟨Function.update rank revision.transactionId stored.length, fun child hchild ↦ ?_⟩
  rcases List.mem_cons.1 hchild with rfl | hchild
  · rw [Function.update_self]
    refine ⟨by simp, fun parent hparent ↦ ?_⟩
    obtain ⟨other, hother, rfl⟩ := hparents parent hparent
    rw [hold hother]
    exact ⟨(hrank other hother).1, other, List.mem_cons_of_mem _ hother, rfl⟩
  · obtain ⟨hlength, hchildParents⟩ := hrank child hchild
    rw [hold hchild]
    refine ⟨hlength.trans (by simp), fun parent hparent ↦ ?_⟩
    obtain ⟨hlt, other, hother, rfl⟩ := hchildParents parent hparent
    rw [hold hother]
    exact ⟨hlt, other, List.mem_cons_of_mem _ hother, rfl⟩

/-- **No transaction is its own ancestor.** -/
theorem Ranked.acyclic (h : Ranked stored) (transactionId : TransactionId) :
    ¬ TransGen (IsParent stored) transactionId transactionId := by
  obtain ⟨rank, hrank⟩ := h
  have hlt {parent child : TransactionId} (h : TransGen (IsParent stored) parent child) :
      rank parent < rank child := by
    induction h with
    | single h =>
      obtain ⟨revision, hrevision, rfl, hcount⟩ := h
      exact ((hrank revision hrevision).2 _ (List.count_pos_iff.1 (by omega))).1
    | tail _ h ih =>
      obtain ⟨revision, hrevision, rfl, hcount⟩ := h
      exact ih.trans ((hrank revision hrevision).2 _ (List.count_pos_iff.1 (by omega))).1
  exact fun h ↦ (hlt h).false

end

/-! ### What is resolved of a branch -/

section

variable [Blake3]

/-- What is resolved of a branch is what its two files say, of stored revisions. -/
structure Resolves (files : BranchFiles) (transactions : TransactionRepository)
    (name : BranchName) (branch : ResolvedBranch) : Prop where
  origin : files.HasOrigin name.pathKey branch.origin
  reference : files.HasRef name.pathKey branch.reference
  originName : branch.origin.record.branchName = name
  referenceName : branch.reference.record.branchName = name
  binding : branch.reference.record.branchRecordDigest = branch.origin.digest
  workspace : branch.reference.record.workspaceId = branch.origin.record.workspaceId

theorem resolveLocked_meets {files : BranchFiles} {crash : BranchFiles → Prop}
    (transactions : TransactionRepository) (name : BranchName) :
    (resolveLocked transactions name).Meets files crash fun branch files' ↦
      files' = files ∧ Resolves files transactions name branch := by
  refine meets_bind (meets_pathExists ?_)
  refine meets_bind (meets_branchRejectIf fun _ ↦ ?_)
  refine meets_bind (meets_pathExists ?_)
  refine meets_bind (meets_branchRejectIf fun _ ↦ ?_)
  refine meets_bind (readBranchAt_meets fun originBytes origin hbytes horigin _ ↦ ?_)
  refine meets_bind (readRefAt_meets fun refBytes reference hrefBytes hreference _ ↦ ?_)
  refine meets_bind (meets_branchRejectIf fun hnames ↦ ?_)
  refine meets_bind (meets_ofBranch fun _ hbinding ↦ ?_)
  refine meets_bind (meets_verifiedRevision fun originRevision _ ↦ ?_)
  refine meets_bind (meets_ofBranch fun _ _ ↦ ?_)
  refine meets_bind (meets_verifiedRevision fun revision _ ↦ ?_)
  refine meets_bind (meets_ofBranch fun _ _ ↦ ?_)
  refine meets_bind (meets_branchRejectIf fun hworkspace ↦ ?_)
  rw [not_or, not_not, not_not] at hnames
  rw [validateOriginRefBinding, Except.rejectIf_eq_ok, not_or, not_not, not_not] at hbinding
  exact meets_pure ⟨rfl, ⟨_, hbytes, horigin⟩, ⟨_, hrefBytes, hreference⟩, hnames.1,
    hnames.2, hbinding.2.symm, not_not.1 hworkspace⟩

/-! ### What a step does to a branch -/

/-- **What a durable step changes for a reader of branches**: nothing, an origin or a first ref that
appears, or a ref that is moved to a direct child of its head. -/
inductive Change (names : Set BranchName) (stored : List VerifiedRevision)
    (files files' : BranchFiles) : Prop
  | stages (h : files.Agrees files')
  | origin {name : BranchName} {revision : VerifiedRevision} {origin : ImportedBranchRecord}
      (hname : name ∈ names) (hrevision : revision ∈ stored)
      (hnone : files.lookup (.branch name.pathKey) = none)
      (hnoRef : files.lookup (.ref name.pathKey) = none)
      (hbuild : buildBranchRecord (originRecord name revision) = .ok origin)
      (h : files.Puts (.branch name.pathKey) origin.storedBytes files')
  | firstRef {name : BranchName} {revision : VerifiedRevision} {origin : ImportedBranchRecord}
      {reference : ImportedBranchRef} (hname : name ∈ names) (hrevision : revision ∈ stored)
      (horigin : files.HasOrigin name.pathKey origin)
      (htarget : origin.record = originRecord origin.record.branchName revision)
      (hnone : files.lookup (.ref name.pathKey) = none)
      (hbuild : buildBranchRef (refRecord name origin.digest revision) = .ok reference)
      (h : files.Puts (.ref name.pathKey) reference.storedBytes files')
  | advance {name : BranchName} {revision : VerifiedRevision} {origin : ImportedBranchRecord}
      {before after : ImportedBranchRef} (hname : name ∈ names) (hrevision : revision ∈ stored)
      (horigin : files.HasOrigin name.pathKey origin)
      (horiginName : origin.record.branchName = name)
      (hbefore : files.HasRef name.pathKey before)
      (hworkspace : revision.stateRoot.record.workspaceId = origin.record.workspaceId)
      (hparent : revision.parentTransactionIds.count before.record.headTransactionId = 1)
      (hbuild : buildBranchRef (refRecord name origin.digest revision) = .ok after)
      (h : files.Puts (.ref name.pathKey) after.storedBytes files')

/-- What a program may leave behind for a reader of branches. -/
abbrev Leads (names : Set BranchName) (stored : List VerifiedRevision) :
    BranchFiles → BranchFiles → Prop :=
  ReflTransGen (Change names stored)

section Programs

variable {names : Set BranchName} {stored : List VerifiedRevision} {start files : BranchFiles}
  {transactions : TransactionRepository} {name : BranchName}

variable {originTransactionId : TransactionId} {requestedOrigin : TransactionId} {bytes : Bytes}
  {origin : ImportedBranchRecord}

/-- A file that may appear does so in one change. -/
theorem leads_of_agrees_or_puts {files' : BranchFiles} {path : BranchPath}
    (hstart : Leads names stored start files)
    (hchange : ∀ files', files.Puts path bytes files' → Change names stored files files')
    (h : files.Agrees files' ∨ files.Puts path bytes files') : Leads names stored start files' :=
  hstart.tail (h.elim .stages (hchange files'))

theorem publishFirstRef_meets {desiredRef : ImportedBranchRef}
    (hstart : Leads names stored start files) (hnone : files.lookup (.ref name.pathKey) = none)
    (hchange : ∀ files', files.Puts (.ref name.pathKey) desiredRef.storedBytes files' →
      Change names stored files files') :
    (publishFirstRef transactions name desiredRef).Meets files (Leads names stored start)
      fun status files' ↦ Leads names stored start files' ∧ status = .created := by
  refine meets_bind ((persistNoOverwrite_meets (fun _ ↦ rfl) rfl hnone).imp
    (fun _ ↦ leads_of_agrees_or_puts hstart hchange) fun _ files₁ ⟨hputs, _⟩ ↦ ?_)
  refine meets_bind ((resolveLocked_meets transactions name).imp (fun _ h ↦ h) ?_)
  rintro visible _ ⟨rfl, -⟩
  refine meets_bind (meets_branchRejectIf fun _ ↦ ?_)
  exact meets_pure ⟨hstart.tail (hchange _ hputs), rfl⟩

theorem finishOrphanCreate_meets (hname : name ∈ names) (hreads : transactions.ReadsFrom stored)
    (horigin : files.HasOrigin name.pathKey origin)
    (hnone : files.lookup (.ref name.pathKey) = none) :
    (finishOrphanCreate transactions name requestedOrigin origin).Meets files
      (Leads names stored files) fun status files' ↦
        Leads names stored files files' ∧ status = .created := by
  refine meets_bind (meets_verifiedRevision fun revision hrevision ↦ ?_)
  refine meets_bind (meets_ofBranch fun _ htarget ↦ ?_)
  rw [verifyOriginTarget, Except.rejectIf_eq_ok, not_not] at htarget
  refine meets_bind (meets_branchRejectIf fun _ ↦ ?_)
  refine meets_bind (meets_ofState fun _ _ ↦ ?_)
  refine meets_bind (redurabilizeRecord_meets.imp (fun _ h ↦ h ▸ .refl) ?_)
  rintro - _ rfl
  refine meets_bind (meets_ofBranch fun desiredRef hbuild ↦ ?_)
  exact publishFirstRef_meets .refl hnone fun files' hputs ↦
    .firstRef hname (hreads _ _ hrevision).1 horigin htarget hnone hbuild hputs

theorem createFresh_meets (hname : name ∈ names) (hreads : transactions.ReadsFrom stored)
    (hnone : files.lookup (.branch name.pathKey) = none)
    (hnoRef : files.lookup (.ref name.pathKey) = none) :
    (createFresh transactions name originTransactionId).Meets files
      (Leads names stored files) fun status files' ↦
        Leads names stored files files' ∧ status = .created := by
  refine meets_bind (meets_verifiedRevision fun revision hrevision ↦ ?_)
  have hrevision := (hreads _ _ hrevision).1
  refine meets_bind (meets_ofBranch fun origin horigin ↦ ?_)
  refine meets_bind (meets_ofBranch fun reference hreference ↦ ?_)
  refine meets_bind (meets_ofState fun _ _ ↦ ?_)
  refine meets_bind (meets_ofState fun _ _ ↦ ?_)
  have hchange (files' : BranchFiles)
      (h : files.Puts (.branch name.pathKey) origin.storedBytes files') :
      Change names stored files files' := .origin hname hrevision hnone hnoRef horigin h
  refine meets_bind ((persistNoOverwrite_meets (fun _ ↦ rfl) rfl hnone).imp
    (fun _ ↦ leads_of_agrees_or_puts .refl hchange) ?_)
  intro _ files₁ ⟨hputs, _⟩
  have hrecord := record_of_buildBranchRecord horigin
  have hnoRef₁ : files₁.lookup (.ref name.pathKey) = none := by
    rw [hputs _ rfl, if_neg nofun, hnoRef]
  refine publishFirstRef_meets (.single (hchange _ hputs)) hnoRef₁ fun files' hputs' ↦ ?_
  exact .firstRef hname hrevision (hasOrigin horigin hputs)
    (by rw [hrecord]; rfl) hnoRef₁ hreference hputs'

theorem resolveExistingCreate_meets {key : Digest} {reference : ImportedBranchRef} :
    (resolveExistingCreate transactions requestedOrigin key origin reference).Meets files
      (Leads names stored files) fun status files' ↦
        Leads names stored files files' ∧ status ≠ .advanced := by
  refine meets_bind (meets_ofBranch fun _ _ ↦ ?_)
  refine meets_bind (meets_verifiedRevision fun _ _ ↦ ?_)
  refine meets_bind (meets_ofBranch fun _ _ ↦ ?_)
  refine meets_bind (meets_verifiedRevision fun _ _ ↦ ?_)
  refine meets_bind (meets_ofBranch fun _ _ ↦ ?_)
  refine meets_bind (meets_branchRejectIf fun _ ↦ ?_)
  refine meets_bind (meets_branchRejectIf fun _ ↦ ?_)
  refine meets_bind (redurabilizeRecord_meets.imp (fun _ h ↦ h ▸ .refl) ?_)
  rintro - _ rfl
  refine meets_bind (redurabilizeRecord_meets.imp (fun _ h ↦ h ▸ .refl) ?_)
  rintro - _ rfl
  exact meets_pure ⟨.refl, nofun⟩

/-- **Creating a branch** makes an origin appear, and then its ref. -/
theorem createBranch_meets (hnames : ∀ name : BranchName, name.bytes = bytes → name ∈ names)
    (hreads : transactions.ReadsFrom stored) :
    (createBranch transactions bytes originTransactionId).Meets files
      (Leads names stored files) fun status files' ↦
        Leads names stored files files' ∧ status ≠ .advanced := by
  refine meets_bind (meets_ofBranch fun name hname ↦ ?_)
  have hname := hnames name (BranchName.parse_eq_ok.1 hname).symm
  refine meets_bind (meets_requireNotIncompleteClone ?_)
  refine meets_bind (meets_pathExists ?_)
  refine meets_bind (meets_pathExists ?_)
  refine meets_bind (meets_branchRejectIf fun hboth ↦ ?_)
  split
  case isTrue hbranch =>
    refine meets_bind (readBranchAt_meets fun originBytes origin hbytes horigin _ ↦ ?_)
    split
    case isTrue href =>
      refine meets_bind (readRefAt_meets fun refBytes reference _ _ _ ↦ ?_)
      exact resolveExistingCreate_meets
    case isFalse hnoRef =>
      rw [Bool.not_eq_true, Option.isSome_eq_false_iff, Option.isNone_iff_eq_none] at hnoRef
      exact (finishOrphanCreate_meets hname hreads ⟨_, hbytes, horigin⟩ hnoRef).imp
        (fun _ h ↦ h) fun _ _ ⟨h, hstatus⟩ ↦ ⟨h, by rw [hstatus]; nofun⟩
  case isFalse hnone =>
    have hnoRef : files.lookup (.ref name.pathKey) = none := by
      rw [← Option.isNone_iff_eq_none, ← Option.isSome_eq_false_iff, ← Bool.not_eq_true]
      exact fun href ↦ hboth ⟨href, hnone⟩
    rw [Bool.not_eq_true, Option.isSome_eq_false_iff, Option.isNone_iff_eq_none] at hnone
    exact (createFresh_meets hname hreads hnone hnoRef).imp
      (fun _ h ↦ h) fun _ _ ⟨h, hstatus⟩ ↦ ⟨h, by rw [hstatus]; nofun⟩

/-- The ref of a branch was at one transaction and is at another, a direct child of it. -/
structure Advances (stored : List VerifiedRevision) (name : BranchName)
    (expectedHead newHead : TransactionId) (files files' : BranchFiles) : Prop where
  before : ∃ reference, files.HasRef name.pathKey reference ∧
    reference.record.headTransactionId = expectedHead
  after : ∃ reference, files'.HasRef name.pathKey reference ∧
    reference.record.headTransactionId = newHead
  parent : IsParent stored expectedHead newHead

/-- **Advancing a branch** moves its ref, if the head is the expected one. -/
theorem advanceBranch_meets {expectedHead newHead : TransactionId}
    (hnames : ∀ name : BranchName, name.bytes = bytes → name ∈ names)
    (hreads : transactions.ReadsFrom stored) :
    (advanceBranch transactions bytes expectedHead newHead).Meets files
      (Leads names stored files) fun status files' ↦
        Leads names stored files files' ∧ (status = .advanced → ∃ name : BranchName,
          name.bytes = bytes ∧ Advances stored name expectedHead newHead files files') := by
  refine meets_bind (meets_ofBranch fun name hname ↦ ?_)
  have hbytes := (BranchName.parse_eq_ok.1 hname).symm
  refine meets_bind (meets_requireNotIncompleteClone ?_)
  refine meets_bind ((resolveLocked_meets transactions name).imp (fun _ h ↦ h) ?_)
  rintro current _ ⟨rfl, hcurrent⟩
  split
  case isTrue =>
    refine meets_bind (redurabilizeRecord_meets.imp (fun _ h ↦ h ▸ .refl) ?_)
    rintro - _ rfl
    refine meets_bind (redurabilizeRecord_meets.imp (fun _ h ↦ h ▸ .refl) ?_)
    rintro - _ rfl
    exact meets_pure ⟨.refl, nofun⟩
  case isFalse =>
    refine meets_bind (meets_branchRejectIf fun hexpected ↦ ?_)
    have hexpected := not_not.1 hexpected
    refine meets_bind (meets_verifiedRevision fun revision hrevision ↦ ?_)
    obtain ⟨hrevision, hnew⟩ := hreads _ _ hrevision
    refine meets_bind (meets_branchRejectIf fun hworkspace ↦ ?_)
    refine meets_bind (meets_branchRejectIf fun hparent ↦ ?_)
    refine meets_bind (meets_ofBranch fun desired hbuild ↦ ?_)
    rw [← hexpected, ne_eq, not_not] at hparent
    have hchange (files' : BranchFiles)
        (h : Disk.Puts isStage (.ref name.pathKey) desired.storedBytes _ files') :
        Change names stored _ files' :=
      .advance (hnames name hbytes) hrevision hcurrent.origin hcurrent.originName
        hcurrent.reference (not_not.1 hworkspace) hparent hbuild h
    refine meets_bind (replaceRef_meets.imp
      (fun _ ↦ leads_of_agrees_or_puts .refl hchange) fun _ files₁ hputs ↦ ?_)
    refine meets_bind ((resolveLocked_meets transactions name).imp (fun _ h ↦ h) ?_)
    rintro visible _ ⟨rfl, -⟩
    refine meets_bind (meets_branchRejectIf fun _ ↦ ?_)
    refine meets_pure ⟨.single (hchange _ hputs), fun _ ↦ ⟨name, hbytes, ⟨_, hcurrent.reference,
      hexpected⟩, ⟨_, hasRef hbuild hputs, ?_⟩, revision, hrevision, hnew, ?_⟩⟩
    · rw [record_of_buildBranchRef hbuild]
      exact hnew
    · rw [← hexpected]
      exact hparent

/-- **Recovering the refs** changes nothing for a reader of branches. -/
theorem recoverRefs_meets (limits : RefRecoveryLimits) :
    (recoverRefs transactions limits).Meets files files.Agrees fun _ files' ↦
      files.Agrees files' := by
  refine meets_bind (meets_requireNotIncompleteClone ?_)
  refine meets_bind (meets_ofState fun ⟨originKeys, originStages⟩ horigins ↦ ?_)
  refine meets_bind (meets_ofState fun ⟨refKeys, refStages⟩ hrefs ↦ ?_)
  refine meets_bind (meets_ofState fun preflight _ ↦ ?_)
  refine meets_bind (meets_ofExcept fun verified _ ↦ ?_)
  simp only [scanOrigins, scanRefs, Except.bind_eq_ok, Except.pure_eq_ok, Prod.mk.injEq]
    at horigins hrefs
  obtain ⟨_, -, _, -, _, -, -, rfl⟩ := horigins
  obtain ⟨_, -, _, -, -, rfl⟩ := hrefs
  refine meets_bind ((removePlannedStages_meets (fun path hpath ↦ ?_)
    (.refl files)).imp (fun _ h ↦ h) fun _ files₁ h₁ ↦ ?_)
  · rw [isStage, (List.mem_filter.1 hpath).2, Bool.true_or]
  · refine meets_bind ((removePlannedStages_meets (fun path hpath ↦ ?_) h₁).imp
      (fun _ h ↦ h) fun _ files₂ h₂ ↦ meets_pure h₂)
    rw [isStage, (List.mem_filter.1 hpath).2, Bool.or_true]

end Programs

/-! ### Clients -/

/-- A call of a client, with what the transactions of the repository tell it. -/
inductive BranchCall
  | create (transactions : TransactionRepository) (name : Bytes)
      (originTransactionId : TransactionId)
  | advance (transactions : TransactionRepository) (name : Bytes)
      (expectedHead newHead : TransactionId)
  | recover (transactions : TransactionRepository)

inductive BranchOutcome
  | update (status : BranchUpdateStatus)
  | recovered (report : RefRecoveryReport)

namespace BranchCall

def program : BranchCall → BranchAction BranchOutcome
  | create transactions name originTransactionId => do
    let status ← createBranch transactions name originTransactionId
    return .update status
  | advance transactions name expectedHead newHead => do
    let status ← advanceBranch transactions name expectedHead newHead
    return .update status
  | recover transactions => do
    let report ← recoverRefs transactions refRecoveryLimits
    return .recovered report

def transactions : BranchCall → TransactionRepository
  | create transactions _ _ => transactions
  | advance transactions _ _ _ => transactions
  | recover transactions => transactions

def name? : BranchCall → Option Bytes
  | create _ name _ => some name
  | advance _ name _ _ => some name
  | recover _ => none

/-- A call about one of these names, while these revisions are stored. -/
structure Admitted (names : Set BranchName) (stored : List VerifiedRevision) (call : BranchCall) :
    Prop where
  name (name : BranchName) (h : call.name? = some name.bytes) : name ∈ names
  reads : call.transactions.ReadsFrom stored

end BranchCall

/-- The revisions stored, the files of branches, and the calls that returned. -/
abbrev BranchWorld :=
  Durably.World BranchFiles BranchError BranchOutcome BranchCall (List VerifiedRevision)

/-- A revision is stored, a call is cut short, or a call returns. -/
abbrev BranchStep (names : Set BranchName) : BranchWorld → BranchWorld → Prop :=
  Durably.Happens BranchCall.program Stores (BranchCall.Admitted names)

/-- A repository without branches. -/
def BranchWorld.start : BranchWorld := ⟨[], ∅, []⟩

/-- A call on this branch returned that it advanced. -/
def Advanced (name : BranchName) (expectedHead newHead : TransactionId)
    (event : Durably.Event BranchFiles BranchError BranchOutcome BranchCall) : Prop :=
  (∃ transactions, event.call = .advance transactions name.bytes expectedHead newHead) ∧
    event.outcome = .ok (.update .advanced)

section

variable {names : Set BranchName} {stored stored' : List VerifiedRevision}

/-! ### What holds of every branch -/

/-- A ref with its origin: it names the origin's digest, name and workspace, and its head descends
from the origin's transaction. -/
structure RefersTo (stored : List VerifiedRevision) (reference : ImportedBranchRef)
    (origin : ImportedBranchRecord) : Prop where
  digest : reference.record.branchRecordDigest = origin.digest
  name : reference.record.branchName = origin.record.branchName
  workspace : reference.record.workspaceId = origin.record.workspaceId
  descends : ReflTransGen (IsParent stored) origin.record.originTransactionId
    reference.record.headTransactionId

/-- Every origin is under the key of its name, and every ref has its origin. -/
structure SoundFiles (names : Set BranchName) (stored : List VerifiedRevision)
    (files : BranchFiles) : Prop where
  origin {key : Digest} {bytes : Bytes} (h : files.lookup (.branch key) = some bytes) :
    ∃ name ∈ names, name.pathKey = key ∧ ∃ origin, importBranchRecord bytes = .ok origin ∧
      origin.record.branchName = name
  ref {key : Digest} {bytes : Bytes} (h : files.lookup (.ref key) = some bytes) :
    ∃ reference origin, importBranchRef bytes = .ok reference ∧ files.HasOrigin key origin ∧
      RefersTo stored reference origin

omit [Blake3] in
theorem RefersTo.mono {reference : ImportedBranchRef} {origin : ImportedBranchRecord}
    (hsubset : stored ⊆ stored') (h : RefersTo stored reference origin) :
    RefersTo stored' reference origin :=
  ⟨h.digest, h.name, h.workspace,
    ReflTransGen.mono (fun _ _ ↦ IsParent.mono hsubset) _ _ h.descends⟩

section Changes

variable {files files' : BranchFiles}

variable {origin : ImportedBranchRecord} {reference : ImportedBranchRef} {key : Digest}
  {revision : VerifiedRevision}

section

variable (h : Change names stored files files')

include h

/-- **An origin stays as it is**, whatever changes. -/
theorem Change.lookup_branch {bytes : Bytes} (hbytes : files.lookup (.branch key) = some bytes) :
    files'.lookup (.branch key) = some bytes := by
  cases h with
  | stages h => rw [h _ rfl, hbytes]
  | origin _ _ hnone _ _ h =>
    rw [h _ rfl, if_neg, hbytes]
    rintro heq
    rw [heq, hnone] at hbytes
    cases hbytes
  | firstRef _ _ _ _ _ _ h => rw [h _ rfl, if_neg nofun, hbytes]
  | advance _ _ _ _ _ _ _ _ h => rw [h _ rfl, if_neg nofun, hbytes]

theorem Change.hasOrigin (horigin : files.HasOrigin key origin) : files'.HasOrigin key origin := by
  obtain ⟨bytes, hbytes, himport⟩ := horigin
  exact ⟨bytes, h.lookup_branch hbytes, himport⟩

/-- **A ref only moves to a direct child of its head**, whatever changes. -/
theorem Change.hasRef (hreference : files.HasRef key reference) :
    ∃ reference', files'.HasRef key reference' ∧
      ReflTransGen (IsParent stored) reference.record.headTransactionId
        reference'.record.headTransactionId := by
  obtain ⟨bytes, hbytes, himport⟩ := hreference
  have hsame (h : files'.lookup (.ref key) = files.lookup (.ref key)) :
      ∃ reference', files'.HasRef key reference' ∧
        ReflTransGen (IsParent stored) reference.record.headTransactionId
          reference'.record.headTransactionId :=
    ⟨reference, ⟨bytes, h.trans hbytes, himport⟩, .refl⟩
  cases h with
  | stages h => exact hsame (h _ rfl)
  | origin _ _ _ _ _ h => exact hsame ((h _ rfl).trans (if_neg nofun))
  | firstRef _ _ _ _ hnone _ h =>
    refine hsame ((h _ rfl).trans (if_neg fun heq ↦ ?_))
    rw [heq, hnone] at hbytes
    cases hbytes
  | @advance name revision origin before after _ hrevision _ _ hbefore _ hparent hbuild h =>
    by_cases hkey : key = name.pathKey
    · subst hkey
      obtain rfl := BranchFiles.HasRef.eq hbefore ⟨bytes, hbytes, himport⟩
      refine ⟨after, hasRef hbuild h, .single ⟨revision, hrevision, ?_, hparent⟩⟩
      rw [record_of_buildBranchRef hbuild]
      rfl
    · exact hsame ((h _ rfl).trans (if_neg fun heq ↦ hkey (ref.inj heq)))

end

/-- The first ref of a branch refers to its origin, which was found by the digest of the name. -/
theorem SoundFiles.refersTo_firstRef (hcollision : Set.InjOn pathKey names)
    (hsound : SoundFiles names stored files) {name : BranchName} (hname : name ∈ names)
    (horigin : files.HasOrigin name.pathKey origin)
    (htarget : origin.record = originRecord origin.record.branchName revision)
    (hbuild : buildBranchRef (refRecord name origin.digest revision) = .ok reference) :
    RefersTo stored reference origin := by
  obtain ⟨originBytes, horiginBytes, himport⟩ := horigin
  obtain ⟨name', hname', hpathKey, origin', himport', hnameEq⟩ := hsound.origin horiginBytes
  rw [himport] at himport'
  obtain rfl := Except.ok.inj himport'
  have hname : origin.record.branchName = name := hnameEq.trans (hcollision hname' hname hpathKey)
  rw [hname] at htarget
  constructor
  all_goals rw [record_of_buildBranchRef hbuild]
  · rfl
  · exact hname.symm
  · rw [htarget]
    rfl
  · rw [htarget]
    exact .refl

/-- A ref that was moved to a child of its head still refers to its origin. -/
theorem SoundFiles.refersTo_advance (hsound : SoundFiles names stored files) {name : BranchName}
    {before after : ImportedBranchRef} (hrevision : revision ∈ stored)
    (horigin : files.HasOrigin name.pathKey origin) (horiginName : origin.record.branchName = name)
    (hbefore : files.HasRef name.pathKey before)
    (hworkspace : revision.stateRoot.record.workspaceId = origin.record.workspaceId)
    (hparent : revision.parentTransactionIds.count before.record.headTransactionId = 1)
    (hbuild : buildBranchRef (refRecord name origin.digest revision) = .ok after) :
    RefersTo stored after origin := by
  obtain ⟨beforeBytes, hbeforeBytes, hbeforeImport⟩ := hbefore
  obtain ⟨reference, origin', himport, horigin', hrefers⟩ := hsound.ref hbeforeBytes
  obtain rfl := horigin.eq horigin'
  rw [hbeforeImport] at himport
  obtain rfl := Except.ok.inj himport
  constructor
  all_goals rw [record_of_buildBranchRef hbuild]
  · rfl
  · exact horiginName.symm
  · exact hworkspace
  · exact hrefers.descends.tail ⟨revision, hrevision, rfl, hparent⟩

/-- **Sound files stay sound**, if no two names have one key. -/
theorem SoundFiles.change (hcollision : Set.InjOn pathKey names)
    (hsound : SoundFiles names stored files) (h : Change names stored files files') :
    SoundFiles names stored files' := by
  have hchange := h
  have hsameOrigin {key : Digest} {bytes : Bytes}
      (hsame : files'.lookup (.branch key) = files.lookup (.branch key))
      (hbytes : files'.lookup (.branch key) = some bytes) := hsound.origin (hsame.symm.trans hbytes)
  have hsameRef {key : Digest} {bytes : Bytes}
      (hsame : files'.lookup (.ref key) = files.lookup (.ref key))
      (hbytes : files'.lookup (.ref key) = some bytes) :
      ∃ reference origin, importBranchRef bytes = .ok reference ∧ files'.HasOrigin key origin ∧
        RefersTo stored reference origin := by
    obtain ⟨reference, origin, himport, horigin, hrefers⟩ := hsound.ref (hsame.symm.trans hbytes)
    exact ⟨reference, origin, himport, h.hasOrigin horigin, hrefers⟩
  refine ⟨fun {key bytes} hbytes ↦ ?_, fun {key bytes} hbytes ↦ ?_⟩
  · cases h with
    | stages h => exact hsameOrigin (h _ rfl) hbytes
    | @origin name revision origin hname _ _ _ hbuild h =>
      by_cases hkey : key = name.pathKey
      · rw [hkey, Disk.Puts.lookup h rfl] at hbytes
        obtain rfl := Option.some.inj hbytes
        refine ⟨name, hname, hkey.symm, origin, importBranchRecord_of_build hbuild, ?_⟩
        rw [record_of_buildBranchRecord hbuild]
        rfl
      · exact hsameOrigin ((h _ rfl).trans (if_neg fun heq ↦ hkey (branch.inj heq)))
          hbytes
    | firstRef _ _ _ _ _ _ h => exact hsameOrigin ((h _ rfl).trans (if_neg nofun)) hbytes
    | advance _ _ _ _ _ _ _ _ h => exact hsameOrigin ((h _ rfl).trans (if_neg nofun)) hbytes
  · cases h with
    | stages h => exact hsameRef (h _ rfl) hbytes
    | origin _ _ _ _ _ h => exact hsameRef ((h _ rfl).trans (if_neg nofun)) hbytes
    | @firstRef name revision origin reference hname hrevision horigin htarget hnone hbuild hputs =>
      by_cases hkey : key = name.pathKey
      · rw [hkey, Disk.Puts.lookup hputs rfl] at hbytes
        obtain rfl := Option.some.inj hbytes
        refine ⟨reference, origin, importBranchRef_of_build hbuild, ?_, ?_⟩
        · rw [hkey]
          exact hchange.hasOrigin horigin
        · exact hsound.refersTo_firstRef hcollision hname horigin htarget hbuild
      · exact hsameRef ((hputs _ rfl).trans (if_neg fun heq ↦ hkey (ref.inj heq))) hbytes
    | @advance name revision origin before after _ hrevision horigin horiginName hbefore hworkspace
        hparent hbuild hputs =>
      by_cases hkey : key = name.pathKey
      · rw [hkey, Disk.Puts.lookup hputs rfl] at hbytes
        obtain rfl := Option.some.inj hbytes
        refine ⟨after, origin, importBranchRef_of_build hbuild, ?_, ?_⟩
        · rw [hkey]
          exact hchange.hasOrigin horigin
        · exact hsound.refersTo_advance hrevision horigin horiginName hbefore hworkspace hparent
            hbuild
      · exact hsameRef ((hputs _ rfl).trans (if_neg fun heq ↦ hkey (ref.inj heq))) hbytes

/-! ### Runs -/

theorem Leads.lookup_branch (h : Leads names stored files files') {bytes : Bytes}
    (hbytes : files.lookup (.branch key) = some bytes) :
    files'.lookup (.branch key) = some bytes := by
  induction h with
  | refl => exact hbytes
  | tail _ h ih => exact h.lookup_branch ih

theorem Leads.hasRef (h : Leads names stored files files')
    (hreference : files.HasRef key reference) :
    ∃ reference', files'.HasRef key reference' ∧
      ReflTransGen (IsParent stored) reference.record.headTransactionId
        reference'.record.headTransactionId := by
  induction h with
  | refl => exact ⟨reference, hreference, .refl⟩
  | tail _ h ih =>
    obtain ⟨reference', hreference', hdescends⟩ := ih
    obtain ⟨reference'', hreference'', hdescends'⟩ := h.hasRef hreference'
    exact ⟨reference'', hreference'', hdescends.trans hdescends'⟩

theorem Leads.soundFiles (hcollision : Set.InjOn pathKey names)
    (h : Leads names stored files files') (hsound : SoundFiles names stored files) :
    SoundFiles names stored files' := by
  induction h with
  | refl => exact hsound
  | tail _ h ih => exact ih.change hcollision h

/-- **What a call does to a branch**, wherever it is cut short, and what it did if it returned that
it advanced. -/
theorem BranchCall.program_meets {call : BranchCall} (h : call.Admitted names stored) :
    call.program.Meets files (Leads names stored files) fun outcome files' ↦
      Leads names stored files files' ∧ ∀ name transactions expectedHead newHead,
        call = .advance transactions (bytes name) expectedHead newHead →
          outcome = .update .advanced → Advances stored name expectedHead newHead files files' := by
  cases call with
  | create transactions name originTransactionId =>
    refine meets_bind ((createBranch_meets (fun branchName hname ↦
      h.name branchName (congrArg some hname.symm)) h.reads).imp (fun _ h ↦ h) ?_)
    exact fun status files' ⟨hleads, _⟩ ↦ meets_pure ⟨hleads, fun _ _ _ _ hcall ↦ nomatch hcall⟩
  | advance transactions name expectedHead newHead =>
    refine meets_bind ((advanceBranch_meets (fun branchName hname ↦
      h.name branchName (congrArg some hname.symm)) h.reads).imp (fun _ h ↦ h) ?_)
    intro status files' ⟨hleads, hadvances⟩
    refine meets_pure ⟨hleads, fun branchName _ _ _ hcall houtcome ↦ ?_⟩
    obtain ⟨-, hname, rfl, rfl⟩ := BranchCall.advance.inj hcall
    obtain ⟨branchName', hname', hadvances⟩ := hadvances (BranchOutcome.update.inj houtcome)
    obtain rfl : branchName' = branchName := ext (hname'.trans hname)
    exact hadvances
  | recover transactions =>
    refine meets_bind ((recoverRefs_meets refRecoveryLimits).imp
      (fun _ h ↦ .single (.stages h)) ?_)
    exact fun report files' hagrees ↦ meets_pure ⟨.single (.stages hagrees),
      fun _ _ _ _ hcall ↦ nomatch hcall⟩

end Changes

/-- What holds of the files, and of every call that returned that it advanced: its branch went on
from where it left it, and no other call had moved the branch from the same head. -/
structure SoundWorld (names : Set BranchName) (w : BranchWorld) : Prop where
  ranked : Ranked w.around
  files : SoundFiles names w.around w.state
  advanced {event : Durably.Event BranchFiles BranchError BranchOutcome BranchCall}
    (hevent : event ∈ w.events) {name : BranchName} {expectedHead newHead : TransactionId}
    (h : Advanced name expectedHead newHead event) :
    Advances w.around name expectedHead newHead event.before event.after ∧
      ∃ reference, w.state.HasRef name.pathKey reference ∧
        ReflTransGen (IsParent w.around) newHead reference.record.headTransactionId
  once : w.events.Pairwise fun later earlier ↦ ∀ name expectedHead newHead newHead',
    Advanced name expectedHead newHead later → ¬ Advanced name expectedHead newHead' earlier

theorem SoundWorld.start : SoundWorld names .start where
  ranked := ⟨fun _ ↦ 0, fun _ h ↦ (List.not_mem_nil h).elim⟩
  files := ⟨fun h ↦ (Option.some_ne_none _ h.symm).elim,
    fun h ↦ (Option.some_ne_none _ h.symm).elim⟩
  advanced h := (List.not_mem_nil h).elim
  once := .nil

theorem SoundWorld.stores {w : BranchWorld} (hsound : SoundWorld names w)
    (h : Stores w.around stored) : SoundWorld names { w with around := stored } where
  ranked := h.ranked hsound.ranked
  files := by
    refine ⟨hsound.files.origin, fun hbytes ↦ ?_⟩
    obtain ⟨reference, origin, himport, horigin, hrefers⟩ := hsound.files.ref hbytes
    exact ⟨reference, origin, himport, horigin, hrefers.mono h.subset⟩
  advanced hevent name expectedHead newHead hadvanced := by
    obtain ⟨hadvances, reference, hreference, hdescends⟩ := hsound.advanced hevent hadvanced
    exact ⟨⟨hadvances.before, hadvances.after, hadvances.parent.mono h.subset⟩, reference,
      hreference, ReflTransGen.mono (fun _ _ ↦ IsParent.mono h.subset) _ _ hdescends⟩
  once := hsound.once

theorem SoundWorld.leads (hcollision : Set.InjOn pathKey names) {w : BranchWorld}
    {state : BranchFiles} (hsound : SoundWorld names w) (h : Leads names w.around w.state state) :
    SoundWorld names { w with state } where
  ranked := hsound.ranked
  files := Leads.soundFiles hcollision h hsound.files
  advanced hevent name expectedHead newHead hadvanced := by
    obtain ⟨hadvances, reference, hreference, hdescends⟩ := hsound.advanced hevent hadvanced
    obtain ⟨reference', hreference', hdescends'⟩ := Leads.hasRef h hreference
    exact ⟨hadvances, reference', hreference', hdescends.trans hdescends'⟩
  once := hsound.once

/-- **One step keeps a world sound.** -/
theorem SoundWorld.step (hcollision : Set.InjOn pathKey names) {w w' : BranchWorld}
    (hsound : SoundWorld names w) (h : BranchStep names w w') : SoundWorld names w' := by
  cases h with
  | change h => exact hsound.stores h
  | cut hadmitted h =>
    exact hsound.leads hcollision ((BranchCall.program_meets hadmitted).passed _ h)
  | @complete call hadmitted =>
    have hmeets : call.program.Meets w.state (Leads names w.around w.state) _ :=
      BranchCall.program_meets hadmitted
    have hleads : Leads names w.around w.state (call.program.final w.state) := hmeets.final .refl
    have hsound' := hsound.leads hcollision hleads
    have hnew {name : BranchName} {expectedHead newHead : TransactionId}
        (h : Advanced name expectedHead newHead ⟨call, w.state, call.program.final w.state,
          (call.program w.state).2⟩) :
        Advances w.around name expectedHead newHead w.state (call.program.final w.state) := by
      obtain ⟨⟨transactions, hcall⟩, houtcome⟩ := h
      exact (hmeets.ends _ houtcome).2 _ _ _ _ hcall rfl
    refine ⟨hsound'.ranked, hsound'.files, fun {event} hevent name expectedHead newHead h ↦ ?_, ?_⟩
    · rcases List.mem_cons.1 hevent with rfl | hevent
      · have hadvances := hnew h
        obtain ⟨reference, hreference, rfl⟩ := hadvances.after
        exact ⟨hadvances, reference, hreference, .refl⟩
      · exact hsound'.advanced hevent h
    · refine .cons (fun earlier hearlier name expectedHead newHead newHead' h h' ↦ ?_) hsound.once
      -- the branch has come back to where the earlier call moved it from
      obtain ⟨hadvances, reference, hreference, hdescends⟩ := hsound.advanced hearlier h'
      obtain ⟨reference', hreference', hhead⟩ := (hnew h).before
      obtain rfl := hreference.eq hreference'
      rw [hhead] at hdescends
      exact hsound.ranked.acyclic expectedHead (.head' hadvances.parent hdescends)

/-- **Branches never lose an update.** Whatever is stored, called and cut short, an origin never
changes once it is there, a ref names its origin and descends from it, and a call that returns that
it advanced moved its branch from the expected head to a direct child, which no other call did. -/
theorem branches_never_lose_an_update (hcollision : Set.InjOn BranchName.pathKey names)
    {w : BranchWorld} (hw : ReflTransGen (BranchStep names) .start w) :
    (∀ w', ReflTransGen (BranchStep names) w w' → ∀ key bytes,
      w.state.lookup (.branch key) = some bytes → w'.state.lookup (.branch key) = some bytes) ∧
    (∀ key bytes, w.state.lookup (.ref key) = some bytes →
      ∃ reference origin, importBranchRef bytes = .ok reference ∧ w.state.HasOrigin key origin ∧
        RefersTo w.around reference origin) ∧
    (∀ event ∈ w.events, ∀ name expectedHead newHead, Advanced name expectedHead newHead event →
      Advances w.around name expectedHead newHead event.before event.after) ∧
    w.events.Pairwise fun later earlier ↦ ∀ name expectedHead newHead newHead',
      Advanced name expectedHead newHead later → ¬ Advanced name expectedHead newHead' earlier := by
  have hsound : SoundWorld names w :=
    Durably.Happens.invariant hw .start fun _ _ ↦ SoundWorld.step hcollision
  refine ⟨fun w' hw' key bytes hbytes ↦ ?_, fun key bytes ↦ hsound.files.ref,
    fun event hevent name expectedHead newHead h ↦ (hsound.advanced hevent h).1, hsound.once⟩
  refine Durably.Happens.invariant (I := fun w ↦ w.state.lookup (.branch key) = some bytes) hw'
    hbytes fun w w' hbytes h ↦ ?_
  cases h with
  | change _ => exact hbytes
  | cut hadmitted h =>
    exact Leads.lookup_branch ((BranchCall.program_meets hadmitted).passed _ h) hbytes
  | complete hadmitted =>
    exact Leads.lookup_branch ((BranchCall.program_meets hadmitted).final .refl) hbytes

end

/-- A call whose update comes to an end is completed. -/
theorem exists_complete {names : Set BranchName} {w : BranchWorld} (call : BranchCall)
    {update : BranchAction BranchUpdateStatus} {status : BranchUpdateStatus}
    {P : BranchFiles → Prop} (hadmitted : call.Admitted names w.around)
    (hprogram : call.program = update >>= fun status ↦ pure (.update status))
    (h : update.Succeeds w.state fun result files ↦ result = status ∧ P files) :
    ∃ state, P state ∧ BranchStep names w
      { w with state, events := ⟨call, w.state, state, .ok (.update status)⟩ :: w.events } := by
  have hsucceeds : call.program.Succeeds w.state fun outcome files ↦
      outcome = .update status ∧ P files := by
    rw [hprogram]
    refine .bind (h.imp fun result files ⟨hresult, hP⟩ ↦ Durably.succeeds_pure ⟨?_, hP⟩)
    rw [hresult]
  obtain ⟨outcome, houtcome, rfl, hP⟩ := hsucceeds
  have hstep : BranchStep names w _ := .complete hadmitted
  rw [houtcome] at hstep
  exact ⟨_, hP, hstep⟩

end

end

/-! ### Transactions of a repository -/

section

variable {Capability : Type} [HostLayout] [CandidateLayout] [Blake3] [UnicodeNormalization]
  [ConformanceRegistry] [ReceiptParts] [CandidateJudgment Capability]

/-- The revisions that a repository loads are read from it. -/
theorem readsFrom_loadAccepted {repository : Repository} {transactions : TransactionRepository}
    {stored : List VerifiedRevision} (h : transactions.verifiedRevision = repository.loadAccepted)
    (hstored : ∀ transactionId revision, repository.loadAccepted transactionId = .ok revision →
      revision ∈ stored) : transactions.ReadsFrom stored := by
  intro transactionId revision hrevision
  rw [h] at hrevision
  refine ⟨hstored _ _ hrevision, ?_⟩
  obtain ⟨receipt, parent, hreceipt, -, -, -, hrevision⟩ := loadAccepted_eq_ok.1 hrevision
  simp only [Repository.readReceipt, Repository.readReceiptWith, Except.bind_eq_ok,
    Except.rejectIf_eq_ok, Unique.exists_iff, Except.pure_eq_ok] at hreceipt
  obtain ⟨_, -, _, -, hid, rfl⟩ := hreceipt
  rw [VerifiedRevision.transactionId, hrevision]
  exact not_not.1 hid

variable [ConformanceEpoch]

/-- **A commit stores a child of a stored revision**, if it is new. -/
theorem stores_of_prepareCommit {repository : Repository} {input : CommitInput Capability}
    {prepared : Prepared ImportedTransactionReceipt} {stored : List VerifiedRevision}
    {revision : VerifiedRevision} (h : repository.prepareCommit input = .ok prepared)
    (hstored : ∀ transactionId revision, repository.loadAccepted transactionId = .ok revision →
      revision ∈ stored)
    (hrevision : revision.receipt = .v1 prepared.receipt)
    (hfresh : ∀ other ∈ stored, other.transactionId ≠ revision.transactionId) :
    Stores stored (revision :: stored) := by
  obtain ⟨actual, base, plan, ledger, -, hbase, hcommits, -⟩ := prepareCommit_eq_ok h
  obtain ⟨result, metadata, tests, hrecord⟩ := hcommits.transaction
  refine ⟨revision, rfl, hfresh, fun parent hparent ↦ ⟨base, hstored _ _ hbase, ?_⟩⟩
  rw [VerifiedRevision.parentTransactionIds, hrevision, ImportedReceipt.transactionRecord, hrecord]
    at hparent
  exact (List.mem_singleton.1 hparent).symm

end

/-! ### Two branches at one transaction -/

/-- A digest that repeats the last byte. -/
@[reducible]
def endingBlake3 : Blake3 := ⟨fun preimage ↦ splat (preimage.getLastD 0)⟩

/-- A revision of the founding root under another identity. -/
def namedRevision (transactionId : TransactionId) (parents : List TransactionId) :
    letI := hostLayout64
    VerifiedRevision :=
  letI := hostLayout64
  let transaction : ImportedTransaction :=
    ⟨{ foundingTransaction with parentTransactionIds := parents }, transactionId, [], []⟩
  { receipt := .v1
      { record := foundingReceipt transaction
        receiptId := splat 0
        preimage := []
        storedBytes := []
        transaction := transaction
        candidate := none
        candidateResult := none
        stateRoot := foundingRoot
        policyRoot := foundingPolicy }
    objects := [] }

@[simp]
theorem transactionId_namedRevision (transactionId : TransactionId)
    (parents : List TransactionId) :
    letI := hostLayout64
    (namedRevision transactionId parents).transactionId = transactionId :=
  rfl

@[simp]
theorem parentTransactionIds_namedRevision (transactionId : TransactionId)
    (parents : List TransactionId) :
    letI := hostLayout64
    (namedRevision transactionId parents).parentTransactionIds = parents :=
  rfl

/-- A transaction and two children of it. -/
def forkedRevisions :
    letI := hostLayout64
    List VerifiedRevision :=
  [namedRevision (splat 3) [splat 1], namedRevision (splat 2) [splat 1],
    namedRevision (splat 1) []]

def forkedTransactions :
    letI := hostLayout64
    TransactionRepository :=
  letI := hostLayout64
  { incompleteCloneMarkerPresent := .ok false
    verifiedRevision := fun transactionId ↦
      Except.ofOption (.transaction .recoveryReceiptIncomplete)
        (forkedRevisions.find? fun revision ↦ revision.transactionId = transactionId)
    verifyBranchRecoveryAncestries := fun _ ↦ .ok 0 }

def leftBranch : BranchName := ⟨[0x61], by decide⟩

def rightBranch : BranchName := ⟨[0x62], by decide⟩

theorem pathKey_leftBranch_ne : letI := endingBlake3
    leftBranch.pathKey ≠ rightBranch.pathKey := by
  with_unfolding_all decide

theorem injOn_pathKey_forked : letI := endingBlake3
    Set.InjOn pathKey {leftBranch, rightBranch} := by
  let _ := endingBlake3
  have hne : leftBranch.pathKey ≠ rightBranch.pathKey := pathKey_leftBranch_ne
  rintro name (rfl | rfl) name' (rfl | rfl) h
  · rfl
  · exact (hne h).elim
  · exact (hne h.symm).elim
  · rfl

theorem forkedTransactions_reads : letI := hostLayout64
    forkedTransactions.ReadsFrom forkedRevisions := by
  let _ := hostLayout64
  intro transactionId revision h
  have hfind := Except.ofOption_eq_ok.1 h
  exact ⟨List.mem_of_find?_eq_some hfind, by simpa using List.find?_some hfind⟩

/-- The revisions are stored, the parent first. -/
theorem stores_forkedRevisions : letI := hostLayout64
    letI := endingBlake3
    ReflTransGen (BranchStep {leftBranch, rightBranch}) .start ⟨forkedRevisions, ∅, []⟩ := by
  let _ := hostLayout64
  let _ := endingBlake3
  have hroot : BranchStep {leftBranch, rightBranch} .start
      ⟨[namedRevision (splat 1) []], ∅, []⟩ :=
    .change ⟨_, rfl, fun _ h ↦ (List.not_mem_nil h).elim, fun _ h ↦ (List.not_mem_nil h).elim⟩
  have hleft : BranchStep {leftBranch, rightBranch} ⟨[namedRevision (splat 1) []], ∅, []⟩
      ⟨[namedRevision (splat 2) [splat 1], namedRevision (splat 1) []], ∅, []⟩ := by
    refine .change ⟨_, rfl, ?_, ?_⟩
    · simp only [List.forall_mem_singleton, transactionId_namedRevision]
      decide
    · simp only [parentTransactionIds_namedRevision, List.forall_mem_singleton]
      exact ⟨_, List.mem_singleton_self _, rfl⟩
  have hright : BranchStep {leftBranch, rightBranch}
      ⟨[namedRevision (splat 2) [splat 1], namedRevision (splat 1) []], ∅, []⟩
      ⟨forkedRevisions, ∅, []⟩ := by
    refine .change ⟨_, rfl, ?_, ?_⟩
    · simp only [List.forall_mem_cons, List.not_mem_nil, IsEmpty.forall_iff, implies_true, and_true,
        transactionId_namedRevision]
      decide
    · simp only [parentTransactionIds_namedRevision, List.forall_mem_singleton]
      exact ⟨_, List.mem_cons_of_mem _ (List.mem_singleton_self _), rfl⟩
  exact .tail (.tail (.single hroot) hleft) hright

/-- The founding root has no dependencies, so the records of a branch at it are built. -/
theorem exists_build_namedRevision (name : BranchName) (transactionId : TransactionId)
    (parents : List TransactionId) :
    letI := hostLayout64
    letI := endingBlake3
    ∃ origin reference,
      buildBranchRecord (originRecord name (namedRevision transactionId parents)) = .ok origin ∧
        buildBranchRef (refRecord name origin.digest (namedRevision transactionId parents)) =
          .ok reference := by
  let _ := hostLayout64
  let _ := endingBlake3
  let revision := namedRevision transactionId parents
  obtain ⟨origin, horigin⟩ :
      ∃ origin, buildBranchRecord (originRecord name revision) = .ok origin :=
    exists_buildBranchRecord rfl rfl
  obtain ⟨reference, hreference⟩ :
      ∃ reference, buildBranchRef (refRecord name origin.digest revision) = .ok reference :=
    exists_buildBranchRef rfl rfl
  exact ⟨origin, reference, horigin, hreference⟩

/-- **Both branches are advanced from one head**, to different children of it. -/
theorem exists_forked_run : letI := hostLayout64
    letI := endingBlake3
    ∃ w later earlier events,
      ReflTransGen (BranchStep {leftBranch, rightBranch}) .start w ∧
        w.events = later :: earlier :: events ∧
        Advanced rightBranch (splat 1) (splat 3) later ∧
        Advanced leftBranch (splat 1) (splat 2) earlier := by
  let _ := hostLayout64
  let _ := endingBlake3
  let root := namedRevision (splat 1) []
  let left := namedRevision (splat 2) [splat 1]
  let right := namedRevision (splat 3) [splat 1]
  have hkeys : leftBranch.pathKey ≠ rightBranch.pathKey := pathKey_leftBranch_ne
  have hadmitted {call : BranchCall} (htransactions : call.transactions = forkedTransactions)
      (hname : call.name? = some leftBranch.bytes ∨ call.name? = some rightBranch.bytes) :
      call.Admitted {leftBranch, rightBranch} forkedRevisions := by
    refine ⟨fun name h ↦ ?_, htransactions ▸ forkedTransactions_reads⟩
    rcases hname with hname | hname
    · exact .inl (ext (Option.some.inj (h.symm.trans hname)))
    · exact .inr (ext (Option.some.inj (h.symm.trans hname)))
  have hroot : forkedTransactions.verifiedRevision (splat 1) = .ok root := rfl
  have hleft : forkedTransactions.verifiedRevision (splat 2) = .ok left := rfl
  have hright : forkedTransactions.verifiedRevision (splat 3) = .ok right := rfl
  -- the left branch is created, and then the right one
  obtain ⟨leftOrigin, leftRef, hleftOrigin, hleftRef⟩ := exists_build_namedRevision leftBranch
    (splat 1) []
  obtain ⟨rightOrigin, rightRef, hrightOrigin, hrightRef⟩ := exists_build_namedRevision rightBranch
    (splat 1) []
  obtain ⟨s₁, ⟨f₁, hf₁, hs₁⟩, hstep₁⟩ := exists_complete (w := ⟨forkedRevisions, ∅, []⟩)
    (.create forkedTransactions leftBranch.bytes (splat 1)) (hadmitted rfl (.inl rfl)) rfl
    (createBranch_creates root rfl hroot hleftOrigin hleftRef rfl rfl
      ((length_branches_le fun key h ↦ (h rfl).elim).trans_lt (by decide : [].length < _))
      ((length_refs_le fun key h ↦ (h rfl).elim).trans_lt (by decide : [].length < _)))
  have hbranches (key : Digest) (h : s₁.lookup (.branch key) ≠ none) :
      key ∈ [leftBranch.pathKey] := by
    rw [hs₁ _ rfl, if_neg nofun, hf₁ _ rfl] at h
    split at h
    · rename_i heq
      exact List.mem_singleton.2 (branch.inj heq)
    · exact (h rfl).elim
  have hrefs (key : Digest) (h : s₁.lookup (.ref key) ≠ none) : key ∈ [leftBranch.pathKey] := by
    rw [hs₁ _ rfl] at h
    split at h
    · rename_i heq
      exact List.mem_singleton.2 (ref.inj heq)
    · rw [hf₁ _ rfl, if_neg nofun] at h
      exact (h rfl).elim
  obtain ⟨s₂, ⟨f₂, hf₂, hs₂⟩, hstep₂⟩ := exists_complete (w := ⟨forkedRevisions, s₁, _⟩)
    (.create forkedTransactions rightBranch.bytes (splat 1)) (hadmitted rfl (.inr rfl)) rfl
    (createBranch_creates root rfl hroot hrightOrigin hrightRef
      (not_not.1 fun h ↦ hkeys (List.mem_singleton.1 (hbranches _ h)).symm)
      (not_not.1 fun h ↦ hkeys (List.mem_singleton.1 (hrefs _ h)).symm)
      ((length_branches_le hbranches).trans_lt (by decide : 1 < maxBranchOrigins))
      ((length_refs_le hrefs).trans_lt (by decide : 1 < maxBranches)))
  -- each is advanced, from the same head
  have hleftVisible : Visible forkedTransactions leftBranch leftOrigin leftRef s₂ :=
    .of_build root hroot hleftOrigin hleftRef
      ((((hasOrigin hleftOrigin hf₁).puts hs₁ nofun).puts hf₂
        fun h ↦ hkeys (branch.inj h).symm).puts hs₂ nofun)
      (((hasRef hleftRef hs₁).puts hf₂ nofun).puts hs₂
        fun h ↦ hkeys (ref.inj h).symm)
  have hleftHead : leftRef.record.headTransactionId = splat 1 := by
    rw [record_of_buildBranchRef hleftRef]
    rfl
  have hrightHead : rightRef.record.headTransactionId = splat 1 := by
    rw [record_of_buildBranchRef hrightRef]
    rfl
  obtain ⟨leftAfter, hleftAfter⟩ : ∃ after,
      buildBranchRef (refRecord leftBranch leftOrigin.digest left) = .ok after :=
    exists_buildBranchRef rfl rfl
  obtain ⟨rightAfter, hrightAfter⟩ : ∃ after,
      buildBranchRef (refRecord rightBranch rightOrigin.digest right) = .ok after :=
    exists_buildBranchRef rfl rfl
  have hleftAdvances := advanceBranch_advances left rfl hleftVisible (by rw [hleftHead]; decide)
    hleft (by rw [record_of_buildBranchRecord hleftOrigin]; rfl)
    (by rw [hleftHead]; rfl) hleftAfter
  rw [hleftHead] at hleftAdvances
  obtain ⟨s₃, hs₃, hstep₃⟩ := exists_complete (w := ⟨forkedRevisions, s₂, _⟩)
    (.advance forkedTransactions leftBranch.bytes (splat 1) (splat 2))
    (hadmitted rfl (.inl rfl)) rfl hleftAdvances
  have hrightVisible : Visible forkedTransactions rightBranch rightOrigin rightRef s₃ :=
    .of_build root hroot hrightOrigin hrightRef
      (((hasOrigin hrightOrigin hf₂).puts hs₂ nofun).puts hs₃ nofun)
      ((hasRef hrightRef hs₂).puts hs₃ fun h ↦ hkeys (ref.inj h))
  have hrightAdvances := advanceBranch_advances right rfl hrightVisible
    (by rw [hrightHead]; decide) hright (by rw [record_of_buildBranchRecord hrightOrigin]; rfl)
    (by rw [hrightHead]; rfl) hrightAfter
  rw [hrightHead] at hrightAdvances
  obtain ⟨s₄, -, hstep₄⟩ := exists_complete (w := ⟨forkedRevisions, s₃, _⟩)
    (.advance forkedTransactions rightBranch.bytes (splat 1) (splat 3))
    (hadmitted rfl (.inr rfl)) rfl hrightAdvances
  exact ⟨_, _, _, _, .tail (.tail (.tail (.tail stores_forkedRevisions hstep₁) hstep₂) hstep₃)
    hstep₄, rfl, ⟨⟨_, rfl⟩, rfl⟩, ⟨_, rfl⟩, rfl⟩

/-- The same head may be advanced twice, on two branches. -/
theorem branches_share_a_head :
    letI := hostLayout64
    letI := endingBlake3
    ¬ ∀ names : Set BranchName, Set.InjOn BranchName.pathKey names → ∀ w,
      ReflTransGen (BranchStep names) .start w →
        w.events.Pairwise fun later earlier ↦ ∀ name name' expectedHead newHead newHead',
          Advanced name expectedHead newHead later → newHead ≠ newHead' →
            ¬ Advanced name' expectedHead newHead' earlier := by
  let _ := hostLayout64
  let _ := endingBlake3
  intro h
  obtain ⟨w, later, earlier, events, hw, hevents, hlater, hearlier⟩ := exists_forked_run
  have hpairwise := h _ injOn_pathKey_forked w hw
  rw [hevents, List.pairwise_cons] at hpairwise
  exact hpairwise.1 earlier List.mem_cons_self _ _ _ _ _ hlater (by decide) hearlier

/-- Both branches are advanced from one head, each by one call. -/
theorem branches_never_lose_an_update_forked :
    letI := hostLayout64
    letI := endingBlake3
    ∃ w later earlier events,
      ReflTransGen (BranchStep {leftBranch, rightBranch}) .start w ∧
        w.events = later :: earlier :: events ∧
        Advances w.around rightBranch (Id.splat 1) (Id.splat 3) later.before later.after ∧
        Advances w.around leftBranch (Id.splat 1) (Id.splat 2) earlier.before earlier.after := by
  let _ := hostLayout64
  let _ := endingBlake3
  obtain ⟨w, later, earlier, events, hw, hevents, hlater, hearlier⟩ := exists_forked_run
  obtain ⟨-, -, hadvances, -⟩ := branches_never_lose_an_update injOn_pathKey_forked hw
  refine ⟨w, later, earlier, events, hw, hevents, hadvances _ ?_ _ _ _ hlater,
    hadvances _ ?_ _ _ _ hearlier⟩
  · rw [hevents]
    exact List.mem_cons_self
  · rw [hevents]
    exact List.mem_cons_of_mem _ List.mem_cons_self

end Sley.Repo
