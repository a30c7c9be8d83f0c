import Sley.Repo.BranchRefs

/-!
# Branches that are created and advanced

When the calls of `BranchRefs` succeed, and what they leave. **A branch is created where there is
none** (`createBranch_creates`), and **advanced from its head to a direct child in the same
workspace** (`advanceBranch_advances`), as long as the transactions are verified and there is room.

What is left is said up to stage files, as the files that a reader of branches finds.
-/

namespace Sley.Repo

open Scb1 Ssmc Mutate Root Policy Txn
open Durably (succeeds_ofExcept succeeds_ofState succeeds_pure succeeds_step)
open Except (rejectIf_neg)
open BranchPath (isStage refStage)

/-! ### What a reader of branches finds -/

/-- The disks are the same to a reader of branches. -/
abbrev BranchFiles.Agrees (files files' : BranchFiles) : Prop :=
  Disk.Agrees isStage files files'

/-- To a reader of branches, one file is all that changed. -/
abbrev BranchFiles.Puts (path : BranchPath) (bytes : Bytes) (files files' : BranchFiles) : Prop :=
  Disk.Puts isStage path bytes files files'

section

variable [Blake3]

/-- The origin under this key. -/
def BranchFiles.HasOrigin (files : BranchFiles) (key : Digest) (origin : ImportedBranchRecord) :
    Prop :=
  ∃ bytes, files.lookup (.branch key) = some bytes ∧ importBranchRecord bytes = .ok origin

/-- The visible ref under this key. -/
def BranchFiles.HasRef (files : BranchFiles) (key : Digest) (reference : ImportedBranchRef) :
    Prop :=
  ∃ bytes, files.lookup (.ref key) = some bytes ∧ importBranchRef bytes = .ok reference

variable {files files' : BranchFiles} {key : Digest} {path : BranchPath} {bytes : Bytes}
  {origin origin' : ImportedBranchRecord} {reference reference' : ImportedBranchRef}

theorem BranchFiles.HasOrigin.eq (h : files.HasOrigin key origin)
    (h' : files.HasOrigin key origin') : origin = origin' := by
  obtain ⟨bytes, hbytes, himport⟩ := h
  obtain ⟨bytes', hbytes', himport'⟩ := h'
  rw [hbytes] at hbytes'
  obtain rfl := Option.some.inj hbytes'
  rw [himport] at himport'
  exact Except.ok.inj himport'

theorem BranchFiles.HasRef.eq (h : files.HasRef key reference)
    (h' : files.HasRef key reference') : reference = reference' := by
  obtain ⟨bytes, hbytes, himport⟩ := h
  obtain ⟨bytes', hbytes', himport'⟩ := h'
  rw [hbytes] at hbytes'
  obtain rfl := Option.some.inj hbytes'
  rw [himport] at himport'
  exact Except.ok.inj himport'

theorem BranchFiles.Puts.hasOrigin {record : BranchRecord}
    (hbuild : buildBranchRecord record = .ok origin)
    (h : files.Puts (.branch key) origin.storedBytes files') : files'.HasOrigin key origin :=
  ⟨_, Disk.Puts.lookup h rfl, importBranchRecord_of_build hbuild⟩

theorem BranchFiles.Puts.hasRef {record : BranchRefRecord}
    (hbuild : buildBranchRef record = .ok reference)
    (h : files.Puts (.ref key) reference.storedBytes files') : files'.HasRef key reference :=
  ⟨_, Disk.Puts.lookup h rfl, importBranchRef_of_build hbuild⟩

/-- What is put elsewhere leaves an origin as it is. -/
theorem BranchFiles.HasOrigin.puts (h : files.HasOrigin key origin)
    (hputs : files.Puts path bytes files') (hne : path ≠ .branch key) :
    files'.HasOrigin key origin := by
  obtain ⟨stored, hstored, himport⟩ := h
  exact ⟨stored, by rw [hputs _ rfl, if_neg hne.symm, hstored], himport⟩

theorem BranchFiles.HasRef.puts (h : files.HasRef key reference)
    (hputs : files.Puts path bytes files') (hne : path ≠ .ref key) :
    files'.HasRef key reference := by
  obtain ⟨stored, hstored, himport⟩ := h
  exact ⟨stored, by rw [hputs _ rfl, if_neg hne.symm, hstored], himport⟩

end

/-! ### How many branches there are -/

section

variable {files : BranchFiles} {keys : List Digest}

theorem length_filterMap_keys_le {key? : BranchPath → Option Digest} {path : Digest → BranchPath}
    (hpath : ∀ other key, key? other = some key → other = path key)
    (h : ∀ key, files.lookup (path key) ≠ none → key ∈ keys) :
    (files.keys.filterMap key?).length ≤ keys.length := by
  refine (List.Nodup.subperm ?_ fun key hkey ↦ ?_).length_le
  · refine files.nodupKeys.filterMap fun other other' key hkey hkey' ↦ ?_
    exact (hpath other key hkey).trans (hpath other' key hkey').symm
  · obtain ⟨other, hother, hkey⟩ := List.mem_filterMap.1 hkey
    obtain rfl := hpath other key hkey
    exact h key fun hnone ↦ AList.lookup_eq_none.1 hnone (AList.mem_keys.2 hother)

theorem length_branches_le (h : ∀ key, files.lookup (.branch key) ≠ none → key ∈ keys) :
    files.branches.length ≤ keys.length := by
  rw [BranchFiles.branches, List.length_mergeSort]
  refine length_filterMap_keys_le (fun other key hkey ↦ ?_) h
  cases other <;> cases hkey
  rfl

theorem length_refs_le (h : ∀ key, files.lookup (.ref key) ≠ none → key ∈ keys) :
    files.refs.length ≤ keys.length := by
  rw [BranchFiles.refs, List.length_mergeSort]
  refine length_filterMap_keys_le (fun other key hkey ↦ ?_) h
  cases other <;> cases hkey
  rfl

end

/-! ### Steps that succeed -/

theorem checkImport_of_import {ρ : Type} [DecidableEq ρ]
    {bytes : Bytes} {read : Bytes → BranchResult (ImportedRecord ρ)} {expected : ImportedRecord ρ}
    (h : read bytes = .ok expected) (code : BranchErrorCode) :
    checkImport read expected code bytes = .ok () := by
  rw [checkImport, h]
  exact rejectIf_neg (not_not.2 rfl) code

section

variable [HostLayout] {files : BranchFiles} {path : BranchPath} {bytes : Bytes}
  {transactions : TransactionRepository}

theorem succeeds_ofBranch {α : Type} {x : BranchResult α} {a : α} {post : α → BranchFiles → Prop}
    (ha : x = .ok a) (h : post a files) : (ofBranch x).Succeeds files post :=
  succeeds_ofExcept (Except.mapError_eq_ok.2 ha) h

variable {origin : ImportedBranchRecord} {reference : ImportedBranchRef} {name : BranchName}
  {post : Unit → BranchFiles → Prop}

theorem succeeds_branchRejectIf {c : Prop} [Decidable c] {code : BranchErrorCode}
    (hc : ¬ c) (h : post () files) :
    (branchRejectIf c code).Succeeds files post :=
  succeeds_ofBranch (rejectIf_neg hc code) h

theorem succeeds_verifiedRevision {transactionId : TransactionId} {revision : VerifiedRevision}
    {post : VerifiedRevision → BranchFiles → Prop}
    (hrevision : transactions.verifiedRevision transactionId = .ok revision)
    (h : post revision files) : (verifiedRevision transactions transactionId).Succeeds files post :=
  succeeds_ofExcept (Except.mapError_eq_ok.2 hrevision) h

theorem succeeds_requireNotIncompleteClone
    (hmarker : transactions.incompleteCloneMarkerPresent = .ok false) (h : post () files) :
    (requireNotIncompleteClone transactions).Succeeds files post :=
  .bind (succeeds_ofExcept (Except.mapError_eq_ok.2 hmarker)
    (succeeds_ofExcept (rejectIf_neg Bool.false_ne_true _) h))

theorem succeeds_pathExists {post : Bool → BranchFiles → Prop}
    (h : post (files.lookup path).isSome files) : (pathExists path).Succeeds files post :=
  succeeds_ofState rfl h

theorem succeeds_boundedRead {maximum : Nat} {post : Bytes → BranchFiles → Prop}
    (hbytes : files.lookup path = some bytes) (hlen : bytes.length ≤ maximum)
    (h : post bytes files) : (boundedRead path maximum).Succeeds files post := by
  refine succeeds_ofState ?_ h
  simp only [hbytes, rejectIf_neg (Nat.not_lt.2 hlen)]
  rfl

/-- A file that is not there is published. -/
theorem persistNoOverwrite_succeeds {stage : Nat → BranchPath} {collisionCode : BranchErrorCode}
    {verify : Bytes → BranchResult Unit} (hstage : ∀ n, (stage n).isStage)
    (hinjective : Function.Injective stage) (hpath : path.isStage = false)
    (hnone : files.lookup path = none) (hlen : bytes.length ≤ maxStandaloneBytes)
    (hverify : verify bytes = .ok ()) :
    (persistNoOverwrite path bytes stage collisionCode verify).Succeeds files fun _ files' ↦
      files.Puts path bytes files' := by
  refine .bind ((Disk.stageFile_succeeds hstage hinjective).imp ?_)
  intro stagePath files₁ ⟨hstagePath, hcontent, hagrees⟩
  have hputs : files.Puts path bytes ((files₁.link stagePath path).unlink stagePath) :=
    (hagrees.trans_puts (Disk.puts_link hcontent path)).trans_agrees
      (Disk.agrees_unlink hstagePath)
  refine .bind (succeeds_boundedRead hcontent hlen (.bind (succeeds_ofBranch hverify ?_)))
  refine .bind (succeeds_pathExists ?_)
  rw [hagrees path hpath, hnone]
  refine .bind (succeeds_step (.bind (succeeds_step ?_)))
  refine .bind (succeeds_step (.bind (succeeds_step ?_)))
  refine .bind (succeeds_boundedRead (hputs.lookup hpath) hlen ?_)
  exact .bind (succeeds_branchRejectIf (not_not.2 rfl) (succeeds_ofBranch hverify hputs))

variable [Blake3]

/-- A ref is replaced. -/
theorem replaceRef_succeeds {record : BranchRefRecord} {expected : ImportedBranchRef}
    (hpath : path.isStage = false) (hbuild : buildBranchRef record = .ok expected) :
    (replaceRef path expected).Succeeds files fun _ files' ↦
      files.Puts path expected.storedBytes files' := by
  have hlen := length_le_of_importBranchRef (importBranchRef_of_build hbuild)
  have hcheck := checkImport_of_import (importBranchRef_of_build hbuild)
  have hstage : ∀ token, (refStage token).isStage := fun _ ↦ rfl
  refine .bind ((Disk.stageFile_succeeds hstage fun _ _ h ↦ refStage.inj h).imp ?_)
  intro stagePath files₁ ⟨hstagePath, hcontent, hagrees⟩
  have hputs : files.Puts path expected.storedBytes (files₁.rename stagePath path) :=
    hagrees.trans_puts (Disk.puts_rename hstagePath hcontent path)
  refine .bind (succeeds_boundedRead hcontent hlen (.bind (succeeds_ofBranch (hcheck _) ?_)))
  refine .bind (succeeds_step (.bind (succeeds_step ?_)))
  exact .bind (succeeds_boundedRead (hputs.lookup hpath) hlen (succeeds_ofBranch (hcheck _) hputs))

/-! ### Branches that are resolved -/

/-- The branch is visible, and the records of its files are those of verified revisions. -/
structure Visible (transactions : TransactionRepository) (name : BranchName)
    (origin : ImportedBranchRecord) (reference : ImportedBranchRef) (files : BranchFiles) :
    Prop where
  hasOrigin : files.HasOrigin name.pathKey origin
  hasRef : files.HasRef name.pathKey reference
  originTarget : ∃ revision, origin.record = originRecord name revision ∧
    transactions.verifiedRevision origin.record.originTransactionId = .ok revision
  refTarget : ∃ revision, reference.record = refRecord name origin.digest revision ∧
    transactions.verifiedRevision reference.record.headTransactionId = .ok revision
  workspace : reference.record.workspaceId = origin.record.workspaceId

/-- A branch is visible once both files of its creation are there. -/
theorem Visible.of_build (revision : VerifiedRevision)
    (hrevision : transactions.verifiedRevision revision.transactionId = .ok revision)
    (horigin : buildBranchRecord (originRecord name revision) = .ok origin)
    (hreference : buildBranchRef (refRecord name origin.digest revision) = .ok reference)
    (hasOrigin : files.HasOrigin name.pathKey origin)
    (hasRef : files.HasRef name.pathKey reference) :
    Visible transactions name origin reference files := by
  have hrecord := record_of_buildBranchRecord horigin
  have hrefRecord := record_of_buildBranchRef hreference
  refine ⟨hasOrigin, hasRef, ⟨revision, hrecord, ?_⟩, ⟨revision, hrefRecord, ?_⟩, ?_⟩
  · rw [hrecord]
    exact hrevision
  · rw [hrefRecord]
    exact hrevision
  · rw [hrecord, hrefRecord]
    rfl

theorem succeeds_readBranchAt {key : Digest}
    {post : ImportedBranchRecord → BranchFiles → Prop} (horigin : files.HasOrigin key origin)
    (hkey : origin.record.branchName.pathKey = key) (h : post origin files) :
    (readBranchAt (.branch key)).Succeeds files post := by
  obtain ⟨bytes, hbytes, himport⟩ := horigin
  refine .bind (succeeds_boundedRead hbytes (length_le_of_importBranchRecord himport) ?_)
  refine .bind (succeeds_ofBranch himport (.bind (succeeds_branchRejectIf ?_ ?_)))
  · rw [hkey, not_not]
  · exact succeeds_pure h

theorem succeeds_readRefAt {key : Digest}
    {post : ImportedBranchRef → BranchFiles → Prop} (hreference : files.HasRef key reference)
    (hkey : reference.record.branchName.pathKey = key) (h : post reference files) :
    (readRefAt (.ref key)).Succeeds files post := by
  obtain ⟨bytes, hbytes, himport⟩ := hreference
  refine .bind (succeeds_boundedRead hbytes (length_le_of_importBranchRef himport) ?_)
  refine .bind (succeeds_ofBranch himport (.bind (succeeds_branchRejectIf ?_ ?_)))
  · rw [hkey, not_not]
  · exact succeeds_pure h

/-- **A visible branch is resolved.** -/
theorem resolveLocked_succeeds (h : Visible transactions name origin reference files) :
    (resolveLocked transactions name).Succeeds files fun branch files' ↦
      files' = files ∧ branch.origin = origin ∧ branch.reference = reference := by
  obtain ⟨originRevision, horigin, horiginRevision⟩ := h.originTarget
  obtain ⟨revision, hreference, hrevision⟩ := h.refTarget
  have horiginName : origin.record.branchName = name := by rw [horigin]; rfl
  have hreferenceName : reference.record.branchName = name := by rw [hreference]; rfl
  have hdigest : reference.record.branchRecordDigest = origin.digest := by rw [hreference]; rfl
  obtain ⟨originBytes, horiginBytes, -⟩ := h.hasOrigin
  obtain ⟨refBytes, hrefBytes, -⟩ := h.hasRef
  refine .bind (succeeds_pathExists (.bind (succeeds_branchRejectIf (by simp [hrefBytes]) ?_)))
  refine .bind (succeeds_pathExists (.bind (succeeds_branchRejectIf (by simp [horiginBytes]) ?_)))
  refine .bind (succeeds_readBranchAt h.hasOrigin (by rw [horiginName]) ?_)
  refine .bind (succeeds_readRefAt h.hasRef (by rw [hreferenceName]) ?_)
  refine .bind (succeeds_branchRejectIf (by simp [horiginName, hreferenceName]) ?_)
  refine .bind (succeeds_ofBranch (rejectIf_neg
    (by simp [horiginName, hreferenceName, hdigest]) _) ?_)
  refine .bind (succeeds_verifiedRevision horiginRevision ?_)
  refine .bind (succeeds_ofBranch (rejectIf_neg (not_not.2 ?_) _) ?_)
  · rw [horiginName, horigin]
  refine .bind (succeeds_verifiedRevision hrevision ?_)
  refine .bind (succeeds_ofBranch (rejectIf_neg (not_not.2 ?_) _) ?_)
  · rw [hreferenceName, hdigest, hreference]
  refine .bind (succeeds_branchRejectIf (not_not.2 h.workspace) ?_)
  exact succeeds_pure ⟨rfl, rfl, rfl⟩

/-! ### Branches that are created and advanced -/

/-- The first ref is published, and seen. -/
theorem publishFirstRef_succeeds (origin : ImportedBranchRecord)
    {record : BranchRefRecord} {desiredRef : ImportedBranchRef}
    (hbuild : buildBranchRef record = .ok desiredRef)
    (hnone : files.lookup (.ref name.pathKey) = none)
    (hvisible : ∀ files', files.Puts (.ref name.pathKey) desiredRef.storedBytes files' →
      Visible transactions name origin desiredRef files') :
    (publishFirstRef transactions name desiredRef).Succeeds files fun status files' ↦
      status = .created ∧ files.Puts (.ref name.pathKey) desiredRef.storedBytes files' := by
  refine .bind ((persistNoOverwrite_succeeds (fun _ ↦ rfl) (fun _ _ h ↦ refStage.inj h)
    rfl hnone (length_le_of_importBranchRef (importBranchRef_of_build hbuild))
    (checkImport_of_import (importBranchRef_of_build hbuild) _)).imp fun _ files' hputs ↦ ?_)
  refine .bind ((resolveLocked_succeeds (hvisible files' hputs)).imp ?_)
  rintro branch _ ⟨rfl, -, hreference⟩
  refine .bind (succeeds_branchRejectIf (not_not.2 hreference) ?_)
  exact succeeds_pure ⟨rfl, hputs⟩

/-- **A branch is created where there is none**, at a verified revision. -/
theorem createBranch_creates (revision : VerifiedRevision)
    (hmarker : transactions.incompleteCloneMarkerPresent = .ok false)
    (hrevision : transactions.verifiedRevision revision.transactionId = .ok revision)
    (horigin : buildBranchRecord (originRecord name revision) = .ok origin)
    (hreference : buildBranchRef (refRecord name origin.digest revision) = .ok reference)
    (hnone : files.lookup (.branch name.pathKey) = none)
    (hnoRef : files.lookup (.ref name.pathKey) = none)
    (hbranches : files.branches.length < maxBranchOrigins)
    (hrefs : files.refs.length < maxBranches) :
    (createBranch transactions name.bytes revision.transactionId).Succeeds files
      fun status files' ↦ status = .created ∧ ∃ files₁,
        files.Puts (.branch name.pathKey) origin.storedBytes files₁ ∧
          files₁.Puts (.ref name.pathKey) reference.storedBytes files' := by
  refine .bind (succeeds_ofBranch (BranchName.parse_eq_ok.2 rfl) ?_)
  refine .bind (succeeds_requireNotIncompleteClone hmarker ?_)
  refine .bind (succeeds_pathExists (.bind (succeeds_pathExists ?_)))
  rw [hnone, hnoRef]
  refine .bind (succeeds_branchRejectIf (by simp) ?_)
  refine .bind (succeeds_verifiedRevision hrevision ?_)
  refine .bind (succeeds_ofBranch horigin (.bind (succeeds_ofBranch hreference ?_)))
  refine .bind (succeeds_ofState (rejectIf_neg (Nat.not_le.2 hbranches) _) ?_)
  refine .bind (succeeds_ofState (rejectIf_neg (Nat.not_le.2 hrefs) _) ?_)
  refine .bind ((persistNoOverwrite_succeeds (fun _ ↦ rfl)
    (fun _ _ h ↦ BranchPath.branchStage.inj h) rfl hnone
    (length_le_of_importBranchRecord (importBranchRecord_of_build horigin))
    (checkImport_of_import (importBranchRecord_of_build horigin) _)).imp fun _ files₁ hputs ↦ ?_)
  have hnoRef₁ : files₁.lookup (.ref name.pathKey) = none := by
    rw [hputs _ rfl, if_neg nofun, hnoRef]
  refine (publishFirstRef_succeeds origin hreference hnoRef₁
    fun files' hputs' ↦ ?_).imp fun _ files' ⟨hstatus, hputs'⟩ ↦ ⟨hstatus, files₁, hputs, hputs'⟩
  exact .of_build revision hrevision horigin hreference
    ((BranchFiles.Puts.hasOrigin horigin hputs).puts hputs' nofun)
    (BranchFiles.Puts.hasRef hreference hputs')

/-- **A branch is advanced from its head** to a direct child of it in the same workspace. -/
theorem advanceBranch_advances (revision : VerifiedRevision) {before after : ImportedBranchRef}
    (hmarker : transactions.incompleteCloneMarkerPresent = .ok false)
    (hvisible : Visible transactions name origin before files)
    (hnew : before.record.headTransactionId ≠ revision.transactionId)
    (hrevision : transactions.verifiedRevision revision.transactionId = .ok revision)
    (hworkspace : revision.stateRoot.record.workspaceId = origin.record.workspaceId)
    (hparent : revision.parentTransactionIds.count before.record.headTransactionId = 1)
    (hafter : buildBranchRef (refRecord name origin.digest revision) = .ok after) :
    (advanceBranch transactions name.bytes before.record.headTransactionId
      revision.transactionId).Succeeds files fun status files' ↦
        status = .advanced ∧ files.Puts (.ref name.pathKey) after.storedBytes files' := by
  have hrecord := record_of_buildBranchRef hafter
  refine .bind (succeeds_ofBranch (BranchName.parse_eq_ok.2 rfl) ?_)
  refine .bind (succeeds_requireNotIncompleteClone hmarker ?_)
  refine .bind ((resolveLocked_succeeds hvisible).imp ?_)
  rintro current _ ⟨rfl, rfl, rfl⟩
  rw [if_neg hnew]
  refine .bind (succeeds_branchRejectIf (not_not.2 rfl) ?_)
  refine .bind (succeeds_verifiedRevision hrevision ?_)
  refine .bind (succeeds_branchRejectIf (not_not.2 hworkspace) ?_)
  refine .bind (succeeds_branchRejectIf (not_not.2 hparent) (.bind (succeeds_ofBranch hafter ?_)))
  refine .bind ((replaceRef_succeeds rfl hafter).imp fun _ files₁ hputs ↦ ?_)
  have hvisible₁ : Visible transactions name current.origin after files₁ := by
    refine ⟨hvisible.hasOrigin.puts hputs nofun, BranchFiles.Puts.hasRef hafter hputs,
      hvisible.originTarget, ⟨revision, hrecord, ?_⟩, ?_⟩
    · rw [hrecord]
      exact hrevision
    · rw [hrecord]
      exact hworkspace
  refine .bind ((resolveLocked_succeeds hvisible₁).imp ?_)
  rintro visible _ ⟨rfl, -, hreference⟩
  refine .bind (succeeds_branchRejectIf (not_not.2 hreference) ?_)
  exact succeeds_pure ⟨rfl, hputs⟩

end

end Sley.Repo
