import Mathlib
import Sley.Lib.BigEndian
import Sley.Lib.Forest
import Sley.Lib.OrderedMap
import Sley.Repo.Compose
import Sley.Txn.History

/-!
# Ancestries and common ancestors

A merge looks for the transaction that two heads come from (`transaction_ancestry` and
`find_common_ancestor` of `sley-repo/src/merge.rs`): it walks the parents of both with an explicit
stack, whose entries are visits or marks for the end of one, and takes the first transaction of our
list that stands in theirs.

A verified record has at most one parent (`loadAccepted_parents`), and then **a walk that succeeds
lists the lineage of its head, and the transaction that is found is the nearest common ancestor**,
whichever list comes first (`commonAncestor_exact`). Both lists have to be within the limit that the
search has of its own.
-/

namespace Sley.Repo

open Scb1 Ssmc Mutate Root Policy Txn

/-- One deterministic head-first ancestry entry. -/
structure BranchAncestryEntry where
  transactionId : TransactionId
  stateRoot : StateRoot
  parentTransactionIds : List TransactionId
  deriving DecidableEq

def maxAncestryNodes : Nat := 65536

/-- Failure of the search: of the merge itself, or of reading a revision. -/
inductive MergeError [HostLayout]
  | merge (code : MergeErrorCode)
  | commit (error : CommitError)

section

variable [HostLayout]

def findCommonAncestor (ours theirs : List BranchAncestryEntry) :
    Except MergeError BranchAncestryEntry := do
  Except.rejectIf (ours.length > maxAncestryNodes ∨ theirs.length > maxAncestryNodes)
    (.merge .resourceLimit)
  let theirsIds : Std.ExtTreeSet TransactionId := .ofList (theirs.map (·.transactionId))
  Except.ofOption (.merge .noCommonAncestor) (ours.find? (·.transactionId ∈ theirsIds))

/-- What a store verifies of its transactions. -/
abbrev VerifiedRevisions := TransactionId → Except CommitError VerifiedRevision

/-- The entry of a revision under the identity it was asked for. -/
def ancestryEntry (transactionId : TransactionId) (revision : VerifiedRevision) :
    BranchAncestryEntry where
  transactionId := transactionId
  stateRoot := revision.stateRoot.root
  parentTransactionIds := revision.parentTransactionIds

/-- The loop of `transaction_ancestry`. The head of the stack is its top; an entry with `true` is the
mark for the end of a visit. -/
def ancestryLoop (verifiedRevision : VerifiedRevisions) (maxNodes : Nat)
    (output : List BranchAncestryEntry) (completed active : Std.ExtTreeSet TransactionId) :
    List (TransactionId × Bool) → Except MergeError (List BranchAncestryEntry)
  | [] => .ok output
  | (transactionId, true) :: stack =>
    ancestryLoop verifiedRevision maxNodes output (completed.insert transactionId)
      (active.erase transactionId) stack
  | (transactionId, false) :: stack =>
    if transactionId ∈ completed then
      ancestryLoop verifiedRevision maxNodes output completed active stack
    else if transactionId ∈ active ∨ output.length ≥ maxNodes then
      .error (.merge .resourceLimit)
    else
      match verifiedRevision transactionId with
      | .error error => .error (.commit error)
      | .ok revision =>
        let entry := ancestryEntry transactionId revision
        ancestryLoop verifiedRevision maxNodes (output ++ [entry]) completed
          (active.insert transactionId)
          (entry.parentTransactionIds.map (·, false) ++ (transactionId, true) :: stack)
termination_by stack => (maxNodes - output.length, stack.length)
decreasing_by
  · exact Prod.Lex.right _ (Nat.lt_succ_self _)
  · exact Prod.Lex.right _ (Nat.lt_succ_self _)
  · rename_i hroom _ _
    refine Prod.Lex.left _ _ ?_
    rw [List.length_append, List.length_singleton]
    omega

/-- Walks the head-first ancestry of one transaction. -/
def transactionAncestry (verifiedRevision : VerifiedRevisions) (head : TransactionId)
    (maxNodes : Nat) : Except MergeError (List BranchAncestryEntry) :=
  ancestryLoop verifiedRevision maxNodes [] ∅ ∅ [(head, false)]

/-! ### What a walk lists -/

/-- The verified record of a transaction names a parent. -/
def HasParent (verifiedRevision : VerifiedRevisions) (child parent : TransactionId) : Prop :=
  ∃ revision, verifiedRevision child = .ok revision ∧ parent ∈ revision.parentTransactionIds

/-- Every verified record has at most one parent. -/
def SingleParents (verifiedRevision : VerifiedRevisions) : Prop :=
  ∀ id revision, verifiedRevision id = .ok revision → revision.parentTransactionIds.length ≤ 1

/-- The first parent that a verified record names. -/
def parentOf (verifiedRevision : VerifiedRevisions) (id : TransactionId) : Option TransactionId :=
  match verifiedRevision id with
  | .ok revision => revision.parentTransactionIds.head?
  | .error _ => none

/-- An entry says what the store verifies. -/
def IsEntry (verifiedRevision : VerifiedRevisions) (entry : BranchAncestryEntry) : Prop :=
  ∃ revision, verifiedRevision entry.transactionId = .ok revision ∧
    entry = ancestryEntry entry.transactionId revision

variable {verifiedRevision : VerifiedRevisions} {id head : TransactionId} {maxNodes : Nat}
  {output result entries : List BranchAncestryEntry} {active : Std.ExtTreeSet TransactionId}
  {exits : List TransactionId} {entry : BranchAncestryEntry}

theorem hasParent_iff (hsingle : SingleParents verifiedRevision) {child parent : TransactionId} :
    HasParent verifiedRevision child parent ↔ parentOf verifiedRevision child = some parent := by
  rw [HasParent, parentOf]
  cases h : verifiedRevision child with
  | error e => simp
  | ok revision =>
    have hle := hsingle child revision h
    simp only [Except.ok.injEq, exists_eq_left']
    match hparents : revision.parentTransactionIds with
    | [] => simp
    | [only] => simp [eq_comm]
    | first :: second :: rest =>
      rw [hparents] at hle
      simp only [List.length_cons] at hle
      omega

theorem isEntry_ancestryEntry {revision : VerifiedRevision} (h : verifiedRevision id = .ok revision) :
    IsEntry verifiedRevision (ancestryEntry id revision) :=
  ⟨revision, h, rfl⟩

/-- An entry is known by its identity. -/
theorem IsEntry.eq_of_transactionId {entry' : BranchAncestryEntry}
    (h : IsEntry verifiedRevision entry) (h' : IsEntry verifiedRevision entry')
    (heq : entry.transactionId = entry'.transactionId) : entry = entry' := by
  obtain ⟨revision, hrevision, hentry⟩ := h
  obtain ⟨revision', hrevision', hentry'⟩ := h'
  rw [heq, hrevision'] at hrevision
  obtain rfl := Except.ok.inj hrevision
  rw [hentry, hentry', heq]

/-- The entries of a transaction and its parents, to the one that has none. -/
structure IsWalk (verifiedRevision : VerifiedRevisions) (head : TransactionId)
    (entries : List BranchAncestryEntry) : Prop where
  lineage : Lineage (parentOf verifiedRevision) head (entries.map (·.transactionId))
  isEntry : ∀ entry ∈ entries, IsEntry verifiedRevision entry

/-- A walk starts with the entry of its head and goes on from the parent. -/
theorem isWalk_iff : IsWalk verifiedRevision id entries ↔
    ∃ revision rest, verifiedRevision id = .ok revision ∧
      entries = ancestryEntry id revision :: rest ∧
      (parentOf verifiedRevision id = none ∧ rest = [] ∨
        ∃ parent, parentOf verifiedRevision id = some parent ∧
          IsWalk verifiedRevision parent rest) := by
  constructor
  · rintro ⟨hlineage, hentries⟩
    cases entries with
    | nil => cases hlineage
    | cons entry rest =>
      obtain ⟨⟨revision, hrevision, hentry⟩, hrest⟩ := List.forall_mem_cons.1 hentries
      obtain rfl : entry.transactionId = id := Option.some.inj hlineage.head?_eq
      refine ⟨revision, rest, hrevision, by rw [← hentry], ?_⟩
      generalize hids : (entry :: rest).map (·.transactionId) = ids at hlineage
      cases hlineage with
      | root hroot => exact .inl ⟨hroot, List.map_eq_nil_iff.1 (List.cons.inj hids).2⟩
      | step hparent hlineage =>
        exact .inr ⟨_, hparent, (List.cons.inj hids).2 ▸ hlineage, hrest⟩
  · rintro ⟨revision, rest, hrevision, rfl, ⟨hroot, rfl⟩ | ⟨parent, hparent, hrest⟩⟩
    · exact ⟨.root hroot, by simpa using isEntry_ancestryEntry hrevision⟩
    · exact ⟨.step hparent hrest.lineage,
        List.forall_mem_cons.2 ⟨isEntry_ancestryEntry hrevision, hrest.isEntry⟩⟩

/-- The end marks of a stack end the walk. -/
theorem ancestryLoop_exits (completed : Std.ExtTreeSet TransactionId) :
    ancestryLoop verifiedRevision maxNodes output completed active (exits.map (·, true)) =
      .ok output := by
  induction exits generalizing completed active with
  | nil => rw [List.map_nil, ancestryLoop]
  | cons id exits ih => rw [List.map_cons, ancestryLoop, ih]

/-- **What is visited from a transaction on is a walk**, which has to be new and to fit. -/
theorem ancestryLoop_eq_ok (hsingle : SingleParents verifiedRevision) :
    ancestryLoop verifiedRevision maxNodes output ∅ active ((id, false) :: exits.map (·, true)) =
        .ok result ↔
      ∃ entries, result = output ++ entries ∧ IsWalk verifiedRevision id entries ∧
        output.length + entries.length ≤ maxNodes ∧
        ∀ entry ∈ entries, entry.transactionId ∉ active := by
  induction hn : maxNodes - output.length generalizing output active exits id with
  | zero =>
    have hfull : output.length ≥ maxNodes := Nat.le_of_sub_eq_zero hn
    rw [ancestryLoop, if_neg Std.ExtTreeSet.not_mem_empty, if_pos (.inr hfull)]
    refine iff_of_false (fun h ↦ nomatch h) ?_
    rintro ⟨entries, -, hwalk, hfits, -⟩
    obtain ⟨_, rest, -, rfl, -⟩ := isWalk_iff.1 hwalk
    rw [List.length_cons] at hfits
    omega
  | succ n ih =>
    have hroom : ¬ output.length ≥ maxNodes := by omega
    rw [ancestryLoop, if_neg Std.ExtTreeSet.not_mem_empty]
    by_cases hactive : id ∈ active
    · rw [if_pos (.inl hactive)]
      refine iff_of_false (fun h ↦ nomatch h) ?_
      rintro ⟨entries, -, hwalk, -, hnew⟩
      obtain ⟨_, rest, -, rfl, -⟩ := isWalk_iff.1 hwalk
      exact hnew _ List.mem_cons_self hactive
    rw [if_neg (not_or.2 ⟨hactive, hroom⟩)]
    cases hrevision : verifiedRevision id with
    | error e =>
      refine iff_of_false (fun h ↦ nomatch h) ?_
      rintro ⟨entries, -, hwalk, -, -⟩
      obtain ⟨_, _, hrevision', -, -⟩ := isWalk_iff.1 hwalk
      rw [hrevision] at hrevision'
      cases hrevision'
    | ok revision =>
      have hparentOf : parentOf verifiedRevision id = revision.parentTransactionIds.head? := by
        rw [parentOf, hrevision]
      have hle := hsingle id revision hrevision
      show ancestryLoop verifiedRevision maxNodes (output ++ [ancestryEntry id revision]) ∅
        (active.insert id) (revision.parentTransactionIds.map (·, false) ++
          (id :: exits).map (·, true)) = _ ↔ _
      have hstart : ∀ entries, IsWalk verifiedRevision id entries ↔
          ∃ rest, entries = ancestryEntry id revision :: rest ∧
            (parentOf verifiedRevision id = none ∧ rest = [] ∨
              ∃ parent, parentOf verifiedRevision id = some parent ∧
                IsWalk verifiedRevision parent rest) := fun entries ↦ by
        rw [isWalk_iff, hrevision]
        simp
      simp only [hstart, hparentOf]
      match hparents : revision.parentTransactionIds with
      | [] =>
        rw [List.map_nil, List.nil_append, ancestryLoop_exits, Except.ok.injEq]
        constructor
        · rintro rfl
          refine ⟨[ancestryEntry id revision], rfl, ⟨[], rfl, .inl ⟨rfl, rfl⟩⟩, ?_, by simpa⟩
          rw [List.length_singleton]
          omega
        · rintro ⟨_, rfl, ⟨_, rfl, ⟨-, rfl⟩ | ⟨_, hparent, -⟩⟩, -, -⟩
          · rfl
          · cases hparent
      | [parent] =>
        rw [List.map_singleton, List.singleton_append,
          ih (by rw [List.length_append, List.length_singleton]; omega)]
        simp only [List.head?_cons, reduceCtorEq, false_and, false_or, Option.some.injEq,
          exists_eq_left', OrderedSet.mem_insert, not_or, List.length_append, List.length_singleton]
        constructor
        · rintro ⟨rest, rfl, hwalk, hfits, hnew⟩
          refine ⟨ancestryEntry id revision :: rest, by simp, ⟨rest, rfl, hwalk⟩, ?_, ?_⟩
          · rw [List.length_cons]
            omega
          · exact List.forall_mem_cons.2 ⟨hactive, fun entry hentry ↦ (hnew entry hentry).2⟩
        · rintro ⟨_, rfl, ⟨rest, rfl, hwalk⟩, hfits, hnew⟩
          rw [List.length_cons] at hfits
          refine ⟨rest, by simp, hwalk, by omega, fun entry hentry ↦ ⟨?_, ?_⟩⟩
          · -- a lineage does not come back
            have hparent : parentOf verifiedRevision id = some parent := by
              rw [hparentOf, hparents]
              rfl
            have hnodup := (Lineage.step hparent hwalk.lineage).nodup
            rintro rfl
            exact (List.nodup_cons.1 hnodup).1 (List.mem_map_of_mem hentry)
          · exact hnew entry (List.mem_cons_of_mem _ hentry)
      | first :: second :: rest =>
        rw [hparents] at hle
        simp only [List.length_cons] at hle
        omega

theorem transactionAncestry_eq_ok (hsingle : SingleParents verifiedRevision) :
    transactionAncestry verifiedRevision head maxNodes = .ok entries ↔
      IsWalk verifiedRevision head entries ∧ entries.length ≤ maxNodes := by
  have h : transactionAncestry verifiedRevision head maxNodes = .ok entries ↔ _ :=
    @ancestryLoop_eq_ok _ _ _ _ _ _ _ [] hsingle
  rw [h]
  simp

/-! ### Nearest common ancestors -/

/-- The parents of a transaction lead to another, or it is the same. -/
abbrev IsAncestor (verifiedRevision : VerifiedRevisions) : TransactionId → TransactionId → Prop :=
  Relation.ReflTransGen (HasParent verifiedRevision)

/-- A list has exactly the transactions on the parent chain of one, from it on and without
repeats. -/
structure ListsChain (verifiedRevision : VerifiedRevisions) (head : TransactionId)
    (entries : List BranchAncestryEntry) : Prop where
  head?_eq : (entries.map (·.transactionId)).head? = some head
  isChain : (entries.map (·.transactionId)).IsChain (HasParent verifiedRevision)
  nodup : (entries.map (·.transactionId)).Nodup
  mem_iff : ∀ id, id ∈ entries.map (·.transactionId) ↔ IsAncestor verifiedRevision head id
  isEntry : ∀ entry ∈ entries, IsEntry verifiedRevision entry

/-- A common ancestor of two transactions that every common ancestor is an ancestor of. -/
structure IsBase (verifiedRevision : VerifiedRevisions) (a b base : TransactionId) : Prop where
  ours : IsAncestor verifiedRevision a base
  theirs : IsAncestor verifiedRevision b base
  nearest : ∀ id, IsAncestor verifiedRevision a id → IsAncestor verifiedRevision b id →
    IsAncestor verifiedRevision base id

section

variable (hsingle : SingleParents verifiedRevision)

include hsingle

theorem isAncestor_iff {id id' : TransactionId} :
    IsAncestor verifiedRevision id id' ↔ Ancestor (parentOf verifiedRevision) id id' := by
  rw [IsAncestor, show HasParent verifiedRevision = fun a b ↦ parentOf verifiedRevision a = some b
    from funext₂ fun _ _ ↦ propext (hasParent_iff hsingle)]

theorem isBase_iff {ours theirs base : TransactionId} : IsBase verifiedRevision ours theirs base ↔
      IsNearestCommon (parentOf verifiedRevision) ours theirs base := by
  constructor
  · rintro ⟨hours, htheirs, hnearest⟩
    exact ⟨(isAncestor_iff hsingle).1 hours, (isAncestor_iff hsingle).1 htheirs,
      fun x hx hx' ↦ (isAncestor_iff hsingle).1 (hnearest x ((isAncestor_iff hsingle).2 hx)
        ((isAncestor_iff hsingle).2 hx'))⟩
  · rintro ⟨hours, htheirs, hnearest⟩
    exact ⟨(isAncestor_iff hsingle).2 hours, (isAncestor_iff hsingle).2 htheirs,
      fun x hx hx' ↦ (isAncestor_iff hsingle).2 (hnearest x ((isAncestor_iff hsingle).1 hx)
        ((isAncestor_iff hsingle).1 hx'))⟩

theorem IsWalk.listsChain
    (h : IsWalk verifiedRevision head entries) : ListsChain verifiedRevision head entries where
  head?_eq := h.lineage.head?_eq
  isChain := h.lineage.isChain.imp fun _ _ hparent ↦ (hasParent_iff hsingle).2 hparent
  nodup := h.lineage.nodup
  mem_iff _ := h.lineage.mem_iff.trans (isAncestor_iff hsingle).symm
  isEntry := h.isEntry

end

variable {ourHead theirHead : TransactionId} {ours theirs : List BranchAncestryEntry}

theorem findCommonAncestor_eq (hours : ours.length ≤ maxAncestryNodes)
    (htheirs : theirs.length ≤ maxAncestryNodes) :
    findCommonAncestor ours theirs = Except.ofOption (.merge .noCommonAncestor)
      (ours.find? fun entry ↦ entry.transactionId ∈ theirs.map (·.transactionId)) := by
  rw [findCommonAncestor, Except.rejectIf_neg (by omega)]
  simp only [Std.ExtTreeSet.mem_ofList, List.contains_iff_mem]
  rfl

/-- The search finds the base, or there is none. -/
theorem findCommonAncestor_spec (hsingle : SingleParents verifiedRevision)
    (hours : IsWalk verifiedRevision ourHead ours)
    (htheirs : IsWalk verifiedRevision theirHead theirs)
    (hourLimit : ours.length ≤ maxAncestryNodes) (htheirLimit : theirs.length ≤ maxAncestryNodes) :
    (∃ entry ∈ ours, findCommonAncestor ours theirs = .ok entry ∧
        IsBase verifiedRevision ourHead theirHead entry.transactionId) ∨
      findCommonAncestor ours theirs = .error (.merge .noCommonAncestor) ∧
        ∀ id, IsAncestor verifiedRevision ourHead id → ¬ IsAncestor verifiedRevision theirHead id := by
  rw [findCommonAncestor_eq hourLimit htheirLimit]
  cases hfind : ours.find? fun entry ↦ entry.transactionId ∈ theirs.map (·.transactionId) with
  | some entry =>
    refine .inl ⟨entry, List.mem_of_find?_eq_some hfind, rfl, (isBase_iff hsingle).2 ?_⟩
    refine hours.lineage.isNearestCommon_of_find htheirs.lineage
      (p := fun id ↦ id ∈ theirs.map (·.transactionId)) (fun id ↦ by rw [decide_eq_true_eq]) ?_
    rw [List.find?_map, Function.comp_def, hfind]
    rfl
  | none =>
    refine .inr ⟨rfl, fun id hour htheir ↦ ?_⟩
    obtain ⟨entry, hentry, rfl⟩ := List.mem_map.1
      (((hours.listsChain hsingle).mem_iff id).2 hour)
    have hnot := List.find?_eq_none.1 hfind entry hentry
    exact hnot (decide_eq_true (((htheirs.listsChain hsingle).mem_iff _).2 htheir))

/-- The search does not depend on which list comes first. -/
theorem findCommonAncestor_comm (hsingle : SingleParents verifiedRevision)
    (hours : IsWalk verifiedRevision ourHead ours)
    (htheirs : IsWalk verifiedRevision theirHead theirs)
    (hourLimit : ours.length ≤ maxAncestryNodes) (htheirLimit : theirs.length ≤ maxAncestryNodes) :
    findCommonAncestor ours theirs = findCommonAncestor theirs ours := by
  obtain ⟨r, hends⟩ := hours.lineage.exists_endsAt
  obtain ⟨entry, hentry, hfound, hbase⟩ | ⟨hnone, hdisjoint⟩ :=
      findCommonAncestor_spec hsingle hours htheirs hourLimit htheirLimit <;>
    obtain ⟨entry', hentry', hfound', hbase'⟩ | ⟨hnone', hdisjoint'⟩ :=
      findCommonAncestor_spec hsingle htheirs hours htheirLimit hourLimit
  · have heq := ((isBase_iff hsingle).1 hbase).unique hends ((isBase_iff hsingle).1 hbase').symm
    rw [hfound, hfound',
      (hours.isEntry entry hentry).eq_of_transactionId (htheirs.isEntry entry' hentry') heq]
  · exact absurd hbase.ours (hdisjoint' _ hbase.theirs)
  · exact absurd hbase'.theirs fun hour ↦ hdisjoint _ hour hbase'.ours
  · rw [hnone, hnone']

/-- **Walks list the parent chains, and the search finds the nearest common ancestor** of two walks
within its limit, whichever of them comes first; it fails exactly when the chains are disjoint. -/
theorem commonAncestor_exact (hsingle : SingleParents verifiedRevision) {maxNodes' : Nat}
    (hours : transactionAncestry verifiedRevision ourHead maxNodes = .ok ours)
    (htheirs : transactionAncestry verifiedRevision theirHead maxNodes' = .ok theirs) :
    ListsChain verifiedRevision ourHead ours ∧ ListsChain verifiedRevision theirHead theirs ∧
      (ours.length ≤ maxNodes ∧ theirs.length ≤ maxNodes') ∧
      (ours.length ≤ maxAncestryNodes → theirs.length ≤ maxAncestryNodes →
        ((∃ entry ∈ ours, findCommonAncestor ours theirs = .ok entry ∧
            IsBase verifiedRevision ourHead theirHead entry.transactionId) ∨
          findCommonAncestor ours theirs = .error (.merge .noCommonAncestor)) ∧
        (findCommonAncestor ours theirs = .error (.merge .noCommonAncestor) ↔
          ∀ id, IsAncestor verifiedRevision ourHead id →
            ¬ IsAncestor verifiedRevision theirHead id) ∧
        findCommonAncestor ours theirs = findCommonAncestor theirs ours) := by
  obtain ⟨hwalk, hfits⟩ := (transactionAncestry_eq_ok hsingle).1 hours
  obtain ⟨hwalk', hfits'⟩ := (transactionAncestry_eq_ok hsingle).1 htheirs
  refine ⟨hwalk.listsChain hsingle, hwalk'.listsChain hsingle, ⟨hfits, hfits'⟩,
    fun hourLimit htheirLimit ↦ ⟨?_, ?_,
      findCommonAncestor_comm hsingle hwalk hwalk' hourLimit htheirLimit⟩⟩
  · exact (findCommonAncestor_spec hsingle hwalk hwalk' hourLimit htheirLimit).imp_right And.left
  · obtain ⟨entry, -, hfound, hbase⟩ | ⟨hnone, hdisjoint⟩ :=
      findCommonAncestor_spec hsingle hwalk hwalk' hourLimit htheirLimit
    · rw [hfound]
      exact iff_of_false (fun h ↦ nomatch h) fun hdisjoint ↦
        hdisjoint _ hbase.ours hbase.theirs
    · exact iff_of_true hnone hdisjoint

/-- **The store verifies records of at most one parent.** -/
theorem loadAccepted_parents [CandidateLayout] [Blake3] [UnicodeNormalization]
    [ConformanceRegistry] [ReceiptParts] (repository : Repository) :
    SingleParents repository.loadAccepted := by
  intro id revision h
  obtain ⟨receipt, -, hread, -, -, -, hrevision⟩ := loadAccepted_eq_ok.1 h
  simp only [Repository.readReceipt, Repository.readReceiptWith, Except.bind_eq_ok,
    Except.pure_eq_ok, ofCodec_eq_ok] at hread
  obtain ⟨_, -, _, himport, _, -, rfl⟩ := hread
  have hembeds := (buildTransactionReceipt_embeds (importTransactionReceipt_eq_ok.1 himport).1).2
  have hbuild := (importTransaction_eq_ok.1 hembeds.transaction).1
  rw [VerifiedRevision.parentTransactionIds, hrevision]
  exact TransactionRecord.length_parents_le (buildCore_eq_ok hbuild).2

/-! ### Stores of numbered transactions -/

omit [HostLayout] in
theorem length_numberBytes (n : Nat) : (BigEndian.bytes 32 n).length = 32 :=
  BigEndian.length_bytes 32 n

/-- The transaction of a number. -/
def numbered (n : Nat) : TransactionId := ⟨BigEndian.bytes 32 n, length_numberBytes n⟩

/-- A revision with the given parents. -/
def revisionWith (parents : List TransactionId) : VerifiedRevision where
  receipt := .v1 {
    record := foundingReceipt ⟨foundingTransaction, Id.splat 0, [], []⟩
    receiptId := Id.splat 0
    preimage := []
    storedBytes := []
    transaction :=
      ⟨{ foundingTransaction with parentTransactionIds := parents }, Id.splat 0, [], []⟩
    candidate := none
    candidateResult := none
    stateRoot := foundingRoot
    policyRoot := foundingPolicy }
  objects := []

/-- A store of the numbered transactions. -/
def numberedStore (parent : Nat → Option Nat) : VerifiedRevisions := fun id ↦
  .ok (revisionWith ((parent (BigEndian.value id.bytes)).toList.map numbered))

variable {parent : Nat → Option Nat} {n : Nat} {ns : List Nat}

theorem singleParents_numberedStore : SingleParents (numberedStore parent) := by
  intro id revision h
  obtain rfl := Except.ok.inj h
  show ((parent (BigEndian.value id.bytes)).toList.map numbered).length ≤ 1
  cases parent (BigEndian.value id.bytes) <;> simp

theorem numberedStore_numbered (h : n < 256 ^ 32) : numberedStore parent (numbered n) =
    .ok (revisionWith ((parent n).toList.map numbered)) := by
  rw [numberedStore, numbered, BigEndian.value_bytes, Nat.mod_eq_of_lt h]

theorem parentOf_numbered (h : n < 256 ^ 32) :
    parentOf (numberedStore parent) (numbered n) = (parent n).map numbered := by
  rw [parentOf, numberedStore_numbered h]
  show ((parent n).toList.map numbered).head? = _
  cases parent n <;> rfl

/-- The entry of a numbered transaction. -/
def numberedEntry (parent : Nat → Option Nat) (n : Nat) : BranchAncestryEntry :=
  ancestryEntry (numbered n) (revisionWith ((parent n).toList.map numbered))

/-- A lineage of numbers is walked. -/
theorem isWalk_numberedStore (h : Lineage parent n ns) (hns : ∀ m ∈ ns, m < 256 ^ 32) :
    IsWalk (numberedStore parent) (numbered n) (ns.map (numberedEntry parent)) := by
  induction h with
  | root hroot =>
    have hlt := hns _ List.mem_cons_self
    refine isWalk_iff.2 ⟨_, [], numberedStore_numbered hlt, rfl, .inl ⟨?_, rfl⟩⟩
    rw [parentOf_numbered hlt, hroot]
    rfl
  | step hparent _ ih =>
    have hlt := hns _ List.mem_cons_self
    refine isWalk_iff.2 ⟨_, _, numberedStore_numbered hlt, rfl,
      .inr ⟨_, ?_, ih fun m hm ↦ hns m (List.mem_cons_of_mem _ hm)⟩⟩
    rw [parentOf_numbered hlt, hparent]
    rfl

omit [HostLayout] in
theorem lineage_ppred : Lineage Nat.ppred n (List.range (n + 1)).reverse := by
  induction n with
  | zero => exact .root rfl
  | succ n ih =>
    rw [List.range_succ, List.reverse_append]
    exact .step rfl ih

end

/-- The first of all is the parent of every other. -/
def forkParent (n : Nat) : Option Nat := if n = 0 then none else some 0

/-- Two heads on one root. -/
theorem commonAncestor_exact_fork :
    letI := hostLayout64
    ∃ entry ∈ [1, 0].map (numberedEntry forkParent),
      findCommonAncestor ([1, 0].map (numberedEntry forkParent))
        ([2, 0].map (numberedEntry forkParent)) = .ok entry ∧
      IsBase (numberedStore forkParent) (numbered 1) (numbered 2) entry.transactionId := by
  let _ := hostLayout64
  have hsingle : SingleParents (numberedStore forkParent) := singleParents_numberedStore
  have hours : transactionAncestry (numberedStore forkParent) (numbered 1) 2 =
      .ok ([1, 0].map (numberedEntry forkParent)) :=
    (transactionAncestry_eq_ok hsingle).2
      ⟨isWalk_numberedStore (.step rfl (.root rfl)) (by decide), le_rfl⟩
  have htheirs : transactionAncestry (numberedStore forkParent) (numbered 2) 2 =
      .ok ([2, 0].map (numberedEntry forkParent)) :=
    (transactionAncestry_eq_ok hsingle).2
      ⟨isWalk_numberedStore (.step rfl (.root rfl)) (by decide), le_rfl⟩
  obtain ⟨hchain, hchain', -, hfound⟩ := commonAncestor_exact hsingle hours htheirs
  obtain ⟨hbase | hnone, hdisjoint, -⟩ := hfound (by decide) (by decide)
  · exact hbase
  · -- the root is on both chains
    have hour := (hchain.mem_iff (numbered 0)).1 (by simp [numberedEntry, ancestryEntry])
    have htheir := (hchain'.mem_iff (numbered 0)).1 (by simp [numberedEntry, ancestryEntry])
    exact absurd htheir (hdisjoint.1 hnone _ hour)

/-- A walk along more transactions than the search takes. -/
theorem not_commonAncestor_line :
    letI := hostLayout64
    SingleParents (numberedStore Nat.ppred) ∧
      ∃ entries, transactionAncestry (numberedStore Nat.ppred) (numbered 65536) 65537 =
          .ok entries ∧
        IsAncestor (numberedStore Nat.ppred) (numbered 65536) (numbered 65536) ∧
        findCommonAncestor entries entries = .error (.merge .resourceLimit) := by
  let _ := hostLayout64
  have hwalk : IsWalk (numberedStore Nat.ppred) (numbered 65536)
      ((List.range 65537).reverse.map (numberedEntry Nat.ppred)) :=
    isWalk_numberedStore lineage_ppred fun m hm ↦ by
      rw [List.mem_reverse, List.mem_range] at hm
      exact hm.trans (by norm_num)
  have hlen : ((List.range 65537).reverse.map (numberedEntry Nat.ppred)).length = 65537 := by
    rw [List.length_map, List.length_reverse, List.length_range]
  refine ⟨singleParents_numberedStore, _,
    (transactionAncestry_eq_ok singleParents_numberedStore).2 ⟨hwalk, hlen.le⟩, .refl, ?_⟩
  rw [findCommonAncestor, Except.rejectIf_pos (by rw [hlen, maxAncestryNodes]; omega)]
  rfl

end Sley.Repo
