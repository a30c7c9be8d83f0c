import Sley.Lib.DepthFirst
import Sley.Repo.Ancestry
import Sley.Repo.BranchRefs

/-!
# The ancestry of a branch

`walk_ancestry` (`sley-repo/src/refs.rs`) lists what a head comes from. The records that it loads may
have any number of parents, so it walks a graph and not a line: transactions may share ancestors, and
parents may lead back to a transaction.

`Outcome` says of every result, success or error, what it tells about the graph
(`walkAncestry_outcome`). Each arm of the loop is one step of the library's depth-first walk. **A
list that is returned is what the head is reached by, and a cycle that is reported is there**
(`walkAncestry_exact`).

`transaction_ancestry` of the merge is the same loop, where a cycle is a broken limit
(`transactionAncestry_eq`).
-/

namespace Sley.Repo

open Scb1 Ssmc Mutate Root Policy Txn Relation

section

variable [HostLayout]

/-- What `walk_ancestry` is given to load entries with. -/
abbrev LoadEntry := TransactionId → Except BranchError BranchAncestryEntry

/-- The loop of `walk_ancestry`. The head of the stack is its top; an entry with `true` is the mark
for the end of a visit. -/
def walkAncestryLoop (load : LoadEntry) (maxNodes : Nat)
    (active completed : Std.ExtTreeSet TransactionId) (output : List BranchAncestryEntry) :
    List (TransactionId × Bool) → Except BranchError (List BranchAncestryEntry)
  | [] => .ok output
  | (transactionId, true) :: stack =>
    walkAncestryLoop load maxNodes (active.erase transactionId) (completed.insert transactionId)
      output stack
  | (transactionId, false) :: stack =>
    if transactionId ∈ completed then
      walkAncestryLoop load maxNodes active completed output stack
    else if transactionId ∈ active then
      .error (.branch .branchAncestryCycle)
    else if output.length ≥ maxNodes then
      .error (.branch .branchResourceLimit)
    else
      match load transactionId with
      | .error error => .error error
      | .ok entry =>
        if entry.transactionId ≠ transactionId then
          .error (.branch .refInternalInvariant)
        else
          walkAncestryLoop load maxNodes (active.insert transactionId) completed
            (output ++ [entry])
            (entry.parentTransactionIds.map (·, false) ++ (transactionId, true) :: stack)
termination_by stack => (maxNodes - output.length, stack.length)
decreasing_by
  · exact Prod.Lex.right _ (Nat.lt_succ_self _)
  · exact Prod.Lex.right _ (Nat.lt_succ_self _)
  · refine Prod.Lex.left _ _ ?_
    rw [List.length_append, List.length_singleton]
    omega

def walkAncestry (head : TransactionId) (maxNodes : Nat) (load : LoadEntry) :
    Except BranchError (List BranchAncestryEntry) :=
  walkAncestryLoop load maxNodes ∅ ∅ [] [(head, false)]

/-! ### What a walk tells -/

/-- The entry that is loaded for a transaction names a parent. -/
def LoadsParent (load : LoadEntry) (child parent : TransactionId) : Prop :=
  ∃ entry, load child = .ok entry ∧ parent ∈ entry.parentTransactionIds

/-- The parents of the head lead to a transaction, or it is the head. -/
def IsReached (load : LoadEntry) (head id : TransactionId) : Prop :=
  ReflTransGen (LoadsParent load) head id

/-- A transaction that is reached is its own ancestor. -/
def ReachesCycle (load : LoadEntry) (head : TransactionId) : Prop :=
  ∃ id, IsReached load head id ∧ TransGen (LoadsParent load) id id

/-- A list of what is reached from the head, head first, and every other entry after one of its
children. -/
structure ListsReached (load : LoadEntry) (head : TransactionId)
    (entries : List BranchAncestryEntry) : Prop where
  loaded : ∀ entry ∈ entries, load entry.transactionId = .ok entry
  nodup : (entries.map (·.transactionId)).Nodup
  mem_iff : ∀ id, id ∈ entries.map (·.transactionId) ↔ IsReached load head id
  ordered : ∀ before entry after, entries = before ++ entry :: after →
    (before = [] ∧ entry.transactionId = head) ∨
      ∃ child ∈ before, entry.transactionId ∈ child.parentTransactionIds

/-- What a result of `walk_ancestry` tells. -/
def Outcome (load : LoadEntry) (head : TransactionId) (maxNodes : Nat) :
    Except BranchError (List BranchAncestryEntry) → Prop
  | .ok entries => ListsReached load head entries ∧ ¬ ReachesCycle load head
  | .error error =>
    (error = .branch .branchAncestryCycle ∧ ReachesCycle load head) ∨
      (error = .branch .branchResourceLimit ∧ ¬ {id | IsReached load head id}.encard ≤ maxNodes) ∨
      ∃ id, IsReached load head id ∧ (load id = .error error ∨
        error = .branch .refInternalInvariant ∧
          ∃ entry, load id = .ok entry ∧ entry.transactionId ≠ id)

variable {load : LoadEntry} {head : TransactionId} {maxNodes : Nat}
  {active completed : Std.ExtTreeSet TransactionId} {output : List BranchAncestryEntry}
  {stack : List (TransactionId × Bool)}

theorem loadsParent_iff {id : TransactionId} {entry : BranchAncestryEntry}
    (h : load id = .ok entry) (parent : TransactionId) :
    LoadsParent load id parent ↔ parent ∈ entry.parentTransactionIds := by
  rw [LoadsParent, h]
  simp

/-- The invariant of the walk, on what the loop carries. -/
def Stands (load : LoadEntry) (head : TransactionId) (output : List BranchAncestryEntry)
    (completed active : Std.ExtTreeSet TransactionId) (stack : List (TransactionId × Bool)) : Prop :=
  (∀ entry ∈ output, load entry.transactionId = .ok entry) ∧
    DepthFirst.Invariant (LoadsParent load) head (output.map (·.transactionId))
      {id | id ∈ completed} {id | id ∈ active} stack

omit [HostLayout] in
theorem setOf_mem_insert (ids : Std.ExtTreeSet TransactionId) (id : TransactionId) :
    {other | other ∈ ids.insert id} = insert id {other | other ∈ ids} := by
  ext other
  exact OrderedSet.mem_insert

omit [HostLayout] in
theorem setOf_mem_erase (ids : Std.ExtTreeSet TransactionId) (id : TransactionId) :
    {other | other ∈ ids.erase id} = {other | other ∈ ids} \ {id} := by
  ext other
  exact OrderedSet.mem_erase.trans and_comm

/-- A list that a walk ends with. -/
theorem Stands.listsReached (h : Stands load head output completed active []) :
    ListsReached load head output ∧ ¬ ReachesCycle load head := by
  obtain ⟨hloaded, hinv⟩ := h
  obtain ⟨hnodup, hmem, hdiscovered, hacyclic⟩ := hinv.finish
  refine ⟨⟨hloaded, hnodup, hmem, fun before entry after hsplit ↦ ?_⟩, fun ⟨id, hid, hcycle⟩ ↦
    hacyclic id hid hcycle⟩
  have hids : output.map (·.transactionId) =
      before.map (·.transactionId) ++ entry.transactionId :: after.map (·.transactionId) := by
    rw [hsplit, List.map_append, List.map_cons]
  refine (hdiscovered _ _ _ hids).imp (fun hfirst ↦ ⟨List.map_eq_nil_iff.1 hfirst.1, hfirst.2⟩) ?_
  rintro ⟨_, hmem, hparent⟩
  obtain ⟨child, hchild, rfl⟩ := List.mem_map.1 hmem
  have hentry := hloaded child (hsplit ▸ List.mem_append_left _ hchild)
  exact ⟨child, hchild, (loadsParent_iff hentry _).1 hparent⟩

/-- **The loop from wherever a walk stands.** -/
theorem walkAncestryLoop_outcome (h : Stands load head output completed active stack) :
    Outcome load head maxNodes (walkAncestryLoop load maxNodes active completed output stack) := by
  fun_induction walkAncestryLoop load maxNodes active completed output stack with
  | case1 active completed output => exact h.listsReached
  | case2 active completed output id stack ih =>
    refine ih ⟨h.1, ?_⟩
    rw [setOf_mem_insert, setOf_mem_erase]
    exact h.2.exit
  | case3 active completed output id stack hcompleted ih => exact ih ⟨h.1, h.2.skip hcompleted⟩
  | case4 active completed output id stack _ hactive => exact .inl ⟨rfl, id, h.2.cycle hactive⟩
  | case5 active completed output id stack hcompleted hactive hfull =>
    refine .inr (.inl ⟨rfl, fun hbound ↦ ?_⟩)
    have hlt := h.2.length_lt hcompleted hactive hbound
    rw [List.length_map] at hlt
    omega
  | case6 active completed output id stack _ _ _ error herror =>
    exact .inr (.inr ⟨id, h.2.reached_of_mem List.mem_cons_self, .inl herror⟩)
  | case7 active completed output id stack _ _ _ entry hentry hother =>
    exact .inr (.inr ⟨id, h.2.reached_of_mem List.mem_cons_self, .inr ⟨rfl, entry, hentry, hother⟩⟩)
  | case8 active completed output id stack hcompleted hactive _ entry hentry hid ih =>
    obtain rfl := not_not.1 hid
    refine ih ⟨List.forall_mem_append.2 ⟨h.1, List.forall_mem_singleton.2 hentry⟩, ?_⟩
    rw [setOf_mem_insert, List.map_append]
    exact h.2.enter hcompleted hactive fun parent ↦ (loadsParent_iff hentry parent).symm

/-- **Every result of a walk tells the truth about the graph.** -/
theorem walkAncestry_outcome (load : LoadEntry) (head : TransactionId) (maxNodes : Nat) :
    Outcome load head maxNodes (walkAncestry head maxNodes load) := by
  refine walkAncestryLoop_outcome ⟨fun entry h ↦ (List.not_mem_nil h).elim, ?_⟩
  have hempty : {id : TransactionId | id ∈ (∅ : Std.ExtTreeSet TransactionId)} = ∅ :=
    Set.eq_empty_of_forall_notMem fun id hid ↦ Std.ExtTreeSet.not_mem_empty hid
  rw [hempty]
  exact DepthFirst.Invariant.initial

/-- **The ancestry walk, over every graph of parents.** Where every transaction that is reached is
loaded, the walk lists what the head is reached by if there is no cycle and no more than the limit of
it, it reports a cycle only if there is one, and it does not succeed if there is. -/
theorem walkAncestry_exact (load : LoadEntry) (head : TransactionId) (maxNodes : Nat)
    (hload : ∀ id, IsReached load head id → ∃ entry, load id = .ok entry ∧ entry.transactionId = id) :
    (¬ ReachesCycle load head → {id | IsReached load head id}.encard ≤ maxNodes →
      ∃ entries, walkAncestry head maxNodes load = .ok entries ∧ ListsReached load head entries) ∧
    (walkAncestry head maxNodes load = .error (.branch .branchAncestryCycle) →
      ReachesCycle load head) ∧
    (ReachesCycle load head → ∀ entries, walkAncestry head maxNodes load ≠ .ok entries) := by
  have houtcome := walkAncestry_outcome load head maxNodes
  -- a load neither fails nor is of another transaction
  have hloads : ∀ error, ¬ ∃ id, IsReached load head id ∧ (load id = .error error ∨
      error = .branch .refInternalInvariant ∧
        ∃ entry, load id = .ok entry ∧ entry.transactionId ≠ id) := by
    rintro error ⟨id, hid, herror | ⟨-, entry, hentry, hother⟩⟩
    · obtain ⟨entry, hentry, -⟩ := hload id hid
      rw [hentry] at herror
      cases herror
    · obtain ⟨entry', hentry', hsame⟩ := hload id hid
      obtain rfl := Except.ok.inj (hentry.symm.trans hentry')
      exact hother hsame
  refine ⟨fun hacyclic hbound ↦ ?_, fun hcycle ↦ ?_, fun hcycle entries hok ↦ ?_⟩
  · cases hresult : walkAncestry head maxNodes load with
    | ok entries =>
      rw [hresult] at houtcome
      exact ⟨entries, rfl, houtcome.1⟩
    | error error =>
      rw [hresult] at houtcome
      obtain ⟨-, hcycle⟩ | ⟨-, hlarge⟩ | hfailed := houtcome
      · exact absurd hcycle hacyclic
      · exact absurd hbound hlarge
      · exact absurd hfailed (hloads error)
  · rw [hcycle] at houtcome
    obtain ⟨-, hcycle⟩ | ⟨hlimit, -⟩ | hfailed := houtcome
    · exact hcycle
    · cases hlimit
    · exact absurd hfailed (hloads _)
  · rw [hok] at houtcome
    exact houtcome.2 hcycle

/-! ### The walk of the merge -/

/-- The entry of a revision, as `branch_ancestry` loads it. -/
def loadRevision (verifiedRevision : VerifiedRevisions) : LoadEntry := fun transactionId ↦
  ((verifiedRevision transactionId).mapError .transaction).map (ancestryEntry transactionId)

/-- What the merge makes of a failure. -/
def mergeErrorOf : BranchError → MergeError
  | .transaction error => .commit error
  | _ => .merge .resourceLimit

theorem ancestryLoop_eq (verifiedRevision : VerifiedRevisions) :
    ancestryLoop verifiedRevision maxNodes output completed active stack =
      (walkAncestryLoop (loadRevision verifiedRevision) maxNodes active completed output
        stack).mapError mergeErrorOf := by
  fun_induction ancestryLoop verifiedRevision maxNodes output completed active stack with
  | case1 => rw [walkAncestryLoop]; rfl
  | case2 _ _ _ _ _ ih => rw [walkAncestryLoop, ih]
  | case3 _ _ _ _ _ hcompleted ih => rw [walkAncestryLoop, if_pos hcompleted, ih]
  | case4 output completed active id stack hcompleted hstop =>
    rw [walkAncestryLoop, if_neg hcompleted]
    by_cases hactive : id ∈ active
    · rw [if_pos hactive]
      rfl
    · rw [if_neg hactive, if_pos (hstop.resolve_left hactive)]
      rfl
  | case5 output completed active id stack hcompleted hstop error herror =>
    obtain ⟨hactive, hroom⟩ := not_or.1 hstop
    have hload : loadRevision verifiedRevision id = .error (.transaction error) := by
      rw [loadRevision, herror]
      rfl
    rw [walkAncestryLoop, if_neg hcompleted, if_neg hactive, if_neg hroom, hload]
    rfl
  | case6 output completed active id stack hcompleted hstop revision hrevision entry ih =>
    obtain ⟨hactive, hroom⟩ := not_or.1 hstop
    have hload : loadRevision verifiedRevision id = .ok (ancestryEntry id revision) := by
      rw [loadRevision, hrevision]
      rfl
    rw [walkAncestryLoop, if_neg hcompleted, if_neg hactive, if_neg hroom, hload, ih]
    exact (congrArg (Except.mapError mergeErrorOf) (if_neg (not_not.2 rfl))).symm

/-- **The merge walks as branches do**, and reports a cycle as a broken limit. -/
theorem transactionAncestry_eq (verifiedRevision : VerifiedRevisions) :
    transactionAncestry verifiedRevision head maxNodes =
      (walkAncestry head maxNodes (loadRevision verifiedRevision)).mapError mergeErrorOf :=
  ancestryLoop_eq verifiedRevision

/-! ### Two parents with one parent -/

omit [HostLayout] in
/-- The fourth of the numbered transactions has two parents, and each of these has the first. -/
def diamondParents (id : TransactionId) : List TransactionId :=
  if id = numbered 3 then [numbered 1, numbered 2]
  else if id = numbered 1 ∨ id = numbered 2 then [numbered 0]
  else []

def loadDiamond : LoadEntry := fun id ↦
  .ok { transactionId := id, stateRoot := Id.splat 0, parentTransactionIds := diamondParents id }

/-- The number of steps from a transaction of the diamond to the first. -/
def diamondHeight (id : TransactionId) : Nat :=
  if id = numbered 3 then 2 else if id = numbered 1 ∨ id = numbered 2 then 1 else 0

theorem diamondHeight_lt {child parent : TransactionId} (h : LoadsParent loadDiamond child parent) :
    diamondHeight parent < diamondHeight child := by
  have hparent : parent ∈ diamondParents child := (loadsParent_iff rfl parent).1 h
  rw [diamondParents] at hparent
  split_ifs at hparent with htop hmiddle
  · obtain rfl | rfl : parent = numbered 1 ∨ parent = numbered 2 := by simpa using hparent
    · rw [htop]
      with_unfolding_all decide
    · rw [htop]
      with_unfolding_all decide
  · obtain rfl : parent = numbered 0 := by simpa using hparent
    obtain rfl | rfl := hmiddle
    · with_unfolding_all decide
    · with_unfolding_all decide
  · exact (List.not_mem_nil hparent).elim

theorem isReached_diamond {id : TransactionId} (h : IsReached loadDiamond (numbered 3) id) :
    id ∈ ({numbered 0, numbered 1, numbered 2, numbered 3} : Finset TransactionId) := by
  induction h with
  | refl => simp
  | tail _ hparent _ =>
    have hparent := (loadsParent_iff rfl _).1 hparent
    rw [diamondParents] at hparent
    split_ifs at hparent
    · simp only [List.mem_cons, List.not_mem_nil, or_false] at hparent
      rcases hparent with rfl | rfl <;> simp
    · simp only [List.mem_cons, List.not_mem_nil, or_false] at hparent
      simp [hparent]
    · exact (List.not_mem_nil hparent).elim

omit [HostLayout] in
/-- The diamond is listed, its first transaction once. -/
theorem walkAncestry_diamond :
    letI := hostLayout64
    ∃ entries, walkAncestry (numbered 3) 4 loadDiamond = .ok entries ∧
      ListsReached loadDiamond (numbered 3) entries := by
  let _ := hostLayout64
  refine (walkAncestry_exact loadDiamond (numbered 3) 4 fun id _ ↦ ⟨_, rfl, rfl⟩).1 ?_ ?_
  · rintro ⟨id, -, hcycle⟩
    have hdrop : ∀ {a b}, TransGen (LoadsParent loadDiamond) a b →
        diamondHeight b < diamondHeight a := by
      intro a b h
      induction h with
      | single h => exact diamondHeight_lt h
      | tail _ h ih => exact (diamondHeight_lt h).trans ih
    exact lt_irrefl _ (hdrop hcycle)
  · have hcard := Finset.card_le_four (a := numbered 0) (b := numbered 1) (c := numbered 2)
      (d := numbered 3)
    calc {id | IsReached loadDiamond (numbered 3) id}.encard
        ≤ (({numbered 0, numbered 1, numbered 2, numbered 3} : Finset TransactionId) :
            Set TransactionId).encard := Set.encard_le_encard fun _ h ↦ isReached_diamond h
      _ ≤ (4 : Nat) := by
        rw [Set.encard_coe_eq_coe_finsetCard, Nat.cast_le]
        exact hcard

end

end Sley.Repo
