import Sley.Lib.Numeral
import Sley.Txn.Attempt

/-!
# Stage files

The names of temporary files, and the recovery that removes them: the writers and scanners of the
object store (`sley-store/src/lib.rs`) and of the repository (`sley-txn/src/repository.rs`), and the
writer of attempt records (`sley-txn/src/native_commit.rs`).

**What is staged for an object, a receipt or the head is an owned stage where it is written, and no
final name is one anywhere** (`isOwnedStage_path`, `not_isOwnedStage_name`). A recovery removes
exactly the owned stages it finds (`not_has_recover`, `has_recover`). The stage of an attempt record
has a form of its own, which no scanner knows: it stays.
-/

namespace Sley.Txn

open Scb1 Numeral
open Nat (toDigits)

/-! ### Names -/

/-- The name of a directory entry. One that is not UTF-8 has none of the forms below. -/
abbrev EntryName := List Char

/-- What `std::process::id` returns: no process is numbered zero. -/
structure ProcessId where
  value : UInt32
  ne_zero : value ≠ 0

def storeStagePrefix : EntryName := ".sley-store-stage-".toList

def receiptStagePrefix : EntryName := ".sley-txn-stage-".toList

def headStagePrefix : EntryName := ".sley-head-stage-".toList

def attemptStagePrefix : EntryName := ".sley-attempt-stage-".toList

def stageSuffix : EntryName := ".tmp".toList

def finalObjectSuffix : EntryName := ".scb1".toList

def finalReceiptSuffix : EntryName := ".receipt.scb1".toList

def attemptSuffix : EntryName := ".attempt".toList

/-- Every byte in two digits. -/
def hex (bytes : Bytes) : EntryName :=
  bytes.flatMap fun byte ↦ (toDigits 16 byte.toNat).leftpad 2 '0'

/-- `stage_path` of the object store. -/
def storeStageName (objectId : ObjectId) (pid : ProcessId) (counter : UInt32) : EntryName :=
  storeStagePrefix ++ (hex objectId.bytes ++ (toDigits 16 pid.value.toNat).leftpad 8 '0' ++
    (toDigits 16 counter.toNat).leftpad 8 '0' ++ stageSuffix)

/-- The names that `reserve_stage` tries. -/
def reservedStageName (stagePrefix : EntryName) (pid : ProcessId) (token : UInt64) : EntryName :=
  stagePrefix ++ (toDigits 10 pid.value.toNat ++
    '-' :: (toDigits 16 token.toNat).leftpad 16 '0' ++ stageSuffix)

/-- The stage of `write_attempt_record`. -/
def attemptStageName (attemptId : NativeAttemptId) (pid : ProcessId) : EntryName :=
  attemptStagePrefix ++ (hex attemptId.bytes ++ '-' :: toDigits 10 pid.value.toNat)

/-! ### How recovery reads names -/

/-- `u32::from_str_radix`, of digits. -/
def fromStrRadix (base : Nat) (digits : EntryName) : Option UInt32 :=
  if digits ≠ [] ∧ Numeral.value base digits < 2 ^ 32 then
    some (.ofNat (Numeral.value base digits))
  else none

/-- The two directories above what is kept under an identity. -/
def fanoutOf (digits : EntryName) : List EntryName := [digits.take 2, (digits.drop 2).take 2]

def isHexDirName (name : EntryName) : Bool := name.length == 2 && name.all isLowerHex

/-- `strip_prefix` and `strip_suffix`. -/
def stripStage (stagePrefix name : EntryName) : Option EntryName :=
  (name.dropPrefix? stagePrefix).bind (·.dropSuffix? stageSuffix)

/-- `is_stage_name` of the object store. -/
def isStoreStageName (name : EntryName) : Bool :=
  match stripStage storeStagePrefix name with
  | none => false
  | some token =>
    if token.length ≠ 80 || !token.all isLowerHex then false
    else (fromStrRadix 16 ((token.drop 64).take 8)).any (· > 0)

/-- `is_stage_name_for_dir`. -/
def isStoreStageNameForDir (parents : List EntryName) (name : EntryName) : Bool :=
  isStoreStageName name &&
    parents == fanoutOf ((name.take (name.length - stageSuffix.length)).drop storeStagePrefix.length)

def splitOnce (separator : Char) (text : EntryName) : Option (EntryName × EntryName) :=
  match text.dropWhile (· ≠ separator) with
  | [] => none
  | _ :: rest => some (text.takeWhile (· ≠ separator), rest)

/-- `is_recovery_stage_name`. -/
def isRecoveryStageName (stagePrefix name : EntryName) : Bool :=
  match (stripStage stagePrefix name).bind (splitOnce '-') with
  | none => false
  | some (pid, hexToken) =>
    if pid.isEmpty || !pid.all Char.isDigit || (pid.length > 1 && pid.head? = some '0') then false
    else
      match fromStrRadix 10 pid with
      | none => false
      | some value => if value = 0 then false else hexToken.length == 16 && hexToken.all isLowerHex

/-- What `is_final_object_name` and `is_final_receipt_name` share. -/
def isFinalName (suffix name : EntryName) : Bool :=
  match name.dropSuffix? suffix with
  | none => false
  | some id => id.length == 64 && id.all isLowerHex

/-- `is_final_object_name_for_dir`, `is_final_receipt_name_for_dir`. -/
def isFinalNameForDir (suffix : EntryName) (parents : List EntryName) (name : EntryName) : Bool :=
  isFinalName suffix name && parents == fanoutOf (name.take (name.length - suffix.length))

inductive LeafKind
  | final
  | ownedStage
  | unknown
  deriving DecidableEq

/-- A final name in a directory that is not its own fails. -/
def leafKind (suffix : EntryName) (isStage : EntryName → Bool) (parents : List EntryName)
    (name : EntryName) : Option LeafKind :=
  if isFinalName suffix name then
    if isFinalNameForDir suffix parents name then some .final else none
  else some (if isStage name then .ownedStage else .unknown)

/-- `object_recovery_leaf_kind`. -/
def objectRecoveryLeafKind (parents : List EntryName) : EntryName → Option LeafKind :=
  leafKind finalObjectSuffix (isStoreStageNameForDir parents) parents

/-- `receipt_recovery_leaf_kind`. -/
def receiptRecoveryLeafKind (parents : List EntryName) : EntryName → Option LeafKind :=
  leafKind finalReceiptSuffix (isRecoveryStageName receiptStagePrefix) parents

/-- `head_recovery_entry_is_owned_stage`. -/
def headRecoveryEntryIsOwnedStage : EntryName → Bool := isRecoveryStageName headStagePrefix

/-! ### Recovery -/

inductive EntryKind
  | file
  | directory
  | other
  deriving DecidableEq

/-- An entry of the tree of objects or of receipts, below the directories that lead to it. -/
structure TreeEntry where
  parents : List EntryName
  name : EntryName
  kind : EntryKind
  deriving DecidableEq

/-- What a scan of a tree comes by: a directory of the fan-out, or a leaf. -/
inductive Visit
  | fanout
  | leaf (kind : LeafKind)
  deriving DecidableEq

def TreeEntry.visit (leafKind : List EntryName → EntryName → Option LeafKind) (entry : TreeEntry) :
    Option Visit :=
  if entry.parents.length < 2 then
    if entry.kind = .directory ∧ isHexDirName entry.name then some .fanout else none
  else if entry.kind = .file then (leafKind entry.parents entry.name).map .leaf
  else none

structure TreeLimits where
  fanoutDirectories : Nat
  leafEntries : Nat
  finals : Nat
  stages : Nat

/-- The plan of a scan. Which of several failures is reported depends on the order of a directory,
so none is told from another. -/
def scanTree (leafKind : List EntryName → EntryName → Option LeafKind) (limits : TreeLimits)
    (tree : List TreeEntry) : Option (List TreeEntry) :=
  let count (visits : Visit → Bool) : Nat :=
    tree.countP fun entry ↦ (entry.visit leafKind).any visits
  if (∀ entry ∈ tree, (entry.visit leafKind).isSome) ∧
      count (· = .fanout) ≤ limits.fanoutDirectories ∧ count (· ≠ .fanout) ≤ limits.leafEntries ∧
      count (· = .leaf .final) ≤ limits.finals ∧ count (· = .leaf .ownedStage) ≤ limits.stages then
    some (tree.filter fun entry ↦ entry.visit leafKind = some (.leaf .ownedStage))
  else none

def scanHeads (maxEntries maxStages : Nat) (heads : List (EntryName × EntryKind)) :
    Option (List (EntryName × EntryKind)) :=
  let stages := heads.filter fun entry ↦ headRecoveryEntryIsOwnedStage entry.1
  if (∀ entry ∈ heads, entry.2 = .file) ∧ heads.length ≤ maxEntries ∧ stages.length ≤ maxStages then
    some stages
  else none

/-- The journal: the active records and, below them, the settled ones. -/
structure Attempts where
  active : List EntryName
  settled : List EntryName

/-- One entry of `reconcile_attempt_journal`. What becomes of a record depends on its bytes: the
pass fails, or the record is parked, or it stays. -/
def reconcileEntry (parks : EntryName → Option Bool) (state : Bool × Attempts) (name : EntryName) :
    Bool × Attempts :=
  if !state.1 || !attemptSuffix.isSuffixOf name then state
  else
    match parks name with
    | none => (false, state.2)
    | some false => state
    | some true => (true, ⟨state.2.active.erase name, name :: state.2.settled⟩)

structure RepositoryLimits where
  receipts : TreeLimits
  headEntries : Nat
  headStages : Nat
  objects : TreeLimits

/-- `transaction_recovery_limits` and `object_recovery_limits`. -/
def recoveryLimits : RepositoryLimits where
  receipts := ⟨65792, 524288, 262144, 262144⟩
  headEntries := 4096
  headStages := 4095
  objects := ⟨65792, 524288, 262144, 262144⟩

/-- The directories that hold what is modelled here. -/
structure RepositoryFiles where
  objects : List TreeEntry
  receipts : List TreeEntry
  heads : List (EntryName × EntryKind)
  attempts : Attempts
  locks : List EntryName

/-- `recover_with_maintenance_and_limits` with `recover_staged`: whether it succeeds, and what it
leaves. What else may refuse, such as the ancestry of the accepted head, is `verified`. -/
def recover (limits : RepositoryLimits) (verified : Bool) (parks : EntryName → Option Bool)
    (files : RepositoryFiles) : Bool × RepositoryFiles :=
  match scanTree receiptRecoveryLeafKind limits.receipts files.receipts,
    scanHeads limits.headEntries limits.headStages files.heads with
  | some receiptStages, some headStages =>
    if !verified then (false, files)
    else
      let reconciled := files.attempts.active.foldl (reconcileEntry parks) (true, files.attempts)
      let files := { files with attempts := reconciled.2 }
      if !reconciled.1 then (false, files)
      else
        match scanTree objectRecoveryLeafKind limits.objects files.objects with
        | none => (false, files)
        | some objectStages =>
          (true, { files with
            objects := files.objects.filter (· ∉ objectStages)
            receipts := files.receipts.filter (· ∉ receiptStages)
            heads := files.heads.filter (· ∉ headStages) })
  | _, _ => (false, files)

/-! ### Files -/

/-- Where files are kept. The settled records are in the journal too. -/
inductive Directory
  | objects (parents : List EntryName)
  | receipts (parents : List EntryName)
  | heads
  | attempts
  | locks

structure Path where
  directory : Directory
  name : EntryName

def RepositoryFiles.Has (files : RepositoryFiles) (path : Path) : Prop :=
  match path.directory with
  | .objects parents => ⟨parents, path.name, .file⟩ ∈ files.objects
  | .receipts parents => ⟨parents, path.name, .file⟩ ∈ files.receipts
  | .heads => (path.name, .file) ∈ files.heads
  | .attempts => path.name ∈ files.attempts.active ∨ path.name ∈ files.attempts.settled
  | .locks => path.name ∈ files.locks

/-- What a recovery takes for a stage of its own. It removes nothing from the journal, nor a lock. -/
def isOwnedStage (path : Path) : Bool :=
  match path.directory with
  | .objects parents => (objectRecoveryLeafKind parents path.name = some .ownedStage : Bool)
  | .receipts parents => (receiptRecoveryLeafKind parents path.name = some .ownedStage : Bool)
  | .heads => headRecoveryEntryIsOwnedStage path.name
  | .attempts | .locks => false

/-- A temporary file of one of the writers. -/
inductive StageFile
  | object (objectId : ObjectId) (pid : ProcessId) (counter : UInt32)
  | receipt (transactionId : TransactionId) (pid : ProcessId) (token : UInt64)
  | head (pid : ProcessId) (token : UInt64)
  | attempt (attemptId : NativeAttemptId) (pid : ProcessId)

def StageFile.path : StageFile → Path
  | .object objectId pid counter =>
    ⟨.objects (fanoutOf (hex objectId.bytes)), storeStageName objectId pid counter⟩
  | .receipt transactionId pid token =>
    ⟨.receipts (fanoutOf (hex transactionId.bytes)), reservedStageName receiptStagePrefix pid token⟩
  | .head pid token => ⟨.heads, reservedStageName headStagePrefix pid token⟩
  | .attempt attemptId pid => ⟨.attempts, attemptStageName attemptId pid⟩

def StageFile.isAttempt : StageFile → Bool
  | .attempt _ _ => true
  | _ => false

inductive LockFile
  | accepted
  | maintenance
  | gc

/-- A file under its final name. -/
inductive FinalFile
  | object (objectId : ObjectId)
  | receipt (transactionId : TransactionId)
  | head
  | attempt (attemptId : NativeAttemptId)
  | lock (file : LockFile)

def FinalFile.path : FinalFile → Path
  | .object objectId =>
    ⟨.objects (fanoutOf (hex objectId.bytes)), hex objectId.bytes ++ finalObjectSuffix⟩
  | .receipt transactionId =>
    ⟨.receipts (fanoutOf (hex transactionId.bytes)), hex transactionId.bytes ++ finalReceiptSuffix⟩
  | .head => ⟨.heads, "accepted".toList⟩
  | .attempt attemptId => ⟨.attempts, hex attemptId.bytes ++ attemptSuffix⟩
  | .lock .accepted => ⟨.locks, "accepted.lock".toList⟩
  | .lock .maintenance => ⟨.locks, "maintenance.lock".toList⟩
  | .lock .gc => ⟨.locks, "gc.lock".toList⟩

/-! ### What is read of what is written -/

theorem isLowerHex_of_mem_hexField {n width : Nat} :
    ∀ c ∈ (toDigits 16 n).leftpad width '0', isLowerHex c := by
  intro c hc
  obtain hc | hc := List.mem_append.1 hc
  · rw [List.eq_of_mem_replicate hc]
    rfl
  · exact isLowerHex_of_mem_toDigits (by decide) le_rfl n c hc

theorem length_hexField {n width : Nat} (hpos : 0 < width) (h : n < 16 ^ width) :
    ((toDigits 16 n).leftpad width '0').length = width := by
  rw [List.length_leftpad]
  exact max_eq_left ((Nat.length_toDigits_le_iff (by decide) hpos).2 h)

theorem isLowerHex_of_mem_hex {bytes : Bytes} : ∀ c ∈ hex bytes, isLowerHex c := by
  intro c hc
  obtain ⟨_, -, hc⟩ := List.mem_flatMap.1 hc
  exact isLowerHex_of_mem_hexField c hc

theorem length_hex (bytes : Bytes) : (hex bytes).length = 2 * bytes.length := by
  induction bytes with
  | nil => rfl
  | cons byte bytes ih =>
    rw [hex, List.flatMap_cons, List.length_append, ← hex, ih,
      length_hexField (by decide) (byte.toNat_lt.trans_le (by decide)), List.length_cons]
    omega

theorem stripStage_eq_some {stagePrefix name token : EntryName} :
    stripStage stagePrefix name = some token ↔ name = stagePrefix ++ (token ++ stageSuffix) := by
  simp only [stripStage, Option.bind_eq_some_iff, List.dropPrefix?_eq_some_iff,
    List.dropSuffix?_eq_some_iff, beq_iff_eq, exists_eq_right]

theorem fromStrRadix_eq_some {base : Nat} {digits : EntryName} {value : UInt32} :
    fromStrRadix base digits = some value ↔
      digits ≠ [] ∧ Numeral.value base digits = value.toNat := by
  rw [fromStrRadix, Option.ite_none_right_eq_some, Option.some.injEq, and_assoc]
  refine and_congr_right fun _ ↦ ⟨?_, fun h ↦ ?_⟩
  · rintro ⟨hlt, rfl⟩
    exact (UInt32.toNat_ofNat_of_lt' hlt).symm
  · exact ⟨h ▸ value.toNat_lt, by rw [h, UInt32.ofNat_toNat]⟩

theorem value_hexField (n width : Nat) :
    Numeral.value 16 ((toDigits 16 n).leftpad width '0') = n := by
  rw [value_leftpad, value_toDigits (by decide) le_rfl]

theorem isStoreStageNameForDir_storeStageName (objectId : ObjectId) (pid : ProcessId)
    (counter : UInt32) : isStoreStageNameForDir (fanoutOf (hex objectId.bytes))
      (storeStageName objectId pid counter) = true := by
  have hid : (hex objectId.bytes).length = 64 := by rw [length_hex, Id.length_eq]
  set digits := (toDigits 16 pid.value.toNat).leftpad 8 '0' with hdigits
  have hpid : digits.length = 8 := length_hexField (by decide) pid.value.toNat_lt
  have hcounter : ((toDigits 16 counter.toNat).leftpad 8 '0').length = 8 :=
    length_hexField (by decide) counter.toNat_lt
  set token := hex objectId.bytes ++ digits ++ (toDigits 16 counter.toNat).leftpad 8 '0'
    with htoken
  have hlength : token.length = 80 := by
    rw [htoken, List.length_append, List.length_append, hid, hpid, hcounter]
  have hall : token.all isLowerHex = true := by
    refine List.all_eq_true.2 (List.forall_mem_append.2 ⟨List.forall_mem_append.2 ⟨?_, ?_⟩, ?_⟩)
    · exact isLowerHex_of_mem_hex
    all_goals exact isLowerHex_of_mem_hexField
  have hread : fromStrRadix 16 ((token.drop 64).take 8) = some pid.value := by
    rw [htoken, List.append_assoc, List.drop_left' hid, List.take_left' hpid]
    refine fromStrRadix_eq_some.2 ⟨List.ne_nil_of_length_pos (by omega), ?_⟩
    exact value_hexField _ _
  have hfanout : fanoutOf token = fanoutOf (hex objectId.bytes) := by
    rw [htoken, List.append_assoc, fanoutOf, fanoutOf, List.take_append_of_le_length (by omega),
      List.drop_append_of_le_length (by omega),
      List.take_append_of_le_length (by rw [List.length_drop]; omega)]
  have hname : storeStageName objectId pid counter = storeStagePrefix ++ (token ++ stageSuffix) := rfl
  rw [isStoreStageNameForDir, isStoreStageName, stripStage_eq_some.2 hname, Bool.and_eq_true]
  constructor
  · have hpos : pid.value > 0 := UInt32.pos_iff_ne_zero.2 pid.ne_zero
    simp [hlength, hall, hread, hpos]
  · rw [hname, ← List.append_assoc, List.length_append, Nat.add_sub_cancel, List.take_left,
      List.drop_left, hfanout, beq_self_eq_true]

theorem isRecoveryStageName_reservedStageName (stagePrefix : EntryName) (pid : ProcessId)
    (token : UInt64) :
    isRecoveryStageName stagePrefix (reservedStageName stagePrefix pid token) = true := by
  set digits := toDigits 10 pid.value.toNat with hdigits
  set hexToken := (toDigits 16 token.toNat).leftpad 16 '0' with hhexToken
  have hne : digits ≠ [] := Nat.toDigits_ne_nil
  have hdigit : ∀ c ∈ digits, c.isDigit := fun c ↦ Nat.isDigit_of_mem_toDigits (by decide) le_rfl
  have hminus : ∀ c ∈ digits, (decide (c ≠ '-') : Bool) = true := fun c hc ↦ decide_eq_true
    fun heq ↦ absurd (hdigit c hc) (heq ▸ by decide)
  have hsplit : splitOnce '-' (digits ++ '-' :: hexToken) = some (digits, hexToken) := by
    rw [splitOnce, List.dropWhile_append_of_pos hminus, List.takeWhile_append_of_pos hminus]
    simp
  have hpid : pid.value.toNat ≠ 0 := fun h ↦ pid.ne_zero (UInt32.toNat_inj.1 h)
  have hread : fromStrRadix 10 digits = some pid.value :=
    fromStrRadix_eq_some.2 ⟨hne, value_toDigits (by decide) (by decide) _⟩
  have hname : reservedStageName stagePrefix pid token =
      stagePrefix ++ (digits ++ '-' :: hexToken ++ stageSuffix) := rfl
  rw [isRecoveryStageName, stripStage_eq_some.2 hname, Option.bind_some, hsplit]
  have hall : digits.all Char.isDigit = true := List.all_eq_true.2 hdigit
  have hhead : digits.head? ≠ some '0' := head?_toDigits (by decide) hpid
  have hlength : hexToken.length = 16 := length_hexField (by decide) token.toNat_lt
  have hhex : hexToken.all isLowerHex = true := List.all_eq_true.2 isLowerHex_of_mem_hexField
  simp [hne, hall, hhead, hread, pid.ne_zero, hlength, hhex]

/-! ### What has the form of a stage -/

theorem prefix_of_isRecoveryStageName {stagePrefix name : EntryName}
    (h : isRecoveryStageName stagePrefix name = true) : stagePrefix <+: name := by
  rw [isRecoveryStageName] at h
  cases hstrip : stripStage stagePrefix name with
  | none =>
    rw [hstrip] at h
    cases h
  | some token => exact ⟨_, (stripStage_eq_some.1 hstrip).symm⟩

variable {name : EntryName} {parks : EntryName → Option Bool} {parents : List EntryName}
  {isStage : EntryName → Bool}

theorem prefix_of_isStoreStageName (h : isStoreStageName name = true) :
    storeStagePrefix <+: name := by
  rw [isStoreStageName] at h
  cases hstrip : stripStage storeStagePrefix name with
  | none =>
    rw [hstrip] at h
    cases h
  | some token => exact ⟨_, (stripStage_eq_some.1 hstrip).symm⟩

theorem isStage_of_leafKind {suffix : EntryName}
    (h : leafKind suffix isStage parents name = some .ownedStage) : isStage name = true := by
  rw [leafKind] at h
  split at h
  · split at h <;> cases h
  · split at h
    · assumption
    · cases h

/-- The prefixes begin with a dot, and go on as `store`, `txn` or `head`. -/
theorem name_of_isOwnedStage {path : Path} (h : isOwnedStage path = true) :
    path.name[0]? = some '.' ∧ path.name[6]? ∈ [some 's', some 't', some 'h'] := by
  have hprefix : storeStagePrefix <+: path.name ∨ receiptStagePrefix <+: path.name ∨
      headStagePrefix <+: path.name := by
    rw [isOwnedStage] at h
    split at h
    · have := isStage_of_leafKind (of_decide_eq_true h)
      exact .inl (prefix_of_isStoreStageName (Bool.and_eq_true_iff.1 this).1)
    · exact .inr (.inl (prefix_of_isRecoveryStageName (isStage_of_leafKind (of_decide_eq_true h))))
    · exact .inr (.inr (prefix_of_isRecoveryStageName h))
    all_goals cases h
  obtain ⟨_, heq⟩ | ⟨_, heq⟩ | ⟨_, heq⟩ := hprefix
  · exact heq ▸ ⟨rfl, .head _⟩
  · exact heq ▸ ⟨rfl, .tail _ (.head _)⟩
  · exact heq ▸ ⟨rfl, .tail _ (.tail _ (.head _))⟩

theorem isLowerHex_of_isFinalName {suffix name : EntryName} (h : isFinalName suffix name = true) :
    ∃ c, name[0]? = some c ∧ isLowerHex c := by
  rw [isFinalName] at h
  split at h
  · cases h
  · rename_i id hid
    obtain ⟨_, rfl, -⟩ := List.dropSuffix?_eq_some_iff.1 hid
    obtain ⟨hlength, hall⟩ := Bool.and_eq_true_iff.1 h
    have hpos : 0 < id.length := by rw [beq_iff_eq.1 hlength]; decide
    rw [List.getElem?_append_left hpos, List.getElem?_eq_getElem hpos]
    exact ⟨_, rfl, List.all_eq_true.1 hall _ (List.getElem_mem hpos)⟩

/-- What begins with a dot is no final name, so a stage in the tree is taken for one. -/
theorem leafKind_of_isStage {suffix : EntryName} (hdot : name[0]? = some '.')
    (hstage : isStage name = true) :
    leafKind suffix isStage parents name = some .ownedStage := by
  rw [leafKind, if_neg, if_pos hstage]
  intro hfinal
  obtain ⟨c, hc, hhex⟩ := isLowerHex_of_isFinalName hfinal
  obtain rfl := Option.some.inj (hdot.symm.trans hc)
  exact absurd hhex (by decide)

/-- **The stages of objects, receipts and the head are owned where they are written.** -/
theorem isOwnedStage_path {stage : StageFile} (h : stage.isAttempt = false) :
    isOwnedStage stage.path = true := by
  cases stage with
  | object objectId pid counter =>
    refine decide_eq_true (leafKind_of_isStage rfl ?_)
    exact isStoreStageNameForDir_storeStageName objectId pid counter
  | receipt transactionId pid token =>
    refine decide_eq_true (leafKind_of_isStage rfl ?_)
    exact isRecoveryStageName_reservedStageName receiptStagePrefix pid token
  | head pid token => exact isRecoveryStageName_reservedStageName headStagePrefix pid token
  | attempt attemptId pid => cases h

theorem head_hex {bytes rest : _} (h : bytes ≠ []) : (hex bytes ++ rest)[0]? ≠ some '.' := by
  intro hdot
  have hpos : 0 < (hex bytes).length := by
    rw [length_hex]
    have := List.length_pos_iff.2 h
    omega
  rw [List.getElem?_append_left hpos] at hdot
  exact absurd (isLowerHex_of_mem_hex _ (List.mem_of_getElem? hdot)) (by decide)

/-- **No final name is a stage, in whatever directory.** -/
theorem not_isOwnedStage_name (final : FinalFile) (directory : Directory) :
    isOwnedStage ⟨directory, final.path.name⟩ = false := by
  refine Bool.eq_false_iff.2 fun h ↦ ?_
  refine absurd (name_of_isOwnedStage h).1 (?_ : final.path.name[0]? ≠ some '.')
  clear h
  cases final with
  | object objectId => exact head_hex (List.ne_nil_of_length_pos (by rw [objectId.length_eq]; decide))
  | receipt id => exact head_hex (List.ne_nil_of_length_pos (by rw [id.length_eq]; decide))
  | head => decide
  | attempt id => exact head_hex (List.ne_nil_of_length_pos (by rw [id.length_eq]; decide))
  | lock file => cases file <;> decide

/-! ### What a recovery leaves -/

theorem mem_scanTree {leafKind : List EntryName → EntryName → Option LeafKind} {limits : TreeLimits}
    {tree stages : List TreeEntry} (h : scanTree leafKind limits tree = some stages)
    (hmem : ⟨parents, name, .file⟩ ∈ tree) :
    ⟨parents, name, .file⟩ ∈ stages ↔ leafKind parents name = some .ownedStage := by
  obtain ⟨⟨hvisits, -⟩, h⟩ := Option.ite_none_right_eq_some.1 h
  obtain rfl := Option.some.inj h
  obtain ⟨visit, hvisit⟩ := Option.isSome_iff_exists.1 (hvisits _ hmem)
  have hdepth : ¬ parents.length < 2 := by
    intro hlt
    rw [TreeEntry.visit, if_pos hlt, if_neg fun h ↦ by cases h.1] at hvisit
    cases hvisit
  rw [List.mem_filter, and_iff_right hmem, decide_eq_true_iff, TreeEntry.visit, if_neg hdepth,
    if_pos rfl]
  simp

theorem mem_scanHeads {maxEntries maxStages : Nat} {heads stages : List (EntryName × EntryKind)}
    (h : scanHeads maxEntries maxStages heads = some stages) {entry : EntryName × EntryKind}
    (hmem : entry ∈ heads) : entry ∈ stages ↔ headRecoveryEntryIsOwnedStage entry.1 = true := by
  obtain ⟨-, h⟩ := Option.ite_none_right_eq_some.1 h
  obtain rfl := Option.some.inj h
  rw [List.mem_filter, and_iff_right hmem]

def Attempts.Has (attempts : Attempts) (name : EntryName) : Prop :=
  name ∈ attempts.active ∨ name ∈ attempts.settled

/-- A record that is parked stays in the journal, and what is no record stays where it is. -/
theorem has_reconcileEntry {state : Bool × Attempts} (entry : EntryName) (h : state.2.Has name) :
    (reconcileEntry parks state entry).2.Has name := by
  rw [reconcileEntry]
  split
  · exact h
  · cases parks entry with
    | none => exact h
    | some park =>
      cases park with
      | false => exact h
      | true =>
        by_cases heq : name = entry
        · exact .inr (heq ▸ .head _)
        · exact h.imp (List.mem_erase_of_ne heq).2 (.tail _)

theorem has_reconcile (entries : List EntryName) {state : Bool × Attempts} (h : state.2.Has name) :
    (entries.foldl (reconcileEntry parks) state).2.Has name := by
  induction entries generalizing state with
  | nil => exact h
  | cons entry entries ih => exact ih (has_reconcileEntry entry h)

theorem RepositoryFiles.Has.reconcile {files : RepositoryFiles} {path : Path} (h : files.Has path)
    (parks : EntryName → Option Bool) (entries : List EntryName) (ok : Bool) :
    { files with attempts :=
      (entries.foldl (reconcileEntry parks) (ok, files.attempts)).2 : RepositoryFiles }.Has path := by
  obtain ⟨directory, name⟩ := path
  cases directory with
  | attempts => exact has_reconcile entries h
  | _ => exact h

/-- **A recovery that succeeds removes the owned stages, and none removes anything else.** -/
theorem has_recover {limits : RepositoryLimits} {verified : Bool}
    {files : RepositoryFiles} {path : Path} (h : files.Has path) :
    (recover limits verified parks files).2.Has path ↔
      ¬ ((recover limits verified parks files).1 = true ∧ isOwnedStage path = true) := by
  rw [recover]
  split
  · rename_i receiptStages headStages hreceipts hheads
    split
    · exact iff_of_true h fun h ↦ by cases h.1
    · have hreconciled := h.reconcile parks files.attempts.active true
      dsimp only
      split
      · exact iff_of_true hreconciled fun h ↦ by cases h.1
      · split
        · exact iff_of_true hreconciled fun h ↦ by cases h.1
        · rename_i objectStages hobjects
          rw [and_iff_right rfl]
          obtain ⟨directory, name⟩ := path
          cases directory with
          | objects parents =>
            have hplan := mem_scanTree hobjects h
            simp [RepositoryFiles.Has, isOwnedStage, ← hplan, show _ ∈ files.objects from h]
          | receipts parents =>
            have hplan := mem_scanTree hreceipts h
            simp [RepositoryFiles.Has, isOwnedStage, ← hplan, show _ ∈ files.receipts from h]
          | heads =>
            have hplan := mem_scanHeads hheads h
            simp [RepositoryFiles.Has, isOwnedStage, ← hplan, show _ ∈ files.heads from h]
          | _ => exact iff_of_true hreconciled Bool.false_ne_true
  · exact iff_of_true h fun h ↦ by cases h.1

/-- **Of the temporary files, recovery knows and removes all but those of attempt records**, and it
neither takes a final file for a stage nor removes one. -/
theorem stage_files_recovered (limits : RepositoryLimits) (verified : Bool)
    (parks : EntryName → Option Bool) (files : RepositoryFiles) :
    (∀ stage : StageFile, (isOwnedStage stage.path = true ↔ stage.isAttempt = false) ∧
      ((∃ directory, isOwnedStage ⟨directory, stage.path.name⟩ = true) ↔
        stage.isAttempt = false)) ∧
    (∀ (final : FinalFile) (directory : Directory),
      isOwnedStage ⟨directory, final.path.name⟩ = false) ∧
    (∀ stage : StageFile, files.Has stage.path → (recover limits verified parks files).1 = true →
      (¬ (recover limits verified parks files).2.Has stage.path ↔ stage.isAttempt = false)) ∧
    ∀ final : FinalFile, files.Has final.path →
      (recover limits verified parks files).2.Has final.path := by
  have hname (stage : StageFile) (directory : Directory)
      (h : isOwnedStage ⟨directory, stage.path.name⟩ = true) : stage.isAttempt = false := by
    cases stage with
    | attempt attemptId pid =>
      have hsixth : some 'a' ∈ [some 's', some 't', some 'h'] := (name_of_isOwnedStage h).2
      exact absurd hsixth (by decide)
    | _ => rfl
  have howned (stage : StageFile) : isOwnedStage stage.path = true ↔ stage.isAttempt = false :=
    ⟨hname stage stage.path.directory, isOwnedStage_path⟩
  refine ⟨fun stage ↦ ⟨howned stage, ?_⟩, not_isOwnedStage_name, fun stage hhas hok ↦ ?_,
    fun final hhas ↦ ?_⟩
  · exact ⟨fun ⟨directory, h⟩ ↦ hname stage directory h,
      fun h ↦ ⟨stage.path.directory, isOwnedStage_path h⟩⟩
  · rw [has_recover hhas, not_not, and_iff_right hok]
    exact howned stage
  · refine (has_recover hhas).2 fun h ↦ ?_
    rw [not_isOwnedStage_name final final.path.directory] at h
    cases h.2

/-- The stage of an attempt record that a crash left behind is still there after a recovery. -/
def leftAttempt : StageFile := .attempt ⟨List.replicate 16 17, rfl⟩ ⟨7, by decide⟩

theorem leftAttempt_survives :
    (∀ directory, isOwnedStage ⟨directory, leftAttempt.path.name⟩ = false) ∧
    (recover recoveryLimits true (fun _ ↦ some true)
      ⟨[], [], [], ⟨[leftAttempt.path.name], []⟩, []⟩).1 = true ∧
    (recover recoveryLimits true (fun _ ↦ some true)
      ⟨[], [], [], ⟨[leftAttempt.path.name], []⟩, []⟩).2.Has leftAttempt.path := by
  refine ⟨fun directory ↦ Bool.eq_false_iff.2 fun h ↦ ?_, by decide, (has_recover ?_).2 ?_⟩
  · have hsixth : some 'a' ∈ [some 's', some 't', some 'h'] := (name_of_isOwnedStage h).2
    exact absurd hsixth (by decide)
  · exact .inl (.head _)
  · exact fun h ↦ Bool.false_ne_true h.2

end Sley.Txn
