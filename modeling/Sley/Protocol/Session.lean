import Sley.Protocol.RequestRegistry
import Sley.Root.StateRoot

/-!
# Session authority

The sessions of one server over one repository (`sley-protocol/src/session.rs`). A session binds a
root, and the authority keeps the full records of bound roots beside the sessions, for the collector
to retain. The two stores are written one after the other and the second is pruned by scanning the
first; **the retained roots are exactly those that live sessions bind** (`SessionInvariant`).

A closed identity stays closed because every identity is derived from a fresh ordinal. This rests on
the derivation being injective on the heads that sessions were opened at, and on nothing else.

The main result of the module covers the request registry too, whose runs were treated before.
-/

namespace Sley.Protocol

open Scb1 Ssmc Root
open Operation (bind_eq_ok modify modify_eq_ok ofExcept ofExcept_eq_ok ofState ofState_eq_ok
  pure_eq_ok reads_ofExcept reads_ofState restores_of_succeeds succeeds_modify_bind succeeds_pure)
open Operation.Restores (bind_of_reads)
open Except (ofOption rejectIf rejectIf_eq_ok)
open Id (splat)
open OrderedMap (mem_iff_exists)

inductive SessionErrorCode
  | unknown
  | workspaceMismatch
  | rootAdvanced
  | epochMismatch
  | staleHandle
  | handleUnknown
  | renewalLimit
  | bindingInvalid
  deriving DecidableEq, Repr

/-! ### The authority -/

/-- The facts of a repository's accepted head that a session binds. -/
structure HeadBinding where
  workspaceId : WorkspaceId
  root : StateRoot
  schemaEpoch : SchemaEpochId
  deriving DecidableEq

/-- One issued session. -/
structure SessionRecord where
  sessionId : SessionId
  handshakeId : ProtocolHandshakeId
  workspaceId : WorkspaceId
  boundRoot : StateRoot
  schemaEpoch : SchemaEpochId
  issueOrdinal : UInt64
  renewals : UInt16
  deriving DecidableEq

/-- Derives the session identity, the per-instance server nonce first. -/
def deriveSessionId [Blake3] (serverNonce : Digest) (handshakeId : ProtocolHandshakeId)
    (head : HeadBinding) (issueOrdinal : UInt64) : SessionId :=
  SessionId.derive (serverNonce.bytes ++ handshakeId.bytes ++ head.workspaceId.bytes ++
    head.root.bytes ++ head.schemaEpoch.bytes ++ BigEndian.bytes 8 issueOrdinal.toNat)

/-- The session authority of one server over one repository. -/
structure SessionAuthority where
  handshakeId : ProtocolHandshakeId
  serverNonce : Digest
  issued : UInt64
  sessions : Std.ExtTreeMap SessionId SessionRecord
  /-- Full root records bound by live sessions. -/
  retained : Std.ExtTreeMap StateRoot AcceptedStateRoot

/-- `checked_add` of one: there is no next ordinal after the last. -/
def nextOrdinal (issued : UInt64) : Option UInt64 :=
  if issued = 18446744073709551615 then none else some (issued + 1)

/-- `u16::MAX`: the increment past it is exactly the overflow. -/
def maxSessionRenewals : UInt16 := 65535

namespace SessionAuthority

def new (handshakeId : ProtocolHandshakeId) (serverNonce : Digest) : SessionAuthority :=
  ⟨handshakeId, serverNonce, 0, ∅, ∅⟩

/-- Drops retained roots no live session binds. -/
def pruneRetained (self : SessionAuthority) : SessionAuthority :=
  { self with
    retained := self.retained.filter fun root _ ↦
      self.sessions.toList.any fun entry ↦ entry.2.boundRoot = root }

/-- Issues a session bound to the accepted head. -/
def openSession [Blake3] (head : HeadBinding) (rootRecord : AcceptedStateRoot)
    (maxSessions : UInt32) : Operation SessionAuthority SessionErrorCode SessionRecord := do
  ofExcept (rejectIf (rootRecord.root ≠ head.root) .bindingInvalid)
  ofState fun self ↦
    rejectIf (maxSessions.toNat ≤ self.sessions.size) .bindingInvalid
  let issueOrdinal ← ofState fun self ↦
    ofOption .bindingInvalid (nextOrdinal self.issued)
  let record ← ofState fun self ↦ .ok
    { sessionId := deriveSessionId self.serverNonce self.handshakeId head issueOrdinal
      handshakeId := self.handshakeId
      workspaceId := head.workspaceId
      boundRoot := head.root
      schemaEpoch := head.schemaEpoch
      issueOrdinal
      renewals := 0 }
  ofState fun self ↦
    rejectIf (self.sessions[record.sessionId]?.isSome = true) .bindingInvalid
  modify fun self ↦
    { self with
      issued := issueOrdinal
      sessions := self.sessions.insert record.sessionId record
      retained := self.retained.insert head.root rootRecord }
  return record

/-- Rebinds a session to the current accepted head. -/
def renewSession (session : SessionId) (head : HeadBinding) (rootRecord : AcceptedStateRoot) :
    Operation SessionAuthority SessionErrorCode SessionRecord := do
  ofExcept (rejectIf (rootRecord.root ≠ head.root) .bindingInvalid)
  let record ← ofState fun self ↦ ofOption .unknown self.sessions[session]?
  ofExcept
    (rejectIf (record.workspaceId ≠ head.workspaceId) .workspaceMismatch)
  ofExcept (rejectIf (record.schemaEpoch ≠ head.schemaEpoch) .epochMismatch)
  -- `checked_add(1)`
  ofExcept (rejectIf (record.renewals = maxSessionRenewals) .renewalLimit)
  let bound := { record with renewals := record.renewals + 1, boundRoot := head.root }
  modify fun self ↦ { self with sessions := self.sessions.insert session bound }
  modify fun self ↦ { self with retained := self.retained.insert head.root rootRecord }
  modify pruneRetained
  return bound

/-- Closes a session. -/
def closeSession (session : SessionId) : Operation SessionAuthority SessionErrorCode Unit := do
  -- `remove` of a name that is not there changes nothing
  ofState fun self ↦
    rejectIf (self.sessions[session]?.isNone = true) .unknown
  modify fun self ↦ { self with sessions := self.sessions.erase session }
  modify pruneRetained

end SessionAuthority

/-- A call of the authority. -/
inductive SessionCall
  | openSession (head : HeadBinding) (rootRecord : AcceptedStateRoot) (maxSessions : UInt32)
  | renewSession (session : SessionId) (head : HeadBinding) (rootRecord : AcceptedStateRoot)
  | closeSession (session : SessionId)

/-- Closing returns nothing; the other calls return the record as it now stands. -/
def SessionCall.run [Blake3] :
    SessionCall → Operation SessionAuthority SessionErrorCode (Option SessionRecord)
  | .openSession head rootRecord maxSessions => do
    return some (← SessionAuthority.openSession head rootRecord maxSessions)
  | .renewSession session head rootRecord => do
    return some (← SessionAuthority.renewSession session head rootRecord)
  | .closeSession session => do
    SessionAuthority.closeSession session
    return none

/-! ### What a call does -/

section

variable [Blake3] {self self' : SessionAuthority} {session : SessionId} {head : HeadBinding}
  {rootRecord : AcceptedStateRoot} {maxSessions : UInt32} {result : Option SessionRecord}

theorem SessionCall.openSession_eq_ok
    (h : (SessionCall.openSession head rootRecord maxSessions).run self = (.ok result, self')) :
    ∃ record, rootRecord.root = head.root ∧ record.boundRoot = head.root ∧
      nextOrdinal self.issued = some record.issueOrdinal ∧
      record.sessionId =
        deriveSessionId self.serverNonce self.handshakeId head record.issueOrdinal ∧
      self.sessions[record.sessionId]? = none ∧
      self' = { self with
        issued := record.issueOrdinal
        sessions := self.sessions.insert record.sessionId record
        retained := self.retained.insert head.root rootRecord } := by
  simp only [run, SessionAuthority.openSession, bind_eq_ok, ofState_eq_ok, ofExcept_eq_ok,
    modify_eq_ok, pure_eq_ok, rejectIf_eq_ok, Except.ofOption_eq_ok, Except.ok.injEq, not_not,
    Bool.not_eq_true, Option.isSome_eq_false_iff, Option.isNone_iff_eq_none] at h
  obtain ⟨_, _, ⟨_, _, ⟨hroot, rfl⟩, _, _, ⟨-, rfl⟩, ordinal, _, ⟨hordinal, rfl⟩, _, _, ⟨rfl, rfl⟩,
    _, _, ⟨hfresh, rfl⟩, _, _, rfl, rfl, rfl⟩, -, rfl⟩ := h
  exact ⟨_, hroot, rfl, hordinal, rfl, hfresh, rfl⟩

theorem SessionCall.renewSession_eq_ok
    (h : (SessionCall.renewSession session head rootRecord).run self = (.ok result, self')) :
    ∃ record, rootRecord.root = head.root ∧ self.sessions[session]? = some record ∧
      self' = SessionAuthority.pruneRetained { self with
        sessions := self.sessions.insert session
          { record with renewals := record.renewals + 1, boundRoot := head.root }
        retained := self.retained.insert head.root rootRecord } := by
  simp only [run, SessionAuthority.renewSession, bind_eq_ok, ofState_eq_ok, ofExcept_eq_ok,
    modify_eq_ok, pure_eq_ok, rejectIf_eq_ok, Except.ofOption_eq_ok, not_not] at h
  obtain ⟨_, _, ⟨_, _, ⟨hroot, rfl⟩, record, _, ⟨hrecord, rfl⟩, _, _, ⟨-, rfl⟩, _, _, ⟨-, rfl⟩, _,
    _, ⟨-, rfl⟩, _, _, rfl, _, _, rfl, _, _, rfl, -, rfl⟩, -, rfl⟩ := h
  exact ⟨record, hroot, hrecord, rfl⟩

theorem SessionCall.closeSession_eq_ok
    (h : (SessionCall.closeSession session).run self = (.ok result, self')) :
    ∃ record, self.sessions[session]? = some record ∧ self' = SessionAuthority.pruneRetained
        { self with sessions := self.sessions.erase session } := by
  simp only [run, SessionAuthority.closeSession, bind_eq_ok, ofState_eq_ok, modify_eq_ok,
    pure_eq_ok, rejectIf_eq_ok, Option.isNone_iff_eq_none] at h
  obtain ⟨_, _, ⟨_, _, ⟨hlive, rfl⟩, _, _, rfl, rfl⟩, -, rfl⟩ := h
  obtain ⟨record, hrecord⟩ := Option.ne_none_iff_exists'.1 hlive
  exact ⟨record, hrecord, rfl⟩

/-- **A refused call changes nothing.** -/
theorem SessionCall.run_restores (call : SessionCall) : call.run.Restores := by
  intro authority error authority' h
  rcases call with ⟨head, rootRecord, maxSessions⟩ | ⟨session, head, rootRecord⟩ | session
  · rcases Operation.bind_eq_error.1 h with h | ⟨_, _, -, h⟩
    · refine bind_of_reads reads_ofExcept (fun _ ↦ ?_) _ _ _ h
      refine .bind_of_reads reads_ofState fun _ ↦ ?_
      refine .bind_of_reads reads_ofState fun _ ↦ ?_
      refine .bind_of_reads reads_ofState fun _ ↦ ?_
      refine .bind_of_reads reads_ofState fun _ ↦ ?_
      exact restores_of_succeeds <| succeeds_modify_bind fun _ ↦
        succeeds_pure
    · cases h
  · rcases Operation.bind_eq_error.1 h with h | ⟨_, _, -, h⟩
    · refine bind_of_reads reads_ofExcept (fun _ ↦ ?_) _ _ _ h
      refine .bind_of_reads reads_ofState fun _ ↦ ?_
      refine .bind_of_reads reads_ofExcept fun _ ↦ ?_
      refine .bind_of_reads reads_ofExcept fun _ ↦ ?_
      refine .bind_of_reads reads_ofExcept fun _ ↦ ?_
      exact restores_of_succeeds <| succeeds_modify_bind fun _ ↦
        succeeds_modify_bind fun _ ↦ succeeds_modify_bind fun _ ↦
          succeeds_pure
    · cases h
  · rcases Operation.bind_eq_error.1 h with h | ⟨_, _, -, h⟩
    · refine bind_of_reads reads_ofState (fun _ ↦ ?_) _ _ _ h
      exact restores_of_succeeds <| succeeds_modify_bind fun _ _ ↦ ⟨(), rfl⟩
    · cases h

/-! ### The invariant -/

abbrev SessionHistory := List (SessionCall × Except SessionErrorCode (Option SessionRecord))

/-- A live session is bound to the root. -/
def SessionAuthority.Binds (self : SessionAuthority) (root : StateRoot) : Prop :=
  ∃ (session : SessionId) (record : SessionRecord), self.sessions[session]? = some record ∧
    record.boundRoot = root

/-- The session was closed in the history. -/
def ClosedIn (history : SessionHistory) (session : SessionId) : Prop :=
  ∃ result, (SessionCall.closeSession session, Except.ok result) ∈ history

/-- The identity was derived with an ordinal that was issued, at one of the heads of `H`. -/
def SessionAuthority.Issued (self : SessionAuthority) (H : Set HeadBinding) (session : SessionId) :
    Prop :=
  ∃ head ∈ H, ∃ ordinal, ordinal ≤ self.issued ∧
    session = deriveSessionId self.serverNonce self.handshakeId head ordinal

/-- What the two stores of an authority say after a history, if sessions were opened at heads of
`H` only. -/
structure SessionInvariant (H : Set HeadBinding) (history : SessionHistory)
    (authority : SessionAuthority) : Prop where
  /-- Exactly the bound roots of live sessions are retained. -/
  retained_iff : ∀ root, root ∈ authority.retained ↔ authority.Binds root
  /-- Each with its own record. -/
  own : ∀ (root : StateRoot) (rootRecord : AcceptedStateRoot),
    authority.retained[root]? = some rootRecord → rootRecord.root = root
  /-- A closed session is not live again. -/
  closed : ∀ session, ClosedIn history session → authority.sessions[session]? = none
  live_issued : ∀ (session : SessionId) (record : SessionRecord),
    authority.sessions[session]? = some record → authority.Issued H session
  closed_issued : ∀ session, ClosedIn history session → authority.Issued H session

section Prune

variable {self : SessionAuthority} {root : StateRoot} {rootRecord : AcceptedStateRoot}

omit [Blake3] in
theorem SessionAuthority.getElem?_pruneRetained :
    self.pruneRetained.retained[root]? = some rootRecord ↔
      self.retained[root]? = some rootRecord ∧ self.Binds root := by
  rw [pruneRetained, Std.ExtTreeMap.getElem?_filter', Option.filter_eq_some_iff]
  refine and_congr_right fun _ ↦ ?_
  simp [Binds, Std.ExtTreeMap.mem_toList_iff_getElem?_eq_some]

omit [Blake3] in
/-- Pruning is exact where every bound root is retained. -/
theorem SessionAuthority.mem_pruneRetained (h : ∀ root, self.Binds root → root ∈ self.retained) :
    root ∈ self.pruneRetained.retained ↔ self.Binds root := by
  rw [mem_iff_exists]
  simp only [getElem?_pruneRetained]
  constructor
  · rintro ⟨_, -, hbinds⟩
    exact hbinds
  · intro hbinds
    obtain ⟨rootRecord, hrecord⟩ := mem_iff_exists.1 (h root hbinds)
    exact ⟨rootRecord, hrecord, hbinds⟩

end Prune

namespace SessionInvariant

variable {H : Set HeadBinding} {history : SessionHistory} {authority authority' : SessionAuthority}
  {call : SessionCall} {session : SessionId} {head : HeadBinding} {rootRecord : AcceptedStateRoot}
  {result : Option SessionRecord}

theorem start (handshakeId : ProtocolHandshakeId) (serverNonce : Digest) :
    SessionInvariant H [] (SessionAuthority.new handshakeId serverNonce) where
  retained_iff root := by
    simp [SessionAuthority.Binds, SessionAuthority.new]
  own root rootRecord h := by simp [SessionAuthority.new] at h
  closed session h := by simp [ClosedIn] at h
  live_issued session record h := by simp [SessionAuthority.new] at h
  closed_issued session h := by simp [ClosedIn] at h

omit [Blake3] in
theorem closedIn_append_iff {outcome : Except SessionErrorCode (Option SessionRecord)} :
    ClosedIn (history ++ [(call, outcome)]) session ↔ ClosedIn history session ∨
      call = .closeSession session ∧ ∃ result, outcome = .ok result := by
  simp only [ClosedIn, List.mem_append, List.mem_singleton, Prod.mk.injEq]
  constructor
  · rintro ⟨result, hold | ⟨rfl, rfl⟩⟩
    · exact .inl ⟨result, hold⟩
    · exact .inr ⟨rfl, result, rfl⟩
  · rintro (⟨result, hold⟩ | ⟨rfl, result, rfl⟩)
    · exact ⟨result, .inl hold⟩
    · exact ⟨result, .inr ⟨rfl, rfl⟩⟩

/-- What was issued stays issued. -/
theorem issued_mono (hle : authority.issued ≤ authority'.issued)
    (hnonce : authority'.serverNonce = authority.serverNonce)
    (hhandshake : authority'.handshakeId = authority.handshakeId) (h : authority.Issued H session) :
    authority'.Issued H session := by
  obtain ⟨head, hhead, ordinal, hordinal, rfl⟩ := h
  exact ⟨head, hhead, ordinal, UInt64.le_trans hordinal hle, by rw [hnonce, hhandshake]⟩

section

variable (h : SessionInvariant H history authority)

include h

theorem refused (error : SessionErrorCode) :
    SessionInvariant H (history ++ [(call, .error error)]) authority := by
  have hclosed : ∀ session, ClosedIn (history ++ [(call, Except.error error)]) session →
      ClosedIn history session := by
    intro session hsession
    rcases closedIn_append_iff.1 hsession with hold | ⟨-, _, heq⟩
    · exact hold
    · cases heq
  exact ⟨h.retained_iff, h.own, fun session hs ↦ h.closed session (hclosed session hs),
    h.live_issued, fun session hs ↦ h.closed_issued session (hclosed session hs)⟩

theorem openSession {maxSessions : UInt32} (hderive : ∀ head ∈ H, ∀ head' ∈ H, ∀ ordinal ordinal',
      deriveSessionId authority.serverNonce authority.handshakeId head ordinal =
        deriveSessionId authority.serverNonce authority.handshakeId head' ordinal' →
      head = head' ∧ ordinal = ordinal') (hhead : head ∈ H)
    (hrun : (SessionCall.openSession head rootRecord maxSessions).run authority =
      (.ok result, authority')) :
    SessionInvariant H
      (history ++ [(.openSession head rootRecord maxSessions, .ok result)]) authority' := by
  obtain ⟨record, hroot, hbound, hordinal, hid, hfresh, rfl⟩ := SessionCall.openSession_eq_ok hrun
  have hnext : authority.issued < record.issueOrdinal := by
    rw [nextOrdinal, Option.ite_none_left_eq_some, Option.some.injEq] at hordinal
    obtain ⟨hne, heq⟩ := hordinal
    have hlt := authority.issued.toNat_lt
    have : authority.issued.toNat ≠ 18446744073709551615 :=
      fun h ↦ hne (UInt64.toNat_inj.1 h)
    rw [← heq, UInt64.lt_iff_toNat_lt, UInt64.toNat_add]
    show _ < (authority.issued.toNat + 1) % 2 ^ 64
    omega
  have hclosed : ∀ session, ClosedIn (history ++
      [(.openSession head rootRecord maxSessions, .ok result)]) session →
        ClosedIn history session := by
    intro session hsession
    rcases closedIn_append_iff.1 hsession with hold | ⟨heq, -⟩
    · exact hold
    · cases heq
  have hissued : ∀ session, authority.Issued H session → SessionAuthority.Issued { authority with
        issued := record.issueOrdinal
        sessions := authority.sessions.insert record.sessionId record
        retained := authority.retained.insert head.root rootRecord } H session :=
    fun session ↦ issued_mono (UInt64.le_of_lt hnext) rfl rfl
  constructor
  case retained_iff =>
    intro root
    simp only [SessionAuthority.Binds, mem_iff_exists, OrderedMap.getElem?_insert]
    constructor
    · rintro ⟨kept, hkept⟩
      split at hkept
      · rename_i heq
        exact ⟨record.sessionId, record, if_pos rfl, hbound.trans heq.symm⟩
      · obtain ⟨other, record', hrecord', hroot'⟩ :=
          (h.retained_iff root).1 (mem_iff_exists.2 ⟨kept, hkept⟩)
        refine ⟨other, record', ?_, hroot'⟩
        rw [if_neg, hrecord']
        rintro rfl
        rw [hfresh] at hrecord'
        cases hrecord'
    · rintro ⟨other, record', hrecord', rfl⟩
      split at hrecord'
      · obtain rfl := Option.some.inj hrecord'
        exact ⟨rootRecord, if_pos hbound⟩
      · obtain ⟨kept, hkept⟩ := mem_iff_exists.1
          ((h.retained_iff _).2 ⟨other, record', hrecord', rfl⟩)
        by_cases heq : record'.boundRoot = head.root
        · exact ⟨rootRecord, if_pos heq⟩
        · exact ⟨kept, by rw [if_neg heq, hkept]⟩
  case own =>
    intro root kept hkept
    rw [OrderedMap.getElem?_insert] at hkept
    split at hkept
    · obtain rfl := Option.some.inj hkept
      rename_i heq
      exact hroot.trans heq.symm
    · exact h.own root kept hkept
  case closed =>
    intro session hsession
    show (authority.sessions.insert record.sessionId record)[session]? = none
    rw [OrderedMap.getElem?_insert, if_neg, h.closed session (hclosed session hsession)]
    -- a closed identity has an earlier ordinal
    intro heq
    obtain ⟨head', hhead', ordinal, hle, hderived⟩ := h.closed_issued session (hclosed _ hsession)
    rw [heq, hid] at hderived
    obtain ⟨-, rfl⟩ := hderive head hhead head' hhead' _ _ hderived
    exact absurd hnext (UInt64.not_lt.2 hle)
  case live_issued =>
    intro session record' hrecord'
    rw [OrderedMap.getElem?_insert] at hrecord'
    split at hrecord'
    · rename_i heq
      exact ⟨head, hhead, record.issueOrdinal, UInt64.le_refl _, heq.trans hid⟩
    · exact hissued session (h.live_issued session record' hrecord')
  case closed_issued =>
    exact fun session hsession ↦ hissued session (h.closed_issued session (hclosed _ hsession))

theorem renewSession (hrun : (SessionCall.renewSession session head rootRecord).run authority =
      (.ok result, authority')) :
    SessionInvariant H
      (history ++ [(.renewSession session head rootRecord, .ok result)]) authority' := by
  obtain ⟨record, hroot, hrecord, rfl⟩ := SessionCall.renewSession_eq_ok hrun
  have hclosed : ∀ session', ClosedIn (history ++
      [(.renewSession session head rootRecord, .ok result)]) session' →
        ClosedIn history session' := by
    intro session' hsession
    rcases closedIn_append_iff.1 hsession with hold | ⟨heq, -⟩
    · exact hold
    · cases heq
  constructor
  case retained_iff =>
    intro root
    refine (SessionAuthority.mem_pruneRetained fun root hbinds ↦ ?_).trans Iff.rfl
    obtain ⟨other, record', hrecord', rfl⟩ := hbinds
    rw [OrderedMap.getElem?_insert] at hrecord'
    simp only [mem_iff_exists, OrderedMap.getElem?_insert]
    by_cases heq : record'.boundRoot = head.root
    · exact ⟨rootRecord, if_pos heq⟩
    split at hrecord'
    · obtain rfl := Option.some.inj hrecord'
      exact absurd rfl heq
    · obtain ⟨kept, hkept⟩ := mem_iff_exists.1
        ((h.retained_iff _).2 ⟨other, record', hrecord', rfl⟩)
      exact ⟨kept, by rw [if_neg heq, hkept]⟩
  case own =>
    intro root kept hkept
    obtain ⟨hbefore, -⟩ := SessionAuthority.getElem?_pruneRetained.1 hkept
    rw [OrderedMap.getElem?_insert] at hbefore
    split at hbefore
    · rename_i heq
      obtain rfl := Option.some.inj hbefore
      exact hroot.trans heq.symm
    · exact h.own root kept hbefore
  case closed =>
    intro session' hsession
    show (authority.sessions.insert session _)[session']? = none
    have hgone := h.closed session' (hclosed session' hsession)
    rw [OrderedMap.getElem?_insert, if_neg, hgone]
    rintro rfl
    rw [hrecord] at hgone
    cases hgone
  case live_issued =>
    intro session' record' hrecord'
    have hrecord' : (authority.sessions.insert session _)[session']? = some record' := hrecord'
    rw [OrderedMap.getElem?_insert] at hrecord'
    split at hrecord'
    · rename_i heq
      exact heq ▸ h.live_issued session record hrecord
    · exact h.live_issued session' record' hrecord'
  case closed_issued =>
    exact fun session' hsession ↦ h.closed_issued session' (hclosed _ hsession)

theorem closeSession
    (hrun : (SessionCall.closeSession session).run authority = (.ok result, authority')) :
    SessionInvariant H (history ++ [(.closeSession session, .ok result)]) authority' := by
  obtain ⟨record, hrecord, rfl⟩ := SessionCall.closeSession_eq_ok hrun
  have hclosed : ∀ session', ClosedIn (history ++
      [(.closeSession session, .ok result)]) session' → ClosedIn history session' ∨
        session' = session := by
    intro session' hsession
    rcases closedIn_append_iff.1 hsession with hold | ⟨heq, -⟩
    · exact .inl hold
    · cases heq
      exact .inr rfl
  constructor
  case retained_iff =>
    intro root
    refine (SessionAuthority.mem_pruneRetained fun root hbinds ↦ ?_).trans Iff.rfl
    obtain ⟨other, record', hrecord', rfl⟩ := hbinds
    rw [OrderedMap.getElem?_erase, Option.ite_none_left_eq_some] at hrecord'
    exact (h.retained_iff _).2 ⟨other, record', hrecord'.2, rfl⟩
  case own =>
    intro root kept hkept
    exact h.own root kept (SessionAuthority.getElem?_pruneRetained.1 hkept).1
  case closed =>
    intro session' hsession
    show (authority.sessions.erase session)[session']? = none
    rw [OrderedMap.getElem?_erase]
    split
    · rfl
    · rename_i hne
      exact h.closed session' ((hclosed session' hsession).resolve_right hne)
  case live_issued =>
    intro session' record' hrecord'
    have hrecord' : (authority.sessions.erase session)[session']? = some record' := hrecord'
    rw [OrderedMap.getElem?_erase, Option.ite_none_left_eq_some] at hrecord'
    exact h.live_issued session' record' hrecord'.2
  case closed_issued =>
    intro session' hsession
    rcases hclosed session' hsession with hold | rfl
    · exact h.closed_issued session' hold
    · exact h.live_issued session' record hrecord

end

end SessionInvariant

/-! ### Runs -/

/-- The heads at which sessions are opened are among those of `H`. -/
def OpensAt (H : Set HeadBinding) : SessionCall → Prop
  | .openSession head _ _ => head ∈ H
  | _ => True

/-- No call changes what identities are derived from. -/
theorem SessionCall.run_constants (call : SessionCall) (authority : SessionAuthority) :
    (call.run authority).2.serverNonce = authority.serverNonce ∧
      (call.run authority).2.handshakeId = authority.handshakeId := by
  rcases hrun : call.run authority with ⟨error | result, authority'⟩
  · obtain rfl := call.run_restores _ _ _ hrun
    exact ⟨rfl, rfl⟩
  rcases call with ⟨head, rootRecord, maxSessions⟩ | ⟨session, head, rootRecord⟩ | session
  · obtain ⟨_, -, -, -, -, -, rfl⟩ := SessionCall.openSession_eq_ok hrun
    exact ⟨rfl, rfl⟩
  · obtain ⟨_, -, -, rfl⟩ := SessionCall.renewSession_eq_ok hrun
    exact ⟨rfl, rfl⟩
  · obtain ⟨_, -, rfl⟩ := SessionCall.closeSession_eq_ok hrun
    exact ⟨rfl, rfl⟩

/-- **Sessions and requests over whole runs.** Where identities are derived injectively at the heads
of `H`, the two stores of an authority satisfy `SessionInvariant` after every run that opens sessions
at these heads, and a refused call changes nothing. The request registry agrees with the accounts of
a run, after each of its calls, exactly if no call closes an open session while the counter of
closed names is full. -/
theorem session_runs (H : Set HeadBinding) (handshakeId : ProtocolHandshakeId)
    (serverNonce : Digest)
    (hderive : ∀ head ∈ H, ∀ head' ∈ H, ∀ ordinal ordinal',
      deriveSessionId serverNonce handshakeId head ordinal =
        deriveSessionId serverNonce handshakeId head' ordinal' →
      head = head' ∧ ordinal = ordinal')
    (calls : List SessionCall) (hcalls : ∀ call ∈ calls, OpensAt H call)
    (requests : List RequestCall) :
    SessionInvariant H
        (Operation.history SessionCall.run calls (SessionAuthority.new handshakeId serverNonce))
        (Operation.after SessionCall.run calls (SessionAuthority.new handshakeId serverNonce)) ∧
      (∀ (call : SessionCall) (authority authority' : SessionAuthority) (error : SessionErrorCode),
        call.run authority = (.error error, authority') → authority' = authority) ∧
      (Operation.Admitted Fits RequestCall.run requests RequestRegistry.new ↔
        ∀ past, past <+: requests → Accounted
          (Operation.history RequestCall.run past RequestRegistry.new)
          (Operation.after RequestCall.run past RequestRegistry.new)) := by
  refine ⟨?_, fun call authority authority' error h ↦ call.run_restores _ _ _ h,
    accounted_iff_admitted⟩
  have hadmitted : Operation.Admitted (fun _ call ↦ OpensAt H call) SessionCall.run calls
      (SessionAuthority.new handshakeId serverNonce) := Operation.admitted_of_forall hcalls
  -- the nonce and the handshake stay those of the start
  refine (Operation.invariant_of_admitted (I := fun history authority ↦
    (authority.serverNonce = serverNonce ∧ authority.handshakeId = handshakeId) ∧
      SessionInvariant H history authority) hadmitted ⟨⟨rfl, rfl⟩, .start handshakeId serverNonce⟩
    ?_).2
  rintro past authority call ⟨⟨rfl, rfl⟩, hpast⟩ hopens
  refine ⟨call.run_constants authority, ?_⟩
  rcases hrun : call.run authority with ⟨error | result, authority'⟩
  · obtain rfl := call.run_restores _ _ _ hrun
    exact hpast.refused error
  rcases call with ⟨head, rootRecord, maxSessions⟩ | ⟨session, head, rootRecord⟩ | session
  · exact hpast.openSession hderive hopens hrun
  · exact hpast.renewSession hrun
  · exact hpast.closeSession hrun

end

/-! ### Two sessions, one of them renewed -/

/-- A digest that keeps the last eight bytes, so that ordinals at one head are told apart. -/
@[reducible]
def tailBlake3 : Blake3 where
  hash bytes :=
    ⟨List.replicate 24 0 ++ (List.replicate 8 0 ++ bytes).drop bytes.length, by
      rw [List.length_append, List.length_drop, List.length_append, List.length_replicate,
        List.length_replicate]
      omega⟩

def smallHead : HeadBinding := ⟨splat 1, splat 2, splat 3⟩

def smallRootRecord (root : StateRoot) : AcceptedStateRoot where
  root
  storedBytes := []
  record :=
    { workspaceId := splat 1
      schemaEpochId := splat 3
      entityBindings := []
      entryPoints := []
      dependencyRoots := []
      contractRoot := splat 4
      testRoot := splat 5
      policyRoot := splat 6
      interpretationFlags := [] }

theorem deriveSessionId_tailBlake3 {serverNonce : Digest} {handshakeId : ProtocolHandshakeId}
    {head : HeadBinding} {ordinal : UInt64} :
    (@deriveSessionId tailBlake3 serverNonce handshakeId head ordinal).bytes =
      List.replicate 24 0 ++ BigEndian.bytes 8 ordinal.toNat := by
  refine congrArg (List.replicate 24 0 ++ ·) ?_
  simp only [← List.append_assoc]
  refine List.drop_left' ?_
  simp only [List.length_append, List.length_replicate, BigEndian.length_bytes]
  omega

/-- Two sessions are opened at one head, one is renewed at another root, the other closed. -/
def smallCalls : List SessionCall :=
  let session := @deriveSessionId tailBlake3 (splat 7) (splat 8) smallHead
  [.openSession smallHead (smallRootRecord (splat 2)) 8,
    .openSession smallHead (smallRootRecord (splat 2)) 8,
    .renewSession (session 1) { smallHead with root := splat 9 } (smallRootRecord (splat 9)),
    .closeSession (session 2)]

theorem session_runs_renewed :
    letI := tailBlake3
    let start := SessionAuthority.new (Id.splat 8) (Id.splat 7)
    SessionInvariant {smallHead} (Operation.history SessionCall.run smallCalls start)
        (Operation.after SessionCall.run smallCalls start) ∧
      ((Operation.after SessionCall.run smallCalls start).retained.toList.map Prod.fst) =
        [Id.splat 9] := by
  let _ := tailBlake3
  have hderive : ∀ head ∈ ({smallHead} : Set HeadBinding),
      ∀ head' ∈ ({smallHead} : Set HeadBinding), ∀ ordinal ordinal',
        deriveSessionId (Id.splat 7) (Id.splat 8) head ordinal =
          deriveSessionId (Id.splat 7) (Id.splat 8) head' ordinal' →
        head = head' ∧ ordinal = ordinal' := by
    rintro _ rfl _ rfl ordinal ordinal' h
    refine ⟨rfl, ?_⟩
    have hbytes := congrArg Id.bytes h
    rw [deriveSessionId_tailBlake3, deriveSessionId_tailBlake3] at hbytes
    have hvalue := congrArg BigEndian.value (List.append_cancel_left hbytes)
    rw [BigEndian.value_bytes, BigEndian.value_bytes] at hvalue
    have hlt := ordinal.toNat_lt
    have hlt' := ordinal'.toNat_lt
    exact UInt64.toNat_inj.1 (by omega)
  have hcalls : ∀ call ∈ smallCalls, OpensAt {smallHead} call := by
    simp [smallCalls, OpensAt]
  exact ⟨(session_runs {smallHead} (Id.splat 8) (Id.splat 7) hderive smallCalls hcalls []).1,
    by decide +kernel⟩

end Sley.Protocol
