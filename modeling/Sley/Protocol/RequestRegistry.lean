import Sley.Lib.BigEndian
import Sley.Lib.Operation
import Sley.Lib.OrderedMap
import Sley.Protocol.Method
import Sley.Ssmc.Order

/-!
# Session-scoped request identity

The registry that admits request identifiers (`sley-protocol/src/lib.rs`, `RequestRegistry`). A
session is opened, admits identifiers and completes them, and is closed; a closed name is
remembered until `max_remembered` later names are.

What the registry should know of a session is an `Account`, read off the history of the calls alone.
**`Accounted` says that the registry agrees with every account**, and one call keeps it
(`Accounted.run`), unless that call closes a session while the counter of closed names is full. The
counter saturates there and the queue does not (`length_closeOrder_of_full`), so that from then on
the two differ.
-/

namespace Sley.Protocol

open Ssmc
open Operation (after after_append bind_eq_ok modify modify_eq_ok ofExcept ofExcept_eq_ok ofState
  ofState_eq_ok reads_ofExcept reads_ofState)
open Except (ofOption ofOption_eq_ok rejectIf rejectIf_eq_ok)
open UInt32 (le_iff_toNat_le lt_iff_toNat_lt not_le not_lt toNat_add toNat_inj)

/-- `u32::MAX`. -/
def u32Max : UInt32 := 4294967295

/-- `u32::saturating_add` of one. -/
def saturatingSucc (n : UInt32) : UInt32 := if n = u32Max then n else n + 1

/-- `u32::saturating_sub` of one. -/
def saturatingPred (n : UInt32) : UInt32 := if n = 0 then n else n - 1

theorem toNat_saturatingSucc {n : UInt32} (h : n ≠ u32Max) :
    (saturatingSucc n).toNat = n.toNat + 1 := by
  have hlt := n.toNat_lt
  have hne : n.toNat ≠ 4294967295 := fun heq ↦ h (toNat_inj.1 heq)
  rw [saturatingSucc, if_neg h, toNat_add]
  exact Nat.mod_eq_of_lt (by show n.toNat + 1 < 2 ^ 32; omega)

theorem toNat_saturatingPred {n m : UInt32} (h : m < n) :
    (saturatingPred n).toNat = n.toNat - 1 := by
  have hlt : m.toNat < n.toNat := lt_iff_toNat_lt.1 h
  have hne : n ≠ 0 := fun heq ↦ by simp [heq] at hlt
  rw [saturatingPred, if_neg hne, UInt32.toNat_sub_of_le _ _ (le_iff_toNat_le.2 ?_)]
  · rfl
  · show 1 ≤ n.toNat
    omega

/-! ### The registry -/

structure SessionState where
  lastRequestId : Option UInt64
  inflight : UInt32
  closed : Bool
  deriving DecidableEq

/-- Tracks request identity per session. -/
structure RequestRegistry where
  sessions : Std.ExtTreeMap SessionId SessionState
  /-- Close order of remembered sessions. -/
  closeOrder : List SessionId
  closedNames : UInt32

namespace RequestRegistry

def new : RequestRegistry := ⟨∅, [], 0⟩

/-- The registry with one session written. -/
def write (self : RequestRegistry) (session : SessionId) (state : SessionState) :
    RequestRegistry :=
  { self with sessions := self.sessions.insert session state }

/-- Registers a session issued by the session authority. -/
def «open» (session : SessionId) : Operation RequestRegistry ProtocolErrorCode Unit := do
  ofState fun self ↦
    rejectIf (self.sessions[session]?.isSome = true) .requestIdConflict
  modify fun self ↦
    self.write session { lastRequestId := none, inflight := 0, closed := false }

/-- `admit`: admits a request identifier before execution. -/
def admitRequest (session : SessionId) (requestId : UInt64) (maxInflight : UInt32) :
    Operation RequestRegistry ProtocolErrorCode Unit := do
  let state ← ofState fun self ↦
    ofOption .requestIdConflict self.sessions[session]?
  ofExcept (rejectIf (state.closed = true) .sessionClosed)
  ofExcept (rejectIf
    (requestId = 0 ∨ state.lastRequestId.any (fun last ↦ requestId ≤ last) = true)
    .requestIdConflict)
  ofExcept (rejectIf (maxInflight ≤ state.inflight) .limitExceeded)
  modify fun self ↦ self.write session
    { state with lastRequestId := some requestId, inflight := state.inflight + 1 }

/-- Marks an admitted request complete. -/
def complete (session : SessionId) : Operation RequestRegistry ProtocolErrorCode Unit := do
  let state ← ofState fun self ↦
    ofOption .internalInvariant self.sessions[session]?
  -- `checked_sub(1)`
  ofExcept (rejectIf (state.inflight = 0) .internalInvariant)
  modify fun self ↦ self.write session { state with inflight := state.inflight - 1 }

/-- The loop of `close`: the oldest closed names are forgotten until few enough are left. -/
def forget (maxRemembered : UInt32) (sessions : Std.ExtTreeMap SessionId SessionState) :
    List SessionId → UInt32 → RequestRegistry
  | [], closedNames =>
    if maxRemembered < closedNames then ⟨sessions, [], min closedNames maxRemembered⟩
    else ⟨sessions, [], closedNames⟩
  | oldest :: closeOrder, closedNames =>
    if maxRemembered < closedNames then
      forget maxRemembered
        (if sessions[oldest]?.any (fun state ↦ state.closed) then sessions.erase oldest
          else sessions)
        closeOrder (saturatingPred closedNames)
    else ⟨sessions, oldest :: closeOrder, closedNames⟩

/-- Closes a session; at most `maxRemembered` closed names are remembered. -/
def close (session : SessionId) (maxRemembered : UInt32) :
    Operation RequestRegistry ProtocolErrorCode Unit := do
  let state ← ofState fun self ↦
    ofOption .sessionClosed self.sessions[session]?
  ofExcept (rejectIf (state.closed = true) .sessionClosed)
  modify fun self ↦
    forget maxRemembered (self.sessions.insert session { state with closed := true })
      (self.closeOrder ++ [session]) (saturatingSucc self.closedNames)

def isClosed (self : RequestRegistry) (session : SessionId) : Bool :=
  self.sessions[session]?.any fun state ↦ state.closed

def isOpen (self : RequestRegistry) (session : SessionId) : Bool :=
  self.sessions[session]?.any fun state ↦ !state.closed

/-- The names remembered as closed. -/
def rememberedClosed (self : RequestRegistry) : List SessionId :=
  (self.sessions.toList.filter fun entry ↦ entry.2.closed).map Prod.fst

end RequestRegistry

/-- A call of the registry. -/
inductive RequestCall
  | «open» (session : SessionId)
  | admitRequest (session : SessionId) (requestId : UInt64) (maxInflight : UInt32)
  | complete (session : SessionId)
  | close (session : SessionId) (maxRemembered : UInt32)
  deriving DecidableEq

def RequestCall.run : RequestCall → Operation RequestRegistry ProtocolErrorCode Unit
  | .open session => RequestRegistry.open session
  | .admitRequest session requestId maxInflight =>
    RequestRegistry.admitRequest session requestId maxInflight
  | .complete session => RequestRegistry.complete session
  | .close session maxRemembered => RequestRegistry.close session maxRemembered

/-! ### What a call does -/

namespace RequestRegistry

variable {self self' : RequestRegistry} {session other : SessionId} {requestId : UInt64}
  {maxInflight maxRemembered : UInt32} {state : SessionState}

theorem open_eq_ok : «open» session self = (.ok (), self') ↔ self.sessions[session]? = none ∧
      self' = self.write session { lastRequestId := none, inflight := 0, closed := false } := by
  simp only [«open», bind_eq_ok, ofState_eq_ok, modify_eq_ok,
    rejectIf_eq_ok, Bool.not_eq_true, Option.isSome_eq_false_iff, Option.isNone_iff_eq_none]
  constructor
  · rintro ⟨_, _, ⟨hfresh, rfl⟩, rfl⟩
    exact ⟨hfresh, rfl⟩
  · rintro ⟨hfresh, rfl⟩
    exact ⟨(), self, ⟨hfresh, rfl⟩, rfl⟩

theorem admitRequest_eq_ok : admitRequest session requestId maxInflight self = (.ok (), self') ↔
    ∃ state, self.sessions[session]? = some state ∧ state.closed = false ∧ requestId ≠ 0 ∧
      (∀ last ∈ state.lastRequestId, last < requestId) ∧ state.inflight < maxInflight ∧
      self' = self.write session
        { state with lastRequestId := some requestId, inflight := state.inflight + 1 } := by
  simp only [admitRequest, bind_eq_ok, ofState_eq_ok, ofExcept_eq_ok,
    modify_eq_ok, rejectIf_eq_ok, ofOption_eq_ok, not_or, Bool.not_eq_true,
    Option.any_eq_false, decide_eq_false_iff_not, UInt64.not_le, not_le]
  constructor
  · rintro ⟨state, _, ⟨hstate, rfl⟩, _, _, ⟨hopen, rfl⟩, _, _, ⟨⟨hne, hlast⟩, rfl⟩, _, _,
      ⟨hlt, rfl⟩, rfl⟩
    exact ⟨state, hstate, hopen, hne, hlast, hlt, rfl⟩
  · rintro ⟨state, hstate, hopen, hne, hlast, hlt, rfl⟩
    exact ⟨state, self, ⟨hstate, rfl⟩, (), self, ⟨hopen, rfl⟩, (), self, ⟨⟨hne, hlast⟩, rfl⟩, (),
      self, ⟨hlt, rfl⟩, rfl⟩

theorem complete_eq_ok : complete session self = (.ok (), self') ↔
    ∃ state, self.sessions[session]? = some state ∧ state.inflight ≠ 0 ∧
      self' = self.write session { state with inflight := state.inflight - 1 } := by
  simp only [complete, bind_eq_ok, ofState_eq_ok, ofExcept_eq_ok,
    modify_eq_ok, rejectIf_eq_ok, ofOption_eq_ok]
  constructor
  · rintro ⟨state, _, ⟨hstate, rfl⟩, _, _, ⟨hne, rfl⟩, rfl⟩
    exact ⟨state, hstate, hne, rfl⟩
  · rintro ⟨state, hstate, hne, rfl⟩
    exact ⟨state, self, ⟨hstate, rfl⟩, (), self, ⟨hne, rfl⟩, rfl⟩

theorem close_eq_ok : close session maxRemembered self = (.ok (), self') ↔
    ∃ state, self.sessions[session]? = some state ∧ state.closed = false ∧
      self' = forget maxRemembered (self.sessions.insert session { state with closed := true })
        (self.closeOrder ++ [session]) (saturatingSucc self.closedNames) := by
  simp only [close, bind_eq_ok, ofState_eq_ok, ofExcept_eq_ok,
    modify_eq_ok, rejectIf_eq_ok, ofOption_eq_ok, Bool.not_eq_true]
  constructor
  · rintro ⟨state, _, ⟨hstate, rfl⟩, _, _, ⟨hopen, rfl⟩, rfl⟩
    exact ⟨state, hstate, hopen, rfl⟩
  · rintro ⟨state, hstate, hopen, rfl⟩
    exact ⟨state, self, ⟨hstate, rfl⟩, (), self, ⟨hopen, rfl⟩, rfl⟩

end RequestRegistry

/-- **A refused call changes nothing**: every check stands before the one write. -/
theorem RequestCall.run_restores (call : RequestCall) : call.run.Restores := by
  have hwrite (f : RequestRegistry → RequestRegistry) :
      (modify f : Operation RequestRegistry ProtocolErrorCode Unit).Restores :=
    Operation.restores_of_succeeds fun _ ↦ ⟨(), rfl⟩
  rcases call with session | ⟨session, requestId, maxInflight⟩ | session | ⟨session, maxRemembered⟩
  · exact .bind_of_reads reads_ofState fun _ ↦ hwrite _
  · exact .bind_of_reads reads_ofState fun _ ↦ .bind_of_reads reads_ofExcept
      fun _ ↦ .bind_of_reads reads_ofExcept fun _ ↦
        .bind_of_reads reads_ofExcept fun _ ↦ hwrite _
  · exact .bind_of_reads reads_ofState fun _ ↦ .bind_of_reads reads_ofExcept
      fun _ ↦ hwrite _
  · exact .bind_of_reads reads_ofState fun _ ↦ .bind_of_reads reads_ofExcept
      fun _ ↦ hwrite _

/-! ### The queue of closed names -/

section Queue

variable {sessions : Std.ExtTreeMap SessionId SessionState} {closeOrder : List SessionId}
  {closedNames maxRemembered : UInt32} {session : SessionId} {state : SessionState}

/-- The queue names each closed session once, and no other. -/
structure Remembers (sessions : Std.ExtTreeMap SessionId SessionState)
    (closeOrder : List SessionId) : Prop where
  nodup : closeOrder.Nodup
  mem_iff : ∀ session, session ∈ closeOrder ↔
    ∃ state, sessions[session]? = some state ∧ state.closed = true

theorem Remembers.erase (h : Remembers sessions (session :: closeOrder)) :
    Remembers (sessions.erase session) closeOrder where
  nodup := h.nodup.of_cons
  mem_iff other := by
    have hnot : session ∉ closeOrder := (List.nodup_cons.1 h.nodup).1
    rw [OrderedMap.getElem?_erase]
    by_cases hother : other = session
    · subst hother
      simp [hnot]
    · rw [if_neg hother, ← h.mem_iff, List.mem_cons, or_iff_right hother]

section

variable (h : Remembers sessions closeOrder)

include h

/-- Closing an open session puts it at the end of the queue. -/
theorem Remembers.append (hstate : sessions[session]? = some state) (hopen : state.closed = false) :
    Remembers (sessions.insert session { state with closed := true })
      (closeOrder ++ [session]) where
  nodup := by
    refine List.nodup_append.2 ⟨h.nodup, List.nodup_singleton _, ?_⟩
    rintro other hmem _ hsession rfl
    obtain rfl := List.mem_singleton.1 hsession
    obtain ⟨state', hstate', hclosed⟩ := (h.mem_iff _).1 hmem
    obtain rfl := Option.some.inj (hstate.symm.trans hstate')
    rw [hopen] at hclosed
    cases hclosed
  mem_iff other := by
    simp only [OrderedMap.getElem?_insert, List.mem_append, List.mem_singleton]
    by_cases hother : other = session
    · simp [hother]
    · simp only [hother, or_false, if_false, h.mem_iff]

/-- A write that leaves `closed` as it is leaves the queue right. -/
theorem Remembers.insert (hclosed : state.closed = true ↔
      ∃ state', sessions[session]? = some state' ∧ state'.closed = true) :
    Remembers (sessions.insert session state) closeOrder where
  nodup := h.nodup
  mem_iff other := by
    rw [OrderedMap.getElem?_insert]
    by_cases hother : other = session
    · subst hother
      simp [h.mem_iff, hclosed]
    · simp only [if_neg hother, h.mem_iff]

theorem Remembers.forget (maxRemembered closedNames : UInt32) :
    Remembers (RequestRegistry.forget maxRemembered sessions closeOrder closedNames).sessions
      (RequestRegistry.forget maxRemembered sessions closeOrder closedNames).closeOrder := by
  induction closeOrder generalizing sessions closedNames with
  | nil =>
    rw [RequestRegistry.forget]
    split <;> exact h
  | cons oldest closeOrder ih =>
    rw [RequestRegistry.forget]
    split
    · obtain ⟨state, hstate, hclosed⟩ := (h.mem_iff oldest).1 List.mem_cons_self
      rw [if_pos (by rw [hstate]; exact hclosed)]
      exact ih h.erase _
    · exact h

end

/-- What is left after forgetting was there before. -/
theorem getElem?_of_forget
    (h : (RequestRegistry.forget maxRemembered sessions closeOrder closedNames).sessions[session]? =
      some state) : sessions[session]? = some state := by
  induction closeOrder generalizing sessions closedNames with
  | nil =>
    rw [RequestRegistry.forget] at h
    split at h <;> exact h
  | cons oldest closeOrder ih =>
    rw [RequestRegistry.forget] at h
    split at h
    · have hbefore := ih h
      split at hbefore
      · rw [OrderedMap.getElem?_erase, Option.ite_none_left_eq_some] at hbefore
        exact hbefore.2
      · exact hbefore
    · exact h

/-- **Forgetting never drops an open session.** -/
theorem getElem?_forget_of_open (h : sessions[session]? = some state)
    (hopen : state.closed = false) :
    (RequestRegistry.forget maxRemembered sessions closeOrder closedNames).sessions[session]? =
      some state := by
  induction closeOrder generalizing sessions closedNames with
  | nil =>
    rw [RequestRegistry.forget]
    split <;> exact h
  | cons oldest closeOrder ih =>
    rw [RequestRegistry.forget]
    split
    · refine ih ?_
      split
      · rename_i hclosed
        have hne : session ≠ oldest := by
          rintro rfl
          rw [h, Option.any_some, hopen] at hclosed
          cases hclosed
        rwa [OrderedMap.getElem?_erase, if_neg hne]
      · exact h
    · exact h

/-- The loop takes as much from the counter as from the queue. -/
theorem length_forget {surplus : Nat} (h : closeOrder.length = closedNames.toNat + surplus) :
    (RequestRegistry.forget maxRemembered sessions closeOrder closedNames).closeOrder.length =
      (RequestRegistry.forget maxRemembered sessions closeOrder closedNames).closedNames.toNat +
        surplus := by
  induction closeOrder generalizing sessions closedNames with
  | nil =>
    have hzero : closedNames.toNat = 0 := by
      rw [List.length_nil] at h
      omega
    have hle : ¬ maxRemembered < closedNames := by
      rw [lt_iff_toNat_lt, hzero]
      exact Nat.not_lt_zero _
    rw [RequestRegistry.forget, if_neg hle]
    exact h
  | cons oldest closeOrder ih =>
    rw [RequestRegistry.forget]
    split
    · rename_i hlt
      refine ih ?_
      have hpos := lt_iff_toNat_lt.1 hlt
      rw [List.length_cons] at h
      rw [toNat_saturatingPred hlt]
      omega
    · exact h

theorem closedNames_forget_le :
    (RequestRegistry.forget maxRemembered sessions closeOrder closedNames).closedNames ≤
      maxRemembered := by
  induction closeOrder generalizing sessions closedNames with
  | nil =>
    rw [RequestRegistry.forget]
    split
    · rename_i hlt
      rw [show min closedNames maxRemembered = maxRemembered from if_neg (not_le.2 hlt)]
      exact UInt32.le_refl _
    · exact not_lt.1 ‹_›
  | cons oldest closeOrder ih =>
    rw [RequestRegistry.forget]
    split
    · exact ih
    · exact not_lt.1 ‹_›

/-- The names remembered as closed are those of the queue. -/
theorem Remembers.length_rememberedClosed (self : RequestRegistry)
    (h : Remembers self.sessions self.closeOrder) :
    self.rememberedClosed.length = self.closeOrder.length := by
  have hkeys : self.sessions.toList.Pairwise fun entry entry' ↦ entry.1 ≠ entry'.1 := by
    refine Std.ExtTreeMap.distinct_keys_toList.imp ?_
    intro entry entry' hne heq
    exact hne (Std.LawfulEqCmp.compare_eq_iff_eq.2 heq)
  have hnodup : self.rememberedClosed.Nodup :=
    (List.pairwise_map.2 hkeys).sublist ((List.filter_sublist).map Prod.fst)
  refine ((List.perm_ext_iff_of_nodup hnodup h.nodup).2 fun session ↦ ?_).length_eq
  rw [h.mem_iff]
  simp [RequestRegistry.rememberedClosed, Std.ExtTreeMap.mem_toList_iff_getElem?_eq_some]

end Queue

/-! ### Accounts -/

/-- What a history of calls says about one session since it was last opened. -/
structure Account where
  /-- The session was opened and is not closed since. -/
  live : Bool
  admitted : List UInt64
  completed : Nat
  /-- The bound that the last admission was made under. -/
  maxInflight : Option UInt32
  deriving DecidableEq

abbrev RequestHistory := List (RequestCall × Except ProtocolErrorCode Unit)

namespace Account

/-- A session that was never opened. -/
def blank : Account := ⟨false, [], 0, none⟩

/-- What a successful call adds. -/
def next (session : SessionId) (self : Account) : RequestCall → Account
  | .open name => if session = name then { blank with live := true } else self
  | .admitRequest name requestId maxInflight =>
    if session = name then
      { self with admitted := self.admitted ++ [requestId], maxInflight := some maxInflight }
    else self
  | .complete name => if session = name then { self with completed := self.completed + 1 } else self
  | .close name _ => if session = name then { self with live := false } else self

/-- The account of a session: refused calls do not count. -/
def ofHistory (session : SessionId) (history : RequestHistory) : Account :=
  history.foldl
    (fun self event ↦
      match event.2 with
      | .ok () => self.next session event.1
      | .error _ => self)
    blank

variable {session : SessionId} {history : RequestHistory} {call : RequestCall}

theorem ofHistory_append_ok : ofHistory session (history ++ [(call, .ok ())]) =
      (ofHistory session history).next session call :=
  List.foldl_append

theorem ofHistory_append_error {error : ProtocolErrorCode} :
    ofHistory session (history ++ [(call, .error error)]) = ofHistory session history :=
  List.foldl_append

end Account

/-- What is stored for a session, if anything is, agrees with its account. -/
structure Agrees (account : Account) (stored : Option SessionState) : Prop where
  live_iff : account.live = true ↔ ∃ state, stored = some state ∧ state.closed = false
  increasing : account.admitted.Pairwise (· < ·)
  nonzero : ∀ requestId ∈ account.admitted, requestId ≠ 0
  last : ∀ state, stored = some state → state.lastRequestId = account.admitted.getLast?
  inflight : ∀ state, stored = some state →
    state.inflight.toNat + account.completed = account.admitted.length
  bounded : ∀ state, stored = some state → ∀ bound ∈ account.maxInflight, state.inflight ≤ bound

namespace Agrees

variable {account : Account} {stored stored' : Option SessionState} {state : SessionState}
  {requestId : UInt64} {maxInflight : UInt32}

theorem blank : Agrees Account.blank none where
  live_iff := by simp [Account.blank]
  increasing := .nil
  nonzero _ h := (List.not_mem_nil h).elim
  last _ h := nomatch h
  inflight _ h := nomatch h
  bounded _ h := nomatch h

theorem «open» : Agrees { Account.blank with live := true }
    (some { lastRequestId := none, inflight := 0, closed := false }) where
  live_iff := ⟨fun _ ↦ ⟨_, rfl, rfl⟩, fun _ ↦ rfl⟩
  increasing := .nil
  nonzero _ h := (List.not_mem_nil h).elim
  last := by
    rintro _ ⟨⟩
    rfl
  inflight := by
    rintro _ ⟨⟩
    rfl
  bounded _ _ _ h := nomatch h

/-- In an increasing list the last element is the greatest. -/
theorem le_of_getLast? {requestIds : List UInt64} {last : UInt64}
    (h : requestIds.Pairwise (· < ·)) (hlast : requestIds.getLast? = some last)
    (hmem : requestId ∈ requestIds) : requestId ≤ last := by
  obtain ⟨before, rfl⟩ := List.getLast?_eq_some_iff.1 hlast
  rcases List.mem_append.1 hmem with hbefore | heq
  · exact UInt64.le_of_lt ((List.pairwise_append.1 h).2.2 _ hbefore _ List.mem_cons_self)
  · rw [List.mem_singleton.1 heq]
    exact UInt64.le_refl _

section

variable (h : Agrees account (some state))

include h

/-- **An admitted identifier is above all earlier ones**: it is above the last. -/
theorem admitRequest (hopen : state.closed = false)
    (hne : requestId ≠ 0) (hlast : ∀ last ∈ state.lastRequestId, last < requestId)
    (hlt : state.inflight < maxInflight) :
    Agrees
      { account with admitted := account.admitted ++ [requestId], maxInflight := some maxInflight }
      (some { state with lastRequestId := some requestId, inflight := state.inflight + 1 }) := by
  have hsucc : (state.inflight + 1).toNat = state.inflight.toNat + 1 := by
    have := lt_iff_toNat_lt.1 hlt
    have := maxInflight.toNat_lt
    rw [toNat_add]
    exact Nat.mod_eq_of_lt (by show state.inflight.toNat + 1 < 2 ^ 32; omega)
  constructor
  case live_iff =>
    exact ⟨fun _ ↦ ⟨_, rfl, hopen⟩, fun _ ↦ h.live_iff.2 ⟨state, rfl, hopen⟩⟩
  case increasing =>
    refine List.pairwise_append.2 ⟨h.increasing, List.pairwise_singleton _ _, ?_⟩
    intro earlier hearlier _ hid
    rw [List.mem_singleton.1 hid]
    obtain ⟨last, hgetLast⟩ := Option.isSome_iff_exists.1
      (List.getLast?_isSome.2 (List.ne_nil_of_mem hearlier))
    exact UInt64.lt_of_le_of_lt (le_of_getLast? h.increasing hgetLast hearlier)
      (hlast last (by rw [h.last state rfl, hgetLast]; rfl))
  case nonzero =>
    intro id hid
    rcases List.mem_append.1 hid with hearlier | heq
    · exact h.nonzero id hearlier
    · rwa [List.mem_singleton.1 heq]
  case last =>
    rintro _ ⟨⟩
    exact List.getLast?_concat.symm
  case inflight =>
    rintro _ ⟨⟩
    have := h.inflight state rfl
    rw [List.length_append, List.length_singleton]
    show (state.inflight + 1).toNat + account.completed = _
    omega
  case bounded =>
    rintro _ ⟨⟩ bound ⟨⟩
    rw [le_iff_toNat_le, hsucc]
    exact lt_iff_toNat_lt.1 hlt

theorem complete (hne : state.inflight ≠ 0) :
    Agrees { account with completed := account.completed + 1 }
      (some { state with inflight := state.inflight - 1 }) := by
  have hpos : 1 ≤ state.inflight := by
    rw [le_iff_toNat_le]
    have hzero : state.inflight.toNat ≠ 0 := fun heq ↦ hne (toNat_inj.1 heq)
    show 1 ≤ state.inflight.toNat
    omega
  have hpred : (state.inflight - 1).toNat = state.inflight.toNat - 1 :=
    UInt32.toNat_sub_of_le _ _ hpos
  have hle := le_iff_toNat_le.1 hpos
  constructor
  case live_iff =>
    refine h.live_iff.trans ?_
    simp only [Option.some.injEq, exists_eq_left']
  case increasing => exact h.increasing
  case nonzero => exact h.nonzero
  case last =>
    rintro _ ⟨⟩
    exact h.last state rfl
  case inflight =>
    rintro _ ⟨⟩
    have := h.inflight state rfl
    show (state.inflight - 1).toNat + (account.completed + 1) = account.admitted.length
    have : (1 : UInt32).toNat = 1 := rfl
    omega
  case bounded =>
    rintro _ ⟨⟩ bound hbound
    have := le_iff_toNat_le.1 (h.bounded state rfl bound hbound)
    rw [le_iff_toNat_le]
    show (state.inflight - 1).toNat ≤ bound.toNat
    omega

theorem close : Agrees { account with live := false } (some { state with closed := true }) where
  live_iff := by simp
  increasing := h.increasing
  nonzero := h.nonzero
  last := by
    rintro _ ⟨⟩
    exact h.last state rfl
  inflight := by
    rintro _ ⟨⟩
    exact h.inflight state rfl
  bounded := by
    rintro _ ⟨⟩
    exact h.bounded state rfl

end

/-- A session that is not open may be forgotten. -/
theorem of_forget (h : Agrees account stored)
    (hbefore : ∀ state, stored' = some state → stored = some state)
    (hopen : ∀ state, stored = some state → state.closed = false → stored' = some state) :
    Agrees account stored' where
  live_iff := h.live_iff.trans
    ⟨fun ⟨state, hstate, hfalse⟩ ↦ ⟨state, hopen state hstate hfalse, hfalse⟩,
      fun ⟨state, hstate, hfalse⟩ ↦ ⟨state, hbefore state hstate, hfalse⟩⟩
  increasing := h.increasing
  nonzero := h.nonzero
  last state hstate := h.last state (hbefore state hstate)
  inflight state hstate := h.inflight state (hbefore state hstate)
  bounded state hstate := h.bounded state (hbefore state hstate)

end Agrees

/-- The registry agrees with the account of every session, and so does its queue. -/
structure Accounted (history : RequestHistory) (registry : RequestRegistry) : Prop where
  /-- In particular an open session is not forgotten. -/
  agrees : ∀ session, Agrees (Account.ofHistory session history) registry.sessions[session]?
  remembers : Remembers registry.sessions registry.closeOrder
  closedNames_eq : registry.closedNames.toNat = registry.closeOrder.length
  rememberedClosed_eq : registry.closedNames.toNat = registry.rememberedClosed.length
  closed_le : ∀ session maxRemembered,
    history.getLast? = some (.close session maxRemembered, .ok ()) →
      registry.closedNames ≤ maxRemembered

/-- The call does not close an open session while the counter of closed names is full. -/
def Fits (registry : RequestRegistry) : RequestCall → Prop
  | .close session _ => registry.isOpen session = true → registry.closedNames ≠ u32Max
  | _ => True

namespace Accounted

variable {history : RequestHistory} {registry registry' : RequestRegistry} {call : RequestCall}
  {session : SessionId} {maxRemembered : UInt32}

theorem start : Accounted [] RequestRegistry.new where
  agrees session := by
    rw [show RequestRegistry.new.sessions[session]? = none from Std.ExtTreeMap.getElem?_empty]
    exact Agrees.blank
  remembers :=
    { nodup := List.nodup_nil
      mem_iff := fun session ↦ by simp [RequestRegistry.new] }
  closedNames_eq := rfl
  rememberedClosed_eq := rfl
  closed_le _ _ h := nomatch h

section

variable (h : Accounted history registry)

include h

theorem refused (error : ProtocolErrorCode) :
    Accounted (history ++ [(call, .error error)]) registry where
  agrees session := by
    rw [Account.ofHistory_append_error]
    exact h.agrees session
  remembers := h.remembers
  closedNames_eq := h.closedNames_eq
  rememberedClosed_eq := h.rememberedClosed_eq
  closed_le _ _ hlast := by
    rw [List.getLast?_concat] at hlast
    cases hlast

/-- A call that writes one session and does not touch the queue. -/
theorem write {state : SessionState}
    (hcall : ∀ other account, other ≠ session → Account.next other account call = account)
    (hagrees : Agrees ((Account.ofHistory session history).next session call) (some state))
    (hclosed : state.closed = true ↔
      ∃ state', registry.sessions[session]? = some state' ∧ state'.closed = true)
    (hkind : ∀ name maxRemembered, call ≠ .close name maxRemembered) :
    Accounted (history ++ [(call, .ok ())]) (registry.write session state) := by
  have hremembers := h.remembers.insert hclosed
  refine ⟨?_, hremembers, h.closedNames_eq, ?_, ?_⟩
  · intro other
    rw [Account.ofHistory_append_ok]
    show Agrees _ (registry.sessions.insert session state)[other]?
    rw [OrderedMap.getElem?_insert]
    by_cases hother : other = session
    · rw [if_pos hother, hother]
      exact hagrees
    · rw [if_neg hother, hcall other _ hother]
      exact h.agrees other
  · refine h.closedNames_eq.trans (Eq.symm ?_)
    exact Remembers.length_rememberedClosed (registry.write session state) hremembers
  · intro name maxRemembered hlast
    rw [List.getLast?_concat] at hlast
    obtain ⟨rfl, -⟩ := Prod.mk.inj (Option.some.inj hlast)
    exact absurd rfl (hkind name maxRemembered)

theorem «open» (hrun : RequestRegistry.open session registry = (.ok (), registry')) :
    Accounted (history ++ [(.open session, .ok ())]) registry' := by
  obtain ⟨hfresh, rfl⟩ := RequestRegistry.open_eq_ok.1 hrun
  refine h.write (fun other account hother ↦ if_neg hother) ?_ ?_ (fun _ _ ↦ nofun)
  · rw [Account.next, if_pos rfl]
    exact Agrees.open
  · simp [hfresh]

theorem admitRequest {requestId : UInt64} {maxInflight : UInt32}
    (hrun : RequestRegistry.admitRequest session requestId maxInflight registry =
      (.ok (), registry')) :
    Accounted (history ++ [(.admitRequest session requestId maxInflight, .ok ())]) registry' := by
  obtain ⟨state, hstate, hopen, hne, hlast, hlt, rfl⟩ := RequestRegistry.admitRequest_eq_ok.1 hrun
  refine h.write (fun other account hother ↦ if_neg hother) ?_ ?_ (fun _ _ ↦ nofun)
  · rw [Account.next, if_pos rfl]
    exact (hstate ▸ h.agrees session).admitRequest hopen hne hlast hlt
  · simp [hstate]

theorem complete (hrun : RequestRegistry.complete session registry = (.ok (), registry')) :
    Accounted (history ++ [(.complete session, .ok ())]) registry' := by
  obtain ⟨state, hstate, hne, rfl⟩ := RequestRegistry.complete_eq_ok.1 hrun
  refine h.write (fun other account hother ↦ if_neg hother) ?_ ?_ (fun _ _ ↦ nofun)
  · rw [Account.next, if_pos rfl]
    exact (hstate ▸ h.agrees session).complete hne
  · simp [hstate]

theorem close (hfits : registry.closedNames ≠ u32Max)
    (hrun : RequestRegistry.close session maxRemembered registry = (.ok (), registry')) :
    Accounted (history ++ [(.close session maxRemembered, .ok ())]) registry' := by
  obtain ⟨state, hstate, hopen, rfl⟩ := RequestRegistry.close_eq_ok.1 hrun
  have hremembers := (h.remembers.append hstate hopen).forget maxRemembered
    (saturatingSucc registry.closedNames)
  set closed := RequestRegistry.forget maxRemembered
    (registry.sessions.insert session { state with closed := true })
    (registry.closeOrder ++ [session]) (saturatingSucc registry.closedNames)
  have hlength : closed.closeOrder.length = closed.closedNames.toNat + 0 := by
    refine length_forget ?_
    rw [toNat_saturatingSucc hfits, List.length_append, h.closedNames_eq]
    rfl
  refine ⟨?_, hremembers, hlength.symm, ?_, ?_⟩
  · intro other
    rw [Account.ofHistory_append_ok]
    -- first the write, then the loop
    have hwritten : Agrees ((Account.ofHistory other history).next other
        (.close session maxRemembered))
        (registry.sessions.insert session { state with closed := true })[other]? := by
      rw [OrderedMap.getElem?_insert, Account.next]
      by_cases hother : other = session
      · rw [if_pos hother, if_pos hother, hother]
        exact (hstate ▸ h.agrees session).close
      · rw [if_neg hother, if_neg hother]
        exact h.agrees other
    exact hwritten.of_forget (fun _ ↦ getElem?_of_forget) fun _ ↦ getElem?_forget_of_open
  · exact hlength.symm.trans (Remembers.length_rememberedClosed closed hremembers).symm
  · intro name bound hlast
    rw [List.getLast?_concat] at hlast
    obtain ⟨⟨⟩, -⟩ := Prod.mk.inj (Option.some.inj hlast)
    exact closedNames_forget_le

/-- **One call keeps the accounts.** -/
theorem run (hfits : Fits registry call) :
    Accounted (history ++ [(call, (call.run registry).1)]) (call.run registry).2 := by
  rcases hrun : call.run registry with ⟨error | ⟨⟩, registry'⟩
  · obtain rfl := call.run_restores _ _ _ hrun
    exact h.refused error
  cases call with
  | «open» session => exact h.open hrun
  | admitRequest session requestId maxInflight => exact h.admitRequest hrun
  | complete session => exact h.complete hrun
  | close session maxRemembered =>
    refine h.close (hfits ?_) hrun
    obtain ⟨state, hstate, hopen, -⟩ := RequestRegistry.close_eq_ok.1 hrun
    rw [RequestRegistry.isOpen, hstate, Option.any_some, hopen]
    rfl

/-- **With a full counter the queue outgrows it.** -/
theorem length_closeOrder_of_full
    (hfull : registry.closedNames = u32Max) (hopen : registry.isOpen session = true)
    (maxRemembered : UInt32) :
    ((RequestRegistry.close session maxRemembered registry).2).closeOrder.length =
      ((RequestRegistry.close session maxRemembered registry).2).closedNames.toNat + 1 := by
  obtain ⟨state, hstate, hnot⟩ := Option.any_eq_true .. |>.1 hopen
  have hrun : RequestRegistry.close session maxRemembered registry = (.ok (), _) :=
    RequestRegistry.close_eq_ok.2 ⟨state, hstate, by simpa using hnot, rfl⟩
  rw [hrun]
  refine length_forget ?_
  rw [saturatingSucc, if_pos hfull, List.length_append, h.closedNames_eq]
  rfl

end

end Accounted

/-! ### Runs -/

section Runs

variable {calls : List RequestCall}

/-- **A run keeps the accounts as long as its calls fit, and no longer.** -/
theorem accounted_iff_admitted : Operation.Admitted Fits RequestCall.run calls RequestRegistry.new ↔
      ∀ past, past <+: calls → Accounted
        (Operation.history RequestCall.run past RequestRegistry.new)
        (after RequestCall.run past RequestRegistry.new) := by
  constructor
  · rintro hadmitted past ⟨rest, rfl⟩
    exact Operation.invariant_of_admitted (Operation.admitted_append.1 hadmitted).1
      Accounted.start fun _ _ _ hpast hfits ↦ hpast.run hfits
  · intro h
    induction calls using List.reverseRecOn with
    | nil => trivial
    | append_singleton calls call ih =>
      refine Operation.admitted_append.2
        ⟨ih fun past hpast ↦ h past (hpast.trans (List.prefix_append _ _)), ?_, trivial⟩
      have hbefore := h calls (List.prefix_append _ _)
      have hafter := h _ (List.prefix_refl _)
      rw [after_append, Operation.history_append] at hafter
      cases call with
      | «open» session => trivial
      | admitRequest session requestId maxInflight => trivial
      | complete session => trivial
      | close session maxRemembered =>
        intro hopen hfull
        -- the queue would be one longer than the counter says
        have hsurplus := hbefore.length_closeOrder_of_full hfull hopen maxRemembered
        exact absurd hafter.closedNames_eq.symm (hsurplus ▸ Nat.succ_ne_self _)

end Runs

/-! ### A run that fills the counter -/

/-- The session with number `i`. -/
def sessionAt (i : Nat) : SessionId := ⟨BigEndian.bytes 32 i, BigEndian.length_bytes 32 i⟩

/-- So many sessions are opened and closed, one after the other, and none is to be forgotten. -/
def rounds (n : Nat) : List RequestCall :=
  (List.range n).flatMap fun i ↦ [.open (sessionAt i), .close (sessionAt i) u32Max]

theorem sessionAt_inj {i j : Nat} (hi : i < 256 ^ 32) (hj : j < 256 ^ 32)
    (h : sessionAt i = sessionAt j) : i = j := by
  have hvalue := congrArg (fun id : SessionId ↦ BigEndian.value id.bytes) h
  simp only [sessionAt, BigEndian.value_bytes] at hvalue
  rwa [Nat.mod_eq_of_lt hi, Nat.mod_eq_of_lt hj] at hvalue

theorem forget_u32Max {sessions : Std.ExtTreeMap SessionId SessionState}
    {closeOrder : List SessionId} {closedNames : UInt32} :
    RequestRegistry.forget u32Max sessions closeOrder closedNames =
      ⟨sessions, closeOrder, closedNames⟩ := by
  have hnot : ¬ u32Max < closedNames := by
    rw [lt_iff_toNat_lt]
    have := closedNames.toNat_lt
    show ¬ 4294967295 < closedNames.toNat
    omega
  cases closeOrder with
  | nil => exact if_neg hnot
  | cons _ _ => exact if_neg hnot

/-- Each round puts one name into the queue, and later names are still unknown. -/
theorem after_rounds {n : Nat} (hn : n ≤ 256 ^ 32) :
    (after RequestCall.run (rounds n) RequestRegistry.new).closeOrder.length = n ∧
      ∀ i, n ≤ i → i < 256 ^ 32 → (after RequestCall.run (rounds n)
        RequestRegistry.new).sessions[sessionAt i]? = none := by
  induction n with
  | zero => exact ⟨rfl, fun _ _ _ ↦ Std.ExtTreeMap.getElem?_empty⟩
  | succ n ih =>
    obtain ⟨hlength, hfresh⟩ := ih (by omega)
    set registry := after RequestCall.run (rounds n) RequestRegistry.new with hregistry
    have hopen : RequestRegistry.open (sessionAt n) registry = (.ok (), _) :=
      RequestRegistry.open_eq_ok.2 ⟨hfresh n le_rfl (by omega), rfl⟩
    have hclose : RequestRegistry.close (sessionAt n) u32Max (registry.write (sessionAt n)
        { lastRequestId := none, inflight := 0, closed := false }) = (.ok (), _) :=
      RequestRegistry.close_eq_ok.2
        ⟨_, by rw [RequestRegistry.write, OrderedMap.getElem?_insert, if_pos rfl], rfl, rfl⟩
    have hround : after RequestCall.run (rounds (n + 1)) RequestRegistry.new =
        ⟨(registry.sessions.insert (sessionAt n) ⟨none, 0, false⟩).insert (sessionAt n)
          ⟨none, 0, true⟩, registry.closeOrder ++ [sessionAt n],
          saturatingSucc registry.closedNames⟩ := by
      rw [rounds, List.range_succ, List.flatMap_append, after_append]
      show (RequestRegistry.close (sessionAt n) u32Max
        (RequestRegistry.open (sessionAt n) registry).2).2 = _
      rw [hopen, hclose]
      exact forget_u32Max
    rw [hround]
    refine ⟨by rw [List.length_append, hlength]; rfl, fun i hle hlt ↦ ?_⟩
    have hne : sessionAt i ≠ sessionAt n := fun heq ↦ by
      have := sessionAt_inj hlt (by omega) heq
      omega
    show ((registry.sessions.insert _ _).insert _ _)[sessionAt i]? = none
    rw [OrderedMap.getElem?_insert, if_neg hne, OrderedMap.getElem?_insert, if_neg hne]
    exact hfresh i (by omega) hlt

/-- After `2 ^ 32` rounds the queue is longer than any counter of 32 bits can say. -/
theorem not_accounted_rounds :
    ¬ ∀ requests past, past <+: requests → Accounted
      (Operation.history RequestCall.run past RequestRegistry.new)
      (Operation.after RequestCall.run past RequestRegistry.new) := by
  intro h
  have heq := (h (rounds (2 ^ 32)) (rounds (2 ^ 32)) (List.prefix_refl _)).closedNames_eq
  have hlength := (after_rounds (n := 2 ^ 32) (by norm_num)).1
  have hlt := (Operation.after RequestCall.run (rounds (2 ^ 32))
    RequestRegistry.new).closedNames.toNat_lt
  omega

end Sley.Protocol
