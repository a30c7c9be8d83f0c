import Mathlib
import Sley.Policy.Capability

/-!
# What capabilities may spend

Runs of charges against one ledger (`sley-policy/src/lib.rs`, `CapabilityLedger::charge` and
`verify_and_charge_capability`). **A call is a pure outcome and a record of it**: the outcome reads
only what was spent for the token and whether the nonce was used, and only a success is recorded
(`CapabilityCall.run_eq`). Everything about runs follows from this, by the invariant `Spending`.

Digests are assumed free of collisions on the tokens considered, nothing more.
-/

namespace Sley.Policy

open Scb1 Ssmc
open CapabilityError (capability)
open Except (bind_eq_ok ofOption ok_bind rejectIf)
open Id (splat)

/-! ### Arithmetic in six dimensions -/

theorem checkedAdd_eq_some {a b c : UInt64} :
    checkedAdd a b = some c ↔ c.toNat = a.toNat + b.toNat := by
  rw [checkedAdd, Option.ite_none_right_eq_some, Option.some.injEq, ← UInt64.toNat_inj]
  have := c.toNat_lt
  constructor
  · rintro ⟨hlt, hc⟩
    rw [← hc, UInt64.toNat_add, Nat.mod_eq_of_lt hlt]
  · intro hc
    have hlt : a.toNat + b.toNat < 2 ^ 64 := by omega
    exact ⟨hlt, by rw [UInt64.toNat_add, Nat.mod_eq_of_lt hlt, hc]⟩

theorem checkedSub_eq_some {a b c : UInt64} :
    checkedSub a b = some c ↔ c.toNat + b.toNat = a.toNat := by
  rw [checkedSub, Option.ite_none_right_eq_some, Option.some.injEq, ← UInt64.toNat_inj,
    UInt64.le_iff_toNat_le]
  constructor
  · rintro ⟨hle, hc⟩
    rw [← hc, UInt64.toNat_sub_of_le _ _ (UInt64.le_iff_toNat_le.2 hle)]
    omega
  · intro hc
    have hle : b.toNat ≤ a.toNat := by omega
    refine ⟨hle, ?_⟩
    rw [UInt64.toNat_sub_of_le _ _ (UInt64.le_iff_toNat_le.2 hle)]
    omega

/-- The dimensions of a budget. -/
inductive Resource
  | fuel
  | memoryBytes
  | outputBytes
  | effectCount
  | mutationCount
  | adapterCalls
  deriving DecidableEq, Repr

theorem Resource.forall_iff {P : Resource → Prop} :
    (∀ resource, P resource) ↔ P fuel ∧ P memoryBytes ∧ P outputBytes ∧ P effectCount ∧
      P mutationCount ∧ P adapterCalls := by
  constructor
  · intro h
    exact ⟨h _, h _, h _, h _, h _, h _⟩
  · rintro ⟨_, _, _, _, _, _⟩ (_ | _) <;> assumption

namespace CapabilityResourceBudget

variable {a b c : CapabilityResourceBudget}

/-- What a budget says in one dimension. -/
def amount (self : CapabilityResourceBudget) : Resource → Nat
  | .fuel => self.maxFuel.toNat
  | .memoryBytes => self.maxMemoryBytes.toNat
  | .outputBytes => self.maxOutputBytes.toNat
  | .effectCount => self.maxEffectCount.toNat
  | .mutationCount => self.maxMutationCount.toNat
  | .adapterCalls => self.maxAdapterCalls.toNat

@[simp]
theorem amount_zero (resource : Resource) : zero.amount resource = 0 := by
  cases resource <;> rfl

theorem checkedAdd_eq_some : a.checkedAdd b = some c ↔
      ∀ resource, c.amount resource = a.amount resource + b.amount resource := by
  cases c
  simp only [checkedAdd, Option.bind_eq_bind, Option.bind_eq_some_iff, Option.pure_def,
    Option.some.injEq, mk.injEq, Policy.checkedAdd_eq_some, Resource.forall_iff, amount]
  constructor
  · rintro ⟨_, h₁, _, h₂, _, h₃, _, h₄, _, h₅, _, h₆, rfl, rfl, rfl, rfl, rfl, rfl⟩
    exact ⟨h₁, h₂, h₃, h₄, h₅, h₆⟩
  · rintro ⟨h₁, h₂, h₃, h₄, h₅, h₆⟩
    exact ⟨_, h₁, _, h₂, _, h₃, _, h₄, _, h₅, _, h₆, rfl, rfl, rfl, rfl, rfl, rfl⟩

theorem checkedSub_eq_some : a.checkedSub b = some c ↔
      ∀ resource, c.amount resource + b.amount resource = a.amount resource := by
  cases c
  simp only [checkedSub, Option.bind_eq_bind, Option.bind_eq_some_iff, Option.pure_def,
    Option.some.injEq, mk.injEq, Policy.checkedSub_eq_some, Resource.forall_iff, amount]
  constructor
  · rintro ⟨_, h₁, _, h₂, _, h₃, _, h₄, _, h₅, _, h₆, rfl, rfl, rfl, rfl, rfl, rfl⟩
    exact ⟨h₁, h₂, h₃, h₄, h₅, h₆⟩
  · rintro ⟨h₁, h₂, h₃, h₄, h₅, h₆⟩
    exact ⟨_, h₁, _, h₂, _, h₃, _, h₄, _, h₅, _, h₆, rfl, rfl, rfl, rfl, rfl, rfl⟩

theorem fitsWithin_iff :
    a.fitsWithin b = true ↔ ∀ resource, a.amount resource ≤ b.amount resource := by
  simp only [fitsWithin, Bool.and_eq_true, decide_eq_true_eq, UInt64.le_iff_toNat_le,
    Resource.forall_iff, amount, and_assoc]

end CapabilityResourceBudget

/-! ### One charge -/

section

variable [Blake3]

/-- What comes of a charge, given what was spent and whether the nonce was used. -/
def chargeOutcome (token : CapabilityToken) (useNonce : CapabilityUseNonce)
    (amount spentBefore : CapabilityResourceBudget) (used : Bool) :
    Except CapabilityError CapabilityChargeReceipt := do
  amount.validateNonzero.mapError .capability
  rejectIf (used = true) (.capability .replay)
  let spentAfter ←
    ofOption (.capability .ledgerExhausted) (spentBefore.checkedAdd amount)
  rejectIf (¬ spentAfter.fitsWithin token.body.budget) (.capability .ledgerExhausted)
  let remainingAfter ← ofOption (.capability .internalInvariant)
    (token.body.budget.checkedSub spentAfter)
  return { tokenDigest := token.digest, useNonce, charged := amount, spentAfter, remainingAfter }

/-- The two writes of a successful charge. -/
def CapabilityLedger.record (self : CapabilityLedger) (receipt : CapabilityChargeReceipt) :
    CapabilityLedger where
  spentByToken := self.spentByToken.insert receipt.tokenDigest receipt.spentAfter
  useNonces := self.useNonces.insert (receipt.tokenDigest, receipt.useNonce)

/-- An outcome and the ledger it leaves: only a success is recorded. -/
def CapabilityLedger.settle (self : CapabilityLedger) :
    Except CapabilityError CapabilityChargeReceipt →
      Except CapabilityError CapabilityChargeReceipt × CapabilityLedger
  | .error error => (.error error, self)
  | .ok receipt => (.ok receipt, self.record receipt)

variable {token : CapabilityToken} {useNonce : CapabilityUseNonce}
  {amount spentBefore : CapabilityResourceBudget} {used : Bool} {ledger : CapabilityLedger}

theorem CapabilityLedger.charge_eq : charge token useNonce amount ledger =
      ledger.settle (chargeOutcome token useNonce amount (ledger.spent token.digest)
        (ledger.hasUseNonce token.digest useNonce)) := by
  -- both sides stop at the same check, with the ledger as it was
  simp only [charge, chargeOutcome, Operation.ofExcept_bind, Operation.ofState_bind]
  rcases amount.validateNonzero.mapError capability with _ | _
  · rfl
  rcases rejectIf (ledger.hasUseNonce token.digest useNonce = true)
    (capability .replay) with _ | _
  · rfl
  rcases ofOption (capability .ledgerExhausted)
    ((ledger.spent token.digest).checkedAdd amount) with _ | spentAfter
  · rfl
  rcases hfits : rejectIf (¬ spentAfter.fitsWithin token.body.budget)
    (capability .ledgerExhausted) with _ | _
  · simp only [ok_bind, hfits]
    rfl
  rcases hrest : ofOption (capability .internalInvariant)
    (token.body.budget.checkedSub spentAfter) with _ | _
  · simp only [ok_bind, hfits, hrest]
    rfl
  · simp only [ok_bind, hfits, hrest]
    rfl

/-- What a receipt attests. -/
structure Balances (token : CapabilityToken) (useNonce : CapabilityUseNonce)
    (amount spentBefore : CapabilityResourceBudget) (receipt : CapabilityChargeReceipt) :
    Prop where
  tokenDigest : receipt.tokenDigest = token.digest
  useNonce : receipt.useNonce = useNonce
  charged : receipt.charged = amount
  spentAfter : ∀ resource, receipt.spentAfter.amount resource =
    spentBefore.amount resource + amount.amount resource
  remainingAfter : ∀ resource, receipt.spentAfter.amount resource +
    receipt.remainingAfter.amount resource = token.body.budget.amount resource

theorem chargeOutcome_balances {receipt : CapabilityChargeReceipt}
    (h : chargeOutcome token useNonce amount spentBefore used = .ok receipt) :
    used = false ∧ Balances token useNonce amount spentBefore receipt := by
  simp only [chargeOutcome, bind_eq_ok, Except.rejectIf_eq_ok, Except.ofOption_eq_ok,
    Except.pure_eq_ok, CapabilityResourceBudget.checkedAdd_eq_some,
    CapabilityResourceBudget.checkedSub_eq_some] at h
  obtain ⟨_, -, _, hused, spentAfter, hadd, _, -, remainingAfter, hsub, rfl⟩ := h
  refine ⟨by simpa using hused, rfl, rfl, rfl, hadd, fun resource ↦ ?_⟩
  rw [Nat.add_comm]
  exact hsub resource

end

/-! ### Calls -/

section

variable [Blake3] [KeyedBlake3]

/-- The two ways to charge a ledger. -/
inductive CapabilityCall
  | charge (token : CapabilityToken) (useNonce : CapabilityUseNonce)
      (amount : CapabilityResourceBudget)
  | verifyAndCharge (policy : GrantingPolicyRoot) (token : CapabilityToken)
      (trustedKey : CapabilityTrustedKey) (request : CapabilityVerificationRequest)
      (useNonce : CapabilityUseNonce)

namespace CapabilityCall

def token : CapabilityCall → CapabilityToken
  | charge token _ _ => token
  | verifyAndCharge _ token _ _ _ => token

def useNonce : CapabilityCall → CapabilityUseNonce
  | charge _ useNonce _ => useNonce
  | verifyAndCharge _ _ _ _ useNonce => useNonce

def amount : CapabilityCall → CapabilityResourceBudget
  | charge _ _ amount => amount
  | verifyAndCharge _ _ _ request _ => request.requiredBudget

/-- Make the call. -/
def run : CapabilityCall → Operation CapabilityLedger CapabilityError CapabilityChargeReceipt
  | charge token useNonce amount => CapabilityLedger.charge token useNonce amount
  | verifyAndCharge policy token trustedKey request useNonce =>
    verifyAndChargeCapability policy token trustedKey request useNonce

/-- What is checked before the ledger is read. -/
def precheck : CapabilityCall → Except CapabilityError Unit
  | charge _ _ _ => .ok ()
  | verifyAndCharge policy token trustedKey request _ => do
    let _ ← verifyCapabilityToken policy token trustedKey request

/-- What comes of a call, given what was spent and whether the nonce was used. -/
def outcome (call : CapabilityCall) (spentBefore : CapabilityResourceBudget) (used : Bool) :
    Except CapabilityError CapabilityChargeReceipt := do
  call.precheck
  chargeOutcome call.token call.useNonce call.amount spentBefore used

variable {call other : CapabilityCall} {ledger ledger' : CapabilityLedger}
  {receipt : CapabilityChargeReceipt}

/-- **A call is an outcome that is recorded when it is a success.** -/
theorem run_eq (call : CapabilityCall) (ledger : CapabilityLedger) :
    call.run ledger = ledger.settle (call.outcome (ledger.spent call.token.digest)
      (ledger.hasUseNonce call.token.digest call.useNonce)) := by
  cases call with
  | charge token useNonce amount => exact CapabilityLedger.charge_eq
  | verifyAndCharge policy token trustedKey request useNonce =>
    simp only [run, verifyAndChargeCapability, outcome, precheck, Operation.ofExcept_bind]
    rcases verifyCapabilityToken policy token trustedKey request with _ | _
    · rfl
    · exact CapabilityLedger.charge_eq

/-- A refused call leaves the ledger exactly as it was. -/
theorem run_restores (call : CapabilityCall) : call.run.Restores := by
  intro ledger error ledger' h
  rw [run_eq] at h
  cases houtcome : call.outcome (ledger.spent call.token.digest)
    (ledger.hasUseNonce call.token.digest call.useNonce) with
  | error _ =>
    rw [houtcome] at h
    exact (Prod.mk.inj h).2.symm
  | ok _ =>
    rw [houtcome] at h
    cases (Prod.mk.inj h).1

/-- What a successful call did. -/
theorem run_eq_ok (h : call.run ledger = (.ok receipt, ledger')) :
    ledger.hasUseNonce call.token.digest call.useNonce = false ∧
      Balances call.token call.useNonce call.amount (ledger.spent call.token.digest) receipt ∧
      ledger' = ledger.record receipt := by
  rw [run_eq] at h
  cases houtcome : call.outcome (ledger.spent call.token.digest)
    (ledger.hasUseNonce call.token.digest call.useNonce) with
  | error _ =>
    rw [houtcome] at h
    cases (Prod.mk.inj h).1
  | ok receipt' =>
    rw [houtcome] at h
    obtain ⟨hreceipt, rfl⟩ := Prod.mk.inj h
    obtain rfl := Except.ok.inj hreceipt
    obtain ⟨_, -, hcharge⟩ := bind_eq_ok.1 houtcome
    obtain ⟨hused, hbalances⟩ := chargeOutcome_balances hcharge
    exact ⟨hused, hbalances, rfl⟩

end CapabilityCall

/-! ### The ledger after a record -/

section Record

variable {ledger : CapabilityLedger} {receipt receipt' : CapabilityChargeReceipt}
  {tokenDigest : CapabilityTokenDigest} {useNonce : CapabilityUseNonce}

omit [Blake3] [KeyedBlake3]

theorem CapabilityLedger.spent_record : (ledger.record receipt).spent tokenDigest =
    if tokenDigest = receipt.tokenDigest then receipt.spentAfter else ledger.spent tokenDigest := by
  simp only [spent, record, OrderedMap.getElem?_insert]
  split <;> rfl

theorem CapabilityLedger.hasUseNonce_iff :
    ledger.hasUseNonce tokenDigest useNonce = true ↔ (tokenDigest, useNonce) ∈ ledger.useNonces :=
  Std.ExtTreeSet.contains_iff_mem

theorem CapabilityLedger.hasUseNonce_record :
    (ledger.record receipt).hasUseNonce tokenDigest useNonce = true ↔
      (tokenDigest = receipt.tokenDigest ∧ useNonce = receipt.useNonce) ∨
        ledger.hasUseNonce tokenDigest useNonce = true := by
  rw [hasUseNonce_iff, hasUseNonce_iff, record, OrderedSet.mem_insert, Prod.mk.injEq]

/-- Records under different digests commute. -/
theorem CapabilityLedger.record_comm (h : receipt.tokenDigest ≠ receipt'.tokenDigest) :
    (ledger.record receipt).record receipt' = (ledger.record receipt').record receipt := by
  ext k
  · simp only [record, OrderedMap.getElem?_insert]
    by_cases hk : k = receipt.tokenDigest
    · have hk' : k ≠ receipt'.tokenDigest := hk ▸ h
      simp only [if_pos hk, if_neg hk']
    · simp only [if_neg hk]
  · simp only [record, OrderedSet.mem_insert]
    exact or_left_comm

end Record

/-! ### Runs -/

namespace CapabilityCall

/-- The successful calls of a history. -/
def charged (history : List (CapabilityCall × Except CapabilityError CapabilityChargeReceipt)) :
    List CapabilityCall :=
  history.filterMap fun event ↦ event.2.toOption.map fun _ ↦ event.1

/-- What the charges of a token amount to in one dimension. -/
def total (charges : List CapabilityCall) (token : CapabilityToken) (resource : Resource) : Nat :=
  ((charges.filter fun call ↦ call.token.body = token.body).map
    fun call ↦ call.amount.amount resource).sum

variable {charges : List CapabilityCall} {call : CapabilityCall} {token : CapabilityToken}
  {history : List (CapabilityCall × Except CapabilityError CapabilityChargeReceipt)}

section

omit [KeyedBlake3]

theorem charged_append_ok {receipt : CapabilityChargeReceipt} :
    charged (history ++ [(call, .ok receipt)]) = charged history ++ [call] := by
  rw [charged, List.filterMap_append]
  rfl

theorem charged_append_error {error : CapabilityError} :
    charged (history ++ [(call, .error error)]) = charged history := by
  rw [charged, List.filterMap_append]
  exact List.append_nil _

theorem total_append {resource : Resource} : total (charges ++ [call]) token resource =
    total charges token resource +
      if call.token.body = token.body then call.amount.amount resource else 0 := by
  rw [total, List.filter_append, List.map_append, List.sum_append]
  congr 1
  by_cases h : call.token.body = token.body
  · rw [List.filter_cons_of_pos (by simpa using h), if_pos h]
    simp
  · rw [List.filter_cons_of_neg (by simpa using h), if_neg h]
    rfl

end

end CapabilityCall

omit [KeyedBlake3] in
/-- Tokens with one body have one digest. -/
theorem CapabilityToken.digest_eq_of_body {token token' : CapabilityToken}
    (h : token.body = token'.body) : token.digest = token'.digest := by
  have := token'.digest_eq
  rw [← h, token.digest_eq] at this
  exact Except.ok.inj this

/-- What a ledger says about the charges of a history, for the tokens of `T`. -/
structure Spending (T : Set CapabilityToken)
    (history : List (CapabilityCall × Except CapabilityError CapabilityChargeReceipt))
    (ledger : CapabilityLedger) : Prop where
  spent_eq : ∀ token ∈ T, ∀ resource, (ledger.spent token.digest).amount resource =
    CapabilityCall.total (CapabilityCall.charged history) token resource
  spent_le : ∀ token ∈ T, ∀ resource,
    (ledger.spent token.digest).amount resource ≤ token.body.budget.amount resource
  /-- No token is charged twice with one nonce. -/
  once : ((CapabilityCall.charged history).map fun call ↦ (call.token.body, call.useNonce)).Nodup
  used : ∀ call ∈ CapabilityCall.charged history,
    ledger.hasUseNonce call.token.digest call.useNonce = true
  receipts : ∀ call receipt, (call, Except.ok receipt) ∈ history → ∀ resource,
    receipt.charged = call.amount ∧ receipt.spentAfter.amount resource +
      receipt.remainingAfter.amount resource = call.token.body.budget.amount resource

variable {T : Set CapabilityToken} {ledger ledger' : CapabilityLedger} {call : CapabilityCall}
  {history : List (CapabilityCall × Except CapabilityError CapabilityChargeReceipt)}

section

omit [KeyedBlake3]

theorem Spending.start : Spending T [] CapabilityLedger.new where
  spent_eq token _ resource := CapabilityResourceBudget.amount_zero resource
  spent_le token _ resource := by
    show CapabilityResourceBudget.zero.amount resource ≤ _
    rw [CapabilityResourceBudget.amount_zero]
    exact Nat.zero_le _
  once := List.nodup_nil
  used _ h := (List.not_mem_nil h).elim
  receipts _ _ h := (List.not_mem_nil h).elim

/-- A refusal adds nothing. -/
theorem Spending.refused (h : Spending T history ledger) (error : CapabilityError) :
    Spending T (history ++ [(call, .error error)]) ledger where
  spent_eq := by
    rw [CapabilityCall.charged_append_error]
    exact h.spent_eq
  spent_le := h.spent_le
  once := by
    rw [CapabilityCall.charged_append_error]
    exact h.once
  used := by
    rw [CapabilityCall.charged_append_error]
    exact h.used
  receipts call' receipt hmem := by
    rcases List.mem_append.1 hmem with hold | hnew
    · exact h.receipts call' receipt hold
    · cases List.mem_singleton.1 hnew

end

/-- **A charge adds its amount to its own token**, and its nonce was not used before. -/
theorem Spending.charge (h : Spending T history ledger)
    (hdigest : ∀ token ∈ T, ∀ token' ∈ T, token.digest = token'.digest → token.body = token'.body)
    (hcall : call.token ∈ T) {receipt : CapabilityChargeReceipt}
    (hrun : call.run ledger = (.ok receipt, ledger')) :
    Spending T (history ++ [(call, .ok receipt)]) ledger' := by
  obtain ⟨hfresh, hbalances, rfl⟩ := CapabilityCall.run_eq_ok hrun
  -- a token of `T` is charged exactly when it has the digest of the receipt
  have hsame : ∀ token ∈ T, token.digest = receipt.tokenDigest ↔ call.token.body = token.body := by
    intro token htoken
    rw [hbalances.tokenDigest]
    exact ⟨fun heq ↦ (hdigest token htoken _ hcall heq).symm,
      fun heq ↦ (CapabilityToken.digest_eq_of_body heq).symm⟩
  constructor
  case spent_eq =>
    intro token htoken resource
    rw [CapabilityCall.charged_append_ok, CapabilityCall.total_append,
      CapabilityLedger.spent_record, ← h.spent_eq token htoken]
    by_cases hbody : call.token.body = token.body
    · rw [if_pos hbody, if_pos ((hsame token htoken).2 hbody), hbalances.spentAfter,
        CapabilityToken.digest_eq_of_body hbody]
    · rw [if_neg hbody, if_neg (mt (hsame token htoken).1 hbody), Nat.add_zero]
  case spent_le =>
    intro token htoken resource
    rw [CapabilityLedger.spent_record]
    split
    · rename_i heq
      rw [← (hsame token htoken).1 heq, ← hbalances.remainingAfter resource]
      exact Nat.le_add_right _ _
    · exact h.spent_le token htoken resource
  case once =>
    rw [CapabilityCall.charged_append_ok, List.map_append, List.nodup_append]
    refine ⟨h.once, List.nodup_singleton _, ?_⟩
    intro pair hold pair' hnew heq
    obtain ⟨earlier, hearlier, rfl⟩ := List.mem_map.1 hold
    obtain rfl := List.mem_singleton.1 hnew
    obtain ⟨hbody, hnonce⟩ := Prod.mk.inj heq
    have hused := h.used earlier hearlier
    rw [CapabilityToken.digest_eq_of_body hbody, hnonce, hfresh] at hused
    cases hused
  case used =>
    intro call' hmem
    rw [CapabilityLedger.hasUseNonce_record]
    rw [CapabilityCall.charged_append_ok, List.mem_append, List.mem_singleton] at hmem
    rcases hmem with hold | rfl
    · exact .inr (h.used call' hold)
    · exact .inl ⟨hbalances.tokenDigest.symm, hbalances.useNonce.symm⟩
  case receipts =>
    intro call' receipt' hmem resource
    rcases List.mem_append.1 hmem with hold | hnew
    · exact h.receipts call' receipt' hold resource
    · obtain ⟨rfl, hreceipt⟩ := Prod.mk.inj (List.mem_singleton.1 hnew)
      obtain rfl := Except.ok.inj hreceipt
      exact ⟨hbalances.charged, hbalances.remainingAfter resource⟩

/-! ### Charges to different tokens -/

/-- A call does not see what is recorded under another digest. -/
theorem CapabilityCall.outcome_settle {other : CapabilityCall}
    (hne : call.token.digest ≠ other.token.digest) :
    (call.run (other.run ledger).2).1 = (call.run ledger).1 := by
  rw [CapabilityCall.run_eq other]
  cases houtcome : other.outcome (ledger.spent other.token.digest)
    (ledger.hasUseNonce other.token.digest other.useNonce) with
  | error _ => rfl
  | ok receipt =>
    have hdigest : receipt.tokenDigest = other.token.digest := by
      obtain ⟨_, -, hcharge⟩ := bind_eq_ok.1 houtcome
      exact (chargeOutcome_balances hcharge).2.tokenDigest
    have hspent : (ledger.record receipt).spent call.token.digest =
        ledger.spent call.token.digest := by
      rw [CapabilityLedger.spent_record, if_neg (hdigest ▸ hne)]
    have hused : (ledger.record receipt).hasUseNonce call.token.digest call.useNonce =
        ledger.hasUseNonce call.token.digest call.useNonce := by
      rw [Bool.eq_iff_iff, CapabilityLedger.hasUseNonce_record, hdigest]
      exact or_iff_right fun heq ↦ hne heq.1
    show (call.run (ledger.record receipt)).1 = _
    rw [CapabilityCall.run_eq, CapabilityCall.run_eq, hspent, hused]
    cases call.outcome (ledger.spent call.token.digest)
      (ledger.hasUseNonce call.token.digest call.useNonce) <;> rfl

/-- The ledger a call leaves is settled by its own result. -/
theorem CapabilityCall.settle_run (call : CapabilityCall) (ledger : CapabilityLedger) :
    (call.run ledger).2 = (ledger.settle (call.run ledger).1).2 := by
  rw [CapabilityCall.run_eq]
  cases call.outcome (ledger.spent call.token.digest)
    (ledger.hasUseNonce call.token.digest call.useNonce) <;> rfl

theorem CapabilityCall.tokenDigest_of_run {receipt : CapabilityChargeReceipt}
    (h : (call.run ledger).1 = .ok receipt) : receipt.tokenDigest = call.token.digest :=
  (CapabilityCall.run_eq_ok (Prod.ext h rfl)).2.1.tokenDigest

/-- **Calls with different digests commute.** -/
theorem CapabilityCall.run_comm {other : CapabilityCall}
    (hne : call.token.digest ≠ other.token.digest) :
    (other.run (call.run ledger).2).2 = (call.run (other.run ledger).2).2 := by
  rw [settle_run other, outcome_settle hne.symm, settle_run call ledger,
    settle_run call (other.run ledger).2, outcome_settle hne, settle_run other ledger]
  rcases hcall : (call.run ledger).1 with _ | receipt
  · rfl
  rcases hother : (other.run ledger).1 with _ | receipt'
  · rfl
  refine CapabilityLedger.record_comm ?_
  rw [tokenDigest_of_run hcall, tokenDigest_of_run hother]
  exact hne

/-- **Capability spending is bounded and replay free.** Over the tokens of `T`, on which the digest
is free of collisions, every run from the empty ledger keeps to `Spending`; a refused call changes
nothing; and calls on different tokens commute. -/
theorem capability_spending (T : Set CapabilityToken)
    (hdigest : ∀ token ∈ T, ∀ token' ∈ T, token.digest = token'.digest → token.body = token'.body)
    (calls : List CapabilityCall) (hcalls : ∀ call ∈ calls, call.token ∈ T) :
    Spending T (Operation.history CapabilityCall.run calls CapabilityLedger.new)
        (Operation.after CapabilityCall.run calls CapabilityLedger.new) ∧
      (∀ (call : CapabilityCall) (ledger ledger' : CapabilityLedger) (error : CapabilityError),
        call.run ledger = (.error error, ledger') → ledger' = ledger) ∧
      ∀ (ledger : CapabilityLedger) (call other : CapabilityCall), call.token ∈ T →
        other.token ∈ T → call.token.body ≠ other.token.body →
        Operation.after CapabilityCall.run [call, other] ledger =
            Operation.after CapabilityCall.run [other, call] ledger ∧
          Operation.history CapabilityCall.run [call, other] ledger =
            [(call, (call.run ledger).1), (other, (other.run ledger).1)] := by
  refine ⟨?_, fun call ledger ledger' error h ↦ CapabilityCall.run_restores call _ _ _ h, ?_⟩
  · have hadmitted : Operation.Admitted (fun _ call ↦ call.token ∈ T) CapabilityCall.run calls
        CapabilityLedger.new := Operation.admitted_of_forall hcalls
    refine Operation.invariant_of_admitted hadmitted Spending.start ?_
    intro past ledger call hpast htoken
    rcases hrun : call.run ledger with ⟨error | receipt, ledger'⟩
    · obtain rfl := CapabilityCall.run_restores call _ _ _ hrun
      exact hpast.refused error
    · exact hpast.charge hdigest htoken hrun
  · intro ledger call other hcall hother hbody
    have hne : call.token.digest ≠ other.token.digest :=
      fun heq ↦ hbody (hdigest _ hcall _ hother heq)
    refine ⟨CapabilityCall.run_comm hne, ?_⟩
    show [(call, _), (other, (other.run (call.run ledger).2).1)] = _
    rw [CapabilityCall.outcome_settle hne.symm]

end

/-! ### Two uses of one token -/

@[reducible]
def silentBlake3 : Blake3 := ⟨fun _ ↦ splat 0⟩

@[reducible]
def silentKeyedBlake3 : KeyedBlake3 := ⟨fun _ _ ↦ splat 0⟩

/-- Ten units of fuel and two effects. -/
def smallBudget : CapabilityResourceBudget := ⟨10, 0, 0, 2, 0, 0⟩

def smallBody : CapabilityTokenBody where
  version := 1
  issuerId := splat 1
  keyId := splat 2
  principalId := splat 3
  workspaceId := splat 4
  stateRoot := splat 5
  effectId := splat 6
  effectKindTag := 1
  scopeHash := splat 7
  adapterId := splat 8
  budget := smallBudget
  issuedUnixMillis := 100
  expiryUnixMillis := 200
  tokenNonce := splat 9
  policyRoot := splat 10

theorem bodyDigest_smallBody : letI := silentBlake3
    bodyDigest smallBody = .ok (splat 0) := by
  let _ := silentBlake3
  have hbudget : encodeCapabilityBudget smallBudget = .ok _ :=
    (encodeRecord_eq_ok (by decide)).2 ⟨by decide, by with_unfolding_all decide, rfl⟩
  have hbody : encodeCapabilityBodyRecord smallBody = .ok _ :=
    bind_eq_ok.2 ⟨_, hbudget,
      (encodeRecord_eq_ok (by decide)).2 ⟨by decide, by with_unfolding_all decide, rfl⟩⟩
  refine bind_eq_ok.2 ⟨_, Except.mapError_eq_ok.2 hbody, ?_⟩
  refine bind_eq_ok.2 ⟨_, bind_eq_ok.2 ⟨(), ?_, rfl⟩, rfl⟩
  exact Except.rejectIf_eq_ok.2 (by decide +kernel)

/-- A token of the small body. -/
def smallToken : @CapabilityToken silentBlake3 :=
  let _ := silentBlake3
  { body := smallBody
    digest := splat 0
    authenticator := splat 0
    storedBytes := []
    digest_eq := bodyDigest_smallBody }

/-- A charge of six units of fuel, the same again, and one of four units with a new nonce. -/
def smallCalls : List (@CapabilityCall silentBlake3) :=
  [@CapabilityCall.charge silentBlake3 smallToken (splat 1) ⟨6, 0, 0, 1, 0, 0⟩,
    @CapabilityCall.charge silentBlake3 smallToken (splat 1) ⟨6, 0, 0, 1, 0, 0⟩,
    @CapabilityCall.charge silentBlake3 smallToken (splat 2) ⟨4, 0, 0, 1, 0, 0⟩]

theorem capability_spending_twice :
    letI := silentBlake3
    letI := silentKeyedBlake3
    Spending {smallToken} (Operation.history CapabilityCall.run smallCalls CapabilityLedger.new)
        (Operation.after CapabilityCall.run smallCalls CapabilityLedger.new) ∧
      ((Operation.after CapabilityCall.run smallCalls CapabilityLedger.new).spent
        smallToken.digest).amount .fuel = 10 := by
  let _ := silentBlake3
  let _ := silentKeyedBlake3
  have hdigest : ∀ token ∈ ({smallToken} : Set CapabilityToken),
      ∀ token' ∈ ({smallToken} : Set CapabilityToken),
        token.digest = token'.digest → token.body = token'.body := by
    rintro _ rfl _ rfl _
    rfl
  have hcalls : ∀ call ∈ smallCalls, call.token ∈ ({smallToken} : Set CapabilityToken) := by
    simp [smallCalls, CapabilityCall.token]
  exact ⟨(capability_spending {smallToken} hdigest smallCalls hcalls).1, by decide⟩

end Sley.Policy
