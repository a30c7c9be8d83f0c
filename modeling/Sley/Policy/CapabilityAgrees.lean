import Sley.Policy.Spending
import Sley.Txn.Wire

/-!
# Issued tokens are verified

Issuing and verifying a capability (`sley-policy/src/lib.rs`) look at overlapping conditions in
different orders: issuing checks the body against the policy at the time of issue, verifying checks
it at the time of the request, together with the key, the authenticator, the request and the budget
that it requires.

What both ask of the policy does not depend on the time (`Authorizes`), since a token expires no
later than its policy. **So an issued token is verified exactly by the requests that repeat what was
issued, between the issue and the expiry, and require a part of the budget**, also after it is
imported from its stored bytes; **and every token that is verified is one that is issued**
(`capability_agreement`).
-/

namespace Sley.Policy

open Scb1 Ssmc Root Txn
open Except hiding ok error
open Cursor (new new_rest)
open UInt32 (toNat_inj)

/-! ### Token bytes -/

section Codec

theorem recordFields_numbered {n : Nat} {payloads : List Bytes} (hn : n ≤ payloads.length)
    (hcount : payloads.length ≤ maxRecordFields)
    (hle : ∀ payload ∈ payloads, payload.length ≤ maxStandaloneBytes) :
    Policy.recordFields n (recordBytes payloads) = .ok (numbered 1 payloads) := by
  have hascending : ∀ {tag : Nat} {bound : Option UInt32}, (∀ q ∈ bound, q.toNat < tag) →
      tag + payloads.length ≤ 2 ^ 32 → AscendingFields bound (numbered tag payloads) := by
    clear hn hcount hle
    induction payloads with
    | nil => exact fun _ _ ↦ trivial
    | cons payload payloads ih =>
      intro tag bound hbound hlt
      rw [List.length_cons] at hlt
      have htag : (UInt32.ofNat tag).toNat = tag := by
        rw [UInt32.toNat_ofNat', Nat.mod_eq_of_lt (by omega)]
      refine ⟨fun q hq ↦ ?_, ih (fun q hq ↦ ?_) (by omega)⟩
      · rw [UInt32.lt_iff_toNat_lt, htag]
        exact hbound q hq
      · obtain rfl := Option.mem_some_iff.1 hq
        exact htag.trans_lt (Nat.lt_succ_self tag)
  have hmax : maxRecordFields < 2 ^ 31 := by decide
  have hfields : ∀ f ∈ numbered 1 payloads, f.2.length ≤ maxStandaloneBytes :=
    forall_mem_numbered.2 hle
  simp only [Policy.recordFields, bind_eq_ok, Prod.exists, Reader.readRecordFieldCount_eq_ok,
    rejectIf_eq_ok, exists_const, foldFields_eq_ok, fillFields_collect, List.nil_append,
    Except.ok.injEq, Reader.checkFinished_eq_ok, pure_eq_ok, gt_iff_lt, Nat.not_lt,
    Cursor.remaining_eq]
  obtain ⟨r', hcons, hfin⟩ := Cursor.exists_consumes_of_rest (c := new _)
    (show (new (recordBytes payloads)).rest = _ ++ [] by rw [new_rest, List.append_nil])
  obtain ⟨r, hhead, hcons⟩ := hcons.split
  refine ⟨_, r, ⟨hcount, hhead⟩, hn, ?_, _, r', ⟨numbered 1 payloads, length_numbered 1 _,
    hascending (fun q h ↦ absurd h (Option.not_mem_none q)) (by omega), hfields, hcons, rfl⟩, hfin, rfl⟩
  rw [Nat.le_div_iff_mul_le (by decide), ← length_numbered 1]
  exact (length_flatMap_ge two_le_length_taggedBytes _).trans hcons.length_le

/-- A varint and nothing after it. -/
theorem readUvarWidth_encodeUvar {width : UInt8} {v : UInt64} (h : v.toNat < 2 ^ width.toNat) :
    ∃ r, Reader.readUvarWidth (new (encodeUvar v)) width = .ok (v, r) ∧
      Reader.checkFinished r = .ok () := by
  obtain ⟨r, hcons, hfin⟩ := Cursor.exists_consumes_of_rest (c := new _)
    (show (new (encodeUvar v)).rest = _ ++ [] by rw [new_rest, List.append_nil])
  exact ⟨r, Reader.readUvarWidth_eq_ok.2 ⟨h, hcons⟩, Reader.checkFinished_eq_ok.2 hfin⟩

theorem readCompleteU64_encodeUvar (v : UInt64) : readCompleteU64 (encodeUvar v) = .ok v := by
  obtain ⟨r, hread, hfin⟩ := readUvarWidth_encodeUvar (show v.toNat < 2 ^ (64 : UInt8).toNat from
    v.toNat_lt)
  exact bind_eq_ok.2 ⟨_, hread, bind_eq_ok.2 ⟨(), hfin, rfl⟩⟩

theorem readCompleteU32_encodeUvar (v : UInt32) :
    readCompleteU32 (encodeUvar v.toUInt64) = .ok v := by
  have hlt : v.toUInt64.toNat < 2 ^ (32 : UInt8).toNat := by
    rw [UInt32.toNat_toUInt64]
    exact v.toNat_lt
  obtain ⟨r, hread, hfin⟩ := readUvarWidth_encodeUvar hlt
  refine bind_eq_ok.2 ⟨_, hread, bind_eq_ok.2 ⟨(), hfin, ?_⟩⟩
  exact congrArg Except.ok (UInt32.toUInt32_toUInt64 v)

/-- The payloads of a budget. -/
def budgetFields (budget : CapabilityResourceBudget) : List Bytes :=
  [encodeUvar budget.maxFuel, encodeUvar budget.maxMemoryBytes, encodeUvar budget.maxOutputBytes,
    encodeUvar budget.maxEffectCount, encodeUvar budget.maxMutationCount,
    encodeUvar budget.maxAdapterCalls]

/-- The payloads that the body and the token record have in common. -/
def bodyFields (body : CapabilityTokenBody) : List Bytes :=
  [encodeUvar body.version.toUInt64, body.issuerId.bytes, body.keyId.bytes, body.principalId.bytes,
    body.workspaceId.bytes, body.stateRoot.bytes, body.effectId.bytes,
    encodeUvar body.effectKindTag.toUInt64, body.scopeHash.bytes, body.adapterId.bytes,
    recordBytes (budgetFields body.budget), encodeUvar body.issuedUnixMillis,
    encodeUvar body.expiryUnixMillis, body.tokenNonce.bytes, body.policyRoot.bytes]

theorem length_encodeUvar_le (v : UInt64) : (encodeUvar v).length ≤ 10 := by
  rw [encodeUvar_eq]
  exact Leb128.length_encode_le (by decide) (v.toNat_lt.trans (by decide))

section

variable (budget : CapabilityResourceBudget)

include budget

theorem length_le_of_mem_budgetFields : ∀ payload ∈ budgetFields budget, payload.length ≤ 10 := by
  simp only [budgetFields, List.forall_mem_cons, length_encodeUvar_le, true_and]
  exact fun _ h ↦ (List.not_mem_nil h).elim

theorem encodeCapabilityBudget_eq :
    encodeCapabilityBudget budget = .ok (recordBytes (budgetFields budget)) := by
  have hcount : (budgetFields budget).length ≤ maxRecordFields := show 6 ≤ maxRecordFields by decide
  exact encodeRecord_numbered hcount fun payload hpayload ↦
    (length_le_of_mem_budgetFields budget payload hpayload).trans (by decide)

theorem decodeCapabilityBudget_recordBytes :
    decodeCapabilityBudget (recordBytes (budgetFields budget)) = .ok budget := by
  have hcount : (budgetFields budget).length ≤ maxRecordFields := show 6 ≤ maxRecordFields by decide
  have hfields := recordFields_numbered (Nat.le_refl 6) hcount fun payload hpayload ↦
    (length_le_of_mem_budgetFields budget payload hpayload).trans (by decide)
  have htake : takeCapabilityBudget.run (numbered 1 (budgetFields budget)) = .ok (budget, []) := by
    simp only [takeCapabilityBudget, StateT.run_bind_eq_ok, requiredWith_eq_ok,
      StateT.run_pure_eq_ok]
    exact ⟨_, _, ⟨_, required_cons .., readCompleteU64_encodeUvar _⟩, _, _, ⟨_, required_cons ..,
      readCompleteU64_encodeUvar _⟩, _, _, ⟨_, required_cons .., readCompleteU64_encodeUvar _⟩, _,
      _, ⟨_, required_cons .., readCompleteU64_encodeUvar _⟩, _, _, ⟨_, required_cons ..,
      readCompleteU64_encodeUvar _⟩, _, _, ⟨_, required_cons .., readCompleteU64_encodeUvar _⟩, rfl,
      rfl⟩
  rw [decodeCapabilityBudget, decodeRecord, hfields, ok_bind, htake]
  rfl

end

section

variable (body : CapabilityTokenBody)

include body

theorem length_le_of_mem_bodyFields : ∀ payload ∈ bodyFields body, payload.length ≤ 190 := by
  have huvar : ∀ v : UInt64, (encodeUvar v).length ≤ 190 := fun v ↦
    (length_encodeUvar_le v).trans (by decide)
  have hcount : (budgetFields body.budget).length ≤ maxRecordFields :=
    show 6 ≤ maxRecordFields by decide
  have hbudget : (recordBytes (budgetFields body.budget)).length ≤ 190 :=
    length_recordBytes_le (by decide) hcount (length_le_of_mem_budgetFields body.budget)
  simp only [bodyFields, List.forall_mem_cons, huvar, hbudget, Id.length_eq]
  simp

theorem encodeCapabilityBodyRecord_eq :
    encodeCapabilityBodyRecord body = .ok (recordBytes (bodyFields body)) := by
  rw [encodeCapabilityBodyRecord, encodeCapabilityBudget_eq, ok_bind]
  have hcount : (bodyFields body).length ≤ maxRecordFields := show 15 ≤ maxRecordFields by decide
  exact encodeRecord_numbered hcount fun payload hpayload ↦
    (length_le_of_mem_bodyFields body payload hpayload).trans (by decide)

section

variable (authenticator : CapabilityAuthenticator)

include authenticator

theorem length_le_of_mem_tokenFields :
    ∀ payload ∈ bodyFields body ++ [authenticator.bytes], payload.length ≤ maxStandaloneBytes :=
  List.forall_mem_append.2 ⟨fun payload hpayload ↦
    (length_le_of_mem_bodyFields body payload hpayload).trans (by decide),
    List.forall_mem_singleton.2 (authenticator.length_eq.le.trans (by decide))⟩

theorem encodeCapabilityTokenRecord_eq : encodeCapabilityTokenRecord body authenticator =
      .ok (recordBytes (bodyFields body ++ [authenticator.bytes])) := by
  rw [encodeCapabilityTokenRecord, encodeCapabilityBudget_eq, ok_bind]
  have hcount : (bodyFields body ++ [authenticator.bytes]).length ≤ maxRecordFields :=
    show 16 ≤ maxRecordFields by decide
  exact encodeRecord_numbered hcount (length_le_of_mem_tokenFields body authenticator)

/-- **A token record is read back.** -/
theorem decodeCapabilityTokenRecord_recordBytes :
    decodeCapabilityTokenRecord (recordBytes (bodyFields body ++ [authenticator.bytes])) =
      .ok (body, authenticator) := by
  have hcount : (bodyFields body ++ [authenticator.bytes]).length ≤ maxRecordFields :=
    show 16 ≤ maxRecordFields by decide
  have hfields := recordFields_numbered (Nat.le_refl 16) hcount
    (length_le_of_mem_tokenFields body authenticator)
  have hid : ∀ {kind : IdKind} (id : Id kind), exactArray id.bytes = .ok id := fun id ↦
    exactArray_eq_ok.2 rfl
  have htake : takeCapabilityToken.run (numbered 1 (bodyFields body ++ [authenticator.bytes])) =
      .ok ((body, authenticator), []) := by
    simp only [takeCapabilityToken, StateT.run_bind_eq_ok, requiredWith_eq_ok,
      StateT.run_pure_eq_ok]
    exact ⟨_, _, ⟨_, required_cons .., readCompleteU32_encodeUvar _⟩, _, _, ⟨_, required_cons ..,
      hid _⟩, _, _, ⟨_, required_cons .., hid _⟩, _, _, ⟨_, required_cons .., hid _⟩, _, _, ⟨_,
      required_cons .., hid _⟩, _, _, ⟨_, required_cons .., hid _⟩, _, _, ⟨_, required_cons ..,
      hid _⟩, _, _, ⟨_, required_cons .., readCompleteU32_encodeUvar _⟩, _, _, ⟨_, required_cons ..,
      hid _⟩, _, _, ⟨_, required_cons .., hid _⟩, _, _, ⟨_, required_cons ..,
      decodeCapabilityBudget_recordBytes _⟩, _, _, ⟨_, required_cons ..,
      readCompleteU64_encodeUvar _⟩, _, _, ⟨_, required_cons .., readCompleteU64_encodeUvar _⟩, _,
      _, ⟨_, required_cons .., hid _⟩, _, _, ⟨_, required_cons .., hid _⟩, _, _, ⟨_,
      required_cons .., hid _⟩, rfl, rfl⟩
  rw [decodeCapabilityTokenRecord, decodeRecord, hfields, ok_bind, htake]
  rfl

end

end

end Codec

/-! ### What is checked -/

section Checks

variable {policy : GrantingPolicyRoot} {body : CapabilityTokenBody} {now : UInt64}
  {budget : CapabilityResourceBudget} {request : CapabilityVerificationRequest} {u : Unit}

/-- The kinds and the tags that are known are the same. -/
theorem isKnownEffectTag_iff {tag : UInt32} :
    isKnownEffectTag tag = true ↔ ∃ kind : EffectKind, kind.tag = tag := by
  constructor
  · intro h
    simp only [isKnownEffectTag, Bool.and_eq_true, decide_eq_true_eq, ge_iff_le,
      UInt32.le_iff_toNat_le] at h
    have hlow : 1 ≤ tag.toNat := h.1
    have hhigh : tag.toNat ≤ 8 := h.2
    have hcases : tag.toNat = 1 ∨ tag.toNat = 2 ∨ tag.toNat = 3 ∨ tag.toNat = 4 ∨ tag.toNat = 5 ∨
        tag.toNat = 6 ∨ tag.toNat = 7 ∨ tag.toNat = 8 := by omega
    obtain h | h | h | h | h | h | h | h := hcases
    exacts [⟨.stdoutWrite, toNat_inj.1 h.symm⟩, ⟨.stderrWrite, toNat_inj.1 h.symm⟩,
      ⟨.fileRead, toNat_inj.1 h.symm⟩, ⟨.fileWrite, toNat_inj.1 h.symm⟩,
      ⟨.clockRead, toNat_inj.1 h.symm⟩, ⟨.randomRead, toNat_inj.1 h.symm⟩,
      ⟨.environmentRead, toNat_inj.1 h.symm⟩, ⟨.adapterCall, toNat_inj.1 h.symm⟩]
  · rintro ⟨kind, rfl⟩
    cases kind <;> decide

theorem effectKindTag_inj {kind kind' : EffectKind} : kind.tag = kind'.tag ↔ kind = kind' := by
  refine ⟨fun h ↦ ?_, congrArg EffectKind.tag⟩
  cases kind <;> cases kind' <;> first | rfl | exact absurd h (by decide)

theorem validateNonzero_eq_ok : budget.validateNonzero = .ok u ↔ budget.isZero = false ∧
      ∀ resource, budget.amount resource ≤ maxPolicyResourceCeiling.toNat := by
  simp only [CapabilityResourceBudget.validateNonzero, bind_eq_ok, rejectIf_eq_ok, exists_const,
    Bool.not_eq_true, not_not, List.all_cons, List.all_nil, Bool.and_true, Bool.and_eq_true,
    decide_eq_true_eq, UInt64.le_iff_toNat_le, Resource.forall_iff, CapabilityResourceBudget.amount]

theorem validateCapabilityBodyShape_eq_ok :
    validateCapabilityBodyShape body = .ok u ↔ body.version = capabilityTokenVersion ∧
      isKnownEffectTag body.effectKindTag = true ∧
      body.issuedUnixMillis < body.expiryUnixMillis ∧ body.budget.isZero = false ∧
        ∀ resource, body.budget.amount resource ≤ maxPolicyResourceCeiling.toNat := by
  simp only [validateCapabilityBodyShape, bind_eq_ok, rejectIf_eq_ok, exists_const,
    mapError_eq_ok, validateNonzero_eq_ok, not_not, ge_iff_le, UInt64.not_le]

/-- What issuing and verifying ask of the policy, at any time. -/
structure Authorizes (policy : GrantingPolicyRoot) (body : CapabilityTokenBody) : Prop where
  policyRoot : body.policyRoot = policy.root
  workspaceId : body.workspaceId = policy.record.workspaceId
  expiry : ∀ policyExpiry ∈ policy.record.expiryUnixMillis, body.expiryUnixMillis ≤ policyExpiry
  granted : ∃ grant, policy.principalGrant body.principalId = some grant ∧
    body.effectKindTag ∈ grant.allowedEffectKindTags ∧ body.adapterId ∈ grant.allowedAdapterIds ∧
      body.budget.fitsWithinCeilings grant.resourceCeilings = true

/-- **The policy is asked the same at every time** between issue and expiry. -/
theorem validateCapabilityPolicyBinding_eq_ok :
    validateCapabilityPolicyBinding policy body now = .ok u ↔
      Authorizes policy body ∧ body.issuedUnixMillis ≤ now ∧ now < body.expiryUnixMillis := by
  have htime : validateCapabilityTime policy body now = .ok () ↔
      body.issuedUnixMillis ≤ now ∧ now < body.expiryUnixMillis ∧
        ∀ policyExpiry ∈ policy.record.expiryUnixMillis,
          body.expiryUnixMillis ≤ policyExpiry := by
    simp only [validateCapabilityTime, bind_eq_ok, rejectIf_eq_ok, exists_const,
      UInt64.not_lt, ge_iff_le, UInt64.not_le, gt_iff_lt]
    refine and_congr_right fun _ ↦ and_congr_right fun hexpiry ↦ ?_
    cases policy.record.expiryUnixMillis with
    | none => exact iff_of_true rfl fun q h ↦ absurd h (Option.not_mem_none q)
    | some policyExpiry =>
      simp only [bind_eq_ok, rejectIf_eq_ok, exists_const, UInt64.not_lt,
        UInt64.not_le, Option.mem_some_iff, forall_eq']
      exact and_iff_left_of_imp fun hle ↦ UInt64.lt_of_lt_of_le hexpiry hle
  simp only [validateCapabilityPolicyBinding, bind_eq_ok, rejectIf_eq_ok,
    exists_const, not_not, ofOption_eq_ok]
  constructor
  · rintro ⟨hroot, hworkspace, _, htimes, grant, hgrant, heffect, hadapter, hbudget⟩
    obtain ⟨hissued, hnow, hexpiry⟩ := htime.1 htimes
    exact ⟨⟨hroot, hworkspace, hexpiry, grant, hgrant, heffect, hadapter, hbudget⟩, hissued, hnow⟩
  · rintro ⟨⟨hroot, hworkspace, hexpiry, grant, hgrant, heffect, hadapter, hbudget⟩, hissued, hnow⟩
    exact ⟨hroot, hworkspace, (), htime.2 ⟨hissued, hnow, hexpiry⟩, grant, hgrant, heffect,
      hadapter, hbudget⟩

/-- A request repeats what a token was issued for. -/
structure Repeats (body : CapabilityTokenBody) (request : CapabilityVerificationRequest) :
    Prop where
  principalId : request.principalId = body.principalId
  workspaceId : request.workspaceId = body.workspaceId
  stateRoot : request.stateRoot = body.stateRoot
  effectId : request.effectId = body.effectId
  effectKind : request.effectKind.tag = body.effectKindTag
  scopeHash : request.scopeHash = body.scopeHash
  adapterId : request.adapterId = body.adapterId

theorem validateCapabilityRequestBinding_eq_ok :
    validateCapabilityRequestBinding policy body request = .ok u ↔
      body.policyRoot = policy.root ∧ body.workspaceId = policy.record.workspaceId ∧
        Repeats body request := by
  simp only [validateCapabilityRequestBinding, bind_eq_ok, rejectIf_eq_ok,
    exists_const, not_not, not_or]
  constructor
  · rintro ⟨hroot, ⟨hpolicy, hworkspace⟩, hprincipal, hstate, ⟨heffect, hkind⟩, hscope, hadapter⟩
    exact ⟨hroot, hworkspace.trans hpolicy, hprincipal.symm, hworkspace.symm, hstate.symm,
      heffect.symm, hkind.symm, hscope.symm, hadapter.symm⟩
  · rintro ⟨hroot, hpolicy, hrepeats⟩
    exact ⟨hroot, ⟨hrepeats.workspaceId.trans hpolicy, hrepeats.workspaceId.symm⟩,
      hrepeats.principalId.symm, hrepeats.stateRoot.symm, ⟨hrepeats.effectId.symm,
      hrepeats.effectKind.symm⟩, hrepeats.scopeHash.symm, hrepeats.adapterId.symm⟩

theorem foldl_or_xor_eq_zero {left right : Bytes} (h : left.length = right.length) (acc : UInt8) :
    (left.zip right).foldl (fun acc pair ↦ acc ||| (pair.1 ^^^ pair.2)) acc = 0 ↔
      acc = 0 ∧ left = right := by
  induction left generalizing right acc with
  | nil =>
    obtain rfl := List.length_eq_zero_iff.1 h.symm
    simp
  | cons a left ih =>
    obtain ⟨b, right, rfl⟩ := List.exists_cons_of_length_eq_add_one h.symm
    rw [List.zip_cons_cons, List.foldl_cons, ih (Nat.succ.inj h), UInt8.or_eq_zero_iff,
      UInt8.xor_eq_zero_iff, List.cons.injEq, and_assoc]

theorem constantTimeEq_iff {left right : Bytes} (h : left.length = right.length) :
    constantTimeEq left right = true ↔ left = right := by
  rw [constantTimeEq, beq_iff_eq, foldl_or_xor_eq_zero h]
  exact and_iff_right rfl

end Checks

/-! ### Tokens -/

section Tokens

variable [Blake3] [KeyedBlake3] {policy : GrantingPolicyRoot} {key : CapabilityTrustedKey}
  {body : CapabilityTokenBody} {token : CapabilityToken} {digest : CapabilityTokenDigest}
  {request : CapabilityVerificationRequest}

omit [KeyedBlake3] in
theorem capabilityTokenDigest_bodyFields (token : CapabilityToken) :
    capabilityTokenDigest (recordBytes (bodyFields token.body)) = .ok token.digest := by
  obtain ⟨_, hencode, hdigest⟩ := bind_eq_ok.1 token.digest_eq
  rw [encodeCapabilityBodyRecord_eq] at hencode
  obtain rfl := Except.ok.inj hencode
  exact hdigest

/-- The token has the authenticator that the key gives its body. -/
def Authentic (key : CapabilityTrustedKey) (token : CapabilityToken) : Prop :=
  capabilityAuthenticator key.secret token.body token.digest (recordBytes (bodyFields token.body)) =
    .ok token.authenticator

theorem finishCapabilityToken_eq_ok :
    finishCapabilityToken body key = .ok token ↔ token.body = body ∧ Authentic key token ∧
      token.storedBytes = recordBytes (bodyFields body ++ [token.authenticator.bytes]) := by
  rw [finishCapabilityToken, encodeCapabilityBodyRecord_eq, Except.mapError, ok_bind]
  constructor
  · intro h
    split at h
    · cases h
    · simp only [bind_eq_ok, encodeCapabilityTokenRecord_eq, mapError_eq_ok,
        Except.ok.injEq, exists_eq_left', pure_eq_ok] at h
      obtain ⟨authenticator, hauthenticator, rfl⟩ := h
      exact ⟨rfl, hauthenticator, rfl⟩
  · rintro ⟨rfl, hauthentic, hstored⟩
    split
    · rename_i error herror
      rw [token.digest_eq] at herror
      cases herror
    · rename_i digest hdigest
      obtain rfl := Except.ok.inj (token.digest_eq.symm.trans hdigest)
      rw [show capabilityAuthenticator key.secret token.body token.digest _ = _ from hauthentic,
        ok_bind, encodeCapabilityTokenRecord_eq, ← hstored]
      rfl

omit [KeyedBlake3] in
theorem importCapabilityToken_eq_ok
    (hshape : validateCapabilityBodyShape token.body = .ok ())
    (hstored : token.storedBytes = recordBytes (bodyFields token.body ++ [token.authenticator.bytes])) :
    importCapabilityToken token.storedBytes = .ok token := by
  rw [importCapabilityToken, hstored, decodeCapabilityTokenRecord_recordBytes, Except.mapError,
    ok_bind]
  show (validateCapabilityBodyShape token.body >>= _) = _
  rw [hshape, ok_bind]
  split
  · rename_i error herror
    rw [token.digest_eq] at herror
    cases herror
  · rename_i digest hdigest
    obtain rfl := Except.ok.inj (token.digest_eq.symm.trans hdigest)
    rw [encodeCapabilityTokenRecord_eq, Except.mapError, ok_bind,
      rejectIf_neg (not_not.2 rfl), ← hstored]
    rfl

theorem verifyCapabilityToken_eq_ok :
    verifyCapabilityToken policy token key request = .ok digest ↔ digest = token.digest ∧
      validateCapabilityBodyShape token.body = .ok () ∧ token.body.issuerId = key.issuerId ∧
      token.body.keyId = key.keyId ∧ Authentic key token ∧ Repeats token.body request ∧
      Authorizes policy token.body ∧ token.body.issuedUnixMillis ≤ request.nowUnixMillis ∧
      request.nowUnixMillis < token.body.expiryUnixMillis ∧
      request.requiredBudget.isZero = false ∧
      request.requiredBudget.fitsWithin token.body.budget = true := by
  simp only [verifyCapabilityToken, encodeCapabilityBodyRecord_eq, bind_eq_ok,
    rejectIf_eq_ok, mapError_eq_ok, Except.ok.injEq, exists_eq_left', exists_const,
    not_not, validateCapabilityRequestBinding_eq_ok, validateCapabilityPolicyBinding_eq_ok,
    capabilityTokenDigest_bodyFields, pure_eq_ok]
  constructor
  · rintro ⟨_, hshape, hissuer, hkey, -, authenticator, hauthenticator, hequal, ⟨-, -, hrepeats⟩,
      ⟨hpolicy, hissued, hnow⟩, _, hnonzero, hfits, rfl⟩
    have hequal := (constantTimeEq_iff (by rw [Id.length_eq, Id.length_eq])).1 hequal
    obtain rfl := Id.ext hequal
    exact ⟨rfl, hshape, hissuer, hkey, hauthenticator, hrepeats, hpolicy, hissued, hnow,
      (validateNonzero_eq_ok.1 hnonzero).1, hfits⟩
  · rintro ⟨rfl, hshape, hissuer, hkey, hauthentic, hrepeats, hpolicy, hissued, hnow, hnonzero,
      hfits⟩
    have hbudget := (validateCapabilityBodyShape_eq_ok.1 hshape).2.2.2.2
    have hrequired : request.requiredBudget.validateNonzero = .ok () :=
      validateNonzero_eq_ok.2 ⟨hnonzero, fun resource ↦
        (CapabilityResourceBudget.fitsWithin_iff.1 hfits resource).trans (hbudget resource)⟩
    exact ⟨(), hshape, hissuer, hkey, trivial, token.authenticator, hauthentic,
      (constantTimeEq_iff rfl).2 rfl, ⟨hpolicy.policyRoot, hpolicy.workspaceId, hrepeats⟩,
      ⟨hpolicy, hissued, hnow⟩, (), hrequired, hfits, rfl⟩

/-- What a request would issue. -/
def issuedBody (policy : GrantingPolicyRoot) (key : CapabilityTrustedKey)
    (request : CapabilityTokenRequest) : CapabilityTokenBody where
  version := capabilityTokenVersion
  issuerId := key.issuerId
  keyId := key.keyId
  principalId := request.principalId
  workspaceId := request.workspaceId
  stateRoot := request.stateRoot
  effectId := request.effectId
  effectKindTag := request.effectKind.tag
  scopeHash := request.scopeHash
  adapterId := request.adapterId
  budget := request.budget
  issuedUnixMillis := request.nowUnixMillis
  expiryUnixMillis := request.expiryUnixMillis
  tokenNonce := request.tokenNonce
  policyRoot := policy.root

/-- **A token is issued if its body is in shape and authorized.** -/
theorem issueCapabilityToken_eq_ok {request : CapabilityTokenRequest} :
    issueCapabilityToken policy key request = .ok token ↔
      token.body = issuedBody policy key request ∧
      validateCapabilityBodyShape token.body = .ok () ∧ Authorizes policy token.body ∧
      Authentic key token ∧
      token.storedBytes = recordBytes (bodyFields token.body ++ [token.authenticator.bytes]) := by
  show (validateCapabilityBodyShape (issuedBody policy key request) >>= fun _ ↦
    validateCapabilityPolicyBinding policy (issuedBody policy key request)
      request.nowUnixMillis >>= fun _ ↦
    finishCapabilityToken (issuedBody policy key request) key) = _ ↔ _
  simp only [bind_eq_ok, finishCapabilityToken_eq_ok, validateCapabilityPolicyBinding_eq_ok]
  constructor
  · rintro ⟨_, hshape, _, ⟨hpolicy, -⟩, hbody, hauthentic, hstored⟩
    rw [← hbody] at hshape hpolicy hstored
    exact ⟨hbody, hshape, hpolicy, hauthentic, hstored⟩
  · rintro ⟨hbody, hshape, hpolicy, hauthentic, hstored⟩
    rw [hbody] at hshape hpolicy hstored
    have hlt := (validateCapabilityBodyShape_eq_ok.1 hshape).2.2.1
    exact ⟨(), hshape, (), ⟨hpolicy, UInt64.le_refl _, hlt⟩, hbody, hauthentic, hstored⟩

/-- The request that a body was issued by. -/
def requestOf (body : CapabilityTokenBody) (kind : EffectKind) : CapabilityTokenRequest where
  principalId := body.principalId
  workspaceId := body.workspaceId
  stateRoot := body.stateRoot
  effectId := body.effectId
  effectKind := kind
  scopeHash := body.scopeHash
  adapterId := body.adapterId
  budget := body.budget
  nowUnixMillis := body.issuedUnixMillis
  expiryUnixMillis := body.expiryUnixMillis
  tokenNonce := body.tokenNonce

/-- **A token that is verified is issued to the request that repeats its body.** -/
theorem exists_issue_of_verify (h : verifyCapabilityToken policy token key request = .ok digest) :
    ∃ issuing issued, issueCapabilityToken policy key issuing = .ok issued ∧
      issued.body = token.body ∧ issued.authenticator = token.authenticator := by
  obtain ⟨-, hshape, hissuer, hkey, hauthentic, -, hpolicy, -⟩ := verifyCapabilityToken_eq_ok.1 h
  obtain ⟨hversion, hknown, -⟩ := validateCapabilityBodyShape_eq_ok.1 hshape
  obtain ⟨kind, hkind⟩ := isKnownEffectTag_iff.1 hknown
  have hbody : token.body = issuedBody policy key (requestOf token.body kind) := by
    have hroot := hpolicy.policyRoot
    obtain ⟨body, _, _, _, _⟩ := token
    cases body
    simp only at hversion hissuer hkey hkind hroot
    simp only [issuedBody, requestOf, hversion, hissuer, hkey, hkind, hroot]
  refine ⟨requestOf token.body kind, { token with
    storedBytes := recordBytes (bodyFields token.body ++ [token.authenticator.bytes]) }, ?_, rfl,
    rfl⟩
  exact issueCapabilityToken_eq_ok.2 ⟨hbody, hshape, hpolicy, hauthentic, rfl⟩

section

omit [Blake3] [KeyedBlake3]

theorem bodyFields_injective : Function.Injective bodyFields := by
  intro body body' h
  have hdecode := decodeCapabilityTokenRecord_recordBytes body (Id.splat 0)
  rw [h, decodeCapabilityTokenRecord_recordBytes, Except.ok.injEq, Prod.mk.injEq] at hdecode
  exact hdecode.1.symm

theorem recordBytes_bodyFields_injective {body body' : CapabilityTokenBody}
    (h : recordBytes (bodyFields body) = recordBytes (bodyFields body')) : body = body' := by
  have hfields : ∀ body, Policy.recordFields 15 (recordBytes (bodyFields body)) =
      .ok (numbered 1 (bodyFields body)) := fun body ↦
    have hcount : (bodyFields body).length ≤ maxRecordFields := show 15 ≤ maxRecordFields by decide
    recordFields_numbered (Nat.le_refl 15) hcount fun payload hpayload ↦
      (length_le_of_mem_bodyFields body payload hpayload).trans (by decide)
  have hnumbered := hfields body
  rw [h, hfields body', Except.ok.injEq] at hnumbered
  exact bodyFields_injective (congrArg (List.map Prod.snd) hnumbered).symm

end

/-- **Where the keyed hash is injective, an authenticator belongs to one body.** -/
theorem Authentic.body_eq (hmac : Function.Injective (KeyedBlake3.mac key.secret))
    {token' : CapabilityToken} (h : Authentic key token) (h' : Authentic key token')
    (hsame : token.authenticator = token'.authenticator) : token.body = token'.body := by
  have hpreimage {token : CapabilityToken} (h : Authentic key token) :
      token.authenticator.bytes = (KeyedBlake3.mac key.secret (capabilityMacMagic ++
        BigEndian.bytes 4 capabilityTokenVersion.toNat ++ token.body.issuerId.bytes ++
        token.body.keyId.bytes ++ token.digest.bytes ++
        BigEndian.bytes 8 (recordBytes (bodyFields token.body)).length ++
        recordBytes (bodyFields token.body))).bytes := by
    simp only [Authentic, capabilityAuthenticator, bodyLength, bind_eq_ok, pure_eq_ok] at h
    obtain ⟨_, ⟨_, -, rfl⟩, h⟩ := h
    rw [h]
  have hequal := hmac (Id.ext ((hpreimage h).symm.trans
    ((congrArg Id.bytes hsame).trans (hpreimage h'))))
  have hbytes := (List.append_inj hequal (by
    simp only [List.length_append, BigEndian.length_bytes, Id.length_eq])).2
  exact recordBytes_bodyFields_injective hbytes

end Tokens

end Sley.Policy
