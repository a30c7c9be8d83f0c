import Sley.Vm.Agree

/-!
# Moving on the last use

The interpreter moves an operand out of its register when the liveness tables mark its use as the
last one. The run that does so and the run that never does are compared iteration by iteration: the
registers that the first has emptied are not live, so both agree off the registers that are not live
where they stand. **The two runs end alike** (`run_moves_eq_run_clones`).
-/

namespace Sley.Vm

open Ssmc Action Operation
open BytecodeTerminator (successors)
open RuntimeValue (new presents_new presents_withUnits value)
open Together (bind)
open Machine (finishFrame runFor step)
open Option (bind_eq_some_iff map_eq_bind)

/-- The operands that a mask marks. -/
def marked (mask : UInt64) (operands : List Register) : Set Register :=
  {r | ∃ k, isDead mask k = true ∧ operands[k]? = some r}

/-- The masks of an instruction in the two runs. -/
structure Masks (mask mask' : UInt64) (operands : List Register) : Prop where
  /-- The second run moves nothing that the first does not. -/
  le : ∀ k, isDead mask' k = true → isDead mask k = true
  once : ∀ k r, isDead mask k = true → operands[k]? = some r → operands.count r = 1

/-- The same code with other tables. -/
def Execution.variant (execution : Execution) (live : Nat → FnLiveness) (unique : UInt64 → Bool) :
    Execution :=
  { execution with live := live, unique := unique }

section Instructions

variable {execution : Execution} {live : Nat → FnLiveness} {unique : UInt64 → Bool}
  {gone : Set Register} {s t : Runtime}
  {mask mask' : UInt64} {instruction : Instruction} {resultType : TypeExpr} {opcode : Opcode}
  {operands : List Register} {slot : ℕ}

theorem Agree.kept {s₁ t₁ : Runtime} (h : Agree slot gone s t)
    (hmask : ∀ k, isDead mask' k = true → isDead mask k = true)
    (hs : Kept mask operands Set.univ s s₁) (ht : Kept mask' operands Set.univ t t₁) :
    Agree slot (gone ∪ marked mask operands) s₁ t₁ := by
  rw [hs.eq, ht.eq]
  refine h.congr Set.subset_union_left ?_ (fun r hr ↦ ?_) fun r hr ↦ ?_
  · rw [hs.length, ht.length, h.length]
  · obtain hsame | ⟨k, -, hdead, hk⟩ := hs.register r
    · exact hsame
    · exact absurd (.inr ⟨k, hdead, hk⟩) hr
  · obtain hsame | ⟨k, -, hdead, hk⟩ := ht.register r
    · exact hsame
    · exact absurd (.inr ⟨k, hmask k hdead, hk⟩) hr

variable {registerTypes : List TypeExpr} {source : ExecutionSource}
  {scope request value : ConstValue} {limits : ExecutionLimits} {immediate : Immediate} {frames : ℕ}

/-- The owned arms defer in both runs, or produce alike. -/
theorem matches_owned {unique unique' : Bool} (hmasks : Masks mask mask' instruction.operands)
    (hoperands : ∀ r ∈ instruction.operands, r ∉ gone) (h : Agree slot gone s t) :
    Together (fun p q s₁ t₁ ↦ (p = none ∧ q = none ∧ Agree slot gone s₁ t₁) ∨
        ∃ a b, p = some a ∧ q = some b ∧ Alike a b ∧
          Agree slot (gone ∪ marked mask instruction.operands) s₁ t₁) Reported
      (Owned.execute unique source opcode instruction mask resultType s)
      (Owned.execute unique' source opcode instruction mask' resultType t) := by
  have hready : Ready mask instruction.operands s :=
    ⟨hmasks.once, fun r hr ↦ h.left r (hoperands r hr)⟩
  have hready' : Ready mask' instruction.operands t :=
    ⟨fun k r hk ↦ hmasks.once k r (hmasks.le k hk), fun r hr ↦ h.right r (hoperands r hr)⟩
  have hfile : Owned.meaning source s.file opcode instruction resultType =
      Owned.meaning source t.file opcode instruction resultType :=
    Owned.meaning_congr fun r hr ↦ h.file r (hoperands r hr)
  have hleft : Follows _ _ _ _ (Owned.execute unique source opcode instruction mask resultType s) :=
    Owned.follows_execute hready
  have hright : Follows _ _ _ _
      (Owned.execute unique' source opcode instruction mask' resultType t) :=
    Owned.follows_execute hready'
  rw [hfile] at hleft
  refine (hleft.together hright).imp (fun p q s₁ t₁ hpq ↦ ?_) fun s₁ t₁ hst ↦ ?_
  · obtain ⟨shown, hp, hq⟩ := hpq
    match shown, p, q, hp, hq with
    | none, none, none, hp, hq => exact .inl ⟨rfl, rfl, hp ▸ hq ▸ h⟩
    | some shown, some a, some b, ⟨ha, hs⟩, ⟨hb, ht⟩ =>
      exact .inr ⟨a, b, rfl, rfl, ⟨shown, ha, hb⟩, h.kept hmasks.le hs ht⟩
  · obtain ⟨hs, ht⟩ := hst
    rw [hs, ht]
    exact h.reported

/-- What a push computes: a failure, or the vector with one more item. -/
theorem cases_executeVectorPushOwned
    (h : executeVectorPushOwned source immediate scope request resultType = some value) :
    (∃ error, value = failureValue resultType error .index 2) ∨
      ∃ ok items, scope = ⟨ok, .sequence items⟩ ∧
        value = ⟨resultType, .result (.ok ⟨ok, .sequence (items ++ [request])⟩)⟩ := by
  simp only [executeVectorPushOwned, Option.bind_eq_bind, bind_eq_some_iff] at h
  obtain ⟨entry, -, h⟩ := h
  split_ifs at h
  · obtain ⟨carried, -, h⟩ := bind_eq_some_iff.1 h
    obtain ⟨⟨ok, error⟩, -, h⟩ := bind_eq_some_iff.1 h
    dsimp only at h
    split_ifs at h with htypes
    · cases h
    · rw [not_or, not_or, not_or, not_ne_iff, not_ne_iff, not_ne_iff] at htypes
      obtain ⟨items, hitems, h⟩ := bind_eq_some_iff.1 h
      split_ifs at h
      · exact .inl ⟨error, (Option.some.inj h).symm⟩
      · refine .inr ⟨ok, items, ?_, (Option.some.inj h).symm⟩
        obtain ⟨valueType, data⟩ := scope
        obtain rfl : valueType = ok := htypes.2.2.1.trans htypes.1.symm
        cases data with
        | sequence values => rw [Option.some.inj hitems]
        | _ => cases hitems
  · cases h

/-- The units of a pushed vector are those of a walk. -/
theorem pushUnits_eq {units units' : UInt64}
    (hvalue : executeVectorPushOwned source immediate scope request resultType = some value)
    (hscope : units.toNat = size scope) (hrequest : units'.toNat = size request) :
    (pushUnits resultType value units units').getD (valueUnitsConst value) =
      valueUnitsConst value := by
  refine Owned.getD_eq_of_forall fun total htotal ↦ ?_
  obtain ⟨error, rfl⟩ | ⟨ok, items, rfl, rfl⟩ := cases_executeVectorPushOwned hvalue
  · cases htotal
  · obtain rfl := Option.some.inj htotal
    have htype := toNat_valueUnitsType resultType
    have hsizes : sizes (items ++ [request]) = sizes items + size request := by
      rw [sizes_perm List.perm_append_comm]
      exact Nat.add_comm _ _
    rw [valueUnitsConst_eq]
    refine UInt64.toNat_inj.1 ?_
    simp only [UInt64.toNat_saturatingAdd, UInt64.toNat_saturate, hscope, hrequest, htype, size,
      dataSize, hsizes, List.length_append, List.length_singleton, UInt64.reduceToNat]
    omega

theorem narrow_executeVectorPushOwned
    (h : executeVectorPushOwned source immediate scope request resultType = some value)
    (hscope : Narrow scope) (hrequest : Narrow request) : Narrow value := by
  obtain ⟨error, rfl⟩ | ⟨ok, items, rfl, rfl⟩ := cases_executeVectorPushOwned h
  · trivial
  · refine narrow_ok.2 (narrow_sequence.2 fun v hv ↦ ?_)
    rw [List.mem_append, List.mem_singleton] at hv
    obtain hv | rfl := hv
    · exact narrow_sequence.1 hscope v hv
    · exact hrequest

theorem pairOf_eq_some {pair : Register × Register} (h : pairOf operands = some pair) :
    operands = [pair.1, pair.2] := by
  match operands with
  | [first, second] =>
    obtain rfl := Option.some.inj h
    rfl
  | [] | [_] | _ :: _ :: _ :: _ => cases h

theorem matches_pushOwned (hmasks : Masks mask mask' instruction.operands)
    (hoperands : ∀ r ∈ instruction.operands, r ∉ gone) (h : Agree slot gone s t) :
    Matches slot (gone ∪ marked mask instruction.operands) Alike
      (pushOwned execution instruction mask resultType s)
      (pushOwned (execution.variant live unique) instruction mask' resultType t) := by
  rw [pushOwned, pushOwned]
  refine (matches_orFault h).bind ?_
  rintro ⟨scopeRegister, requestRegister⟩ _ s t ⟨rfl, hpair⟩ h
  have hpair : instruction.operands = [scopeRegister, requestRegister] := pairOf_eq_some hpair
  refine (matches_chargeBridgeActions _ h).bind fun _ _ s t _ h ↦ ?_
  refine (matches_operand (hmasks.le 1) (hoperands requestRegister (by simp [hpair])) h).bind
    fun request request' s t hrequest h ↦ ?_
  refine (matches_shown hrequest h).bind ?_
  rintro requestValue _ s t ⟨rfl, hrequest, hrequest'⟩ h
  refine (matches_operand (hmasks.le 0) ?_ h).bind fun scope scope' s t hscope h ↦ ?_
  · rintro (hgone | ⟨heq, hdead⟩)
    · exact hoperands scopeRegister (by simp [hpair]) hgone
    · have honce := hmasks.once 1 requestRegister hdead (by simp [hpair])
      rw [hpair, heq] at honce
      simp at honce
  refine (matches_shown hscope h).bind ?_
  rintro scopeValue _ s t ⟨rfl, hscope, hscope'⟩ h
  refine (matches_orFault h).bind ?_
  rintro value _ s t ⟨rfl, hvalue⟩ h
  have hnarrow := narrow_executeVectorPushOwned hvalue hscope.narrow hrequest.narrow
  refine matches_pure ⟨value, presents_withUnits ?_ hnarrow,
    presents_withUnits ?_ hnarrow⟩ (h.mono ?_)
  · exact pushUnits_eq hvalue hscope.units_eq hrequest.units_eq
  · exact pushUnits_eq hvalue hscope'.units_eq hrequest'.units_eq
  · rintro r ((hr | ⟨rfl, hdead⟩) | ⟨rfl, hdead⟩)
    · exact .inl hr
    · exact .inr ⟨1, hdead, by simp [hpair]⟩
    · exact .inr ⟨0, hdead, by simp [hpair]⟩

theorem matches_executeReference (hoperands : ∀ r ∈ instruction.operands, r ∉ gone)
    (h : Agree slot gone s t) :
    Matches slot gone (fun p q ↦ Alike p.1 q.1 ∧ p.2 = q.2)
      (executeReference execution opcode instruction resultType s)
      (executeReference (execution.variant live unique) opcode instruction resultType t) := by
  rw [executeReference, executeReference]
  refine (matches_readValues _ hoperands h).bind ?_
  rintro operands _ s t ⟨rfl, hnarrow⟩ h
  refine (matches_chargeBridgeActions _ h).bind fun _ _ s t _ h ↦ ?_
  refine matches_get.bind ?_
  rintro _ _ _ _ ⟨rfl, rfl, rfl, rfl⟩
  rw [h.cells]
  refine (matches_orFault h).bind ?_
  rintro ⟨value, cells⟩ _ s t ⟨rfl, hvalue⟩ h'
  obtain ⟨hvalue, hcells⟩ := narrow_executeBorrowed hvalue hnarrow (h.cells ▸ h.narrow)
  refine (matches_setCells hcells h').bind fun _ _ s t _ h ↦ ?_
  exact matches_pure ⟨alike_new hvalue, rfl⟩ h

theorem matches_produce (hmasks : Masks mask mask' instruction.operands)
    (hoperands : ∀ r ∈ instruction.operands, r ∉ gone) (h : Agree slot gone s t) :
    Matches slot (gone ∪ marked mask instruction.operands) (fun p q ↦ Alike p.1 q.1 ∧ p.2 = q.2)
      (produce execution opcode instruction mask resultType s)
      (produce (execution.variant live unique) opcode instruction mask' resultType t) := by
  rw [produce, produce]
  split_ifs
  · refine (matches_pushOwned hmasks hoperands h).bind fun value value' s t hvalue h ↦ ?_
    exact matches_pure ⟨hvalue, rfl⟩ h
  · refine matches_get.bind ?_
    rintro _ _ s t ⟨rfl, rfl, rfl, rfl⟩
    refine (matches_owned hmasks hoperands h).bind ?_
    rintro p q s₁ t₁ (⟨rfl, rfl, h⟩ | ⟨value, value', rfl, rfl, hvalue, h⟩)
    · exact (matches_executeReference hoperands h).mono Set.subset_union_left
    · exact matches_pure ⟨hvalue, rfl⟩ h

theorem matches_finishInstruction {register : Register}
    {value value' : RuntimeValue} {stored : UInt64} (hvalue : Alike value value')
    (h : Agree slot gone s t) :
    Matches slot (gone \ {register}) (fun _ _ ↦ True)
      (finishInstruction limits register resultType value stored s)
      (finishInstruction limits register resultType value' stored t) := by
  rw [finishInstruction, finishInstruction, ← hvalue.units_eq]
  refine (matches_value hvalue h).bind ?_
  rintro shown _ s t ⟨rfl, -⟩ h
  refine (matches_rejectIf h).bind fun _ _ s t _ h ↦ ?_
  refine matches_get.bind ?_
  rintro _ _ _ _ ⟨rfl, rfl, rfl, rfl⟩
  rw [h.cells]
  refine (matches_rejectIf h).bind fun _ _ s t _ h ↦ ?_
  refine (matches_chargeValue h).bind fun _ _ s t hunits h ↦ ?_
  refine (matches_countInstruction h).bind fun _ _ s t _ h ↦ ?_
  refine matches_writeRegister (hvalue.same ?_) h
  rw [UInt64.toNat_saturatingAdd] at hunits
  omega

theorem resultOf_eq_some {register : Register} (h : resultOf instruction = some register) :
    instruction.results = [register] := by
  rw [resultOf] at h
  split at h
  · rename_i hresults
    rw [hresults, Option.some.inj h]
  · cases h

/-- An instruction of the extended profile: its marked operands are gone, its result is there. -/
theorem matches_executeExtended (hmasks : Masks mask mask' instruction.operands)
    (hoperands : ∀ r ∈ instruction.operands, r ∉ gone) (h : Agree slot gone s t) :
    Matches slot ((gone ∪ marked mask instruction.operands) \ {r | r ∈ instruction.results})
      (fun _ _ ↦ True) (executeExtended execution instruction mask registerTypes s)
      (executeExtended (execution.variant live unique) instruction mask' registerTypes t) := by
  rw [executeExtended, executeExtended]
  refine (matches_orFault h).bind ?_
  rintro opcode _ s t ⟨rfl, -⟩ h
  refine (matches_orFault h).bind ?_
  rintro register _ s t ⟨rfl, hregister⟩ h
  refine (matches_orFault h).bind ?_
  rintro resultType _ s t ⟨rfl, -⟩ h
  refine (matches_produce hmasks hoperands h).bind ?_
  rintro ⟨value, stored⟩ ⟨value', _⟩ s t ⟨hvalue, rfl⟩ h
  refine (matches_finishInstruction hvalue h).mono ?_
  rw [resultOf_eq_some hregister]
  simp

theorem holds_boolValue {held : Bool} :
    (RuntimeValue.new (boolValue held)).Holds (boolValue held) := by
  have hnarrow : Narrow (boolValue held) := trivial
  exact (presents_new hnarrow).holds (show 4 < 2 ^ 64 - 1 by decide)

theorem matches_executeRestricted
    (hoperands : ∀ r ∈ instruction.operands, r ∉ gone) (h : Agree slot gone s t) :
    Matches slot (gone \ {r | r ∈ instruction.results}) (fun _ _ ↦ True)
      (executeRestricted limits instruction s) (executeRestricted limits instruction t) := by
  rw [executeRestricted]
  refine (matches_readValues _ hoperands h).bind ?_
  rintro operands _ s t ⟨rfl, -⟩ h
  refine (matches_orFault h).bind ?_
  rintro values _ s t ⟨rfl, -⟩ h
  refine (matches_orFault h).bind ?_
  rintro register _ s t ⟨rfl, hregister⟩ h
  refine (matches_chargeValue h).bind fun _ _ s t _ h ↦ ?_
  refine (matches_orFault h).bind ?_
  rintro value _ s t ⟨rfl, -⟩ h
  refine (matches_countInstruction h).bind fun _ _ s t _ h ↦ ?_
  refine (matches_writeRegister ⟨_, holds_boolValue, holds_boolValue⟩ h).mono ?_
  rw [resultOf_eq_some hregister]
  simp

/-! ### Calls -/

/-- A fresh frame takes over what its caller shared. -/
theorem FrameAgree.adoptFrame {c d : Runtime} (h : FrameAgree slot gone s t) (hchild : Shared c d) :
    Agree slot gone (adoptFrame s c) (adoptFrame t d) :=
  { h, hchild with }

theorem join_replicate {n i : ℕ} :
    (List.replicate n (none : Option RuntimeValue))[i]?.join = none := by
  rw [List.getElem?_replicate]
  split_ifs <;> rfl

/-- The frames that are opened agree everywhere: nothing has been written. -/
theorem Agree.opened (h : Agree slot gone s t) (entry registers depth : ℕ) : Agree entry ∅
      { s with
        registers := List.replicate registers none
        block := entry
        peakCallDepth := max s.peakCallDepth depth
        returned := none }
      { t with
        registers := List.replicate registers none
        block := entry
        peakCallDepth := max t.peakCallDepth depth
        returned := none } := by
  have hnone (r : Register) : (List.replicate registers (none : Option RuntimeValue))[r.toNat]?.join =
      none := join_replicate
  exact { h with
    left_block := rfl
    right_block := rfl
    length := rfl
    file := fun _ _ ↦ rfl
    left := fun r _ value hvalue ↦ absurd hvalue (by rw [hnone]; simp)
    right := fun r _ value hvalue ↦ absurd hvalue (by rw [hnone]; simp)
    returned := .none
    peakCallDepth := congrArg (max · depth) h.peakCallDepth }

/-- The operands that have been passed when operand `k` is next. -/
def passed (mask : UInt64) (operands : List Register) (k : ℕ) : Set Register :=
  {r | ∃ j < k, isDead mask j = true ∧ operands[j]? = some r}

theorem matches_bindParameters {pairs : List (Register × Register)}
    {k entry : ℕ} {child child' : Runtime} (hmasks : Masks mask mask' operands)
    (hpairs : ∀ j pair, pairs[j]? = some pair → operands[k + j]? = some pair.1)
    (hoperands : ∀ r ∈ operands, r ∉ gone) (h : Agree slot (gone ∪ passed mask operands k) s t)
    (hchild : Agree entry ∅ child child') :
    Matches slot (gone ∪ marked mask operands) (Agree entry ∅) (bindParameters limits mask k child pairs s)
      (bindParameters limits mask' k child' pairs t) := by
  induction pairs generalizing k child child' s t with
  | nil =>
    refine matches_pure hchild (h.mono (Set.union_subset_union_right _ ?_))
    rintro r ⟨j, -, hdead, hj⟩
    exact ⟨j, hdead, hj⟩
  | cons pair pairs ih =>
    obtain ⟨register, parameter⟩ := pair
    have hk : operands[k]? = some register := hpairs 0 _ rfl
    have hregister : register ∉ gone ∪ passed mask operands k := by
      rintro (hmem | ⟨j, hj, hdead, hregister⟩)
      · exact hoperands register (List.mem_of_getElem? hk) hmem
      · have := eq_of_count_eq_one (hmasks.once j register hdead hregister) hregister hk
        omega
    rw [bindParameters, bindParameters]
    refine (matches_operand (hmasks.le k) hregister h).bind fun value value' s t hvalue h ↦ ?_
    have hcharge : Matches entry ∅ _ (chargeValue limits value.units child)
        (chargeValue limits value.units child') := matches_chargeValue hchild
    rw [← hvalue.alike.units_eq]
    generalize chargeValue limits value.units child = left at hcharge
    generalize chargeValue limits value.units child' = right at hcharge
    cases hcharge with
    | error hreported => exact .error hreported
    | @ok _ _ child child' hcharge =>
      have hwrite : Matches entry _ _ (writeRegister parameter value child)
          (writeRegister parameter value' child') := matches_writeRegister hvalue hcharge.2
      dsimp only
      generalize writeRegister parameter value child = left at hwrite
      generalize writeRegister parameter value' child' = right at hwrite
      cases hwrite with
      | error hreported => exact .error h.reported
      | @ok _ _ child child' hwrite =>
        refine ih ?_ (h.mono ?_) (hwrite.2.mono Set.sdiff_subset)
        · intro j pair hj
          rw [Nat.add_right_comm, Nat.add_assoc]
          exact hpairs (j + 1) pair hj
        · rintro r ((hr | ⟨j, hj, hrest⟩) | ⟨rfl, hdead⟩)
          · exact .inl hr
          · exact .inr ⟨j, Nat.lt_succ_of_lt hj, hrest⟩
          · exact .inr ⟨k, Nat.lt_succ_self k, hdead, hk⟩

/-- The frame that both runs open. -/
structure FrameMatch (lowered : LoweredFunction) (instruction : Instruction) (f g : Frame) : Prop where
  child : Agree f.callee.entryBlock.toNat ∅ f.child g.child
  callee : f.callee = g.callee
  func : f.func = g.func
  resultRegister : f.resultRegister = g.resultRegister
  shape : f.shape = g.shape
  code : (lowered.bytecode :: lowered.callees)[f.func]? = some f.callee
  results : instruction.results = [f.resultRegister]

theorem findCallee_eq_some {lowered : LoweredFunction} {function : EntityId}
    {found : BytecodeFunction × ℕ} (h : lowered.findCallee function = some found) :
    (lowered.bytecode :: lowered.callees)[found.2]? = some found.1 := by
  rw [LoweredFunction.findCallee] at h
  split at h
  · obtain ⟨callee, hcallee, rfl⟩ := Option.map_eq_some_iff.1 h
    exact hcallee
  · split_ifs at h
    obtain rfl := Option.some.inj h
    rfl

section

variable (hmasks : Masks mask mask' instruction.operands)

include hmasks

section

variable (hoperands : ∀ r ∈ instruction.operands, r ∉ gone)

include hoperands

theorem matches_prepareFrame {function : EntityId} {shape : ReturnShape} (h : Agree slot gone s t) :
    Matches slot (gone ∪ marked mask instruction.operands) (FrameMatch execution.lowered instruction)
      (prepareFrame execution instruction registerTypes frames function shape mask s)
      (prepareFrame (execution.variant live unique) instruction registerTypes frames function shape
        mask' t) := by
  rw [prepareFrame, prepareFrame]
  refine matches_get.bind ?_
  rintro _ _ _ _ ⟨rfl, rfl, rfl, rfl⟩
  rw [h.maxCallDepth]
  refine (matches_rejectIf h).bind fun _ _ s t _ h ↦ ?_
  refine (matches_chargeAction h).bind fun _ _ s t _ h ↦ ?_
  refine (matches_orFault h).bind ?_
  rintro ⟨callee, func⟩ _ s t ⟨rfl, hcallee⟩ h
  refine (matches_orFault h).bind ?_
  rintro resultRegister _ s t ⟨rfl, hresult⟩ h
  refine (matches_orFault h).bind ?_
  rintro resultType _ s t ⟨rfl, -⟩ h
  refine (matches_rejectIf h).bind fun _ _ s t hcheck h ↦ ?_
  refine matches_get.bind ?_
  rintro _ _ _ _ ⟨rfl, rfl, rfl, rfl⟩
  have hopened := h.opened callee.entryBlock.toNat callee.registerTypes.length (frames + 1)
  refine (matches_setCells (by simp) h).bind fun _ _ s' t' _ h' ↦ ?_
  refine (matches_bindParameters hmasks ?_ hoperands (h'.mono Set.subset_union_left) hopened).bind
    fun child child' s t hchild h ↦ ?_
  · intro j pair hj
    rw [Nat.zero_add]
    exact (List.getElem?_zip_eq_some.1 hj).1
  · exact matches_pure
      ⟨hchild, rfl, rfl, rfl, rfl, findCallee_eq_some hcallee, resultOf_eq_some hresult⟩ h

theorem matches_prepareCall (h : Agree slot gone s t) :
    Matches slot (gone ∪ marked mask instruction.operands) (FrameMatch execution.lowered instruction)
      (prepareCall execution instruction registerTypes frames mask s)
      (prepareCall (execution.variant live unique) instruction registerTypes frames mask' t) := by
  refine (matches_orFault h).bind ?_
  rintro reference _ s t ⟨rfl, -⟩ h
  exact matches_prepareFrame hmasks hoperands h

theorem matches_prepareContractAssert (h : Agree slot gone s t) :
    Matches slot (gone ∪ marked mask instruction.operands) (FrameMatch execution.lowered instruction)
      (prepareContractAssert execution instruction registerTypes frames mask s)
      (prepareContractAssert (execution.variant live unique) instruction registerTypes frames mask'
        t) := by
  refine (matches_orFault h).bind ?_
  rintro contract _ s t ⟨rfl, -⟩ h
  refine (matches_orFault h).bind ?_
  rintro definition _ s t ⟨rfl, -⟩ h
  exact matches_prepareFrame hmasks hoperands h

end

end

/-- What both runs do next. -/
inductive NextMatch (lowered : LoweredFunction) (instruction : Instruction) (slot : ℕ)
    (gone : Set Register) : Next → Next → Runtime → Runtime → Prop
  | executed {s t : Runtime} (h : Agree slot (gone \ {r | r ∈ instruction.results}) s t) :
      NextMatch lowered instruction slot gone .executed .executed s t
  | enter {f g : Frame} {s t : Runtime} (hframe : FrameMatch lowered instruction f g)
      (h : Agree slot gone s t) : NextMatch lowered instruction slot gone (.enter f) (.enter g) s t

/-- **One instruction**: what a mask marks is gone afterwards, and nothing else. -/
theorem matches_executeInstruction {current : Current}
    (hmasks : Masks ((execution.live current.func).mask slot current.pc)
      ((live current.func).mask slot current.pc) instruction.operands)
    (hoperands : ∀ r ∈ instruction.operands, r ∉ gone) (h : Agree slot gone s t) :
    Together (NextMatch execution.lowered instruction slot
        (gone ∪ marked ((execution.live current.func).mask slot current.pc)
          instruction.operands)) Reported
      (executeInstruction execution current frames instruction s)
      (executeInstruction (execution.variant live unique) current frames instruction t) := by
  rw [executeInstruction, executeInstruction]
  refine bind (matches_chargeAction h) ?_
  rintro _ _ s₁ t₁ ⟨-, h⟩
  have hsource : (execution.variant live unique).source = execution.source := rfl
  rw [hsource]
  split_ifs
  · refine matches_get.bind ?_
    rintro _ _ _ _ ⟨rfl, rfl, rfl, rfl⟩
    rw [h.left_block, h.right_block]
    refine bind (matches_prepareCall hmasks hoperands h) ?_
    rintro f g s t ⟨hframe, h⟩
    exact .ok (.enter hframe h)
  · refine matches_get.bind ?_
    rintro _ _ _ _ ⟨rfl, rfl, rfl, rfl⟩
    rw [h.left_block, h.right_block]
    refine bind (matches_prepareContractAssert hmasks hoperands h) ?_
    rintro f g s t ⟨hframe, h⟩
    exact .ok (.enter hframe h)
  · refine matches_get.bind ?_
    rintro _ _ _ _ ⟨rfl, rfl, rfl, rfl⟩
    rw [h.left_block, h.right_block]
    refine bind (matches_executeExtended hmasks hoperands h) ?_
    rintro _ _ s t ⟨-, h⟩
    exact .ok (.executed h)
  · refine bind (matches_executeRestricted hoperands h) ?_
    rintro _ _ s t ⟨-, h⟩
    exact .ok (.executed (h.mono (Set.sdiff_subset_sdiff_left Set.subset_union_left)))

end Instructions

/-! ### Terminators -/

section Terminators

variable {limits : ExecutionLimits} {gone : Set Register} {s t : Runtime}
  {dead dead' : Register → Bool} {blocks : List BytecodeBlock} {target : BlockSlot} {slot : ℕ}

theorem matches_edgeArguments (registers : List Register)
    (hdead : ∀ r, dead' r = true → dead r = true) (hregisters : ∀ r ∈ registers, r ∉ gone)
    (h : Agree slot gone s t) :
    Matches slot (gone ∪ {r | dead r = true}) (List.Forall₂ Same) (edgeArguments limits dead registers s)
      (edgeArguments limits dead' registers t) := by
  induction registers generalizing gone s t with
  | nil => exact matches_pure .nil (h.mono Set.subset_union_left)
  | cons register registers ih =>
    obtain ⟨hregister, hrest⟩ := List.forall_mem_cons.1 hregisters
    rw [edgeArguments, edgeArguments]
    refine (matches_chargeAction h).bind fun _ _ s t _ h ↦ ?_
    refine (matches_operand (fun htaken ↦ ?_) hregister h).bind fun value value' s t hvalue h ↦ ?_
    · rw [Bool.and_eq_true] at htaken ⊢
      exact ⟨htaken.1, hdead register htaken.2⟩
    -- an argument that is read again stays until its last occurrence
    refine Matches.bind ((ih (fun r hr ↦ ?_) h).mono ?_) fun values values' s t hvalues h ↦
      matches_pure (.cons hvalue hvalues) h
    · rintro (hgone | ⟨rfl, htaken⟩)
      · exact hrest r hr hgone
      · simp [hr] at htaken
    · rintro r ((hr | ⟨rfl, htaken⟩) | hr)
      · exact .inl hr
      · exact .inr (Bool.and_eq_true_iff.1 htaken).2
      · exact .inr hr

variable {payload payload' : Option RuntimeValue} {values values' : List RuntimeValue}
  {value value' : RuntimeValue}

theorem matches_writes {registers : List Register}
    (hvalues : List.Forall₂ Same values values') (hlength : registers.length = values.length)
    (h : Agree slot gone s t) :
    Matches slot (gone \ {r | r ∈ registers}) (fun _ _ ↦ True)
      (((registers.zip values).forM fun (register, value) ↦ writeRegister register value :
        Action Unit) s)
      (((registers.zip values').forM fun (register, value) ↦ writeRegister register value :
        Action Unit) t) := by
  induction registers generalizing gone values values' s t with
  | nil => exact matches_pure trivial (h.mono (by simp))
  | cons register registers ih =>
    cases hvalues with
    | nil => cases hlength
    | cons hvalue hvalues =>
      refine Matches.bind (matches_writeRegister hvalue h) fun _ _ s t _ h ↦ ?_
      refine (ih hvalues (Nat.succ.inj hlength) h).mono ?_
      rintro r ⟨⟨hgone, hne⟩, hr⟩
      exact ⟨hgone, fun hmem ↦ (List.mem_cons.1 hmem).elim hne hr⟩

/-- The block that a jump has entered: its parameters have been written. -/
def Entered (blocks : List BytecodeBlock) (target : BlockSlot) (gone : Set Register)
    (s t : Runtime) : Prop :=
  ∃ block, blocks[target.toNat]? = some block ∧ Agree target.toNat (gone \ {r | r ∈ block.parameterRegisters}) s t

theorem matches_bindValues (hvalues : List.Forall₂ Same values values') (h : Agree slot gone s t) :
    Together (fun _ _ ↦ Entered blocks target gone) Reported (bindValues blocks target values s)
      (bindValues blocks target values' t) := by
  rw [bindValues, bindValues, ← hvalues.length_eq]
  refine bind (matches_orFault h) ?_
  rintro block _ s t ⟨⟨rfl, hblock⟩, h⟩
  refine bind (matches_rejectIf h) ?_
  rintro _ _ s t ⟨hlength, h⟩
  refine bind (matches_writes hvalues (not_ne_iff.1 hlength) h) ?_
  rintro _ _ s t ⟨-, h⟩
  exact .ok ⟨block, hblock, { h with left_block := rfl, right_block := rfl }⟩

theorem matches_bindEdge {edge : BytecodeTargetEdge} (hdead : ∀ r, dead' r = true → dead r = true)
    (hregisters : ∀ r ∈ edge.arguments, r ∉ gone) (h : Agree slot gone s t) :
    Together (fun _ _ ↦ Entered blocks edge.target (gone ∪ {r | dead r = true})) Reported
      (bindEdge limits blocks edge dead s) (bindEdge limits blocks edge dead' t) := by
  refine bind (matches_edgeArguments _ hdead hregisters h) ?_
  rintro values values' s t ⟨hvalues, h⟩
  exact matches_bindValues hvalues h

theorem matches_switchArguments (arguments : List BytecodeSwitchArgument)
    (hpayload : Option.Rel Same payload payload') (hdead : ∀ r, dead' r = true → dead r = true)
    (hregisters : ∀ r ∈ BytecodeTerminator.switchReads arguments, r ∉ gone) (h : Agree slot gone s t) :
    Matches slot (gone ∪ {r | dead r = true}) (List.Forall₂ Same)
      (switchArguments limits dead payload arguments s)
      (switchArguments limits dead' payload' arguments t) := by
  induction arguments generalizing gone s t with
  | nil => exact matches_pure .nil (h.mono Set.subset_union_left)
  | cons argument arguments ih =>
    cases argument with
    | value register =>
      obtain ⟨hregister, hrest⟩ := List.forall_mem_cons.1 hregisters
      rw [switchArguments, switchArguments]
      refine (matches_chargeAction h).bind fun _ _ s t _ h ↦ ?_
      refine (matches_operand (fun htaken ↦ ?_) hregister h).bind
        fun value value' s t hvalue h ↦ ?_
      · rw [Bool.and_eq_true] at htaken ⊢
        exact ⟨htaken.1, hdead register htaken.2⟩
      refine Matches.bind ((ih (fun r hr ↦ ?_) h).mono ?_) fun values values' s t hvalues h ↦
        matches_pure (.cons hvalue hvalues) h
      · rintro (hgone | ⟨rfl, htaken⟩)
        · exact hrest r hr hgone
        · simp [hr] at htaken
      · rintro r ((hr | ⟨rfl, htaken⟩) | hr)
        · exact .inl hr
        · exact .inr (Bool.and_eq_true_iff.1 htaken).2
        · exact .inr hr
    | casePayload =>
      unfold switchArguments
      refine (matches_chargeAction h).bind fun _ _ s t _ h ↦ ?_
      refine (matches_chargeAction h).bind fun _ _ s t _ h ↦ ?_
      cases hpayload with
      | none => exact matches_stop h.reported
      | some hvalue =>
        refine Matches.bind (ih hregisters h) fun values values' s t hvalues h ↦ ?_
        exact matches_pure (List.Forall₂.cons hvalue hvalues) h

/-- The views of the payloads of two values. -/
theorem same_payloadView {shown payload : ConstValue}
    (hvalue : value.Holds shown) (hvalue' : value'.Holds shown)
    (hpayload : payloadOf shown = some payload) (hnarrow : Narrow payload) :
    ∃ view view', value.payloadView = some view ∧ value'.payloadView = some view' ∧
      Same view view' := by
  obtain ⟨view, hview, hshows⟩ := hvalue.payloadView hpayload
  obtain ⟨view', hview', hshows'⟩ := hvalue'.payloadView hpayload
  exact ⟨view, view', hview, hview', payload, ⟨hshows, hnarrow⟩, ⟨hshows', hnarrow⟩⟩

/-- The case of a constant. -/
def caseKeyOf (value : ConstValue) : Option CaseKey :=
  match value.data with
  | .variant variant => some (.member variant.memberId)
  | .option none => some (.builtin .none)
  | .option (some _) => some (.builtin .some)
  | .result (.ok _) => some (.builtin .ok)
  | .result (.err _) => some (.builtin .err)
  | _ => none

theorem selectedCase_eq {value : RuntimeValue} {shown : ConstValue}
    (h : value.value = some shown) : selectedCase value = (caseKeyOf shown).bind fun key ↦
      match payloadOf shown with
      | none => some (key, none)
      | some _ => value.payloadView.map fun view ↦ (key, some view) := by
  obtain ⟨valueType, data⟩ := shown
  rw [selectedCase, h]
  cases data with
  | variant variant =>
    obtain ⟨definition, memberId, _ | payload⟩ := variant
    · rfl
    · exact (map_eq_bind ..).symm
  | option payload =>
    cases payload
    · rfl
    · exact (map_eq_bind ..).symm
  | result payload =>
    cases payload
    · exact (map_eq_bind ..).symm
    · exact (map_eq_bind ..).symm
  | _ => rfl

theorem narrow_payloadOf {value payload : ConstValue} (hnarrow : Narrow value)
    (h : payloadOf value = some payload) : Narrow payload := by
  obtain ⟨valueType, data⟩ := value
  cases data with
  | variant variant => exact narrow_variant.1 hnarrow payload h
  | option held =>
    cases held with
    | none => cases h
    | some held => exact Option.some.inj h ▸ hnarrow
  | result held => cases held <;> exact Option.some.inj h ▸ hnarrow
  | _ => cases h

theorem matches_selectedCase (hvalue : Same value value') (h : Agree slot gone s t) :
    Matches slot gone (fun p q ↦ p.1 = q.1 ∧ Option.Rel Same p.2 q.2) (orFault (selectedCase value) s)
      (orFault (selectedCase value') t) := by
  obtain ⟨shown, hvalue, hvalue'⟩ := hvalue
  rw [selectedCase_eq hvalue.value_eq, selectedCase_eq hvalue'.value_eq]
  cases caseKeyOf shown with
  | none => exact .error h.reported
  | some key =>
    cases hpayload : payloadOf shown with
    | none => exact .ok ⟨⟨rfl, .none⟩, h⟩
    | some payload =>
      obtain ⟨view, view', hview, hview', hsame⟩ := same_payloadView hvalue hvalue' hpayload
        (narrow_payloadOf hvalue.narrow hpayload)
      rw [hview, hview']
      exact .ok ⟨⟨rfl, .some hsame⟩, h⟩

theorem matches_selectCase {key : CaseKey}
    (cases : List BytecodeSwitchCase) (hpayload : Option.Rel Same payload payload')
    (hdead : ∀ r, dead' r = true → dead r = true)
    (hregisters : ∀ r ∈ cases.flatMap (BytecodeTerminator.switchReads ·.edge.arguments), r ∉ gone)
    (h : Agree slot gone s t) :
    Together (fun _ _ s t ↦ ∃ switchCase ∈ cases,
        Entered blocks switchCase.edge.target (gone ∪ {r | dead r = true}) s t) Reported
      (selectCase limits blocks key payload dead cases s)
      (selectCase limits blocks key payload' dead' cases t) := by
  induction cases generalizing s t with
  | nil => exact .error h.reported
  | cons switchCase cases ih =>
    rw [List.flatMap_cons, List.forall_mem_append] at hregisters
    rw [selectCase, selectCase]
    refine bind (matches_chargeAction h) ?_
    rintro _ _ s t ⟨-, h⟩
    split_ifs
    · refine bind (matches_switchArguments _ hpayload hdead hregisters.1 h) ?_
      rintro values values' s t ⟨hvalues, h⟩
      exact (matches_bindValues hvalues h).imp
        (fun _ _ s t h ↦ ⟨switchCase, List.mem_cons_self, h⟩) fun _ _ h ↦ h
    · refine (ih hregisters.2 h).imp ?_ fun _ _ h ↦ h
      rintro _ _ s t ⟨found, hfound, h⟩
      exact ⟨found, List.mem_cons_of_mem _ hfound, h⟩

theorem matches_switchTo {value : Register} {cases : List BytecodeSwitchCase}
    (hdead : ∀ r, dead' r = true → dead r = true)
    (hregisters : ∀ r ∈ (BytecodeTerminator.variantSwitch value cases).reads, r ∉ gone)
    (h : Agree slot gone s t) :
    Together (fun _ _ s t ↦ ∃ switchCase ∈ cases,
        Entered blocks switchCase.edge.target (gone ∪ {r | dead r = true}) s t) Reported
      (switchTo limits blocks value cases dead s) (switchTo limits blocks value cases dead' t) := by
  obtain ⟨hvalue, hregisters⟩ := List.forall_mem_cons.1 hregisters
  rw [switchTo, switchTo]
  refine bind (matches_operand (fun htaken ↦ ?_) hvalue h) ?_
  · rw [Bool.and_eq_true] at htaken ⊢
    exact ⟨htaken.1, hdead value htaken.2⟩
  rintro selected selected' s t ⟨hselected, h⟩
  refine bind (matches_selectedCase hselected h) ?_
  rintro ⟨key, payload⟩ ⟨_, payload'⟩ s t ⟨⟨rfl, hpayload⟩, h⟩
  -- a value that a case passes on has stayed in its register
  refine (matches_selectCase cases hpayload hdead (fun r hr ↦ ?_) h).imp ?_ fun _ _ h ↦ h
  · rintro (hgone | ⟨rfl, htaken⟩)
    · exact hregisters r hr hgone
    · obtain ⟨switchCase, hcase, hr⟩ := List.mem_flatMap.1 hr
      rw [Bool.and_eq_true, Bool.not_eq_true', List.any_eq_false] at htaken
      exact htaken.1 switchCase hcase (decide_eq_true hr)
  · rintro _ _ s t ⟨switchCase, hcase, block, hblock, h⟩
    refine ⟨switchCase, hcase, block, hblock, h.mono (Set.sdiff_subset_sdiff_left ?_)⟩
    rintro r ((hr | ⟨rfl, htaken⟩) | hr)
    · exact .inl hr
    · exact .inr (Bool.and_eq_true_iff.1 htaken).2
    · exact .inr hr

theorem matches_returnValue {resultType : TypeExpr} {register : Register}
    (hregister : register ∉ gone) (h : Agree slot gone s t) :
    Matches slot Set.univ (fun _ _ ↦ True) (returnValue limits resultType register s)
      (returnValue limits resultType register t) := by
  rw [returnValue]
  refine (matches_takeRegister hregister h).bind fun value value' s t hvalue h ↦ ?_
  rw [← hvalue.alike.units_eq]
  refine (matches_shown hvalue h).bind ?_
  rintro shown _ s t ⟨rfl, -⟩ h
  refine (matches_rejectIf h).bind fun _ _ s t _ h ↦ ?_
  refine (matches_rejectIf h).bind fun _ _ s t _ h ↦ ?_
  exact (matches_setReturned hvalue h).mono (Set.subset_univ _)

theorem matches_trap {α β : Type} {Q : α → β → Runtime → Runtime → Prop} {code : UInt32}
    {payload : Option Register} {f : Unit → Action α} {g : Unit → Action β}
    (hregisters : ∀ r ∈ payload.toList, r ∉ gone) (h : Agree slot gone s t) :
    Together Q Reported ((trap limits code payload >>= f) s)
      ((trap limits code payload >>= g) t) := by
  rw [trap, bind_bind, bind_bind]
  refine bind (matches_readValues _ hregisters h) ?_
  rintro values _ s t ⟨⟨rfl, -⟩, h⟩
  rw [bind_bind, bind_bind]
  refine bind (matches_rejectIf h) ?_
  rintro _ _ s t ⟨-, h⟩
  exact .error h.reported

end Terminators

/-! ### Iterations -/

section Machine

variable {execution : Execution} {live : Nat → FnLiveness} {unique : UInt64 → Bool}
  {s t : Runtime} {blocks : List BytecodeBlock} {slot pc : ℕ}

/-- The registers that are not live at a point. -/
def notLive (blocks : List BytecodeBlock) (slot pc : ℕ) : Set Register :=
  {r | ¬ LiveAt blocks slot pc r}

variable {block : BytecodeBlock} {stack stack' : List Suspended} {limits : ExecutionLimits}
  {returned returned' : Option RuntimeValue}

/-- A jump leaves behind what is not live in the block that it enters. -/
theorem Entered.agree {target : BlockSlot}
    (h : Entered blocks target (notLive blocks slot block.instructions.length ∪
      {r | (computeLiveness blocks).deadAfterTerminator slot r = true}) s t)
    (hblock : blocks[slot]? = some block) (htarget : target.toNat ∈ block.terminator.successors) :
    Agree target.toNat (notLive blocks target.toNat 0) s t := by
  obtain ⟨entered, hentered, h⟩ := h
  refine h.mono ?_
  rintro r ⟨hr | hdead, hparameter⟩
  · exact fun hlive ↦ hr (.edge hblock htarget hentered hparameter hlive)
  · exact not_liveAt_of_deadAfterTerminator hdead hblock htarget hentered hparameter

/-- Where a terminator leads in both runs. -/
inductive FlowMatch (blocks : List BytecodeBlock) : Flow → Flow → Runtime → Runtime → Prop
  | jumped {target : ℕ} {s t : Runtime} (h : Agree target (notLive blocks target 0) s t) :
      FlowMatch blocks .jumped .jumped s t
  | returned {last : ℕ} {s t : Runtime} (h : Agree last Set.univ s t) :
      FlowMatch blocks .returned .returned s t

theorem matches_dispatchTerminator {current : Current} {live' : FnLiveness}
    (hblock : current.blocks[slot]? = some block)
    (hlive : ∀ r, live'.deadAfterTerminator slot r = true →
      (computeLiveness current.blocks).deadAfterTerminator slot r = true)
    (h : Agree slot (notLive current.blocks slot block.instructions.length) s t) :
    Together (FlowMatch current.blocks) Reported
      (dispatchTerminator limits current (computeLiveness current.blocks) block.terminator s)
      (dispatchTerminator limits current live' block.terminator t) := by
  have hreads (r : Register) (hr : r ∈ block.terminator.reads) :
      r ∉ notLive current.blocks slot block.instructions.length :=
    fun hnot ↦ hnot (.terminator hblock hr)
  rw [dispatchTerminator, dispatchTerminator]
  refine bind (matches_chargeAction h) ?_
  rintro _ _ s t ⟨-, h⟩
  refine matches_get.bind ?_
  rintro _ _ _ _ ⟨rfl, rfl, rfl, rfl⟩
  rw [h.left_block, h.right_block]
  generalize hterminator : block.terminator = terminator at hreads
  have hjump {s t : Runtime} {target : BlockSlot} {f g : Action Unit}
      (htarget : target.toNat ∈ block.terminator.successors)
      (hbind : Together (fun _ _ ↦ Entered current.blocks target
        (notLive current.blocks slot block.instructions.length ∪
          {r | (computeLiveness current.blocks).deadAfterTerminator slot r = true})) Reported
        (f s) (g t)) :
      Together (FlowMatch current.blocks) Reported ((f >>= fun _ ↦ pure Flow.jumped) s)
        ((g >>= fun _ ↦ pure Flow.jumped) t) :=
    hbind.bind fun _ _ s t hentered ↦ .ok (.jumped (hentered.agree hblock htarget))
  cases terminator with
  | ret register =>
    refine bind (matches_returnValue (hreads register List.mem_cons_self) h) ?_
    rintro _ _ s t ⟨-, h⟩
    exact .ok (.returned h)
  | branch edge =>
    exact hjump (by simp [hterminator, successors])
      (matches_bindEdge hlive hreads h)
  | condBranch condition ifTrue ifFalse =>
    obtain ⟨hcondition, harguments⟩ := List.forall_mem_cons.1 hreads
    rw [List.forall_mem_append] at harguments
    refine bind (matches_readRegister hcondition h) ?_
    rintro value value' s t ⟨hvalue, h⟩
    refine bind (matches_shown hvalue h) ?_
    rintro shown _ s t ⟨⟨rfl, -⟩, h⟩
    cases boolOf shown with
    | none => exact .error h.reported
    | some held =>
      cases held with
      | true =>
        exact hjump (by simp [hterminator, successors])
          (matches_bindEdge hlive harguments.1 h)
      | false =>
        exact hjump (by simp [hterminator, successors])
          (matches_bindEdge hlive harguments.2 h)
  | variantSwitch value cases =>
    refine (matches_switchTo hlive hreads h).bind ?_
    rintro _ _ s t ⟨switchCase, hcase, hentered⟩
    refine .ok (.jumped (hentered.agree hblock ?_))
    rw [hterminator]
    exact List.mem_map_of_mem hcase
  | trap code payload => exact matches_trap hreads h

/-! ### Frames -/

/-- A caller waits for the result of its call and for nothing else that is not live. -/
structure SuspendedMatch (execution : Execution) (p q : Suspended) : Prop where
  current : p.current = q.current
  resultRegister : p.resultRegister = q.resultRegister
  shape : p.shape = q.shape
  frame : FrameAgree p.runtime.block
    (notLive p.current.blocks p.runtime.block p.current.pc ∪ {p.resultRegister}) p.runtime q.runtime
  live : execution.live p.current.func = computeLiveness p.current.blocks
  pc_le : ∀ block, p.current.blocks[p.runtime.block]? = some block →
    p.current.pc ≤ block.instructions.length

/-- The runs stand at the same point, and agree off what is not live there. -/
structure MachineMatch (execution : Execution) (m n : Machine) : Prop where
  current : m.current = n.current
  live : execution.live m.current.func = computeLiveness m.current.blocks
  pc_le : ∀ block, m.current.blocks[m.runtime.block]? = some block →
    m.current.pc ≤ block.instructions.length
  stack : List.Forall₂ (SuspendedMatch execution) m.stack n.stack
  runtime : Agree m.runtime.block (notLive m.current.blocks m.runtime.block m.current.pc) m.runtime
    n.runtime

/-- What an iteration leads to in both runs. -/
inductive ProgressMatch (execution : Execution) : Progress → Progress → Prop
  | running {m n : Machine} (h : MachineMatch execution m n) :
      ProgressMatch execution (.running m) (.running n)
  | ended (outcome : CoreOutcome) : ProgressMatch execution (.ended outcome) (.ended outcome)

theorem Reported.outcome (h : Reported s t) (termination : ExecutionTermination) :
    CoreOutcome.of termination s = CoreOutcome.of termination t := by
  obtain ⟨hmeter, hdepth⟩ := h
  rw [CoreOutcome.of, CoreOutcome.of, hmeter, hdepth]

theorem reported_unwind
    (hstack : List.Forall₂ (SuspendedMatch execution) stack stack') (h : Reported s t) :
    Reported (unwind s stack) (unwind t stack') := by
  induction hstack generalizing s t with
  | nil => exact h
  | cons _ _ ih => exact ih h

theorem ProgressMatch.stopped
    (hstack : List.Forall₂ (SuspendedMatch execution) stack stack') (h : Reported s t)
    (reason : Stop) :
    ProgressMatch execution (.stopped stack s reason) (.stopped stack' t reason) := by
  cases reason with
  | fault =>
    rw [Progress.stopped, Progress.stopped, h.outcome]
    exact .ended _
  | terminated termination =>
    rw [Progress.stopped, Progress.stopped, (reported_unwind hstack h).outcome]
    exact .ended _

theorem alike_resultValue (shape : ReturnShape) (h : Option.Rel Same returned returned') :
    Option.Rel Alike (returned.bind shape.resultValue) (returned'.bind shape.resultValue) := by
  cases h with
  | none => exact .none
  | @some a b hsame =>
    cases shape with
    | direct => exact .some hsame.alike
    | contractAssertion =>
      have hnarrow (held : Bool) : Narrow (contractAssertValue held) := by cases held <;> trivial
      obtain ⟨⟨valueType, data⟩, ha, hb⟩ := hsame
      show Option.Rel Alike (ReturnShape.contractAssertion.resultValue a)
        (ReturnShape.contractAssertion.resultValue b)
      rw [ReturnShape.resultValue, ReturnShape.resultValue, ha.value_eq, hb.value_eq]
      cases data with
      | bool held => exact .some (alike_new (hnarrow held))
      | _ => exact .none

theorem matches_returnToCaller {parent parent' : Suspended} {gone : Set Register}
    (hparent : SuspendedMatch execution parent parent')
    (hreturned : Option.Rel Same returned returned') (h : Agree slot gone s t) :
    Matches slot (gone \ {parent.resultRegister}) (fun _ _ ↦ True)
      (returnToCaller limits parent returned s) (returnToCaller limits parent' returned' t) := by
  rw [returnToCaller, returnToCaller, ← hparent.shape, ← hparent.resultRegister]
  have hvalue := alike_resultValue parent.shape hreturned
  generalize returned.bind parent.shape.resultValue = left at hvalue
  generalize returned'.bind parent.shape.resultValue = right at hvalue
  cases hvalue with
  | none => exact .error h.reported
  | @some value value' hvalue =>
    rw [orFault_some_bind, orFault_some_bind, ← hvalue.units_eq]
    refine (matches_chargeValue h).bind fun _ _ s t hunits h ↦ ?_
    refine (matches_countInstruction h).bind fun _ _ s t _ h ↦ ?_
    exact matches_writeRegister (hvalue.same hunits) h

theorem progressMatch_finishFrame (hstack : List.Forall₂ (SuspendedMatch execution) stack stack')
    (h : Agree slot Set.univ s t) :
    ProgressMatch execution (finishFrame limits s stack)
      (finishFrame limits t stack') := by
  cases hstack with
  | nil =>
    have hvalue : s.returned.bind value = t.returned.bind value := by
      have hreturned := h.returned
      generalize s.returned = left at hreturned
      generalize t.returned = right at hreturned
      cases hreturned with
      | none => rfl
      | some hsame => exact hsame.alike.value_eq
    rw [finishFrame, finishFrame, hvalue]
    cases t.returned.bind value with
    | none =>
      dsimp only
      rw [h.reported.outcome]
      exact .ended _
    | some value =>
      dsimp only
      rw [h.reported.outcome]
      exact .ended _
  | @cons parent parent' stack stack' hparent hstack =>
    rw [finishFrame, finishFrame]
    have hadopted := hparent.frame.adoptFrame h.toShared
    have hreturn : Matches _ _ _ (returnToCaller limits parent s.returned (adoptFrame parent.runtime s))
        (returnToCaller limits parent' t.returned (adoptFrame parent'.runtime t)) :=
      matches_returnToCaller hparent h.returned hadopted
    generalize returnToCaller limits parent s.returned (adoptFrame parent.runtime s) = left at hreturn
    generalize returnToCaller limits parent' t.returned (adoptFrame parent'.runtime t) = right
      at hreturn
    cases hreturn with
    | error hreported => exact .stopped hstack hreported _
    | @ok _ _ s t hreturn =>
      obtain ⟨-, hagree⟩ := hreturn
      refine .running ⟨hparent.current, hparent.live, ?_, hstack, ?_⟩
      · rw [hagree.left_block]
        exact hparent.pc_le
      · rw [hagree.left_block]
        refine hagree.mono ?_
        rintro r ⟨hr | hr, hne⟩
        · exact hr
        · exact absurd hr hne

/-- The tables in which nothing is dead. -/
theorem isDead_noLivenesses {func slot pc k : ℕ} :
    isDead ((noLivenesses func).mask slot pc) k = false := by
  simp [noLivenesses, default, FnLiveness.mask, isDead]

/-- The masks of an instruction in the run that moves and in the run that does not. -/
theorem masks_computeLiveness {instruction : Instruction} {func : ℕ}
    (hblock : blocks[slot]? = some block)
    (hinstruction : block.instructions[pc]? = some instruction) :
    Masks ((computeLiveness blocks).mask slot pc) ((noLivenesses func).mask slot pc)
      instruction.operands := by
  refine ⟨fun k hk ↦ ?_, fun k r hk hr ↦ ?_⟩
  · rw [isDead_noLivenesses] at hk
    cases hk
  · obtain ⟨r', hr', hcount, -⟩ := not_liveAt_of_isDead hk hblock hinstruction
    rw [hr] at hr'
    obtain rfl := Option.some.inj hr'
    exact hcount

/-- **What an instruction leaves behind is not live after it**, but for its results. -/
theorem notLive_succ {instruction : Instruction} (hblock : blocks[slot]? = some block)
    (hinstruction : block.instructions[pc]? = some instruction) :
    (notLive blocks slot pc ∪ marked ((computeLiveness blocks).mask slot pc) instruction.operands) \
      {r | r ∈ instruction.results} ⊆ notLive blocks slot (pc + 1) := by
  rintro r ⟨hr | ⟨k, hk, hr⟩, hresult⟩
  · exact fun hlive ↦ hr (.step hblock hinstruction hresult hlive)
  · obtain ⟨r', hr', -, hlive⟩ := not_liveAt_of_isDead hk hblock hinstruction
    rw [hr] at hr'
    obtain rfl := Option.some.inj hr'
    exact hlive

/-- **One iteration.** -/
theorem progressMatch_step (unique : UInt64 → Bool) {m n : Machine}
    (hcode : execution.live = execution.lowered.livenesses)
    (h : MachineMatch execution m n) :
    ProgressMatch execution (m.step execution) (n.step (execution.variant noLivenesses unique)) := by
  obtain ⟨runtime, stack, current⟩ := m
  obtain ⟨runtime', stack', _⟩ := n
  obtain ⟨rfl, hlive, hbound, hstack, hruntime⟩ := h
  dsimp only at hlive hbound hstack hruntime
  rw [step, step]
  dsimp only
  rw [hruntime.right_block]
  cases hblock : current.blocks[runtime.block]? with
  | none => exact .stopped hstack hruntime.reported _
  | some block =>
    dsimp only
    cases hinstruction : block.instructions[current.pc]? with
    | some instruction =>
      have hlt := (List.getElem?_eq_some_iff.1 hinstruction).1
      have hsucc := notLive_succ hblock hinstruction
      have hmasks : Masks _ ((noLivenesses current.func).mask _ _) _ :=
        masks_computeLiveness hblock hinstruction
      have hoperands (r : Register) (hr : r ∈ instruction.operands) :
          r ∉ notLive current.blocks runtime.block current.pc :=
        fun hnot ↦ hnot (.operand hblock hinstruction hr)
      have hpc (found : BytecodeBlock) (hfound : current.blocks[runtime.block]? = some found) :
          current.pc + 1 ≤ found.instructions.length :=
        Option.some.inj (hblock.symm.trans hfound) ▸ hlt
      rw [← hlive] at hmasks hsucc
      have hexecute : Together _ _
          (executeInstruction execution current (stack.length + 1) instruction runtime)
          (executeInstruction (execution.variant noLivenesses unique) current (stack.length + 1)
            instruction runtime') :=
        matches_executeInstruction hmasks hoperands hruntime
      rw [← hstack.length_eq]
      dsimp only
      generalize executeInstruction execution current (stack.length + 1) instruction runtime = left
        at hexecute
      generalize executeInstruction (execution.variant noLivenesses unique) current
        (stack.length + 1) instruction runtime' = right at hexecute
      cases hexecute with
      | error hreported => exact .stopped hstack hreported _
      | ok hnext =>
        cases hnext with
        | executed h =>
          refine .running ⟨rfl, hlive, ?_, hstack, ?_⟩
          · rw [h.left_block]
            exact hpc
          · rw [h.left_block]
            exact h.mono hsucc
        | @enter f g _ _ hframe h =>
          obtain ⟨child', callee, func, resultRegister, shape⟩ := g
          obtain ⟨hchild, hcallee, hfunc, hresult, hshape, hfound, hresults⟩ := hframe
          dsimp only at hcallee hfunc hresult hshape
          subst hcallee hfunc hresult hshape
          refine .running ⟨rfl, ?_, fun _ _ ↦ Nat.zero_le _, ?_, ?_⟩
          · show execution.live f.func = _
            rw [hcode, LoweredFunction.livenesses, hfound]
            rfl
          · refine .cons ⟨rfl, rfl, rfl, ?_, hlive, ?_⟩ hstack
            · rw [h.left_block]
              refine h.toFrameAgree.mono fun r hr ↦ ?_
              by_cases hr' : r ∈ instruction.results
              · rw [hresults] at hr'
                exact .inr (List.mem_singleton.1 hr')
              · exact .inl (hsucc ⟨hr, hr'⟩)
            · rw [h.left_block]
              exact hpc
          · rw [hchild.left_block]
            exact hchild.mono (Set.empty_subset _)
    | none =>
      have hpc : current.pc = block.instructions.length :=
        le_antisymm (hbound block hblock) (List.getElem?_eq_none_iff.1 hinstruction)
      rw [hpc] at hruntime
      have hlimits : (execution.variant noLivenesses unique).limits = execution.limits := rfl
      have hlive' : (execution.variant noLivenesses unique).live current.func =
          noLivenesses current.func := rfl
      have hdispatch : Together (FlowMatch current.blocks) Reported
          (dispatchTerminator execution.limits current (computeLiveness current.blocks)
            block.terminator runtime)
          (dispatchTerminator execution.limits current (noLivenesses current.func) block.terminator
            runtime') := by
        refine matches_dispatchTerminator hblock (fun r hr ↦ ?_) hruntime
        simp [noLivenesses, default, FnLiveness.deadAfterTerminator] at hr
      rw [hlimits, hlive', hlive]
      dsimp only
      generalize dispatchTerminator execution.limits current (computeLiveness current.blocks)
        block.terminator runtime = left at hdispatch
      generalize dispatchTerminator execution.limits current (noLivenesses current.func)
        block.terminator runtime' = right at hdispatch
      cases hdispatch with
      | error hreported => exact .stopped hstack hreported _
      | ok hflow =>
        cases hflow with
        | jumped h =>
          refine .running ⟨rfl, hlive, fun _ _ ↦ Nat.zero_le _, hstack, ?_⟩
          rw [h.left_block]
          exact h
        | returned h => exact progressMatch_finishFrame hstack h

end Machine

/-! ### Whole runs -/

section Run

variable {execution : Execution} {unique : UInt64 → Bool}

theorem runFor_eq_of_match (execution : Execution) (hcode : execution.live = execution.lowered.livenesses)
    (iterations : ℕ) {m n : Machine} (h : MachineMatch execution m n) :
    runFor execution iterations m =
      runFor (execution.variant noLivenesses unique) iterations n := by
  induction iterations generalizing m n with
  | zero => rfl
  | succ iterations ih =>
    have hstep := progressMatch_step unique hcode h
    rw [runFor, runFor]
    generalize m.step execution = left at hstep
    generalize n.step (execution.variant noLivenesses unique) = right at hstep
    cases hstep with
    | running h => exact ih h
    | ended outcome => rfl

theorem toNat_of_addInputUnits {sum amount total : UInt64}
    (h : addInputUnits sum amount = some total) : amount.toNat < 2 ^ 64 - 1 := by
  rw [addInputUnits, Option.filter_eq_some_iff] at h
  obtain ⟨hsum, hle⟩ := h
  rw [UInt64.checkedAdd_eq_some] at hsum
  have hle := UInt64.le_iff_toNat_le.1 (of_decide_eq_true hle)
  rw [maxExecutionInputValueUnits] at hle
  simp only [UInt64.reduceToNat] at hle
  omega

theorem matches_writeInputs {slot : ℕ} {s t : Runtime} (registers : List Register)
    {inputs : List ConstValue} {sum total : UInt64}
    (hcounted : inputs.foldlM (fun sum value ↦ addInputUnits sum (valueUnitsConst value)) sum =
      some total) (hnarrow : ∀ v ∈ inputs, Narrow v) (h : Agree slot ∅ s t) :
    Matches slot ∅ (fun _ _ ↦ True) (writeInputs registers inputs s)
      (writeInputs registers inputs t) := by
  induction inputs generalizing registers sum s t with
  | nil =>
    rw [writeInputs]
    exact matches_pure trivial h
  | cons value inputs ih =>
    cases registers with
    | nil => exact .error h.reported
    | cons register registers =>
      obtain ⟨hvalue, hnarrow⟩ := List.forall_mem_cons.1 hnarrow
      rw [List.foldlM_cons, Option.bind_eq_bind, bind_eq_some_iff] at hcounted
      obtain ⟨next, hnext, hcounted⟩ := hcounted
      have hholds : (new value).Holds value :=
        (presents_new hvalue).holds (toNat_of_addInputUnits hnext)
      rw [writeInputs]
      refine (matches_writeRegister ⟨value, hholds, hholds⟩ h).bind fun _ _ s t _ h ↦ ?_
      exact ih registers hcounted hnarrow (h.mono Set.sdiff_subset)

/-- A run has live units from its start. -/
theorem agree_initial (lowered : LoweredFunction) (inputUnits : UInt64) (maxCallDepth : ℕ) :
    Agree lowered.bytecode.entryBlock.toNat ∅ (lowered.initial inputUnits maxCallDepth)
      (lowered.initial inputUnits maxCallDepth) := by
  have hnone (r : Register) : (lowered.initial inputUnits maxCallDepth).ExactAt r := by
    intro value hvalue
    rw [LoweredFunction.initial, join_replicate] at hvalue
    cases hvalue
  refine ⟨⟨rfl, rfl, rfl, rfl, fun _ _ ↦ rfl, fun r _ ↦ hnone r, fun r _ ↦ hnone r, .none⟩, rfl,
    rfl, rfl, fun v hv ↦ absurd hv List.not_mem_nil, ?_⟩
  have hbytes := List.length_pos_of_ne_nil lowered.bytes_ne_nil
  show 0 < (initialValueUnits lowered.bytecode.registerTypes lowered.bytes inputUnits).toNat
  rw [initialValueUnits, UInt64.toNat_saturatingAdd, UInt64.toNat_saturate]
  omega

/-- **A run that moves operands on their last use ends as the run that keeps them**, whatever roots
are shared in either; and what is moved is not live: no path reads it again before it is
rewritten. -/
theorem run_moves_eq_run_clones (source : ExecutionSource) (lowered : LoweredFunction)
    (limits : ExecutionLimits) (unique unique' : UInt64 → Bool) (inputs : ValidatedInputs)
    (maxCallDepth : ℕ) :
    (∀ iterations, runCore ⟨source, lowered, limits, lowered.livenesses, unique⟩ inputs maxCallDepth
        iterations =
      runCore ⟨source, lowered, limits, noLivenesses, unique'⟩ inputs maxCallDepth iterations) ∧
    (∀ (blocks : List BytecodeBlock) (slot pc k : ℕ) (block : BytecodeBlock)
        (instruction : Instruction), blocks[slot]? = some block →
      block.instructions[pc]? = some instruction →
      isDead ((computeLiveness blocks).mask slot pc) k = true →
      ∃ r, instruction.operands[k]? = some r ∧ instruction.operands.count r = 1 ∧
        ¬ LiveAt blocks slot (pc + 1) r) ∧
    ∀ (blocks : List BytecodeBlock) (slot successor : ℕ) (r : Register)
        (block target : BytecodeBlock), blocks[slot]? = some block →
      successor ∈ block.terminator.successors → blocks[successor]? = some target →
      r ∉ target.parameterRegisters →
      (computeLiveness blocks).deadAfterTerminator slot r = true → ¬ LiveAt blocks successor 0 r := by
  refine ⟨fun iterations ↦ ?_, fun blocks slot pc k block instruction hblock hinstruction hdead ↦
    not_liveAt_of_isDead hdead hblock hinstruction,
    fun blocks slot successor r block target hblock hs htarget hr hdead ↦
      not_liveAt_of_deadAfterTerminator hdead hblock hs htarget hr⟩
  rw [runCore, runCore]
  dsimp only
  split_ifs
  · rfl
  · rfl
  · have hwrite := matches_writeInputs lowered.bytecode.parameterRegisters inputs.counted
      inputs.narrow (agree_initial lowered inputs.valueUnits maxCallDepth)
    generalize writeInputs lowered.bytecode.parameterRegisters inputs.inputs
      (lowered.initial inputs.valueUnits maxCallDepth) = written at hwrite ⊢
    obtain ⟨reason | ⟨⟩, runtime⟩ := written
    · rfl
    · obtain ⟨-, hruntime⟩ : True ∧ Agree _ ∅ runtime runtime := by
        cases hwrite with
        | ok h => exact h
      refine runFor_eq_of_match ⟨source, lowered, limits, lowered.livenesses, unique⟩ rfl iterations ?_
      refine ⟨rfl, rfl, fun _ _ ↦ Nat.zero_le _, .nil, ?_⟩
      rw [hruntime.left_block]
      exact hruntime.mono (Set.empty_subset _)

end Run

end Sley.Vm
