import Sley.Vm.Maps
import Sley.Vm.MoveOnLastUse

/-!
# Runs of map operations

A frame executes operations on maps, whatever masks move out of its registers and whatever owners a
root has, and switches on their results, which is how a new map leaves its `Ok`. **A frame whose
values are canonical stays so** (`CanonicalFrame`), and every operation keeps its law. The search by
halving depends on this and on nothing else: out of order it misses keys
(`mapOperations_outOfOrder`).
-/

namespace Sley.Vm

open Ssmc UInt64 Action Operation Mutate Mutate.ConstEncoding TypeCheck
open Scb1 (Bytes)
open Option (bind_eq_some_iff map_eq_some_iff mem_toList)
open Prod (mk)
open Except (ofOption_eq_ok)

/-! ### Canonical frames -/

/-- A runtime value that stands for a canonical constant. -/
def HoldsCanonical (value : RuntimeValue) : Prop := ∃ shown, value.Holds shown ∧ Canonical shown

theorem mem_nestedValues_of_payloadOf {value payload : ConstValue}
    (h : payloadOf value = some payload) : payload ∈ nestedValues value := by
  obtain ⟨valueType, data⟩ := value
  cases data with
  | variant variant => exact mem_toList.2 h
  | option held =>
    cases held with
    | none => cases h
    | some held => exact mem_toList.2 h
  | result held =>
    cases held <;> exact List.mem_singleton.2 (Option.some.inj h).symm
  | _ => cases h

/-- A frame of canonical values, in a run that has live units. -/
structure CanonicalFrame (frame : Runtime) : Prop where
  pos : 0 < frame.liveValueUnits.toNat
  cells : ∀ v ∈ frame.cells, Narrow v
  holds : ∀ (r : Register) (value : RuntimeValue), frame.registers[r.toNat]?.join = some value →
    HoldsCanonical value

section Frames

variable {α : Type} {start frame next : Runtime} {register : Register} {limits : ExecutionLimits}
  {value : RuntimeValue}

theorem Loses.canonical (h : Loses start frame) (hstart : CanonicalFrame start) :
    CanonicalFrame frame := by
  refine ⟨?_, ?_, fun r value hvalue ↦ ?_⟩
  · rw [h.eq]
    exact hstart.pos
  · rw [h.eq]
    exact hstart.cells
  · obtain hsame | hnone := h.register r
    · exact hstart.holds r value (hsame ▸ hvalue)
    · rw [hnone] at hvalue
      cases hvalue

theorem CanonicalFrame.exactAt (h : CanonicalFrame frame) (r : Register) : frame.ExactAt r :=
  fun value hvalue ↦ (h.holds r value hvalue).imp fun _ ↦ And.left

theorem CanonicalFrame.file (h : CanonicalFrame frame) {r : Register} {shown : ConstValue}
    (hshown : frame.file r = some shown) : Canonical shown ∧ Narrow shown := by
  obtain ⟨value, hvalue, hshows⟩ := bind_eq_some_iff.1 hshown
  obtain ⟨shown', hholds, hcanonical⟩ := h.holds r value hvalue
  obtain rfl := Option.some.inj (hshows.symm.trans hholds.value_eq)
  exact ⟨hcanonical, hholds.narrow⟩

/-- Registers as they were, and live units. -/
theorem CanonicalFrame.congr (h : CanonicalFrame start)
    (hregisters : frame.registers = start.registers) (hcells : frame.cells = start.cells)
    (hpos : 0 < frame.liveValueUnits.toNat) : CanonicalFrame frame :=
  ⟨hpos, hcells ▸ h.cells, fun r value hvalue ↦ h.holds r value (hregisters ▸ hvalue)⟩

/-- A value is written. -/
theorem CanonicalFrame.set (h : CanonicalFrame frame) (hvalue : HoldsCanonical value)
    (hlt : register.toNat < frame.registers.length) :
    CanonicalFrame { frame with registers := frame.registers.set register.toNat (some value) } := by
  refine ⟨h.pos, h.cells, fun r held hheld ↦ ?_⟩
  rw [join_set hlt] at hheld
  split_ifs at hheld
  · obtain rfl := Option.some.inj hheld
    exact hvalue
  · exact h.holds r held hheld

/-! ### Actions on canonical frames -/

theorem keeps_orFault {x : Option α} : (orFault x).Keeps CanonicalFrame fun a ↦ x = some a := by
  refine reads_ofExcept.keeps fun s a s' _ h ↦ ?_
  obtain ⟨h, -⟩ := ofExcept_eq_ok.1 h
  exact ofOption_eq_ok.1 h

theorem keeps_rejectIf {c : Prop} [Decidable c] {reason : Stop} :
    (rejectIf c reason).Keeps CanonicalFrame fun _ ↦ True :=
  reads_ofExcept.keeps fun _ _ _ _ _ ↦ trivial

theorem keeps_stop {Q : α → Prop} {termination : ExecutionTermination} :
    (stop termination).Keeps CanonicalFrame Q := by
  intro s a s' _ h
  cases (ofExcept_eq_ok.1 h).1

theorem keeps_chargeAction {instruction : Bool} :
    (chargeAction limits instruction).Keeps CanonicalFrame fun _ ↦ True := by
  intro s a s' hs h
  rw [chargeAction] at h
  split at h
  · cases h
  · rename_i meter hmeter
    obtain ⟨-, -, -, rfl⟩ := Meter.chargeAction_eq_ok.1 hmeter
    obtain ⟨-, rfl⟩ := mk.inj h
    exact ⟨hs.congr rfl rfl hs.pos, trivial⟩

theorem keeps_goTo {block : ℕ} : (goTo block).Keeps CanonicalFrame fun _ ↦ True := by
  intro s a s' hs h
  obtain ⟨-, rfl⟩ := modify_eq_ok.1 h
  exact ⟨hs.congr rfl rfl hs.pos, trivial⟩

theorem readRegister_eq_ok : readRegister register start = (.ok value, frame) ↔
    start.registers[register.toNat]?.join = some value ∧ frame = start := by
  rw [readRegister, ofState_eq_ok, ofOption_eq_ok]

theorem keeps_operand {dead : Bool} :
    (operand register dead).Keeps CanonicalFrame HoldsCanonical := by
  intro s value s' hs h
  have hmoves : (operand register dead).Moves Loses := releases_operand
  have hloses := hmoves s
  rw [h] at hloses
  refine ⟨hloses.canonical hs, ?_⟩
  rw [operand] at h
  split_ifs at h
  · rw [takeRegister] at h
    split at h
    · cases h
    · rename_i held hheld
      obtain ⟨hvalue, -⟩ := mk.inj h
      obtain rfl := Except.ok.inj hvalue
      exact hs.holds register held hheld
  · exact hs.holds register value (readRegister_eq_ok.1 h).1

theorem keeps_writeRegister (hvalue : HoldsCanonical value) :
    (writeRegister register value).Keeps CanonicalFrame fun _ ↦ True := by
  intro s a s' hs h
  rw [writeRegister] at h
  split_ifs at h with hlt
  · obtain ⟨-, rfl⟩ := mk.inj h
    exact ⟨hs.set hvalue hlt, trivial⟩
  · cases h

end Frames

/-! ### A switch -/

section Switch

variable {limits : ExecutionLimits} {blocks : List BytecodeBlock} {dead : Register → Bool}
  {payload : Option RuntimeValue}

theorem keeps_switchArguments (hpayload : ∀ value ∈ payload, HoldsCanonical value)
    (arguments : List BytecodeSwitchArgument) :
    (switchArguments limits dead payload arguments).Keeps CanonicalFrame
      fun values ↦ ∀ value ∈ values, HoldsCanonical value := by
  induction arguments with
  | nil => exact keeps_pure nofun
  | cons argument arguments ih =>
    cases argument with
    | value register =>
      refine keeps_chargeAction.bind fun _ _ ↦ keeps_operand.bind fun value hvalue ↦ ?_
      refine ih.bind fun values hvalues ↦ keeps_pure ?_
      exact List.forall_mem_cons.2 ⟨hvalue, hvalues⟩
    | casePayload =>
      refine keeps_chargeAction.bind fun _ _ ↦ keeps_chargeAction.bind fun _ _ ↦ ?_
      cases payload with
      | none => exact keeps_stop
      | some value =>
        refine ih.bind fun values hvalues ↦ keeps_pure ?_
        exact List.forall_mem_cons.2 ⟨hpayload value rfl, hvalues⟩

theorem keeps_bindValues {target : BlockSlot} {values : List RuntimeValue}
    (hvalues : ∀ value ∈ values, HoldsCanonical value) :
    (bindValues blocks target values).Keeps CanonicalFrame fun _ ↦ True := by
  refine keeps_orFault.bind fun block _ ↦ keeps_rejectIf.bind fun _ _ ↦ ?_
  refine (keeps_forM fun pair hpair ↦ ?_).bind fun _ _ ↦ keeps_goTo
  exact keeps_writeRegister (hvalues pair.2 (List.of_mem_zip hpair).2)

theorem holdsCanonical_of_selectedCase {value : RuntimeValue} {key : CaseKey}
    (hvalue : HoldsCanonical value) (h : selectedCase value = some (key, payload)) :
    ∀ held ∈ payload, HoldsCanonical held := by
  obtain ⟨shown, hholds, hcanonical⟩ := hvalue
  rw [selectedCase_eq hholds.value_eq] at h
  obtain ⟨key, -, h⟩ := bind_eq_some_iff.1 h
  cases hpayload : payloadOf shown with
  | none =>
    rw [hpayload] at h
    obtain ⟨-, rfl⟩ := mk.inj (Option.some.inj h)
    exact nofun
  | some part =>
    rw [hpayload] at h
    obtain ⟨view, hview, h⟩ := map_eq_some_iff.1 h
    obtain ⟨-, rfl⟩ := mk.inj h
    obtain ⟨view', hview', hshows⟩ := hholds.payloadView hpayload
    obtain rfl := Option.some.inj (hview.symm.trans hview')
    intro held hheld
    obtain rfl := Option.some.inj hheld
    refine ⟨part, ⟨hshows, narrow_payloadOf hholds.narrow hpayload⟩, hcanonical.nested ?_⟩
    exact mem_nestedValues_of_payloadOf hpayload

theorem keeps_selectCase (hpayload : ∀ value ∈ payload, HoldsCanonical value) (key : CaseKey)
    (cases : List BytecodeSwitchCase) :
    (selectCase limits blocks key payload dead cases).Keeps CanonicalFrame fun _ ↦ True := by
  induction cases with
  | nil => exact keeps_stop
  | cons switchCase cases ih =>
    refine keeps_chargeAction.bind fun _ _ ↦ ?_
    split_ifs
    · exact (keeps_switchArguments hpayload _).bind fun values hvalues ↦ keeps_bindValues hvalues
    · exact ih

theorem keeps_switchTo {value : Register} {cases : List BytecodeSwitchCase} :
    (switchTo limits blocks value cases dead).Keeps CanonicalFrame fun _ ↦ True := by
  refine keeps_operand.bind fun selected hselected ↦ keeps_orFault.bind fun pair hpair ↦ ?_
  obtain ⟨key, payload⟩ := pair
  exact keeps_selectCase (holdsCanonical_of_selectedCase hselected hpair) key cases

end Switch

/-! ### An operation -/

section Operations

variable {execution : Execution} {source : ExecutionSource} {opcode : Opcode}
  {instruction : Instruction} {mask : UInt64} {resultType : TypeExpr} {start frame : Runtime}

theorem readValues_eq_ok {registers : List Register} {values : List ConstValue}
    (h : readValues registers start = (.ok values, frame)) :
    registers.mapM start.file = some values ∧ frame = start := by
  induction registers generalizing values start frame with
  | nil =>
    obtain ⟨rfl, rfl⟩ := pure_eq_ok.1 h
    exact ⟨rfl, rfl⟩
  | cons register registers ih =>
    rw [readValues] at h
    obtain ⟨held, s₁, hread, h₁⟩ := bind_eq_ok.1 h
    obtain ⟨value, s₂, hvalue, h₂⟩ := bind_eq_ok.1 h₁
    obtain ⟨values, s₃, hvalues, h₃⟩ := bind_eq_ok.1 h₂
    obtain ⟨hheld, rfl⟩ := readRegister_eq_ok.1 hread
    obtain ⟨hshows, rfl⟩ := ofExcept_eq_ok.1 hvalue
    obtain ⟨hrest, rfl⟩ := ih hvalues
    obtain ⟨rfl, rfl⟩ := pure_eq_ok.1 h₃
    have hfile : Runtime.file _ register = some value :=
      bind_eq_some_iff.2 ⟨held, hheld, ofOption_eq_ok.1 hshows⟩
    refine ⟨?_, rfl⟩
    rw [List.mapM_cons, hfile, hrest]
    rfl

variable {value : RuntimeValue} {file : Register → Option ConstValue} {stored : UInt64}

/-- Where the owned arms have a meaning, the operands have values. -/
theorem values_of_meaning {shown : ConstValue} (hopcode : isMapOperation opcode = true)
    (h : Owned.meaning source file opcode instruction resultType = some (some shown)) :
    ∃ values, instruction.operands.mapM file = some values := by
  obtain ⟨tag, operands, results, immediate⟩ := instruction
  cases opcode
  case mapNew => cases h
  case mapGet | mapContains | mapRemove =>
    match operands with
    | [map, key] =>
      obtain ⟨_, h, -⟩ := map_eq_some_iff.1 h
      obtain ⟨keyValue, hkey, h⟩ := bind_eq_some_iff.1 h
      obtain ⟨_, -, h⟩ := bind_eq_some_iff.1 h
      obtain ⟨mapValue, hmap, -⟩ := bind_eq_some_iff.1 h
      exact ⟨[mapValue, keyValue], by simp [hkey, hmap]⟩
    | [] | [_] | _ :: _ :: _ :: _ => cases h
  case mapInsert =>
    match operands with
    | [map, key, value] =>
      obtain ⟨_, h, -⟩ := map_eq_some_iff.1 h
      obtain ⟨keyValue, hkey, h⟩ := bind_eq_some_iff.1 h
      obtain ⟨item, hitem, h⟩ := bind_eq_some_iff.1 h
      obtain ⟨mapValue, hmap, -⟩ := bind_eq_some_iff.1 h
      exact ⟨[mapValue, keyValue, item], by simp [hkey, hmap, hitem]⟩
    | [] | [_] | [_, _] | _ :: _ :: _ :: _ :: _ => cases h
  all_goals cases hopcode

theorem findIdx?_congr {α : Type} {p q : α → Bool} {xs : List α} (h : ∀ x ∈ xs, p x = q x) :
    xs.findIdx? p = xs.findIdx? q := by
  induction xs with
  | nil => rfl
  | cons x xs ih =>
    obtain ⟨hx, hxs⟩ := List.forall_mem_cons.1 h
    rw [List.findIdx?_cons, List.findIdx?_cons, hx, ih hxs]

theorem forall_of_mapM {P : ConstValue → Prop}
    {registers : List Register} {values : List ConstValue}
    (h : registers.mapM file = some values) (hP : ∀ r v, file r = some v → P v) :
    ∀ v ∈ values, P v := by
  induction registers generalizing values with
  | nil =>
    obtain rfl := Owned.mapM_nil_eq_some h
    exact nofun
  | cons register registers ih =>
    obtain ⟨held, rest, hheld, hrest, rfl⟩ := Owned.mapM_cons_eq_some h
    exact List.forall_mem_cons.2 ⟨hP register held hheld, ih hrest⟩

theorem executeReference_eq_ok (hopcode : isMapOperation opcode = true)
    (h : executeReference execution opcode instruction resultType start =
      (.ok (value, stored), frame)) :
    ∃ values shown cells, instruction.operands.mapM start.file = some values ∧
      executeBorrowed execution.source opcode instruction.immediate values resultType start.cells =
        some (shown, cells) ∧ value = .new shown ∧ frame = { start with cells := cells } := by
  have hbridge : opcode ≠ .adapterInvoke := by
    rintro rfl
    cases hopcode
  rw [executeReference] at h
  obtain ⟨values, s₁, hread, h₁⟩ := bind_eq_ok.1 h
  obtain ⟨hvalues, rfl⟩ := readValues_eq_ok hread
  rw [if_neg hbridge] at h₁
  obtain ⟨_, s₂, hcharge, h₂⟩ := bind_eq_ok.1 h₁
  obtain ⟨-, rfl⟩ := pure_eq_ok.1 hcharge
  obtain ⟨runtime, s₃, hget, h₃⟩ := bind_eq_ok.1 h₂
  obtain ⟨hruntime, rfl⟩ := ofState_eq_ok.1 hget
  obtain rfl := Except.ok.inj hruntime
  obtain ⟨⟨shown, cells⟩, s₄, hexecute, h₄⟩ := bind_eq_ok.1 h₃
  obtain ⟨hexecute, rfl⟩ := ofExcept_eq_ok.1 hexecute
  obtain ⟨_, s₅, hcells, h₅⟩ := bind_eq_ok.1 h₄
  obtain ⟨-, rfl⟩ := modify_eq_ok.1 hcells
  obtain ⟨hresult, rfl⟩ := pure_eq_ok.1 h₅
  obtain ⟨rfl, -⟩ := mk.inj hresult
  exact ⟨values, shown, cells, hvalues, ofOption_eq_ok.1 hexecute, rfl, rfl⟩

/-- **An operation keeps its law**, on whichever path it is executed. -/
theorem produce_eq_ok (hopcode : isMapOperation opcode = true)
    (honce : ∀ k r, isDead mask k = true → instruction.operands[k]? = some r →
      instruction.operands.count r = 1) (hstart : CanonicalFrame start)
    (h : produce execution opcode instruction mask resultType start =
      (.ok (value, stored), frame)) :
    ∃ values shown, instruction.operands.mapM start.file = some values ∧
      MapLaw opcode values resultType shown ∧ Canonical shown ∧ value.Presents shown ∧
      Loses start frame := by
  have hready : Ready mask instruction.operands start := ⟨honce, fun r _ ↦ hstart.exactAt r⟩
  have hpush : ¬ isPush opcode instruction.immediate = true := by
    have hbridge : opcode ≠ .adapterInvoke := by
      rintro rfl
      cases hopcode
    unfold isPush
    split
    · simp [hbridge]
    · exact Bool.false_ne_true
  rw [produce, if_neg hpush] at h
  obtain ⟨runtime, s₁, hget, h₁⟩ := bind_eq_ok.1 h
  obtain ⟨hruntime, hsame⟩ := ofState_eq_ok.1 hget
  subst s₁
  obtain rfl : start = runtime := Except.ok.inj hruntime
  obtain ⟨produced, s₂, hproduced, h₂⟩ := bind_eq_ok.1 h₁
  have hfollows : Follows .fault (Owned.Produced mask instruction.operands start) (Faulted start)
      (Owned.meaning execution.source start.file opcode instruction resultType)
      (Owned.execute (execution.unique start.fuelUsed) execution.source opcode instruction mask
        resultType start) := Owned.follows_execute hready
  rw [hproduced] at hfollows
  generalize hmeaning : Owned.meaning execution.source start.file opcode instruction resultType =
    meaning at hfollows
  cases hfollows with
  | @some shown? _ _ hmade =>
  cases produced with
  | none =>
    cases shown? with
    | some _ => exact hmade.elim
    | none =>
      obtain rfl : s₂ = start := hmade
      obtain ⟨values, shown, cells, hvalues, hexecute, rfl, rfl⟩ := executeReference_eq_ok hopcode h₂
      have hfile := forall_of_mapM hvalues fun r v ↦ hstart.file
      obtain ⟨hlaw, hcanonical, rfl⟩ :=
        executeBorrowed_mapLaw hopcode (fun v hv ↦ (hfile v hv).1) hexecute
      have hnarrow := (narrow_executeBorrowed hexecute (fun v hv ↦ (hfile v hv).2) hstart.cells).1
      exact ⟨values, shown, hvalues, hlaw, hcanonical, RuntimeValue.presents_new hnarrow, .refl _⟩
  | some made =>
    obtain ⟨hresult, rfl⟩ := pure_eq_ok.1 h₂
    obtain ⟨rfl, -⟩ := mk.inj hresult
    cases shown? with
    | none => exact hmade.elim
    | some shown =>
      obtain ⟨values, hvalues⟩ := values_of_meaning hopcode hmeaning
      have hfile := forall_of_mapM hvalues fun r v ↦ hstart.file
      have hagrees : OwnedAgrees start
          (executeBorrowed execution.source opcode instruction.immediate values resultType
            start.cells)
          (Owned.execute (execution.unique start.fuelUsed) execution.source opcode instruction mask
            resultType start) :=
        owned_agrees hready hvalues fun _ map hmap ↦
          (canonical_iff.1 (hfile map (List.mem_of_mem_head? hmap)).1).1
      rw [hproduced] at hagrees
      obtain ⟨shown', hexecute, hpresents⟩ := hagrees
      obtain ⟨hlaw, hcanonical, -⟩ :=
        executeBorrowed_mapLaw hopcode (fun v hv ↦ (hfile v hv).1) hexecute
      have hmoves : (Owned.execute (execution.unique start.fuelUsed) execution.source opcode
          instruction mask resultType).Moves Loses := Owned.releases_execute
      have hloses := hmoves start
      rw [hproduced] at hloses
      exact ⟨values, shown', hvalues, hlaw, hcanonical, hpresents, hloses⟩

/-- The result is charged and written. -/
theorem finishInstruction_eq_ok {limits : ExecutionLimits} {register : Register}
    {shown : ConstValue} {u : Unit} (hstart : CanonicalFrame start)
    (hpresents : value.Presents shown) (hcanonical : Canonical shown)
    (h : finishInstruction limits register resultType value stored start = (.ok u, frame)) :
    CanonicalFrame frame ∧ frame.file register = some shown := by
  rw [finishInstruction] at h
  obtain ⟨_, s₁, hvalue, h₁⟩ := bind_eq_ok.1 h
  obtain ⟨-, rfl⟩ := ofExcept_eq_ok.1 hvalue
  obtain ⟨_, s₂, htype, h₂⟩ := bind_eq_ok.1 h₁
  obtain ⟨-, rfl⟩ := ofExcept_eq_ok.1 htype
  obtain ⟨runtime, s₃, hget, h₃⟩ := bind_eq_ok.1 h₂
  obtain ⟨-, rfl⟩ := ofState_eq_ok.1 hget
  obtain ⟨_, s₄, hcells, h₄⟩ := bind_eq_ok.1 h₃
  obtain ⟨-, rfl⟩ := ofExcept_eq_ok.1 hcells
  obtain ⟨_, s₅, hcharge, h₅⟩ := bind_eq_ok.1 h₄
  obtain ⟨_, s₆, hcount, hwrite⟩ := bind_eq_ok.1 h₅
  obtain ⟨-, rfl⟩ := modify_eq_ok.1 hcount
  rw [chargeValue] at hcharge
  split at hcharge
  · cases hcharge
  rename_i meter hmeter
  obtain ⟨-, rfl⟩ := mk.inj hcharge
  obtain ⟨units, hunits, -, rfl⟩ := Meter.chargeValue_eq_some.1 hmeter
  have hlt := units.toNat_lt
  have hpos := hstart.pos
  rw [UInt64.toNat_saturatingAdd] at hunits
  have hholds : HoldsCanonical value := ⟨shown, hpresents.holds (by omega), hcanonical⟩
  rw [writeRegister] at hwrite
  split_ifs at hwrite with hin
  · obtain ⟨-, rfl⟩ := mk.inj hwrite
    refine ⟨CanonicalFrame.set (hstart.congr rfl rfl ?_) hholds hin, ?_⟩
    · show 0 < units.toNat
      omega
    · rw [Runtime.file, join_set hin, if_pos rfl]
      exact hpresents.value_eq
  · cases hwrite

/-- An instruction on maps keeps the frame canonical, and its law. -/
theorem executeExtended_eq_ok {registerTypes : List TypeExpr} {u : Unit}
    (htag : Opcode.fromTag instruction.opcode.toNat = some opcode)
    (hopcode : isMapOperation opcode = true)
    (honce : ∀ k r, isDead mask k = true → instruction.operands[k]? = some r →
      instruction.operands.count r = 1) (hstart : CanonicalFrame start)
    (h : executeExtended execution instruction mask registerTypes start = (.ok u, frame)) :
    CanonicalFrame frame ∧ ∃ register values resultType shown,
      resultOf instruction = some register ∧ registerTypes[register.toNat]? = some resultType ∧
      instruction.operands.mapM start.file = some values ∧ frame.file register = some shown ∧
      MapLaw opcode values resultType shown := by
  rw [executeExtended] at h
  obtain ⟨opcode', s₁, hdecode, h₁⟩ := bind_eq_ok.1 h
  obtain ⟨hopcode', rfl⟩ := ofExcept_eq_ok.1 hdecode
  obtain rfl : opcode = opcode' :=
    Option.some.inj (htag.symm.trans (ofOption_eq_ok.1 hopcode'))
  obtain ⟨register, s₂, hresult, h₂⟩ := bind_eq_ok.1 h₁
  obtain ⟨hregister, rfl⟩ := ofExcept_eq_ok.1 hresult
  obtain ⟨resultType, s₃, hlookup, h₃⟩ := bind_eq_ok.1 h₂
  obtain ⟨htype, rfl⟩ := ofExcept_eq_ok.1 hlookup
  obtain ⟨⟨value, stored⟩, s₄, hproduce, h₄⟩ := bind_eq_ok.1 h₃
  obtain ⟨values, shown, hvalues, hlaw, hcanonical, hpresents, hloses⟩ :=
    produce_eq_ok hopcode honce hstart hproduce
  obtain ⟨hframe, hfile⟩ :=
    finishInstruction_eq_ok (hloses.canonical hstart) hpresents hcanonical h₄
  exact ⟨hframe, register, values, resultType, shown, ofOption_eq_ok.1 hregister,
    ofOption_eq_ok.1 htype, hvalues, hfile, hlaw⟩

end Operations

/-! ### Runs -/

/-- An instruction on maps, and the mask of the operands that move out of their registers. -/
structure MapInstruction where
  instruction : Instruction
  mask : UInt64
  opcode : Opcode
  tag : Opcode.fromTag instruction.opcode.toNat = some opcode
  isMap : isMapOperation opcode = true
  /-- Only an operand that appears once may move. -/
  once : ∀ k r, isDead mask k = true → instruction.operands[k]? = some r →
    instruction.operands.count r = 1

/-- An instruction of a program, with the mask that the liveness of its code gives. -/
def MapInstruction.ofBlocks {blocks : List BytecodeBlock} {slot pc : ℕ} {block : BytecodeBlock}
    {instruction : Instruction} {opcode : Opcode} (hblock : blocks[slot]? = some block)
    (hinstruction : block.instructions[pc]? = some instruction)
    (tag : Opcode.fromTag instruction.opcode.toNat = some opcode)
    (isMap : isMapOperation opcode = true) : MapInstruction where
  instruction := instruction
  mask := (computeLiveness blocks).mask slot pc
  opcode := opcode
  tag := tag
  isMap := isMap
  once :=
    have hmasks : Masks _ ((noLivenesses 0).mask slot pc) _ :=
      masks_computeLiveness hblock hinstruction
    hmasks.once

/-- What a program does with maps: it executes an instruction, or switches on a result. -/
inductive MapStep
  | execute (operation : MapInstruction)
  | switch (blocks : List BytecodeBlock) (value : Register) (cases : List BytecodeSwitchCase)
      (dead : Register → Bool)

def MapStep.perform (execution : Execution) (registerTypes : List TypeExpr) :
    MapStep → Action Unit
  | .execute operation =>
    executeExtended execution operation.instruction operation.mask registerTypes
  | .switch blocks value cases dead => switchTo execution.limits blocks value cases dead

section Runs

variable {execution : Execution} {registerTypes : List TypeExpr} {frame : Runtime}

theorem MapStep.keeps_perform (step : MapStep) :
    (step.perform execution registerTypes).Keeps CanonicalFrame fun _ ↦ True := by
  cases step with
  | execute operation =>
    intro s u s' hs h
    have hexecute := executeExtended_eq_ok operation.tag operation.isMap operation.once hs h
    exact ⟨hexecute.1, trivial⟩
  | switch blocks value cases dead => exact keeps_switchTo

/-- In a canonical frame the search by halving finds what a scan finds. -/
theorem CanonicalFrame.search_eq (h : CanonicalFrame frame) {register : Register}
    {valueType : TypeExpr} {entries : List MapEntryConst} {key : ConstValue} {query : Bytes}
    (hmap : frame.file register = some ⟨valueType, .map entries⟩)
    (hquery : keyBytes key = some query) :
    ∃ position, search entries key query = some position ∧
      position.toOption = entries.findIdx? (keyBytes ·.key = some query) := by
  obtain ⟨keyed, hkeyed, hasc⟩ := (canonical_map_iff.1 (h.file hmap).1).1
  obtain ⟨position, hposition, hlocates⟩ := search_locates hkeyed hasc hquery
  refine ⟨position, hposition, (hlocates.toOption_eq hasc).trans ?_⟩
  obtain ⟨rfl, hall⟩ := keyedEntries_eq_some.1 hkeyed
  rw [List.findIdx?_map]
  refine findIdx?_congr fun pair hpair ↦ ?_
  simp [hall pair hpair]

/-- **Maps at run time are canonical finite maps.** A frame begins with values that have a canonical
encoding, and any instructions on maps and switches follow. Every value that is there then is
canonical at every depth, every instruction on maps keeps its law, and in every map the search by
halving finds the position that a scan finds. -/
theorem runtime_maps {steps : List MapStep} {start : Runtime}
    (hpos : 0 < start.liveValueUnits.toNat) (hcells : ∀ v ∈ start.cells, Narrow v)
    (hstart : ∀ (r : Register) (value : RuntimeValue),
      start.registers[r.toNat]?.join = some value →
        ∃ shown, value.Holds shown ∧ requireCanonicalEncoding shown = some ())
    (hrun : steps.forM (MapStep.perform execution registerTypes) start = (.ok (), frame)) :
    (∀ register shown, frame.file register = some shown → Canonical shown) ∧
    (∀ (operation : MapInstruction) (next : Runtime),
      (MapStep.execute operation).perform execution registerTypes frame = (.ok (), next) →
        ∃ register values resultType shown, resultOf operation.instruction = some register ∧
          registerTypes[register.toNat]? = some resultType ∧
          operation.instruction.operands.mapM frame.file = some values ∧
          next.file register = some shown ∧ MapLaw operation.opcode values resultType shown) ∧
    ∀ register valueType entries key query,
      frame.file register = some ⟨valueType, .map entries⟩ → keyBytes key = some query →
        ∃ position, search entries key query = some position ∧
          position.toOption = entries.findIdx? (keyBytes ·.key = some query) := by
  have hcanonical : CanonicalFrame start := ⟨hpos, hcells, fun r value hvalue ↦
    (hstart r value hvalue).imp fun _ ↦ And.imp_right canonical_of_requireCanonicalEncoding⟩
  have hkeeps : (steps.forM (MapStep.perform execution registerTypes)).Keeps CanonicalFrame
      fun _ ↦ True := keeps_forM fun step _ ↦ step.keeps_perform
  obtain ⟨hframe, -⟩ := hkeeps hcanonical hrun
  refine ⟨fun register shown hshown ↦ (hframe.file hshown).1, fun operation next hnext ↦ ?_,
    fun register valueType entries key query hmap hquery ↦ hframe.search_eq hmap hquery⟩
  exact (executeExtended_eq_ok operation.tag operation.isMap operation.once hframe hnext).2

end Runs

/-! ### Fixed runs -/

def insertBlock : BytecodeBlock := ⟨0, [0, 1, 2], [insertInstruction], .ret 3, 0⟩

def insertTypes : List TypeExpr :=
  [.orderedMap (.uInt ⟨8⟩) .unit, .uInt ⟨8⟩, .unit, .orderedMap (.uInt ⟨8⟩) .unit]

def insertExecution : Execution where
  source := quietSource
  lowered := ⟨⟨⟨List.replicate 32 0, rfl⟩, [0, 1, 2], insertTypes, .orderedMap (.uInt ⟨8⟩) .unit, 0,
    [insertBlock]⟩, [0], [], List.cons_ne_nil _ _⟩
  limits := ⟨100, 100, 100, 100, none⟩
  live := fun _ ↦ computeLiveness [insertBlock]
  unique := fun _ ↦ true

def insertStep : MapStep := .execute <|
  have hblock : [insertBlock][0]? = some insertBlock := rfl
  have hinstruction : insertBlock.instructions[0]? = some insertInstruction := rfl
  .ofBlocks hblock hinstruction rfl rfl

def insertStart : Runtime :=
  { holding [numbers [1], number 2, ⟨.unit, .unit⟩] with
    registers := (holding [numbers [1], number 2, ⟨.unit, .unit⟩]).registers ++ [none]
    liveValueUnits := 1 }

def insertRun : Except Stop Unit × Runtime :=
  [insertStep].forM (MapStep.perform insertExecution insertTypes) insertStart

theorem runtime_maps_insert :
    insertRun.2.file 3 = some (numbers [1, 2]) ∧ Canonical (numbers [1, 2]) := by
  have hfile : insertRun.2.file 3 = some (numbers [1, 2]) := by with_unfolding_all decide
  have hencodes {value : ConstValue} (hnarrow : Narrow value)
      (hlt : (valueUnitsConst value).toNat < 2 ^ 64 - 1)
      (h : requireCanonicalEncoding value = some ()) :
      ∃ shown, (RuntimeValue.new value).Holds shown ∧ requireCanonicalEncoding shown = some () :=
    ⟨value, (RuntimeValue.presents_new hnarrow).holds hlt, h⟩
  have hresult : insertRun.1 = .ok () := by
    have hok : insertRun.1.toOption = some () := by with_unfolding_all decide
    cases hrun : insertRun.1 with
    | error reason =>
      rw [hrun] at hok
      cases hok
    | ok => rfl
  have hstart : ∀ (r : Register) (value : RuntimeValue),
      insertStart.registers[r.toNat]?.join = some value →
        ∃ shown, value.Holds shown ∧ requireCanonicalEncoding shown = some () := by
    intro r value hvalue
    have hregisters : insertStart.registers = [some (.new (numbers [1])), some (.new (number 2)),
      some (.new ⟨.unit, .unit⟩), none] := rfl
    rw [hregisters] at hvalue
    match r.toNat, hvalue with
    | 0, hvalue =>
      obtain rfl := Option.some.inj hvalue
      exact hencodes (by simp [numbers, number, Narrow, NarrowData]) (by decide) (by with_unfolding_all decide)
    | 1, hvalue =>
      obtain rfl := Option.some.inj hvalue
      exact hencodes trivial (by decide) (by with_unfolding_all decide)
    | 2, hvalue =>
      obtain rfl := Option.some.inj hvalue
      exact hencodes trivial (by decide) (by with_unfolding_all decide)
    | 3, hvalue => cases hvalue
    | _ + 4, hvalue => cases hvalue
  have hcells : ∀ v ∈ insertStart.cells, Narrow v := fun _ h ↦ absurd h List.not_mem_nil
  have hmaps := runtime_maps (by decide) hcells hstart (Prod.ext hresult rfl)
  exact ⟨hfile, hmaps.1 3 _ hfile⟩

/-- The judgment on types admits a map out of order. The search by halving misses a key of it, and
puts it in a second time. -/
theorem mapOperations_outOfOrder :
    (∃ environment, TypeEnvironment.new [] = .ok environment ∧
      environment.checkConstant (numbers [2, 1]) = .ok () ∧
      environment.checkConstant (number 2) = .ok ()) ∧
    (executeBorrowed quietSource .mapContains .none [numbers [2, 1], number 2] .bool [] =
        some (boolValue true, []) ∧
      (Owned.execute false quietSource .mapContains containsInstruction 0 .bool
        (holding [numbers [2, 1], number 2])).1.toOption.join.bind RuntimeValue.value =
          some (boolValue false)) ∧
    (Owned.execute false quietSource .mapInsert insertInstruction 0
      (.orderedMap (.uInt ⟨8⟩) .unit)
      (holding [numbers [2, 1], number 2, ⟨.unit, .unit⟩])).1.toOption.join.bind
        RuntimeValue.value = some (numbers [2, 1, 2]) ∧
    ¬ Canonical (numbers [2, 1, 2]) := by
  refine ⟨⟨_, rfl, by with_unfolding_all decide, by with_unfolding_all decide⟩,
    ⟨by with_unfolding_all decide, by with_unfolding_all decide⟩, by with_unfolding_all decide, fun h ↦ ?_⟩
  obtain ⟨keyed, hkeyed, hasc⟩ := (canonical_map_iff.1 h).1
  have hrepeat : (keyedEntries ([2, 1, 2].map fun key ↦ ⟨number key, ⟨.unit, .unit⟩⟩)).map
      (fun keyed ↦ decide (keyed.map Prod.fst).Nodup) = some false := by with_unfolding_all decide
  rw [hkeyed, Option.map_some, Option.some.injEq, decide_eq_false_iff_not] at hrepeat
  exact hrepeat hasc.nodup_keys

end Sley.Vm
