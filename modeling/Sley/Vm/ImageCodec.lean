import Sley.Vm.Image

/-!
# The image codec is a bijection

Writer by writer the loader inverts the encoder (`Wire.Inverse`), and from the two function bodies
up to whole images: **`load_image` reads back exactly the functions that were encoded, and every
image it accepts is the encoding of what it read.**

Each proof follows the text of the two programs it compares. The tags are the only place where the
loader has more cases than the encoder; there the equation between tag and constructor is closed by
inspecting the constructors.
-/

namespace Sley.Vm

open Scb1 (Bytes)
open Ssmc
open Wire (andThen each Inverse InverseOn)
open BigEndian (bytes_value length_bytes value_bytes value_lt)
open StateT (run_bind_eq_ok run_pure_eq_ok)

/-! ### Primitives -/

theorem Encoder.raw_emits (bytes : Bytes) : Wire.Emits maxBytecodeBytes (Encoder.raw bytes) bytes := by
  intro out hroom
  rw [Encoder.raw, if_neg]
  rw [List.length_append] at hroom
  omega

theorem Encoder.raw_eq_ok {bytes out out' : Bytes} : Encoder.raw bytes out = .ok out' ↔
      (out ++ bytes).length ≤ maxBytecodeBytes ∧ out' = out ++ bytes := by
  rw [Encoder.raw, List.length_append]
  split
  · simp
    omega
  · simp only [Except.ok.injEq]
    constructor
    · rintro rfl
      exact ⟨by omega, rfl⟩
    · rintro ⟨-, rfl⟩
      rfl

namespace ImageCursor

variable {α : Type} {n : Nat}

theorem take_eq_ok {c c' : Cursor UInt8} {bs : Bytes} :
    (take n).run c = .ok (bs, c') ↔ bs.length = n ∧ c.Consumes bs c' := by
  show Except.ofOption _ _ = _ ↔ _
  rw [Except.ofOption_eq_ok, Cursor.take?_eq_some_iff]

/-- Taking `n` bytes inverts appending `n` bytes. -/
theorem take_inverse (n : Nat) :
    InverseOn maxBytecodeBytes id (fun bs : Bytes ↦ bs.length = n) Encoder.raw (take n) where
  written := by
    intro bs out out' hlen _ hw
    obtain ⟨hroom, rfl⟩ := Encoder.raw_eq_ok.1 hw
    exact ⟨bs, rfl, hroom, fun c c' hc ↦ take_eq_ok.2 ⟨hlen, hc⟩⟩
  parsed := by
    intro c c' bs hp
    obtain ⟨hlen, hc⟩ := take_eq_ok.1 hp
    exact ⟨bs, rfl, hlen, bs, hc, Encoder.raw_emits bs⟩

/-- A fixed-width number: `n` bytes under a bijection. -/
theorem fixed_inverse {w : α → Encoder} (toBytes : α → Bytes)
    {ofBytes : Bytes → α} (hw : ∀ a, w a = Encoder.raw (toBytes a))
    (hlen : ∀ a, (toBytes a).length = n) (hof : ∀ a, ofBytes (toBytes a) = a)
    (hto : ∀ bs, bs.length = n → toBytes (ofBytes bs) = bs) :
    Inverse maxBytecodeBytes w (take n >>= fun bs ↦ pure (ofBytes bs)) where
  written := by
    intro a out out' _ hout h
    rw [hw] at h
    obtain ⟨xs, rfl, hend, hp⟩ := (take_inverse n).written (hlen a) hout h
    have := hp.map ofBytes
    rw [id, hof] at this
    exact ⟨xs, rfl, hend, this⟩
  parsed := by
    intro c c' a hp
    obtain ⟨bs, c₁, htake, hend⟩ := run_bind_eq_ok.1 hp
    obtain ⟨rfl, rfl⟩ := run_pure_eq_ok.1 hend
    obtain ⟨hbs, hc⟩ := take_eq_ok.1 htake
    refine ⟨_, rfl, trivial, bs, hc, ?_⟩
    rw [hw, hto bs hbs]
    exact Encoder.raw_emits bs

theorem u16_inverse : Inverse maxBytecodeBytes Encoder.u16 u16Be := by
  refine fixed_inverse (fun v : UInt16 ↦ BigEndian.bytes 2 v.toNat) (fun _ ↦ rfl)
    (fun _ ↦ length_bytes ..) (fun a ↦ ?_) (fun bs hbs ↦ ?_)
  · rw [value_bytes, Nat.mod_eq_of_lt (lt_of_lt_of_le a.toNat_lt (by decide)), UInt16.ofNat_toNat]
  · have := value_lt bs
    rw [hbs] at this
    rw [UInt16.toNat_ofNat', Nat.mod_eq_of_lt (by omega), ← hbs, bytes_value]

theorem u32_inverse : Inverse maxBytecodeBytes Encoder.u32 u32Be := by
  refine fixed_inverse (fun v : UInt32 ↦ BigEndian.bytes 4 v.toNat) (fun _ ↦ rfl)
    (fun _ ↦ length_bytes ..) (fun a ↦ ?_) (fun bs hbs ↦ ?_)
  · rw [value_bytes, Nat.mod_eq_of_lt (lt_of_lt_of_le a.toNat_lt (by decide)), UInt32.ofNat_toNat]
  · have := value_lt bs
    rw [hbs] at this
    rw [UInt32.toNat_ofNat', Nat.mod_eq_of_lt (by omega), ← hbs, bytes_value]

theorem u64_inverse : Inverse maxBytecodeBytes Encoder.u64 u64Be := by
  refine fixed_inverse (fun v : UInt64 ↦ BigEndian.bytes 8 v.toNat) (fun _ ↦ rfl)
    (fun _ ↦ length_bytes ..) (fun a ↦ ?_) (fun bs hbs ↦ ?_)
  · rw [value_bytes, Nat.mod_eq_of_lt (lt_of_lt_of_le a.toNat_lt (by decide)), UInt64.ofNat_toNat]
  · have := value_lt bs
    rw [hbs] at this
    rw [UInt64.toNat_ofNat', Nat.mod_eq_of_lt (by omega), ← hbs, bytes_value]

/-- A count is a 64-bit number; larger ones are refused by the encoder and cannot be read. -/
theorem count_inverse : Inverse maxBytecodeBytes Encoder.len count where
  written := by
    intro n out out' _ hout h
    rw [Encoder.len] at h
    split at h
    · rename_i hn
      obtain ⟨xs, rfl, hend, hp⟩ := u64_inverse.parses hout h
      have := hp.map UInt64.toNat
      rw [UInt64.toNat_ofNat', Nat.mod_eq_of_lt hn] at this
      exact ⟨xs, rfl, hend, this⟩
    · cases h
  parsed := by
    intro c c' n hp
    obtain ⟨raw, c₁, hraw, hend⟩ := run_bind_eq_ok.1 hp
    obtain ⟨rfl, rfl⟩ := run_pure_eq_ok.1 hend
    obtain ⟨xs, hc, hw⟩ := u64_inverse.emits hraw
    refine ⟨_, rfl, trivial, xs, hc, ?_⟩
    show Wire.Emits _ (Encoder.len raw.toNat) xs
    rw [Encoder.len, if_pos raw.toNat_lt, UInt64.ofNat_toNat]
    exact hw

theorem counted_inverse {w : α → Encoder} {p : ImageCursor α} (h : Inverse maxBytecodeBytes w p) :
    Inverse maxBytecodeBytes (Encoder.counted w) (counted p) := by
  refine InverseOn.field List.length count_inverse fun n ↦ ?_
  simpa using InverseOn.times h n

theorem rawId_inverse {kind : IdKind} :
    Inverse maxBytecodeBytes (fun i : Id kind ↦ Encoder.raw i.bytes) rawId where
  written := by
    intro i out out' _ hout h
    obtain ⟨xs, rfl, hend, hp⟩ := (take_inverse 32).written i.length_eq hout h
    refine ⟨xs, rfl, hend, fun c c' hc ↦ run_bind_eq_ok.2 ⟨_, _, hp hc, ?_⟩⟩
    simp only [id, i.length_eq, dif_pos]
    rfl
  parsed := by
    intro c c' i hp
    obtain ⟨bs, c₁, htake, hend⟩ := run_bind_eq_ok.1 hp
    obtain ⟨hbs, hc⟩ := take_eq_ok.1 htake
    rw [dif_pos hbs] at hend
    obtain ⟨rfl, rfl⟩ := run_pure_eq_ok.1 hend
    exact ⟨_, rfl, trivial, bs, hc, Encoder.raw_emits bs⟩

theorem entity_inverse : Inverse maxBytecodeBytes Encoder.entity entity := by
  refine InverseOn.field (fun _ ↦ (1 : UInt32)) u32_inverse fun version ↦ ?_
  by_cases hv : version = 1
  · subst hv
    simpa using rawId_inverse
  · rw [if_pos hv]
    exact InverseOn.refuse fun _ h ↦ hv h.2.symm

theorem registers_inverse : Inverse maxBytecodeBytes Encoder.registers registers :=
  counted_inverse u32_inverse

/-! ### Tagged unions -/

/-- The tags the encoder writes before a switch argument, a trap payload and a terminator. -/
def switchArgumentTag : BytecodeSwitchArgument → UInt32
  | .value _ => 1
  | .casePayload => 2

def trapPayloadTag : Option Register → UInt32
  | none => 1
  | some _ => 2

def terminatorTag : BytecodeTerminator → UInt32
  | .ret _ => 1
  | .branch _ => 2
  | .condBranch _ _ _ => 3
  | .variantSwitch _ _ => 4
  | .trap _ _ => 5

/-- The values with tag `t`, where `t` reads as `n`, are those of the constructor with tag `n`. -/
theorem tag_iff {tag : α → UInt32} {t : UInt32} {Q : α → Prop}
    (h : t.toNat = n)
    (hQ : ∀ x, (tag x).toNat = n ↔ Q x := by
      rintro ⟨⟩ <;> simp [TypeExpr.tag])
    (x : α) : (True ∧ tag x = t) ↔ Q x := by
  rw [← hQ, ← h, UInt32.toNat_inj, true_and]

theorem tag16_iff {tag : α → UInt16} {t : UInt16} {Q : α → Prop}
    (h : t.toNat = n) (hQ : ∀ x, (tag x).toNat = n ↔ Q x) (x : α) : (True ∧ tag x = t) ↔ Q x := by
  rw [← hQ, ← h, UInt16.toNat_inj, true_and]

theorem builtinFailureKind_inverse :
    Inverse maxBytecodeBytes (fun k : BuiltinFailureKind ↦ Encoder.u16 k.tag)
      builtinFailureKind := by
  refine InverseOn.fieldOnly BuiltinFailureKind.tag u16_inverse fun tag ↦ ?_
  split
  case h_6 h₁ h₂ h₃ h₄ h₅ =>
    refine InverseOn.refuse ?_
    rintro (_ | _ | _ | _ | _) ⟨-, rfl⟩ <;> simp_all [BuiltinFailureKind.tag]
  all_goals
    rename_i h
    exact InverseOn.done (tag16_iff h (by rintro ⟨⟩ <;> simp [BuiltinFailureKind.tag])) rfl rfl

theorem builtinCase_inverse :
    Inverse maxBytecodeBytes (fun k : BuiltinCase ↦ Encoder.u32 k.tag) builtinCase := by
  refine InverseOn.fieldOnly BuiltinCase.tag u32_inverse fun tag ↦ ?_
  split
  case h_5 h₁ h₂ h₃ h₄ =>
    refine InverseOn.refuse ?_
    rintro (_ | _ | _ | _) ⟨-, rfl⟩ <;> simp_all [BuiltinCase.tag]
  all_goals
    rename_i h
    exact InverseOn.done (tag_iff h (by rintro ⟨⟩ <;> simp [BuiltinCase.tag])) rfl rfl

/-- What follows a tag, given that one level down the loader inverts the encoder. -/
theorem typePayload_inverse {w : TypeExpr → Encoder} {p : ImageCursor TypeExpr}
    (h : Inverse maxBytecodeBytes w p) (tag : UInt32) :
    InverseOn maxBytecodeBytes id (fun x : TypeExpr ↦ True ∧ x.tag = tag) (Encoder.typePayload w)
      (typePayload p tag.toNat) := by
  have hlist := counted_inverse h
  unfold typePayload
  split
  case h_1 | h_2 | h_5 | h_6 | h_7 | h_8 =>
    rename_i htag
    exact .done (tag_iff htag) rfl rfl
  case h_3 htag =>
    exact .map (fun bits ↦ .sInt ⟨bits⟩)
      (tag_iff htag)
      (fun _ ↦ rfl) u16_inverse fun _ ↦ rfl
  case h_4 htag =>
    exact .map (fun bits ↦ .uInt ⟨bits⟩)
      (tag_iff htag)
      (fun _ ↦ rfl) u16_inverse fun _ ↦ rfl
  case h_9 htag =>
    exact .map .tuple (tag_iff htag)
      (fun _ ↦ rfl) hlist fun _ ↦ rfl
  case h_10 htag =>
    exact .map₂ .named (tag_iff htag)
      (fun _ _ ↦ rfl) entity_inverse hlist fun _ _ ↦ rfl
  case h_11 htag =>
    exact .map .vector (tag_iff htag)
      (fun _ ↦ rfl) h fun _ ↦ rfl
  case h_12 htag =>
    exact .map₂ .orderedMap (tag_iff htag)
      (fun _ _ ↦ rfl) h h fun _ _ ↦ rfl
  case h_13 htag =>
    exact .map .option (tag_iff htag)
      (fun _ ↦ rfl) h fun _ ↦ rfl
  case h_14 htag =>
    exact .map₂ .result (tag_iff htag)
      (fun _ _ ↦ rfl) h h fun _ _ ↦ rfl
  case h_15 htag =>
    exact .map₃ .functionRef (tag_iff htag)
      (fun _ _ _ ↦ rfl) hlist h (counted_inverse entity_inverse) fun _ _ _ ↦ rfl
  case h_16 htag =>
    exact .map .adapterHandle (tag_iff htag)
      (fun _ ↦ rfl) entity_inverse fun _ ↦ rfl
  case h_17 htag =>
    exact .map .capabilityToken (tag_iff htag)
      (fun _ ↦ rfl) entity_inverse fun _ ↦ rfl
  case h_18 htag =>
    exact .map .localCell (tag_iff htag)
      (fun _ ↦ rfl) h fun _ ↦ rfl
  case h_19 htag =>
    exact .map .typeParameter (tag_iff htag)
      (fun _ ↦ rfl) u32_inverse fun _ ↦ rfl
  case h_20 htag =>
    exact .map .builtinFailure (tag_iff htag)
      (fun _ ↦ rfl) builtinFailureKind_inverse fun _ ↦ rfl
  case h_21 =>
    refine .refuse ?_
    rintro x ⟨-, rfl⟩
    cases x <;> simp_all [TypeExpr.tag]

/-- **Types.** The two recursions count the same depth; induction on what is left of it. -/
theorem typeExpr_inverse (depth : Nat) :
    Inverse maxBytecodeBytes (Encoder.typeExpr depth) (typeExpr depth) := by
  induction hd : maxTypeDepth + 1 - depth using Nat.strong_induction_on generalizing depth with
  | _ d ih =>
    subst hd
    by_cases hdepth : depth > maxTypeDepth
    · have henc : Encoder.typeExpr depth = fun _ _ ↦ .error .resourceLimit := by
        funext value out
        rw [Encoder.typeExpr, if_pos hdepth]
      rw [henc, typeExpr, if_pos hdepth]
      constructor
      · intro _ _ _ _ _ h
        cases h
      · intro _ _ _ h
        cases h
    · have henc : Encoder.typeExpr depth = fun value ↦ andThen (Encoder.u32 value.tag)
          (Encoder.typePayload (Encoder.typeExpr (depth + 1)) value) := by
        funext value
        rw [Encoder.typeExpr, if_neg hdepth]
      rw [henc, typeExpr, if_neg hdepth]
      exact .field TypeExpr.tag u32_inverse
        (typePayload_inverse (ih _ (by omega) (depth + 1) rfl))

theorem immediate_inverse : Inverse maxBytecodeBytes Encoder.immediate immediate := by
  refine .field Immediate.tag u32_inverse fun tag ↦ ?_
  split
  case h_1 htag => exact .done (tag_iff htag (by rintro ⟨⟩ <;> simp [Immediate.tag])) rfl rfl
  case h_2 htag =>
    exact .map .entity (tag_iff htag (by rintro ⟨⟩ <;> simp [Immediate.tag]))
      (fun _ ↦ rfl) entity_inverse fun _ ↦ rfl
  case h_3 htag =>
    exact .map .index (tag_iff htag (by rintro ⟨⟩ <;> simp [Immediate.tag]))
      (fun _ ↦ rfl) u32_inverse fun _ ↦ rfl
  case h_4 htag =>
    exact .map .field (tag_iff htag (by rintro ⟨⟩ <;> simp [Immediate.tag]))
      (fun _ ↦ rfl) rawId_inverse fun _ ↦ rfl
  case h_5 htag =>
    exact .map₂ (fun d m ↦ .variant ⟨d, m⟩) (tag_iff htag (by rintro ⟨⟩ <;> simp [Immediate.tag]))
      (fun _ _ ↦ rfl) entity_inverse rawId_inverse fun _ _ ↦ rfl
  case h_6 htag =>
    exact .map .observation (tag_iff htag (by rintro ⟨⟩ <;> simp [Immediate.tag]))
      (fun _ ↦ rfl) rawId_inverse fun _ ↦ rfl
  case h_7 htag =>
    exact .map₂ (fun f as ↦ .function ⟨f, as⟩)
      (tag_iff htag (by rintro ⟨⟩ <;> simp [Immediate.tag]))
      (fun _ _ ↦ rfl) entity_inverse (counted_inverse (typeExpr_inverse 1)) fun _ _ ↦ rfl
  case h_8 =>
    refine .refuse ?_
    rintro x ⟨-, rfl⟩
    cases x <;> simp_all [Immediate.tag]

/-! ### Blocks and functions -/

theorem edge_inverse : Inverse maxBytecodeBytes Encoder.edge edge :=
  .map₂ BytecodeTargetEdge.mk (fun x ↦ by simp) (fun _ _ ↦ rfl) u32_inverse registers_inverse
    fun _ _ ↦ rfl

theorem switchArgument_inverse :
    Inverse maxBytecodeBytes Encoder.switchArgument switchArgument := by
  refine .congr (fun x ↦ andThen (Encoder.u32 (switchArgumentTag x)) (match x with
    | .value value => Encoder.u32 value
    | .casePayload => .ok)) (by rintro ⟨⟩ <;> simp [Encoder.switchArgument, switchArgumentTag]) ?_
  refine .field switchArgumentTag u32_inverse fun tag ↦ ?_
  split
  case h_1 htag =>
    exact .map .value (tag_iff htag (by rintro ⟨⟩ <;> simp [switchArgumentTag]))
      (fun _ ↦ rfl) u32_inverse fun _ ↦ rfl
  case h_2 htag =>
    exact .done (tag_iff htag (by rintro ⟨⟩ <;> simp [switchArgumentTag])) rfl rfl
  case h_3 =>
    refine .refuse ?_
    rintro x ⟨-, rfl⟩
    cases x <;> simp_all [switchArgumentTag]

theorem switchEdge_inverse : Inverse maxBytecodeBytes Encoder.switchEdge switchEdge :=
  .map₂ BytecodeSwitchEdge.mk (fun x ↦ by simp) (fun _ _ ↦ rfl) u32_inverse
    (counted_inverse switchArgument_inverse) fun _ _ ↦ rfl

theorem caseKey_inverse : Inverse maxBytecodeBytes Encoder.caseKey caseKey := by
  refine .congr (fun x ↦ andThen (Encoder.u32 x.tag) (CaseKey.casesOn x
    (fun value ↦ Encoder.raw value.bytes) fun value ↦ Encoder.u32 value.tag))
    (by rintro ⟨⟩ <;> rfl) ?_
  refine .field CaseKey.tag u32_inverse fun tag ↦ ?_
  split
  case h_1 htag =>
    exact .map .member (tag_iff htag (by rintro ⟨⟩ <;> simp [CaseKey.tag]))
      (fun _ ↦ rfl) rawId_inverse fun _ ↦ rfl
  case h_2 htag =>
    exact .map .builtin (tag_iff htag (by rintro ⟨⟩ <;> simp [CaseKey.tag]))
      (fun _ ↦ rfl) builtinCase_inverse fun _ ↦ rfl
  case h_3 =>
    refine .refuse ?_
    rintro x ⟨-, rfl⟩
    cases x <;> simp_all [CaseKey.tag]

theorem switchCase_inverse : Inverse maxBytecodeBytes Encoder.switchCase switchCase :=
  .map₂ BytecodeSwitchCase.mk (fun x ↦ by simp) (fun _ _ ↦ rfl) caseKey_inverse
    switchEdge_inverse fun _ _ ↦ rfl

theorem trapPayload_inverse : Inverse maxBytecodeBytes Encoder.trapPayload trapPayload := by
  refine .congr (fun x ↦ andThen (Encoder.u32 (trapPayloadTag x)) (match x with
    | none => .ok
    | some value => Encoder.u32 value))
    (by rintro ⟨⟩ <;> simp [Encoder.trapPayload, trapPayloadTag]) ?_
  refine .field trapPayloadTag u32_inverse fun tag ↦ ?_
  split
  case h_1 htag => exact .done (tag_iff htag (by rintro ⟨⟩ <;> simp [trapPayloadTag])) rfl rfl
  case h_2 htag =>
    exact .map some (tag_iff htag (by rintro ⟨⟩ <;> simp [trapPayloadTag]))
      (fun _ ↦ rfl) u32_inverse fun _ ↦ rfl
  case h_3 =>
    refine .refuse ?_
    rintro x ⟨-, rfl⟩
    cases x <;> simp_all [trapPayloadTag]

theorem terminator_inverse : Inverse maxBytecodeBytes Encoder.terminator terminator := by
  refine .congr (fun x ↦ andThen (Encoder.u32 (terminatorTag x)) (match x with
    | .ret value => Encoder.u32 value
    | .branch value => Encoder.edge value
    | .condBranch condition ifTrue ifFalse =>
      andThen (Encoder.u32 condition) (andThen (Encoder.edge ifTrue) (Encoder.edge ifFalse))
    | .variantSwitch value cases =>
      andThen (Encoder.u32 value) (Encoder.counted Encoder.switchCase cases)
    | .trap code payload => andThen (Encoder.u32 code) (Encoder.trapPayload payload)))
    (by rintro ⟨⟩ <;> rfl) ?_
  refine .field terminatorTag u32_inverse fun tag ↦ ?_
  split
  case h_1 htag =>
    exact .map .ret (tag_iff htag (by rintro ⟨⟩ <;> simp [terminatorTag]))
      (fun _ ↦ rfl) u32_inverse fun _ ↦ rfl
  case h_2 htag =>
    exact .map .branch (tag_iff htag (by rintro ⟨⟩ <;> simp [terminatorTag]))
      (fun _ ↦ rfl) edge_inverse fun _ ↦ rfl
  case h_3 htag =>
    exact .map₃ .condBranch (tag_iff htag (by rintro ⟨⟩ <;> simp [terminatorTag]))
      (fun _ _ _ ↦ rfl) u32_inverse edge_inverse edge_inverse fun _ _ _ ↦ rfl
  case h_4 htag =>
    exact .map₂ .variantSwitch (tag_iff htag (by rintro ⟨⟩ <;> simp [terminatorTag]))
      (fun _ _ ↦ rfl) u32_inverse (counted_inverse switchCase_inverse) fun _ _ ↦ rfl
  case h_5 htag =>
    exact .map₂ .trap (tag_iff htag (by rintro ⟨⟩ <;> simp [terminatorTag]))
      (fun _ _ ↦ rfl) u32_inverse trapPayload_inverse fun _ _ ↦ rfl
  case h_6 =>
    refine .refuse ?_
    rintro x ⟨-, rfl⟩
    cases x <;> simp_all [terminatorTag]

theorem instruction_inverse : Inverse maxBytecodeBytes (Encoder.instruction true) instruction := by
  refine .field Instruction.opcode u32_inverse fun opcode ↦
    .field Instruction.operands registers_inverse fun operands ↦
    .field Instruction.results registers_inverse fun results ↦
    .last Instruction.immediate immediate_inverse (g := fun i ↦ ⟨opcode, operands, results, i⟩)
      ?_ fun _ ↦ rfl
  rintro i ⟨⟩
  simp [and_assoc]

theorem block_inverse : Inverse maxBytecodeBytes (Encoder.block true) block := by
  refine .field BytecodeBlock.slot u32_inverse fun slot ↦
    .field BytecodeBlock.parameterRegisters registers_inverse fun parameters ↦
    .field BytecodeBlock.instructions (counted_inverse instruction_inverse) fun instructions ↦
    .field BytecodeBlock.terminator terminator_inverse fun terminator ↦
    .last BytecodeBlock.reachability u32_inverse
      (g := fun r ↦ ⟨slot, parameters, instructions, terminator, r⟩) ?_ fun _ ↦ rfl
  rintro r ⟨⟩
  simp [and_assoc]

theorem body_inverse : Inverse maxBytecodeBytes (Encoder.body true) body := by
  refine .field BytecodeFunction.function rawId_inverse fun function ↦
    .field BytecodeFunction.parameterRegisters registers_inverse fun parameters ↦
    .field BytecodeFunction.registerTypes (counted_inverse (typeExpr_inverse 1)) fun types ↦
    .field BytecodeFunction.resultType (typeExpr_inverse 1) fun resultType ↦
    .field BytecodeFunction.entryBlock u32_inverse fun entryBlock ↦
    .last BytecodeFunction.blocks (counted_inverse block_inverse)
      (g := fun blocks ↦ ⟨function, parameters, types, resultType, entryBlock, blocks⟩)
      ?_ fun _ ↦ rfl
  rintro blocks ⟨⟩
  simp [and_assoc]

/-- Everything after the prefix: the entry body and the callees. -/
theorem bodies_inverse :
    Inverse maxBytecodeBytes (fun q : BytecodeFunction × List BytecodeFunction ↦
        andThen (Encoder.body true q.1) (Encoder.counted (Encoder.body true) q.2))
      (body >>= fun entry ↦ counted body >>= fun callees ↦ pure (entry, callees)) :=
  .map₂ Prod.mk (fun x ↦ by simp) (fun _ _ ↦ rfl) body_inverse (counted_inverse body_inverse)
    fun _ _ ↦ rfl

end ImageCursor

/-! ### Whole images -/

/-- The twelve bytes every extended image begins with. -/
def imagePrefix : Bytes := magicSleybc02 ++ BigEndian.bytes 4 imageVersion

theorem checkImagePrefix_eq_ok {bytes : Bytes} {u : Unit} : checkImagePrefix bytes = .ok u ↔
      bytes.length ≤ maxBytecodeBytes ∧ ∃ rest, bytes = imagePrefix ++ rest := by
  simp only [checkImagePrefix, Except.bind_eq_ok, Except.rejectIf_eq_ok, exists_const, not_lt,
    ne_eq, not_not, gt_iff_lt]
  constructor
  · rintro ⟨hmin, hmax, hmagic, hversion⟩
    have hlen : ((bytes.drop 8).take 4).length = 4 := by
      simp only [List.length_take, List.length_drop]
      have : 12 ≤ bytes.length := hmin
      omega
    have hv := bytes_value ((bytes.drop 8).take 4)
    rw [hlen, hversion] at hv
    refine ⟨hmax, bytes.drop 12, ?_⟩
    calc bytes = bytes.take 8 ++ ((bytes.drop 8).take 4 ++ (bytes.drop 8).drop 4) := by
          rw [List.take_append_drop, List.take_append_drop]
      _ = imagePrefix ++ bytes.drop 12 := by
          rw [hmagic, ← hv, List.drop_drop, ← List.append_assoc, imagePrefix]
  · rintro ⟨hmax, rest, rfl⟩
    refine ⟨?_, hmax, rfl, ?_⟩
    · rw [List.length_append]
      exact Nat.le_add_right 12 _
    · show BigEndian.value (BigEndian.bytes 4 imageVersion) = imageVersion
      rw [value_bytes]
      rfl

/-- The encoder begins with the prefix, whatever the functions. -/
theorem encodeFunction_extended (entry : BytecodeFunction) (callees : List BytecodeFunction) :
    encodeFunction entry callees true =
      andThen (Encoder.body true entry) (Encoder.counted (Encoder.body true) callees)
        imagePrefix :=
  rfl

theorem loadImage_eq_ok {sha256 : Bytes → Digest} {bytes : Bytes} {image : LoadedImage} :
    loadImage sha256 bytes = .ok image ↔ image.digest = sha256 bytes ∧
        encodeFunction image.entry image.callees true = .ok bytes := by
  have hinv := ImageCursor.bodies_inverse
  rw [encodeFunction_extended]
  simp only [loadImage, Except.bind_eq_ok, Prod.exists]
  constructor
  · rintro ⟨_, hpre, pre, c₀, htake, entry, c₁, hentry, callees, c₂, hcallees, hend⟩
    obtain ⟨hmax, rest, hbytes⟩ := checkImagePrefix_eq_ok.1 hpre
    obtain ⟨hpre, hc₀⟩ := ImageCursor.take_eq_ok.1 htake
    split at hend
    · rename_i hfin
      obtain rfl := Except.ok.inj hend
      obtain ⟨xs, hxs, hw⟩ := hinv.emits (a := (entry, callees)) (run_bind_eq_ok.2
        ⟨entry, c₁, hentry, run_bind_eq_ok.2 ⟨callees, c₂, hcallees, run_pure_eq_ok.2 ⟨rfl, rfl⟩⟩⟩)
      have hall : bytes = pre ++ xs := by
        have h₀ := hc₀.rest_eq
        rw [Cursor.new_rest, hxs.rest_eq, Cursor.isFinished_iff.1 hfin, List.append_nil] at h₀
        exact h₀
      have hpreEq : pre = imagePrefix :=
        List.append_inj_left (hall.symm.trans hbytes) (hpre.trans rfl)
      rw [hpreEq] at hall
      refine ⟨rfl, ?_⟩
      rw [hall]
      exact hw (by rw [← hall]; exact hmax)
    · cases hend
  · rintro ⟨hdigest, hw⟩
    obtain ⟨xs, rfl, hmax, hp⟩ := hinv.parses (a := (image.entry, image.callees)) (by decide) hw
    obtain ⟨c₀, hc₀, hrest⟩ := Cursor.exists_consumes_of_rest
      (Cursor.new_rest (imagePrefix ++ xs))
    obtain ⟨c₂, hc₂, hfin⟩ := Cursor.exists_consumes_of_rest
      (hrest.trans (List.append_nil xs).symm)
    obtain ⟨entry, c₁, hentry, hmore⟩ := run_bind_eq_ok.1 (hp hc₂)
    obtain ⟨callees, c₂', hcallees, hend⟩ := run_bind_eq_ok.1 hmore
    obtain ⟨heq, rfl⟩ := run_pure_eq_ok.1 hend
    obtain ⟨rfl, rfl⟩ := Prod.mk.inj heq
    refine ⟨(), checkImagePrefix_eq_ok.2 ⟨hmax, xs, rfl⟩, imagePrefix, c₀,
      ImageCursor.take_eq_ok.2 ⟨rfl, hc₀⟩, _, c₁, hentry, _, _, hcallees, ?_⟩
    rw [if_pos (Cursor.isFinished_iff.2 hfin), ← hdigest]

/-! ### The restricted profile -/

namespace Encoder

theorem counted_appends {α : Type} {w : α → Encoder} (hw : ∀ a, Wire.Appends maxBytecodeBytes (w a))
    (as : List α) : Wire.Appends maxBytecodeBytes (counted w as) :=
  (ImageCursor.count_inverse.appends _).andThen (.each hw as)

theorem instruction_appends (i : Instruction) :
    Wire.Appends maxBytecodeBytes (instruction false i) :=
  (ImageCursor.u32_inverse.appends _).andThen <|
    (ImageCursor.registers_inverse.appends _).andThen <|
      (ImageCursor.registers_inverse.appends _).andThen .ok

theorem block_appends (b : BytecodeBlock) : Wire.Appends maxBytecodeBytes (block false b) :=
  (ImageCursor.u32_inverse.appends _).andThen <|
    (ImageCursor.registers_inverse.appends _).andThen <|
      (counted_appends instruction_appends _).andThen <|
        (ImageCursor.terminator_inverse.appends _).andThen (ImageCursor.u32_inverse.appends _)

theorem body_appends (f : BytecodeFunction) : Wire.Appends maxBytecodeBytes (body false f) :=
  (ImageCursor.rawId_inverse.appends _).andThen <|
    (ImageCursor.registers_inverse.appends _).andThen <|
      (counted_appends (ImageCursor.typeExpr_inverse 1).appends _).andThen <|
        ((ImageCursor.typeExpr_inverse 1).appends _).andThen <|
          (ImageCursor.u32_inverse.appends _).andThen (counted_appends block_appends _)

end Encoder

/-- The restricted profile writes another magic, which the loader refuses by name. -/
theorem loadImage_restricted {sha256 : Bytes → Digest} {entry : BytecodeFunction}
    {callees : List BytecodeFunction} {bytes : Bytes}
    (h : encodeFunction entry callees false = .ok bytes) :
    loadImage sha256 bytes = .error .unknownMagic := by
  have hstart : encodeFunction entry callees false =
      andThen (Encoder.body false entry) .ok (magicSleybc01 ++ BigEndian.bytes 4 1) := rfl
  rw [hstart, Wire.andThen_ok] at h
  obtain ⟨⟨rest, rfl⟩, hmax⟩ := Encoder.body_appends entry (by decide) h
  have hmin : ¬ (magicSleybc01 ++ BigEndian.bytes 4 1 ++ rest).length < imageMinBytes := by
    rw [List.length_append, Nat.not_lt]
    exact Nat.le_add_right 12 _
  have hsize : ¬ (magicSleybc01 ++ BigEndian.bytes 4 1 ++ rest).length > imageMaxBytes :=
    Nat.not_lt.2 hmax
  have hmagic : (magicSleybc01 ++ BigEndian.bytes 4 1 ++ rest).take 8 ≠ magicSleybc02 := by
    show magicSleybc01 ≠ magicSleybc02
    decide
  have hcheck : checkImagePrefix (magicSleybc01 ++ BigEndian.bytes 4 1 ++ rest) =
      .error .unknownMagic := by
    rw [checkImagePrefix, Except.rejectIf_neg hmin, Except.ok_bind, Except.rejectIf_neg hsize,
      Except.ok_bind, Except.rejectIf_pos hmagic, Except.error_bind]
  rw [loadImage, hcheck, Except.error_bind]

/-- **Extended images and the programs they hold are in bijection.** Whatever the encoder accepts
under the extended profile loads as exactly the functions that were encoded; whatever loads is the
encoding of the functions it loads as, so two images that load as the same functions are the same
bytes; and images of the restricted profile, which carry no callees and no immediates, are refused
by their magic. -/
theorem image_bijection (sha256 : Bytes → Digest) :
    (∀ entry callees bytes, encodeFunction entry callees true = .ok bytes →
      loadImage sha256 bytes = .ok ⟨sha256 bytes, entry, callees⟩) ∧
    (∀ bytes image, loadImage sha256 bytes = .ok image →
      encodeFunction image.entry image.callees true = .ok bytes) ∧
    (∀ bytes bytes' image image', loadImage sha256 bytes = .ok image →
      loadImage sha256 bytes' = .ok image' → image.entry = image'.entry →
      image.callees = image'.callees → bytes = bytes') ∧
    (∀ entry callees bytes, encodeFunction entry callees false = .ok bytes →
      loadImage sha256 bytes = .error .unknownMagic) := by
  refine ⟨?_, ?_, ?_, fun _ _ _ ↦ loadImage_restricted⟩
  · intro entry callees bytes h
    exact loadImage_eq_ok.2 ⟨rfl, h⟩
  · intro bytes image h
    exact (loadImage_eq_ok.1 h).2
  · intro bytes bytes' image image' h h' hentry hcallees
    have henc := (loadImage_eq_ok.1 h).2
    have henc' := (loadImage_eq_ok.1 h').2
    rw [hentry, hcallees, henc'] at henc
    exact (Except.ok.inj henc).symm

/-- The identity function on booleans, as lowering emits it: one parameter register, one block
that returns it. -/
def identityFunction : BytecodeFunction where
  function := Id.splat 1
  parameterRegisters := [0]
  registerTypes := [.bool]
  resultType := .bool
  entryBlock := 0
  blocks := [⟨0, [], [], .ret 0, 1⟩]

theorem image_bijection_identityFunction :
    ∃ bytes, encodeFunction identityFunction [identityFunction] true = .ok bytes ∧
      loadImage (fun _ ↦ Id.splat 0) bytes =
        .ok ⟨Id.splat 0, identityFunction, [identityFunction]⟩ := by
  have hok : (encodeFunction identityFunction [identityFunction] true).isOk = true := by
    decide +kernel
  rcases henc : encodeFunction identityFunction [identityFunction] true with e | bytes
  · rw [henc] at hok
    cases hok
  · exact ⟨bytes, rfl, (image_bijection _).1 _ _ bytes henc⟩

/-- Lowered under the restricted profile, the same function does not load. -/
theorem not_loadImage_restricted :
    ¬ ∀ (sha256 : Bytes → Digest) (entry : BytecodeFunction) (callees : List BytecodeFunction)
      (extended : Bool) (bytes : Bytes), encodeFunction entry callees extended = .ok bytes →
        loadImage sha256 bytes = .ok ⟨sha256 bytes, entry, callees⟩ := by
  intro h
  have hok : (encodeFunction identityFunction [] false).isOk = true := by decide +kernel
  rcases henc : encodeFunction identityFunction [] false with e | bytes
  · rw [henc] at hok
    cases hok
  · have hload := h (fun _ ↦ Id.splat 0) identityFunction [] false bytes henc
    rw [loadImage_restricted henc] at hload
    cases hload

end Sley.Vm
