import Sley.Lib.BigEndian
import Sley.Lib.Wire
import Sley.Vm.Bytecode

/-!
# Derived images: the encoder and the loader

`encode_function` of `sley-vm/src/lower.rs` writes a lowered entry function and its callees as
bytes, and `load_image` of `sley-vm/src/host_abi.rs` reads such bytes back. The two are separate
hand-written programs over one format and are transcribed separately here: `Encoder` appends to an
output that may not outgrow `maxBytecodeBytes`, and `ImageCursor` is a bounds-checked cursor.

The recursion over types is bounded in both by the same depth, which is also what makes the
definitions terminate.
-/

namespace Sley.Vm

open Scb1 (Bytes)
open Ssmc
open Wire (andThen each refuse)
open BigEndian (bytes value)

/-! ### The encoder -/

/-- The output of the encoder, extended by an action that may refuse. -/
abbrev Encoder := Wire.Writer LowerErrorCode UInt8

namespace Encoder

/-- Append exact bytes, within the size limit of an image. -/
def raw (bytes : Bytes) : Encoder := fun out ↦
  if out.length + bytes.length > maxBytecodeBytes then .error .resourceLimit
  else .ok (out ++ bytes)

def u16 (value : UInt16) : Encoder := raw (bytes 2 value.toNat)

def u32 (value : UInt32) : Encoder := raw (bytes 4 value.toNat)

def u64 (value : UInt64) : Encoder := raw (bytes 8 value.toNat)

def len (value : Nat) : Encoder :=
  if value < 2 ^ 64 then u64 (UInt64.ofNat value) else fun _ ↦ .error .resourceLimit

/-- A count and then every item: the shape all sequences of the format have. -/
def counted {α : Type} (item : α → Encoder) (items : List α) : Encoder :=
  andThen (len items.length) (each item items)

def registers (values : List Register) : Encoder := counted u32 values

def entity (value : EntityId) : Encoder := andThen (u32 1) (raw value.bytes)

/-- What follows a type's tag; `next` writes the types one level down. -/
def typePayload (next : TypeExpr → Encoder) : TypeExpr → Encoder
  | .unit | .bool | .f32 | .f64 | .bytes | .text => .ok
  | .sInt width | .uInt width => u16 width.bits
  | .tuple values => counted next values
  | .named definition arguments => andThen (entity definition) (counted next arguments)
  | .vector value | .option value | .localCell value => next value
  | .orderedMap key value => andThen (next key) (next value)
  | .result ok error => andThen (next ok) (next error)
  | .functionRef parameters result effects =>
    andThen (counted next parameters) (andThen (next result) (counted entity effects))
  | .adapterHandle value | .capabilityToken value => entity value
  | .typeParameter value => u32 value
  | .builtinFailure value => u16 value.tag

def typeExpr (depth : Nat) (value : TypeExpr) : Encoder :=
  if depth > maxTypeDepth then fun _ ↦ .error .resourceLimit
  else andThen (u32 value.tag) (typePayload (fun value ↦ typeExpr (depth + 1) value) value)
termination_by maxTypeDepth + 1 - depth

def immediate (value : Immediate) : Encoder :=
  andThen (u32 value.tag) <|
    match value with
    | .none => .ok
    | .entity id => entity id
    | .index index => u32 index
    | .field member => raw member.bytes
    | .variant variant => andThen (entity variant.definition) (raw variant.memberId.bytes)
    | .observation digest => raw digest.bytes
    | .function function =>
      andThen (entity function.function) (counted (typeExpr 1) function.typeArguments)

def edge (value : BytecodeTargetEdge) : Encoder :=
  andThen (u32 value.target) (registers value.arguments)

def trapPayload : Option Register → Encoder
  | none => u32 1
  | some value => andThen (u32 2) (u32 value)

def switchArgument : BytecodeSwitchArgument → Encoder
  | .value value => andThen (u32 1) (u32 value)
  | .casePayload => u32 2

def switchEdge (value : BytecodeSwitchEdge) : Encoder :=
  andThen (u32 value.target) (counted switchArgument value.arguments)

def caseKey : CaseKey → Encoder
  | .member value => andThen (u32 1) (raw value.bytes)
  | .builtin value => andThen (u32 2) (u32 value.tag)

def switchCase (value : BytecodeSwitchCase) : Encoder :=
  andThen (caseKey value.caseKey) (switchEdge value.edge)

def terminator : BytecodeTerminator → Encoder
  | .ret value => andThen (u32 1) (u32 value)
  | .branch value => andThen (u32 2) (edge value)
  | .condBranch condition ifTrue ifFalse =>
    andThen (u32 3) (andThen (u32 condition) (andThen (edge ifTrue) (edge ifFalse)))
  | .variantSwitch value cases => andThen (u32 4) (andThen (u32 value) (counted switchCase cases))
  | .trap code payload => andThen (u32 5) (andThen (u32 code) (trapPayload payload))

/-- One instruction; only the extended format has its immediate. -/
def instruction (extended : Bool) (value : Instruction) : Encoder :=
  andThen (u32 value.opcode) <| andThen (registers value.operands) <|
    andThen (registers value.results) <| if extended then immediate value.immediate else .ok

def block (extended : Bool) (value : BytecodeBlock) : Encoder :=
  andThen (u32 value.slot) <| andThen (registers value.parameterRegisters) <|
    andThen (counted (instruction extended) value.instructions) <|
      andThen (terminator value.terminator) (u32 value.reachability)

/-- One function body: identity, registers, result, and blocks. -/
def body (extended : Bool) (value : BytecodeFunction) : Encoder :=
  andThen (raw value.function.bytes) <| andThen (registers value.parameterRegisters) <|
    andThen (counted (typeExpr 1) value.registerTypes) <| andThen (typeExpr 1 value.resultType) <|
      andThen (u32 value.entryBlock) (counted (block extended) value.blocks)

end Encoder

/-- `SLEYBC01`, the restricted profile's magic. -/
def magicSleybc01 : Bytes := [0x53, 0x4c, 0x45, 0x59, 0x42, 0x43, 0x30, 0x31]

/-- `SLEYBC02`, the extended profile's magic. -/
def magicSleybc02 : Bytes := [0x53, 0x4c, 0x45, 0x59, 0x42, 0x43, 0x30, 0x32]

/-- The canonical bytes of an entry function and its callees. -/
def encodeFunction (value : BytecodeFunction) (callees : List BytecodeFunction) (extended : Bool) :
    Except LowerErrorCode Bytes :=
  andThen (Encoder.raw (if extended then magicSleybc02 else magicSleybc01))
    (andThen (Encoder.u32 1) (andThen (Encoder.body extended value)
      (if extended then Encoder.counted (Encoder.body extended) callees else .ok))) []

/-! ### The loader -/

/-- Structural image failure. -/
inductive ImageError
  | unknownMagic
  | unsupportedVersion
  | truncated
  | oversized
  | trailingData
  | malformed
  | digestMismatch
  | bindingMismatch
  deriving DecidableEq, Repr

/-- Reads of untrusted image bytes. -/
abbrev ImageCursor := Wire.Parser ImageError UInt8

namespace ImageCursor

/-- Take exactly `count` bytes. The counts are constants of the format, so the source's addition
cannot overflow and its `Malformed` for that case is not reachable. -/
def take (count : Nat) : ImageCursor Bytes := fun c ↦ Except.ofOption .truncated (c.take? count)

def u16Be : ImageCursor UInt16 := do
  let taken ← take 2
  return UInt16.ofNat (value taken)

def u32Be : ImageCursor UInt32 := do
  let taken ← take 4
  return UInt32.ofNat (value taken)

def u64Be : ImageCursor UInt64 := do
  let taken ← take 8
  return UInt64.ofNat (value taken)

/-- A count; `usize` is 64 bits wide, so the conversion from `u64` does not fail. -/
def count : ImageCursor Nat := do
  let raw ← u64Be
  return raw.toNat

def counted {α : Type} (item : ImageCursor α) : ImageCursor (List α) := do
  let count ← count
  Wire.times item count

/-- 32 identity bytes: `raw_id`, `member_id` and the digest of an observation. -/
def rawId {kind : IdKind} : ImageCursor (Id kind) := do
  let taken ← take 32
  if h : taken.length = 32 then return ⟨taken, h⟩ else refuse .truncated

/-- The encoder's `entity` shape: a `u32` version word that must be 1, then 32 identity bytes. -/
def entity : ImageCursor EntityId := do
  let version ← u32Be
  if version ≠ 1 then refuse .malformed else rawId

def registers : ImageCursor (List Register) := counted u32Be

def builtinFailureKind : ImageCursor BuiltinFailureKind := do
  let tag ← u16Be
  match tag.toNat with
  | 1 => return .arithmetic
  | 2 => return .index
  | 3 => return .duplicateKey
  | 4 => return .contractViolation
  | 5 => return .capability
  | _ => refuse .malformed

/-- What follows a type's tag; `next` reads the types one level down. -/
def typePayload (next : ImageCursor TypeExpr) (tag : Nat) : ImageCursor TypeExpr :=
  match tag with
  | 1 => return .unit
  | 2 => return .bool
  | 3 => return .sInt ⟨← u16Be⟩
  | 4 => return .uInt ⟨← u16Be⟩
  | 5 => return .f32
  | 6 => return .f64
  | 7 => return .bytes
  | 8 => return .text
  | 9 => return .tuple (← counted next)
  | 10 => return .named (← entity) (← counted next)
  | 11 => return .vector (← next)
  | 12 => return .orderedMap (← next) (← next)
  | 13 => return .option (← next)
  | 14 => return .result (← next) (← next)
  | 15 => return .functionRef (← counted next) (← next) (← counted entity)
  | 16 => return .adapterHandle (← entity)
  | 17 => return .capabilityToken (← entity)
  | 18 => return .localCell (← next)
  | 19 => return .typeParameter (← u32Be)
  | 20 => return .builtinFailure (← builtinFailureKind)
  | _ => refuse .malformed

def typeExpr (depth : Nat) : ImageCursor TypeExpr :=
  if depth > maxTypeDepth then refuse .malformed
  else do
    let tag ← u32Be
    typePayload (typeExpr (depth + 1)) tag.toNat
termination_by maxTypeDepth + 1 - depth

def immediate : ImageCursor Immediate := do
  let tag ← u32Be
  match tag.toNat with
  | 1 => return .none
  | 2 => return .entity (← entity)
  | 3 => return .index (← u32Be)
  | 4 => return .field (← rawId)
  | 5 => return .variant ⟨← entity, ← rawId⟩
  | 6 => return .observation (← rawId)
  | 7 => return .function ⟨← entity, ← counted (typeExpr 1)⟩
  | _ => refuse .malformed

def edge : ImageCursor BytecodeTargetEdge := do
  return ⟨← u32Be, ← registers⟩

def switchArgument : ImageCursor BytecodeSwitchArgument := do
  let tag ← u32Be
  match tag.toNat with
  | 1 => return .value (← u32Be)
  | 2 => return .casePayload
  | _ => refuse .malformed

def switchEdge : ImageCursor BytecodeSwitchEdge := do
  return ⟨← u32Be, ← counted switchArgument⟩

def builtinCase : ImageCursor BuiltinCase := do
  let tag ← u32Be
  match tag.toNat with
  | 1 => return .none
  | 2 => return .some
  | 3 => return .ok
  | 4 => return .err
  | _ => refuse .malformed

def caseKey : ImageCursor CaseKey := do
  let tag ← u32Be
  match tag.toNat with
  | 1 => return .member (← rawId)
  | 2 => return .builtin (← builtinCase)
  | _ => refuse .malformed

def switchCase : ImageCursor BytecodeSwitchCase := do
  return ⟨← caseKey, ← switchEdge⟩

def trapPayload : ImageCursor (Option Register) := do
  let tag ← u32Be
  match tag.toNat with
  | 1 => return none
  | 2 => return some (← u32Be)
  | _ => refuse .malformed

def terminator : ImageCursor BytecodeTerminator := do
  let tag ← u32Be
  match tag.toNat with
  | 1 => return .ret (← u32Be)
  | 2 => return .branch (← edge)
  | 3 => return .condBranch (← u32Be) (← edge) (← edge)
  | 4 => return .variantSwitch (← u32Be) (← counted switchCase)
  | 5 => return .trap (← u32Be) (← trapPayload)
  | _ => refuse .malformed

def instruction : ImageCursor Instruction := do
  return ⟨← u32Be, ← registers, ← registers, ← immediate⟩

def block : ImageCursor BytecodeBlock := do
  return ⟨← u32Be, ← registers, ← counted instruction, ← terminator, ← u32Be⟩

def body : ImageCursor BytecodeFunction := do
  let function ← rawId
  let parameterRegisters ← registers
  let registerTypes ← counted (typeExpr 1)
  let resultType ← typeExpr 1
  let entryBlock ← u32Be
  let blocks ← counted block
  return ⟨function, parameterRegisters, registerTypes, resultType, entryBlock, blocks⟩

end ImageCursor

def imageVersion : Nat := 1

def imageMaxBytes : Nat := 67108864

def imageMinBytes : Nat := 12

/-- One structurally loaded derived image. -/
structure LoadedImage where
  digest : Digest
  entry : BytecodeFunction
  callees : List BytecodeFunction

/-- Checks the structural prefix of derived-image bytes: length floor and ceiling, magic, and
format version, in that order. -/
def checkImagePrefix (bytes : Bytes) : Except ImageError Unit := do
  Except.rejectIf (bytes.length < imageMinBytes) .truncated
  Except.rejectIf (bytes.length > imageMaxBytes) .oversized
  Except.rejectIf (bytes.take 8 ≠ magicSleybc02) .unknownMagic
  Except.rejectIf (value ((bytes.drop 8).take 4) ≠ imageVersion) .unsupportedVersion

/-- Loads and structurally validates derived-image bytes: prefix, one entry body, the callee count,
each callee body, then end-of-input. The digest function is the hash library's. -/
def loadImage (sha256 : Bytes → Digest) (bytes : Bytes) : Except ImageError LoadedImage := do
  checkImagePrefix bytes
  let (_, cursor) ← (ImageCursor.take imageMinBytes).run (Cursor.new bytes)
  let (entry, cursor) ← ImageCursor.body.run cursor
  let (callees, cursor) ← (ImageCursor.counted ImageCursor.body).run cursor
  if cursor.isFinished then .ok ⟨sha256 bytes, entry, callees⟩ else .error .trailingData

end Sley.Vm
