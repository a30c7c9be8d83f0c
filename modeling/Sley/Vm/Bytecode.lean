import Sley.Ssmc.Types

/-!
# Lowered bytecode

The typed bytecode model that lowering emits (`sley-vm/src/lower.rs`): dense registers and block
slots, instructions carrying an opcode tag, and the closed set of terminators.
-/

namespace Sley.Vm

open Ssmc

/-- Dense bytecode register. -/
abbrev Register := UInt32

/-- Dense bytecode block slot. -/
abbrev BlockSlot := UInt32

/-- Maximum encoded derived bytecode bytes. -/
def maxBytecodeBytes : Nat := 67108864

/-- One instruction: the opcode tag, ordered source and result registers, and its immediate. -/
structure Instruction where
  opcode : UInt32
  operands : List Register
  results : List Register
  immediate : Immediate

/-- Ordinary lowered target edge. -/
structure BytecodeTargetEdge where
  target : BlockSlot
  arguments : List Register

/-- Lowered switch argument. -/
inductive BytecodeSwitchArgument
  | value (register : Register)
  | casePayload

/-- Lowered switch edge. -/
structure BytecodeSwitchEdge where
  target : BlockSlot
  arguments : List BytecodeSwitchArgument

/-- One lowered switch case. -/
structure BytecodeSwitchCase where
  caseKey : CaseKey
  edge : BytecodeSwitchEdge

/-- Closed lowered terminator. -/
inductive BytecodeTerminator
  | ret (value : Register)
  | branch (edge : BytecodeTargetEdge)
  | condBranch (condition : Register) (ifTrue ifFalse : BytecodeTargetEdge)
  | variantSwitch (value : Register) (cases : List BytecodeSwitchCase)
  | trap (code : UInt32) (payload : Option Register)

/-- One lowered block. -/
structure BytecodeBlock where
  slot : BlockSlot
  parameterRegisters : List Register
  instructions : List Instruction
  terminator : BytecodeTerminator
  reachability : UInt32

/-- One complete bytecode Function. -/
structure BytecodeFunction where
  function : EntityId
  parameterRegisters : List Register
  registerTypes : List TypeExpr
  resultType : TypeExpr
  entryBlock : BlockSlot
  blocks : List BytecodeBlock

/-- Lowering failure codes. -/
inductive LowerErrorCode
  | profileUnsupported
  | opcodeUnsupported
  | signatureMismatch
  | immediateMismatch
  | localReferenceInvalid
  | cacheKeyUnsupported
  | resourceLimit
  deriving DecidableEq, Repr

end Sley.Vm
