import Sley.Ssmc.Types

/-!
# Constants, control flow and definitions of the semantic model

The rest of the closed epoch-1 data model of `sley-ssmc/src/lib.rs` that entity bodies are made of:
constant values, value references and terminators, contracts, tests and the small enumerations.
**Every tag is the frozen SSMC1 tag of the source.**

A constant is a type and data of any shape; whether the data fits the type is the checker's
business, so nothing here ties the two together. Signed and unsigned 128-bit constants are bit
patterns, the signed ones in two's complement.
-/

namespace Sley.Ssmc

open Scb1 (Bytes)

/-! ### Enumerations -/

/-- Closed definition visibility. -/
inductive Visibility
  | private_
  | package
  | workspace
  | exported
  deriving DecidableEq, Repr

def Visibility.tag : Visibility → UInt32
  | private_ => 1
  | package => 2
  | workspace => 3
  | exported => 4

/-- Closed entry-point exposure. -/
inductive EntryExposure
  | local_
  | protocol
  deriving DecidableEq, Repr

def EntryExposure.tag : EntryExposure → UInt32
  | local_ => 1
  | protocol => 2

/-- Closed effect kind. -/
inductive EffectKind
  | stdoutWrite
  | stderrWrite
  | fileRead
  | fileWrite
  | clockRead
  | randomRead
  | environmentRead
  | adapterCall
  deriving DecidableEq, Repr

def EffectKind.tag : EffectKind → UInt32
  | stdoutWrite => 1
  | stderrWrite => 2
  | fileRead => 3
  | fileWrite => 4
  | clockRead => 5
  | randomRead => 6
  | environmentRead => 7
  | adapterCall => 8

/-- Closed contract kind. -/
inductive ContractKind
  | precondition
  | postcondition
  | invariant
  | effectBound
  | capabilityBound
  | resultPredicate
  | resourceCeiling
  deriving DecidableEq, Repr

def ContractKind.tag : ContractKind → UInt32
  | precondition => 1
  | postcondition => 2
  | invariant => 3
  | effectBound => 4
  | capabilityBound => 5
  | resultPredicate => 6
  | resourceCeiling => 7

/-- Function or block parameter. -/
inductive ParameterRole
  | function
  | block
  deriving DecidableEq, Repr

def ParameterRole.tag : ParameterRole → UInt32
  | function => 1
  | block => 2

/-- Declared block reachability. -/
inductive Reachability
  | required
  | explicitlyUnreachable
  deriving DecidableEq, Repr

def Reachability.tag : Reachability → UInt32
  | required => 1
  | explicitlyUnreachable => 2

/-- Closed trap code. -/
inductive TrapCode
  | unreachable
  | resourceExhausted
  | adapterContractViolation
  | internalInvariant
  deriving DecidableEq, Repr

def TrapCode.tag : TrapCode → UInt32
  | unreachable => 1
  | resourceExhausted => 2
  | adapterContractViolation => 3
  | internalInvariant => 4

/-! ### Type definitions -/

/-- Declared type parameter. -/
structure TypeParameterDef where
  ordinal : UInt32
  deriving DecidableEq

/-- One field of a record definition. -/
structure RecordField where
  memberId : MemberId
  valueType : TypeExpr
  visibility : Visibility

/-- One case of a variant definition. -/
structure VariantCase where
  memberId : MemberId
  payloadType : Option TypeExpr

/-- Record or variant definition. -/
inductive TypeDefForm
  | record (fields : List RecordField)
  | variant (cases : List VariantCase)

def TypeDefForm.tag : TypeDefForm → UInt32
  | record _ => 1
  | variant _ => 2

/-! ### Constants -/

/-- Persistable built-in failure value. -/
structure BuiltinFailureValue where
  kind : BuiltinFailureKind
  code : UInt16
  deriving DecidableEq

mutual

/-- A typed constant. -/
structure ConstValue where
  valueType : TypeExpr
  data : ConstData

/-- One field of a record constant. -/
structure FieldConst where
  memberId : MemberId
  value : ConstValue

structure RecordConst where
  definition : EntityId
  fields : List FieldConst

structure VariantConst where
  definition : EntityId
  memberId : MemberId
  payload : Option ConstValue

structure MapEntryConst where
  key : ConstValue
  value : ConstValue

inductive ResultConst
  | ok (value : ConstValue)
  | err (value : ConstValue)

/-- Closed constant payload. -/
inductive ConstData
  | unit
  | bool (value : Bool)
  | sInt (value : BitVec 128)
  | uInt (value : BitVec 128)
  | f32Bits (bits : UInt32)
  | f64Bits (bits : UInt64)
  | bytes (value : Bytes)
  | text (value : String)
  | sequence (values : List ConstValue)
  | record (value : RecordConst)
  | variant (value : VariantConst)
  | map (entries : List MapEntryConst)
  | option (value : Option ConstValue)
  | result (value : ResultConst)
  | functionRef (value : FunctionRefValue)
  | builtinFailure (value : BuiltinFailureValue)

end

def ResultConst.tag : ResultConst → UInt32
  | ok _ => 1
  | err _ => 2

def ConstData.tag : ConstData → UInt32
  | unit => 1
  | bool _ => 2
  | sInt _ => 3
  | uInt _ => 4
  | f32Bits _ => 5
  | f64Bits _ => 6
  | bytes _ => 7
  | text _ => 8
  | sequence _ => 9
  | record _ => 10
  | variant _ => 11
  | map _ => 12
  | option _ => 13
  | result _ => 14
  | functionRef _ => 15
  | builtinFailure _ => 16

instance : Inhabited ConstValue := ⟨⟨.unit, .unit⟩⟩

/-! ### Values and control flow -/

/-- Result of an operation. -/
structure OperationResultRef where
  operation : EntityId
  resultIndex : UInt32
  deriving DecidableEq

/-- Reference to a value in a function graph. -/
inductive ValueRef
  | parameter (id : EntityId)
  | operationResult (result : OperationResultRef)
  deriving DecidableEq

def ValueRef.tag : ValueRef → UInt32
  | parameter _ => 1
  | operationResult _ => 2

/-- Edge to a block with its arguments. -/
structure TargetEdge where
  target : EntityId
  arguments : List ValueRef
  deriving DecidableEq

/-- Argument of a switch edge. -/
inductive SwitchArgument
  | value (value : ValueRef)
  | casePayload
  deriving DecidableEq

def SwitchArgument.tag : SwitchArgument → UInt32
  | value _ => 1
  | casePayload => 2

structure SwitchEdge where
  target : EntityId
  arguments : List SwitchArgument
  deriving DecidableEq

structure SwitchCase where
  caseKey : CaseKey
  edge : SwitchEdge
  deriving DecidableEq

structure ReturnTerminator where
  value : ValueRef
  deriving DecidableEq

structure BranchTerminator where
  edge : TargetEdge
  deriving DecidableEq

structure CondBranchTerminator where
  condition : ValueRef
  ifTrue : TargetEdge
  ifFalse : TargetEdge
  deriving DecidableEq

structure VariantSwitchTerminator where
  value : ValueRef
  cases : List SwitchCase
  deriving DecidableEq

structure TrapTerminator where
  code : TrapCode
  payload : Option ValueRef
  deriving DecidableEq

/-- Closed block terminator. -/
inductive Terminator
  | return_ (terminator : ReturnTerminator)
  | branch (terminator : BranchTerminator)
  | condBranch (terminator : CondBranchTerminator)
  | variantSwitch (terminator : VariantSwitchTerminator)
  | trap (terminator : TrapTerminator)
  deriving DecidableEq

def Terminator.tag : Terminator → UInt32
  | return_ _ => 1
  | branch _ => 2
  | condBranch _ => 3
  | variantSwitch _ => 4
  | trap _ => 5

/-! ### Contracts and tests -/

/-- What a contract predicate's parameter is bound to. -/
inductive ContractSource
  | parameter (id : EntityId)
  | result
  | error
  | global (id : EntityId)
  deriving DecidableEq

def ContractSource.tag : ContractSource → UInt32
  | parameter _ => 1
  | result => 2
  | error => 3
  | global _ => 4

structure ContractBinding where
  predicateParameter : UInt32
  source : ContractSource
  deriving DecidableEq

/-- Declared resource ceilings. -/
structure ResourceLimits where
  fuel : UInt64
  memoryBytes : UInt64
  outputBytes : UInt64
  effectCount : UInt64
  callDepth : UInt64
  wallTimeoutMillis : UInt64
  deriving DecidableEq

structure ReplayBinding where
  adapterImport : EntityId
  request : List ConstValue
  response : ResultConst

structure AdapterConfig where
  adapterImport : EntityId
  configuration : ConstValue

/-- Recorded replies or configured deterministic adapters. -/
inductive EffectEnvironment
  | replay (bindings : List ReplayBinding)
  | deterministicAdapters (adapters : List AdapterConfig)

def EffectEnvironment.tag : EffectEnvironment → UInt32
  | replay _ => 1
  | deterministicAdapters _ => 2

inductive ExpectedOutcome
  | value (value : ConstValue)
  | failureCode (code : UInt32)

def ExpectedOutcome.tag : ExpectedOutcome → UInt32
  | value _ => 1
  | failureCode _ => 2

structure ExpectedObservation where
  observationId : Digest
  value : ConstValue

end Sley.Ssmc
