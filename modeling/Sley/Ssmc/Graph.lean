import Sley.Ssmc.Definitions
import Sley.Ssmc.Opcode
import Sley.Ssmc.Order

/-!
# Function graphs

The entities of a function as the checker and the lowering take them (`sley-ssmc/src/lib.rs`): a
function, its parameters, its blocks and their operations, each with its identity.
-/

namespace Sley.Ssmc

/-- The fields of a function that make its graph. -/
structure FunctionGraph where
  entityId : EntityId
  typeParameters : List TypeParameterDef
  parameters : List EntityId
  resultType : TypeExpr
  effects : List EntityId
  entryBlock : EntityId
  blocks : List EntityId
  contracts : List EntityId

/-- One parameter entity, of a function or of a block. -/
structure Parameter where
  entityId : EntityId
  owner : EntityId
  role : ParameterRole
  /-- Position in the list of the owner. -/
  ordinal : UInt32
  valueType : TypeExpr

structure Block where
  entityId : EntityId
  function : EntityId
  parameters : List EntityId
  operations : List EntityId
  terminator : Terminator
  reachability : Reachability

structure Operation where
  entityId : EntityId
  block : EntityId
  /-- Position in the list of the block. -/
  ordinal : UInt32
  opcode : Opcode
  operands : List ValueRef
  resultTypes : List TypeExpr
  immediate : Immediate

/-- The targets of a terminator, a switch naming one for each case. -/
def Terminator.targets : Terminator → List EntityId
  | return_ _ | trap _ => []
  | branch terminator => [terminator.edge.target]
  | condBranch terminator => [terminator.ifTrue.target, terminator.ifFalse.target]
  | variantSwitch terminator => terminator.cases.map (·.edge.target)

/-- The types of a program, by the judgments that are asked of them. -/
structure TypeEnvironment (ε : Type) where
  /-- The form of a definition. -/
  definition : EntityId → Except ε TypeDefForm
  /-- `check_type`: the type is well formed with so many type parameters in scope. -/
  checkType : TypeExpr → Nat → Except ε Unit
  /-- `traits(value)?.persistable`. -/
  persistable : TypeExpr → Except ε Bool
  instantiateInScope : TypeExpr → List TypeExpr → Nat → Except ε TypeExpr

mutual

/-- `contains_type_parameter`. -/
def TypeExpr.containsTypeParameter : TypeExpr → Bool
  | typeParameter _ => true
  | tuple items => anyContainsTypeParameter items
  | named _ arguments => anyContainsTypeParameter arguments
  | vector element | option element | localCell element => element.containsTypeParameter
  | orderedMap key value => key.containsTypeParameter || value.containsTypeParameter
  | result ok error => ok.containsTypeParameter || error.containsTypeParameter
  | functionRef parameters returned _ =>
    anyContainsTypeParameter parameters || returned.containsTypeParameter
  | _ => false

def TypeExpr.anyContainsTypeParameter : List TypeExpr → Bool
  | [] => false
  | value :: values => value.containsTypeParameter || anyContainsTypeParameter values

end

/-- The derived order: members first, by identity, then the built-in cases as they are declared. -/
def CaseKey.le : CaseKey → CaseKey → Bool
  | member a, member b => compare a b != .gt
  | member _, builtin _ => true
  | builtin _, member _ => false
  | builtin a, builtin b => a.tag ≤ b.tag

end Sley.Ssmc
