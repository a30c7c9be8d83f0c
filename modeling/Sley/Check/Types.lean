import Sley.Lib.Outcome
import Sley.Ssmc.Equality
import Sley.Ssmc.Graph
import Sley.Ssmc.Occurs

/-!
# The type environment

`TypeEnvironment` of `sley-check/src/lib.rs`: the definitions of a program by their identity, the
checks that let a set of definitions become an environment, and the judgments on types that walk
into the definitions they name. Every walk is cut off at the depth limit of types, and **that limit
is what the recursion descends on**: a definition may be expanded again below itself only as far as
the limit allows.

A walk charges every type it visits and remembers what it found for a named type at a depth. The
hash tables of a walk are lists here.
-/

namespace Sley.TypeCheck

open Ssmc
open Except (ofOption rejectIf)

def maxDefinitions : Nat := 1000000

def maxTypeWalkVisits : Nat := 1048576

def maxTypeArguments : Nat := 1024

def maxTupleItems : Nat := 65535

def maxMembers : Nat := 65535

/-- Stable S20-210 failure code. -/
inductive TypeErrorCode
  | depthLimit
  | widthInvalid
  | parameterOutOfScope
  | argumentLimit
  | argumentArity
  | definitionUnknown
  | definitionDuplicate
  | definitionCycle
  | memberDuplicate
  | memberUnknown
  | setOrder
  | notOrderable
  | notHashable
  | notPersistable
  | constShape
  | constRange
  | floatNonCanonical
  | constDuplicateKey
  | resourceLimit
  | implicitCoercion
  | builtinFailureInvalid
  deriving DecidableEq, Repr

abbrev Result (α : Type) := Except TypeErrorCode α

/-- Structural type capabilities. -/
structure TypeTraits where
  equality : Bool
  totalOrder : Bool
  canonicalHash : Bool
  persistable : Bool
  deriving DecidableEq, Repr

def TypeTraits.all : TypeTraits := ⟨true, true, true, true⟩

def TypeTraits.combine (a b : TypeTraits) : TypeTraits where
  equality := a.equality && b.equality
  totalOrder := a.totalOrder && b.totalOrder
  canonicalHash := a.canonicalHash && b.canonicalHash
  persistable := a.persistable && b.persistable

structure TypeDefinition where
  entityId : EntityId
  typeParameters : List TypeParameterDef
  form : TypeDefForm
  invariants : List EntityId

/-- The types of the fields of a record, or of the payloads of a variant. -/
def memberTypes : TypeDefForm → List TypeExpr
  | .record fields => fields.map (·.valueType)
  | .variant cases => cases.filterMap (·.payloadType)

def memberIds : TypeDefForm → List MemberId
  | .record fields => fields.map (·.memberId)
  | .variant cases => cases.map (·.memberId)

/-- A named type, by its definition and its arguments. -/
abbrev NamedType := EntityId × List TypeExpr

/-- One judgment's bounded walk. -/
structure TypeWalk where
  visits : Nat
  mapKeys : List (NamedType × Nat)
  traits : List ((NamedType × Nat) × TypeTraits)

def TypeWalk.empty : TypeWalk := ⟨0, [], []⟩

abbrev Walk := StateT TypeWalk (Except TypeErrorCode)

def TypeWalk.charge : Walk Unit := do
  let walk ← get
  set { walk with visits := walk.visits + 1 }
  StateT.ofExcept (rejectIf (walk.visits + 1 > maxTypeWalkVisits) .resourceLimit)

/-- Immutable, exactly keyed type-definition environment. -/
structure TypeEnvironment where
  definitions : EntityMap TypeDefinition

/-! ### Small checks -/

def checkDepth (depth : Nat) : Result Unit := rejectIf (depth > maxTypeDepth) .depthLimit

def isEpoch1 (width : IntegerWidth) : Bool :=
  width.bits = 8 || width.bits = 16 || width.bits = 32 || width.bits = 64 || width.bits = 128

def checkWidth (width : IntegerWidth) : Result Unit :=
  rejectIf (!isEpoch1 width) .widthInvalid

def sortedUnique : List EntityId → Bool
  | a :: b :: rest => compare a b == .lt && sortedUnique (b :: rest)
  | _ => true

def ensureSortedUnique (values : List EntityId) : Result Unit :=
  rejectIf (!sortedUnique values) .setOrder

def requireMapKeyTraits (traits : TypeTraits) : Result Unit := do
  rejectIf (!traits.totalOrder) .notOrderable
  rejectIf (!traits.equality) .notOrderable
  rejectIf (!traits.canonicalHash) .notHashable
  rejectIf (!traits.persistable) .notPersistable

mutual

/-- Every definition that the syntax of a type names. -/
def collectNamedDependencies : TypeExpr → EntitySet → EntitySet
  | .named definition arguments, dependencies =>
    collectAllDependencies arguments (dependencies.insert definition)
  | .tuple values, dependencies => collectAllDependencies values dependencies
  | .vector value, dependencies | .option value, dependencies | .localCell value, dependencies =>
    collectNamedDependencies value dependencies
  | .orderedMap key value, dependencies =>
    collectNamedDependencies value (collectNamedDependencies key dependencies)
  | .result ok error, dependencies =>
    collectNamedDependencies error (collectNamedDependencies ok dependencies)
  | .functionRef parameters returned _, dependencies =>
    collectNamedDependencies returned (collectAllDependencies parameters dependencies)
  | _, dependencies => dependencies

def collectAllDependencies : List TypeExpr → EntitySet → EntitySet
  | [], dependencies => dependencies
  | value :: values, dependencies =>
    collectAllDependencies values (collectNamedDependencies value dependencies)

end

mutual

/-- The type with the arguments in the place of its parameters, within the depth limit. -/
def substitute (arguments : List TypeExpr) : TypeExpr → Nat → Result TypeExpr
  | value, depth => do
    checkDepth depth
    match value with
    | .typeParameter index => ofOption .parameterOutOfScope arguments[index.toNat]?
    | .tuple values => return .tuple (← substituteAll arguments values (depth + 1))
    | .named definition inner =>
      return .named definition (← substituteAll arguments inner (depth + 1))
    | .vector value => return .vector (← substitute arguments value (depth + 1))
    | .orderedMap key value =>
      return .orderedMap (← substitute arguments key (depth + 1))
        (← substitute arguments value (depth + 1))
    | .option value => return .option (← substitute arguments value (depth + 1))
    | .result ok error =>
      return .result (← substitute arguments ok (depth + 1))
        (← substitute arguments error (depth + 1))
    | .functionRef parameters returned effects =>
      return .functionRef (← substituteAll arguments parameters (depth + 1))
        (← substitute arguments returned (depth + 1)) effects
    | .localCell value => return .localCell (← substitute arguments value (depth + 1))
    | other => return other

def substituteAll (arguments : List TypeExpr) : List TypeExpr → Nat → Result (List TypeExpr)
  | [], _ => return []
  | value :: values, depth =>
    return (← substitute arguments value depth) :: (← substituteAll arguments values depth)

end

/-- `contains_parameter`, a second copy of the walk that the graph checker has. -/
def containsParameter (value : TypeExpr) : Bool := value.containsTypeParameter

/-! ### Well-formedness -/

namespace TypeEnvironment

variable (env : TypeEnvironment)

def definition (id : EntityId) : Result TypeDefinition :=
  ofOption .definitionUnknown env.definitions[id]?

mutual

def checkTypeInner (parameterCount : Nat) : TypeExpr → Nat → Result Unit
  | value, depth => do
    checkDepth depth
    match value with
    | .sInt width | .uInt width => checkWidth width
    | .tuple elements =>
      rejectIf (elements.length > maxTupleItems) .resourceLimit
      checkTypesInner parameterCount elements (depth + 1)
    | .named id arguments =>
      rejectIf (arguments.length > maxTypeArguments) .argumentLimit
      let definition ← env.definition id
      rejectIf (arguments.length ≠ definition.typeParameters.length) .argumentArity
      checkTypesInner parameterCount arguments (depth + 1)
    | .vector element | .option element | .localCell element =>
      checkTypeInner parameterCount element (depth + 1)
    | .orderedMap key value =>
      checkTypeInner parameterCount key (depth + 1)
      checkTypeInner parameterCount value (depth + 1)
    | .result ok error =>
      checkTypeInner parameterCount ok (depth + 1)
      checkTypeInner parameterCount error (depth + 1)
    | .functionRef parameters returned effects =>
      rejectIf (parameters.length > maxMembers) .resourceLimit
      ensureSortedUnique effects
      checkTypesInner parameterCount parameters (depth + 1)
      checkTypeInner parameterCount returned (depth + 1)
    | .typeParameter index =>
      rejectIf (index.toNat ≥ parameterCount) .parameterOutOfScope
    | _ => return ()

def checkTypesInner (parameterCount : Nat) : List TypeExpr → Nat → Result Unit
  | [], _ => return ()
  | value :: values, depth => do
    checkTypeInner parameterCount value depth
    checkTypesInner parameterCount values depth

end

/-! ### The traits of a type -/

/-- `traits_inner_with`; an element of a type and a member of a definition are one level down. -/
def traitsInnerWith (value : TypeExpr) (depth : Nat) : Walk TypeTraits :=
  if _hdepth : depth > maxTypeDepth then StateT.ofExcept (.error .depthLimit)
  else do
    TypeWalk.charge
    match value with
    | .unit | .bool | .sInt _ | .uInt _ | .bytes | .text | .builtinFailure _ =>
      return TypeTraits.all
    | .f32 | .f64 => return { TypeTraits.all with totalOrder := false }
    | .tuple elements =>
      elements.foldlM (fun combined element ↦ do
        return combined.combine (← traitsInnerWith element (depth + 1))) TypeTraits.all
    | .named id arguments =>
      match (← get).traits.lookup ((id, arguments), depth) with
      | some traits => return traits
      | none =>
        let definition ← StateT.ofExcept (env.definition id)
        let combined ← (memberTypes definition.form).foldlM (fun combined member ↦ do
          let member ← StateT.ofExcept (substitute arguments member (depth + 1))
          return combined.combine (← traitsInnerWith member (depth + 1))) TypeTraits.all
        modify fun walk ↦
          { walk with traits := (((id, arguments), depth), combined) :: walk.traits }
        return combined
    | .vector element =>
      let element ← traitsInnerWith element (depth + 1)
      return { element with totalOrder := false }
    | .orderedMap key value =>
      let key ← traitsInnerWith key (depth + 1)
      StateT.ofExcept (requireMapKeyTraits key)
      let combined := key.combine (← traitsInnerWith value (depth + 1))
      return { combined with totalOrder := false }
    | .option element => traitsInnerWith element (depth + 1)
    | .result ok error =>
      let ok ← traitsInnerWith ok (depth + 1)
      return ok.combine (← traitsInnerWith error (depth + 1))
    | .functionRef _ _ _ => return { TypeTraits.all with totalOrder := false }
    | .adapterHandle _ | .capabilityToken _ =>
      return { equality := true, totalOrder := false, canonicalHash := false, persistable := false }
    | .localCell _ =>
      return { equality := false, totalOrder := false, canonicalHash := false,
               persistable := false }
    | .typeParameter _ => StateT.ofExcept (.error .parameterOutOfScope)
termination_by maxTypeDepth + 1 - depth

/-! ### Map keys -/

/-- `check_map_keys_with`: every map that the type holds or reaches has keys of an ordered type. -/
def checkMapKeysWith (value : TypeExpr) (depth : Nat) : Walk Unit :=
  if _hdepth : depth > maxTypeDepth then StateT.ofExcept (.error .depthLimit)
  else do
    TypeWalk.charge
    match value with
    | .orderedMap key value =>
      checkMapKeysWith key (depth + 1)
      checkMapKeysWith value (depth + 1)
      StateT.ofExcept (rejectIf (containsParameter key) .notOrderable)
      let traits ← env.traitsInnerWith key (depth + 1)
      StateT.ofExcept (requireMapKeyTraits traits)
    | .named id arguments =>
      if arguments.any containsParameter then return ()
      else if ((id, arguments), depth) ∈ (← get).mapKeys then return ()
      else
        let definition ← StateT.ofExcept (env.definition id)
        (memberTypes definition.form).forM fun member ↦ do
          let member ← StateT.ofExcept (substitute arguments member (depth + 1))
          checkMapKeysWith member (depth + 1)
        modify fun walk ↦ { walk with mapKeys := ((id, arguments), depth) :: walk.mapKeys }
    | .tuple elements => elements.forM fun element ↦ checkMapKeysWith element (depth + 1)
    | .vector element | .option element | .localCell element =>
      checkMapKeysWith element (depth + 1)
    | .result ok error =>
      checkMapKeysWith ok (depth + 1)
      checkMapKeysWith error (depth + 1)
    | .functionRef parameters returned _ =>
      parameters.forM fun parameter ↦ checkMapKeysWith parameter (depth + 1)
      checkMapKeysWith returned (depth + 1)
    | _ => return ()
termination_by maxTypeDepth + 1 - depth

/-! ### Judgments -/

/-- `check_type`: well formed with so many type parameters in scope. -/
def checkType (value : TypeExpr) (parameterCount : Nat) : Result Unit := do
  env.checkTypeInner parameterCount value 1
  discard ((env.checkMapKeysWith value 1).run .empty)

def checkClosedType (value : TypeExpr) : Result Unit := env.checkType value 0

/-- The traits of one closed, well-formed type. -/
def traits (value : TypeExpr) : Result TypeTraits := do
  env.checkClosedType value
  let (traits, _) ← (env.traitsInnerWith value 1).run .empty
  return traits

def requireHashable (value : TypeExpr) : Result Unit := do
  let traits ← env.traits value
  rejectIf (!traits.canonicalHash) .notHashable

/-! ### Admission of definitions -/

def checkDefinitionShape (definition : TypeDefinition) : Result Unit := do
  rejectIf (definition.typeParameters.length > maxTypeArguments) .argumentLimit
  definition.typeParameters.zipIdx.forM fun (parameter, index) ↦
    rejectIf (parameter.ordinal.toNat ≠ index) .parameterOutOfScope
  ensureSortedUnique definition.invariants
  rejectIf ((memberIds definition.form).length > maxMembers) .resourceLimit
  match definition.form with
  | .record fields => discard <| fields.foldlM (fun members field ↦ do
      rejectIf (field.memberId ∈ members) .memberDuplicate
      env.checkTypeInner definition.typeParameters.length field.valueType 1
      return field.memberId :: members) []
  | .variant cases => discard <| cases.foldlM (fun members case ↦ do
      rejectIf (case.memberId ∈ members) .memberDuplicate
      case.payloadType.forM fun payload ↦
        env.checkTypeInner definition.typeParameters.length payload 1
      return case.memberId :: members) []

def checkDefinitionMapKeys (definition : TypeDefinition) : Walk Unit :=
  (memberTypes definition.form).forM fun member ↦ env.checkMapKeysWith member 1

inductive Visit
  | active
  | complete
  deriving DecidableEq, Repr

/-- The definitions that the members of a definition name, in the order of their identities. -/
def dependencies (definition : TypeDefinition) : List EntityId :=
  (collectAllDependencies (memberTypes definition.form) ∅).toList

/-- `visit_definition`: a definition that is met while it is active lies on a cycle. -/
def visitDefinition (id : EntityId) (depth : Nat) :
    StateT (EntityMap Visit) (Except TypeErrorCode) Unit :=
  if _hdepth : depth > maxTypeDepth then StateT.ofExcept (.error .depthLimit)
  else do
    match (← get)[id]? with
    | some .active => StateT.ofExcept (.error .definitionCycle)
    | some .complete => return ()
    | none =>
      modify fun visits ↦ visits.insert id .active
      let definition ← StateT.ofExcept (env.definition id)
      (dependencies definition).forM fun dependency ↦ do
        discard (StateT.ofExcept (env.definition dependency))
        visitDefinition dependency (depth + 1)
      modify fun visits ↦ visits.insert id .complete
termination_by maxTypeDepth + 1 - depth

def rejectDefinitionCycles : Result Unit :=
  discard ((env.definitions.toList.forM fun (id, _) ↦ env.visitDefinition id 1).run ∅)

end TypeEnvironment

/-- `TypeEnvironment::new`: the definitions become an environment when they pass every check. -/
def TypeEnvironment.new (definitions : List TypeDefinition) : Result TypeEnvironment := do
  rejectIf (definitions.length > maxDefinitions) .resourceLimit
  let byId ← definitions.foldlM (fun (byId : EntityMap TypeDefinition) definition ↦ do
    rejectIf (definition.entityId ∈ byId) .definitionDuplicate
    return byId.insert definition.entityId definition) ∅
  let environment : TypeEnvironment := ⟨byId⟩
  byId.intoValues.forM environment.checkDefinitionShape
  environment.rejectDefinitionCycles
  discard ((byId.intoValues.forM environment.checkDefinitionMapKeys).run .empty)
  return environment

end Sley.TypeCheck
