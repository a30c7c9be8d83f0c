import Sley.Mutate.Value

/-!
# The mutation schema

The closed mutation classes and the table of operations a candidate may name
(`sley-mutate/src/lib.rs` and `generated.rs`). The source's table is generated from the field
schemas; **here it is the generator's rule applied to them**, row for row in the same order: the
three entity-scoped classes for every kind, then one row per eligible field for each field-scoped
class, then the seven operations that exist for one kind only.
-/

namespace Sley.Mutate

/-- Closed mutation class. -/
inductive MutationClass
  | createEntity
  | replaceEntityVersion
  | deleteEntityBinding
  | setScalarField
  | replaceTypedField
  | retargetReference
  | insertOrderedChild
  | removeOrderedChild
  | moveOrderedChild
  | addEntryPoint
  | removeEntryPoint
  | addTest
  | replaceTest
  | addContract
  | replaceContract
  | updateDependencyBinding
  deriving DecidableEq, Repr

/-- The closed generated mutation-class tag. -/
def MutationClass.tag : MutationClass → UInt16
  | createEntity => 1
  | replaceEntityVersion => 2
  | deleteEntityBinding => 3
  | setScalarField => 4
  | replaceTypedField => 5
  | retargetReference => 6
  | insertOrderedChild => 7
  | removeOrderedChild => 8
  | moveOrderedChild => 9
  | addEntryPoint => 10
  | removeEntryPoint => 11
  | addTest => 12
  | replaceTest => 13
  | addContract => 14
  | replaceContract => 15
  | updateDependencyBinding => 16

/-- Preimage evidence an operation must bind. -/
inductive PreimageRequirement
  | expectedIdentityAbsent
  | exactEntityVersion
  | exactContainerVersion
  deriving DecidableEq, Repr

def PreimageRequirement.tag : PreimageRequirement → UInt16
  | expectedIdentityAbsent => 1
  | exactEntityVersion => 2
  | exactContainerVersion => 3

/-- The value types of the canonical manifest; the source names them by strings. -/
inductive ValueType
  | unit
  | body (kind : EntityKind)
  | entityIdSet
  | entityId
  | optionalEntityId
  | typeParameterDefs
  | typeDefForm
  | visibility
  | entityIds
  | typeExpr
  | parameterRole
  | uInt32
  | terminator
  | reachability
  | valueRefs
  | typeExprs
  | immediate
  | constValue
  | effectKind
  | constValues
  | contractKind
  | contractBindings
  | resourceLimits
  | effectEnvironment
  | expectedOutcome
  | expectedObservations
  | fixedBytes32
  | entryExposure
  | stateRoot
  deriving DecidableEq

/-- Which field-scoped classes a field is eligible for, besides replacement as a whole. -/
inductive FieldMutationShape
  | typedOnly
  | scalar
  | directEntityReference
  | orderedEntityChildren
  deriving DecidableEq, Repr

/-- One body field of the schema. -/
structure FieldSchema where
  tag : UInt16
  valueType : ValueType
  mutationShape : FieldMutationShape
  deriving DecidableEq

/-- The ordered body fields of a kind. -/
def EntityKind.fieldSchemas : EntityKind → List FieldSchema
  | workspace => [⟨1, .entityIdSet, .typedOnly⟩, ⟨2, .entityId, .directEntityReference⟩,
    ⟨3, .entityIdSet, .typedOnly⟩, ⟨4, .entityIdSet, .typedOnly⟩, ⟨5, .entityIdSet, .typedOnly⟩]
  | package => [⟨1, .entityId, .directEntityReference⟩, ⟨2, .entityId, .directEntityReference⟩,
    ⟨3, .entityIdSet, .typedOnly⟩, ⟨4, .entityIdSet, .typedOnly⟩]
  | namespace_ => [⟨1, .optionalEntityId, .directEntityReference⟩, ⟨2, .entityIdSet, .typedOnly⟩]
  | typeDef => [⟨1, .typeParameterDefs, .typedOnly⟩, ⟨2, .typeDefForm, .typedOnly⟩,
    ⟨3, .entityIdSet, .typedOnly⟩, ⟨4, .visibility, .scalar⟩]
  | function => [⟨1, .typeParameterDefs, .typedOnly⟩, ⟨2, .entityIds, .orderedEntityChildren⟩,
    ⟨3, .typeExpr, .typedOnly⟩, ⟨4, .entityIdSet, .typedOnly⟩,
    ⟨5, .entityId, .directEntityReference⟩, ⟨6, .entityIds, .orderedEntityChildren⟩,
    ⟨7, .entityIdSet, .typedOnly⟩, ⟨8, .visibility, .scalar⟩]
  | parameter => [⟨1, .entityId, .directEntityReference⟩, ⟨2, .parameterRole, .scalar⟩,
    ⟨3, .uInt32, .scalar⟩, ⟨4, .typeExpr, .typedOnly⟩]
  | block => [⟨1, .entityId, .directEntityReference⟩, ⟨2, .entityIds, .orderedEntityChildren⟩,
    ⟨3, .entityIds, .orderedEntityChildren⟩, ⟨4, .terminator, .typedOnly⟩,
    ⟨5, .reachability, .scalar⟩]
  | operation => [⟨1, .entityId, .directEntityReference⟩, ⟨2, .uInt32, .scalar⟩,
    ⟨3, .uInt32, .scalar⟩, ⟨4, .valueRefs, .typedOnly⟩, ⟨5, .typeExprs, .typedOnly⟩,
    ⟨6, .immediate, .typedOnly⟩]
  | constant => [⟨1, .constValue, .typedOnly⟩]
  | globalValue => [⟨1, .typeExpr, .typedOnly⟩, ⟨2, .entityId, .directEntityReference⟩,
    ⟨3, .visibility, .scalar⟩]
  | effectDef => [⟨1, .effectKind, .scalar⟩, ⟨2, .typeExpr, .typedOnly⟩,
    ⟨3, .typeExpr, .typedOnly⟩, ⟨4, .typeExpr, .typedOnly⟩, ⟨5, .typeExpr, .typedOnly⟩,
    ⟨6, .visibility, .scalar⟩]
  | capabilityRequirement => [⟨1, .entityId, .directEntityReference⟩,
    ⟨2, .constValues, .typedOnly⟩, ⟨3, .entityIdSet, .typedOnly⟩]
  | contract => [⟨1, .entityId, .directEntityReference⟩, ⟨2, .contractKind, .scalar⟩,
    ⟨3, .entityId, .directEntityReference⟩, ⟨4, .contractBindings, .typedOnly⟩,
    ⟨5, .resourceLimits, .typedOnly⟩]
  | testCase => [⟨1, .entityId, .directEntityReference⟩, ⟨2, .constValues, .typedOnly⟩,
    ⟨3, .effectEnvironment, .typedOnly⟩, ⟨4, .expectedOutcome, .typedOnly⟩,
    ⟨5, .expectedObservations, .typedOnly⟩, ⟨6, .resourceLimits, .typedOnly⟩]
  | adapterImport => [⟨1, .fixedBytes32, .scalar⟩, ⟨2, .uInt32, .scalar⟩,
    ⟨3, .typeExpr, .typedOnly⟩, ⟨4, .typeExpr, .typedOnly⟩, ⟨5, .typeExpr, .typedOnly⟩,
    ⟨6, .entityIdSet, .typedOnly⟩]
  | entryPoint => [⟨1, .entityId, .directEntityReference⟩, ⟨2, .entryExposure, .scalar⟩]
  | policyBinding => [⟨1, .entityId, .directEntityReference⟩, ⟨2, .entityIdSet, .typedOnly⟩]
  | dependencyBinding => [⟨1, .stateRoot, .typedOnly⟩, ⟨2, .entityId, .directEntityReference⟩,
    ⟨3, .entityId, .directEntityReference⟩]

/-- Every kind, by tag. -/
def EntityKind.all : List EntityKind :=
  [.workspace, .package, .namespace_, .typeDef, .function, .parameter, .block, .operation, .constant,
    .globalValue, .effectDef, .capabilityRequirement, .contract, .testCase, .adapterImport,
    .entryPoint, .policyBinding, .dependencyBinding]

/-- One concrete schema-generated operation affordance. -/
structure MutationOperationDescriptor where
  mutationClass : MutationClass
  targetKind : UInt16
  fieldTag : Option UInt16
  valueType : ValueType
  preimage : PreimageRequirement
  deriving DecidableEq

/-- One row for every kind. -/
def entityRows (mutationClass : MutationClass) (valueType : EntityKind → ValueType)
    (preimage : PreimageRequirement) : List MutationOperationDescriptor :=
  EntityKind.all.map fun kind ↦ ⟨mutationClass, kind.kindTag, none, valueType kind, preimage⟩

/-- One row for every field that is eligible. -/
def fieldRows (mutationClass : MutationClass) (eligible : FieldMutationShape → Bool)
    (preimage : PreimageRequirement) : List MutationOperationDescriptor :=
  EntityKind.all.flatMap fun kind ↦
    (kind.fieldSchemas.filter fun field ↦ eligible field.mutationShape).map fun field ↦
      ⟨mutationClass, kind.kindTag, some field.tag, field.valueType, preimage⟩

/-- `MUTATION_OPERATIONS`. -/
def mutationOperations : List MutationOperationDescriptor :=
  entityRows .createEntity .body .expectedIdentityAbsent ++
  entityRows .replaceEntityVersion .body .exactEntityVersion ++
  entityRows .deleteEntityBinding (fun _ ↦ .unit) .exactEntityVersion ++
  fieldRows .setScalarField (· = .scalar) .exactEntityVersion ++
  fieldRows .replaceTypedField (fun _ ↦ true) .exactEntityVersion ++
  fieldRows .retargetReference (· = .directEntityReference) .exactEntityVersion ++
  fieldRows .insertOrderedChild (· = .orderedEntityChildren) .exactContainerVersion ++
  fieldRows .removeOrderedChild (· = .orderedEntityChildren) .exactContainerVersion ++
  fieldRows .moveOrderedChild (· = .orderedEntityChildren) .exactContainerVersion ++
  [⟨.addEntryPoint, 16, none, .body .entryPoint, .exactEntityVersion⟩,
    ⟨.removeEntryPoint, 16, none, .unit, .exactEntityVersion⟩,
    ⟨.addTest, 14, none, .body .testCase, .exactEntityVersion⟩,
    ⟨.replaceTest, 14, none, .body .testCase, .exactEntityVersion⟩,
    ⟨.addContract, 13, none, .body .contract, .exactEntityVersion⟩,
    ⟨.replaceContract, 13, none, .body .contract, .exactEntityVersion⟩,
    ⟨.updateDependencyBinding, 18, none, .body .dependencyBinding, .exactEntityVersion⟩]

/-- The exact immutable descriptor for one operation key. -/
def mutationOperationDescriptor (mutationClass : MutationClass) (targetKind : UInt16)
    (fieldTag : Option UInt16) : Option MutationOperationDescriptor :=
  mutationOperations.find? fun descriptor ↦
    descriptor.mutationClass = mutationClass ∧ descriptor.targetKind = targetKind ∧
      descriptor.fieldTag = fieldTag

end Sley.Mutate
