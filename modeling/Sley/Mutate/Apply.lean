import Sley.Mutate.CandidateEnvelope
import Sley.Ssmc.Order

/-!
# Applying a candidate

The pure application of a candidate to a base snapshot (`sley-mutate/src/apply.rs`). The
preconditions are checked against the base once; the operations then run in order on a copy.

What one operation can do to the copy is said once, by `Step`: it creates an identity that is not
there, replaces the object of one that is, deletes one that is no entry point, or takes an entry
point off the list. **Everything else follows from the steps**: an identity that is created is not
one that is deleted, because the two preconditions on the base exclude each other, and so the order
and repetition of operations do not matter to the invariant.
-/

namespace Sley.Mutate

open Scb1 Ssmc
open Except hiding ok error
open EntityMap (mem_iff_exists not_mem_iff)
open Except (bind_eq_ok rejectIf_eq_ok)
open MutationPayload (mutationClass)
open Unique (exists_iff)

/-- Pure candidate-application failures. -/
inductive CandidateApplyError
  | candidate (error : CandidateError)
  | object (code : ScbErrorCode)
  | snapshotDuplicateEntity
  | snapshotEpochMismatch
  | snapshotDuplicateEntryPoint
  | snapshotEntryPointUnbound
  | identityAlreadyLive
  | exactPreimageMismatch
  | targetMissing
  | targetAlreadyExists
  | targetKindMismatch
  | fieldMismatch
  | orderedIndexInvalid
  | orderedExpectedChildMismatch
  | entryPointAlreadyPresent
  | entryPointMissing
  | entryPointStillBound
  deriving DecidableEq, Repr

namespace CandidateApplyError

variable {α : Type}

def ofCandidate : Except CandidateError α → Except CandidateApplyError α
  | .ok a => .ok a
  | .error e => .error (.candidate e)

def ofObject : Result α → Except CandidateApplyError α
  | .ok a => .ok a
  | .error e => .error (.object e)

theorem ofCandidate_eq_ok {x : Except CandidateError α} {a : α} :
    ofCandidate x = .ok a ↔ x = .ok a := by
  cases x <;> simp [ofCandidate]

theorem ofObject_eq_ok {x : Result α} {a : α} : ofObject x = .ok a ↔ x = .ok a := by
  cases x <;> simp [ofObject]

end CandidateApplyError

/-! ### Edits of a body -/

section Edits

/-- `replace_direct_reference`. -/
def EntityBodyValue.replaceDirectReference (fieldTag : UInt16) (target : EntityId) :
    EntityBodyValue → Option EntityBodyValue
  | ⟨.workspace, body⟩ =>
    if fieldTag = 2 then some ⟨.workspace, { body with rootNamespace := target }⟩ else none
  | ⟨.package, body⟩ =>
    if fieldTag = 1 then some ⟨.package, { body with workspace := target }⟩
    else if fieldTag = 2 then some ⟨.package, { body with rootNamespace := target }⟩ else none
  | ⟨.function, body⟩ =>
    if fieldTag = 5 then some ⟨.function, { body with entryBlock := target }⟩ else none
  | ⟨.parameter, body⟩ =>
    if fieldTag = 1 then some ⟨.parameter, { body with owner := target }⟩ else none
  | ⟨.block, body⟩ =>
    if fieldTag = 1 then some ⟨.block, { body with function := target }⟩ else none
  | ⟨.operation, body⟩ =>
    if fieldTag = 1 then some ⟨.operation, { body with block := target }⟩ else none
  | ⟨.globalValue, body⟩ =>
    if fieldTag = 2 then some ⟨.globalValue, { body with initializer := target }⟩ else none
  | ⟨.capabilityRequirement, body⟩ =>
    if fieldTag = 1 then some ⟨.capabilityRequirement, { body with effect := target }⟩ else none
  | ⟨.contract, body⟩ =>
    if fieldTag = 1 then some ⟨.contract, { body with target := target }⟩
    else if fieldTag = 3 then some ⟨.contract, { body with predicate := target }⟩ else none
  | ⟨.testCase, body⟩ =>
    if fieldTag = 1 then some ⟨.testCase, { body with target := target }⟩ else none
  | ⟨.entryPoint, body⟩ =>
    if fieldTag = 1 then some ⟨.entryPoint, { body with function := target }⟩ else none
  | ⟨.policyBinding, body⟩ =>
    if fieldTag = 1 then some ⟨.policyBinding, { body with subject := target }⟩ else none
  | ⟨.dependencyBinding, body⟩ =>
    if fieldTag = 2 then some ⟨.dependencyBinding, { body with externalPackage := target }⟩
    else if fieldTag = 3 then some ⟨.dependencyBinding, { body with localNamespace := target }⟩
    else none
  | _ => none

/-- `replace_optional_reference`. -/
def EntityBodyValue.replaceOptionalReference (fieldTag : UInt16) (target : Option EntityId) :
    EntityBodyValue → Option EntityBodyValue
  | ⟨.namespace_, body⟩ =>
    if fieldTag = 1 then some ⟨.namespace_, { body with parent := target }⟩ else none
  | _ => none

/-- `ordered_entity_children_mut`: the ordered children under a tag, and the body with others in
their place. -/
def EntityBodyValue.orderedEntityChildren (fieldTag : UInt16) :
    EntityBodyValue → Option (List EntityId × (List EntityId → EntityBodyValue))
  | ⟨.function, body⟩ =>
    if fieldTag = 2 then some (body.parameters, fun l ↦ ⟨.function, { body with parameters := l }⟩)
    else if fieldTag = 6 then some (body.blocks, fun l ↦ ⟨.function, { body with blocks := l }⟩)
    else none
  | ⟨.block, body⟩ =>
    if fieldTag = 2 then some (body.parameters, fun l ↦ ⟨.block, { body with parameters := l }⟩)
    else if fieldTag = 3 then some (body.operations, fun l ↦ ⟨.block, { body with operations := l }⟩)
    else none
  | _ => none

variable [HostLayout]

/-- `replace_field`: a value for a field of another kind is refused. -/
def EntityBodyValue.replaceField : EntityBodyValue → FieldValue → Option EntityBodyValue
  | ⟨kind, body⟩, ⟨kind', field⟩ =>
    if h : kind' = kind then
      let field : kind.layout.shape.Field := h ▸ field
      let layout := kind.layout
      some ⟨kind, layout.equiv.symm (layout.shape.setField field (layout.equiv body))⟩
    else none

end Edits

/-- The ordered list under the field of an operation, edited. -/
def editChildren (fieldTag : UInt16)
    (edit : List EntityId → Except CandidateApplyError (List EntityId)) (body : EntityBodyValue) :
    Except CandidateApplyError EntityBodyValue := do
  let (children, rebuild) ← ofOption .fieldMismatch (body.orderedEntityChildren fieldTag)
  let children ← edit children
  return rebuild children

def OrderedInsert.edit (payload : OrderedInsert) (children : List EntityId) :
    Except CandidateApplyError (List EntityId) := do
  rejectIf (payload.index.toNat > children.length) .orderedIndexInvalid
  return children.insertIdx payload.index.toNat payload.child

def OrderedRemove.edit (payload : OrderedRemove) (children : List EntityId) :
    Except CandidateApplyError (List EntityId) := do
  let child ← ofOption .orderedIndexInvalid children[payload.index.toNat]?
  rejectIf (child ≠ payload.expectedChild) .orderedExpectedChildMismatch
  return children.eraseIdx payload.index.toNat

def OrderedMove.edit (payload : OrderedMove) (children : List EntityId) :
    Except CandidateApplyError (List EntityId) := do
  rejectIf (payload.source.toNat ≥ children.length ∨
    payload.destination.toNat ≥ children.length) .orderedIndexInvalid
  let child ← ofOption .orderedIndexInvalid children[payload.source.toNat]?
  rejectIf (child ≠ payload.expectedChild) .orderedExpectedChildMismatch
  return (children.eraseIdx payload.source.toNat).insertIdx payload.destination.toNat child

/-! ### Operations -/

/-- The private copy that the operations run on. -/
structure ApplyState where
  proposed : EntityMap EntityObject
  entryPoints : EntitySet
  affected : EntitySet
  deleted : EntitySet

section Operations

variable [HostLayout]

def ensureBodyKind (operation : MutationOperation) (body : EntityBodyValue) :
    Except CandidateApplyError Unit :=
  rejectIf (body.kindTag ≠ operation.targetKind) .targetKindMismatch

def ensureLiveKind (proposed : EntityMap EntityObject) (operation : MutationOperation) :
    Except CandidateApplyError Unit := do
  let object ← ofOption .targetMissing proposed[operation.targetEntity]?
  ensureBodyKind operation object.record.body

def operationFieldTag (operation : MutationOperation) : Except CandidateApplyError UInt16 :=
  match operation.fieldTag with
  | some tag => if tag.toNat < 2 ^ 16 then .ok tag.toUInt16 else .error .fieldMismatch
  | none => .error .fieldMismatch

variable [Blake3] [UnicodeNormalization]

def replaceBody (epoch : SchemaEpochId) (proposed : EntityMap EntityObject)
    (operation : MutationOperation) (body : EntityBodyValue) :
    Except CandidateApplyError (EntityMap EntityObject) := do
  ensureBodyKind operation body
  let current ← ofOption .targetMissing proposed[operation.targetEntity]?
  ensureBodyKind operation current.record.body
  let replacement ← CandidateApplyError.ofObject <| buildEntityObject epoch
    { entityId := operation.targetEntity, body, label := current.record.label,
      semanticFingerprint := current.record.semanticFingerprint }
  return proposed.insert operation.targetEntity replacement

def mutateBodyResult (epoch : SchemaEpochId) (proposed : EntityMap EntityObject)
    (operation : MutationOperation)
    (mutation : EntityBodyValue → Except CandidateApplyError EntityBodyValue) :
    Except CandidateApplyError (EntityMap EntityObject) := do
  let current ← ofOption .targetMissing proposed[operation.targetEntity]?
  ensureBodyKind operation current.record.body
  let body ← mutation current.record.body
  let replacement ← CandidateApplyError.ofObject <| buildEntityObject epoch
    { current.record with body }
  return proposed.insert operation.targetEntity replacement

def mutateBody (epoch : SchemaEpochId) (proposed : EntityMap EntityObject)
    (operation : MutationOperation) (mutation : EntityBodyValue → Option EntityBodyValue) :
    Except CandidateApplyError (EntityMap EntityObject) :=
  mutateBodyResult epoch proposed operation fun body ↦
    ofOption .fieldMismatch (mutation body)

/-- `apply_operation`. -/
def applyOperation (epoch : SchemaEpochId) (state : ApplyState) (operation : MutationOperation) :
    Except CandidateApplyError ApplyState := do
  let state := { state with affected := state.affected.insert operation.targetEntity }
  match operation.payload with
  | .createEntity body =>
    rejectIf (operation.targetEntity ∈ state.proposed) .targetAlreadyExists
    ensureBodyKind operation body
    let object ← CandidateApplyError.ofObject <| buildEntityObject epoch
      { entityId := operation.targetEntity, body, label := none, semanticFingerprint := none }
    return { state with proposed := state.proposed.insert operation.targetEntity object }
  | .replaceEntityVersion body =>
    let proposed ← replaceBody epoch state.proposed operation body
    return { state with proposed }
  | .deleteEntityBinding =>
    ensureLiveKind state.proposed operation
    rejectIf (operation.targetEntity ∈ state.entryPoints) .entryPointStillBound
    return { state with
      proposed := state.proposed.erase operation.targetEntity
      deleted := state.deleted.insert operation.targetEntity }
  | .setScalarField value | .replaceTypedField value =>
    let proposed ← mutateBody epoch state.proposed operation (·.replaceField value)
    return { state with proposed }
  | .retargetReference target =>
    let fieldTag ← operationFieldTag operation
    let proposed ← mutateBody epoch state.proposed operation fun body ↦
      match target with
      | .entity id => body.replaceDirectReference fieldTag id
      | .optional id => body.replaceOptionalReference fieldTag id
    return { state with proposed }
  | .insertOrderedChild payload =>
    let fieldTag ← operationFieldTag operation
    let proposed ← mutateBodyResult epoch state.proposed operation (editChildren fieldTag payload.edit)
    return { state with proposed }
  | .removeOrderedChild payload =>
    let fieldTag ← operationFieldTag operation
    let proposed ← mutateBodyResult epoch state.proposed operation (editChildren fieldTag payload.edit)
    return { state with proposed }
  | .moveOrderedChild payload =>
    let fieldTag ← operationFieldTag operation
    let proposed ← mutateBodyResult epoch state.proposed operation (editChildren fieldTag payload.edit)
    return { state with proposed }
  | .addEntryPoint body =>
    let proposed ← replaceBody epoch state.proposed operation ⟨.entryPoint, body⟩
    rejectIf (operation.targetEntity ∈ state.entryPoints) .entryPointAlreadyPresent
    return { state with proposed, entryPoints := state.entryPoints.insert operation.targetEntity }
  | .removeEntryPoint =>
    ensureLiveKind state.proposed operation
    rejectIf (operation.targetEntity ∉ state.entryPoints) .entryPointMissing
    return { state with entryPoints := state.entryPoints.erase operation.targetEntity }
  | .addTest body | .replaceTest body =>
    let proposed ← replaceBody epoch state.proposed operation ⟨.testCase, body⟩
    return { state with proposed }
  | .addContract body | .replaceContract body =>
    let proposed ← replaceBody epoch state.proposed operation ⟨.contract, body⟩
    return { state with proposed }
  | .updateDependencyBinding body =>
    let proposed ← replaceBody epoch state.proposed operation ⟨.dependencyBinding, body⟩
    return { state with proposed }

/-! ### Snapshots -/

/-- The base map, object after object. -/
def collectBase (epoch : SchemaEpochId) :
    List EntityObject → EntityMap EntityObject → Except CandidateApplyError (EntityMap EntityObject)
  | [], base => .ok base
  | object :: objects, base => do
    rejectIf (object.schemaEpochId ≠ epoch) .snapshotEpochMismatch
    rejectIf (object.record.entityId ∈ base) .snapshotDuplicateEntity
    collectBase epoch objects (base.insert object.record.entityId object)

/-- The root's entry points, one after the other. -/
def collectEntryPoints (base : EntityMap EntityObject) :
    List EntityId → EntitySet → Except CandidateApplyError EntitySet
  | [], entryPoints => .ok entryPoints
  | id :: ids, entryPoints => do
    rejectIf (id ∈ entryPoints) .snapshotDuplicateEntryPoint
    rejectIf (id ∉ base) .snapshotEntryPointUnbound
    collectEntryPoints base ids (entryPoints.insert id)

def checkBasePrecondition (base : EntityMap EntityObject) (precondition : BoundPrecondition) :
    Except CandidateApplyError Unit :=
  match precondition.payload with
  | .expectedIdentityAbsent payload =>
    rejectIf (payload.entityId ∈ base) .identityAlreadyLive
  | .exactEntityVersion payload =>
    rejectIf (base[payload.entityId]?.map (·.objectId) ≠ some payload.objectId)
      .exactPreimageMismatch
  | .exactContainerVersion payload =>
    rejectIf (base[payload.containerId]?.map (·.objectId) ≠ some payload.objectId)
      .exactPreimageMismatch

def checkBasePreconditions (base : EntityMap EntityObject) :
    List BoundPrecondition → Except CandidateApplyError Unit
  | [] => .ok ()
  | precondition :: preconditions => do
    checkBasePrecondition base precondition
    checkBasePreconditions base preconditions

/-- Immutable result of pure ordered operation evaluation. -/
structure ProposedEntityState where
  schemaEpochId : SchemaEpochId
  entities : List EntityObject
  entryPoints : List EntityId
  affectedEntities : List EntityId
  deletedEntities : List EntityId

/-- Applies one structurally valid candidate to an exact immutable base snapshot. -/
def applyCandidateToSnapshot (epoch : SchemaEpochId) (candidate : CandidateRecord)
    (baseObjects : List EntityObject) (baseEntryPoints : List EntityId) :
    Except CandidateApplyError ProposedEntityState := do
  CandidateApplyError.ofCandidate candidate.validate
  rejectIf (candidate.schemaEpochId ≠ epoch) .snapshotEpochMismatch
  let base ← collectBase epoch baseObjects ∅
  let entryPoints ← collectEntryPoints base baseEntryPoints ∅
  checkBasePreconditions base candidate.preconditions
  let state ← candidate.operations.foldlM (applyOperation epoch) ⟨base, entryPoints, ∅, ∅⟩
  return ⟨epoch, state.proposed.intoValues, state.entryPoints.toList, state.affected.toList,
    state.deleted.toList⟩

/-! ### Edits keep the kind -/

variable {tag : UInt16}

section

omit [HostLayout] [Blake3] [UnicodeNormalization]

theorem EntityBodyValue.replaceDirectReference_kind {target : EntityId}
    {body body' : EntityBodyValue} (h : body.replaceDirectReference tag target = some body') :
    body'.valueKind = body.valueKind := by
  unfold replaceDirectReference at h
  repeat' split at h
  all_goals first
    | cases h; rfl
    | cases h

theorem EntityBodyValue.replaceOptionalReference_kind {target : Option EntityId}
    {body body' : EntityBodyValue} (h : body.replaceOptionalReference tag target = some body') :
    body'.valueKind = body.valueKind := by
  unfold replaceOptionalReference at h
  repeat' split at h
  all_goals first
    | cases h; rfl
    | cases h

end

omit [Blake3] [UnicodeNormalization] in
theorem EntityBodyValue.replaceField_kind {value : FieldValue} {body body' : EntityBodyValue}
    (h : body.replaceField value = some body') : body'.valueKind = body.valueKind := by
  unfold replaceField at h
  split at h
  split at h
  · cases h
    rfl
  · cases h

omit [HostLayout] [Blake3] [UnicodeNormalization] in
theorem editChildren_kind {edit : List EntityId → Except CandidateApplyError (List EntityId)}
    {body body' : EntityBodyValue} (h : editChildren tag edit body = .ok body') :
    body'.valueKind = body.valueKind := by
  simp only [editChildren, bind_eq_ok, ofOption_eq_ok, Prod.exists, pure_eq_ok] at h
  obtain ⟨children, rebuild, hchildren, children', -, rfl⟩ := h
  unfold EntityBodyValue.orderedEntityChildren at hchildren
  repeat' split at hchildren
  all_goals first
    | cases hchildren; rfl
    | cases hchildren

/-! ### What an operation can do -/

section

omit [HostLayout] [Blake3] [UnicodeNormalization]

theorem EntityKind.kindTag_injective : Function.Injective EntityKind.kindTag := by
  intro kind kind' h
  have hkind := EntityKind.fromTag_eq_some.2 (congrArg UInt16.toNat h)
  exact Option.some.inj (hkind.symm.trans (EntityKind.fromTag_eq_some.2 rfl))

theorem EntityBodyValue.kindTag_eq_iff {body body' : EntityBodyValue} :
    body.kindTag = body'.kindTag ↔ body.valueKind = body'.valueKind :=
  EntityKind.kindTag_injective.eq_iff

end

/-- An object with another body of the same kind. -/
structure Replaces (current object : EntityObject) : Prop where
  kind_eq : object.record.body.valueKind = current.record.body.valueKind
  label_eq : object.record.label = current.record.label
  semanticFingerprint_eq :
    object.record.semanticFingerprint = current.record.semanticFingerprint

omit [HostLayout] [Blake3] [UnicodeNormalization] in
theorem Replaces.trans {a b c : EntityObject} (hab : Replaces a b) (hbc : Replaces b c) :
    Replaces a c where
  kind_eq := hbc.kind_eq.trans hab.kind_eq
  label_eq := hbc.label_eq.trans hab.label_eq
  semanticFingerprint_eq := hbc.semanticFingerprint_eq.trans hab.semanticFingerprint_eq

/-- The object of the target is replaced in a map. -/
def ReplacedIn (proposed : EntityMap EntityObject) (target : EntityId)
    (proposed' : EntityMap EntityObject) : Prop :=
  ∃ current object, proposed[target]? = some current ∧ Replaces current object ∧
    (current.record.entityId = target → object.record.entityId = target) ∧
    proposed' = proposed.insert target object

/-- What an operation can do to the copy it runs on. -/
inductive Step (operation : MutationOperation) (state : ApplyState) : ApplyState → Prop
  | create (object : EntityObject) (hid : object.record.entityId = operation.targetEntity)
      (hclass : operation.payload.mutationClass = .createEntity)
      (hnew : operation.targetEntity ∉ state.proposed) :
      Step operation state
        { state with
          affected := state.affected.insert operation.targetEntity
          proposed := state.proposed.insert operation.targetEntity object }
  | replace (proposed : EntityMap EntityObject) (entryPoints : EntitySet)
      (hclass : operation.payload.mutationClass ≠ .createEntity)
      (hproposed : ReplacedIn state.proposed operation.targetEntity proposed)
      (hentry : entryPoints = state.entryPoints ∨
        entryPoints = state.entryPoints.insert operation.targetEntity) :
      Step operation state
        { state with
          affected := state.affected.insert operation.targetEntity
          proposed := proposed
          entryPoints := entryPoints }
  | delete (hclass : operation.payload.mutationClass ≠ .createEntity)
      (hlive : operation.targetEntity ∈ state.proposed)
      (hentry : operation.targetEntity ∉ state.entryPoints) :
      Step operation state
        { state with
          affected := state.affected.insert operation.targetEntity
          proposed := state.proposed.erase operation.targetEntity
          deleted := state.deleted.insert operation.targetEntity }
  | removeEntryPoint (hclass : operation.payload.mutationClass ≠ .createEntity) :
      Step operation state
        { state with
          affected := state.affected.insert operation.targetEntity
          entryPoints := state.entryPoints.erase operation.targetEntity }

variable {epoch : SchemaEpochId}

theorem buildEntityObject_record {record : EntityObjectRecord}
    {object : EntityObject} (h : buildEntityObject epoch record = .ok object) :
    object.record = record := by
  obtain ⟨_, -, -, rfl⟩ := buildEntityObject_eq_ok.1 h
  rfl

variable {operation : MutationOperation} {proposed proposed' : EntityMap EntityObject}

theorem replaceBody_replacedIn {body : EntityBodyValue}
    (h : replaceBody epoch proposed operation body = .ok proposed') :
    ReplacedIn proposed operation.targetEntity proposed' := by
  simp only [replaceBody, ensureBodyKind, bind_eq_ok, rejectIf_eq_ok, not_not, exists_const,
    ofOption_eq_ok, CandidateApplyError.ofObject_eq_ok, pure_eq_ok] at h
  obtain ⟨hkind, current, hcurrent, hkind', object, hobject, rfl⟩ := h
  have hrecord := buildEntityObject_record hobject
  refine ⟨current, object, hcurrent, ⟨?_, by rw [hrecord], by rw [hrecord]⟩,
    fun _ ↦ by rw [hrecord], rfl⟩
  rw [hrecord]
  exact EntityBodyValue.kindTag_eq_iff.1 (hkind.trans hkind'.symm)

theorem mutateBodyResult_replacedIn
    {mutation : EntityBodyValue → Except CandidateApplyError EntityBodyValue}
    (hmutation : ∀ {body body' : EntityBodyValue}, mutation body = .ok body' →
      body'.valueKind = body.valueKind)
    (h : mutateBodyResult epoch proposed operation mutation = .ok proposed') :
    ReplacedIn proposed operation.targetEntity proposed' := by
  simp only [mutateBodyResult, ensureBodyKind, bind_eq_ok, rejectIf_eq_ok, not_not, exists_const,
    ofOption_eq_ok, CandidateApplyError.ofObject_eq_ok, pure_eq_ok] at h
  obtain ⟨current, hcurrent, -, body, hbody, object, hobject, rfl⟩ := h
  have hrecord := buildEntityObject_record hobject
  refine ⟨current, object, hcurrent, ⟨?_, by rw [hrecord], by rw [hrecord]⟩,
    fun hid ↦ by rw [hrecord, hid], rfl⟩
  rw [hrecord]
  exact hmutation hbody

theorem mutateBody_replacedIn {mutation : EntityBodyValue → Option EntityBodyValue}
    (hmutation : ∀ {body body' : EntityBodyValue}, mutation body = some body' →
      body'.valueKind = body.valueKind)
    (h : mutateBody epoch proposed operation mutation = .ok proposed') :
    ReplacedIn proposed operation.targetEntity proposed' :=
  mutateBodyResult_replacedIn (fun hbody ↦ hmutation (ofOption_eq_ok.1 hbody)) h

variable {state state' : ApplyState}

/-- **Every operation that succeeds is a step.** -/
theorem applyOperation_step (h : applyOperation epoch state operation = .ok state') :
    Step operation state state' := by
  -- an operation whose effect is one replaced object
  have hreplace : ∀ {result : Except CandidateApplyError (EntityMap EntityObject)},
      operation.payload.mutationClass ≠ .createEntity →
      (∀ {proposed}, result = .ok proposed →
        ReplacedIn state.proposed operation.targetEntity proposed) →
      (do
        let proposed ← result
        return { state with
          affected := state.affected.insert operation.targetEntity
          proposed := proposed }) = .ok state' → Step operation state state' := by
    intro result hclass hresult h
    obtain ⟨proposed, hproposed, hstate⟩ := bind_eq_ok.1 h
    rw [pure_eq_ok.1 hstate]
    exact .replace proposed state.entryPoints hclass (hresult hproposed) (.inl rfl)
  unfold applyOperation at h
  split at h
  case h_1 body hpayload =>
    simp only [bind_eq_ok, rejectIf_eq_ok, exists_const,
      CandidateApplyError.ofObject_eq_ok, pure_eq_ok] at h
    obtain ⟨hnew, _, -, object, hobject, rfl⟩ := h
    exact .create object (by rw [buildEntityObject_record hobject])
      (by rw [hpayload]; rfl) hnew
  case h_3 hpayload =>
    simp only [ensureLiveKind, bind_eq_ok, rejectIf_eq_ok, exists_const,
      ofOption_eq_ok, pure_eq_ok] at h
    obtain ⟨_, ⟨object, hobject, -⟩, hentry, rfl⟩ := h
    exact .delete (by simp [hpayload, mutationClass]) (mem_iff_exists.2 ⟨object, hobject⟩) hentry
  case h_11 hpayload =>
    simp only [ensureLiveKind, bind_eq_ok, rejectIf_eq_ok, exists_const, pure_eq_ok] at h
    obtain ⟨_, -, -, rfl⟩ := h
    exact .removeEntryPoint (by simp [hpayload, mutationClass])
  case h_2 body hpayload =>
    exact hreplace (by simp [hpayload, mutationClass]) replaceBody_replacedIn h
  case h_4 | h_5 =>
    rename_i hpayload
    exact hreplace (by simp [hpayload, mutationClass])
      (mutateBody_replacedIn EntityBodyValue.replaceField_kind) h
  case h_6 target hpayload =>
    obtain ⟨tag, -, h⟩ := bind_eq_ok.1 h
    refine hreplace (by simp [hpayload, mutationClass])
      (mutateBody_replacedIn fun {body body'} hbody ↦ ?_) h
    split at hbody
    · exact EntityBodyValue.replaceDirectReference_kind hbody
    · exact EntityBodyValue.replaceOptionalReference_kind hbody
  case h_7 | h_8 | h_9 =>
    rename_i hpayload
    obtain ⟨tag, -, h⟩ := bind_eq_ok.1 h
    exact hreplace (by simp [hpayload, mutationClass])
      (mutateBodyResult_replacedIn editChildren_kind) h
  case h_10 body hpayload =>
    simp only [bind_eq_ok, rejectIf_eq_ok, exists_const, pure_eq_ok] at h
    obtain ⟨proposed, hproposed, -, rfl⟩ := h
    exact .replace proposed _ (by simp [hpayload, mutationClass])
      (replaceBody_replacedIn hproposed) (.inr rfl)
  -- tests, contracts and dependency bindings
  all_goals
    rename_i hpayload
    exact hreplace (by simp [hpayload, mutationClass]) replaceBody_replacedIn h

/-! ### Runs -/

omit [Blake3] [UnicodeNormalization] in
/-- A step touches its target only. -/
theorem Step.other
    (h : Step operation state state') {id : EntityId} (hne : id ≠ operation.targetEntity) :
    state'.proposed[id]? = state.proposed[id]? ∧
      (id ∈ state'.entryPoints ↔ id ∈ state.entryPoints) ∧
      (id ∈ state'.deleted ↔ id ∈ state.deleted) := by
  cases h with
  | create object hid hclass hnew =>
    exact ⟨by rw [EntityMap.getElem?_insert_eq, if_neg hne], .rfl, .rfl⟩
  | replace proposed entryPoints hclass hproposed hentry =>
    obtain ⟨current, object, -, -, -, rfl⟩ := hproposed
    refine ⟨by rw [EntityMap.getElem?_insert_eq, if_neg hne], ?_, .rfl⟩
    obtain rfl | rfl := hentry
    · exact .rfl
    · rw [EntitySet.mem_insert_iff, or_iff_right hne]
  | delete hclass hlive hentry =>
    exact ⟨by rw [EntityMap.getElem?_erase_eq, if_neg hne], .rfl,
      by rw [EntitySet.mem_insert_iff, or_iff_right hne]⟩
  | removeEntryPoint hclass =>
    exact ⟨rfl, by rw [EntitySet.mem_erase_iff, and_iff_right hne], .rfl⟩

/-- What holds of one identity after any number of operations, relative to the base. -/
structure InvAt (base : EntityMap EntityObject) (operations : List MutationOperation)
    (state : ApplyState) (id : EntityId) : Prop where
  /-- An object is bound under its own identity. -/
  keyed : ∀ object, state.proposed[id]? = some object → object.record.entityId = id
  entry_live : id ∈ state.entryPoints → id ∈ state.proposed
  deleted_absent : id ∈ state.deleted → id ∈ base ∧ id ∉ state.proposed
  replaces : ∀ original object, base[id]? = some original → state.proposed[id]? = some object →
    Replaces original object
  unchanged : (∀ operation ∈ operations, operation.targetEntity ≠ id) →
    state.proposed[id]? = base[id]?
  created : id ∈ state.proposed → id ∉ base →
    ∃ operation ∈ operations, operation.payload.mutationClass = .createEntity ∧
      operation.targetEntity = id

variable {base : EntityMap EntityObject} {operations : List MutationOperation}

section

omit [Blake3] [UnicodeNormalization]

/-- An identity that the next operation does not target. -/
theorem InvAt.frame {id : EntityId}
    (hinv : InvAt base operations state id) (hstep : Step operation state state')
    (hne : id ≠ operation.targetEntity) :
    InvAt base (operations ++ [operation]) state' id := by
  obtain ⟨hproposed, hentry, hdeleted⟩ := hstep.other hne
  have hlive : id ∈ state'.proposed ↔ id ∈ state.proposed := by
    rw [mem_iff_exists, hproposed, ← mem_iff_exists]
  constructor
  · rw [hproposed]
    exact hinv.keyed
  · rw [hentry, hlive]
    exact hinv.entry_live
  · rw [hdeleted, hlive]
    exact hinv.deleted_absent
  · rw [hproposed]
    exact hinv.replaces
  · intro huntouched
    rw [hproposed]
    exact hinv.unchanged fun op hop ↦ huntouched op (List.mem_append_left _ hop)
  · intro hin hout
    obtain ⟨op, hop, h⟩ := hinv.created (hlive.1 hin) hout
    exact ⟨op, List.mem_append_left _ hop, h⟩

/-- The identity that the next operation targets. The base has it unless the operation creates it;
this is what keeps a deleted identity from coming back. -/
theorem InvAt.target (hinv : InvAt base operations state operation.targetEntity)
    (hbase : operation.targetEntity ∈ base ↔ operation.payload.mutationClass ≠ .createEntity)
    (hstep : Step operation state state') :
    InvAt base (operations ++ [operation]) state' operation.targetEntity := by
  have htouched : ¬ ∀ op ∈ operations ++ [operation], op.targetEntity ≠ operation.targetEntity :=
    fun h ↦ h operation (by simp) rfl
  cases hstep with
  | create object hid hclass hnew =>
    have hout : operation.targetEntity ∉ base := fun h ↦ hbase.1 h hclass
    have hlookup : (state.proposed.insert operation.targetEntity object)[operation.targetEntity]? =
        some object := by rw [EntityMap.getElem?_insert_eq, if_pos rfl]
    exact {
      keyed := fun object' h ↦ Option.some.inj (hlookup.symm.trans h) ▸ hid
      entry_live := fun _ ↦ mem_iff_exists.2 ⟨object, hlookup⟩
      deleted_absent := fun h ↦ absurd (hinv.deleted_absent h).1 hout
      replaces := fun original _ h _ ↦ absurd (mem_iff_exists.2 ⟨original, h⟩) hout
      unchanged := fun h ↦ absurd h htouched
      created := fun _ _ ↦ ⟨operation, by simp, hclass, rfl⟩ }
  | replace proposed entryPoints hclass hproposed hentry =>
    obtain ⟨current, object, hcurrent, hreplaces, hid, rfl⟩ := hproposed
    have hlookup : (state.proposed.insert operation.targetEntity object)[operation.targetEntity]? =
        some object := by rw [EntityMap.getElem?_insert_eq, if_pos rfl]
    have hlive : operation.targetEntity ∈ state.proposed :=
      mem_iff_exists.2 ⟨current, hcurrent⟩
    exact {
      keyed := fun object' h ↦ Option.some.inj (hlookup.symm.trans h) ▸
        hid (hinv.keyed current hcurrent)
      entry_live := fun _ ↦ mem_iff_exists.2 ⟨object, hlookup⟩
      deleted_absent := fun h ↦ absurd hlive (hinv.deleted_absent h).2
      replaces := fun original object' horiginal h ↦
        Option.some.inj (hlookup.symm.trans h) ▸
          (hinv.replaces original current horiginal hcurrent).trans hreplaces
      unchanged := fun h ↦ absurd h htouched
      created := fun _ h ↦ absurd (hbase.2 hclass) h }
  | delete hclass hlive hentry =>
    have hlookup : (state.proposed.erase operation.targetEntity)[operation.targetEntity]? = none := by
      rw [EntityMap.getElem?_erase_eq, if_pos rfl]
    exact {
      keyed := fun object' h ↦ by
        rw [hlookup] at h
        cases h
      entry_live := fun h ↦ absurd h hentry
      deleted_absent := fun _ ↦ ⟨hbase.2 hclass, EntityMap.not_mem_iff.2 hlookup⟩
      replaces := fun _ object' _ h ↦ by
        rw [hlookup] at h
        cases h
      unchanged := fun h ↦ absurd h htouched
      created := fun _ h ↦ absurd (hbase.2 hclass) h }
  | removeEntryPoint hclass =>
    exact {
      keyed := hinv.keyed
      entry_live := fun h ↦ hinv.entry_live (EntitySet.mem_erase_iff.1 h).2
      deleted_absent := hinv.deleted_absent
      replaces := hinv.replaces
      unchanged := fun h ↦ absurd h htouched
      created := fun _ h ↦ absurd (hbase.2 hclass) h }

end

/-- **A run keeps the invariant**, whatever the operations, once each of them creates exactly when
the base does not have its target. -/
theorem InvAt.run {operations done : List MutationOperation} (hbase : ∀ operation ∈ operations,
      operation.targetEntity ∈ base ↔ operation.payload.mutationClass ≠ .createEntity)
    (hinv : ∀ id, InvAt base done state id)
    (h : operations.foldlM (applyOperation epoch) state = .ok state') :
    ∀ id, InvAt base (done ++ operations) state' id := by
  induction operations generalizing done state with
  | nil =>
    obtain rfl := pure_eq_ok.1 h
    simpa using hinv
  | cons operation operations ih =>
    rw [List.foldlM_cons] at h
    obtain ⟨next, hnext, h⟩ := bind_eq_ok.1 h
    obtain ⟨htarget, hrest⟩ := List.forall_mem_cons.1 hbase
    have hstep := applyOperation_step hnext
    have hinv' : ∀ id, InvAt base (done ++ [operation]) next id := by
      intro id
      by_cases hid : id = operation.targetEntity
      · rw [hid]
        exact (hinv operation.targetEntity).target htarget hstep
      · exact (hinv id).frame hstep hid
    have hrun := ih hrest hinv' h
    rwa [List.append_assoc] at hrun

/-! ### Preconditions -/

omit [HostLayout] [Blake3] [UnicodeNormalization] in
/-- The rows that ask for an absent identity are those that create. -/
theorem mutationOperations_absent_iff : ∀ row ∈ mutationOperations,
    row.preimage = .expectedIdentityAbsent ↔ row.mutationClass = .createEntity := by
  have h : (mutationOperations.all fun row ↦ decide
      (row.preimage = .expectedIdentityAbsent ↔ row.mutationClass = .createEntity)) = true := by
    decide
  simpa using h

omit [Blake3] [UnicodeNormalization] in
/-- A precondition asks the base for its operation's target, or for its absence. -/
theorem target_mem_iff {precondition : BoundPrecondition} {requirement : PreimageRequirement}
    (hvalid : validatePrecondition operation precondition requirement = .ok ())
    (hcheck : checkBasePrecondition base precondition = .ok ()) :
    operation.targetEntity ∈ base ↔ requirement ≠ .expectedIdentityAbsent := by
  simp only [validatePrecondition, bind_eq_ok, rejectIf_eq_ok, exists_const, ne_eq,
    not_or, not_not] at hvalid
  obtain ⟨⟨-, hrequirement, hpayload⟩, htarget⟩ := hvalid
  -- a version of an entity is a version of one that is there
  have hversion : ∀ {id : EntityId} {object : ObjectId},
      base[id]?.map (·.objectId) = some object → id ∈ base := by
    intro id object h
    obtain ⟨found, hfound, -⟩ := Option.map_eq_some_iff.1 h
    exact mem_iff_exists.2 ⟨found, hfound⟩
  rw [← hrequirement, ← hpayload]
  cases hcase : precondition.payload with
  | expectedIdentityAbsent payload =>
    simp only [hcase, rejectIf_eq_ok, checkBasePrecondition, not_not] at htarget hcheck
    simp [PreconditionPayload.requirement, ← htarget, hcheck]
  | exactEntityVersion payload =>
    simp only [hcase, rejectIf_eq_ok, checkBasePrecondition, ne_eq, not_not]
      at htarget hcheck
    simp [PreconditionPayload.requirement, ← htarget, hversion hcheck]
  | exactContainerVersion payload =>
    simp only [hcase, rejectIf_eq_ok, checkBasePrecondition, ne_eq, not_not]
      at htarget hcheck
    simp [PreconditionPayload.requirement, ← htarget.1, hversion hcheck]

omit [HostLayout] [Blake3] [UnicodeNormalization] in
theorem checkBasePreconditions_eq_ok {preconditions : List BoundPrecondition} :
    checkBasePreconditions base preconditions = .ok () ↔
      ∀ precondition ∈ preconditions, checkBasePrecondition base precondition = .ok () := by
  induction preconditions with
  | nil => simp [checkBasePreconditions]
  | cons p ps ih =>
    rw [checkBasePreconditions, bind_eq_ok, exists_iff, ih, List.forall_mem_cons]

omit [UnicodeNormalization] in
/-- Every operation of the loop has a row, which its payload and its precondition agree with. -/
theorem validateOperations_row {record : CandidateRecord} {index created : Nat}
    {pairs : List (MutationOperation × BoundPrecondition)}
    (h : record.validateOperations index created pairs = .ok ()) :
    ∀ pair ∈ pairs, ∃ row ∈ mutationOperations,
      pair.1.payload.mutationClass = row.mutationClass ∧
        validatePrecondition pair.1 pair.2 row.preimage = .ok () := by
  induction pairs generalizing index created with
  | nil => simp
  | cons pair pairs ih =>
    obtain ⟨operation, precondition⟩ := pair
    obtain ⟨next, hnext, hrest⟩ := bind_eq_ok.1 h
    refine List.forall_mem_cons.2 ⟨?_, ih hrest⟩
    simp only [CandidateRecord.validateOperation, bind_eq_ok, rejectIf_eq_ok,
      ofOption_eq_ok, not_not, exists_iff] at hnext
    obtain ⟨-, -, field, -, row, hrow, hmatch, hend⟩ := hnext
    obtain ⟨-, hclass, -, -⟩ := mutationOperationDescriptor_eq_some hrow
    have hprecondition : validatePrecondition operation precondition row.preimage = .ok () := by
      split at hend
      · simp only [bind_eq_ok, exists_iff] at hend
        obtain ⟨-, -, _, -, h, -⟩ := hend
        exact h
      · simp only [bind_eq_ok, exists_iff] at hend
        obtain ⟨_, -, h, -⟩ := hend
        exact h
    refine ⟨row, List.mem_of_find?_eq_some hrow, ?_, hprecondition⟩
    rw [(MutationPayload.matchesDescriptor_iff.1 hmatch).1, hclass]

variable {candidate : CandidateRecord}

omit [UnicodeNormalization] in
/-- **A valid candidate whose preconditions hold creates exactly the targets that the base does not
have.** -/
theorem target_mem_base_iff (hvalid : candidate.validate = .ok ())
    (hcheck : checkBasePreconditions base candidate.preconditions = .ok ()) :
    ∀ operation ∈ candidate.operations,
      operation.targetEntity ∈ base ↔ operation.payload.mutationClass ≠ .createEntity := by
  intro operation hoperation
  simp only [CandidateRecord.validate, bind_eq_ok, rejectIf_eq_ok, not_not,
    exists_iff, ne_eq] at hvalid
  obtain ⟨-, -, _, -, _, -, -, -, -, hlength, hloop⟩ := hvalid
  obtain ⟨i, hi, rfl⟩ := List.mem_iff_getElem.1 hoperation
  have hpair : (candidate.operations[i], candidate.preconditions[i]) ∈
      candidate.operations.zip candidate.preconditions := by
    rw [← List.getElem_zip (h := by rw [List.length_zip, ← hlength, Nat.min_self]; exact hi)]
    exact List.getElem_mem _
  obtain ⟨row, hrow, hclass, hprecondition⟩ := validateOperations_row hloop _ hpair
  rw [target_mem_iff hprecondition (checkBasePreconditions_eq_ok.1 hcheck _ (List.getElem_mem _)),
    hclass, ne_eq, mutationOperations_absent_iff row hrow]

/-! ### Base snapshots -/

variable {objects : List EntityObject}

section

omit [HostLayout] [Blake3] [UnicodeNormalization]

/-- The base map holds the objects under their identities, and nothing else; their order does not
show. -/
theorem collectBase_eq_ok {start base : EntityMap EntityObject} :
    collectBase epoch objects start = .ok base ↔
      (∀ object ∈ objects, object.schemaEpochId = epoch ∧ object.record.entityId ∉ start) ∧
        (objects.map (·.record.entityId)).Nodup ∧
        ∀ (id : EntityId) (object : EntityObject), base[id]? = some object ↔
          start[id]? = some object ∨ object ∈ objects ∧ object.record.entityId = id := by
  induction objects generalizing start with
  | nil =>
    simp only [collectBase, Except.ok.injEq, List.not_mem_nil, false_imp_iff, implies_true,
      List.map_nil, List.nodup_nil, true_and, false_and, or_false]
    constructor
    · rintro rfl id object
      exact .rfl
    · intro h
      exact Std.ExtTreeMap.ext_getElem? fun id ↦ Option.ext fun object ↦ (h id object).symm
  | cons first objects ih =>
    -- the first object is out of the way of the others, and they of it
    simp only [collectBase, bind_eq_ok, rejectIf_eq_ok, exists_const, not_not, ih,
      List.forall_mem_cons, List.map_cons, List.nodup_cons, EntityMap.mem_insert_iff,
      EntityMap.getElem?_insert_eq, List.mem_map, not_or]
    constructor
    · rintro ⟨hepoch, hnew, hobjects, hnodup, hlookup⟩
      refine ⟨⟨⟨hepoch, hnew⟩, fun o ho ↦ ⟨(hobjects o ho).1, (hobjects o ho).2.2⟩⟩,
        ⟨not_exists.2 fun o h ↦ (hobjects o h.1).2.1 h.2, hnodup⟩, fun id object ↦ ?_⟩
      rw [hlookup, List.mem_cons]
      grind [not_mem_iff]
    · rintro ⟨⟨⟨hepoch, hnew⟩, hobjects⟩, ⟨hfirst, hnodup⟩, hlookup⟩
      refine ⟨hepoch, hnew, fun o ho ↦ ⟨(hobjects o ho).1, fun heq ↦ hfirst ⟨o, ho, heq⟩,
        (hobjects o ho).2⟩, hnodup, fun id object ↦ ?_⟩
      rw [hlookup, List.mem_cons]
      grind [not_mem_iff]

theorem collectEntryPoints_eq_ok {ids : List EntityId} {start entryPoints : EntitySet} :
    collectEntryPoints base ids start = .ok entryPoints ↔
      (∀ id ∈ ids, id ∈ base ∧ id ∉ start) ∧ ids.Nodup ∧
        ∀ id, id ∈ entryPoints ↔ id ∈ start ∨ id ∈ ids := by
  induction ids generalizing start with
  | nil =>
    simp only [collectEntryPoints, Except.ok.injEq, List.not_mem_nil, false_imp_iff, implies_true,
      List.nodup_nil, true_and, or_false]
    constructor
    · rintro rfl id
      exact .rfl
    · intro h
      exact Std.ExtTreeSet.ext_mem fun id ↦ (h id).symm
  | cons first ids ih =>
    simp only [collectEntryPoints, bind_eq_ok, rejectIf_eq_ok, exists_const, not_not,
      ih, List.forall_mem_cons, List.nodup_cons, EntitySet.mem_insert_iff, not_or]
    constructor
    · rintro ⟨hnew, hbase, hids, hnodup, hmem⟩
      refine ⟨⟨⟨hbase, hnew⟩, fun id hid ↦ ⟨(hids id hid).1, (hids id hid).2.2⟩⟩,
        ⟨fun hfirst ↦ (hids first hfirst).2.1 rfl, hnodup⟩, fun id ↦ ?_⟩
      rw [hmem, List.mem_cons]
      tauto
    · rintro ⟨⟨⟨hbase, hnew⟩, hids⟩, ⟨hfirst, hnodup⟩, hmem⟩
      refine ⟨hnew, hbase, fun id hid ↦ ⟨(hids id hid).1, fun heq ↦ hfirst (heq ▸ hid),
        (hids id hid).2⟩, hnodup, fun id ↦ ?_⟩
      rw [hmem, List.mem_cons]
      tauto

end

/-! ### Results -/

/-- What a candidate leaves of a base snapshot. -/
structure AppliedTo (baseObjects : List EntityObject) (candidate : CandidateRecord)
    (result : ProposedEntityState) : Prop where
  sorted : (result.entities.map (·.record.entityId)).Pairwise (compare · · = .lt)
  entry_live : ∀ id ∈ result.entryPoints, ∃ object ∈ result.entities, object.record.entityId = id
  /-- A deleted identity was in the base and is not in the result. -/
  deleted_absent : ∀ id ∈ result.deletedEntities,
    (∃ original ∈ baseObjects, original.record.entityId = id) ∧
      ∀ object ∈ result.entities, object.record.entityId ≠ id
  /-- A created identity was not in the base, and what is new was created. -/
  created_absent : ∀ operation ∈ candidate.operations,
    operation.payload.mutationClass = .createEntity →
      ∀ original ∈ baseObjects, original.record.entityId ≠ operation.targetEntity
  new_created : ∀ object ∈ result.entities,
    (∀ original ∈ baseObjects, original.record.entityId ≠ object.record.entityId) →
      ∃ operation ∈ candidate.operations, operation.payload.mutationClass = .createEntity ∧
        operation.targetEntity = object.record.entityId
  /-- What no operation targets is unchanged. -/
  unchanged : ∀ object : EntityObject,
    (∀ operation ∈ candidate.operations, operation.targetEntity ≠ object.record.entityId) →
      (object ∈ result.entities ↔ object ∈ baseObjects)
  /-- What survives keeps its kind, its label and its fingerprint. -/
  replaces : ∀ original ∈ baseObjects, ∀ object ∈ result.entities,
    object.record.entityId = original.record.entityId → Replaces original object

section

omit [HostLayout] [Blake3] [UnicodeNormalization]

/-- The base map of a snapshot. -/
theorem collectBase_lookup (h : collectBase epoch objects ∅ = .ok base) (id : EntityId)
    (object : EntityObject) :
    base[id]? = some object ↔ object ∈ objects ∧ object.record.entityId = id := by
  rw [(collectBase_eq_ok.1 h).2.2 id object]
  simp

theorem collectBase_perm {objects objects' : List EntityObject} (hperm : objects'.Perm objects)
    (h : collectBase epoch objects ∅ = .ok base) : collectBase epoch objects' ∅ = .ok base := by
  obtain ⟨hobjects, hnodup, hlookup⟩ := collectBase_eq_ok.1 h
  refine collectBase_eq_ok.2 ⟨fun object hobject ↦ hobjects object (hperm.mem_iff.1 hobject),
    (hperm.map _).nodup_iff.2 hnodup, fun id object ↦ ?_⟩
  rw [hlookup, hperm.mem_iff]

end

variable {baseObjects : List EntityObject} {baseEntryPoints : List EntityId}

omit [Blake3] [UnicodeNormalization] in
/-- The copy starts out as the base. -/
theorem InvAt.start {entryPoints : EntitySet} (hbase : collectBase epoch baseObjects ∅ = .ok base)
    (hentry : collectEntryPoints base baseEntryPoints ∅ = .ok entryPoints) (id : EntityId) :
    InvAt base [] ⟨base, entryPoints, ∅, ∅⟩ id := by
  obtain ⟨hlive, -, hids⟩ := collectEntryPoints_eq_ok.1 hentry
  exact {
    keyed := fun object hobject ↦ ((collectBase_lookup hbase id object).1 hobject).2
    entry_live := fun hid ↦ (hlive id (by simpa using (hids id).1 hid)).1
    deleted_absent := fun hid ↦ absurd hid Std.ExtTreeSet.not_mem_empty
    replaces := fun original object ho hobject ↦ by
      obtain rfl := Option.some.inj (ho.symm.trans hobject)
      exact ⟨rfl, rfl, rfl⟩
    unchanged := fun _ ↦ rfl
    created := fun hid hout ↦ absurd hid hout }

theorem appliedTo_of_apply {result : ProposedEntityState}
    (h : applyCandidateToSnapshot epoch candidate baseObjects baseEntryPoints = .ok result) :
    AppliedTo baseObjects candidate result := by
  simp only [applyCandidateToSnapshot, bind_eq_ok, CandidateApplyError.ofCandidate_eq_ok,
    exists_iff, rejectIf_eq_ok, not_not, pure_eq_ok] at h
  obtain ⟨hvalid, -, base, hbase, entryPoints, hentry, hcheck, state, hstate, rfl⟩ := h
  have hlookup := collectBase_lookup hbase
  have htargets := target_mem_base_iff hvalid hcheck
  have hmem : ∀ id, id ∈ base ↔ ∃ original ∈ baseObjects, original.record.entityId = id := by
    intro id
    simp only [mem_iff_exists, hlookup]
  have hstart := InvAt.start hbase hentry
  have hinv := InvAt.run htargets hstart hstate
  simp only [List.nil_append] at hinv
  -- an object of the result is bound under its identity
  have hentities : ∀ object, object ∈ state.proposed.intoValues ↔
      state.proposed[object.record.entityId]? = some object := by
    intro object
    rw [EntityMap.mem_intoValues_iff]
    constructor
    · rintro ⟨id, hid⟩
      rwa [(hinv id).keyed object hid]
    · intro hobject
      exact ⟨_, hobject⟩
  have hlive : ∀ id, id ∈ state.proposed ↔
      ∃ object ∈ state.proposed.intoValues, object.record.entityId = id := by
    intro id
    rw [mem_iff_exists]
    constructor
    · rintro ⟨object, hobject⟩
      have hid := (hinv id).keyed object hobject
      exact ⟨object, (hentities object).2 (hid ▸ hobject), hid⟩
    · rintro ⟨object, hobject, rfl⟩
      exact ⟨object, (hentities object).1 hobject⟩
  constructor
  case sorted => exact EntityMap.sorted_intoValues fun {id object} hobject ↦
    (hinv id).keyed object hobject
  case entry_live =>
    intro id hid
    exact (hlive id).1 ((hinv id).entry_live (Std.ExtTreeSet.mem_toList.1 hid))
  case deleted_absent =>
    intro id hid
    obtain ⟨hin, hout⟩ := (hinv id).deleted_absent (Std.ExtTreeSet.mem_toList.1 hid)
    exact ⟨(hmem id).1 hin, fun object hobject heq ↦ hout ((hlive id).2 ⟨object, hobject, heq⟩)⟩
  case created_absent =>
    intro operation hoperation hclass original horiginal heq
    exact (htargets operation hoperation).1 ((hmem _).2 ⟨original, horiginal, heq⟩) hclass
  case new_created =>
    intro object hobject hnew
    refine (hinv _).created ((hlive _).2 ⟨object, hobject, rfl⟩) fun hin ↦ ?_
    obtain ⟨original, horiginal, heq⟩ := (hmem _).1 hin
    exact hnew original horiginal heq
  case unchanged =>
    intro object huntouched
    rw [hentities, (hinv _).unchanged huntouched, hlookup, and_iff_left rfl]
  case replaces =>
    intro original horiginal object hobject heq
    have hlook := (hentities object).1 hobject
    exact (hinv _).replaces original object ((hlookup _ _).2 ⟨horiginal, heq.symm⟩) hlook

/-- **Applying a candidate keeps the snapshot invariant and frames the rest**, whatever the
operations and in whatever order the base objects are supplied. -/
theorem applyCandidateToSnapshot_appliedTo {epoch : SchemaEpochId} {candidate : CandidateRecord}
    {baseObjects : List EntityObject} {baseEntryPoints : List EntityId}
    {result : ProposedEntityState}
    (h : applyCandidateToSnapshot epoch candidate baseObjects baseEntryPoints = .ok result) :
    AppliedTo baseObjects candidate result ∧
      ∀ baseObjects', baseObjects'.Perm baseObjects →
        applyCandidateToSnapshot epoch candidate baseObjects' baseEntryPoints = .ok result := by
  refine ⟨appliedTo_of_apply h, fun baseObjects' hperm ↦ ?_⟩
  simp only [applyCandidateToSnapshot, Except.bind_eq_ok, CandidateApplyError.ofCandidate_eq_ok,
    Unique.exists_iff, Except.rejectIf_eq_ok, not_not, Except.pure_eq_ok] at h ⊢
  obtain ⟨hvalid, hepoch, base, hbase, entryPoints, hentry, hcheck, state, hstate, rfl⟩ := h
  exact ⟨hvalid, hepoch, base, collectBase_perm hperm hbase, entryPoints, hentry, hcheck, state,
    hstate, rfl⟩

/-! ### Objects that were built -/

end Operations

/-- The digests of the two profiles and of the entry point below. -/
@[reducible]
def applyBlake3 : Blake3 where
  hash input :=
    if input.take 15 = textBytes "sley2.object.v1" then
      ⟨[253, 166, 246, 236, 7, 32, 9, 86, 83, 202, 176, 117, 114, 208, 139, 97, 115, 213, 80, 107,
        100, 250, 37, 170, 6, 250, 120, 63, 185, 40, 91, 242], rfl⟩
    else deleteBlake3.hash input

/-- A snapshot of one entry point that is not on the root's list, and a candidate that deletes it. -/
theorem applyCandidateToSnapshot_appliedTo_delete :
    letI := hostLayout64
    letI := applyBlake3
    letI := composedText
    ∃ object profile result, buildEntityObject (Id.splat 4) cafeRecord = .ok object ∧
      fullValidationProfileId = .ok profile ∧
      applyCandidateToSnapshot (Id.splat 4) (soleRecord profile object.objectId
        (soleOperation .deleteEntityBinding 16 .deleteEntityBinding)) [object] [] = .ok result ∧
      AppliedTo [object] (soleRecord profile object.objectId
        (soleOperation .deleteEntityBinding 16 .deleteEntityBinding)) result := by
  let _ := hostLayout64
  let _ := applyBlake3
  let _ := composedText
  obtain ⟨profile, hprofile⟩ : ∃ id, fullValidationProfileId = .ok id :=
    exists_validationProfileId (by decide)
  let object := objectAround (Id.splat 4) cafeRecord cafePayload
  have hobject : buildEntityObject (Id.splat 4) cafeRecord = .ok object :=
    buildEntityObject_eq_ok.2 ⟨_, encode_cafeRecord rfl, by decide +kernel, rfl⟩
  let operation := soleOperation .deleteEntityBinding 16 .deleteEntityBinding
  let record := soleRecord profile object.objectId operation
  have hvalid : record.validate = .ok () :=
    validate_soleRecord .deleteEntityBinding 16 .deleteEntityBinding object.objectId hprofile
      (by decide) rfl rfl rfl
  let target : EntityId := Id.splat 1
  let base : EntityMap EntityObject := (∅ : EntityMap EntityObject).insert target object
  have hlookup : base[target]? = some object := by
    rw [EntityMap.getElem?_insert_eq, if_pos rfl]
  have hbase : collectBase (Id.splat 4) [object] ∅ = .ok base := by
    refine collectBase_eq_ok.2 ⟨by simp [object, objectAround], by simp, fun id found ↦ ?_⟩
    rw [EntityMap.getElem?_insert_eq]
    have hid : object.record.entityId = target := rfl
    grind
  have hcheck : checkBasePreconditions base record.preconditions = .ok () := by
    refine checkBasePreconditions_eq_ok.2 (List.forall_mem_singleton.2 ?_)
    refine Except.rejectIf_neg (not_not.2 ?_) _
    show base[target]?.map _ = _
    rw [hlookup]
    rfl
  have hstep : applyOperation (Id.splat 4) ⟨base, ∅, ∅, ∅⟩ operation =
      .ok ⟨base.erase target, ∅, (∅ : EntitySet).insert target, (∅ : EntitySet).insert target⟩ := by
    have hlive : ensureLiveKind base operation = .ok () :=
      Except.bind_eq_ok.2 ⟨object, Except.ofOption_eq_ok.2 hlookup, rfl⟩
    refine Except.bind_eq_ok.2 ⟨(), hlive, Except.bind_eq_ok.2 ⟨(), ?_, rfl⟩⟩
    exact Except.rejectIf_neg Std.ExtTreeSet.not_mem_empty _
  obtain ⟨result, happly⟩ :
      ∃ result, applyCandidateToSnapshot (Id.splat 4) record [object] [] = .ok result := by
    simp only [applyCandidateToSnapshot, Except.bind_eq_ok, CandidateApplyError.ofCandidate_eq_ok,
      Unique.exists_iff, Except.rejectIf_eq_ok, not_not, Except.pure_eq_ok]
    have hrun : record.operations.foldlM (applyOperation (Id.splat 4)) ⟨base, ∅, ∅, ∅⟩ =
        .ok ⟨base.erase target, ∅, (∅ : EntitySet).insert target,
          (∅ : EntitySet).insert target⟩ := by
      rw [show record.operations = [operation] from rfl, List.foldlM_cons, hstep]
      rfl
    exact ⟨_, hvalid, rfl, base, hbase, ∅, rfl, hcheck, _, hrun, rfl⟩
  exact ⟨object, profile, result, hobject, hprofile, happly,
    (applyCandidateToSnapshot_appliedTo happly).1⟩

end Sley.Mutate
