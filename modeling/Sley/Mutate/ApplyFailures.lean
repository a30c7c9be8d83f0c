import Mathlib
import Sley.Lib.Failures
import Sley.Mutate.Apply

/-!
# Failures that a valid candidate cannot meet

Two errors of the application are there for defence only (`sley-mutate/src/apply.rs`):
`fieldMismatch`, for a field tag that the body of the target has no such field for, and
`targetAlreadyExists`, for a creation on top of a live identity. **A candidate that passes
`CandidateRecord.validate` meets neither.** The first is a fact about the schema: a row for a field
names a field of its kind, of a type that the edit of its class is defined on. The second is about
the run: what is live is in the base or was created before, and a creation is of neither, since its
identity is derived from an ordinal that no earlier creation was given.
-/

namespace Sley.Mutate

open Scb1 Ssmc
open Except hiding ok error
open EntityId (derive)

/-! ### Rows of fields -/

/-- A row for a field of a kind that is eligible. -/
def MutationOperationDescriptor.IsField (row : MutationOperationDescriptor)
    (shape : FieldMutationShape) : Prop :=
  ∃ kind : EntityKind, ∃ field ∈ kind.fieldSchemas, field.mutationShape = shape ∧
    row.targetKind = kind.kindTag ∧ row.fieldTag = some field.tag ∧
    row.valueType = field.valueType

variable {row : MutationOperationDescriptor}

theorem isField_of_mem_fieldRows {mutationClass : MutationClass} {shape : FieldMutationShape}
    {preimage : PreimageRequirement}
    (h : row ∈ fieldRows mutationClass (· = shape) preimage) : row.IsField shape := by
  simp only [fieldRows, List.mem_flatMap, List.mem_map, List.mem_filter, decide_eq_true_eq] at h
  obtain ⟨kind, -, field, ⟨hfield, hshape⟩, rfl⟩ := h
  exact ⟨kind, field, hfield, hshape, rfl, rfl, rfl⟩

/-- The classes that edit a field by its shape. -/
def MutationClass.editedShape : MutationClass → Option FieldMutationShape
  | .retargetReference => some .directEntityReference
  | .insertOrderedChild | .removeOrderedChild | .moveOrderedChild => some .orderedEntityChildren
  | _ => none

/-- The row of such a class is for a field of its shape. -/
theorem isField_of_editedShape (h : row ∈ mutationOperations)
    {shape : FieldMutationShape} (hshape : row.mutationClass.editedShape = some shape) :
    row.IsField shape := by
  have hclass : ∀ {mutationClass eligible preimage},
      row ∈ fieldRows mutationClass eligible preimage → row.mutationClass = mutationClass := by
    intro mutationClass eligible preimage hrow
    simp only [fieldRows, List.mem_flatMap, List.mem_map] at hrow
    obtain ⟨kind, -, field, -, rfl⟩ := hrow
    rfl
  have hentity : ∀ {mutationClass valueType preimage},
      row ∈ entityRows mutationClass valueType preimage → row.mutationClass = mutationClass := by
    intro mutationClass valueType preimage hrow
    obtain ⟨kind, -, rfl⟩ := List.mem_map.1 hrow
    rfl
  simp only [mutationOperations, List.mem_append, or_assoc] at h
  rcases h with h | h | h | h | h | h | h | h | h | h
  · rw [hentity h] at hshape
    cases hshape
  · rw [hentity h] at hshape
    cases hshape
  · rw [hentity h] at hshape
    cases hshape
  · rw [hclass h] at hshape
    cases hshape
  · rw [hclass h] at hshape
    cases hshape
  · rw [hclass h] at hshape
    cases hshape
    exact isField_of_mem_fieldRows h
  · rw [hclass h] at hshape
    cases hshape
    exact isField_of_mem_fieldRows h
  · rw [hclass h] at hshape
    cases hshape
    exact isField_of_mem_fieldRows h
  · rw [hclass h] at hshape
    cases hshape
    exact isField_of_mem_fieldRows h
  · -- the rows for one kind only
    simp only [List.mem_cons, List.not_mem_nil, or_false] at h
    rcases h with rfl | rfl | rfl | rfl | rfl | rfl | rfl <;> cases hshape

/-! ### Edits are defined on the fields that have rows -/

variable {body : EntityBodyValue} {field : FieldSchema}

section

variable (hfield : field ∈ body.valueKind.fieldSchemas)

include hfield

theorem EntityBodyValue.isSome_replaceDirectReference
    (hshape : field.mutationShape = .directEntityReference) (htype : field.valueType = .entityId)
    (target : EntityId) : (body.replaceDirectReference field.tag target).isSome := by
  obtain ⟨kind, body⟩ := body
  cases kind <;> fin_cases hfield <;> first
    | rfl
    | exact absurd hshape (by decide)
    | exact absurd htype (by decide)

theorem EntityBodyValue.isSome_replaceOptionalReference
    (htype : field.valueType = .optionalEntityId) (target : Option EntityId) :
    (body.replaceOptionalReference field.tag target).isSome := by
  obtain ⟨kind, body⟩ := body
  cases kind <;> fin_cases hfield <;> first
    | rfl
    | exact absurd htype (by decide)

theorem EntityBodyValue.isSome_orderedEntityChildren
    (hshape : field.mutationShape = .orderedEntityChildren) :
    (body.orderedEntityChildren field.tag).isSome := by
  obtain ⟨kind, body⟩ := body
  cases kind <;> fin_cases hfield <;> first
    | rfl
    | exact absurd hshape (by decide)

end

theorem EntityBodyValue.isSome_replaceField [HostLayout] {value : FieldValue}
    (h : value.kind = body.valueKind) : (body.replaceField value).isSome := by
  obtain ⟨kind, body⟩ := body
  obtain ⟨kind', field⟩ := value
  obtain rfl : kind' = kind := h
  simp [replaceField]

/-! ### Operations that fit their row -/

section Operations

variable [HostLayout]

/-- What the judgment on a candidate grants of one operation: it has a row, for its kind and its
field, that its payload fits. -/
structure MutationOperation.Fits (operation : MutationOperation)
    (row : MutationOperationDescriptor) : Prop where
  mem : row ∈ mutationOperations
  kind_eq : row.targetKind = operation.targetKind
  class_eq : operation.payload.mutationClass = row.mutationClass
  field_eq : descriptorFieldTag operation.fieldTag = .ok row.fieldTag
  shape : operation.payload.matchesShape row.targetKind row.fieldTag row.valueType = true

/-- The two errors that are there for defence. -/
def CandidateApplyError.defensive : Set CandidateApplyError :=
  {.fieldMismatch, .targetAlreadyExists}

variable {operation : MutationOperation}

theorem operationFieldTag_eq_ok {tag : UInt16}
    (h : descriptorFieldTag operation.fieldTag = .ok (some tag)) :
    operationFieldTag operation = .ok tag := by
  unfold descriptorFieldTag at h
  unfold operationFieldTag
  split at h
  · cases h
  · rename_i wide hwide
    simp only [bind_eq_ok, rejectIf_eq_ok, Unique.exists_iff, pure_eq_ok,
      Option.some.injEq, ge_iff_le, not_le] at h
    obtain ⟨hlt, rfl⟩ := h
    simp only [hwide, if_pos hlt]

/-- The field that an edit by shape is for. -/
theorem MutationOperation.Fits.exists_field
    {row : MutationOperationDescriptor} {shape : FieldMutationShape} (h : operation.Fits row)
    (hshape : operation.payload.mutationClass.editedShape = some shape) :
    ∃ field : FieldSchema, field.mutationShape = shape ∧ row.valueType = field.valueType ∧
      operationFieldTag operation = .ok field.tag ∧
      ∀ body : EntityBodyValue, body.kindTag = operation.targetKind →
        field ∈ body.valueKind.fieldSchemas := by
  obtain ⟨kind, field, hfield, hfieldShape, hkind, htag, htype⟩ :=
    isField_of_editedShape h.mem (h.class_eq ▸ hshape)
  refine ⟨field, hfieldShape, htype, operationFieldTag_eq_ok (htag ▸ h.field_eq), ?_⟩
  intro body hbody
  have : body.valueKind = kind :=
    EntityKind.kindTag_injective (hbody.trans (h.kind_eq.symm.trans hkind))
  exact this ▸ hfield

namespace CandidateApplyError

theorem ensureBodyKind_avoids (operation : MutationOperation) (body : EntityBodyValue) :
    (ensureBodyKind operation body).Avoids defensive :=
  avoids_rejectIf fun h ↦ absurd h (by simp [defensive])

theorem ensureLiveKind_avoids (proposed : EntityMap EntityObject) (operation : MutationOperation) :
    (ensureLiveKind proposed operation).Avoids defensive := by
  refine (avoids_ofOption ?_).bind fun object _ ↦ ensureBodyKind_avoids operation _
  simp [defensive]

omit [HostLayout] in
theorem ofObject_avoids {α : Type} (x : Result α) : (ofObject x).Avoids defensive := by
  cases x with
  | error code => exact avoids_error_iff.2 (by simp [defensive])
  | ok a => exact avoids_ok a

variable [Blake3] [UnicodeNormalization] {epoch : SchemaEpochId}
  {proposed : EntityMap EntityObject} {operation : MutationOperation}

theorem replaceBody_avoids (body : EntityBodyValue) :
    (replaceBody epoch proposed operation body).Avoids defensive := by
  refine (ensureBodyKind_avoids operation body).bind fun _ _ ↦ ?_
  refine (avoids_ofOption (by simp [defensive])).bind fun current _ ↦ ?_
  refine (ensureBodyKind_avoids operation _).bind fun _ _ ↦ ?_
  exact (ofObject_avoids _).bind fun _ _ ↦ avoids_ok _

/-- An edit meets the two errors only if it does on a body of the kind of the operation. -/
theorem mutateBodyResult_avoids
    {mutation : EntityBodyValue → Except CandidateApplyError EntityBodyValue}
    (h : ∀ body : EntityBodyValue, body.kindTag = operation.targetKind →
      (mutation body).Avoids defensive) :
    (mutateBodyResult epoch proposed operation mutation).Avoids defensive := by
  refine (avoids_ofOption (by simp [defensive])).bind fun current _ ↦ ?_
  refine (ensureBodyKind_avoids operation _).bind fun _ hkind ↦ ?_
  refine (h _ (not_not.1 (rejectIf_eq_ok.1 hkind))).bind fun body _ ↦ ?_
  exact (ofObject_avoids _).bind fun _ _ ↦ avoids_ok _

theorem mutateBody_avoids {mutation : EntityBodyValue → Option EntityBodyValue}
    (h : ∀ body : EntityBodyValue, body.kindTag = operation.targetKind → (mutation body).isSome) :
    (mutateBody epoch proposed operation mutation).Avoids defensive :=
  mutateBodyResult_avoids fun body hbody ↦ avoids_ofOption fun _ ↦ h body hbody

variable {edit : List EntityId → Except CandidateApplyError (List EntityId)}
  {row : MutationOperationDescriptor}

section

omit [HostLayout] [Blake3] [UnicodeNormalization]

/-- Editing the children under a field that the kind of the operation has. -/
theorem editChildren_avoids {tag : UInt16} {body : EntityBodyValue}
    (hedit : ∀ children, (edit children).Avoids defensive)
    (hbody : (body.orderedEntityChildren tag).isSome) :
    (editChildren tag edit body).Avoids defensive := by
  refine (avoids_ofOption fun _ ↦ hbody).bind fun children _ ↦ ?_
  exact (hedit _).bind fun _ _ ↦ avoids_ok _

theorem insert_edit_avoids (payload : OrderedInsert) (children : List EntityId) :
    (payload.edit children).Avoids defensive := by
  refine (avoids_rejectIf ?_).bind fun _ _ ↦ avoids_ok _
  simp [defensive]

theorem remove_edit_avoids (payload : OrderedRemove) (children : List EntityId) :
    (payload.edit children).Avoids defensive := by
  refine (avoids_ofOption (by simp [defensive])).bind fun child _ ↦ ?_
  refine (avoids_rejectIf ?_).bind fun _ _ ↦ avoids_ok _
  simp [defensive]

theorem move_edit_avoids (payload : OrderedMove) (children : List EntityId) :
    (payload.edit children).Avoids defensive := by
  refine (avoids_rejectIf (by simp [defensive])).bind fun _ _ ↦ ?_
  refine (avoids_ofOption (by simp [defensive])).bind fun child _ ↦ ?_
  refine (avoids_rejectIf ?_).bind fun _ _ ↦ avoids_ok _
  simp [defensive]

end

/-- An edit of ordered children that fits its row. -/
theorem edited_avoids {next : EntityMap EntityObject → ApplyState} (hfits : operation.Fits row)
    (hshape : operation.payload.mutationClass.editedShape = some .orderedEntityChildren)
    (hedit : ∀ children, (edit children).Avoids defensive) :
    (do
      let fieldTag ← operationFieldTag operation
      let proposed ← mutateBodyResult epoch proposed operation (editChildren fieldTag edit)
      return next proposed).Avoids defensive := by
  obtain ⟨field, hfieldShape, -, htag, hfield⟩ := hfits.exists_field hshape
  rw [htag, ok_bind]
  refine (mutateBodyResult_avoids fun body hbody ↦ ?_).bind fun _ _ ↦ avoids_ok _
  exact editChildren_avoids hedit
    (EntityBodyValue.isSome_orderedEntityChildren (hfield body hbody) hfieldShape)

/-- **An operation that fits its row meets neither error**, unless it creates what is live. -/
theorem applyOperation_avoids {state : ApplyState} (hfits : operation.Fits row)
    (hnew : operation.payload.mutationClass = .createEntity →
      operation.targetEntity ∉ state.proposed) :
    (applyOperation epoch state operation).Avoids defensive := by
  have hshape := hfits.shape
  have hkind := hfits.kind_eq
  have hreplace : ∀ {body : EntityBodyValue} {next : EntityMap EntityObject → ApplyState},
      (do
        let proposed ← replaceBody epoch state.proposed operation body
        return next proposed).Avoids defensive :=
    fun {_ _} ↦ (replaceBody_avoids _).bind fun _ _ ↦ avoids_ok _
  -- a value for a field is for a field of the kind of the row
  have hvalue : ∀ {value : FieldValue}, value.fieldKey.1 = row.targetKind → (do
        let proposed ← mutateBody epoch state.proposed operation (·.replaceField value)
        return { state with
          affected := state.affected.insert operation.targetEntity
          proposed := proposed }).Avoids defensive := by
    intro value hkey
    refine (mutateBody_avoids fun body hbody ↦ ?_).bind fun _ _ ↦ avoids_ok _
    exact EntityBodyValue.isSome_replaceField
      (EntityKind.kindTag_injective (hkey.trans (hkind.trans hbody.symm)))
  unfold applyOperation
  split
  all_goals
    rename_i hpayload
    rw [hpayload] at hshape
    dsimp only
  case h_1 body =>
    refine (avoids_rejectIf fun _ ↦ hnew (by rw [hpayload]; rfl)).bind fun _ _ ↦ ?_
    refine (ensureBodyKind_avoids operation body).bind fun _ _ ↦ ?_
    exact (ofObject_avoids _).bind fun _ _ ↦ avoids_ok _
  case h_3 =>
    refine (ensureLiveKind_avoids _ _).bind fun _ _ ↦ ?_
    refine (avoids_rejectIf ?_).bind fun _ _ ↦ avoids_ok _
    simp [defensive]
  case h_4 value | h_5 value =>
    simp only [MutationPayload.matchesShape, Bool.and_eq_true, beq_iff_eq] at hshape
    exact hvalue hshape.2
  case h_6 target =>
    obtain ⟨field, hfieldShape, htype, htag, hfield⟩ := hfits.exists_field (by rw [hpayload]; rfl)
    rw [htag, ok_bind]
    refine (mutateBody_avoids fun body hbody ↦ ?_).bind fun _ _ ↦ avoids_ok _
    cases target with
    | entity id =>
      simp only [MutationPayload.matchesShape, Bool.and_eq_true, decide_eq_true_eq] at hshape
      exact EntityBodyValue.isSome_replaceDirectReference (hfield body hbody) hfieldShape
        (htype.symm.trans hshape.2) id
    | optional id =>
      simp only [MutationPayload.matchesShape, Bool.and_eq_true, decide_eq_true_eq] at hshape
      exact EntityBodyValue.isSome_replaceOptionalReference (hfield body hbody)
        (htype.symm.trans hshape.2) id
  case h_7 payload => exact edited_avoids hfits (by rw [hpayload]; rfl) (insert_edit_avoids payload)
  case h_8 payload => exact edited_avoids hfits (by rw [hpayload]; rfl) (remove_edit_avoids payload)
  case h_9 payload => exact edited_avoids hfits (by rw [hpayload]; rfl) (move_edit_avoids payload)
  case h_10 =>
    refine (replaceBody_avoids _).bind fun _ _ ↦ ?_
    refine (avoids_rejectIf ?_).bind fun _ _ ↦ avoids_ok _
    simp [defensive]
  case h_11 =>
    refine (ensureLiveKind_avoids _ _).bind fun _ _ ↦ ?_
    refine (avoids_rejectIf ?_).bind fun _ _ ↦ avoids_ok _
    simp [defensive]
  all_goals exact hreplace

end CandidateApplyError

/-! ### What the judgment on a candidate grants -/

variable [Blake3]

/-- The identity that the loop asks of a creation, for an ordinal. -/
def CandidateRecord.createdEntity (record : CandidateRecord) (operation : MutationOperation)
    (createOrdinal : Nat) : EntityId :=
  derive record.workspaceId record.candidateNonce operation.targetKind.toUInt32
    (UInt64.ofNat createOrdinal)

variable {record : CandidateRecord} {pairs : List (MutationOperation × BoundPrecondition)}

/-- What one turn of the loop says about its operation. -/
theorem validateOperation_eq_ok {index created next : Nat}
    {operation : MutationOperation} {precondition : BoundPrecondition}
    (h : record.validateOperation index created operation precondition = .ok next) :
    (∃ row, operation.Fits row) ∧
      if operation.payload.mutationClass = .createEntity then
        next = created + 1 ∧ next < 2 ^ 64 ∧
          operation.targetEntity = record.createdEntity operation created
      else next = created := by
  simp only [CandidateRecord.validateOperation, bind_eq_ok, rejectIf_eq_ok,
    ofOption_eq_ok, not_not, Unique.exists_iff] at h
  obtain ⟨-, -, fieldTag, hfield, row, hrow, hmatch, hend⟩ := h
  obtain ⟨-, hclass, hkind, rfl⟩ := mutationOperationDescriptor_eq_some hrow
  obtain ⟨hpayload, hshape⟩ := MutationPayload.matchesDescriptor_iff.1 hmatch
  refine ⟨⟨row, List.mem_of_find?_eq_some hrow, hkind, hpayload.trans hclass.symm, hfield,
    hkind ▸ hshape⟩, ?_⟩
  rw [hpayload]
  split at hend
  · rename_i hcreate
    rw [if_pos hcreate]
    simp only [bind_eq_ok, rejectIf_eq_ok, Unique.exists_iff, not_not, not_le,
      pure_eq_ok, ge_iff_le, exists_eq_left, ne_eq] at hend
    obtain ⟨htarget, hlt, -, rfl⟩ := hend
    exact ⟨rfl, hlt, htarget⟩
  · rename_i hcreate
    rw [if_neg hcreate]
    simp only [bind_eq_ok, Unique.exists_iff, pure_eq_ok, exists_eq_left] at hend
    exact hend.2

/-- Every operation of the loop fits a row, and what it creates has an ordinal that is not below
the number created before. -/
theorem validateOperations_fits {index created : Nat}
    (h : record.validateOperations index created pairs = .ok ()) :
    ∀ pair ∈ pairs, (∃ row, pair.1.Fits row) ∧
      (pair.1.payload.mutationClass = .createEntity → ∃ ordinal, created ≤ ordinal ∧
        ordinal < 2 ^ 64 ∧ pair.1.targetEntity = record.createdEntity pair.1 ordinal) := by
  induction pairs generalizing index created with
  | nil => exact fun _ hpair ↦ absurd hpair List.not_mem_nil
  | cons pair pairs ih =>
    obtain ⟨operation, precondition⟩ := pair
    obtain ⟨next, hnext, hrest⟩ := bind_eq_ok.1 h
    obtain ⟨hfits, hcreated⟩ := validateOperation_eq_ok hnext
    have hle : created ≤ next := by
      split at hcreated <;> omega
    refine List.forall_mem_cons.2 ⟨⟨hfits, fun hclass ↦ ?_⟩, fun pair hpair ↦ ?_⟩
    · rw [if_pos hclass] at hcreated
      exact ⟨created, le_rfl, by omega, hcreated.2.2⟩
    · obtain ⟨hfits, hordinal⟩ := ih hrest pair hpair
      refine ⟨hfits, fun hclass ↦ ?_⟩
      obtain ⟨ordinal, hordinal, hrest⟩ := hordinal hclass
      exact ⟨ordinal, hle.trans hordinal, hrest⟩

/-- **No identity is created twice**, since each creation is derived from an ordinal of its own. -/
theorem validateOperations_pairwise {index created : Nat}
    (hinj : Function.Injective2 (derive record.workspaceId record.candidateNonce))
    (h : record.validateOperations index created pairs = .ok ()) :
    (pairs.map Prod.fst).Pairwise fun earlier later ↦
      earlier.payload.mutationClass = .createEntity → later.payload.mutationClass = .createEntity →
          earlier.targetEntity ≠ later.targetEntity := by
  induction pairs generalizing index created with
  | nil => exact .nil
  | cons pair pairs ih =>
    obtain ⟨operation, precondition⟩ := pair
    obtain ⟨next, hnext, hrest⟩ := bind_eq_ok.1 h
    refine List.pairwise_cons.2 ⟨fun later hlater hclass hlaterClass heq ↦ ?_, ih hrest⟩
    obtain ⟨pair, hpair, rfl⟩ := List.mem_map.1 hlater
    have hcreated := (validateOperation_eq_ok hnext).2
    rw [if_pos hclass] at hcreated
    obtain ⟨rfl, hlt, htarget⟩ := hcreated
    obtain ⟨ordinal, hle, hordinal, hlaterTarget⟩ :=
      (validateOperations_fits hrest pair hpair).2 hlaterClass
    have hderive := (hinj (htarget.symm.trans (heq.trans hlaterTarget))).2
    have hmod := congrArg UInt64.toNat hderive
    have hsize : UInt64.size = 2 ^ 64 := rfl
    rw [UInt64.toNat_ofNat_of_lt' (by omega), UInt64.toNat_ofNat_of_lt' (by omega)] at hmod
    omega

theorem CandidateRecord.validateOperations_of_validate (h : record.validate = .ok ()) :
    record.operations.length = record.preconditions.length ∧
      record.validateOperations 0 0 (record.operations.zip record.preconditions) = .ok () := by
  simp only [CandidateRecord.validate, bind_eq_ok, rejectIf_eq_ok, not_not,
    Unique.exists_iff, ne_eq] at h
  obtain ⟨-, -, _, -, _, -, -, -, -, hlength, hloop⟩ := h
  exact ⟨hlength, hloop⟩

/-! ### Runs -/

variable [UnicodeNormalization]

section

omit [HostLayout] [Blake3] [UnicodeNormalization]

open CandidateApplyError in
/-- Every error of the snapshot's own checks is another one. -/
theorem collectBase_avoids {epoch : SchemaEpochId} (objects : List EntityObject)
    (base : EntityMap EntityObject) : (collectBase epoch objects base).Avoids defensive := by
  induction objects generalizing base with
  | nil => exact avoids_ok base
  | cons object objects ih =>
    refine (avoids_rejectIf (by simp [defensive])).bind fun _ _ ↦ ?_
    exact (avoids_rejectIf (by simp [defensive])).bind fun _ _ ↦ ih _

open CandidateApplyError in
theorem collectEntryPoints_avoids (base : EntityMap EntityObject) (ids : List EntityId)
    (entryPoints : EntitySet) : (collectEntryPoints base ids entryPoints).Avoids defensive := by
  induction ids generalizing entryPoints with
  | nil => exact avoids_ok entryPoints
  | cons id ids ih =>
    refine (avoids_rejectIf (by simp [defensive])).bind fun _ _ ↦ ?_
    exact (avoids_rejectIf (by simp [defensive])).bind fun _ _ ↦ ih _

open CandidateApplyError in
theorem checkBasePreconditions_avoids (base : EntityMap EntityObject)
    (preconditions : List BoundPrecondition) :
    (checkBasePreconditions base preconditions).Avoids defensive := by
  induction preconditions with
  | nil => exact avoids_ok ()
  | cons precondition preconditions ih =>
    refine Except.Avoids.bind ?_ fun _ _ ↦ ih
    unfold checkBasePrecondition
    split <;> exact avoids_rejectIf (by simp [defensive])

end

open CandidateApplyError in
/-- The operations of a valid candidate, run on a base that meets its preconditions. -/
theorem foldlM_applyOperation_avoids {epoch : SchemaEpochId} {candidate : CandidateRecord}
    (hinj : Function.Injective2 (EntityId.derive candidate.workspaceId candidate.candidateNonce))
    (hvalid : candidate.validate = .ok ()) {baseObjects : List EntityObject}
    {base : EntityMap EntityObject} {baseEntryPoints : List EntityId} {entryPoints : EntitySet}
    (hbase : collectBase epoch baseObjects ∅ = .ok base)
    (hentry : collectEntryPoints base baseEntryPoints ∅ = .ok entryPoints)
    (hcheck : checkBasePreconditions base candidate.preconditions = .ok ()) :
    (candidate.operations.foldlM (applyOperation epoch) ⟨base, entryPoints, ∅, ∅⟩).Avoids
      defensive := by
  have htargets := target_mem_base_iff hvalid hcheck
  obtain ⟨hlength, hloop⟩ := CandidateRecord.validateOperations_of_validate hvalid
  have hoperations : (candidate.operations.zip candidate.preconditions).map Prod.fst =
      candidate.operations := List.map_fst_zip hlength.le
  have hdistinct := validateOperations_pairwise hinj hloop
  rw [hoperations] at hdistinct
  refine Except.Avoids.foldlM (fun done state ↦ ∀ id, InvAt base done state id)
    (InvAt.start hbase hentry) (fun done operation rest state state' hsplit hinv hstep ↦ ?_)
    fun done operation rest state hsplit hinv ↦ ?_
  · have hmem : operation ∈ candidate.operations := by rw [hsplit]; simp
    have hrun : [operation].foldlM (applyOperation epoch) state = .ok state' := by
      rw [List.foldlM_cons, hstep]
      rfl
    exact InvAt.run (List.forall_mem_singleton.2 (htargets operation hmem)) hinv hrun
  · have hmem : operation ∈ candidate.operations := by rw [hsplit]; simp
    rw [← hoperations] at hmem
    obtain ⟨pair, hpair, rfl⟩ := List.mem_map.1 hmem
    obtain ⟨row, hfits⟩ := (validateOperations_fits hloop pair hpair).1
    refine applyOperation_avoids hfits fun hclass hlive ↦ ?_
    -- what is live is in the base, or was created before
    have hout : pair.1.targetEntity ∉ base := fun hin ↦
      (htargets _ (hoperations ▸ hmem)).1 hin hclass
    obtain ⟨earlier, hearlier, hearlierClass, heq⟩ := (hinv _).created hlive hout
    rw [hsplit] at hdistinct
    exact (List.pairwise_append.1 hdistinct).2.2 earlier hearlier pair.1 List.mem_cons_self
      hearlierClass hclass heq

/-- **A candidate that passes the judgment meets neither defensive error, on any base snapshot.**
Of the derivation of identities it is asked that, for the candidate's own workspace and nonce, the
kind and the ordinal of a creation can be told from the identity. -/
theorem applyCandidateToSnapshot_ne_defensive {candidate : CandidateRecord}
    (hinj : Function.Injective2 (EntityId.derive candidate.workspaceId candidate.candidateNonce))
    (hvalid : candidate.validate = .ok ()) (epoch : SchemaEpochId)
    (baseObjects : List EntityObject) (baseEntryPoints : List EntityId) :
    applyCandidateToSnapshot epoch candidate baseObjects baseEntryPoints ≠
        .error .fieldMismatch ∧
      applyCandidateToSnapshot epoch candidate baseObjects baseEntryPoints ≠
        .error .targetAlreadyExists := by
  have havoids : (applyCandidateToSnapshot epoch candidate baseObjects baseEntryPoints).Avoids
      CandidateApplyError.defensive := by
    unfold applyCandidateToSnapshot
    rw [hvalid]
    refine (Except.avoids_ok _).bind fun _ _ ↦ ?_
    refine (Except.avoids_rejectIf (by simp [CandidateApplyError.defensive])).bind fun _ _ ↦ ?_
    refine (collectBase_avoids _ _).bind fun base hbase ↦ ?_
    refine (collectEntryPoints_avoids _ _ _).bind fun entryPoints hentry ↦ ?_
    refine (checkBasePreconditions_avoids _ _).bind fun _ hcheck ↦ ?_
    refine (foldlM_applyOperation_avoids hinj hvalid hbase hentry hcheck).bind fun _ _ ↦ ?_
    exact Except.avoids_ok _
  exact ⟨havoids.ne_error (by simp [CandidateApplyError.defensive]),
    havoids.ne_error (by simp [CandidateApplyError.defensive])⟩

end Operations

/-- A hash that is the end of its input. -/
@[reducible]
def suffixBlake3 : Blake3 where
  hash input := ⟨(List.replicate 32 0 ++ input).drop input.length, by
    rw [List.length_drop, List.length_append, List.length_replicate, Nat.add_sub_cancel]⟩

/-- The kind and the ordinal stand at the end of what an identity is derived from. -/
theorem suffixBlake3_injective2 (workspaceId : WorkspaceId) (candidateNonce : CandidateNonce) :
    letI := suffixBlake3
    Function.Injective2 (derive workspaceId candidateNonce) := by
  let _ := suffixBlake3
  intro kind kind' ordinal ordinal' h
  -- what stands before the two numbers is longer than what is cut off
  have hcut : ∀ (kind : UInt32) (ordinal : UInt64),
      (derive workspaceId candidateNonce kind ordinal).bytes =
        (List.replicate 32 0 ++ (Domain.entity.bytes ++ (workspaceId.bytes ++
          candidateNonce.bytes))).drop 91 ++ (BigEndian.bytes 4 kind.toNat ++
            BigEndian.bytes 8 ordinal.toNat) := by
    intro kind ordinal
    have hdomain : Domain.entity.bytes.length = 15 := by decide
    show List.drop _ _ = _
    rw [← List.drop_append_of_le_length (by simp [hdomain, Id.length_eq])]
    simp [hdomain, Id.length_eq]
  have hbytes := congrArg Id.bytes h
  rw [hcut, hcut, List.append_cancel_left_eq] at hbytes
  obtain ⟨hkind, hordinal⟩ := List.append_inj hbytes (by simp)
  have hkind := congrArg BigEndian.value hkind
  have hordinal := congrArg BigEndian.value hordinal
  simp only [BigEndian.value_bytes] at hkind hordinal
  have := kind.toNat_lt
  have := kind'.toNat_lt
  have := ordinal.toNat_lt
  have := ordinal'.toNat_lt
  exact ⟨UInt32.toNat_inj.1 (by omega), UInt64.toNat_inj.1 (by omega)⟩

/-- The creation of an entry point, as the operation of an ordinal. -/
def creation [HostLayout] (ordinal : UInt32) (target : EntityId) : MutationOperation where
  ordinal := ordinal
  mutationClass := .createEntity
  targetKind := 16
  targetEntity := target
  fieldTag := none
  payload := .createEntity ⟨.entryPoint, ⟨Id.splat 9, .local_⟩⟩
  preconditionOrdinal := ordinal

/-- A candidate that creates two entry points. -/
def twoCreations [HostLayout] [Blake3] (profile : ValidationProfileId) : CandidateRecord :=
  let target (createOrdinal : UInt64) : EntityId :=
    derive (Id.splat 1) (Id.splat 8) 16 createOrdinal
  { soleRecord profile (Id.splat 0) (creation 0 (target 0)) with
    operations := [creation 0 (target 0), creation 1 (target 1)]
    preconditions := [⟨0, .expectedIdentityAbsent, .expectedIdentityAbsent ⟨target 0⟩⟩,
      ⟨1, .expectedIdentityAbsent, .expectedIdentityAbsent ⟨target 1⟩⟩] }

theorem applyCandidateToSnapshot_ne_defensive_twoCreations :
    letI := hostLayout64
    letI := suffixBlake3
    letI := composedText
    ∃ profile, (twoCreations profile).validate = .ok () ∧
      applyCandidateToSnapshot (Id.splat 4) (twoCreations profile) [] [] ≠
          .error .fieldMismatch ∧
        applyCandidateToSnapshot (Id.splat 4) (twoCreations profile) [] [] ≠
          .error .targetAlreadyExists := by
  let _ := hostLayout64
  let _ := suffixBlake3
  let _ := composedText
  obtain ⟨profile, hprofile⟩ : ∃ id, fullValidationProfileId = .ok id :=
    exists_validationProfileId (by decide)
  obtain ⟨production, hproduction⟩ : ∃ id, productionValidationProfileId = .ok id :=
    exists_validationProfileId (by decide)
  have hvalid : (twoCreations profile).validate = .ok () := by
    have hrow : mutationOperationDescriptor .createEntity 16 none =
        some ⟨.createEntity, 16, none, .body .entryPoint, .expectedIdentityAbsent⟩ := by
      with_unfolding_all decide
    simp [CandidateRecord.validate, twoCreations, soleRecord, creation, CandidateExpiry.validate,
      CandidateRecord.validateOperations, CandidateRecord.validateOperation, hprofile, hproduction,
      descriptorFieldTag, hrow, validatePrecondition, PreconditionPayload.requirement,
      Except.bind_eq_ok, Except.ofOption, Except.rejectIf]
    decide
  have hinj : Function.Injective2 (EntityId.derive (twoCreations profile).workspaceId
      (twoCreations profile).candidateNonce) := suffixBlake3_injective2 (Id.splat 1) (Id.splat 8)
  exact ⟨profile, hvalid,
    applyCandidateToSnapshot_ne_defensive hinj hvalid (Id.splat 4) [] []⟩

end Sley.Mutate
