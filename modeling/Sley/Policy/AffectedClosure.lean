import Sley.Policy.CandidateValidation
import Sley.Policy.Program

/-!
# The affected closure

Phase 5 of the validation and what is handed on from it (`sley-policy/src/candidate_validation.rs`).
The seeds are the target entities of the operations, whatever the operations do to them; what
depends on a seed in the base or in the proposed program is affected.

**What is not affected did not change, and neither did anything it refers to**
(`affectedClosure_sound`). The two programs have the same references but for those of the targets,
so the union of the two closures is closed under both, cycles included.

The checkers of phases 6 to 12 are the parameter `ProgramCheckers`. The judgment is the one of
`validateCandidateBytes`; phase 5 is a function of its inputs and stands wherever its sets are
handed on, as the source keeps them in local variables and in its renderer.
-/

namespace Sley.Policy

open Scb1 Ssmc Mutate Root
open Except hiding ok error
open ClosureState (seed serve)
open Unique (exists_iff)
open Leb128 (encode)
open Id (splat)
open CandidateProgram (project)

/-! ### Phase 5 -/

def programFailure : CandidateProgramError → Failure
  | .unresolvedReference =>
    ⟨5, .unresolvedReference, .program .unresolvedReference, .permanent⟩
  | .resourceLimit => resourceFailure 5 (.program .resourceLimit)
  | error => ⟨5, .invalidGraph, .program error, .permanent⟩

def sortedUnion (left right : List EntityId) : List EntityId :=
  (EntitySet.ofIds (left ++ right)).toList

@[simp]
theorem mem_sortedUnion {left right : List EntityId} {id : EntityId} :
    id ∈ sortedUnion left right ↔ id ∈ left ∨ id ∈ right := by
  rw [sortedUnion, Std.ExtTreeSet.mem_toList, EntitySet.mem_ofIds, List.mem_append]

def liveSelectionFunctions (affected : List EntityId) (program : CandidateProgram) :
    List EntityId :=
  affected.filter fun function ↦ function ∈ program.kinds

section

variable [HostLayout]

/-- The targets of the operations, sorted and without repetition. -/
def mutationSeeds (candidate : CandidateRecord) : List EntityId :=
  ((candidate.operations.map MutationOperation.targetEntity).mergeSort
    fun a b ↦ (compare a b).isLE).destutter fun a b ↦ a ≠ b

variable {candidate : CandidateRecord}

theorem mem_mutationSeeds {id : EntityId} : id ∈ mutationSeeds candidate ↔
      ∃ operation ∈ candidate.operations, operation.targetEntity = id := by
  rw [mutationSeeds, mem_destutter_ne_iff, List.mem_mergeSort, List.mem_map]

/-- What phase 5 leaves to the phases after it. -/
structure AffectedReport where
  baseProgram : CandidateProgram
  program : CandidateProgram
  affectedClosure : List EntityId
  requiredCapabilities : List EntityId
  affectedFunctions : List EntityId
  selectionFunctions : List EntityId

/-- A reference of the base or of the proposed program. -/
def AffectedReport.RefersTo (report : AffectedReport) (dependent dependency : EntityId) : Prop :=
  dependent ∈ report.baseProgram.dependents dependency ∨
    dependent ∈ report.program.dependents dependency

variable {Capability : Type}

def validatePhaseFiveContext (context : CandidateValidationContext Capability)
    (proposed : ProposedEntityState) (baseProgram program : CandidateProgram) :
    Except Failure Unit := do
  rejectIf (∃ entry ∈ proposed.entryPoints,
      program.kinds[entry]? ≠ some EntityKind.entryPoint.kindTag)
    ⟨5, .invalidGraph, .entryPointKindInvalid, .permanent⟩
  rejectIf (baseProgram.dependencyRoots ≠ context.baseState.record.dependencyRoots ∨
      program.dependencyRoots ≠ context.baseState.record.dependencyRoots)
    ⟨5, .invalidGraph, .dependencyRootChangeUnsupported, .permanent⟩

/-- Phase 5, from the proposed state on. -/
def validatePhaseFive (context : CandidateValidationContext Capability)
    (candidate : CandidateRecord) (proposed : ProposedEntityState) :
    Except Failure AffectedReport := do
  let baseProgram ← (project context.baseObjects).mapError programFailure
  let program ← (project proposed.entities).mapError programFailure
  validatePhaseFiveContext context proposed baseProgram program
  let seeds := mutationSeeds candidate
  let baseClosure ← (baseProgram.affectedClosure seeds).mapError programFailure
  let proposedClosure ← (program.affectedClosure seeds).mapError programFailure
  let affectedClosure := sortedUnion baseClosure proposedClosure
  let affectedFunctions := sortedUnion (baseProgram.affectedFunctions affectedClosure)
    (program.affectedFunctions affectedClosure)
  return {
    baseProgram
    program
    affectedClosure
    requiredCapabilities := sortedUnion (baseProgram.requiredCapabilities affectedClosure)
      (program.requiredCapabilities affectedClosure)
    affectedFunctions
    selectionFunctions := liveSelectionFunctions affectedFunctions program }

/-- What a report says: its programs are those of the inventories, and its sets are read off the
closures. -/
structure AffectedReport.Reports (baseObjects proposed : List EntityObject)
    (candidate : CandidateRecord) (report : AffectedReport) : Prop where
  baseProgram : project baseObjects = .ok report.baseProgram
  program : project proposed = .ok report.program
  mem_affectedClosure : ∀ id, id ∈ report.affectedClosure ↔
    id ∈ reachable report.baseProgram.dependents {id | id ∈ mutationSeeds candidate} ∪
      reachable report.program.dependents {id | id ∈ mutationSeeds candidate}
  mem_affectedFunctions : ∀ id, id ∈ report.affectedFunctions ↔ id ∈ report.affectedClosure ∧
    (report.baseProgram.kinds[id]? = some EntityKind.function.kindTag ∨
      report.program.kinds[id]? = some EntityKind.function.kindTag)
  mem_selectionFunctions : ∀ id, id ∈ report.selectionFunctions ↔
    id ∈ report.affectedFunctions ∧ id ∈ report.program.kinds

theorem validatePhaseFive_reports {context : CandidateValidationContext Capability}
    {proposed : ProposedEntityState} {report : AffectedReport}
    (h : validatePhaseFive context candidate proposed = .ok report) :
    report.Reports context.baseObjects proposed.entities candidate := by
  simp only [validatePhaseFive, bind_eq_ok, mapError_eq_ok, exists_iff, pure_eq_ok] at h
  obtain ⟨baseProgram, hbase, program, hprogram, -, baseClosure, hbaseClosure, proposedClosure,
    hproposedClosure, rfl⟩ := h
  refine ⟨hbase, hprogram, fun id ↦ ?_, fun id ↦ ?_, fun id ↦ ?_⟩
  · rw [mem_sortedUnion, CandidateProgram.mem_affectedClosure_iff hbaseClosure,
      CandidateProgram.mem_affectedClosure_iff hproposedClosure]
    rfl
  · simp only [mem_sortedUnion, CandidateProgram.affectedFunctions, List.mem_filter,
      decide_eq_true_eq]
    exact and_or_left.symm
  · simp only [liveSelectionFunctions, List.mem_filter, decide_eq_true_eq]

/-! ### The phases after it -/

omit [HostLayout] in
/-- The function of a program under an identity. -/
def CandidateProgram.functionBody (program : CandidateProgram) (id : EntityId) :
    Option FunctionBody :=
  program.objects.findSome? fun object ↦ match object.record.body with
    | ⟨.function, (value : FunctionBody)⟩ =>
      if object.record.entityId = id then some value else none
    | _ => none

/-- The effect that a capability requirement is for. -/
def CandidateProgram.requirementEffect (program : CandidateProgram) (id : EntityId) :
    Option EntityId :=
  program.objects.findSome? fun object ↦ match object.record.body with
    | ⟨.capabilityRequirement, (value : CapabilityRequirementBody)⟩ =>
      if object.record.entityId = id then some value.effect else none
    | _ => none

/-- The checkers of phases 6 to 12, the context projection and the renderers. -/
class ProgramCheckers (Capability : Type) where
  projectContext : ContextInput Capability →
    Except CandidateValidationError (CapabilitySummaryDigest × ValidationContextDigest)
  /-- Types, function graphs and effects, phases 6 to 8. -/
  checkProgram : CandidateValidationContext Capability → ImportedCandidate →
    ProposedEntityState → CandidateProgram → Except Failure Unit
  /-- The principal, the grant and the tokens of phase 9, for the required capabilities. -/
  authorize : CandidateValidationContext Capability → ImportedCandidate → CandidateProgram →
    List EntityId → Except Failure Unit
  /-- `validate_ordinary_program_isolation`. -/
  validateIsolation : CandidateValidationContext Capability → AcceptedStateRoot →
    Except Failure Unit
  /-- `validate_contract_test_program`: the tests it selects for the functions it is given. -/
  validateContractTests : CandidateValidationContext Capability → CandidateProgram →
    List EntityId → Except Failure (List EntityId)
  /-- The mandatory tests of phase 11 and the resources of phase 12. -/
  checkResources : CandidateValidationContext Capability → ImportedCandidate →
    ProposedEntityState → CandidateProgram → AcceptedStateRoot → List EntityId →
      Except Failure Unit
  finishFailure : CandidateValidationContext Capability → Bytes → Failure →
    Except CandidateValidationError ImportedCandidateResult
  /-- `build_candidate_result`: the identity and the bytes of a record. -/
  buildCandidateResult : CandidateValidationContext Capability → CandidateResultRecord →
    Except CandidateValidationError (CandidateResultId × Bytes)

variable [ProgramCheckers Capability]

/-- `validate_phase_nine`; every effect of an affected function has a required capability. -/
def validatePhaseNine (context : CandidateValidationContext Capability)
    (candidate : ImportedCandidate) (program : CandidateProgram)
    (affectedFunctions requiredCapabilities : List EntityId) : Except Failure Unit := do
  ProgramCheckers.authorize context candidate program requiredCapabilities
  rejectIf (∃ id ∈ affectedFunctions, ∃ function ∈ program.functionBody id,
      ∃ effect ∈ function.effects.values,
        ¬ ∃ required ∈ requiredCapabilities, program.requirementEffect required = some effect)
    ⟨9, .capabilityDenied, .capabilityRequirementMissing, .freshAuthority⟩

/-- Phases 5 to 9. -/
def judgeProgram (context : CandidateValidationContext Capability) (candidate : ImportedCandidate)
    (proposed : ProposedEntityState) : Except Failure Unit := do
  let report ← validatePhaseFive context candidate.record proposed
  ProgramCheckers.checkProgram context candidate proposed report.program
  validatePhaseNine context candidate report.program report.affectedFunctions
    report.requiredCapabilities

/-- Phases 9 to 12, over the provisional root. -/
def judgeRoot (context : CandidateValidationContext Capability) (candidate : ImportedCandidate)
    (proposed : ProposedEntityState) (provisionalRoot : AcceptedStateRoot) :
    Except Failure (List EntityId) := do
  let report ← validatePhaseFive context candidate.record proposed
  ProgramCheckers.validateIsolation context provisionalRoot
  let selectedTests ← ProgramCheckers.validateContractTests context report.program
    report.selectionFunctions
  rejectIf (selectedTests.length > context.limits.effective.maxSelectedTests.toNat)
    (resourceFailure 11 .testPlanResourceLimit)
  ProgramCheckers.checkResources context candidate proposed report.program provisionalRoot
    selectedTests
  return selectedTests

def finishValid (context : CandidateValidationContext Capability) (plan : ValidatedCandidatePlan)
    (selectedTests : List EntityId) :
    Except CandidateValidationError ImportedCandidateResult := do
  -- phase 5 has passed on the same inputs
  let report ← (validatePhaseFive context plan.candidate.record plan.proposedState).mapError
    fun _ ↦ .result
  let record : CandidateResultRecord :=
    { candidateId := some plan.candidate.candidateId
      validationProfileId := plan.candidate.record.validationProfileId
      validationContextDigest := context.contextDigest
      decision := .valid
      affectedClosure := report.affectedClosure
      requiredCapabilities := report.requiredCapabilities
      selectedTests
      candidateRoot := some plan.candidateRoot.root }
  let (candidateResultId, storedBytes) ← ProgramCheckers.buildCandidateResult context record
  return { record, candidateResultId, storedBytes }

instance : CandidateJudgment Capability where
  projectContext := ProgramCheckers.projectContext
  judgeProgram := judgeProgram
  judgeRoot := judgeRoot
  finishFailure := ProgramCheckers.finishFailure
  finishValid := finishValid

/-! ### Soundness -/

/-- An entity is bound in both roots, to the same object. -/
def SameBinding (base candidate : AcceptedStateRoot) (entity : EntityId) : Prop :=
  ∃ object, findBinding base.record.entityBindings entity = some object ∧
    findBinding candidate.record.entityBindings entity = some object

/-- An entity whose definition, or one it refers to, directly or not, is not the one of the base. -/
def AffectedReport.Changed (report : AffectedReport) (base candidate : AcceptedStateRoot)
    (entity : EntityId) : Prop :=
  ∃ reached, Relation.ReflTransGen report.RefersTo entity reached ∧
    ¬ SameBinding base candidate reached

omit [HostLayout] in
/-- What depends on an entity depends on it by a reference of its own object. -/
theorem CandidateProgram.mem_dependents_iff {objects : List EntityObject}
    {program : CandidateProgram} (h : project objects = .ok program)
    {dependent dependency : EntityId} :
    dependent ∈ program.dependents dependency ↔ ∃ object ∈ objects,
      object.record.entityId = dependent ∧
        ∃ relationshipTag, ⟨dependent, dependency, relationshipTag⟩ ∈ references object := by
  constructor
  · rintro ⟨relationshipTag, hedge⟩
    obtain ⟨object, hobject, hreference⟩ := (mem_edges_iff h _).1 hedge
    have hdependent : dependent = object.record.entityId := by
      obtain ⟨-, -, hdependent, -⟩ := hreference
      exact hdependent
    exact ⟨object, hobject, hdependent.symm, relationshipTag, hreference⟩
  · rintro ⟨object, hobject, -, relationshipTag, hreference⟩
    exact ⟨relationshipTag, (mem_edges_iff h _).2 ⟨object, hobject, hreference⟩⟩

section

variable {baseObjects : List EntityObject} {candidate : CandidateRecord}
  {proposed : ProposedEntityState} {report : AffectedReport}

omit [HostLayout] in
theorem CandidateProgram.dependency_bound {objects : List EntityObject}
    {program : CandidateProgram} (h : project objects = .ok program)
    {dependent dependency : EntityId} (hedge : dependent ∈ program.dependents dependency) :
    ∃ object ∈ objects, object.record.entityId = dependency := by
  obtain ⟨relationshipTag, hedge⟩ := hedge
  exact (mem_kinds_of_project h).1 (dependency_mem_kinds h hedge)

/-- **The affected closure is closed under the references of both programs**, taken backwards. -/
theorem AffectedReport.Reports.isClosed
    (h : report.Reports baseObjects proposed.entities candidate)
    (happlied : AppliedTo baseObjects candidate proposed) :
    IsClosedUnder (fun dependency ↦ {dependent | report.RefersTo dependent dependency})
      {id | id ∈ mutationSeeds candidate} {id | id ∈ report.affectedClosure} := by
  have hset : {id | id ∈ report.affectedClosure} =
      reachable report.baseProgram.dependents {id | id ∈ mutationSeeds candidate} ∪
        reachable report.program.dependents {id | id ∈ mutationSeeds candidate} :=
    Set.ext h.mem_affectedClosure
  rw [hset]
  refine isClosed_union fun dependency dependent hseed ↦ ?_
  -- an object that no operation targets is in both inventories
  have hobject : ∀ object : EntityObject, object.record.entityId = dependent →
      (object ∈ proposed.entities ↔ object ∈ baseObjects) := by
    rintro object rfl
    exact happlied.unchanged object fun operation hoperation htarget ↦
      hseed (mem_mutationSeeds.2 ⟨operation, hoperation, htarget⟩)
  rw [CandidateProgram.mem_dependents_iff h.baseProgram,
    CandidateProgram.mem_dependents_iff h.program]
  refine exists_congr fun object ↦ ?_
  constructor
  · rintro ⟨hmem, hid, hreference⟩
    exact ⟨(hobject object hid).2 hmem, hid, hreference⟩
  · rintro ⟨hmem, hid, hreference⟩
    exact ⟨(hobject object hid).1 hmem, hid, hreference⟩

end

section

variable [CandidateLayout] [Blake3] [UnicodeNormalization] [ConformanceEpoch]
  [ConformanceRegistry]

/-- What is bound and not affected is bound to the same object in both roots, and so is all that
it refers to; what changed is handed to phase 9 and, unless it was deleted, to test selection. -/
structure SoundClosure (context : CandidateValidationContext Capability)
    (plan : ValidatedCandidatePlan) (report : AffectedReport) : Prop where
  same : ∀ entity,
    (findBinding plan.candidateRoot.record.entityBindings entity).isSome →
      entity ∉ report.affectedClosure →
        ∀ reached, Relation.ReflTransGen report.RefersTo entity reached →
          SameBinding context.baseState plan.candidateRoot reached
  functions : ∀ object ∈ plan.proposedState.entities,
    object.record.body.kindTag = EntityKind.function.kindTag →
      report.Changed context.baseState plan.candidateRoot object.record.entityId →
        object.record.entityId ∈ report.affectedFunctions ∧
          object.record.entityId ∈ report.selectionFunctions
  baseFunctions : ∀ object ∈ context.baseObjects,
    object.record.body.kindTag = EntityKind.function.kindTag →
      report.Changed context.baseState plan.candidateRoot object.record.entityId →
        object.record.entityId ∈ report.affectedFunctions

variable {context : CandidateValidationContext Capability} {storedCandidate : Bytes}
  {plan : ValidatedCandidatePlan} {selectedTests : List EntityId} {report : AffectedReport}

section

variable (h : Judged context storedCandidate plan selectedTests)

include h

/-- The bindings of a judged base and of its plan, by their objects. -/
theorem Judged.findBinding_eq_some (entity : EntityId) (objectId : ObjectId) :
    (findBinding context.baseState.record.entityBindings entity = some objectId ↔
      ∃ object ∈ context.baseObjects, object.record.entityId = entity ∧
        object.objectId = objectId) ∧
    (findBinding plan.candidateRoot.record.entityBindings entity = some objectId ↔
      ∃ object ∈ plan.proposedState.entities, object.record.entityId = entity ∧
        object.objectId = objectId) := by
  obtain ⟨hbase, hcanonical⟩ := bindings_of_validatePhaseTwo h.phaseTwo
  obtain ⟨registry, -, hperm, -, -, hvalid⟩ :=
    (judgeCandidate_plannedOn (judgeCandidate_eq_ok.2 h)).describes
  rw [Policy.findBinding_eq_some hcanonical.bindings.nodup_keys,
    Policy.findBinding_eq_some hvalid.canonical.bindings.nodup_keys, hbase, hperm.mem_iff]
  simp only [List.mem_map, Prod.mk.injEq, and_self]

section

variable (hreport : report.Reports context.baseObjects plan.proposedState.entities plan.candidate.record)

include hreport

/-- What is not affected is bound alike, or not at all. -/
theorem Judged.findBinding_eq {entity : EntityId} (hentity : entity ∉ report.affectedClosure) :
    findBinding context.baseState.record.entityBindings entity =
      findBinding plan.candidateRoot.record.entityBindings entity := by
  have happlied := appliedTo_of_apply h.applied
  have hseed : entity ∉ mutationSeeds plan.candidate.record := fun hseed ↦
    hentity ((hreport.isClosed happlied).seeds_subset hseed)
  refine Option.ext fun objectId ↦ ?_
  rw [(h.findBinding_eq_some entity objectId).1, (h.findBinding_eq_some entity objectId).2]
  refine exists_congr fun object ↦ and_congr_left ?_
  rintro ⟨rfl, -⟩
  exact (happlied.unchanged object fun operation hoperation htarget ↦
    hseed (mem_mutationSeeds.2 ⟨operation, hoperation, htarget⟩)).symm

/-- Nothing affected is referred to by what is not. -/
theorem Judged.not_mem_affectedClosure
    {entity reached : EntityId} (hentity : entity ∉ report.affectedClosure)
    (hreached : Relation.ReflTransGen report.RefersTo entity reached) :
    reached ∉ report.affectedClosure := fun hmem ↦
  hentity ((hreport.isClosed (appliedTo_of_apply h.applied)).mem_of_reflTransGen hmem
    hreached.swap)

/-- What is not affected, and bound, did not change. -/
theorem Judged.sameBinding {entity reached : EntityId}
    (hbound : (findBinding plan.candidateRoot.record.entityBindings entity).isSome)
    (hentity : entity ∉ report.affectedClosure)
    (hreached : Relation.ReflTransGen report.RefersTo entity reached) :
    SameBinding context.baseState plan.candidateRoot reached := by
  have heq := h.findBinding_eq hreport (h.not_mem_affectedClosure hreport hentity hreached)
  obtain rfl | ⟨dependent, -, hlast⟩ := Relation.ReflTransGen.cases_tail hreached
  · obtain ⟨objectId, hobjectId⟩ := Option.isSome_iff_exists.1 hbound
    exact ⟨objectId, heq.trans hobjectId, hobjectId⟩
  · -- a reference leads to an entity of its program
    obtain hlast | hlast := hlast
    · obtain ⟨object, hobject, hid⟩ := CandidateProgram.dependency_bound hreport.baseProgram hlast
      have hbase := (h.findBinding_eq_some reached object.objectId).1.2 ⟨object, hobject, hid, rfl⟩
      exact ⟨_, hbase, heq.symm.trans hbase⟩
    · obtain ⟨object, hobject, hid⟩ := CandidateProgram.dependency_bound hreport.program hlast
      have hplan := (h.findBinding_eq_some reached object.objectId).2.2 ⟨object, hobject, hid, rfl⟩
      exact ⟨_, heq.trans hplan, hplan⟩

theorem Judged.soundClosure : SoundClosure context plan report := by
  have hsame : ∀ entity,
      (findBinding plan.candidateRoot.record.entityBindings entity).isSome →
        report.Changed context.baseState plan.candidateRoot entity →
          entity ∈ report.affectedClosure := by
    rintro entity hbound ⟨reached, hreached, hchanged⟩
    by_contra hentity
    exact hchanged (h.sameBinding hreport hbound hentity hreached)
  constructor
  case same =>
    intro entity hbound hentity reached hreached
    exact h.sameBinding hreport hbound hentity hreached
  case functions =>
    intro object hobject hkind hchanged
    have hbinding := (h.findBinding_eq_some object.record.entityId object.objectId).2.2
      ⟨object, hobject, rfl, rfl⟩
    have haffected : object.record.entityId ∈ report.affectedFunctions := by
      refine (hreport.mem_affectedFunctions _).2 ⟨hsame _ (by rw [hbinding]; rfl) hchanged, .inr ?_⟩
      exact (CandidateProgram.kinds_of_project hreport.program _ _).2 ⟨object, hobject, rfl, hkind⟩
    exact ⟨haffected, (hreport.mem_selectionFunctions _).2 ⟨haffected,
      (CandidateProgram.mem_kinds_of_project hreport.program).2 ⟨object, hobject, rfl⟩⟩⟩
  case baseFunctions =>
    intro object hobject hkind hchanged
    have hbinding := (h.findBinding_eq_some object.record.entityId object.objectId).1.2
      ⟨object, hobject, rfl, rfl⟩
    refine (hreport.mem_affectedFunctions _).2 ⟨?_, .inl <|
      (CandidateProgram.kinds_of_project hreport.baseProgram _ _).2 ⟨object, hobject, rfl, hkind⟩⟩
    by_contra hentity
    refine hentity (hsame _ ?_ hchanged)
    rw [← h.findBinding_eq hreport hentity, hbinding]
    rfl

end

end

/-- **The affected closure is sound.** -/
theorem affectedClosure_sound {output : CandidateValidationOutput}
    (h : validateCandidateBytes context storedCandidate = .ok output)
    (hvalid : output.isValid = true) :
    ∃ plan report, output.plan = some plan ∧
      validatePhaseFive context plan.candidate.record plan.proposedState = .ok report ∧
      output.result.record.affectedClosure = report.affectedClosure ∧
      SoundClosure context plan report ∧
      validatePhaseNine context plan.candidate report.program report.affectedFunctions
        report.requiredCapabilities = .ok () ∧
      ProgramCheckers.validateContractTests context report.program report.selectionFunctions =
        .ok output.result.record.selectedTests := by
  have hsome : output.plan.isSome := (of_decide_eq_true hvalid).2
  obtain ⟨plan, hplan⟩ := Option.isSome_iff_exists.1 hsome
  obtain ⟨selectedTests, hjudge, hfinish⟩ := validateCandidateBytes_judged h hplan
  have hjudged := judgeCandidate_eq_ok.1 hjudge
  obtain ⟨report, hreport, hrest⟩ := Except.bind_eq_ok.1 hjudged.program
  obtain ⟨-, -, hnine⟩ := Except.bind_eq_ok.1 hrest
  -- phase 5 is the same wherever it stands
  have htests := hjudged.tests
  simp only [CandidateJudgment.judgeRoot, judgeRoot, hreport, Except.ok_bind, Except.bind_eq_ok,
    Except.rejectIf_eq_ok, Unique.exists_iff, Except.pure_eq_ok] at htests
  obtain ⟨-, _, htests, -, -, rfl⟩ := htests
  simp only [CandidateJudgment.finishValid, finishValid, hreport, Except.mapError, Except.ok_bind,
    Except.bind_eq_ok, Except.pure_eq_ok] at hfinish
  obtain ⟨_, -, hresult⟩ := hfinish
  have hclosure := hjudged.soundClosure (validatePhaseFive_reports hreport)
  refine ⟨plan, report, hplan, hreport, ?_, hclosure, hnine, ?_⟩
  · rw [hresult]
  · rw [hresult]
    exact htests

end

end

/-! ### A deletion -/

/-- The digests of the objects, the roots, the candidate and its profiles below. -/
@[reducible]
def deletionBlake3 : Blake3 where
  hash input :=
    if input.take 15 = textBytes "sley2.object.v1" then
      -- the identity of an object stands behind domain, header and field
      match (input.getD 62 0).toNat with
      | 1 => ⟨[37, 168, 146, 180, 105, 85, 246, 176, 176, 27, 172, 8, 250, 153, 250, 83, 125, 243,
          190, 55, 127, 176, 119, 59, 153, 211, 205, 104, 80, 234, 199, 30], rfl⟩
      | 2 => ⟨[190, 159, 163, 209, 115, 52, 55, 53, 238, 239, 231, 249, 239, 155, 244, 208, 241, 11,
          18, 88, 170, 78, 104, 107, 191, 99, 141, 244, 18, 28, 103, 116], rfl⟩
      | _ => ⟨[61, 19, 54, 14, 34, 234, 91, 234, 203, 147, 208, 74, 54, 57, 20, 242, 74, 114, 203,
          200, 188, 185, 119, 128, 16, 33, 125, 183, 194, 156, 180, 150], rfl⟩
    else if input.take 19 = textBytes "sley2.state-root.v1" then
      if input.length = 446 then
        ⟨[63, 134, 204, 65, 28, 11, 204, 223, 71, 176, 234, 177, 252, 186, 209, 249, 23, 127, 204,
          64, 164, 76, 57, 76, 93, 88, 200, 215, 112, 170, 95, 81], rfl⟩
      else
        ⟨[97, 117, 15, 190, 52, 208, 5, 245, 246, 198, 5, 35, 134, 200, 176, 142, 137, 6, 131, 18,
          151, 86, 40, 135, 235, 107, 140, 27, 153, 116, 162, 241], rfl⟩
    else if input.take 18 = textBytes "sley2.candidate.v1" then
      ⟨[204, 62, 54, 136, 206, 54, 181, 84, 122, 55, 247, 211, 69, 42, 247, 120, 151, 38, 130, 169,
        55, 180, 140, 65, 236, 209, 124, 228, 230, 4, 175, 87], rfl⟩
    else deleteBlake3.hash input

def namespaceRecord (id : EntityId) (parent : Option EntityId) : EntityObjectRecord where
  entityId := id
  body := ⟨.namespace_, (⟨parent, ⟨[], .nil⟩⟩ : NamespaceBody)⟩
  label := none
  semanticFingerprint := none

def namespacePayload (id : EntityId) (parent : Bytes) : Bytes :=
  encode 2 ++ (taggedBytes 1 id.bytes ++ taggedBytes 2 (taggedBytes 3
    (encode 2 ++ (taggedBytes 1 parent ++ taggedBytes 2 (encode 0)))))

section

variable [HostLayout] [UnicodeNormalization]

theorem encode_namespaceRecord {id : EntityId} {parent : Option EntityId} {p : Bytes}
    (hparent : encodeNested 2 parent = .ok p) (hlen : p.length ≤ 100) :
    encodeObjectRecord (namespaceRecord id parent) = .ok (namespacePayload id p) := by
  have hsorted := (RecordShape.wellFormed_iff.1 namespaceLayout.wellFormed).1
  have hmembers : encodeNested 2 (⟨[], .nil⟩ : EntityIdSet) = .ok (encode 0) :=
    encodeAtDepth_eq_ok.2 ⟨by decide, encodeVec_eq_ok.2 ⟨by decide, Nat.zero_le _, [], .nil,
      (List.append_nil _).symm⟩, by with_unfolding_all decide⟩
  have hfields : (namespaceLayout.shape.fields 1).encode
      (namespaceLayout.equiv ⟨parent, ⟨[], .nil⟩⟩) = .ok [p, encode 0] :=
    RecordFields.encode_cons hparent <| RecordFields.encode_cons hmembers rfl
  let value : Bytes := encode 2 ++ (taggedBytes 1 p ++ taggedBytes 2 (encode 0))
  have hcount : (encode 0).length = 1 ∧ (encode 2).length = 1 ∧
      (taggedBytes 2 (encode 0)).length = 3 := by with_unfolding_all decide
  have hlimit : maxStandaloneBytes = 67108864 := rfl
  have hrecord : (namespaceLayout.shape.fields 1).encodeRecordValue 1
      (namespaceLayout.equiv ⟨parent, ⟨[], .nil⟩⟩) = .ok value := by
    refine ((namespaceLayout.shape.exact_fields hsorted 1).encodeRecordValue_eq_ok
      (show 2 ≤ maxRecordFields by decide)).2 ⟨by decide, _, hfields, ?_, ?_⟩
    · simp only [List.forall_mem_cons, List.not_mem_nil, IsEmpty.forall_iff, implies_true, and_true]
      omega
    · show _ = encode 2 ++ (taggedBytes 1 p ++ (taggedBytes 2 (encode 0) ++ []))
      rw [List.append_nil]
  have hvalue : value.length ≤ 200 := by
    have := length_taggedBytes_le 1 (show p.length ≤ maxStandaloneBytes by omega)
    simp only [value, List.length_append]
    omega
  have htagged := length_taggedBytes_le 3 (show value.length ≤ maxStandaloneBytes by omega)
  have hbody : encodeExact (namespaceRecord id parent).body = .ok (taggedBytes 3 value) :=
    encodeAtDepth_eq_ok.2 ⟨by decide, encodeUnionValue_eq_ok.2 ⟨by decide, value,
      encodeAtDepth_eq_ok.2 ⟨by decide, hrecord, by omega⟩, by omega, rfl⟩, by omega⟩
  have hfields := encodeObjectFields_eq_ok.2 ⟨_, _, hbody, labelFields_eq_ok.2 (.inl ⟨rfl, rfl⟩),
    rfl⟩
  refine bind_eq_ok.2 ⟨_, hfields,
    (encodeRecord_eq_ok (encodeObjectFields_ascending hfields).1.sorted).2
      ⟨show 2 ≤ maxRecordFields by decide, ?_, ?_⟩⟩
  · simp only [fingerprintFields, namespaceRecord, List.append_nil, List.forall_mem_cons,
      List.not_mem_nil, IsEmpty.forall_iff, implies_true, and_true, Id.length_eq]
    omega
  · show _ = encode 2 ++ (taggedBytes 1 id.bytes ++ (taggedBytes 2 (taggedBytes 3 value) ++ []))
    rw [List.append_nil]
    rfl

end
/-- The namespace that is deleted, one that stays, and the parent of the latter. -/
def deletionObjects : List EntityObject :=
  letI := deletionBlake3
  [objectAround frozenEpochId (namespaceRecord (splat 1) none)
      (namespacePayload (splat 1) [0, 0]),
    objectAround frozenEpochId (namespaceRecord (splat 2) (some (splat 3)))
      (namespacePayload (splat 2) ([1, 32] ++ List.replicate 32 3)),
    objectAround frozenEpochId (namespaceRecord (splat 3) none)
      (namespacePayload (splat 3) [0, 0])]

theorem build_deletionObjects : letI := hostLayout64
    letI := deletionBlake3
    letI := composedText
    ∀ object ∈ deletionObjects, buildEntityObject frozenEpochId object.record = .ok object := by
  let _ := hostLayout64
  let _ := deletionBlake3
  let _ := composedText
  simp only [deletionObjects, List.forall_mem_cons, List.not_mem_nil, IsEmpty.forall_iff,
    implies_true, and_true]
  refine ⟨?_, ?_, ?_⟩
  all_goals exact buildEntityObject_eq_ok.2 ⟨_, encode_namespaceRecord (by with_unfolding_all decide)
    (by decide), by decide +kernel, rfl⟩

/-- The record of a root that binds some of the objects. -/
def deletionRecord (objects : List EntityObject) : StateRootRecord where
  workspaceId := splat 1
  schemaEpochId := frozenEpochId
  entityBindings := objects.map fun object ↦ (object.record.entityId, object.objectId)
  entryPoints := []
  dependencyRoots := []
  contractRoot := splat 20
  testRoot := splat 21
  policyRoot := splat 5
  interpretationFlags := []

variable {objects : List EntityObject}

theorem exists_validRoot_deletion (h : objects = deletionObjects ∨ objects = deletionObjects.tail) :
    letI := deletionBlake3
    ∃ root, root.record = deletionRecord objects ∧ ValidRoot frozenRegistry root := by
  let _ := deletionBlake3
  have hcanonical : (deletionRecord objects).Canonical := by
    obtain rfl | rfl := h
    all_goals constructor <;> simp only [Ascends, deletionRecord] <;> decide
  have hpayload : ∃ payload, encodePayload (deletionRecord objects) = .ok payload ∧
      payload.length ≤ 1000 := by
    obtain rfl | rfl := h
    all_goals exact ⟨_, (encodePayload_eq_ok hcanonical.bindings).2 ⟨_, _, _, _, ⟨by decide, rfl⟩,
      encodeIdSet_eq_ok.2 ⟨by decide, rfl⟩, encodeIdSet_eq_ok.2 ⟨by decide, rfl⟩,
      encodeU32Set_eq_ok.2 ⟨by decide, rfl⟩, by decide +kernel, rfl⟩, by decide +kernel⟩
  obtain ⟨payload, hencode, hlen⟩ := hpayload
  exact ⟨_, rfl, validRoot_frozenRegistry hcanonical rfl rfl hencode hlen⟩

/-- No object refers to the namespace that is deleted. -/
theorem deletionObjects_references {object : EntityObject} (hobject : object ∈ deletionObjects)
    {edge : ProgramEdge} (hedge : edge ∈ references object) : edge.dependency ≠ splat 1 := by
  obtain ⟨step, hstep, -, expectedKinds, rfl⟩ := hedge
  have hsteps : ∀ object ∈ deletionObjects, ∀ step ∈ collectSteps object.record.body,
      step = .charge ∨ step = .toKind (splat 3) 1 3 := by decide
  obtain hadd | hadd := hsteps object hobject _ hstep
  · cases hadd
  · rw [(CollectStep.add.inj hadd).1]
    decide

theorem exists_project_deletion (h : objects = deletionObjects ∨ objects = deletionObjects.tail) :
    ∃ program, project objects = .ok program := by
  have hsome : (project objects).toOption.isSome := by
    obtain rfl | rfl := h
    · decide
    · decide
  generalize project objects = outcome at hsome
  cases outcome with
  | error error => cases hsome
  | ok program => exact ⟨program, rfl⟩

theorem dependencyRoots_deletion {program : CandidateProgram}
    (h : objects = deletionObjects ∨ objects = deletionObjects.tail)
    (hproject : project objects = .ok program) : program.dependencyRoots = [] := by
  have hnone : program.dependencyBindings = [] := by
    rw [CandidateProgram.dependencyBindings, CandidateProgram.objects_of_project hproject]
    obtain rfl | rfl := h
    · rfl
    · rfl
  rw [CandidateProgram.dependencyRoots, hnone, List.map_nil, List.mergeSort_nil]
  rfl

theorem affectedClosure_deletion {program : CandidateProgram}
    (hobjects : ∀ object ∈ objects, object ∈ deletionObjects)
    (h : project objects = .ok program) :
    program.affectedClosure [splat 1] = .ok [splat 1] := by
  have hnone : program.reverseEdges.getD (splat 1) [] = [] := by
    refine List.eq_nil_iff_forall_not_mem.2 fun dependent hmem ↦ ?_
    obtain ⟨tag, hedge⟩ := CandidateProgram.mem_reverseEdges.1 hmem
    obtain ⟨object, hobject, hreference⟩ := (CandidateProgram.mem_edges_iff h _).1 hedge
    exact deletionObjects_references (hobjects object hobject) hreference rfl
  have hserve : serve program.reverseEdges ⟨(∅ : EntitySet).insert (splat 1), [], 0⟩
      (splat 1) = .ok ⟨(∅ : EntitySet).insert (splat 1), [], 1⟩ := by
    rw [serve, hnone]
    rfl
  have hloop : closureLoop program.reverseEdges
      ⟨(∅ : EntitySet).insert (splat 1), [splat 1], 0⟩ =
        .ok ((∅ : EntitySet).insert (splat 1)) := by
    rw [closureLoop]
    split
    · rename_i hqueue
      cases hqueue
    · rename_i dependency queue hqueue
      obtain ⟨rfl, rfl⟩ := List.cons.inj hqueue
      split
      · rename_i herror
        cases herror.symm.trans hserve
      · rename_i state' hstate
        obtain rfl := Except.ok.inj (hstate.symm.trans hserve)
        rw [closureLoop]
  have hseed : [splat 1].foldl seed ⟨∅, [], 0⟩ =
      ⟨(∅ : EntitySet).insert (splat 1), [splat 1], 0⟩ := by
    rw [List.foldl_cons, List.foldl_nil, seed, if_neg Std.ExtTreeSet.not_mem_empty]
    rfl
  rw [CandidateProgram.affectedClosure, hseed, hloop, rejectIf_neg (by decide)]
  exact congrArg Except.ok (by decide)

/-- Checkers that accept, and a renderer of no bytes. -/
@[reducible]
def deletionCheckers : @ProgramCheckers hostLayout64 Unit :=
  letI := hostLayout64
  { projectContext := fun _ ↦ .error .capability
    checkProgram := fun _ _ _ _ ↦ .ok ()
    authorize := fun _ _ _ _ ↦ .ok ()
    validateIsolation := fun _ _ ↦ .ok ()
    validateContractTests := fun _ _ _ ↦ .ok []
    checkResources := fun _ _ _ _ _ _ ↦ .ok ()
    finishFailure := fun _ _ _ ↦ .error .result
    buildCandidateResult := fun _ _ ↦ .ok (splat 9, []) }

def deletionContext (base : AcceptedStateRoot) : CandidateValidationContext Unit where
  baseTransactionId := splat 2
  baseState := base
  baseObjects := deletionObjects
  tombstones := []
  policy := ⟨splat 5, [1], ⟨splat 1, none⟩⟩
  principalId := splat 6
  capabilities := []
  nowUnixMillis := 0
  limits := .fullV1
  capabilitySummaryDigest := splat 7
  contextDigest := splat 8

/-- The candidate that deletes the first namespace. -/
def deletionCandidate [HostLayout] (profile : ValidationProfileId) (base : AcceptedStateRoot)
    (objectId : ObjectId) : CandidateRecord :=
  { soleRecord profile objectId (soleOperation .deleteEntityBinding 3 .deleteEntityBinding) with
    baseRoot := base.root
    schemaEpochId := frozenEpochId }

theorem exists_import_deletion (base : AcceptedStateRoot) (objectId : ObjectId) :
    letI := hostLayout64
    letI := candidateLayout64
    letI := deletionBlake3
    ∃ profile candidate, fullValidationProfileId = .ok profile ∧
      candidate.record = deletionCandidate profile base objectId ∧
      (deletionCandidate profile base objectId).validate = .ok () ∧
      candidate.storedBytes.length ≤ maxStandaloneBytes ∧
      importCandidate candidate.storedBytes = .ok candidate := by
  let _ := hostLayout64
  let _ := candidateLayout64
  let _ := deletionBlake3
  obtain ⟨profile, hprofile⟩ : ∃ id, fullValidationProfileId = .ok id :=
    exists_validationProfileId (by decide)
  let record := deletionCandidate profile base objectId
  have hvalid : record.validate = .ok () :=
    validate_soleRecord .deleteEntityBinding 3 .deleteEntityBinding objectId hprofile (by decide)
      rfl rfl rfl
  obtain ⟨candidate, hbuild⟩ : ∃ candidate, buildCandidate record = .ok candidate :=
    build_soleRecord (p := [3, 0]) (by decide) (by with_unfolding_all decide) hvalid rfl rfl rfl
  obtain ⟨hrecord, himport⟩ := candidate_roundTrip.1 _ _ hbuild
  have hcost : candidateCost record ≤ maxTotalAllocation := by
    show candidateCost (soleRecord profile objectId _) ≤ maxTotalAllocation
    rw [candidateCost_soleRecord]
    decide
  refine ⟨profile, candidate, hprofile, hrecord, hvalid, ?_, himport.2 hcost⟩
  obtain ⟨bs, -, hlen, rfl⟩ := buildCandidate_eq_ok.1 hbuild
  show (candidatePreimageBytes bs ++ _).length ≤ maxStandaloneBytes
  rwa [List.length_append, Id.length_eq]


variable {base : AcceptedStateRoot} {profile : ValidationProfileId} {objectId : ObjectId}

/-- The deletion, applied to its base. -/
theorem apply_deletion (hobjectId : deletionObjects.head?.map (·.objectId) = some objectId)
    (hvalid : letI := hostLayout64
      letI := deletionBlake3
      (deletionCandidate profile base objectId).validate = .ok ()) :
    letI := hostLayout64
    letI := deletionBlake3
    letI := composedText
    ∃ result, applyCandidateToSnapshot frozenEpochId (deletionCandidate profile base objectId)
        deletionObjects [] = .ok result ∧ result.entities = deletionObjects.tail ∧
          result.entryPoints = [] := by
  let _ := hostLayout64
  let _ := deletionBlake3
  let _ := composedText
  let target : EntityId := splat 1
  let operation := soleOperation .deleteEntityBinding 3 .deleteEntityBinding
  let base : EntityMap EntityObject :=
    EntityMap.ofEntries (deletionObjects.map fun object ↦ (object.record.entityId, object))
  have hnodup : (deletionObjects.map (·.record.entityId)).Nodup := by decide
  have hlookup : base[target]? = deletionObjects.head? := by with_unfolding_all decide
  have hbase : collectBase frozenEpochId deletionObjects ∅ = .ok base := by
    refine collectBase_eq_ok.2 ⟨by decide, hnodup, fun id found ↦ ?_⟩
    have hkeys : ((deletionObjects.map fun object ↦ (object.record.entityId, object)).map
        Prod.fst).Nodup := by rwa [List.map_map]
    rw [EntityMap.getElem?_ofEntries hkeys]
    simp only [List.mem_map, Prod.mk.injEq, Std.ExtTreeMap.getElem?_empty, reduceCtorEq, false_or]
    constructor
    · rintro ⟨_, hmem, rfl, rfl⟩
      exact ⟨hmem, rfl⟩
    · rintro ⟨hmem, rfl⟩
      exact ⟨found, hmem, rfl, rfl⟩
  have hcheck : checkBasePreconditions base [solePrecondition objectId] = .ok () := by
    refine checkBasePreconditions_eq_ok.2 (List.forall_mem_singleton.2 ?_)
    refine rejectIf_neg (not_not.2 ?_) _
    show base[target]?.map _ = some objectId
    rw [hlookup]
    exact hobjectId
  have hstep : applyOperation frozenEpochId ⟨base, ∅, ∅, ∅⟩ operation =
      .ok ⟨base.erase target, ∅, (∅ : EntitySet).insert target, (∅ : EntitySet).insert target⟩ := by
    have hlive : ensureLiveKind base operation = .ok () :=
      bind_eq_ok.2 ⟨_, ofOption_eq_ok.2 hlookup, rfl⟩
    refine bind_eq_ok.2 ⟨(), hlive, bind_eq_ok.2 ⟨(), ?_, rfl⟩⟩
    exact rejectIf_neg Std.ExtTreeSet.not_mem_empty _
  have hrun : [operation].foldlM (applyOperation frozenEpochId) ⟨base, ∅, ∅, ∅⟩ =
      .ok ⟨base.erase target, ∅, (∅ : EntitySet).insert target, (∅ : EntitySet).insert target⟩ := by
    rw [List.foldlM_cons, hstep]
    rfl
  simp only [applyCandidateToSnapshot, bind_eq_ok, CandidateApplyError.ofCandidate_eq_ok,
    exists_iff, rejectIf_eq_ok, not_not, pure_eq_ok]
  exact ⟨_, ⟨hvalid, rfl, base, hbase, ∅, rfl, hcheck, _, hrun, rfl⟩, by decide +kernel, by decide⟩

/-- The base passes phase 2. -/
theorem validatePhaseTwo_deletion [HostLayout] {candidate : ImportedCandidate}
    (hbase : base.record = deletionRecord deletionObjects)
    (hvalid : letI := deletionBlake3; ValidRoot frozenRegistry base)
    (hlen : candidate.storedBytes.length ≤ maxStandaloneBytes)
    (hoperations : candidate.record.operations.length = 1)
    (hpreconditions : candidate.record.preconditions.length = 1) :
    letI := deletionBlake3
    letI : ConformanceRegistry := ⟨.ok frozenRegistry⟩
    validatePhaseTwo (deletionContext base) candidate = .ok () := by
  let _ := deletionBlake3
  let _ : ConformanceRegistry := ⟨.ok frozenRegistry⟩
  have himported : importStateRoot frozenRegistry base.storedBytes = .ok base :=
    importStateRoot_eq_ok.2 ⟨rfl, hvalid⟩
  let limits := CandidateValidationLimits.fullV1.effective
  simp only [validatePhaseTwo, bind_eq_ok, mapError_eq_ok, rejectIf_eq_ok,
    exists_iff, not_or, Nat.not_lt, gt_iff_lt, not_not]
  refine ⟨⟨?_, ?_, ?_, ?_, ?_⟩, frozenRegistry, rfl, base, himported, rfl, ?_, ?_, ⟨?_, ?_⟩, ?_, ?_⟩
  · exact hlen.trans (show maxStandaloneBytes ≤ limits.maxCandidateBytes.toNat by decide)
  · exact hoperations.trans_le (show 1 ≤ limits.maxOperations.toNat by decide)
  · exact hpreconditions.trans_le (show 1 ≤ limits.maxPreconditions.toNat by decide)
  · exact show 3 ≤ limits.maxEntities.toNat by decide
  · show base.record.entityBindings.length ≤ limits.maxEntities.toNat
    rw [hbase]
    exact show 3 ≤ limits.maxEntities.toNat by decide
  · show deletionObjects.length = base.record.entityBindings.length
    rw [hbase]
    rfl
  · show checkInventory base.record.schemaEpochId none
      (deletionObjects.zip base.record.entityBindings) = .ok ()
    rw [hbase]
    decide +kernel
  · exact .nil
  · rintro ⟨_, hmem, -⟩
    cases hmem
  · show base.record.policyRoot = splat 5
    rw [hbase]
    rfl
  · show base.record.workspaceId = splat 1
    rw [hbase]
    rfl

/-- The candidate is fresh. -/
theorem validatePhaseThree_deletion [HostLayout]
    (hobjectId : deletionObjects.head?.map (·.objectId) = some objectId)
    (hbase : base.record = deletionRecord deletionObjects) {candidate : ImportedCandidate}
    (hrecord : candidate.record = deletionCandidate profile base objectId) :
    validatePhaseThree (deletionContext base) candidate = .ok () := by
  simp only [validatePhaseThree, bind_eq_ok, rejectIf_eq_ok, exists_iff, not_not]
  rw [hrecord]
  refine ⟨rfl, rfl, ?_, ?_, rfl, show ¬ (0 : UInt64) ≥ 1 by decide, ?_, ?_⟩
  · show splat 1 = base.record.workspaceId
    rw [hbase]
    rfl
  · show frozenEpochId = base.record.schemaEpochId
    rw [hbase]
    rfl
  · rintro ⟨_, hnone, -⟩
    cases hnone
  · rintro ⟨precondition, hprecondition, expected, hexpected, hne⟩
    obtain rfl := List.mem_singleton.1 hprecondition
    obtain rfl := Option.some.inj hexpected
    refine hne ?_
    show findBinding base.record.entityBindings (splat 1) = some objectId
    rw [hbase, ← hobjectId]
    with_unfolding_all decide

/-- The deletion affects what it deletes. -/
theorem validatePhaseFive_deletion [HostLayout]
    (hbase : base.record = deletionRecord deletionObjects) {proposed : ProposedEntityState}
    (hentities : proposed.entities = deletionObjects.tail) (hentries : proposed.entryPoints = []) :
    ∃ report, validatePhaseFive (deletionContext base) (deletionCandidate profile base objectId)
        proposed = .ok report ∧ report.affectedClosure = [splat 1] := by
  obtain ⟨baseProgram, hbaseProgram⟩ := exists_project_deletion (.inl rfl)
  obtain ⟨program, hprogram⟩ := exists_project_deletion (.inr rfl)
  have hseeds : mutationSeeds (deletionCandidate profile base objectId) = [splat 1] := by
    show ([splat 1].mergeSort _).destutter _ = [splat 1]
    rw [List.mergeSort_singleton]
    rfl
  have hbaseClosure := affectedClosure_deletion (fun _ h ↦ h) hbaseProgram
  have hproposedClosure := affectedClosure_deletion (fun _ h ↦ List.mem_of_mem_tail h) hprogram
  have hroots : base.record.dependencyRoots = [] := by
    rw [hbase]
    rfl
  have hcontext : validatePhaseFiveContext (deletionContext base) proposed baseProgram program =
      .ok () := by
    simp only [validatePhaseFiveContext, bind_eq_ok, rejectIf_eq_ok,
      exists_iff, hentries, not_or, not_not]
    refine ⟨?_, ?_, ?_⟩
    · rintro ⟨_, hmem, -⟩
      cases hmem
    · exact (dependencyRoots_deletion (.inl rfl) hbaseProgram).trans hroots.symm
    · exact (dependencyRoots_deletion (.inr rfl) hprogram).trans hroots.symm
  simp only [validatePhaseFive, hentities, hseeds, bind_eq_ok, mapError_eq_ok,
    exists_iff, pure_eq_ok]
  exact ⟨_, ⟨baseProgram, hbaseProgram, program, hprogram, hcontext, _, hbaseClosure, _,
    hproposedClosure, rfl⟩, show sortedUnion [splat 1] [splat 1] = [splat 1] by decide⟩

/-- Of three namespaces the first is deleted; the second and its parent stay as they are. -/
theorem affectedClosure_sound_deletion :
    letI := hostLayout64
    letI := candidateLayout64
    letI := deletionBlake3
    letI := composedText
    letI := deletionCheckers
    letI : ConformanceRegistry := ⟨.ok frozenRegistry⟩
    letI : ConformanceEpoch := ⟨.ok frozenEpochId⟩
    (∀ object ∈ deletionObjects, buildEntityObject frozenEpochId object.record = .ok object) ∧
    ∃ (base : AcceptedStateRoot) (storedCandidate : Bytes) (output : CandidateValidationOutput),
      validateCandidateBytes (deletionContext base) storedCandidate = .ok output ∧
      output.isValid = true ∧ output.result.record.affectedClosure = [Id.splat 1] ∧
      ∃ plan report, output.plan = some plan ∧ SoundClosure (deletionContext base) plan report ∧
        report.RefersTo (Id.splat 2) (Id.splat 3) ∧
        SameBinding base plan.candidateRoot (Id.splat 3) := by
  let _ := hostLayout64
  let _ := candidateLayout64
  let _ := deletionBlake3
  let _ := composedText
  let _ := deletionCheckers
  let _ : ConformanceRegistry := ⟨.ok frozenRegistry⟩
  let _ : ConformanceEpoch := ⟨.ok frozenEpochId⟩
  obtain ⟨base, hbase, hbaseValid⟩ := exists_validRoot_deletion (.inl rfl)
  obtain ⟨root, hroot, hrootValid⟩ := exists_validRoot_deletion (.inr rfl)
  obtain ⟨objectId, hobjectId⟩ : ∃ objectId,
      deletionObjects.head?.map (·.objectId) = some objectId := ⟨_, rfl⟩
  obtain ⟨profile, candidate, -, hrecord, hvalid, hlen, himport⟩ :=
    exists_import_deletion base objectId
  obtain ⟨proposed, happly, hentities, hentries⟩ := apply_deletion hobjectId hvalid
  let context := deletionContext base
  have htwo : validatePhaseTwo context candidate = .ok () :=
    validatePhaseTwo_deletion hbase hbaseValid hlen (by rw [hrecord]; rfl) (by rw [hrecord]; rfl)
  have hthree : validatePhaseThree context candidate = .ok () :=
    validatePhaseThree_deletion hobjectId hbase hrecord
  have hfour : validatePhaseFour context candidate = .ok () := by
    rw [validatePhaseFour, hrecord]
    rfl
  obtain ⟨report, hreport, hclosure⟩ :
      ∃ report, validatePhaseFive context (deletionCandidate profile base objectId) proposed =
          .ok report ∧
        report.affectedClosure = [Id.splat 1] :=
    validatePhaseFive_deletion hbase hentities hentries
  have hbuild : buildCandidateStateRoot base proposed = .ok root := by
    simp only [buildCandidateStateRoot, Except.bind_eq_ok, Except.mapError_eq_ok, build_eq_ok]
    refine ⟨frozenRegistry, rfl, ?_, ?_, hrootValid⟩
    · rw [hroot, hbase, hentities, hentries]
      exact ⟨rfl, .refl _, .refl _, .refl _, rfl, rfl, rfl, .refl _⟩
    · rw [hroot]
      rfl
  let plan : ValidatedCandidatePlan := ⟨candidate, proposed, root⟩
  have hreports := validatePhaseFive_reports (hrecord ▸ hreport :
    validatePhaseFive context candidate.record proposed = .ok report)
  have hfunctions : ∀ id, id ∉ report.affectedFunctions := by
    have hkinds : ∀ object ∈ deletionObjects,
        object.record.body.kindTag ≠ EntityKind.function.kindTag := by decide
    intro id hid
    obtain ⟨-, hkind | hkind⟩ := (hreports.mem_affectedFunctions id).1 hid
    · obtain ⟨object, hobject, -, hkind⟩ :=
        (CandidateProgram.kinds_of_project hreports.baseProgram _ _).1 hkind
      exact hkinds object hobject hkind
    · obtain ⟨object, hobject, -, hkind⟩ :=
        (CandidateProgram.kinds_of_project hreports.program _ _).1 hkind
      exact hkinds object (List.mem_of_mem_tail (hentities ▸ hobject)) hkind
  have hjudged : Judged context candidate.storedBytes plan [] := by
    constructor
    case imported => exact himport
    case phaseTwo => exact htwo
    case phaseThree => exact hthree
    case phaseFour => exact hfour
    case applied =>
      show applyCandidateToSnapshot candidate.record.schemaEpochId candidate.record deletionObjects
        base.record.entryPoints = .ok proposed
      rw [hrecord, hbase]
      exact happly
    case program =>
      refine Except.bind_eq_ok.2 ⟨report, hrecord ▸ hreport, Except.bind_eq_ok.2 ⟨(), rfl,
        Except.bind_eq_ok.2 ⟨(), rfl, Except.rejectIf_neg ?_ _⟩⟩⟩
      rintro ⟨id, hid, -⟩
      exact hfunctions id hid
    case root => exact hbuild
    case tests => exact Except.bind_eq_ok.2 ⟨report, hrecord ▸ hreport, rfl⟩
  obtain ⟨result, hresult, hdecision, haffected⟩ : ∃ result,
      CandidateJudgment.finishValid context plan [] = .ok result ∧
        result.record.decision = .valid ∧
          result.record.affectedClosure = report.affectedClosure := by
    refine ⟨_, Except.bind_eq_ok.2 ⟨report, Except.mapError_eq_ok.2 (hrecord ▸ hreport), rfl⟩, rfl,
      rfl⟩
  have houtput : validateCandidateBytes context candidate.storedBytes =
      .ok ⟨result, some plan⟩ := by
    rw [validateCandidateBytes, judgeCandidate_eq_ok.2 hjudged]
    exact Except.bind_eq_ok.2 ⟨result, hresult, rfl⟩
  have hisValid : (⟨result, some plan⟩ : CandidateValidationOutput).isValid = true :=
    decide_eq_true ⟨hdecision, rfl⟩
  obtain ⟨plan', report', hplan, hreport', -, hsound, -, -⟩ :=
    affectedClosure_sound houtput hisValid
  obtain rfl : plan = plan' := Option.some.inj hplan
  obtain rfl : report = report' :=
    Except.ok.inj ((hrecord ▸ hreport : validatePhaseFive context candidate.record proposed =
      .ok report).symm.trans hreport')
  have hrefers : report.RefersTo (Id.splat 2) (Id.splat 3) := by
    have hstep : ∃ object ∈ deletionObjects, object.record.entityId = Id.splat 2 ∧
        .toKind (Id.splat 3) 1 3 ∈ collectSteps object.record.body := by decide
    obtain ⟨object, hobject, hid, hstep⟩ := hstep
    exact .inl ((CandidateProgram.mem_dependents_iff hreports.baseProgram).2
      ⟨object, hobject, hid, 1, _, hstep, hid.symm, _, rfl⟩)
  refine ⟨build_deletionObjects, base, candidate.storedBytes, _, houtput, hisValid,
    haffected.trans hclosure, plan, report, rfl, hsound, hrefers, ?_⟩
  refine hsound.same (Id.splat 2) ?_ ?_ _ (.single hrefers)
  · show (findBinding root.record.entityBindings (Id.splat 2)).isSome
    rw [hroot]
    decide
  · rw [hclosure]
    decide

end Sley.Policy
