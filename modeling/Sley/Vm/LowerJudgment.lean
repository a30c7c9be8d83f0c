import Sley.Lib.Located
import Sley.Vm.Lower

/-!
# The judgment predicts the lowering

`judge_function_operations` and `lower_function` walk the operations of a function separately. Here
both are written with the places at which they stop (`judgeAt`, `lowerAt`); without the places they
are the functions themselves (`forget_judgeAt`, `forget_lowerAt`).

**Under the extended profile, what the judgment refuses is refused by the lowering, at the same
place and with the same error, and what it accepts is refused by the lowering at most once the
function is written down** — provided that the function passes the checks that the lowering alone
makes first. A callee is only looked at by the lowering, and the judgment knows no other profile.
-/

namespace Sley.Vm.Lower

open Except hiding ok error
open StateT.StopsIn (bind)
open StateT (locate stopsIn_locate)

open Ssmc hiding TypeEnvironment
open TypeCheck (TypeEnvironment TypeErrorCode)
open Scb1 (Bytes)

/-! ### Places -/

/-- What a lowering is at when it stops. -/
inductive Place
  /-- The validation of the graph. -/
  | graph
  /-- The cache key. -/
  | cacheKey
  /-- The profile, and what a function may declare under it. -/
  | profile
  /-- The function as a whole: its sizes, its references and its result type. -/
  | function
  /-- One operation of the function. -/
  | operation (id : EntityId)
  /-- Its bytecode, with that of its callees. -/
  | bytecode
  deriving DecidableEq

abbrev LoweringAt := StateT Nat (Except (Place × LoweringError))

def forOperationsAt (blocks : List EntityId) (maps : Maps) (visit : Operation → Lowering Unit) :
    LoweringAt Unit :=
  blocks.forM fun blockId ↦ do
    let (block, _) ← locate .function (localEntry maps.blocks[blockId]?)
    block.operations.forM fun operationId ↦ do
      let (operation, _) ← locate .function (localEntry maps.operations[operationId]?)
      locate (.operation operation.entityId) (visit operation)

/-- The walk of the profile. -/
def walkAt (input root : LoweringInput) (maps : Maps) : LoweringAt Unit :=
  if input.profile.isExtended then do
    locate .function
      (StateT.ofExcept (lowered (checkResultType input.function.resultType)))
    forOperationsAt input.function.blocks maps
      (judgeOperation (root.context input.function.entityId) maps)
  else forOperationsAt input.function.blocks maps (validateOperation maps)

/-- What is asked of the operations of a function, whether it is to be judged or to be lowered. -/
def examineAt (input root : LoweringInput) :
    Except (Place × LoweringError) (Maps × Nat) := do
  let work ← (preflightResources input).locate .function
  let (maps, work) ← (do
    let maps ← locate .function (Maps.build input)
    walkAt input root maps
    return maps : LoweringAt Maps).run work
  input.operations.forM fun operation ↦ Except.locate (.operation operation.entityId)
    (rejectIf (!namesCanonical input operation) .immediateMismatch)
  return (maps, work)

/-- `judge_function_operations` with its places. -/
def judgeAt (root : LoweringInput) : Except (Place × LoweringError) OperationJudgment := do
  (rejectIf (!root.profile.isExtended) .profileUnsupported).locate .profile
  let input := root.narrow root.function
  let (_, work) ← examineAt input root
  return { operations := input.operations.length, work }

/-- What the lowering makes of a function that has been examined. -/
def finish (input root : LoweringInput) (cacheKey : Digest) (maps : Maps) (work : Nat) :
    Except LoweringError LoweredFunction := do
  let ((bytecode, callees), work) ← (emitAll input root maps).run work
  let bytes ← lowered (encodeFunction bytecode callees input.profile.isExtended)
  return { bytecode, bytes, cacheKey, loweringWork := work, callees }

section

variable (derive : Bytes → Digest)

/-- `lower_function` with its places. -/
def lowerAt (root : LoweringInput) : Except (Place × LoweringError) LoweredFunction := do
  let _ ← (validateGraph root.own).locate .graph
  let cacheKey ← (deriveCacheKey derive root.own).locate .cacheKey
  (checkProfile root.own.function).locate .profile
  let (maps, work) ← examineAt root.own root
  (finish root.own root cacheKey maps work).locate .bytecode

end

/-! ### Without the places -/

theorem forget_forOperationsAt (blocks : List EntityId) (maps : Maps)
    (visit : Operation → Lowering Unit) :
    (forOperationsAt blocks maps visit).forget = forOperations blocks maps visit := by
  rw [forOperationsAt, forOperations, StateT.forget_forM]
  refine congrArg blocks.forM (funext fun blockId ↦ ?_)
  rw [StateT.forget_bind, StateT.forget_locate]
  refine congrArg _ (funext fun p ↦ ?_)
  rw [StateT.forget_forM]
  simp

theorem forget_walkAt (input root : LoweringInput) (maps : Maps) :
    (walkAt input root maps).forget = checkOperations input root maps := by
  rw [walkAt, checkOperations]
  split
  · rw [StateT.forget_bind, StateT.forget_locate, judgeExtended]
    exact congrArg _ (funext fun _ ↦ forget_forOperationsAt _ _ _)
  · exact forget_forOperationsAt _ _ _

/-- What is asked of a function, without the places. -/
theorem forget_examineAt (input root : LoweringInput) : (examineAt input root).forget = (do
      let work ← preflightResources input
      let (maps, work) ← (do
        let maps ← Maps.build input
        checkOperations input root maps
        return maps : Lowering Maps).run work
      requireCanonicalReferencedConstants input
      return (maps, work)) := by
  rw [examineAt, forget_bind, forget_locate]
  refine congrArg _ (funext fun work ↦ ?_)
  rw [forget_bind, ← StateT.run_forget]
  have hrun : StateT.forget (do
        let maps ← locate Place.function (Maps.build input)
        walkAt input root maps
        return maps : LoweringAt Maps) = (do
        let maps ← Maps.build input
        checkOperations input root maps
        return maps : Lowering Maps) := by
    simp only [StateT.forget_bind, StateT.forget_locate, forget_walkAt, StateT.forget_pure]
  rw [hrun]
  refine congrArg _ (funext fun p ↦ ?_)
  rw [forget_bind, forget_forM]
  simp only [forget_locate, forget_pure, requireCanonicalReferencedConstants]

/-- **The judgment with places is the judgment.** -/
theorem forget_judgeAt (root : LoweringInput) :
    (judgeAt root).forget = judgeFunctionOperations root := by
  rw [judgeAt, judgeFunctionOperations, forget_bind, forget_locate]
  cases hextended : root.profile.isExtended with
  | false => rfl
  | true =>
    have hnarrow : (root.narrow root.function).profile.isExtended = true := hextended
    rw [forget_bind, forget_examineAt]
    simp [checkOperations, hnarrow, StateT.run_bind]

/-- **The lowering with places is the lowering.** -/
theorem forget_lowerAt (derive : Bytes → Digest) (root : LoweringInput) :
    (lowerAt derive root).forget = lowerFunction derive root := by
  simp [lowerAt, lowerFunction, forget_examineAt, finish, StateT.run_bind, StateT.run_ofExcept_bind]

/-! ### Where the two stop -/

/-- A place inside of the function: itself, or one of its operations. -/
def Place.IsOwn : Place → Prop
  | .function | .operation _ => True
  | _ => False

theorem stopsIn_forOperationsAt (blocks : List EntityId) (maps : Maps)
    (visit : Operation → Lowering Unit) :
    (forOperationsAt blocks maps visit).StopsIn Place.IsOwn := by
  refine StateT.stopsIn_forM (fun blockId ↦ ?_) blocks
  refine bind (stopsIn_locate trivial _) fun p ↦ ?_
  refine StateT.stopsIn_forM (fun operationId ↦ ?_) p.1.operations
  exact bind (stopsIn_locate trivial _) fun _ ↦
    stopsIn_locate trivial _

theorem stopsIn_walkAt (input root : LoweringInput) (maps : Maps) :
    (walkAt input root maps).StopsIn Place.IsOwn := by
  rw [walkAt]
  split
  · exact bind (stopsIn_locate trivial _) fun _ ↦
      stopsIn_forOperationsAt _ _ _
  · exact stopsIn_forOperationsAt _ _ _

/-- What is asked of a function is refused inside of it. -/
theorem stopsIn_examineAt (input root : LoweringInput) :
    (examineAt input root).StopsIn Place.IsOwn := by
  refine Except.StopsIn.bind (stopsIn_locate trivial _) fun work ↦ ?_
  have hwalk : StateT.StopsIn Place.IsOwn (do
      let maps ← locate Place.function (Maps.build input)
      walkAt input root maps
      return maps : LoweringAt Maps) :=
    bind (stopsIn_locate trivial _) fun _ ↦
      (stopsIn_walkAt _ _ _).bind fun _ ↦ StateT.stopsIn_pure _
  refine (hwalk work).bind fun p ↦ ?_
  refine Except.StopsIn.bind (stopsIn_forM (fun _ ↦ ?_) _) fun _ ↦ stopsIn_pure _
  exact stopsIn_locate trivial _

/-- The checks of a function that only the lowering makes: its graph is valid, and it declares
neither type parameters nor effects nor contracts. -/
structure Admitted (root : LoweringInput) : Prop where
  graph : ∃ report, validateGraph root.own = .ok report
  closed : root.function.typeParameters = [] ∧ root.function.effects = [] ∧
    root.function.contracts = []

variable {root : LoweringInput}

theorem own_of_isExtended (h : root.profile.isExtended) :
    root.own = root.narrow root.function := if_pos h

/-- Under the extended profile the judgment is what is asked of the function. -/
theorem judgeAt_of_isExtended (h : root.profile.isExtended) : judgeAt root = do
      let (_, work) ← examineAt root.own root
      return { operations := root.own.operations.length, work } := by
  rw [judgeAt, own_of_isExtended h, h]
  rfl

section

variable (derive : Bytes → Digest)

include derive

theorem deriveCacheKey_of_isExtended
    (h : root.profile.isExtended) : ∃ key, deriveCacheKey derive root.own = .ok key := by
  have hprofile : root.own.profile = .extendedV1 := by
    rw [own_of_isExtended h]
    exact of_decide_eq_true h
  rw [deriveCacheKey, cacheKeyPreimage, hprofile]
  exact ⟨_, rfl⟩

section

variable (hextended : root.profile.isExtended)

include hextended

/-- The lowering of an admitted function goes on from what is asked of it. -/
theorem lowerAt_of_admitted (h : Admitted root) : ∃ key, lowerAt derive root = (do
      let (maps, work) ← examineAt root.own root
      (finish root.own root key maps work).locate .bytecode) := by
  obtain ⟨report, hgraph⟩ := h.graph
  obtain ⟨key, hkey⟩ := deriveCacheKey_of_isExtended derive hextended
  have hprofile : checkProfile root.own.function = .ok () := by
    have hfunction : root.own.function = root.function := by
      rw [own_of_isExtended hextended]
      rfl
    rw [hfunction, checkProfile, h.closed.1, h.closed.2.1, h.closed.2.2]
    rfl
  refine ⟨key, ?_⟩
  rw [lowerAt, hgraph, hkey, hprofile]
  rfl

/-- A function that is not admitted is refused before its operations are looked at. -/
theorem lowerAt_of_not_admitted (h : ¬ Admitted root) :
    ∃ place e, lowerAt derive root = .error (place, e) ∧ (place = .graph ∨ place = .profile) := by
  obtain ⟨key, hkey⟩ := deriveCacheKey_of_isExtended derive hextended
  rw [lowerAt, hkey]
  cases hgraph : validateGraph root.own with
  | error e => exact ⟨.graph, e, rfl, .inl rfl⟩
  | ok report =>
    have hfunction : root.own.function = root.function := by
      rw [own_of_isExtended hextended]
      rfl
    have hrefused : checkProfile root.own.function = .error (.lower .profileUnsupported) := by
      refine rejectIf_pos ?_ _
      by_contra hclosed
      rw [hfunction] at hclosed
      push Not at hclosed
      exact h ⟨⟨report, hgraph⟩, hclosed⟩
    rw [hrefused]
    exact ⟨.profile, _, rfl, .inr rfl⟩

/-- What the judgment refuses of an admitted function is what the lowering refuses inside of it. -/
theorem judgeAt_eq_error_iff (h : Admitted root) (place : Place) (e : LoweringError) :
    judgeAt root = .error (place, e) ↔ place.IsOwn ∧ lowerAt derive root = .error (place, e) := by
  obtain ⟨key, hlower⟩ := lowerAt_of_admitted derive hextended h
  rw [hlower, judgeAt_of_isExtended hextended]
  cases hexamine : examineAt root.own root with
  | error p =>
    have hown : p.1.IsOwn := stopsIn_examineAt root.own root p hexamine
    constructor
    · rintro ⟨⟩
      exact ⟨hown, rfl⟩
    · rintro ⟨-, ⟨⟩⟩
      rfl
  | ok r =>
    refine ⟨nofun, fun ⟨hown, hfinish⟩ ↦ ?_⟩
    obtain ⟨rfl, -⟩ := Except.locate_eq_error.1 hfinish
    exact hown.elim

end

end

/-- **The judgment predicts the lowering.** Of an admitted function under the extended profile, the
judgment accepts exactly what the lowering refuses neither as a whole nor at one of its operations,
and what it refuses is refused by the lowering at the same place with the same error. A function
that is not admitted is refused by the lowering before its operations are looked at, and a request
under another profile by the judgment. -/
theorem judgment_predicts_lowering (derive : Bytes → Digest) (root : LoweringInput) :
    (judgeAt root).forget = judgeFunctionOperations root ∧
    (lowerAt derive root).forget = lowerFunction derive root ∧
    (root.profile.isExtended = false →
      judgeFunctionOperations root = .error (.lower .profileUnsupported)) ∧
    (root.profile.isExtended = true →
      (Admitted root →
        ((∃ judgment, judgeFunctionOperations root = .ok judgment) ↔
          ∀ place e, place.IsOwn → lowerAt derive root ≠ .error (place, e)) ∧
        ∀ place e, judgeAt root = .error (place, e) ↔
          place.IsOwn ∧ lowerAt derive root = .error (place, e)) ∧
      (¬ Admitted root → ∃ place e, lowerAt derive root = .error (place, e) ∧ ¬ place.IsOwn)) := by
  refine ⟨forget_judgeAt root, forget_lowerAt derive root, fun hrestricted ↦ ?_,
    fun hextended ↦ ⟨fun h ↦ ⟨?_, judgeAt_eq_error_iff derive hextended h⟩, fun h ↦ ?_⟩⟩
  · rw [judgeFunctionOperations, hrestricted]
    rfl
  · have hiff := judgeAt_eq_error_iff derive hextended h
    rw [← forget_judgeAt]
    cases hjudge : judgeAt root with
    | ok judgment =>
      refine ⟨fun _ place e hown hlower ↦ ?_, fun _ ↦ ⟨judgment, rfl⟩⟩
      have := (hiff place e).2 ⟨hown, hlower⟩
      rw [hjudge] at this
      cases this
    | error p =>
      refine ⟨nofun, fun hnever ↦ ?_⟩
      obtain ⟨hown, hlower⟩ := (hiff p.1 p.2).1 hjudge
      exact (hnever p.1 p.2 hown hlower).elim
  · obtain ⟨place, e, hlower, rfl | rfl⟩ := lowerAt_of_not_admitted derive hextended h
    · exact ⟨.graph, e, hlower, nofun⟩
    · exact ⟨.profile, e, hlower, nofun⟩

/-! ### Requests of one block -/

/-- A function of one block that traps after its operations. -/
def trapping (function block : EntityId) (operations : List Operation) : FunctionGraph × Block :=
  (⟨function, [], [], .unit, [], block, [block], []⟩,
    ⟨block, function, [], operations.map (·.entityId), .trap ⟨.unreachable, none⟩, .required⟩)

/-- An operation that makes the empty tuple and declares a type for it. -/
def makesEmpty (id block : EntityId) (ordinal : UInt32) (declared : TypeExpr) : Operation :=
  ⟨id, block, ordinal, .tupleNew, [], [declared], .none⟩

def calls (id block : EntityId) (ordinal : UInt32) (function : EntityId) : Operation :=
  ⟨id, block, ordinal, .callDirect, [], [.unit], .function ⟨function, []⟩⟩

/-- A request to lower the first of these functions, each given by its block and operations. -/
def request (profile : CacheProfile) (functions : List (FunctionGraph × Block))
    (operations : List Operation) : LoweringInput where
  types := ⟨∅⟩
  function := (functions.headD (trapping (.splat 0) (.splat 0) [])).1
  parameters := []
  blocks := functions.map Prod.snd
  operations := operations
  schemaEpoch := .splat 0
  stateRoot := .splat 0
  profile := profile
  constants := []
  globals := []
  functions := functions.map Prod.fst
  contracts := []
  adapters := []

/-- A function whose second operation declares a wrong type. -/
def mistypedRequest : LoweringInput :=
  let operations := [makesEmpty (.splat 3) (.splat 2) 0 (.tuple []),
    makesEmpty (.splat 4) (.splat 2) 1 .bool]
  request .extendedV1 [trapping (.splat 1) (.splat 2) operations] operations

theorem admitted_mistypedRequest : Admitted mistypedRequest where
  graph := by
    have hok : (validateGraph mistypedRequest.own).isOk = true := by
      with_unfolding_all decide
    cases h : validateGraph mistypedRequest.own with
    | ok report => exact ⟨report, rfl⟩
    | error e =>
      rw [h] at hok
      cases hok
  closed := ⟨rfl, rfl, rfl⟩

/-- The lowering stops where the judgment stops. -/
theorem judgment_predicts_lowering_mistyped :
    lowerAt (fun _ ↦ .splat 9) mistypedRequest =
      .error (.operation (.splat 4), .lower .signatureMismatch) := by
  have hjudge : judgeAt mistypedRequest =
      .error (.operation (.splat 4), .lower .signatureMismatch) := by
    decide
  obtain ⟨-, -, -, hextended⟩ := judgment_predicts_lowering (fun _ ↦ .splat 9) mistypedRequest
  exact ((((hextended rfl).1 admitted_mistypedRequest).2 _ _).1 hjudge).2

/-- A function without operations, under the restricted profile. -/
def restrictedRequest : LoweringInput :=
  request .restrictedV1 [trapping (.splat 1) (.splat 2) []] []

/-- A function that calls another one, in which an operation declares a wrong type. -/
def callingRequest : LoweringInput :=
  let entry := [calls (.splat 3) (.splat 2) 0 (.splat 4)]
  let callee := [makesEmpty (.splat 6) (.splat 5) 0 .bool]
  request .extendedV1 [trapping (.splat 1) (.splat 2) entry, trapping (.splat 4) (.splat 5) callee]
    (entry ++ callee)

/-- The mistyped function with an effect, which is no concern of the judgment. -/
def effectfulRequest : LoweringInput :=
  { mistypedRequest with function := { mistypedRequest.function with effects := [.splat 9] } }

/-- What is lowered without a refused operation need not be judged, and what is judged need not be
lowered: the judgment refuses the restricted profile, and does not look at callees. An effect keeps
the lowering from the operations that the judgment looks at. -/
theorem judgment_restricted_and_calling :
    ¬ ((∃ judgment, judgeFunctionOperations restrictedRequest = .ok judgment) ↔
        ∀ id e, lowerAt (fun _ ↦ .splat 9) restrictedRequest ≠ .error (.operation id, e)) ∧
      judgeFunctionOperations callingRequest = .ok ⟨1, 5⟩ ∧
      (fun _ ↦ ()) <$> lowerFunction (fun _ ↦ .splat 9) callingRequest =
        .error (.lower .signatureMismatch) ∧
      judgeAt effectfulRequest = .error (.operation (.splat 4), .lower .signatureMismatch) ∧
      (fun _ ↦ ()) <$> lowerAt (fun _ ↦ .splat 9) effectfulRequest =
        .error (.profile, .lower .profileUnsupported) := by
  refine ⟨fun hiff ↦ ?_, by with_unfolding_all decide, by with_unfolding_all decide, by with_unfolding_all decide,
    by with_unfolding_all decide⟩
  have hlowers : (lowerAt (fun _ ↦ .splat 9) restrictedRequest).isOk = true := by
    decide +kernel
  obtain ⟨judgment, hjudgment⟩ := hiff.2 fun id e hlower ↦ by
    rw [hlower] at hlowers
    cases hlowers
  have hrefused : judgeFunctionOperations restrictedRequest =
      .error (.lower .profileUnsupported) := by
    decide
  rw [hrefused] at hjudgment
  cases hjudgment

end Sley.Vm.Lower
