import Sley.Lib.Failures
import Sley.Repo.Gc

/-!
# Collections that fail

A collection that fails says what it has deleted, in the report that its error carries. The unlink
of a candidate and the sync after it attach the report; the check before them, which reads the
candidate again and looks at its file, does not. **A failed collection is accounted for unless the
host fails that check after a candidate was deleted.**
-/

namespace Sley.Repo

open Scb1 Ssmc Mutate Root Policy Txn
open Except hiding ok error
open Except.Avoids (foldlM_of_forall forM)
open Operation (ofExcept_bind ofState_bind)
open Id (splat)

/-- What a failed collection says of the store it leaves: without a report nothing was deleted, and
with one what is gone of the plan's candidates is listed, or is the object that failed. -/
def Accounted (store store' : ObjectStore) (e : GcError) : Prop :=
  match e.partialReport with
  | none => store' = store
  | some report =>
    (∀ objectId ∈ report.deletedObjects, objectId ∉ store'.objects) ∧
      ∀ objectId ∈ report.deletionCandidates, objectId ∉ store'.objects →
        objectId ∈ report.deletedObjects ∨ report.failedObject = some objectId

namespace GcHost

variable (host : GcHost) (objectId : ObjectId)

/-- The host fails the check of a candidate before it is unlinked. -/
def refuses : Bool :=
  (host.readFault objectId).isSome || host.failsStat objectId || host.notFile objectId

/-- The host stops the run at a candidate. -/
def stops : Bool := host.refuses objectId || host.failsRemove objectId || host.failsSync objectId

end GcHost

/-- The store without the objects that were deleted. -/
def ObjectStore.without (store : ObjectStore) (deleted : List ObjectId) : ObjectStore :=
  { store with objects := deleted.foldl (fun objects objectId ↦ objects.erase objectId) store.objects }

section

variable [Blake3] {store store' : ObjectStore} {verifier : GcObjectVerifier} {host : GcHost}
  {report : GcReport} {objectId : ObjectId} {candidates before after : List ObjectId} {e : GcError}

omit [Blake3] in
theorem ObjectStore.lookup_without {deleted : List ObjectId} :
    (store.without deleted).objects[objectId]? =
      if objectId ∈ deleted then none else store.objects[objectId]? := by
  induction deleted generalizing store with
  | nil => simp [ObjectStore.without]
  | cons first deleted ih =>
    have hrest := @ih { store with objects := store.objects.erase first }
    rw [OrderedMap.getElem?_erase] at hrest
    refine hrest.trans ?_
    by_cases hfirst : objectId = first <;> simp [hfirst]

omit [Blake3] in
theorem ObjectStore.mem_without {deleted : List ObjectId} :
    objectId ∈ (store.without deleted).objects ↔ objectId ∉ deleted ∧ objectId ∈ store.objects := by
  rw [OrderedMap.mem_iff_exists, OrderedMap.mem_iff_exists, lookup_without]
  by_cases h : objectId ∈ deleted <;> simp [h]

/-! ### One candidate -/

theorem reread_of_none (h : host.readFault objectId = none) :
    reread host verifier objectId store = store.read objectId verifier := by
  rw [reread, h]

/-- A candidate that the host does not stop at is deleted. -/
theorem deleteCandidates_cons_of_passes (hpass : host.stops objectId = false)
    (hreach : objectId ∉ report.reachableObjects) {record : Bytes}
    (hread : store.read objectId verifier = .ok record) :
    deleteCandidates host verifier (objectId :: candidates) report store =
      deleteCandidates host verifier candidates
        { report with deletedObjects := report.deletedObjects ++ [objectId] }
        (store.without [objectId]) := by
  simp only [GcHost.stops, GcHost.refuses, Bool.or_eq_false_iff, Option.isSome_eq_false_iff,
    Option.isNone_iff_eq_none] at hpass
  obtain ⟨⟨⟨⟨hfault, hstat⟩, hfile⟩, hremove⟩, hsync⟩ := hpass
  rw [deleteCandidates, ofExcept_bind, rejectIf_neg hreach]
  simp only [ofState_bind, reread_of_none hfault, hread, Except.mapError, ofExcept_bind, hstat,
    hfile, hremove, hsync, Bool.false_eq_true, rejectIf_neg not_false, removeFile]
  rfl

theorem deleteCandidates_cons_of_readFault {code : StoreErrorCode}
    (hfault : host.readFault objectId = some code) (hreach : objectId ∉ report.reachableObjects) :
    deleteCandidates host verifier (objectId :: candidates) report store =
      (.error (mapStoreError code), store) := by
  rw [deleteCandidates, ofExcept_bind, rejectIf_neg hreach]
  simp only [ofState_bind, reread, hfault, Except.mapError]

/-- A check that the host fails ends the run without a report. -/
theorem deleteCandidates_cons_of_refuses (hrefuses : host.refuses objectId = true)
    (hreach : objectId ∉ report.reachableObjects) {record : Bytes}
    (hread : store.read objectId verifier = .ok record) :
    ∃ e, deleteCandidates host verifier (objectId :: candidates) report store = (.error e, store) ∧
      e.partialReport = none := by
  cases hfault : host.readFault objectId with
  | some code =>
    exact ⟨mapStoreError code, deleteCandidates_cons_of_readFault hfault hreach,
      by cases code <;> rfl⟩
  | none =>
    rw [deleteCandidates, ofExcept_bind, rejectIf_neg hreach]
    simp only [ofState_bind, reread_of_none hfault, hread, Except.mapError, ofExcept_bind]
    cases hstat : host.failsStat objectId with
    | true => exact ⟨.gc .deleteIo, rfl, rfl⟩
    | false =>
      have hfile : host.notFile objectId = true := by
        simpa [GcHost.refuses, hfault, hstat] using hrefuses
      simp only [hfile, Bool.false_eq_true, rejectIf_neg not_false, rejectIf_pos]
      exact ⟨.gc .inventoryInvalid, rfl, rfl⟩

/-- An unlink or a sync that the host fails ends the run with a report. -/
theorem deleteCandidates_cons_of_stops (hstops : host.stops objectId = true)
    (hpass : host.refuses objectId = false) (hreach : objectId ∉ report.reachableObjects)
    {record : Bytes} (hread : store.read objectId verifier = .ok record) :
    ∃ store', deleteCandidates host verifier (objectId :: candidates) report store =
        (.error (partialDelete report objectId), store') ∧
      (store' = store ∨ store' = store.without [objectId]) := by
  simp only [GcHost.refuses, Bool.or_eq_false_iff, Option.isSome_eq_false_iff,
    Option.isNone_iff_eq_none] at hpass
  obtain ⟨⟨hfault, hstat⟩, hfile⟩ := hpass
  rw [deleteCandidates, ofExcept_bind, rejectIf_neg hreach]
  simp only [ofState_bind, reread_of_none hfault, hread, Except.mapError,
    ofExcept_bind, hstat, hfile, Bool.false_eq_true, rejectIf_neg not_false]
  cases hremove : host.failsRemove objectId with
  | true =>
    simp only [rejectIf_pos]
    exact ⟨store, rfl, .inl rfl⟩
  | false =>
    have hsync : host.failsSync objectId = true := by
      simpa [GcHost.stops, GcHost.refuses, hfault, hstat, hfile, hremove] using hstops
    simp only [Bool.false_eq_true, rejectIf_neg not_false, removeFile, hsync, rejectIf_pos]
    exact ⟨store.without [objectId], rfl, .inr rfl⟩

/-! ### The run -/

/-- What comes before the first candidate that the host stops at is deleted. -/
theorem deleteCandidates_append (hpass : ∀ objectId ∈ before, host.stops objectId = false)
    (hreach : ∀ objectId ∈ before, objectId ∉ report.reachableObjects) (hnodup : before.Nodup)
    (hread : ∀ objectId ∈ before, ∃ record, store.read objectId verifier = .ok record) :
    deleteCandidates host verifier (before ++ after) report store =
      deleteCandidates host verifier after
        { report with deletedObjects := report.deletedObjects ++ before }
        (store.without before) := by
  induction before generalizing report store with
  | nil =>
    simp only [List.append_nil]
    rfl
  | cons first before ih =>
    obtain ⟨hfirst, hpass⟩ := List.forall_mem_cons.1 hpass
    obtain ⟨hfirstReach, hreach⟩ := List.forall_mem_cons.1 hreach
    obtain ⟨⟨record, hrecord⟩, hread⟩ := List.forall_mem_cons.1 hread
    obtain ⟨hnew, hnodup⟩ := List.nodup_cons.1 hnodup
    have hreach' : ∀ objectId ∈ before, objectId ∉
        { report with deletedObjects := report.deletedObjects ++ [first] }.reachableObjects := hreach
    rw [List.cons_append, deleteCandidates_cons_of_passes hfirst hfirstReach hrecord,
      ih hpass hreach' hnodup fun objectId hmem ↦ ?_]
    · simp only [List.append_assoc]
      rfl
    · obtain ⟨record', hrecord'⟩ := hread objectId hmem
      refine ⟨record', ?_⟩
      refine (ObjectStore.read_congr ?_).trans hrecord'
      rw [ObjectStore.lookup_without, if_neg]
      rw [List.mem_singleton]
      rintro rfl
      exact hnew hmem

end

/-! ### The plan -/

/-- A list either passes as a whole or has a first element that does not. -/
theorem exists_first {α : Type} (p : α → Bool) (xs : List α) :
    (∀ x ∈ xs, p x = false) ∨ ∃ before x after, xs = before ++ x :: after ∧
      (∀ y ∈ before, p y = false) ∧ p x = true := by
  cases hfind : xs.find? p with
  | none => exact .inl fun x hx ↦ by simpa using List.find?_eq_none.1 hfind x hx
  | some x =>
    obtain ⟨hx, before, after, hxs, hbefore⟩ := List.find?_eq_some_iff_append.1 hfind
    exact .inr ⟨before, x, after, hxs, fun y hy ↦ by simpa using hbefore y hy, hx⟩

/-- The errors that carry a report. -/
def withReport : Set GcError := {e | e.partialReport ≠ none}

theorem gc_notMem_withReport (code : GcErrorCode) : GcError.gc code ∉ withReport := fun h ↦ h rfl

theorem upstream_notMem_withReport (symbol : GcSymbol) : GcError.upstream symbol ∉ withReport :=
  fun h ↦ h rfl

theorem mapStoreError_notMem_withReport (code : StoreErrorCode) :
    mapStoreError code ∉ withReport := by
  cases code <;> exact fun h ↦ h rfl

theorem avoids_withReport_of_gc {c : Prop} [Decidable c] {code : GcErrorCode} :
    (Except.rejectIf c (GcError.gc code)).Avoids withReport :=
  avoids_rejectIf fun h ↦ absurd h (gc_notMem_withReport code)

section

variable [Blake3] [ConformanceRegistry] {store store' : ObjectStore} {snapshot : RetentionSnapshot}
  {verifier : GcObjectVerifier} {host : GcHost} {guard : ExclusiveGcGuard} {report : GcReport}
  {e : GcError}

/-- A plan fails without a report. -/
theorem planGc_avoids : (planGc store snapshot verifier).Avoids withReport := by
  have hbytes : ∀ entries, (totalBytes entries).Avoids withReport := fun entries ↦
    .foldlM_of_forall (fun _ _ _ ↦ avoids_withReport_of_gc.bind fun _ _ ↦ avoids_pure _) _
  have hread : ∀ objectId, ((store.read objectId verifier).mapError mapStoreError).Avoids
      withReport := fun _ ↦ avoids_mapError mapStoreError_notMem_withReport
  have hdependency : ∀ roots edgeCount dependency,
      (countDependency roots edgeCount dependency).Avoids withReport := fun _ _ _ ↦
    avoids_withReport_of_gc.bind fun _ _ ↦ avoids_withReport_of_gc.bind fun _ _ ↦
      avoids_pure _
  refine (avoids_withReport_of_gc.bind fun _ _ ↦ avoids_pure _).bind fun entries _ ↦
    (hbytes _).bind fun _ _ ↦ (?_ : (validateRoots snapshot).Avoids withReport).bind fun roots _ ↦
      (?_ : (resolveReachability store snapshot verifier roots _).Avoids withReport).bind
        fun reachability _ ↦ ?_
  · refine (avoids_mapError fun _ ↦ upstream_notMem_withReport _).bind fun registry _ ↦
      (foldlM_of_forall (fun roots candidate _ ↦ ?_) _).bind fun roots _ ↦
        (foldlM_of_forall (fun _ _ _ ↦ ?_) _).bind fun _ _ ↦ avoids_pure _
    · exact (avoids_mapError fun _ ↦ upstream_notMem_withReport _).bind fun _ _ ↦
        avoids_withReport_of_gc.bind fun _ _ ↦ avoids_withReport_of_gc.bind fun _ _ ↦
          avoids_pure _
    · exact hdependency _ _ _
  · refine (?_ : (seedAnchorTargets snapshot roots _).Avoids withReport).bind fun _ _ ↦
      (?_ : (traverseRoots _ _ roots).Avoids withReport).bind fun _ _ ↦
        (?_ : (traverseObjects store verifier _ _).Avoids withReport).bind fun _ _ ↦
          avoids_pure _
    · refine (foldlM_of_forall (fun queues target _ ↦ ?_) _).bind fun _ _ ↦
        avoids_pure _
      cases target with
      | stateRoot root =>
        rw [seedTarget]
        split
        · exact avoids_ok _
        · exact Except.avoids_error_iff.2 (gc_notMem_withReport _)
      | object objectId =>
        rw [seedTarget]
        split
        · exact avoids_ok _
        · exact Except.avoids_error_iff.2 (gc_notMem_withReport _)
    · refine (VisitGraph.explore_avoids (gc_notMem_withReport _) (fun root state ↦ ?_) _ _ _).bind
        fun _ _ ↦ avoids_pure _
      exact (avoids_ofOption fun h ↦ absurd h (gc_notMem_withReport _)).bind fun _ _ ↦
        (foldlM_of_forall (fun _ _ _ ↦ hdependency _ _ _) _).bind fun _ _ ↦
          avoids_pure _
    · refine (VisitGraph.explore_avoids (gc_notMem_withReport _) (fun objectId edgeCount ↦ ?_) _ _ _).bind
        fun _ _ ↦ avoids_pure _
      exact (hread _).bind fun _ _ ↦ (avoids_mapError fun _ ↦ gc_notMem_withReport _).bind
        fun _ _ ↦ avoids_withReport_of_gc.bind fun _ _ ↦ avoids_withReport_of_gc.bind fun _ _ ↦
          avoids_pure _
  · refine (forM fun entry _ ↦ ?_).bind fun _ _ ↦ (hbytes _).bind fun _ _ ↦
      avoids_withReport_of_gc.bind fun _ _ ↦ avoids_withReport_of_gc.bind fun _ _ ↦
        avoids_pure _
    split
    · exact (hread _).bind fun _ _ ↦ avoids_pure _
    · exact avoids_pure _

/-- The candidates of a plan are distinct, could be read and are not reachable. -/
theorem planGc_candidates (h : planGc store snapshot verifier = .ok report) :
    report.deletionCandidates.Nodup ∧ report.deletedObjects = [] ∧ ∀ o ∈ report.deletionCandidates,
      o ∉ report.reachableObjects ∧ o ∈ store.objects ∧
        ∃ record, store.read o verifier = .ok record := by
  obtain ⟨-, -, hinventory, hcandidates, hnone⟩ := planGc_marks h
  simp only [planGc, bind_eq_ok, rejectIf_eq_ok, pure_eq_ok] at h
  obtain ⟨entries, hentries, _, -, roots, hroots, reachability, hreach, _, hreads, _, -, _, -, _, -,
    rfl⟩ := h
  refine ⟨List.Nodup.filter _ ?_, hnone, fun o ho ↦ ?_⟩
  · exact Std.ExtTreeSet.ordered_toList.imp fun hlt heq ↦ by simp [heq] at hlt
  · obtain ⟨hmem, hunreached⟩ := List.mem_filter.1 ho
    have hunreached' : o ∉ reachability.reachableObjects := of_decide_eq_true hunreached
    have hstored : o ∈ store.objects :=
      (mem_inventoryIds_iff hentries).1 (Std.ExtTreeSet.mem_toList.1 hmem)
    refine ⟨fun hreached ↦ hunreached' (Std.ExtTreeSet.mem_toList.1 hreached), hstored, ?_⟩
    obtain ⟨entry, hentry, rfl⟩ : ∃ entry ∈ entries, entry.objectId = o := by
      rw [Std.ExtTreeSet.mem_toList, inventoryIds, Std.ExtTreeSet.mem_ofList,
        List.contains_iff_mem, List.mem_map] at hmem
      exact hmem
    have hread := Except.forM_eq_ok.1 hreads entry hentry
    rw [if_pos hunreached'] at hread
    obtain ⟨record, hrecord, -⟩ := Except.bind_eq_ok.1 hread
    exact ⟨record, Except.mapError_eq_ok.1 hrecord⟩

/-! ### What is accounted for -/

/-- No candidate behind another is the first that the host stops at, by failing its check. -/
def TimelyRefusals (host : GcHost) (candidates : List ObjectId) : Prop :=
  ∀ before objectId after, candidates = before ++ objectId :: after → before ≠ [] →
    (∀ earlier ∈ before, host.stops earlier = false) → host.refuses objectId = false

/-- The run of a plan, whose errors are accounted for when the refusals are timely. -/
theorem deleteCandidates_accounted_iff (hplan : planGc store snapshot verifier = .ok report) :
    (∀ e store', deleteCandidates host verifier report.deletionCandidates report store =
      (.error e, store') → Accounted store store' e) ↔
        TimelyRefusals host report.deletionCandidates := by
  obtain ⟨hnodup, hnone, hcandidates⟩ := planGc_candidates hplan
  have hrun : ∀ before o after, report.deletionCandidates = before ++ o :: after →
      (∀ earlier ∈ before, host.stops earlier = false) →
      deleteCandidates host verifier report.deletionCandidates report store =
        deleteCandidates host verifier (o :: after)
          { report with deletedObjects := before } (store.without before) ∧
        ∃ record, (store.without before).read o verifier = .ok record := by
    intro before o after hsplit hpass
    have hall : ∀ earlier ∈ before, earlier ∈ report.deletionCandidates := fun earlier hearlier ↦
      hsplit ▸ List.mem_append_left _ hearlier
    have ho : o ∈ report.deletionCandidates := by simp [hsplit]
    have hdistinct := hsplit ▸ hnodup
    refine ⟨?_, ?_⟩
    · have happend : deleteCandidates host verifier (before ++ o :: after) report store = _ :=
        deleteCandidates_append hpass
          (fun earlier hearlier ↦ (hcandidates earlier (hall earlier hearlier)).1)
          hdistinct.of_append_left
          fun earlier hearlier ↦ (hcandidates earlier (hall earlier hearlier)).2.2
      rw [hnone, List.nil_append, ← hsplit] at happend
      exact happend
    · obtain ⟨record, hrecord⟩ := (hcandidates o ho).2.2
      refine ⟨record, ?_⟩
      rw [ObjectStore.read_congr, hrecord]
      rw [ObjectStore.lookup_without, if_neg]
      exact fun hmem ↦ (List.nodup_append.1 hdistinct).2.2 o hmem o List.mem_cons_self rfl
  constructor
  · intro haccounted before o after hsplit hbefore hpass
    by_contra hrefuses
    obtain ⟨heq, record, hrecord⟩ := hrun before o after hsplit hpass
    have ho : o ∈ report.deletionCandidates := by simp [hsplit]
    obtain ⟨e, herror, hreport⟩ : ∃ e, deleteCandidates host verifier (o :: after)
        { report with deletedObjects := before } (store.without before) =
          (.error e, store.without before) ∧ e.partialReport = none :=
      deleteCandidates_cons_of_refuses (by simpa using hrefuses) (hcandidates o ho).1 hrecord
    have hsame := haccounted e _ (heq.trans herror)
    rw [Accounted, hreport] at hsame
    -- the first candidate is gone
    obtain ⟨first, rest, rfl⟩ := List.exists_cons_of_ne_nil hbefore
    have hstored : first ∈ store.objects := (hcandidates first (by simp [hsplit])).2.1
    exact (ObjectStore.mem_without.1 (hsame ▸ hstored)).1 List.mem_cons_self
  · intro htimely e store' herror
    obtain hpass | ⟨before, o, after, hsplit, hpass, hstops⟩ :=
      exists_first host.stops report.deletionCandidates
    · have hok : deleteCandidates host verifier (report.deletionCandidates ++ []) report store = _ :=
        deleteCandidates_append hpass (fun o ho ↦ (hcandidates o ho).1) hnodup
          fun o ho ↦ (hcandidates o ho).2.2
      rw [List.append_nil, herror, deleteCandidates] at hok
      cases hok
    obtain ⟨heq, record, hrecord⟩ := hrun before o after hsplit hpass
    have ho : o ∈ report.deletionCandidates := by simp [hsplit]
    have hreach := (hcandidates o ho).1
    rw [heq] at herror
    cases hrefuses : host.refuses o with
    | true =>
      -- only the first candidate is refused
      obtain rfl : before = [] := by
        by_contra hbefore
        rw [htimely before o after hsplit hbefore hpass] at hrefuses
        cases hrefuses
      obtain ⟨e', herror', hreport⟩ : ∃ e', deleteCandidates host verifier (o :: after)
          { report with deletedObjects := [] } (store.without []) =
            (.error e', store.without []) ∧ e'.partialReport = none :=
        deleteCandidates_cons_of_refuses hrefuses hreach hrecord
      obtain ⟨he, hstore⟩ := Prod.mk.inj (herror'.symm.trans herror)
      obtain rfl := Except.error.inj he
      rw [Accounted, hreport]
      exact hstore.symm
    | false =>
      obtain ⟨store₁, herror₁, hstore₁⟩ : ∃ store₁, deleteCandidates host verifier (o :: after)
          { report with deletedObjects := before } (store.without before) =
            (.error (partialDelete { report with deletedObjects := before } o), store₁) ∧
          (store₁ = store.without before ∨ store₁ = (store.without before).without [o]) :=
        deleteCandidates_cons_of_stops hstops hrefuses hreach hrecord
      obtain ⟨he, rfl⟩ := Prod.mk.inj (herror₁.symm.trans herror)
      obtain rfl := Except.error.inj he
      have hgone : ∀ o', o' ∈ store₁.objects → o' ∉ before ∧ o' ∈ store.objects := fun o' ho' ↦ by
        obtain rfl | rfl := hstore₁
        · exact ObjectStore.mem_without.1 ho'
        · exact ObjectStore.mem_without.1 (ObjectStore.mem_without.1 ho').2
      have hkept : ∀ o', o' ∉ before → o' ≠ o → o' ∈ store.objects → o' ∈ store₁.objects :=
        fun o' hbefore hne hstored ↦ by
          have hwithout := ObjectStore.mem_without.2 ⟨hbefore, hstored⟩
          obtain rfl | rfl := hstore₁
          · exact hwithout
          · exact ObjectStore.mem_without.2 ⟨fun hmem ↦ hne (List.mem_singleton.1 hmem), hwithout⟩
      refine ⟨fun o' ho' hmem ↦ (hgone o' hmem).1 ho', fun o' ho' hmem ↦ ?_⟩
      by_contra hlisted
      obtain ⟨hbefore, hne⟩ := not_or.1 hlisted
      exact hmem (hkept o' hbefore (fun heq ↦ hne (congrArg some heq.symm)) (hcandidates o' ho').2.1)

/-- **A failed collection is accounted for exactly when no check of a candidate is the first thing to
fail after a candidate was deleted.** -/
theorem gcCollect_accounted_iff :
    (∀ e store', gcCollect host guard snapshot verifier store = (.error e, store') →
      Accounted store store' e) ↔
    ∀ report, requireGuard guard = .ok () → planGc store snapshot verifier = .ok report →
      host.failsLeafSync = false → TimelyRefusals host report.deletionCandidates := by
  have hnone : ∀ {e : GcError}, e ∉ withReport → Accounted store store e := fun {e} he ↦ by
    rw [Accounted, not_not.1 he]
  have hguard : (requireGuard guard).Avoids withReport :=
    avoids_withReport_of_gc.bind fun _ _ ↦ avoids_withReport_of_gc.bind fun _ _ ↦
      avoids_withReport_of_gc
  have hplan : (planGc store snapshot verifier).Avoids withReport := planGc_avoids
  rw [gcCollect, Operation.ofExcept_bind]
  cases hactive : requireGuard guard with
  | error code =>
    refine iff_of_true (fun e store' herror ↦ ?_) fun report hok ↦ by cases hok
    cases herror
    exact hnone (hguard code hactive)
  | ok =>
    cases hplanned : planGc store snapshot verifier with
    | error code =>
      refine iff_of_true (fun e store' herror ↦ ?_) fun report _ hok ↦ by cases hok
      simp only [Operation.ofState_bind, hplanned] at herror
      cases herror
      exact hnone (hplan code hplanned)
    | ok report =>
      simp only [Operation.ofState_bind, hplanned, Operation.ofExcept_bind]
      cases hsync : host.failsLeafSync with
      | true =>
        refine iff_of_true (fun e store' herror ↦ ?_) fun _ _ _ hok ↦ by cases hok
        cases herror
        exact hnone (gc_notMem_withReport _)
      | false =>
        have hunreached : ¬ ∃ o ∈ report.deletionCandidates, o ∈ report.reachableObjects := by
          rintro ⟨o, ho, hreached⟩
          exact ((planGc_candidates hplanned).2.2 o ho).1 hreached
        simp only [deletePlannedCandidates, Operation.ofExcept_bind, Bool.false_eq_true,
          Except.rejectIf_neg not_false, Except.rejectIf_neg hunreached]
        rw [deleteCandidates_accounted_iff hplanned]
        exact ⟨fun h report' _ heq _ ↦ Except.ok.inj heq ▸ h, fun h ↦ h report trivial rfl trivial⟩

end

/-! ### A candidate that cannot be read again -/

theorem ascends_noRoots : Ascends AcceptedStateRoot.root [] := List.Pairwise.nil

/-- Nothing is retained. -/
def unanchoredSnapshot : RetentionSnapshot where
  anchors := []
  roots := []
  anchors_ascend := List.Pairwise.nil
  roots_ascend := ascends_noRoots

def unanchoredReport : GcReport where
  examinedAnchors := []
  retainedRoots := []
  reachableObjects := []
  inventoryObjects := [splat 1, splat 2, splat 3]
  deletionCandidates := [splat 1, splat 2, splat 3]
  inventoryBytes := 99
  candidateBytes := 99
  decision := .dryRun
  deletedObjects := []
  failedObject := none

/-- A host that does not read the second object again. -/
def unreadableHost : GcHost where
  failsLeafSync := false
  readFault objectId := if objectId = splat 2 then some .storeIo else none
  failsStat _ := false
  notFile _ := false
  failsRemove _ := false
  failsSync _ := false

theorem planGc_unanchored : letI := lastByteBlake3
    letI := foundingRegistry
    planGc cyclicStore unanchoredSnapshot cyclicVerifier = .ok unanchoredReport := by
  let _ := lastByteBlake3
  let _ := foundingRegistry
  have hobjects : traverseObjects cyclicStore cyclicVerifier
      (.ofList [splat 1, splat 2, splat 3]) [] = .ok ∅ :=
    traverseObjects_eq_ok.2 ⟨0, VisitGraph.explore_nil⟩
  have hroots : traverseRoots [] [] ∅ = .ok (∅, []) := by
    rw [traverseRoots, VisitGraph.explore_nil]
    rfl
  have hreach : resolveReachability cyclicStore unanchoredSnapshot cyclicVerifier ∅
      (.ofList [splat 1, splat 2, splat 3]) = .ok ⟨[], ∅, ∅⟩ :=
    resolveReachability_eq_ok.2 ⟨fun _ h ↦ absurd h List.not_mem_nil, rfl, _, hroots, hobjects⟩
  have hinventory : inventory cyclicStore = .ok [⟨splat 1, 33⟩, ⟨splat 2, 33⟩, ⟨splat 3, 33⟩] :=
    inventory_eq_ok.2 ⟨by decide, by decide⟩
  simp only [planGc, bind_eq_ok, rejectIf_eq_ok, pure_eq_ok, checkAllocation]
  refine ⟨_, hinventory, 99, rfl, ∅, rfl, _, hreach, ⟨⟩, ?_, 99, ?_, ⟨⟩, ?_, ⟨⟩, ?_, ?_⟩
  · decide
  · decide
  · decide
  · decide
  · decide

/-- The first object is gone, and the error has no report. -/
theorem not_gcCollect_accounted :
    letI := lastByteBlake3
    letI := foundingRegistry
    gcCollect unreadableHost ⟨true, true, some gcLockBytes⟩ unanchoredSnapshot cyclicVerifier
        cyclicStore =
          (.error (.upstream (.store .storeIo)), cyclicStore.without [Id.splat 1]) ∧
      Id.splat 1 ∈ cyclicStore.objects ∧
      ¬ Accounted cyclicStore (cyclicStore.without [Id.splat 1])
        (.upstream (.store .storeIo)) := by
  let _ := lastByteBlake3
  let _ := foundingRegistry
  have hstored : Id.splat 1 ∈ cyclicStore.objects := by decide
  have hread : cyclicStore.read (Id.splat 1) cyclicVerifier = .ok (byteObject 1) := by
    decide
  have hfault : unreadableHost.readFault (Id.splat 2) = some .storeIo := by decide
  have hguard : requireGuard ⟨true, true, some gcLockBytes⟩ = .ok () := by decide
  have hdisjoint : ¬ ∃ o ∈ unanchoredReport.deletionCandidates,
      o ∈ unanchoredReport.reachableObjects := by
    rintro ⟨o, -, ho⟩
    cases ho
  refine ⟨?_, hstored, fun h ↦ ?_⟩
  · rw [gcCollect, Operation.ofExcept_bind, hguard]
    simp only [Operation.ofState_bind, planGc_unanchored, Operation.ofExcept_bind,
      show unreadableHost.failsLeafSync = false from rfl, Bool.false_eq_true,
      Except.rejectIf_neg not_false, deletePlannedCandidates, Except.rejectIf_neg hdisjoint]
    exact (deleteCandidates_cons_of_passes (by decide) List.not_mem_nil hread).trans
      (deleteCandidates_cons_of_readFault hfault List.not_mem_nil)
  · have hsame : cyclicStore.without [Id.splat 1] = cyclicStore := h
    exact (ObjectStore.mem_without.1 (hsame ▸ hstored)).1 List.mem_cons_self

end Sley.Repo
