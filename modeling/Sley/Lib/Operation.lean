import Mathlib

/-!
# Operations that may refuse

An operation on a mutable state returns a result or a failure, and **leaves a state in either
case**: what it wrote before it failed stays written. `Operation.Restores` says that a refusal
changes nothing, and it is proved from the shape of an operation: checks that only read come first
(`Restores.bind_of_reads`), and nothing after the first write can fail (`restores_of_succeeds`).

A run is a list of calls. It has a history, the calls with their results, and a state it ends in;
`invariant` is the induction over runs for an invariant that may speak of both.
-/

universe u v w

/-- An operation: its result, and the state it leaves behind. -/
def Operation (σ : Type u) (ε : Type v) (α : Type w) := σ → Except ε α × σ

namespace Operation

variable {σ : Type u} {ε : Type v} {α β : Type w} {s s' : σ}

instance : Monad (Operation σ ε) where
  pure a := fun s ↦ (.ok a, s)
  bind p q := fun s ↦
    match p s with
    | (.error e, s₁) => (.error e, s₁)
    | (.ok a, s₁) => q a s₁

instance : LawfulMonad (Operation σ ε) := by
  refine .mk' (Operation σ ε) (fun p ↦ funext fun s ↦ ?_) (fun _ _ ↦ rfl)
    fun p q r ↦ funext fun s ↦ ?_
  · simp only [Functor.map]
    rcases p s with ⟨e | a, s₁⟩ <;> rfl
  · simp only [bind]
    rcases p s with ⟨e | a, s₁⟩ <;> rfl

/-- What the state says, which may be a failure. -/
def ofState (f : σ → Except ε α) : Operation σ ε α := fun s ↦ (f s, s)

def ofExcept (x : Except ε α) : Operation σ ε α := fun s ↦ (x, s)

/-- The operation with what comes of it left unread. -/
def attempt (p : Operation σ ε α) : Operation σ ε PUnit := fun s ↦ (.ok ⟨⟩, (p s).2)

/-- The operation with its failures renamed. -/
def mapError {ε' : Type*} (f : ε → ε') (p : Operation σ ε α) : Operation σ ε' α :=
  fun s ↦ ((p s).1.mapError f, (p s).2)

/-- A change of the state. -/
def modify (f : σ → σ) : Operation σ ε PUnit := fun s ↦ (.ok ⟨⟩, f s)

variable {p : Operation σ ε α} {q : α → Operation σ ε β} {a : α} {b : β} {e : ε}

theorem bind_eq_ok :
    (p >>= q) s = (.ok b, s') ↔ ∃ a s₁, p s = (.ok a, s₁) ∧ q a s₁ = (.ok b, s') := by
  show (match p s with | (.error e, s₁) => _ | (.ok a, s₁) => _) = _ ↔ _
  rcases p s with ⟨e | a, s₁⟩ <;> simp

theorem bind_eq_error : (p >>= q) s = (.error e, s') ↔
      p s = (.error e, s') ∨ ∃ a s₁, p s = (.ok a, s₁) ∧ q a s₁ = (.error e, s') := by
  show (match p s with | (.error e, s₁) => _ | (.ok a, s₁) => _) = _ ↔ _
  rcases p s with ⟨e | a, s₁⟩ <;> simp

theorem bind_of_ok (h : p s = (.ok a, s')) : (p >>= q) s = q a s' := by
  show (match p s with | (.error e, s₁) => _ | (.ok a, s₁) => _) = _
  rw [h]

theorem bind_of_error (h : p s = (.error e, s')) : (p >>= q) s = (.error e, s') := by
  show (match p s with | (.error e, s₁) => _ | (.ok a, s₁) => _) = _
  rw [h]

theorem attempt_bind {q : PUnit → Operation σ ε β} : (p.attempt >>= q) s = q ⟨⟩ (p s).2 := rfl

/-- What comes of an operation does not bear on the state it leaves. -/
theorem snd_bind_pure : ((p >>= fun _ ↦ (pure b : Operation σ ε β)) s).2 = (p s).2 := by
  show (match p s with | (.error e, s₁) => _ | (.ok a, s₁) => _ : Except ε β × σ).2 = _
  rcases p s with ⟨e | a, s₁⟩ <;> rfl

@[simp]
theorem pure_eq : (pure a : Operation σ ε α) s = (.ok a, s) := rfl

theorem pure_eq_ok {c : α} : (pure a : Operation σ ε α) s = (.ok c, s') ↔ c = a ∧ s' = s := by
  rw [pure_eq, Prod.mk.injEq, Except.ok.injEq]
  exact and_congr eq_comm eq_comm

variable {f : σ → Except ε α}

@[simp]
theorem ofState_eq : ofState f s = (f s, s) := rfl

theorem ofState_eq_ok : ofState f s = (.ok a, s') ↔ f s = .ok a ∧ s' = s := by
  rw [ofState_eq, Prod.mk.injEq]
  exact and_congr_right fun _ ↦ eq_comm

variable {x : Except ε α}

@[simp]
theorem ofExcept_eq : (ofExcept x : Operation σ ε α) s = (x, s) := rfl

theorem ofExcept_eq_ok : (ofExcept x : Operation σ ε α) s = (.ok a, s') ↔ x = .ok a ∧ s' = s :=
  ofState_eq_ok (f := fun _ ↦ x)

theorem ofState_bind : (ofState f >>= q) s = match f s with
      | .error e => (.error e, s)
      | .ok a => q a s := by
  show (match (f s, s) with | (.error e, s₁) => _ | (.ok a, s₁) => _) = _
  cases f s <;> rfl

theorem ofExcept_bind : (ofExcept x >>= q) s = match x with
      | .error e => (.error e, s)
      | .ok a => q a s :=
  ofState_bind (f := fun _ ↦ x)

@[simp]
theorem modify_eq {f : σ → σ} : (modify f : Operation σ ε PUnit) s = (.ok ⟨⟩, f s) := rfl

theorem modify_eq_ok {f : σ → σ} {u : PUnit} :
    (modify f : Operation σ ε PUnit) s = (.ok u, s') ↔ s' = f s := by
  rw [modify_eq, Prod.mk.injEq]
  exact ⟨fun h ↦ h.2.symm, fun h ↦ ⟨rfl, h.symm⟩⟩

/-! ### Refusals that change nothing -/

/-- A refused operation leaves the state as it was. -/
def Restores (p : Operation σ ε α) : Prop := ∀ s e s', p s = (.error e, s') → s' = s

/-- The operation never changes the state. -/
def Reads (p : Operation σ ε α) : Prop := ∀ s, (p s).2 = s

/-- The operation never fails. -/
def Succeeds (p : Operation σ ε α) : Prop := ∀ s, ∃ a, (p s).1 = .ok a

theorem reads_ofState : (ofState f).Reads := fun _ ↦ rfl

theorem reads_ofExcept : (ofExcept x : Operation σ ε α).Reads := fun _ ↦ rfl

theorem succeeds_pure : (pure a : Operation σ ε α).Succeeds := fun _ ↦ ⟨a, rfl⟩

theorem Reads.restores (h : p.Reads) : p.Restores := by
  intro s e s' hs
  have := h s
  rwa [hs] at this

theorem restores_of_succeeds (h : p.Succeeds) : p.Restores := by
  intro s e s' hs
  obtain ⟨a, ha⟩ := h s
  rw [hs] at ha
  cases ha

theorem succeeds_modify_bind {f : σ → σ} {q : PUnit → Operation σ ε β}
    (h : ∀ u, (q u).Succeeds) : (modify f >>= q).Succeeds := fun s ↦ h ⟨⟩ (f s)

/-- **Checks come first**: what reads before it goes on restores if what follows does. -/
theorem Restores.bind_of_reads (hp : p.Reads) (hq : ∀ a, (q a).Restores) : (p >>= q).Restores := by
  intro s e s' hs
  rcases bind_eq_error.1 hs with hfirst | ⟨a, s₁, hfirst, hsecond⟩
  · exact hp.restores s e s' hfirst
  · have hread := hp s
    rw [hfirst] at hread
    rw [← show s₁ = s from hread]
    exact hq a s₁ e s' hsecond

/-! ### What an operation preserves -/

/-- What holds before the operation holds after it, whatever comes of it. -/
def Preserves (I : σ → Prop) (p : Operation σ ε α) : Prop := ∀ s, I s → I (p s).2

section Preserves

variable {I : σ → Prop}

theorem Reads.preserves (h : p.Reads) : p.Preserves I := by
  intro s hs
  rwa [h s]

theorem preserves_pure : (pure a : Operation σ ε α).Preserves I := fun _ hs ↦ hs

theorem preserves_ofExcept {x : Except ε α} : (ofExcept x : Operation σ ε α).Preserves I :=
  fun _ hs ↦ hs

theorem Preserves.bind (hp : p.Preserves I) (hq : ∀ a, (q a).Preserves I) :
    (p >>= q).Preserves I := by
  intro s hs
  have hfirst := hp s hs
  rcases hcase : p s with ⟨e | a, s₁⟩
  · rw [bind_of_error hcase]
    rwa [hcase] at hfirst
  · rw [bind_of_ok hcase]
    rw [hcase] at hfirst
    exact hq a s₁ hfirst

theorem Preserves.attempt (hp : p.Preserves I) : p.attempt.Preserves I := hp

theorem Preserves.mapError {ε' : Type*} {f : ε → ε'} (hp : p.Preserves I) :
    (p.mapError f).Preserves I := hp

/-- What follows may rely on what the state says. -/
theorem Preserves.ofState_bind {f : σ → Except ε α}
    (hq : ∀ s a, I s → f s = .ok a → I (q a s).2) : (ofState f >>= q).Preserves I := by
  intro s hs
  rw [Operation.ofState_bind]
  cases hcase : f s with
  | error e => exact hs
  | ok a => exact hq s a hs hcase

/-- What follows may rely on the check. -/
theorem Preserves.ofExcept_bind {x : Except ε α} (hq : ∀ a, x = .ok a → (q a).Preserves I) :
    (ofExcept x >>= q).Preserves I :=
  Preserves.ofState_bind fun s a hs hx ↦ hq a hx s hs

theorem preserves_foldlM {γ : Type*} {step : α → γ → Operation σ ε α} {xs : List γ}
    (h : ∀ a x, (step a x).Preserves I) : (xs.foldlM step a).Preserves I := by
  induction xs generalizing a with
  | nil => exact preserves_pure
  | cons x xs ih =>
    rw [List.foldlM_cons]
    exact (h a x).bind fun _ ↦ ih

end Preserves

/-! ### Runs -/

section Runs

variable {ι : Type*} {call : ι → Operation σ ε α} {calls calls' : List ι}

/-- The calls of a run with what came of each. -/
def history (call : ι → Operation σ ε α) : List ι → σ → List (ι × Except ε α)
  | [], _ => []
  | i :: calls, s => (i, (call i s).1) :: history call calls (call i s).2

/-- The state a run ends in. -/
def after (call : ι → Operation σ ε α) : List ι → σ → σ
  | [], s => s
  | i :: calls, s => after call calls (call i s).2

/-- Every call of a run is made in a state that admits it. -/
def Admitted (admits : σ → ι → Prop) (call : ι → Operation σ ε α) : List ι → σ → Prop
  | [], _ => True
  | i :: calls, s => admits s i ∧ Admitted admits call calls (call i s).2

theorem after_append : after call (calls ++ calls') s = after call calls' (after call calls s) := by
  induction calls generalizing s with
  | nil => rfl
  | cons i calls ih => exact ih

theorem history_append : history call (calls ++ calls') s =
    history call calls s ++ history call calls' (after call calls s) := by
  induction calls generalizing s with
  | nil => rfl
  | cons i calls ih => exact congrArg (_ :: ·) ih

variable {admits : σ → ι → Prop}

theorem admitted_append : Admitted admits call (calls ++ calls') s ↔
      Admitted admits call calls s ∧ Admitted admits call calls' (after call calls s) := by
  induction calls generalizing s with
  | nil => simp [Admitted, after]
  | cons i calls ih =>
    show _ ∧ Admitted admits call (calls ++ calls') _ ↔ (_ ∧ _) ∧ _
    rw [ih, and_assoc]
    rfl

/-- A condition on the calls alone holds wherever they are made. -/
theorem admitted_of_forall {P : ι → Prop} (h : ∀ i ∈ calls, P i) :
    Admitted (fun _ ↦ P) call calls s := by
  induction calls generalizing s with
  | nil => trivial
  | cons i calls ih =>
    obtain ⟨hi, hcalls⟩ := List.forall_mem_cons.1 h
    exact ⟨hi, ih hcalls⟩

/-- **The invariant rule for runs.** What holds at the start with an empty history, and is kept by
every admitted call, holds at the end with the history of the run. -/
theorem invariant_of_admitted {I : List (ι × Except ε α) → σ → Prop}
    (hadmitted : Admitted admits call calls s) (hstart : I [] s)
    (hcall : ∀ past s i, I past s → admits s i → I (past ++ [(i, (call i s).1)]) (call i s).2) :
    I (history call calls s) (after call calls s) := by
  induction calls using List.reverseRecOn with
  | nil => exact hstart
  | append_singleton calls i ih =>
    obtain ⟨hbefore, hlast, -⟩ := admitted_append.1 hadmitted
    rw [history_append, after_append]
    exact hcall _ _ i (ih hbefore) hlast

theorem after_of_preserves {I : σ → Prop} (hcall : ∀ i, (call i).Preserves I) (hs : I s) :
    I (after call calls s) := by
  induction calls generalizing s with
  | nil => exact hs
  | cons i calls ih => exact ih (hcall i s hs)

/-- **What a call that is not admitted leaves behind for good.** -/
theorem after_of_not_admitted {B : σ → Prop}
    (hbad : ∀ s i, ¬ admits s i → B (call i s).2) (hcall : ∀ i, (call i).Preserves B)
    (h : ¬ Admitted admits call calls s) : B (after call calls s) := by
  induction calls generalizing s with
  | nil => exact absurd trivial h
  | cons i calls ih =>
    show B (after call calls (call i s).2)
    rcases not_and_or.1 h with hadmits | hcalls
    · exact after_of_preserves hcall (hbad s i hadmits)
    · exact ih hcalls

end Runs

end Operation
