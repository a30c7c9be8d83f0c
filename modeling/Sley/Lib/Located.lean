import Sley.Lib.Outcome

/-!
# Where a computation stops

A computation whose errors carry the place that they come from. `locate` puts a place on the error
of one part of a program, and `forget` takes the places off again. Forgetting goes through
sequences and loops, so **a program with places is the program without them, part by part**, and
what is shown of the places is shown of a program that knows none.
-/

universe u v w

variable {ε σ : Type u} {α β : Type v}

namespace Except

/-- The error of the computation comes from this place. -/
def locate (place : σ) (x : Except ε α) : Except (σ × ε) α := x.mapError (Prod.mk place)

/-- The computation without the places of its errors. -/
def forget (x : Except (σ × ε) α) : Except ε α := x.mapError Prod.snd

@[simp]
theorem forget_ok (a : α) : (Except.ok a : Except (σ × ε) α).forget = .ok a := rfl

@[simp]
theorem forget_error (p : σ × ε) : (Except.error p : Except (σ × ε) α).forget = .error p.2 := rfl

@[simp]
theorem forget_pure (a : α) : (pure a : Except (σ × ε) α).forget = pure a := rfl

@[simp]
theorem forget_locate (place : σ) (x : Except ε α) : (x.locate place).forget = x := by
  cases x <;> rfl

@[simp]
theorem forget_bind (x : Except (σ × ε) α) (f : α → Except (σ × ε) β) :
    (x >>= f).forget = x.forget >>= fun a ↦ (f a).forget := by
  cases x <;> rfl

@[simp]
theorem forget_map (f : α → β) (x : Except (σ × ε) α) : (f <$> x).forget = f <$> x.forget := by
  cases x <;> rfl

theorem forget_forM {γ : Type w} (xs : List γ) (f : γ → Except (σ × ε) PUnit) :
    (xs.forM f).forget = xs.forM fun x ↦ (f x).forget := by
  induction xs with
  | nil => rfl
  | cons x xs ih =>
    simp only [List.forM_eq_forM, List.forM_cons, forget_bind] at ih ⊢
    rw [ih]

theorem forget_eq_ok {x : Except (σ × ε) α} {a : α} : x.forget = .ok a ↔ x = .ok a := mapError_eq_ok

theorem locate_eq_ok {place : σ} {x : Except ε α} {a : α} : x.locate place = .ok a ↔ x = .ok a :=
  mapError_eq_ok

theorem locate_eq_error {place place' : σ} {x : Except ε α} {e : ε} :
    x.locate place = .error (place', e) ↔ place' = place ∧ x = .error e := by
  cases x with
  | ok a => exact ⟨nofun, nofun⟩
  | error e' =>
    show (Except.error (place, e') : Except (σ × ε) α) = _ ↔ _
    rw [Except.error.injEq, Prod.mk.injEq, Except.error.injEq, eq_comm (a := place)]

/-- The computation stops at one of these places, if it stops. -/
def StopsIn (P : σ → Prop) (x : Except (σ × ε) α) : Prop := ∀ p, x = .error p → P p.1

variable {P : σ → Prop}

theorem stopsIn_pure (a : α) : (pure a : Except (σ × ε) α).StopsIn P := nofun

theorem stopsIn_locate {place : σ} (h : P place) (x : Except ε α) : (x.locate place).StopsIn P := by
  rintro ⟨place', e⟩ he
  rwa [(locate_eq_error.1 he).1]

theorem StopsIn.bind {x : Except (σ × ε) α} {f : α → Except (σ × ε) β}
    (hx : x.StopsIn P) (hf : ∀ a, (f a).StopsIn P) : (x >>= f).StopsIn P := by
  cases x with
  | error p =>
    rintro q ⟨⟩
    exact hx p rfl
  | ok a => exact hf a

theorem stopsIn_forM {γ : Type w} {f : γ → Except (σ × ε) PUnit}
    (h : ∀ x, (f x).StopsIn P) (xs : List γ) : (xs.forM f).StopsIn P := by
  induction xs with
  | nil => exact stopsIn_pure _
  | cons x xs ih =>
    rw [List.forM_eq_forM, List.forM_cons]
    exact (h x).bind fun _ ↦ ih

end Except

namespace StateT

variable {τ : Type v}

/-- The error of the computation comes from this place. -/
def locate (place : σ) (x : StateT τ (Except ε) α) : StateT τ (Except (σ × ε)) α :=
  fun s ↦ (x.run s).locate place

/-- The computation without the places of its errors. -/
def forget (x : StateT τ (Except (σ × ε)) α) : StateT τ (Except ε) α := fun s ↦ (x.run s).forget

theorem run_ofExcept_bind {x : Except ε α} {s : τ} {f : α × τ → Except ε β} :
    ((ofExcept x).run s >>= f) = x >>= fun a ↦ f (a, s) := by
  cases x <;> rfl

theorem run_forget (x : StateT τ (Except (σ × ε)) α) (s : τ) :
    x.forget.run s = (x.run s).forget := rfl

@[simp]
theorem forget_locate (place : σ) (x : StateT τ (Except ε) α) : (x.locate place).forget = x :=
  funext fun s ↦ Except.forget_locate place (x.run s)

@[simp]
theorem forget_pure (a : α) : (pure a : StateT τ (Except (σ × ε)) α).forget = pure a := rfl

@[simp]
theorem forget_bind (x : StateT τ (Except (σ × ε)) α) (f : α → StateT τ (Except (σ × ε)) β) :
    (x >>= f).forget = x.forget >>= fun a ↦ (f a).forget :=
  funext fun s ↦ Except.forget_bind (x.run s) fun p ↦ (f p.1).run p.2

/-- The computation stops at one of these places, if it stops, from whatever state. -/
def StopsIn (P : σ → Prop) (x : StateT τ (Except (σ × ε)) α) : Prop := ∀ s, (x.run s).StopsIn P

variable {P : σ → Prop}

theorem stopsIn_pure (a : α) : (pure a : StateT τ (Except (σ × ε)) α).StopsIn P :=
  fun _ ↦ nofun

theorem stopsIn_locate {place : σ} (h : P place) (x : StateT τ (Except ε) α) :
    (x.locate place).StopsIn P := fun s ↦ Except.stopsIn_locate h (x.run s)

theorem StopsIn.bind {x : StateT τ (Except (σ × ε)) α}
    {f : α → StateT τ (Except (σ × ε)) β} (hx : x.StopsIn P) (hf : ∀ a, (f a).StopsIn P) :
    (x >>= f).StopsIn P := fun s ↦ (hx s).bind fun p ↦ hf p.1 p.2

theorem stopsIn_forM {γ : Type w} {f : γ → StateT τ (Except (σ × ε)) PUnit}
    (h : ∀ x, (f x).StopsIn P) (xs : List γ) : (xs.forM f).StopsIn P := by
  induction xs with
  | nil => exact stopsIn_pure _
  | cons x xs ih =>
    rw [List.forM_eq_forM, List.forM_cons]
    exact (h x).bind fun _ ↦ ih

theorem forget_forM {γ : Type w} (xs : List γ) (f : γ → StateT τ (Except (σ × ε)) PUnit) :
    (xs.forM f).forget = xs.forM fun x ↦ (f x).forget := by
  induction xs with
  | nil => rfl
  | cons x xs ih =>
    simp only [List.forM_eq_forM, List.forM_cons, forget_bind] at ih ⊢
    rw [ih]

end StateT
