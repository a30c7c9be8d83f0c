import Mathlib
import Sley.Lib.Outcome

/-!
# Errors that a computation cannot end with

`x.Avoids E` says that `x` does not stop with an error of `E`. The property is **compositional**: a
sequence avoids `E` when its first part does and its second part does on every value the first can
give, and a loop does when its body does in every state that an invariant of the loop allows. So a
proof that an error arm is dead follows the program, and asks for a reason only where the arm is.
-/

universe u v w

namespace Except

variable {ε : Type u} {α β : Type v} {E : Set ε}

/-- The computation does not end with an error of the set. -/
def Avoids (x : Except ε α) (E : Set ε) : Prop :=
  ∀ e, x = .error e → e ∉ E

theorem avoids_ok (a : α) : (Except.ok a : Except ε α).Avoids E :=
  fun _ h ↦ by cases h

theorem avoids_pure (a : α) : (pure a : Except ε α).Avoids E := avoids_ok a

theorem avoids_error_iff {e : ε} : (Except.error e : Except ε α).Avoids E ↔ e ∉ E := by
  constructor
  · exact fun h ↦ h e rfl
  · rintro he _ ⟨⟩
    exact he

variable {x : Except ε α}

theorem Avoids.ne_error (h : x.Avoids E) {e : ε} (he : e ∈ E) : x ≠ .error e :=
  fun hx ↦ h e hx he

/-- A guard whose error is of the set has to let the computation pass. -/
theorem avoids_rejectIf {c : Prop} [Decidable c] {e : ε} (h : e ∈ E → ¬ c) :
    (rejectIf c e).Avoids E := by
  intro e' he'
  by_cases hc : c
  · rw [rejectIf_pos hc] at he'
    cases he'
    exact fun he ↦ h he hc
  · rw [rejectIf_neg hc] at he'
    cases he'

theorem avoids_ofOption {e : ε} {o : Option α} (h : e ∈ E → o.isSome) :
    (ofOption e o).Avoids E := by
  cases o with
  | none => exact avoids_error_iff.2 fun he ↦ Bool.noConfusion (h he)
  | some a => exact avoids_ok a

theorem Avoids.bind {f : α → Except ε β} (hx : x.Avoids E)
    (hf : ∀ a, x = .ok a → (f a).Avoids E) : (x >>= f).Avoids E := by
  cases x with
  | error e => exact avoids_error_iff.2 (avoids_error_iff.1 hx)
  | ok a => exact hf a rfl

/-- **A loop avoids an error when its body does**, at every element and in every state that the
elements before it can lead to. -/
theorem Avoids.foldlM {σ : Type v} {γ : Type w} {f : σ → γ → Except ε σ} (I : List γ → σ → Prop)
    {xs : List γ} {s : σ} (hinit : I [] s)
    (hinv : ∀ done x rest s s', xs = done ++ x :: rest → I done s → f s x = .ok s' →
      I (done ++ [x]) s')
    (hbody : ∀ done x rest s, xs = done ++ x :: rest → I done s → (f s x).Avoids E) :
    (xs.foldlM f s).Avoids E := by
  -- the elements that are left, after those that are done
  suffices h : ∀ rest done s, xs = done ++ rest → I done s → (rest.foldlM f s).Avoids E from
    h xs [] s rfl hinit
  intro rest
  induction rest with
  | nil => exact fun _ s _ _ ↦ avoids_pure s
  | cons x rest ih =>
    intro done s hxs hs
    rw [List.foldlM_cons]
    refine (hbody done x rest s hxs hs).bind fun s' hs' ↦ ?_
    exact ih (done ++ [x]) s' (by rw [hxs, List.append_assoc]; rfl)
      (hinv done x rest s s' hxs hs hs')

/-- A loop over the elements alone. -/
theorem Avoids.forM {γ : Type w} {f : γ → Except ε PUnit} {xs : List γ}
    (h : ∀ x ∈ xs, (f x).Avoids E) : (xs.forM f).Avoids E := by
  induction xs with
  | nil => exact avoids_pure _
  | cons x xs ih =>
    rw [List.forM_eq_forM, List.forM_cons]
    exact (h x List.mem_cons_self).bind fun _ _ ↦ ih fun y hy ↦ h y (List.mem_cons_of_mem x hy)

/-- A loop whose body avoids the error in every state. -/
theorem Avoids.foldlM_of_forall {σ : Type v} {γ : Type w} {f : σ → γ → Except ε σ} {xs : List γ}
    (h : ∀ s, ∀ x ∈ xs, (f s x).Avoids E) (s : σ) : (xs.foldlM f s).Avoids E :=
  Avoids.foldlM (fun _ _ ↦ True) trivial (fun _ _ _ _ _ _ _ _ ↦ trivial)
    fun done x rest s hxs _ ↦ h s x (by simp [hxs])

/-- Translated errors. -/
theorem avoids_mapError {ε' : Type*} {E : Set ε'} {f : ε → ε'}
    (h : ∀ e, f e ∉ E) : (x.mapError f).Avoids E := by
  cases x with
  | error e => exact avoids_error_iff.2 (h e)
  | ok a => exact avoids_ok a

theorem Avoids.mono {E' : Set ε} (h : x.Avoids E) (hsub : E' ⊆ E) : x.Avoids E' :=
  fun e he hmem ↦ h e he (hsub hmem)

/-! ### The same, or cut off -/

/-- The other computation does the same as `x`, or stops with `e`. -/
def SameUnless (e : ε) (x x' : Except ε α) : Prop := x' = x ∨ x' = .error e

namespace SameUnless

variable {e : ε}

protected theorem refl (x : Except ε α) : SameUnless e x x := .inl rfl

protected theorem bind {x x' : Except ε α} {f f' : α → Except ε β} (hx : SameUnless e x x')
    (hf : ∀ a, SameUnless e (f a) (f' a)) : SameUnless e (x >>= f) (x' >>= f') := by
  obtain rfl | rfl := hx
  · cases x' with
    | error e' => exact .inl rfl
    | ok a => exact hf a
  · exact .inr rfl

protected theorem foldlM {γ : Type w} {f f' : β → γ → Except ε β} {xs : List γ}
    (h : ∀ b, ∀ x ∈ xs, SameUnless e (f b x) (f' b x)) (b : β) :
    SameUnless e (xs.foldlM f b) (xs.foldlM f' b) := by
  induction xs generalizing b with
  | nil => exact .refl _
  | cons x xs ih =>
    rw [List.foldlM_cons, List.foldlM_cons]
    exact (h b x List.mem_cons_self).bind fun b' ↦
      ih (fun b y hy ↦ h b y (List.mem_cons_of_mem x hy)) b'

protected theorem forM {γ : Type w} {f f' : γ → Except ε PUnit} {xs : List γ}
    (h : ∀ x ∈ xs, SameUnless e (f x) (f' x)) : SameUnless e (xs.forM f) (xs.forM f') := by
  induction xs with
  | nil => exact .refl _
  | cons x xs ih =>
    rw [List.forM_eq_forM, List.forM_cons, List.forM_cons]
    exact (h x List.mem_cons_self).bind fun _ ↦ ih fun y hy ↦ h y (List.mem_cons_of_mem x hy)

end SameUnless

end Except
