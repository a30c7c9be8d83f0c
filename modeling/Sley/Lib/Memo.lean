import Mathlib
import Sley.Lib.Outcome

/-!
# Computations that remember

A computation that carries a memo along, and may give up, beside the one that does neither.
`Computes I E x p` says that from every memo of `I` the computation `x` comes to what `p` comes to
and leaves such a memo behind, unless it gives up with an error of `E`. The relation follows the
program: **what is looked up is right because only right things were noted** (`Computes.get`,
`Computes.note`), and the rest is a rule for each way to put computations together.
-/

universe u v w

namespace StateT

variable {ε : Type u} {σ α β : Type v} {I : σ → Prop} {E : Set ε}

/-- The computation comes to what the plain one comes to, or gives up. -/
structure Computes (I : σ → Prop) (E : Set ε) (x : StateT σ (Except ε) α) (p : Except ε α) :
    Prop where
  ok : ∀ {s a s'}, I s → x.run s = .ok (a, s') → p = .ok a ∧ I s'
  error : ∀ {s e}, I s → x.run s = .error e → e ∈ E ∨ p = .error e

namespace Computes

protected theorem pure (a : α) : Computes I E (pure a) (pure a) where
  ok hs h := by
    obtain ⟨rfl, rfl⟩ := run_pure_eq_ok.1 h
    exact ⟨rfl, hs⟩
  error _ h := by cases h

protected theorem ofExcept (p : Except ε α) : Computes I E (ofExcept p) p where
  ok hs h := by
    obtain ⟨hp, rfl⟩ := run_ofExcept_eq_ok.1 h
    exact ⟨hp, hs⟩
  error _ h := by
    cases p with
    | error e =>
      cases h
      exact .inr rfl
    | ok a => cases h

variable {p : Except ε α} {x : StateT σ (Except ε) α}

protected theorem bind
    {f : α → StateT σ (Except ε) β} {g : α → Except ε β} (hx : Computes I E x p)
    (hf : ∀ a, p = .ok a → Computes I E (f a) (g a)) : Computes I E (x >>= f) (p >>= g) where
  ok hs h := by
    obtain ⟨a, s₁, hrun, h⟩ := run_bind_eq_ok.1 h
    obtain ⟨hp, hs₁⟩ := hx.ok hs hrun
    rw [hp]
    exact (hf a hp).ok hs₁ h
  error {s e} hs h := by
    rw [StateT.run_bind] at h
    cases hrun : x.run s with
    | error e' =>
      rw [hrun] at h
      obtain rfl := Except.error.inj h
      refine (hx.error hs hrun).imp id fun hp ↦ ?_
      rw [hp]
      rfl
    | ok r =>
      rw [hrun] at h
      obtain ⟨hp, hs₁⟩ := hx.ok hs hrun
      rw [hp]
      exact (hf r.1 hp).error hs₁ h

/-- A computation that looks at its memo is right whatever it finds there. -/
protected theorem get {f : σ → StateT σ (Except ε) α}
    (hf : ∀ s, I s → Computes I E (f s) p) : Computes I E (get >>= f) p where
  ok {s _ _} hs h := (hf s hs).ok hs h
  error {s _} hs h := (hf s hs).error hs h

protected theorem modify {f : σ → σ} (hf : ∀ s, I s → I (f s)) :
    Computes I E (modify f) (pure ⟨⟩) where
  ok {s _ _} hs h := by
    obtain ⟨rfl, rfl⟩ := Prod.mk.inj (Except.ok.inj h)
    exact ⟨rfl, hf s hs⟩
  error _ h := by cases h

/-- What was computed is noted. -/
protected theorem note {f : α → σ → σ}
    (hx : Computes I E x p) (hf : ∀ a s, p = .ok a → I s → I (f a s)) :
    Computes I E (x >>= fun a ↦ modify (f a) >>= fun _ ↦ pure a) p := by
  rw [← bind_pure p]
  exact hx.bind fun a ha ↦ (Computes.modify fun s ↦ hf a s ha).bind fun _ _ ↦ .pure a

/-- That something was checked is noted. -/
protected theorem noteChecked {x : StateT σ (Except ε) PUnit} {p : Except ε PUnit} {f : σ → σ}
    (hx : Computes I E x p) (hf : ∀ s, p = .ok ⟨⟩ → I s → I (f s)) :
    Computes I E (x >>= fun _ ↦ modify f) p := by
  rw [← bind_pure_unit (x := p)]
  exact hx.bind fun _ hp ↦ .modify fun s ↦ hf s hp

/-- A step that the plain computation does not take: it only counts. -/
protected theorem step {x : StateT σ (Except ε) PUnit} {f : StateT σ (Except ε) α}
    (hx : Computes I E x (pure ⟨⟩)) (hf : Computes I E f p) :
    Computes I E (x >>= fun _ ↦ f) p :=
  hx.bind fun _ _ ↦ hf

protected theorem foldlM {γ : Type w} {f : β → γ → StateT σ (Except ε) β}
    {g : β → γ → Except ε β} {xs : List γ} (h : ∀ b, ∀ x ∈ xs, Computes I E (f b x) (g b x))
    (b : β) : Computes I E (xs.foldlM f b) (xs.foldlM g b) := by
  induction xs generalizing b with
  | nil => exact .pure b
  | cons x xs ih =>
    rw [List.foldlM_cons, List.foldlM_cons]
    exact (h b x List.mem_cons_self).bind fun b' _ ↦
      ih (fun b y hy ↦ h b y (List.mem_cons_of_mem x hy)) b'

protected theorem forM {γ : Type w} {f : γ → StateT σ (Except ε) PUnit}
    {g : γ → Except ε PUnit} {xs : List γ} (h : ∀ x ∈ xs, Computes I E (f x) (g x)) :
    Computes I E (xs.forM f) (xs.forM g) := by
  induction xs with
  | nil => exact .pure _
  | cons x xs ih =>
    rw [List.forM_eq_forM, List.forM_eq_forM, List.forM_cons, List.forM_cons]
    exact (h x List.mem_cons_self).bind fun _ _ ↦
      ih fun y hy ↦ h y (List.mem_cons_of_mem x hy)

/-- The outcome from a memo that is right. -/
theorem run'_eq (h : Computes I E x p) {s : σ}
    (hs : I s) : x.run' s = p ∨ ∃ e ∈ E, x.run' s = .error e := by
  cases hrun : x.run s with
  | error e =>
    have heq : x.run' s = .error e := by
      show Prod.fst <$> x.run s = _
      rw [hrun]
      rfl
    obtain he | hp := h.error hs hrun
    · exact .inr ⟨e, he, heq⟩
    · exact .inl (heq.trans hp.symm)
  | ok r =>
    refine .inl ?_
    rw [(h.ok hs hrun).1]
    show Prod.fst <$> x.run s = _
    rw [hrun]
    rfl

end Computes

end StateT
