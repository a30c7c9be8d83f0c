import Sley.Lib.Operation

/-!
# Operations side by side

Two programs are compared by running them from related states. `Operation.Together` says that the
two ends match: both succeed with related results in related states, or both fail with the same
error. **It is proved bind by bind** (`Together.bind`), so a simulation between two programs of the
same shape is one small fact for each of their steps.

`Operation.Moves` is the same for one program: what it does to its state, however it ends.
`Operation.Keeps` is an invariant of the state with what is known of a result.
`Operation.Follows` compares a program with a partial function that says what it computes.
-/

universe u v w

namespace Operation

variable {σ τ : Type u} {ε : Type v} {α β γ δ : Type w}

theorem bind_apply {p : Operation σ ε α} {f : α → Operation σ ε β} {s : σ} :
    (p >>= f) s = match p s with
      | (.error e, s₁) => (.error e, s₁)
      | (.ok a, s₁) => f a s₁ := rfl

theorem bind_bind {p : Operation σ ε α} {f : α → Operation σ ε β} {g : β → Operation σ ε γ} :
    p >>= f >>= g = p >>= fun a ↦ f a >>= g := by
  funext s
  rw [bind_apply, bind_apply, bind_apply]
  rcases p s with ⟨e | a, s₁⟩ <;> rfl

/-! ### One program -/

/-- However the operation ends, the state has moved along `R`. -/
def Moves (R : σ → σ → Prop) (p : Operation σ ε α) : Prop := ∀ s, R s (p s).2

section Moves

variable {R : σ → σ → Prop} {p : Operation σ ε α} {f : α → Operation σ ε β} {s : σ}

theorem moves_pure (hrefl : ∀ s, R s s) {a : α} : (pure a : Operation σ ε α).Moves R := hrefl

theorem moves_of_reads (hrefl : ∀ s, R s s) (h : p.Reads) : p.Moves R := fun s ↦ by
  rw [h s]
  exact hrefl s

theorem Moves.bind {R₁ R₂ : σ → σ → Prop} (hleft : ∀ {s₁ s₂}, R₁ s₁ s₂ → R s₁ s₂)
    (htrans : ∀ {s₁ s₂ s₃}, R₁ s₁ s₂ → R₂ s₂ s₃ → R s₁ s₃) (hp : p.Moves R₁)
    (hf : ∀ a, (f a).Moves R₂) : (p >>= f).Moves R := by
  intro s
  have hfirst := hp s
  rw [bind_apply]
  rcases hs : p s with ⟨e | a, s₁⟩
  · rw [hs] at hfirst
    exact hleft hfirst
  · rw [hs] at hfirst
    exact htrans hfirst (hf a s₁)

end Moves

/-- From states with an invariant, what ends well keeps the invariant and gives a result with a
property. -/
def Keeps (I : σ → Prop) (Q : α → Prop) (p : Operation σ ε α) : Prop :=
  ∀ ⦃s a s'⦄, I s → p s = (.ok a, s') → I s' ∧ Q a

section Keeps

variable {I : σ → Prop} {Q : α → Prop} {Q' : β → Prop} {p : Operation σ ε α}
  {f : α → Operation σ ε β} {a : α}

theorem keeps_pure (h : Q a) : (pure a : Operation σ ε α).Keeps I Q := by
  intro s a' s' hs heq
  obtain ⟨rfl, rfl⟩ := pure_eq_ok.1 heq
  exact ⟨hs, h⟩

theorem Keeps.bind (hp : p.Keeps I Q) (hf : ∀ a, Q a → (f a).Keeps I Q') :
    (p >>= f).Keeps I Q' := by
  intro s b s' hs heq
  obtain ⟨a, s₁, ha, hb⟩ := bind_eq_ok.1 heq
  obtain ⟨hs₁, hQ⟩ := hp hs ha
  exact hf a hQ hs₁ hb

/-- What only reads keeps every invariant. -/
theorem Reads.keeps (h : p.Reads) (hQ : ∀ s a s', I s → p s = (.ok a, s') → Q a) : p.Keeps I Q := by
  intro s a s' hs heq
  have hsame := h s
  rw [heq] at hsame
  obtain rfl : s' = s := hsame
  exact ⟨hs, hQ s' a s' hs heq⟩

theorem keeps_forM {ι : Type w} {xs : List ι} {step : ι → Operation σ ε PUnit}
    (h : ∀ x ∈ xs, (step x).Keeps I fun _ ↦ True) : (xs.forM step).Keeps I fun _ ↦ True := by
  induction xs with
  | nil => exact keeps_pure trivial
  | cons x xs ih =>
    obtain ⟨hx, hxs⟩ := List.forall_mem_cons.1 h
    exact hx.bind fun _ _ ↦ ih hxs

end Keeps

/-! ### Two programs -/

/-- Two ends match: related results in states related by `Q`, or one failure in states related by
`E`. -/
inductive Together (Q : α → β → σ → τ → Prop) (E : σ → τ → Prop) :
    Except ε α × σ → Except ε β × τ → Prop
  | ok {a : α} {b : β} {s : σ} {t : τ} (h : Q a b s t) : Together Q E (.ok a, s) (.ok b, t)
  | error {e : ε} {s : σ} {t : τ} (h : E s t) : Together Q E (.error e, s) (.error e, t)

section Together

variable {Q : α → β → σ → τ → Prop} {Q' : γ → δ → σ → τ → Prop} {E : σ → τ → Prop}
  {p : Operation σ ε α} {q : Operation τ ε β} {f : α → Operation σ ε γ} {g : β → Operation τ ε δ}
  {s : σ} {t : τ}

/-- **Programs that match step by step match.** -/
theorem Together.bind (h : Together Q E (p s) (q t))
    (hnext : ∀ a b s t, Q a b s t → Together Q' E (f a s) (g b t)) :
    Together Q' E ((p >>= f) s) ((q >>= g) t) := by
  rw [bind_apply, bind_apply]
  generalize p s = left at h
  generalize q t = right at h
  cases h with
  | ok h => exact hnext _ _ _ _ h
  | error h => exact .error h

theorem Together.imp {Q₁ : α → β → σ → τ → Prop} {E₁ : σ → τ → Prop}
    (h : Together Q E (p s) (q t)) (hQ : ∀ a b s t, Q a b s t → Q₁ a b s t)
    (hE : ∀ s t, E s t → E₁ s t) : Together Q₁ E₁ (p s) (q t) := by
  generalize p s = left at h ⊢
  generalize q t = right at h ⊢
  cases h with
  | ok h => exact .ok (hQ _ _ _ _ h)
  | error h => exact .error (hE _ _ h)

end Together

/-! ### A program and what it computes -/

/-- The program ends as a partial function says: with a result related to its value, or with the one
failure where it has none. -/
inductive Follows (fault : ε) (Q : α → β → σ → Prop) (E : σ → Prop) :
    Option α → Except ε β × σ → Prop
  | some {a : α} {b : β} {s : σ} (h : Q a b s) : Follows fault Q E (some a) (.ok b, s)
  | none {s : σ} (h : E s) : Follows fault Q E none (.error fault, s)

section Follows

variable {fault : ε} {Q : α → β → σ → Prop} {Q' : γ → δ → σ → Prop} {E : σ → Prop} {x : Option α}
  {f : α → Option γ} {p : Operation σ ε β} {g : β → Operation σ ε δ} {s : σ}

theorem Follows.bind (h : Follows fault Q E x (p s))
    (hnext : ∀ a b s, Q a b s → Follows fault Q' E (f a) (g b s)) :
    Follows fault Q' E (x >>= f) ((p >>= g) s) := by
  rw [bind_apply]
  generalize p s = result at h
  cases h with
  | some h => exact hnext _ _ _ h
  | none h => exact .none h

/-- **Two programs that compute the same match.** -/
theorem Follows.together {Q₁ : α → δ → τ → Prop} {E₁ : τ → Prop} {left : Except ε β × σ}
    {right : Except ε δ × τ} (h : Follows fault Q E x left) (h' : Follows fault Q₁ E₁ x right) :
    Together (fun b d s t ↦ ∃ a, Q a b s ∧ Q₁ a d t) (fun s t ↦ E s ∧ E₁ t) left right := by
  cases h with
  | some h =>
    cases h' with
    | some h' => exact .ok ⟨_, h, h'⟩
  | none h =>
    cases h' with
    | none h' => exact .error ⟨h, h'⟩

end Follows

end Operation
