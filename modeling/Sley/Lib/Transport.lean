import Sley.Lib.Outcome

/-!
# Computations up to a translation

Two computations do the same **up to a translation** of their states and results when running the
second from a translated state is translating what the first comes to. Errors are not translated.
The relation follows the program, as renaming does.
-/

universe u v w


namespace StateT

variable {ε : Type u} {σ τ α β α' β' : Type v} {g : σ → τ} {f : α → β} {f' : α' → β'}

/-- The second computation is the first, translated. -/
def Transports (g : σ → τ) (f : α → β) (x : StateT σ (Except ε) α) (y : StateT τ (Except ε) β) :
    Prop := ∀ s, y.run (g s) = Prod.map f g <$> x.run s

namespace Transports

protected theorem pure (a : α) :
    Transports g f (pure a : StateT σ (Except ε) α) (pure (f a)) := fun _ ↦ rfl

protected theorem ofExcept {p : Except ε α} {q : Except ε β} (h : q = f <$> p) :
    Transports g f (ofExcept p) (ofExcept q) := by
  subst h
  cases p <;> exact fun _ ↦ rfl

variable {x : StateT σ (Except ε) α} {h : α → StateT σ (Except ε) α'} {y : StateT τ (Except ε) β}

protected theorem bind
    {k : β → StateT τ (Except ε) β'} (hx : Transports g f x y)
    (hnext : ∀ a, Transports g f' (h a) (k (f a))) : Transports g f' (x >>= h) (y >>= k) := by
  intro s
  rw [StateT.run_bind, StateT.run_bind, hx s]
  cases x.run s with
  | error e => rfl
  | ok r => exact hnext r.1 r.2

/-! Results that are not translated. -/

theorem pure_id (a : α) : Transports g id (pure a : StateT σ (Except ε) α) (pure a) := .pure a

theorem ofExcept_id (p : Except ε α) : Transports g id (ofExcept p) (ofExcept p) :=
  .ofExcept (id_map p).symm

theorem bind_id {y : StateT τ (Except ε) α}
    {k : α → StateT τ (Except ε) β'} (hx : Transports g id x y)
    (hnext : ∀ a, Transports g f' (h a) (k a)) : Transports g f' (x >>= h) (y >>= k) :=
  hx.bind hnext

protected theorem get {h : σ → StateT σ (Except ε) α} {k : τ → StateT τ (Except ε) β}
    (hnext : ∀ s, Transports g f (h s) (k (g s))) : Transports g f (get >>= h) (get >>= k) :=
  fun s ↦ hnext s s

protected theorem modify {h : σ → σ} {k : τ → τ} (hsame : ∀ s, k (g s) = g (h s)) :
    Transports g id (modify h : StateT σ (Except ε) PUnit) (modify k) := fun s ↦ by
  show Except.ok (PUnit.unit, k (g s)) = _
  rw [hsame]
  rfl

protected theorem foldlM {γ δ : Type w} {h : α → γ → StateT σ (Except ε) α}
    {k : α → δ → StateT τ (Except ε) α} {r : γ → δ} {xs : List γ}
    (hstep : ∀ a, ∀ x ∈ xs, Transports g id (h a x) (k a (r x))) (a : α) :
    Transports g id (xs.foldlM h a) ((xs.map r).foldlM k a) := by
  induction xs generalizing a with
  | nil => exact .pure a
  | cons x xs ih =>
    rw [List.map_cons, List.foldlM_cons, List.foldlM_cons]
    exact (hstep a x List.mem_cons_self).bind_id fun a' ↦
      ih (fun a y hy ↦ hstep a y (List.mem_cons_of_mem x hy)) a'

protected theorem forM {γ δ : Type w} {h : γ → StateT σ (Except ε) PUnit}
    {k : δ → StateT τ (Except ε) PUnit} {r : γ → δ} {xs : List γ}
    (hstep : ∀ x ∈ xs, Transports g id (h x) (k (r x))) :
    Transports g id (xs.forM h) ((xs.map r).forM k) := by
  induction xs with
  | nil => exact .pure _
  | cons x xs ih =>
    rw [List.map_cons, List.forM_eq_forM, List.forM_cons, List.forM_eq_forM, List.forM_cons]
    exact (hstep x List.mem_cons_self).bind_id fun _ ↦
      ih fun y hy ↦ hstep y (List.mem_cons_of_mem x hy)

/-- Both succeed, or neither does. -/
theorem exists_ok_iff (h : Transports g f x y) (s : σ) :
    (∃ r, y.run (g s) = .ok r) ↔ ∃ r, x.run s = .ok r := by
  rw [h s]
  cases x.run s with
  | error e => exact ⟨fun ⟨_, he⟩ ↦ (nomatch he), fun ⟨_, he⟩ ↦ (nomatch he)⟩
  | ok r => exact ⟨fun _ ↦ ⟨r, rfl⟩, fun _ ↦ ⟨_, rfl⟩⟩

end Transports

end StateT
