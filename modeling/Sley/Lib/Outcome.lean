import Mathlib

/-!
# Inverting computations in `Except`

A fallible computation is read backwards here: from `x >>= f = .ok r` one wants the intermediate
value, and from a guard that let the computation pass one wants the negated guard. **Every**
decoder and every step function of a development written in `Except ε` is taken apart with the few
lemmas of this module, so none of them has to unfold the monad.

`Except.rejectIf` is the early-return guard: *if the condition holds, stop with this error*. The
same lemmas are stated for computations that carry a state along, `StateT σ (Except ε)`, into which
a stateless step is lifted by `StateT.ofExcept`.
-/

universe u v w

namespace Except

variable {ε : Type u} {α β : Type v}

/-- Stop with `e` when `c` holds. -/
def rejectIf (c : Prop) [Decidable c] (e : ε) : Except ε Unit :=
  if c then .error e else .ok ()

/-- The value of an option, or the error `e`. -/
def ofOption (e : ε) : Option α → Except ε α
  | none => .error e
  | some a => .ok a

variable {x : Except ε α}

theorem bind_eq_ok {f : α → Except ε β} {r : β} :
    x >>= f = .ok r ↔ ∃ a, x = .ok a ∧ f a = .ok r := by
  rcases x with e | a
  · simp [Bind.bind, Except.bind]
  · simp [Bind.bind, Except.bind]

variable {c : Prop}

theorem ite_bind_pure [Decidable c] {e : ε} {a : α} {g : α → β} :
    ((if c then .ok a else .error e : Except ε α) >>= fun a ↦ pure (g a)) =
      if c then .ok (g a) else .error e := by
  split <;> rfl

/-- Two computations with one condition each, and one error, are one with both conditions. -/
theorem ite_bind_ite_bind_pure {γ : Type v} {c c' : Prop} [Decidable c] [Decidable c'] {e : ε}
    {a : α} {b : β} {g : α → β → γ} :
    ((if c then .ok a else .error e : Except ε α) >>= fun a ↦
      (if c' then .ok b else .error e : Except ε β) >>= fun b ↦ pure (g a b)) =
      if c ∧ c' then .ok (g a b) else .error e := by
  by_cases h : c
  · simp only [true_and, h]
    exact ite_bind_pure
  · simp only [false_and, h, if_false]
    rfl

theorem map_eq_ok {f : α → β} {r : β} : f <$> x = .ok r ↔ ∃ a, x = .ok a ∧ r = f a := by
  rw [map_eq_pure_bind, bind_eq_ok]
  simp [Pure.pure, Except.pure, eq_comm]

theorem pure_eq_ok {a b : α} : (pure a : Except ε α) = .ok b ↔ b = a := by
  simp [Pure.pure, Except.pure, eq_comm]

@[simp]
theorem ok_bind (a : α) (f : α → Except ε β) : (Except.ok a >>= f) = f a := rfl

@[simp]
theorem error_bind (e : ε) (f : α → Except ε β) : (Except.error e >>= f) = .error e := rfl

@[simp]
theorem rejectIf_eq_ok [Decidable c] {e : ε} {u : Unit} : rejectIf c e = .ok u ↔ ¬ c := by
  by_cases h : c <;> simp [rejectIf, h]

/-- A guard whose condition fails is no step at all. -/
theorem rejectIf_neg [Decidable c] (h : ¬ c) (e : ε) : rejectIf c e = .ok () := if_neg h

theorem rejectIf_pos [Decidable c] (h : c) (e : ε) : rejectIf c e = .error e := if_pos h

@[simp]
theorem ofOption_eq_ok {e : ε} {o : Option α} {a : α} : ofOption e o = .ok a ↔ o = some a := by
  cases o <;> simp [ofOption]

@[simp]
theorem mapError_eq_ok {ε' : Type*} {f : ε → ε'} {a : α} : x.mapError f = .ok a ↔ x = .ok a := by
  cases x <;> simp [Except.mapError]

variable {γ : Type w} {ys : List α}

/-- A traversal succeeds with the results of its elements, in order. -/
theorem mapM_eq_ok {f : γ → Except ε α} {xs : List γ} :
    xs.mapM f = .ok ys ↔ List.Forall₂ (fun x y ↦ f x = .ok y) xs ys := by
  induction xs generalizing ys with
  | nil => simp [List.mapM_nil, pure_eq_ok]
  | cons x xs ih =>
    rw [List.mapM_cons, bind_eq_ok, List.forall₂_cons_left_iff]
    simp only [bind_eq_ok, pure_eq_ok, ih]
    constructor
    · rintro ⟨y, hy, ys, hys, rfl⟩
      exact ⟨y, ys, hy, hys, rfl⟩
    · rintro ⟨y, ys, hy, hys, rfl⟩
      exact ⟨y, hy, ys, hys, rfl⟩

/-- A traversal that succeeds has a result at each of its elements. -/
theorem exists_of_mapM_eq_ok {f : γ → Except ε α} {xs : List γ}
    (h : xs.mapM f = .ok ys) {x : γ} (hx : x ∈ xs) : ∃ y, f x = .ok y := by
  rw [mapM_eq_ok] at h
  induction h with
  | nil => cases hx
  | cons hfirst _ ih =>
    obtain rfl | hx := List.mem_cons.1 hx
    · exact ⟨_, hfirst⟩
    · exact ih hx

/-- The results of a traversal are the results at its elements. -/
theorem mem_iff_of_mapM_eq_ok {f : γ → Except ε α} {xs : List γ}
    (h : xs.mapM f = .ok ys) {y : α} : y ∈ ys ↔ ∃ x ∈ xs, f x = .ok y := by
  rw [mapM_eq_ok] at h
  induction h with
  | nil => simp
  | cons hx _ ih => simp [ih, hx, eq_comm]

/-- A loop passes when it passes at every element. -/
theorem forM_eq_ok {f : γ → Except ε PUnit} {xs : List γ} {u : PUnit} :
    xs.forM f = .ok u ↔ ∀ x ∈ xs, f x = .ok ⟨⟩ := by
  induction xs with
  | nil => exact ⟨fun _ _ hx ↦ (List.not_mem_nil hx).elim, fun _ ↦ rfl⟩
  | cons x xs ih =>
    rw [List.forM_eq_forM, List.forM_cons, bind_eq_ok, List.forall_mem_cons, ← ih]
    constructor
    · rintro ⟨_, hx, hxs⟩
      exact ⟨hx, hxs⟩
    · rintro ⟨hx, hxs⟩
      exact ⟨_, hx, hxs⟩

variable {σ : Type v}

/-- A fold that collects: where every step adds what its element stands for to what the state
holds, the fold adds what its elements stand for. -/
theorem foldlM_collects {δ : Type*} {f : σ → γ → Except ε σ} {P : σ → δ → Prop} {Q : γ → δ → Prop}
    (hstep : ∀ s x s', f s x = .ok s' → ∀ d, P s' d ↔ P s d ∨ Q x d)
    {xs : List γ} {s s' : σ} (h : xs.foldlM f s = .ok s') (d : δ) :
    P s' d ↔ P s d ∨ ∃ x ∈ xs, Q x d := by
  induction xs generalizing s with
  | nil =>
    obtain rfl := pure_eq_ok.1 h
    simp
  | cons x xs ih =>
    rw [List.foldlM_cons, bind_eq_ok] at h
    obtain ⟨s₁, hx, hxs⟩ := h
    rw [ih hxs, hstep s x s₁ hx, or_assoc, List.exists_mem_cons_iff]

/-- A fold that holds what came last, and relates what comes next to it, runs along a chain. -/
theorem isChain_of_foldlM {γ : Type v} {f : Option γ → γ → Except ε (Option γ)}
    {R : γ → γ → Prop}
    (hstep : ∀ previous x next, f previous x = .ok next → next = some x ∧ ∀ y ∈ previous, R y x)
    {xs : List γ} {previous last : Option γ} (h : xs.foldlM f previous = .ok last) :
    (previous.toList ++ xs).IsChain R := by
  induction xs generalizing previous with
  | nil => cases previous <;> simp
  | cons x xs ih =>
    rw [List.foldlM_cons, bind_eq_ok] at h
    obtain ⟨next, hx, hxs⟩ := h
    obtain ⟨rfl, hprevious⟩ := hstep _ _ _ hx
    cases previous with
    | none => exact ih hxs
    | some y => exact (ih hxs).cons_cons (hprevious y rfl)

/-- What every step of a fold keeps holds at its end. -/
theorem foldlM_rule {f : σ → γ → Except ε σ} {P : σ → Prop} {xs : List γ}
    (hstep : ∀ s x s', x ∈ xs → f s x = .ok s' → P s → P s') {s s' : σ}
    (h : xs.foldlM f s = .ok s') (hs : P s) : P s' := by
  induction xs generalizing s with
  | nil =>
    obtain rfl := pure_eq_ok.1 h
    exact hs
  | cons x xs ih =>
    rw [List.foldlM_cons, bind_eq_ok] at h
    obtain ⟨s₁, hx, hxs⟩ := h
    exact ih (fun s y s' hy ↦ hstep s y s' (List.mem_cons_of_mem x hy)) hxs
      (hstep s x s₁ List.mem_cons_self hx hs)

/-- **Two folds in step.** Where a step of one fold from related states has a step of the other that
leaves related states, so has the whole fold. -/
theorem foldlM_related {σ τ : Type v} {γ δ : Type w} {f : σ → γ → Except ε σ}
    {g : τ → δ → Except ε τ} {R : σ → τ → Prop} {P : γ → δ → Prop}
    (hstep : ∀ s t x y s', R s t → P x y → f s x = .ok s' → ∃ t', g t y = .ok t' ∧ R s' t')
    {xs : List γ} {ys : List δ} (hxs : List.Forall₂ P xs ys) {s s' : σ} {t : τ} (hst : R s t)
    (h : xs.foldlM f s = .ok s') : ∃ t', ys.foldlM g t = .ok t' ∧ R s' t' := by
  induction hxs generalizing s t with
  | nil =>
    obtain rfl := pure_eq_ok.1 h
    exact ⟨t, rfl, hst⟩
  | cons hxy _ ih =>
    rw [List.foldlM_cons, bind_eq_ok] at h
    obtain ⟨s₁, hx, hxs⟩ := h
    obtain ⟨t₁, hy, hst₁⟩ := hstep _ _ _ _ _ hst hxy hx
    obtain ⟨t', hys, hst'⟩ := ih hst₁ hxs
    refine ⟨t', ?_, hst'⟩
    rw [List.foldlM_cons, hy]
    exact hys

/-- A fold that succeeds has taken every one of its steps. -/
theorem exists_of_foldlM_eq_ok {f : σ → γ → Except ε σ} {xs : List γ}
    {s s' : σ} (h : xs.foldlM f s = .ok s') {x : γ} (hx : x ∈ xs) : ∃ s₁ s₂, f s₁ x = .ok s₂ := by
  induction xs generalizing s with
  | nil => cases hx
  | cons first xs ih =>
    rw [List.foldlM_cons, bind_eq_ok] at h
    obtain ⟨s₁, hfirst, hxs⟩ := h
    obtain rfl | hx := List.mem_cons.1 hx
    · exact ⟨s, s₁, hfirst⟩
    · exact ih hxs hx

/-- A fold that notes a key for each of its elements and refuses a key that it holds: the keys are
distinct, and are what it holds in the end. -/
theorem foldlM_fresh {δ : Type*} {f : σ → γ → Except ε σ} {P : σ → δ → Prop} {key : γ → δ}
    (hstep : ∀ s x s', f s x = .ok s' → ¬ P s (key x) ∧ ∀ d, P s' d ↔ P s d ∨ d = key x)
    {xs : List γ} {s s' : σ} (h : xs.foldlM f s = .ok s') :
    (xs.map key).Nodup ∧ (∀ d ∈ xs.map key, ¬ P s d) ∧ ∀ d, P s' d ↔ P s d ∨ d ∈ xs.map key := by
  induction xs generalizing s with
  | nil =>
    obtain rfl := pure_eq_ok.1 h
    simp
  | cons x xs ih =>
    rw [List.foldlM_cons, bind_eq_ok] at h
    obtain ⟨s₁, hx, hxs⟩ := h
    obtain ⟨hnew, hadded⟩ := hstep s x s₁ hx
    obtain ⟨hnodup, hfresh, hmem⟩ := ih hxs
    rw [List.map_cons]
    refine ⟨List.nodup_cons.2 ⟨fun hx ↦ ?_, hnodup⟩, fun d hd ↦ ?_, fun d ↦ ?_⟩
    · exact hfresh _ hx ((hadded _).2 (.inr rfl))
    · obtain rfl | hd := List.mem_cons.1 hd
      · exact hnew
      · exact fun hold ↦ hfresh d hd ((hadded d).2 (.inl hold))
    · rw [hmem, hadded, List.mem_cons, or_assoc]

end Except

/-- Each element of the first list has its partner in the second. -/
theorem List.Forall₂.exists_of_mem {α β : Type*} {R : α → β → Prop} {xs : List α} {ys : List β}
    (h : List.Forall₂ R xs ys) {x : α} (hx : x ∈ xs) : ∃ y ∈ ys, R x y := by
  induction h with
  | nil => cases hx
  | cons hxy _ ih =>
    obtain rfl | hx := List.mem_cons.1 hx
    · exact ⟨_, List.mem_cons_self, hxy⟩
    · obtain ⟨y, hy, hR⟩ := ih hx
      exact ⟨y, List.mem_cons_of_mem _ hy, hR⟩

/-- A fold that collects and cannot fail. -/
theorem List.foldl_collects {σ γ δ : Type*} {f : σ → γ → σ} {P : σ → δ → Prop} {Q : γ → δ → Prop}
    (hstep : ∀ s x d, P (f s x) d ↔ P s d ∨ Q x d) (xs : List γ) (s : σ) (d : δ) :
    P (xs.foldl f s) d ↔ P s d ∨ ∃ x ∈ xs, Q x d := by
  induction xs generalizing s with
  | nil => simp
  | cons x xs ih => rw [List.foldl_cons, ih, hstep, or_assoc, List.exists_mem_cons_iff]

namespace StateT

variable {ε : Type u} {σ α β : Type v}

/-- A step that neither reads nor changes the state. -/
def ofExcept (x : Except ε α) : StateT σ (Except ε) α := fun s ↦ x >>= fun a ↦ .ok (a, s)

variable {s s' : σ}

theorem run_bind_eq_ok {p : StateT σ (Except ε) α} {q : α → StateT σ (Except ε) β} {b : β} :
    (p >>= q).run s = .ok (b, s') ↔ ∃ a s₁, p.run s = .ok (a, s₁) ∧ (q a).run s₁ = .ok (b, s') := by
  rw [StateT.run_bind, Except.bind_eq_ok, Prod.exists]

theorem run_pure_eq_ok {a b : α} :
    (pure a : StateT σ (Except ε) α).run s = .ok (b, s') ↔ b = a ∧ s' = s := by
  simp [Pure.pure, StateT.pure, StateT.run, Except.pure, eq_comm]

theorem run_ofExcept_eq_ok {x : Except ε α} {a : α} :
    (ofExcept x).run s = .ok (a, s') ↔ x = .ok a ∧ s' = s := by
  show x >>= _ = _ ↔ _
  rw [Except.bind_eq_ok]
  constructor
  · rintro ⟨b, hx, h⟩
    obtain ⟨rfl, rfl⟩ := Prod.mk.inj (Except.ok.inj h)
    exact ⟨hx, rfl⟩
  · rintro ⟨hx, rfl⟩
    exact ⟨a, hx, rfl⟩

variable {γ : Type w}

/-- A fold with a state is a fold over pairs. -/
theorem run_foldlM {f : β → γ → StateT σ (Except ε) β} {xs : List γ} {b : β} {s : σ} :
    (xs.foldlM f b).run s = xs.foldlM (fun p x ↦ (f p.1 x).run p.2) (b, s) := by
  induction xs generalizing b s with
  | nil => rfl
  | cons x xs ih =>
    rw [List.foldlM_cons, List.foldlM_cons, StateT.run_bind]
    exact congrArg _ (funext fun p ↦ ih)

/-- A loop that ends has passed at every element. -/
theorem exists_of_forM {f : γ → StateT σ (Except ε) PUnit} {xs : List γ}
    {u : PUnit} (h : (xs.forM f).run s = .ok (u, s')) {x : γ} (hx : x ∈ xs) :
    ∃ s₁ s₂, (f x).run s₁ = .ok (⟨⟩, s₂) := by
  induction xs generalizing s with
  | nil => cases hx
  | cons first xs ih =>
    rw [List.forM_eq_forM, List.forM_cons, run_bind_eq_ok] at h
    obtain ⟨_, s₁, hfirst, hxs⟩ := h
    obtain rfl | hx := List.mem_cons.1 hx
    · exact ⟨s, s₁, hfirst⟩
    · exact ih hxs hx

/-- What every step of a fold keeps of its result holds at its end, whatever the state. -/
theorem foldlM_rule {f : β → γ → StateT σ (Except ε) β} {P : β → Prop} {xs : List γ}
    (hstep : ∀ b x b' s s', x ∈ xs → (f b x).run s = .ok (b', s') → P b → P b') {b b' : β}
    (h : (xs.foldlM f b).run s = .ok (b', s')) (hb : P b) : P b' := by
  rw [run_foldlM] at h
  exact Except.foldlM_rule (P := fun p ↦ P p.1)
    (fun p x q hx hstep' ↦ hstep p.1 x q.1 p.2 q.2 hx hstep') h hb

/-- A traversal that ends has a result at each of its elements, in order. -/
theorem forall₂_of_mapM {f : γ → StateT σ (Except ε) α} {xs : List γ} {ys : List α}
    (h : (xs.mapM f).run s = .ok (ys, s')) :
    List.Forall₂ (fun x y ↦ ∃ s₁ s₂, (f x).run s₁ = .ok (y, s₂)) xs ys := by
  induction xs generalizing ys s s' with
  | nil =>
    rw [List.mapM_nil, run_pure_eq_ok] at h
    obtain ⟨rfl, -⟩ := h
    exact .nil
  | cons x xs ih =>
    rw [List.mapM_cons, run_bind_eq_ok] at h
    obtain ⟨y, s₁, hx, h⟩ := h
    obtain ⟨ys', s₂, hxs, h⟩ := run_bind_eq_ok.1 h
    obtain ⟨rfl, -⟩ := run_pure_eq_ok.1 h
    exact .cons ⟨s, s₁, hx⟩ (ih hxs)

end StateT
