import Sley.Lib.Cursor

/-!
# Writers and parsers that invert each other

A *writer* appends to an output and may refuse; a *parser* reads from a cursor and may refuse. The
two errors need not agree and neither do the reasons for refusing: a writer has only so much
`room`. What makes a format canonical is that **the parser reads back exactly what the writer
wrote, and accepts nothing else**, and that is `Wire.InverseOn`.

The predicate `S` of `InverseOn S w p` is what makes the notion compositional. A record is written
field after field and parsed field after field; after the first fields are known, the values still
in question are the records *with those fields*. So the rule `field` narrows `S` by one equation,
and `done` closes the record once the equations leave one value. A tagged union is the same: its
tag is a field, and after it `image` moves to the constructor's argument. Proofs about a codec then
follow its program text, one rule for each line of it.
-/

universe u v

namespace Wire

variable {δ : Type} {ε ε' : Type u} {α β : Type}

/-- Appends to an output, or refuses. -/
abbrev Writer (ε : Type u) (δ : Type) := List δ → Except ε (List δ)

/-- Reads a value from a cursor, or refuses. -/
abbrev Parser (ε : Type u) (δ : Type) := StateT (Cursor δ) (Except ε)

/-- Refuse. -/
def refuse (e : ε) : Parser ε δ α := fun _ ↦ .error e

/-- One writer after the other. -/
def andThen (w w' : Writer ε δ) : Writer ε δ := fun out ↦ w out >>= w'

/-- Write every item of a list in turn. -/
def each (w : α → Writer ε δ) (as : List α) : Writer ε δ :=
  fun out ↦ as.foldlM (fun out a ↦ w a out) out

/-- Parse exactly `n` items. -/
def times (p : Parser ε δ α) : Nat → Parser ε δ (List α)
  | 0 => pure []
  | n + 1 => do
    let a ← p
    let as ← times p n
    pure (a :: as)

/-- Where `xs` comes next, `p` reads it as `a`. -/
def Parses (p : Parser ε δ α) (a : α) (xs : List δ) : Prop :=
  ∀ ⦃c c' : Cursor δ⦄, c.Consumes xs c' → p.run c = .ok (a, c')

/-- `w` appends `xs` to every output that has room for it. -/
def Emits (room : Nat) (w : Writer ε δ) (xs : List δ) : Prop :=
  ∀ ⦃out : List δ⦄, (out ++ xs).length ≤ room → w out = .ok (out ++ xs)

/-- `w` only ever appends, and stays within the room. -/
def Appends (room : Nat) (w : Writer ε δ) : Prop :=
  ∀ ⦃out out' : List δ⦄, out.length ≤ room → w out = .ok out' →
    out <+: out' ∧ out'.length ≤ room

/-- On the values `b` of `S`, what `w` writes for `b` the parser reads back as `mk b`; and it reads
nothing else. -/
structure InverseOn (room : Nat) (mk : β → α) (S : β → Prop) (w : β → Writer ε δ)
    (p : Parser ε' δ α) : Prop where
  written : ∀ {b : β} {out out' : List δ}, S b → out.length ≤ room → w b out = .ok out' →
    ∃ xs, out' = out ++ xs ∧ out'.length ≤ room ∧ Parses p (mk b) xs
  parsed : ∀ {c c' : Cursor δ} {a : α}, p.run c = .ok (a, c') →
    ∃ b, mk b = a ∧ S b ∧ ∃ xs, c.Consumes xs c' ∧ Emits room (w b) xs

/-- `InverseOn` every value, read back as itself. -/
abbrev Inverse (room : Nat) (w : α → Writer ε δ) (p : Parser ε' δ α) : Prop :=
  InverseOn room id (fun _ ↦ True) w p

theorem andThen_eq_ok {w w' : Writer ε δ} {out out' : List δ} :
    andThen w w' out = .ok out' ↔ ∃ mid, w out = .ok mid ∧ w' mid = .ok out' :=
  Except.bind_eq_ok

@[simp]
theorem andThen_ok (w : Writer ε δ) : andThen w .ok = w := by
  funext out
  exact bind_pure (w out)

theorem Parses.pure (a : α) : Parses (Pure.pure a : Parser ε δ α) a [] := by
  intro c c' hc
  exact StateT.run_pure_eq_ok.2 ⟨rfl, hc.unique (Cursor.Consumes.refl c)⟩

theorem Parses.bind {p : Parser ε δ α} {q : α → Parser ε δ β} {a : α} {b : β} {xs ys : List δ}
    (hp : Parses p a xs) (hq : Parses (q a) b ys) : Parses (p >>= q) b (xs ++ ys) := by
  intro c c' hc
  obtain ⟨c₁, h₁, h₂⟩ := hc.split
  exact StateT.run_bind_eq_ok.2 ⟨a, c₁, hp h₁, hq h₂⟩

theorem Parses.map {p : Parser ε δ α} {a : α} {xs : List δ} (hp : Parses p a xs) (m : α → β) :
    Parses (p >>= fun y ↦ Pure.pure (m y)) (m a) xs := by
  have h := hp.bind (q := fun y ↦ Pure.pure (m y)) (Parses.pure (m a))
  rwa [List.append_nil] at h

theorem Emits.andThen {room : Nat} {w w' : Writer ε δ} {xs ys : List δ}
    (hw : Emits room w xs) (hw' : Emits room w' ys) :
    Emits room (Wire.andThen w w') (xs ++ ys) := by
  intro out hroom
  rw [← List.append_assoc] at hroom ⊢
  refine andThen_eq_ok.2 ⟨out ++ xs, hw ?_, hw' hroom⟩
  rw [List.length_append] at hroom
  omega

namespace Appends

variable {room : Nat}

theorem ok : Appends room (.ok : Writer ε δ) := by
  intro out out' hout h
  obtain rfl := Except.ok.inj h
  exact ⟨List.prefix_rfl, hout⟩

theorem andThen {w w' : Writer ε δ} (hw : Appends room w) (hw' : Appends room w') :
    Appends room (Wire.andThen w w') := by
  intro out out' hout h
  obtain ⟨mid, h₁, h₂⟩ := andThen_eq_ok.1 h
  obtain ⟨hpre, hmid⟩ := hw hout h₁
  obtain ⟨hpre', hend⟩ := hw' hmid h₂
  exact ⟨hpre.trans hpre', hend⟩

theorem each {w : α → Writer ε δ} (hw : ∀ a, Appends room (w a)) (as : List α) :
    Appends room (Wire.each w as) := by
  induction as with
  | nil => exact ok
  | cons a as ih => exact (hw a).andThen ih

end Appends

namespace Inverse

variable {room : Nat} {w : α → Writer ε δ} {p : Parser ε' δ α}

theorem parses (h : Inverse room w p) {a : α} {out out' : List δ} (hout : out.length ≤ room)
    (hw : w a out = .ok out') : ∃ xs, out' = out ++ xs ∧ out'.length ≤ room ∧ Parses p a xs :=
  h.written trivial hout hw

theorem appends (h : Inverse room w p) (a : α) : Appends room (w a) := by
  intro out out' hout hw
  obtain ⟨xs, rfl, hend, -⟩ := h.parses hout hw
  exact ⟨List.prefix_append out xs, hend⟩

theorem emits (h : Inverse room w p) {a : α} {c c' : Cursor δ} (hp : p.run c = .ok (a, c')) :
    ∃ xs, c.Consumes xs c' ∧ Emits room (w a) xs := by
  obtain ⟨b, rfl, -, hb⟩ := h.parsed hp
  exact hb

end Inverse

namespace InverseOn

variable {γ : Type} {room : Nat} {mk : β → α} {S : β → Prop} {w : β → Writer ε δ}
  {p : Parser ε' δ α}

/-- Nothing is left to write and one value is left. -/
theorem done {a : α} {b : β} (h : ∀ x, S x ↔ x = b) (hw : w b = .ok) (ha : mk b = a) :
    InverseOn room mk S w (pure a : Parser ε' δ α) where
  written := by
    intro x out out' hx hout hwx
    obtain rfl := (h x).1 hx
    rw [hw] at hwx
    obtain rfl := Except.ok.inj hwx
    exact ⟨[], (List.append_nil _).symm, hout, by rw [ha]; exact Parses.pure a⟩
  parsed := by
    intro c c' x hp
    obtain ⟨rfl, rfl⟩ := StateT.run_pure_eq_ok.1 hp
    exact ⟨b, ha, (h b).2 rfl, [], Cursor.Consumes.refl _, fun out _ ↦ by rw [hw, List.append_nil]⟩

/-- A parser that refuses, where no value is left. -/
theorem refuse {e : ε'} (h : ∀ x, ¬ S x) : InverseOn room mk S w (Wire.refuse e) where
  written hx := absurd hx (h _)
  parsed hp := nomatch hp

variable {w₁ : γ → Writer ε δ} {p₁ : Parser ε' δ γ} {P : γ → Parser ε' δ α}

/-- The first field of a record: what is left are the records with that field. -/
theorem field (f : β → γ) (h₁ : Inverse room w₁ p₁)
    (h : ∀ y, InverseOn room mk (fun x ↦ S x ∧ f x = y) w (P y)) :
    InverseOn room mk S (fun x ↦ andThen (w₁ (f x)) (w x)) (p₁ >>= P) where
  written := by
    intro b out out' hb hout hw
    obtain ⟨mid, hw₁, hw₂⟩ := andThen_eq_ok.1 hw
    obtain ⟨xs, rfl, hmid, hxs⟩ := h₁.parses hout hw₁
    obtain ⟨ys, rfl, hend, hys⟩ := (h (f b)).written ⟨hb, rfl⟩ hmid hw₂
    exact ⟨xs ++ ys, List.append_assoc .., hend, hxs.bind hys⟩
  parsed := by
    intro c c' a hp
    obtain ⟨y, c₁, hp₁, hp₂⟩ := StateT.run_bind_eq_ok.1 hp
    obtain ⟨xs, hxs, hw₁⟩ := h₁.emits hp₁
    obtain ⟨b, rfl, ⟨hb, rfl⟩, ys, hys, hw₂⟩ := (h y).parsed hp₂
    exact ⟨b, rfl, hb, xs ++ ys, hxs.trans hys, hw₁.andThen hw₂⟩

/-- A value that is written as one field of it and nothing else. -/
theorem fieldOnly (f : β → γ) (h₁ : Inverse room w₁ p₁)
    (h : ∀ y, InverseOn room mk (fun x ↦ S x ∧ f x = y) (fun _ ↦ (.ok : Writer ε δ)) (P y)) :
    InverseOn room mk S (fun x ↦ w₁ (f x)) (p₁ >>= P) := by
  simpa using field f h₁ h

/-- The last field of a record: the fields before it and this one leave one record. -/
theorem last {g : γ → β} {m : γ → α}
    (f : β → γ) (h₁ : Inverse room w₁ p₁) (h : ∀ y x, (S x ∧ f x = y) ↔ x = g y)
    (hm : ∀ y, mk (g y) = m y) :
    InverseOn room mk S (fun x ↦ w₁ (f x)) (p₁ >>= fun y ↦ pure (m y)) where
  written := by
    intro b out out' hb hout hw
    obtain ⟨xs, rfl, hend, hxs⟩ := h₁.parses hout hw
    refine ⟨xs, rfl, hend, ?_⟩
    rw [(h (f b) b).1 ⟨hb, rfl⟩, hm]
    exact hxs.map m
  parsed := by
    intro c c' a hp
    obtain ⟨y, c₁, hp₁, hp₂⟩ := StateT.run_bind_eq_ok.1 hp
    obtain ⟨rfl, rfl⟩ := StateT.run_pure_eq_ok.1 hp₂
    obtain ⟨xs, hxs, hw⟩ := h₁.emits hp₁
    obtain ⟨hb, hf⟩ := (h y _).2 rfl
    exact ⟨g y, hm y, hb, xs, hxs, by rw [hf]; exact hw⟩

/-- The values of `S` are those of one constructor: compare at its arguments. -/
theorem image {w' : γ → Writer ε δ} (con : γ → β) (hS : ∀ x, S x ↔ ∃ y, con y = x)
    (hw : ∀ y, w (con y) = w' y)
    (h : InverseOn room (fun y ↦ mk (con y)) (fun _ ↦ True) w' p) : InverseOn room mk S w p where
  written := by
    intro b out out' hb hout hwb
    obtain ⟨y, rfl⟩ := (hS b).1 hb
    rw [hw y] at hwb
    exact h.written trivial hout hwb
  parsed := by
    intro c c' a hp
    obtain ⟨y, rfl, -, xs, hxs, hwy⟩ := h.parsed hp
    exact ⟨con y, rfl, (hS _).2 ⟨y, rfl⟩, xs, hxs, by rw [hw y]; exact hwy⟩

theorem congr (w' : β → Writer ε δ) (hw : ∀ x, w x = w' x) (h : InverseOn room mk S w' p) :
    InverseOn room mk S w p := by
  obtain rfl : w = w' := funext hw
  exact h

/-- A constructor with one argument. -/
theorem map {m : γ → α} (con : γ → β)
    (hS : ∀ x, S x ↔ ∃ y, con y = x) (hw : ∀ y, w (con y) = w₁ y) (h₁ : Inverse room w₁ p₁)
    (hm : ∀ y, mk (con y) = m y) : InverseOn room mk S w (p₁ >>= fun y ↦ pure (m y)) :=
  image con hS hw (last id h₁ (g := id) (by simp) hm)

/-- A constructor with two arguments. -/
theorem map₂ {γ₂ : Type} {w₂ : γ₂ → Writer ε δ}
    {p₂ : Parser ε' δ γ₂} {m : γ → γ₂ → α} (con : γ → γ₂ → β)
    (hS : ∀ x, S x ↔ ∃ q : γ × γ₂, con q.1 q.2 = x)
    (hw : ∀ y z, w (con y z) = andThen (w₁ y) (w₂ z))
    (h₁ : Inverse room w₁ p₁) (h₂ : Inverse room w₂ p₂) (hm : ∀ y z, mk (con y z) = m y z) :
    InverseOn room mk S w (p₁ >>= fun y ↦ p₂ >>= fun z ↦ pure (m y z)) :=
  image (fun q : γ × γ₂ ↦ con q.1 q.2) hS (fun q ↦ hw q.1 q.2) <| field Prod.fst h₁ fun y ↦
      last Prod.snd h₂ (g := fun z ↦ (y, z)) (by simp [Prod.ext_iff]) fun z ↦ hm y z

/-- A constructor with three arguments. -/
theorem map₃ {γ₂ γ₃ : Type} {w₂ : γ₂ → Writer ε δ}
    {p₂ : Parser ε' δ γ₂} {w₃ : γ₃ → Writer ε δ} {p₃ : Parser ε' δ γ₃} {m : γ → γ₂ → γ₃ → α}
    (con : γ → γ₂ → γ₃ → β) (hS : ∀ x, S x ↔ ∃ q : γ × γ₂ × γ₃, con q.1 q.2.1 q.2.2 = x)
    (hw : ∀ y z u, w (con y z u) = andThen (w₁ y) (andThen (w₂ z) (w₃ u)))
    (h₁ : Inverse room w₁ p₁) (h₂ : Inverse room w₂ p₂) (h₃ : Inverse room w₃ p₃)
    (hm : ∀ y z u, mk (con y z u) = m y z u) :
    InverseOn room mk S w (p₁ >>= fun y ↦ p₂ >>= fun z ↦ p₃ >>= fun u ↦ pure (m y z u)) :=
  image (fun q : γ × γ₂ × γ₃ ↦ con q.1 q.2.1 q.2.2) hS (fun q ↦ hw q.1 q.2.1 q.2.2) <|
    field Prod.fst h₁ fun y ↦ field (fun q ↦ q.2.1) h₂ fun z ↦
      last (fun q ↦ q.2.2) h₃ (g := fun u ↦ (y, z, u)) (by simp [Prod.ext_iff, and_assoc])
        fun u ↦ hm y z u

/-- Parsing `n` items inverts writing a list of `n` items; induction on `n`. -/
theorem times {w : α → Writer ε δ} {p : Parser ε' δ α} (h : Inverse room w p) (n : Nat) :
    InverseOn room id (fun as : List α ↦ as.length = n) (each w) (Wire.times p n) := by
  induction n with
  | zero => exact done (b := []) (fun _ ↦ List.length_eq_zero_iff) rfl rfl
  | succ n ih =>
    constructor
    · intro as out out' has hout hw
      obtain ⟨a, as, rfl⟩ := List.exists_cons_of_length_eq_add_one has
      obtain ⟨mid, hw₁, hw₂⟩ := Except.bind_eq_ok.1 hw
      obtain ⟨xs, rfl, hmid, hxs⟩ := h.parses hout hw₁
      obtain ⟨ys, rfl, hend, hys⟩ := ih.written (Nat.succ.inj has) hmid hw₂
      exact ⟨xs ++ ys, List.append_assoc .., hend, hxs.bind (hys.map (a :: ·))⟩
    · intro c c' as hp
      obtain ⟨a, c₁, hp₁, hrest⟩ := StateT.run_bind_eq_ok.1 hp
      obtain ⟨as', c₂, hp₂, hend⟩ := StateT.run_bind_eq_ok.1 hrest
      obtain ⟨rfl, rfl⟩ := StateT.run_pure_eq_ok.1 hend
      obtain ⟨xs, hxs, hw₁⟩ := h.emits hp₁
      obtain ⟨as'', rfl, hlen, ys, hys, hw₂⟩ := ih.parsed hp₂
      exact ⟨a :: as'', rfl, by rw [List.length_cons, hlen], xs ++ ys, hxs.trans hys,
        hw₁.andThen hw₂⟩

end InverseOn

end Wire
