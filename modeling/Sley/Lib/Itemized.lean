import Mathlib
import Sley.Lib.Failures
import Sley.Lib.Worklist

/-!
# The bill of a walk that remembers

A walk is charged for every step, gives up when it has spent more than its limit, and does not walk
again what it remembers. What a part of it costs depends on what was walked before, but only
through what is remembered: a part is described by its **items**, one for each step that it takes,
some of which stand for a key whose own items are walked the first time.

So the cost of a walk is the number of its items and of the items of every key they lead to, each
key once (`Bill.Settles`), **whatever the order in which they are walked** (`Bill.Itemizes.of_perm`).
-/

universe u v w

/-- What a walk has spent and remembers, what it may spend, and the items of each key. -/
structure Bill (σ : Type v) (κ : Type w) where
  spent : σ → ℕ
  memo : σ → Finset κ
  body : κ → List (Option κ)
  limit : ℕ

namespace Bill

variable {ε : Type u} {σ α β : Type v} {κ : Type w} {L : Bill σ κ}

/-- The keys that the items of a key stand for. -/
def next (L : Bill σ κ) (k : κ) : Set κ := {k' | some k' ∈ L.body k}

/-- The keys that items lead to. -/
def keysOf (L : Bill σ κ) (items : List (Option κ)) : Set κ :=
  reachable L.next {k | some k ∈ items}

/-- The number of items of all the keys. -/
def worth (L : Bill σ κ) (keys : Finset κ) : ℕ := ∑ k ∈ keys, (L.body k).length

theorem worth_mono {keys keys' : Finset κ} (h : keys ⊆ keys') : L.worth keys ≤ L.worth keys' :=
  Finset.sum_le_sum_of_subset h

theorem worth_insert [DecidableEq κ] {k : κ} {keys : Finset κ} (h : k ∉ keys) :
    L.worth (insert k keys) = (L.body k).length + L.worth keys :=
  Finset.sum_insert h

theorem worth_erase [DecidableEq κ] {k : κ} {keys : Finset κ} (h : k ∈ keys) :
    L.worth (keys.erase k) + (L.body k).length = L.worth keys :=
  Finset.sum_erase_add keys (fun k ↦ (L.body k).length) h

@[simp]
theorem keysOf_nil : L.keysOf [] = ∅ := by
  ext k
  simp [keysOf, reachable]

theorem keysOf_append (items items' : List (Option κ)) :
    L.keysOf (items ++ items') = L.keysOf items ∪ L.keysOf items' := by
  ext k
  simp only [keysOf, reachable, List.mem_append, Set.mem_ofPred_eq, Set.mem_union, or_and_right,
    exists_or]

@[simp]
theorem keysOf_none : L.keysOf [none] = ∅ := by
  ext k
  simp [keysOf, reachable]

/-- A key leads to itself and to what its items lead to. -/
theorem mem_keysOf_some {k k' : κ} : k' ∈ L.keysOf [some k] ↔ k' = k ∨ k' ∈ L.keysOf (L.body k) := by
  constructor
  · rintro ⟨first, hfirst, h⟩
    obtain rfl : first = k := by simpa using hfirst
    obtain rfl | ⟨between, hstep, h⟩ := Relation.ReflTransGen.cases_head h
    · exact .inl rfl
    · exact .inr ⟨between, hstep, h⟩
  · rintro (rfl | ⟨first, hfirst, h⟩)
    · exact ⟨k', by simp, .refl⟩
    · exact ⟨k, by simp, h.head hfirst⟩

theorem keysOf_perm {items items' : List (Option κ)} (h : items.Perm items') :
    L.keysOf items = L.keysOf items' := by
  simp only [keysOf, h.mem_iff]

/-- With every key that is remembered, the keys that its items stand for are. -/
def Closed (L : Bill σ κ) (s : σ) : Prop := ∀ k ∈ L.memo s, L.keysOf (L.body k) ⊆ L.memo s

/-- The walk from `s` to `s'` has taken the items. -/
structure Settles (L : Bill σ κ) (items : List (Option κ)) (s s' : σ) : Prop where
  mem_memo : ∀ k, k ∈ L.memo s' ↔ k ∈ L.memo s ∨ k ∈ L.keysOf items
  spent : L.spent s' + L.worth (L.memo s) = L.spent s + items.length + L.worth (L.memo s')
  limit : L.spent s ≤ L.limit → L.spent s' ≤ L.limit

/-- The walk that takes the items from `s` on is over the limit, when it may remember the keys. -/
def Exceeds (L : Bill σ κ) (items : List (Option κ)) (s : σ) (keys : Finset κ) : Prop :=
  L.limit + L.worth (L.memo s) < L.spent s + items.length + L.worth keys

/-- A computation that takes the items, unless it is given up because they cost too much. -/
structure Itemizes (L : Bill σ κ) (E : Set ε) (x : StateT σ (Except ε) α)
    (items : List (Option κ)) : Prop where
  ok : ∀ {s a s'}, L.Closed s → x.run s = .ok (a, s') → L.Settles items s s'
  error : ∀ {s e} (keys : Finset κ), L.Closed s → e ∈ E → x.run s = .error e → L.memo s ⊆ keys →
    L.keysOf items ⊆ keys → L.Exceeds items s keys

variable {items items' : List (Option κ)} {s s' s₁ : σ} {E : Set ε}

theorem Closed.of_mem {k k' : κ} (h : L.Closed s) (hk : k ∈ L.memo s)
    (hk' : k' ∈ L.keysOf [some k]) : k' ∈ L.memo s := by
  obtain rfl | hk' := mem_keysOf_some.1 hk'
  · exact hk
  · exact h k hk hk'

theorem keysOf_body_subset {k : κ} (hk : k ∈ L.keysOf items) :
    L.keysOf (L.body k) ⊆ L.keysOf items := by
  rintro k' ⟨first, hfirst, h⟩
  obtain ⟨root, hroot, hrootk⟩ := hk
  exact ⟨root, hroot, (hrootk.tail hfirst).trans h⟩

namespace Settles

theorem closed (h : L.Settles items s s') (hs : L.Closed s) : L.Closed s' := by
  intro k hk k' hk'
  refine (h.mem_memo k').2 ?_
  obtain hk | hk := (h.mem_memo k).1 hk
  · exact .inl (hs k hk hk')
  · exact .inr (keysOf_body_subset hk hk')

protected theorem refl (s : σ) : L.Settles [] s s where
  mem_memo k := by simp
  spent := by simp
  limit := id

protected theorem trans (h : L.Settles items s s₁) (h' : L.Settles items' s₁ s') :
    L.Settles (items ++ items') s s' where
  mem_memo k := by rw [h'.mem_memo, h.mem_memo, keysOf_append, Set.mem_union, or_assoc]
  spent := by
    have := h.spent
    have := h'.spent
    rw [List.length_append]
    omega
  limit hs := h'.limit (h.limit hs)

end Settles

namespace Itemizes

protected theorem pure (a : α) : L.Itemizes E (pure a : StateT σ (Except ε) α) [] where
  ok _ h := by
    obtain ⟨-, rfl⟩ := StateT.run_pure_eq_ok.1 h
    exact .refl _
  error _ _ _ h := by cases h

variable {x : StateT σ (Except ε) α} {f : α → StateT σ (Except ε) β}

protected theorem bind
    (hx : L.Itemizes E x items) (hf : ∀ a, L.Itemizes E (f a) items') :
    L.Itemizes E (x >>= f) (items ++ items') where
  ok hs h := by
    obtain ⟨a, s₁, hrun, h⟩ := StateT.run_bind_eq_ok.1 h
    have hfirst := hx.ok hs hrun
    exact hfirst.trans ((hf a).ok (hfirst.closed hs) h)
  error {s e} keys hs he h hmemo hkeys := by
    rw [keysOf_append, Set.union_subset_iff] at hkeys
    rw [StateT.run_bind] at h
    rw [Exceeds, List.length_append]
    cases hrun : x.run s with
    | error e' =>
      rw [hrun] at h
      obtain rfl := Except.error.inj h
      have hover := hx.error keys hs he hrun hmemo hkeys.1
      rw [Exceeds] at hover
      omega
    | ok r =>
      rw [hrun] at h
      have hfirst := hx.ok hs hrun
      have hspent := hfirst.spent
      have hover := (hf r.1).error keys (hfirst.closed hs) he h
        (fun k hk ↦ ((hfirst.mem_memo k).1 hk).elim (hmemo ·) (hkeys.1 ·)) hkeys.2
      rw [Exceeds] at hover
      omega

theorem map {f : α → β} (hx : L.Itemizes E x items) :
    L.Itemizes E (x >>= fun a ↦ pure (f a)) items := by
  rw [← List.append_nil items]
  exact hx.bind fun a ↦ .pure (f a)

/-- A check is no step of the walk. -/
protected theorem ofExcept_bind {p : Except ε α} (hp : p.Avoids E)
    (hf : ∀ a, p = .ok a → L.Itemizes E (f a) items) :
    L.Itemizes E (StateT.ofExcept p >>= f) items := by
  cases p with
  | ok a => exact hf a rfl
  | error e =>
    refine ⟨fun _ h ↦ ?_, fun _ _ he h ↦ ?_⟩
    · cases h
    · cases h
      exact absurd he (Except.avoids_error_iff.1 hp)

protected theorem ofExcept {p : Except ε α} (hp : p.Avoids E) :
    L.Itemizes E (StateT.ofExcept p) [] := by
  rw [← bind_pure (StateT.ofExcept p)]
  exact .ofExcept_bind hp fun a _ ↦ .pure a

protected theorem foldlM {γ : Type*} {f : β → γ → StateT σ (Except ε) β} {xs : List γ}
    {items : γ → List (Option κ)} (h : ∀ b, ∀ x ∈ xs, L.Itemizes E (f b x) (items x)) (b : β) :
    L.Itemizes E (xs.foldlM f b) (xs.flatMap items) := by
  induction xs generalizing b with
  | nil => exact .pure b
  | cons x xs ih =>
    rw [List.foldlM_cons, List.flatMap_cons]
    exact (h b x List.mem_cons_self).bind fun b' ↦
      ih (fun b y hy ↦ h b y (List.mem_cons_of_mem x hy)) b'

protected theorem forM {γ : Type*} {f : γ → StateT σ (Except ε) PUnit} {xs : List γ}
    {items : γ → List (Option κ)} (h : ∀ x ∈ xs, L.Itemizes E (f x) (items x)) :
    L.Itemizes E (xs.forM f) (xs.flatMap items) := by
  induction xs with
  | nil => exact .pure _
  | cons x xs ih =>
    rw [List.forM_eq_forM, List.forM_cons, List.flatMap_cons]
    exact (h x List.mem_cons_self).bind fun _ ↦ ih fun y hy ↦ h y (List.mem_cons_of_mem x hy)

/-- **The order of the items does not matter** to whether they cost too much. -/
theorem of_perm {y : StateT σ (Except ε) β} (hx : L.Itemizes E x items)
    (hy : L.Itemizes E y items') (hperm : items.Perm items') {a : α} (hs : L.Closed s)
    (hlimit : L.spent s ≤ L.limit) (hok : x.run s = .ok (a, s')) {e : ε} (he : e ∈ E) :
    y.run s ≠ .error e := by
  intro herror
  have hsettles := hx.ok hs hok
  have hover := hy.error _ hs he herror (fun k hk ↦ (hsettles.mem_memo k).2 (.inl hk))
    fun k hk ↦ (hsettles.mem_memo k).2 (.inr (keysOf_perm hperm ▸ hk))
  have hspent := hsettles.spent
  have hwithin := hsettles.limit hlimit
  have hlength := hperm.length_eq
  rw [Exceeds] at hover
  omega

end Itemizes

/-! ### Charges -/

/-- A computation that charges one step. -/
structure Charges (L : Bill σ κ) (c : StateT σ (Except ε) PUnit) : Prop where
  ok : ∀ {s u s'}, c.run s = .ok (u, s') →
    L.spent s' = L.spent s + 1 ∧ L.memo s' = L.memo s ∧ L.spent s' ≤ L.limit
  error : ∀ {s e}, c.run s = .error e → L.limit < L.spent s + 1

theorem Charges.itemizes {c : StateT σ (Except ε) PUnit} (hc : L.Charges c) :
    L.Itemizes E c [none] where
  ok _ h := by
    obtain ⟨hspent, hmemo, hlimit⟩ := hc.ok h
    exact ⟨fun k ↦ by simp [hmemo], by rw [hspent, hmemo]; rfl, fun _ ↦ hlimit⟩
  error {s e} keys _ _ h hmemo _ := by
    have := hc.error h
    have := L.worth_mono hmemo
    rw [Exceeds, List.length_singleton]
    omega

/-- A computation that takes the items of a key and notes it. -/
structure Notes [DecidableEq κ] (L : Bill σ κ) (E : Set ε) (k : κ) (x : StateT σ (Except ε) α) :
    Prop where
  ok : ∀ {s a s'}, L.Closed s → x.run s = .ok (a, s') → ∃ s₁, L.Settles (L.body k) s s₁ ∧
    L.memo s' = insert k (L.memo s₁) ∧ L.spent s' = L.spent s₁
  error : ∀ {s e} (keys : Finset κ), L.Closed s → e ∈ E → x.run s = .error e → L.memo s ⊆ keys →
    L.keysOf (L.body k) ⊆ keys → L.Exceeds (L.body k) s keys

section Notes

variable [DecidableEq κ] {k : κ}

theorem Itemizes.note {x : StateT σ (Except ε) α} {g : α → σ → σ} {f : α → β}
    (hx : L.Itemizes E x (L.body k))
    (hg : ∀ a s, L.memo (g a s) = insert k (L.memo s) ∧ L.spent (g a s) = L.spent s) :
    L.Notes E k (x >>= fun a ↦ modify (g a) >>= fun _ ↦ pure (f a)) where
  ok hs h := by
    obtain ⟨a, s₁, hrun, h⟩ := StateT.run_bind_eq_ok.1 h
    obtain ⟨-, rfl⟩ := Prod.mk.inj (Except.ok.inj h)
    exact ⟨s₁, hx.ok hs hrun, hg a s₁⟩
  error {s e} keys hs he h hmemo hkeys := by
    rw [StateT.run_bind] at h
    cases hrun : x.run s with
    | error e' =>
      rw [hrun] at h
      obtain rfl := Except.error.inj h
      exact hx.error keys hs he hrun hmemo hkeys
    | ok r =>
      rw [hrun] at h
      cases h

theorem Itemizes.noteChecked {x : StateT σ (Except ε) PUnit} {g : σ → σ}
    (hx : L.Itemizes E x (L.body k))
    (hg : ∀ s, L.memo (g s) = insert k (L.memo s) ∧ L.spent (g s) = L.spent s) :
    L.Notes E k (x >>= fun _ ↦ modify g) :=
  hx.note (f := id) fun _ ↦ hg

/-- A check before the items of a key. -/
theorem Notes.ofExcept_bind {p : Except ε α} {f : α → StateT σ (Except ε) β} (hp : p.Avoids E)
    (hf : ∀ a, p = .ok a → L.Notes E k (f a)) : L.Notes E k (StateT.ofExcept p >>= f) := by
  cases p with
  | ok a => exact hf a rfl
  | error e =>
    refine ⟨fun _ h ↦ ?_, fun _ _ he h ↦ ?_⟩
    · cases h
    · cases h
      exact absurd he (Except.avoids_error_iff.1 hp)

/-- **A key is one item**: it is looked up, or its items are taken and it is noted. -/
theorem Itemizes.recall {c : StateT σ (Except ε) PUnit} {f : σ → StateT σ (Except ε) α}
    (hc : L.Charges c) (hacyclic : k ∉ L.keysOf (L.body k))
    (hhit : ∀ s, k ∈ L.memo s → L.Itemizes E (f s) [])
    (hmiss : ∀ s, k ∉ L.memo s → L.Notes E k (f s)) :
    L.Itemizes E (c >>= fun _ ↦ get >>= f) [some k] where
  ok {s a s'} hs h := by
    obtain ⟨_, s₁, hcharge, h⟩ := StateT.run_bind_eq_ok.1 h
    change (f s₁).run s₁ = .ok (a, s') at h
    obtain ⟨hspent₁, hmemo₁, hlimit₁⟩ := hc.ok hcharge
    have hs₁ : L.Closed s₁ := by rwa [Closed, hmemo₁]
    by_cases hk : k ∈ L.memo s₁
    · have hsettles := (hhit s₁ hk).ok hs₁ h
      have hsame : L.memo s' = L.memo s := by
        ext k'
        rw [hsettles.mem_memo, hmemo₁, keysOf_nil]
        simp
      refine ⟨fun k' ↦ ?_, ?_, fun _ ↦ hsettles.limit hlimit₁⟩
      · rw [hsame]
        exact ⟨.inl, fun h ↦ h.elim id (hs.of_mem (hmemo₁ ▸ hk))⟩
      · have := hsettles.spent
        rw [hmemo₁, hsame, List.length_nil] at this
        rw [hsame, List.length_singleton]
        omega
    · obtain ⟨s₂, hsettles, hmemo', hspent'⟩ := (hmiss s₁ hk).ok hs₁ h
      have hfresh : k ∉ L.memo s₂ := fun hmem ↦
        ((hsettles.mem_memo k).1 hmem).elim hk hacyclic
      refine ⟨fun k' ↦ ?_, ?_, fun _ ↦ ?_⟩
      · rw [hmemo', Finset.mem_insert, hsettles.mem_memo, hmemo₁, mem_keysOf_some]
        exact or_left_comm
      · have := hsettles.spent
        rw [hmemo₁] at this
        rw [hmemo', hspent', worth_insert hfresh, List.length_singleton]
        omega
      · rw [hspent']
        exact hsettles.limit hlimit₁
  error {s e} keys hs he h hmemo hkeys := by
    have hmem : k ∈ keys := hkeys (mem_keysOf_some.2 (.inl rfl))
    have hmono := L.worth_mono hmemo
    rw [Exceeds, List.length_singleton]
    rw [StateT.run_bind] at h
    cases hcharge : c.run s with
    | error e' =>
      have := hc.error hcharge
      omega
    | ok r =>
      rw [hcharge] at h
      obtain ⟨hspent₁, hmemo₁, -⟩ := hc.ok hcharge
      change (f r.2).run r.2 = .error e at h
      have hs₁ : L.Closed r.2 := by rwa [Closed, hmemo₁]
      by_cases hk : k ∈ L.memo r.2
      · have hover := (hhit r.2 hk).error keys hs₁ he h (hmemo₁ ▸ hmemo) (by simp)
        rw [Exceeds, hmemo₁, hspent₁, List.length_nil] at hover
        exact hover
      · -- the key itself is not needed for its items
        have hover := (hmiss r.2 hk).error (keys.erase k) hs₁ he h
          (fun k' hk' ↦ Finset.mem_erase.2
            ⟨fun heq ↦ hk (heq ▸ hk'), hmemo (hmemo₁ ▸ hk')⟩)
          (fun k' hk' ↦ Finset.mem_coe.2 (Finset.mem_erase.2
            ⟨fun heq ↦ hacyclic (heq ▸ hk'), hkeys (mem_keysOf_some.2 (.inr hk'))⟩))
        have hworth := L.worth_erase hmem
        rw [Exceeds, hmemo₁, hspent₁] at hover
        omega

end Notes

end Bill
