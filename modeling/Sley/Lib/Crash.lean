import Mathlib
import Sley.Lib.Outcome

/-!
# Programs that may be cut short

A program on a durable state is what it leaves behind after each of its durable steps, and its outcome
(`Durably`). A crash cuts the list of steps at some point and loses everything else, so **a statement
about every state a program passes through is a statement about every crash** (`Durably.Meets`): it
has a condition on all of these states and one on the last, and it composes like a Hoare triple. That
a program does come to an end, and how, is `Durably.Succeeds`.

What any sequence of programs, each of them cut short or not, can leave behind is
`Durably.Reachable`. A statement about what the completed ones returned is about a `Durably.World`,
which keeps them as events, and about everything that `Durably.Happens` in it.

The second part is a disk: files by their paths, with the steps that a host makes atomic. Files under
stage names are of no interest to a reader, so what a program does is said up to them (`Disk.Agrees`,
`Disk.Puts`).
-/

universe u v w

/-- A program on a durable state: the states after each durable step, and the outcome. -/
def Durably (σ : Type u) (ε : Type v) (α : Type w) := σ → List σ × Except ε α

namespace Durably

variable {σ : Type u} {ε : Type v} {α β : Type w} {s : σ}

/-- The state a program stops in, when nothing cuts it short. -/
def final (p : Durably σ ε α) (s : σ) : σ := (p s).1.getLastD s

instance : Monad (Durably σ ε) where
  pure a := fun _ ↦ ([], .ok a)
  bind p q := fun s ↦
    match p s with
    | (passed, .error e) => (passed, .error e)
    | (passed, .ok a) =>
      let (passed', result) := q a (passed.getLastD s)
      (passed ++ passed', result)

/-- One durable step. -/
def step (f : σ → σ) : Durably σ ε PUnit := fun s ↦ ([f s], .ok ⟨⟩)

/-- What the state says, which may be a failure; nothing durable happens. -/
def ofState (f : σ → Except ε α) : Durably σ ε α := fun s ↦ ([], f s)

def ofExcept (x : Except ε α) : Durably σ ε α := ofState fun _ ↦ x

section Bind

variable {p : Durably σ ε α} {q : α → Durably σ ε β} {a : α} {b : β}

theorem bind_of_error {e : ε} (h : (p s).2 = .error e) : (p >>= q) s = ((p s).1, .error e) := by
  show (match p s with | (passed, .error e) => _ | (passed, .ok a) => _) = _
  rw [← Prod.eta (p s), h]

theorem bind_of_ok (h : (p s).2 = .ok a) :
    (p >>= q) s = ((p s).1 ++ (q a (p.final s)).1, (q a (p.final s)).2) := by
  show (match p s with | (passed, .error e) => _ | (passed, .ok a) => _) = _
  rw [← Prod.eta (p s), h]
  rfl

/-- The second program ends where the whole does. -/
theorem final_bind (h : (p s).2 = .ok a) : (p >>= q).final s = (q a).final (p.final s) := by
  show ((p >>= q) s).1.getLastD s = (q a (p.final s)).1.getLastD (p.final s)
  rw [bind_of_ok h, List.getLastD_eq_getLast?, List.getLast?_append, List.getLastD_eq_getLast?]
  cases (q a (p.final s)).1.getLast? with
  | some last => rfl
  | none => exact (List.getLastD_eq_getLast? ..).symm

/-- A program succeeds if its parts do, one after the other. -/
theorem succeeds_bind (hp : (p s).2 = .ok a) (hq : (q a (p.final s)).2 = .ok b) :
    ((p >>= q) s).2 = .ok b := by
  rw [bind_of_ok hp]
  exact hq

end Bind

/-! ### What a program meets -/

/-- Every state on the way is as `crash` says, and after a success the last one as `post` says. -/
structure Meets (p : Durably σ ε α) (s : σ) (crash : σ → Prop) (post : α → σ → Prop) : Prop where
  passed : ∀ s' ∈ (p s).1, crash s'
  ends : ∀ a, (p s).2 = .ok a → post a (p.final s)

variable {p : Durably σ ε α} {q : α → Durably σ ε β} {crash crash' : σ → Prop}
  {post post' : α → σ → Prop}

theorem Meets.imp (h : p.Meets s crash post) (hcrash : ∀ s', crash s' → crash' s')
    (hpost : ∀ a s', post a s' → post' a s') : p.Meets s crash' post' :=
  ⟨fun s' hs' ↦ hcrash s' (h.passed s' hs'), fun a ha ↦ hpost a _ (h.ends a ha)⟩

/-- A program whose steps satisfy a condition ends in a state that does. -/
theorem Meets.final (h : p.Meets s crash post) (hs : crash s) : crash (p.final s) := by
  cases List.mem_cons.1 (List.getLastD_mem_cons : (p s).1.getLastD s ∈ s :: (p s).1) with
  | inl heq =>
    rw [Durably.final, heq]
    exact hs
  | inr hmem => exact h.passed _ hmem

theorem meets_pure {a : α} (h : post a s) : (pure a : Durably σ ε α).Meets s crash post :=
  ⟨fun _ h ↦ (List.not_mem_nil h).elim, fun _ ha ↦ Except.ok.inj ha ▸ h⟩

theorem meets_step {f : σ → σ} {post : PUnit → σ → Prop} (hcrash : crash (f s))
    (hpost : post ⟨⟩ (f s)) : (step f : Durably σ ε PUnit).Meets s crash post :=
  ⟨fun _ h ↦ List.mem_singleton.1 h ▸ hcrash, fun _ _ ↦ hpost⟩

theorem meets_ofState {f : σ → Except ε α} (h : ∀ a, f s = .ok a → post a s) :
    (ofState f).Meets s crash post :=
  ⟨fun _ h ↦ (List.not_mem_nil h).elim, h⟩

theorem meets_ofExcept {x : Except ε α} (h : ∀ a, x = .ok a → post a s) :
    (ofExcept x : Durably σ ε α).Meets s crash post :=
  meets_ofState h

/-- **Programs compose**: the second starts where the first ended. -/
theorem meets_bind {post : β → σ → Prop}
    (h : p.Meets s crash fun a s' ↦ (q a).Meets s' crash post) :
    (p >>= q).Meets s crash post := by
  cases hp : (p s).2 with
  | error e =>
    refine ⟨fun s' hs' ↦ ?_, fun b hb ↦ ?_⟩
    · rw [bind_of_error hp] at hs'
      exact h.passed s' hs'
    · rw [bind_of_error hp] at hb
      cases hb
  | ok a =>
    refine ⟨fun s' hs' ↦ ?_, fun b hb ↦ ?_⟩
    · rw [bind_of_ok hp, List.mem_append] at hs'
      exact hs'.elim (h.passed s') ((h.ends a hp).passed s')
    · rw [bind_of_ok hp] at hb
      rw [final_bind hp]
      exact (h.ends a hp).ends b hb

/-- A loop keeps what each of its turns keeps, over the turns still to come. -/
theorem meets_forM {γ : Type*} {f : γ → Durably σ ε PUnit} {xs : List γ}
    {I : List γ → σ → Prop} (hstart : I xs s)
    (hturn : ∀ x rest s, I (x :: rest) s → (f x).Meets s crash fun _ s' ↦ I rest s') :
    (xs.forM f).Meets s crash fun _ s' ↦ I [] s' := by
  induction xs generalizing s with
  | nil => exact meets_pure hstart
  | cons x rest ih => exact meets_bind ((hturn x rest s hstart).imp (fun _ h ↦ h) fun _ _ h ↦ ih h)

/-! ### What a program achieves -/

/-- The program comes to an end, as `post` says. -/
def Succeeds (p : Durably σ ε α) (s : σ) (post : α → σ → Prop) : Prop :=
  ∃ a, (p s).2 = .ok a ∧ post a (p.final s)

theorem succeeds_pure {a : α} (h : post a s) : (pure a : Durably σ ε α).Succeeds s post :=
  ⟨a, rfl, h⟩

theorem succeeds_step {f : σ → σ} {post : PUnit → σ → Prop} (h : post ⟨⟩ (f s)) :
    (step f : Durably σ ε PUnit).Succeeds s post :=
  ⟨⟨⟩, rfl, h⟩

theorem succeeds_ofState {f : σ → Except ε α} {a : α} (ha : f s = .ok a) (h : post a s) :
    (ofState f).Succeeds s post :=
  ⟨a, ha, h⟩

theorem succeeds_ofExcept {x : Except ε α} {a : α} (ha : x = .ok a) (h : post a s) :
    (ofExcept x : Durably σ ε α).Succeeds s post :=
  succeeds_ofState ha h

/-- The second program starts where the first ended, and ends where the whole does. -/
theorem Succeeds.bind {post : β → σ → Prop}
    (h : p.Succeeds s fun a s' ↦ (q a).Succeeds s' post) : (p >>= q).Succeeds s post := by
  obtain ⟨a, ha, b, hb, hpost⟩ := h
  refine ⟨b, succeeds_bind ha hb, ?_⟩
  rw [final_bind ha]
  exact hpost

theorem Succeeds.imp (h : p.Succeeds s post) (hpost : ∀ a s', post a s' → post' a s') :
    p.Succeeds s post' := by
  obtain ⟨a, ha, h⟩ := h
  exact ⟨a, ha, hpost a _ h⟩

/-! ### What changes at one point -/

section Atomic

variable {γ : Type*} {f : σ → γ}

end Atomic

/-! ### What any sequence of programs leaves behind -/

variable {ι : Type*} {program : ι → Durably σ ε α} {admits : σ → ι → Prop} {start I : σ → Prop}

/-! ### Calls and what they returned -/

/-- A completed call: what it found, what it left, and its outcome. -/
structure Event (σ : Type u) (ε : Type v) (α : Type w) (ι : Type*) where
  call : ι
  before : σ
  after : σ
  outcome : Except ε α

/-- A durable state among surroundings, and the calls completed so far, the latest first. -/
structure World (σ : Type u) (ε : Type v) (α : Type w) (ι γ : Type*) where
  around : γ
  state : σ
  events : List (Event σ ε α ι)

/-- The surroundings change, a crash cuts a call short, or a call is completed. -/
inductive Happens {γ : Type*} (program : ι → Durably σ ε α) (changes : γ → γ → Prop)
    (admits : γ → ι → Prop) : World σ ε α ι γ → World σ ε α ι γ → Prop
  | change {w : World σ ε α ι γ} {around : γ} (h : changes w.around around) :
      Happens program changes admits w { w with around }
  | cut {w : World σ ε α ι γ} {i : ι} {state : σ} (hi : admits w.around i)
      (h : state ∈ (program i w.state).1) : Happens program changes admits w { w with state }
  | complete {w : World σ ε α ι γ} {i : ι} (hi : admits w.around i) :
      Happens program changes admits w
        { w with
          state := (program i).final w.state
          events := ⟨i, w.state, (program i).final w.state, (program i w.state).2⟩ :: w.events }

/-- **An invariant of everything that happens is one of every later world.** -/
theorem Happens.invariant {γ : Type*} {changes : γ → γ → Prop} {admits : γ → ι → Prop}
    {I : World σ ε α ι γ → Prop} {w w' : World σ ε α ι γ}
    (h : Relation.ReflTransGen (Happens program changes admits) w w') (hw : I w)
    (hstep : ∀ w w', I w → Happens program changes admits w w' → I w') : I w' := by
  induction h with
  | refl => exact hw
  | tail _ hlast ih => exact hstep _ _ ih hlast

end Durably

/-! ### A disk -/

/-- Files by their paths. -/
abbrev Disk (π β : Type*) := AList fun _ : π ↦ β

namespace Disk

variable {π β : Type*} [DecidableEq π]

/-- Create a file or replace its content. -/
def write (path : π) (content : β) (disk : Disk π β) : Disk π β := disk.insert path content

/-- A second name for a file. -/
def link (source target : π) (disk : Disk π β) : Disk π β :=
  match disk.lookup source with
  | some content => disk.insert target content
  | none => disk

/-- A new name for a file, in place of what had it. -/
def rename (source target : π) (disk : Disk π β) : Disk π β :=
  match disk.lookup source with
  | some content => (disk.erase source).insert target content
  | none => disk

def unlink (path : π) (disk : Disk π β) : Disk π β := disk.erase path

/-- Flushing a file or a directory changes nothing that a reader sees. -/
def sync (disk : Disk π β) : Disk π β := disk

variable {disk : Disk π β} {path other source target : π} {content : β}

theorem lookup_write : (disk.write path content).lookup other =
      if other = path then some content else disk.lookup other := by
  split
  · rename_i heq
    rw [heq]
    exact AList.lookup_insert disk
  · rename_i hne
    exact AList.lookup_insert_ne hne

theorem lookup_link (h : disk.lookup source = some content) :
    (disk.link source target).lookup other =
      if other = target then some content else disk.lookup other := by
  rw [link, h]
  exact lookup_write

theorem lookup_unlink :
    (disk.unlink path).lookup other = if other = path then none else disk.lookup other := by
  split
  · rename_i heq
    rw [heq]
    exact AList.lookup_erase path disk
  · rename_i hne
    exact AList.lookup_erase_ne hne

theorem lookup_rename (h : disk.lookup source = some content) :
    (disk.rename source target).lookup other =
      if other = target then some content
      else if other = source then none else disk.lookup other := by
  rw [rename, h]
  exact lookup_write.trans (if_congr Iff.rfl rfl lookup_unlink)

/-! ### Up to stage files -/

variable {isStage : π → Bool} {disk₁ disk₂ : Disk π β} {final stage : π}

/-- The disks are the same, apart from stage files. -/
def Agrees (isStage : π → Bool) (disk disk' : Disk π β) : Prop :=
  ∀ path, isStage path = false → disk'.lookup path = disk.lookup path

/-- Apart from stage files, the second disk is the first with this content at one path. -/
def Puts (isStage : π → Bool) (final : π) (content : β) (disk disk' : Disk π β) : Prop :=
  ∀ path, isStage path = false →
    disk'.lookup path = if path = final then some content else disk.lookup path

theorem Agrees.refl (disk : Disk π β) : Agrees isStage disk disk := fun _ _ ↦ rfl

theorem Agrees.trans (h : Agrees isStage disk disk₁) (h' : Agrees isStage disk₁ disk₂) :
    Agrees isStage disk disk₂ :=
  fun path hpath ↦ (h' path hpath).trans (h path hpath)

omit [DecidableEq π] in
theorem ne_of_isStage (hstage : isStage stage) (hpath : isStage path = false) : path ≠ stage := by
  rintro rfl
  rw [hstage] at hpath
  cases hpath

theorem agrees_write (hstage : isStage stage) (content : β) :
    Agrees isStage disk (disk.write stage content) := by
  intro path hpath
  rw [lookup_write, if_neg (ne_of_isStage hstage hpath)]

theorem agrees_unlink (hstage : isStage stage) : Agrees isStage disk (disk.unlink stage) := by
  intro path hpath
  rw [lookup_unlink, if_neg (ne_of_isStage hstage hpath)]

theorem puts_link (h : disk.lookup stage = some content) (final : π) :
    Puts isStage final content disk (disk.link stage final) :=
  fun _ _ ↦ lookup_link h

theorem puts_rename (hstage : isStage stage) (h : disk.lookup stage = some content) (final : π) :
    Puts isStage final content disk (disk.rename stage final) := by
  intro path hpath
  rw [lookup_rename h, if_neg (ne_of_isStage hstage hpath)]

theorem Puts.trans_agrees (h : Puts isStage final content disk disk₁)
    (h' : Agrees isStage disk₁ disk₂) : Puts isStage final content disk disk₂ :=
  fun path hpath ↦ (h' path hpath).trans (h path hpath)

theorem Agrees.trans_puts (h : Agrees isStage disk disk₁)
    (h' : Puts isStage final content disk₁ disk₂) : Puts isStage final content disk disk₂ := by
  intro path hpath
  rw [h' path hpath, h path hpath]

theorem Puts.lookup (h : Puts isStage final content disk disk') (hfinal : isStage final = false) :
    disk'.lookup final = some content := by
  rw [h final hfinal, if_pos rfl]

/-- The name is one of many, and not in use. -/
theorem exists_free_name {name : ℕ → π} (hname : Function.Injective name) (disk : Disk π β) :
    ∃ path, (((List.range (disk.keys.length + 1)).map name).find? (· ∉ disk)) = some path := by
  rw [← Option.isSome_iff_exists, List.find?_isSome]
  by_contra hnone
  -- more names than files
  have hsubset : ((List.range (disk.keys.length + 1)).map name) ⊆ disk.keys := by
    intro path hpath
    by_contra hfree
    exact hnone ⟨path, hpath, by simpa [← AList.mem_keys] using hfree⟩
  have hnodup := (List.nodup_range (n := disk.keys.length + 1)).map hname
  have hle := (hnodup.subperm hsubset).length_le
  rw [List.length_map, List.length_range] at hle
  omega

/-- Reserve a stage file under the first free name, fill it and flush it. -/
def stageFile {ε : Type*} (noName : ε) (empty content : β) (name : ℕ → π) :
    Durably (Disk π β) ε π := do
  let path ← .ofState fun disk ↦ Except.ofOption noName
    (((List.range (disk.keys.length + 1)).map name).find? (· ∉ disk))
  .step (Disk.write path empty)
  .step (Disk.write path content)
  .step Disk.sync
  return path

/-- A stage file holds what was written, and is the only change. -/
theorem stageFile_meets {ε : Type*} {noName : ε} {empty content : β} {name : ℕ → π}
    (hname : ∀ n, isStage (name n)) (h : Agrees isStage disk₁ disk) :
    (stageFile noName empty content name).Meets disk (Agrees isStage disk₁) fun path disk' ↦
      isStage path ∧ disk'.lookup path = some content ∧ Agrees isStage disk₁ disk' := by
  refine Durably.meets_bind (Durably.meets_ofState fun path hpath ↦ ?_)
  obtain ⟨n, -, rfl⟩ := List.mem_map.1
    (List.mem_of_find?_eq_some (Except.ofOption_eq_ok.1 hpath))
  have hempty := h.trans (agrees_write (hname n) empty)
  have hfull := hempty.trans (agrees_write (hname n) content)
  refine Durably.meets_bind (Durably.meets_step hempty ?_)
  refine Durably.meets_bind (Durably.meets_step hfull ?_)
  refine Durably.meets_bind (Durably.meets_step hfull ?_)
  exact Durably.meets_pure ⟨hname n, by rw [Disk.sync, lookup_write, if_pos rfl], hfull⟩

/-- There is always a name for a stage file. -/
theorem stageFile_succeeds {ε : Type*} {noName : ε} {empty content : β} {name : ℕ → π}
    (hname : ∀ n, isStage (name n)) (hinjective : Function.Injective name) :
    (stageFile noName empty content name).Succeeds disk fun path disk' ↦
      isStage path ∧ disk'.lookup path = some content ∧ Agrees isStage disk disk' := by
  obtain ⟨path, hpath⟩ := exists_free_name hinjective disk
  obtain ⟨path, hok, -⟩ : (stageFile noName empty content name).Succeeds disk fun _ _ ↦ True :=
    .bind (Durably.succeeds_ofState (Except.ofOption_eq_ok.2 hpath) (.bind (Durably.succeeds_step
      (.bind (Durably.succeeds_step (.bind (Durably.succeeds_step
        (Durably.succeeds_pure trivial))))))))
  exact ⟨path, hok, (stageFile_meets hname (.refl disk)).ends path hok⟩

end Disk
