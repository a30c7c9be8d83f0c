import Mathlib
import Sley.Lib.Outcome

/-!
# Records whose fields are named by tags

`TaggedFields τ V β` says of the records `β` that each tag reads a field of type `V`, that a field
value can be written back under its tag, and that **a record is determined by its fields**. From
these laws alone follow the three operations of a version store:

* *patching*: copying from `b` into `a` the fields in which the two differ gives `b`
  (`foldlM_copy_eq`), whatever else is copied with them;
* *assigning*: writing a chosen value under each tag of a list, or stopping at the first tag for
  which there is no choice (`assign_eq_ok`, `assign_eq_error_iff`);
* *merging*: choosing, for each tag, the value of the side that changed it, and asking a `join` for
  the tags that both sides changed (`threeWay`), which is symmetric in the sides as soon as the
  `join` is.
-/

universe u v w

/-- Fields of a record, read and written by tag. -/
structure TaggedFields (τ : Type u) (V : Type v) (β : Type w) where
  /-- The tag of the field that a value is for. -/
  tag : V → τ
  read : τ → β → Option V
  write : V → β → β
  tag_of_read : ∀ {t : τ} {b : β} {v : V}, read t b = some v → tag v = t
  /-- All records have the same tags. -/
  isSome_read : ∀ (t : τ) (a b : β), (read t a).isSome = (read t b).isSome
  read_write_self : ∀ (v : V) (b : β), read (tag v) (write v b) = some v
  read_write_of_ne : ∀ {t : τ} {v : V} (b : β), t ≠ tag v → read t (write v b) = read t b
  ext : ∀ {a b : β}, (∀ t, read t a = read t b) → a = b

namespace TaggedFields

variable {τ : Type u} {V : Type v} {β : Type w} (F : TaggedFields τ V β) {a b c : β} {t : τ}

/-- The tags under which two records differ. -/
def differ (a b : β) : Set τ := {t | F.read t a ≠ F.read t b}

theorem mem_differ_iff : t ∈ F.differ a b ↔ F.read t a ≠ F.read t b := .rfl

theorem differ_eq_empty_iff : F.differ a b = ∅ ↔ a = b := by
  constructor
  · intro h
    refine F.ext fun t ↦ not_not.1 fun hne ↦ ?_
    exact (Set.eq_empty_iff_forall_notMem.1 h t) hne
  · rintro rfl
    exact Set.eq_empty_iff_forall_notMem.2 fun _ ht ↦ ht rfl

/-- A tag under which two records differ is one of both. -/
theorem isSome_of_mem_differ (h : t ∈ F.differ a b) : (F.read t b).isSome := by
  by_contra hnone
  have ha : ¬ (F.read t a).isSome := F.isSome_read t a b ▸ hnone
  rw [Bool.not_eq_true, Option.isSome_eq_false_iff, Option.isNone_iff_eq_none] at ha hnone
  exact h (ha.trans hnone.symm)

theorem read_write [DecidableEq τ] (v : V) (b : β) (t : τ) :
    F.read t (F.write v b) = if t = F.tag v then some v else F.read t b := by
  split
  · rename_i h
    rw [h, F.read_write_self]
  · rename_i h
    exact F.read_write_of_ne b h

/-- The fields of a type that is another one by a bijection. -/
def comap {α : Type*} (e : α ≃ β) : TaggedFields τ V α where
  tag := F.tag
  read t a := F.read t (e a)
  write v a := e.symm (F.write v (e a))
  tag_of_read h := F.tag_of_read h
  isSome_read t a b := F.isSome_read t (e a) (e b)
  read_write_self v a := by rw [e.apply_symm_apply, F.read_write_self]
  read_write_of_ne a h := by rw [e.apply_symm_apply, F.read_write_of_ne _ h]
  ext h := e.injective (F.ext h)

/-! ### Patching -/

/-- One field of `src`, written into `dst`. -/
def copy (dst src : β) (t : τ) : Option β := (F.read t src).map (F.write · dst)

theorem read_copy [DecidableEq τ] {dst src dst' : β} (h : F.copy dst src t = some dst') (s : τ) :
    F.read s dst' = if s = t then F.read t src else F.read s dst := by
  obtain ⟨v, hv, rfl⟩ := Option.map_eq_some_iff.1 h
  rw [F.read_write, F.tag_of_read hv, hv]

/-- Copying a field that is the same on both sides changes nothing. -/
theorem copy_eq_self_iff {dst src : β} (h : (F.read t src).isSome) :
    F.copy dst src t = some dst ↔ F.read t dst = F.read t src := by
  classical
  obtain ⟨v, hv⟩ := Option.isSome_iff_exists.1 h
  have htag := F.tag_of_read hv
  constructor
  · intro hcopy
    rw [F.read_copy hcopy, if_pos rfl]
  · intro heq
    rw [copy, hv, Option.map_some, Option.some.injEq]
    refine F.ext fun s ↦ ?_
    rw [F.read_write, htag]
    split
    · rename_i hs
      rw [hs, heq, hv]
    · rfl

/-- **Copying the fields in which two records differ turns one into the other.** -/
theorem foldlM_copy_eq {ts : List τ} {a b : β} (hsome : ∀ t ∈ ts, (F.read t b).isSome)
    (hdiffer : F.differ a b ⊆ {t | t ∈ ts}) :
    ts.foldlM (fun dst t ↦ F.copy dst b t) a = some b := by
  classical
  induction ts generalizing a with
  | nil =>
    rw [(F.differ_eq_empty_iff (a := a) (b := b)).1 (Set.subset_empty_iff.1 fun t ht ↦ by
      simpa using hdiffer ht)]
    rfl
  | cons t ts ih =>
    obtain ⟨hhead, htail⟩ := List.forall_mem_cons.1 hsome
    obtain ⟨v, hv⟩ := Option.isSome_iff_exists.1 hhead
    have hcopy : F.copy a b t = some (F.write v a) := by rw [copy, hv, Option.map_some]
    rw [List.foldlM_cons, hcopy]
    refine ih htail fun s hs ↦ ?_
    -- what still differs is another field
    rw [mem_differ_iff, F.read_copy hcopy] at hs
    split at hs
    · rename_i h
      rw [h] at hs
      exact absurd rfl hs
    · rename_i hne
      obtain h | h := List.mem_cons.1 (hdiffer hs)
      · exact absurd h hne
      · exact h

/-! ### Assigning -/

/-- The chosen values, written tag after tag; the first tag without a choice is reported. -/
def assign (pick : τ → Option V) : List τ → β → Except τ β
  | [], b => .ok b
  | t :: ts, b =>
    match pick t with
    | none => .error t
    | some v => assign pick ts (F.write v b)

variable {pick : τ → Option V} {ts : List τ}

/-- **The result has the chosen value under every tag of the list**, and is the record elsewhere. -/
theorem read_of_assign_eq_ok [DecidableEq τ]
    (htag : ∀ {t : τ} {v : V}, pick t = some v → F.tag v = t) {b b' : β}
    (h : F.assign pick ts b = .ok b') (t : τ) :
    F.read t b' = if t ∈ ts then pick t else F.read t b := by
  induction ts generalizing b with
  | nil =>
    cases h
    rfl
  | cons s ts ih =>
    rw [assign] at h
    split at h
    · cases h
    · rename_i v hv
      rw [ih h, F.read_write, htag hv]
      by_cases ht : t = s
      · subst ht
        simp [hv]
      · simp [ht]

/-- **The tag that is reported is the first one without a choice.** -/
theorem assign_eq_error_iff {b : β} {t : τ} : F.assign pick ts b = .error t ↔
      ∃ before after, ts = before ++ t :: after ∧ pick t = none ∧
        ∀ s ∈ before, (pick s).isSome := by
  induction ts generalizing b with
  | nil =>
    constructor
    · intro h
      cases h
    · rintro ⟨before, after, h, -⟩
      simp at h
  | cons s ts ih =>
    rw [assign]
    split
    · rename_i hs
      constructor
      · rintro ⟨⟩
        exact ⟨[], ts, rfl, hs, by simp⟩
      · rintro ⟨before, after, h, -, hbefore⟩
        cases before with
        | nil =>
          cases h
          rfl
        | cons r before =>
          cases h
          exact absurd (hbefore s List.mem_cons_self) (by simp [hs])
    · rename_i v hs
      rw [ih]
      constructor
      · rintro ⟨before, after, rfl, ht, hbefore⟩
        exact ⟨s :: before, after, rfl, ht, List.forall_mem_cons.2 ⟨by simp [hs], hbefore⟩⟩
      · rintro ⟨before, after, h, ht, hbefore⟩
        cases before with
        | nil =>
          cases h
          rw [hs] at ht
          cases ht
        | cons r before =>
          cases h
          exact ⟨before, after, rfl, ht, (List.forall_mem_cons.1 hbefore).2⟩

/-! ### Merging -/

open Classical in
/-- The field of a three-way merge under a tag: that of the side which changed it, and what `join`
makes of it when both did. -/
noncomputable def threeWay (join : τ → Option V) (base ours theirs : β) (t : τ) : Option V :=
  if F.read t ours = F.read t base then F.read t theirs
  else if F.read t theirs = F.read t base then F.read t ours
  else join t

variable {join : τ → Option V} {base ours theirs : β}

theorem threeWay_of_not_ours (h : F.read t ours = F.read t base) :
    F.threeWay join base ours theirs t = F.read t theirs :=
  if_pos h

theorem threeWay_of_not_theirs (h : F.read t theirs = F.read t base) :
    F.threeWay join base ours theirs t = F.read t ours := by
  by_cases hours : F.read t ours = F.read t base
  · rw [threeWay, if_pos hours, h, hours]
  · rw [threeWay, if_neg hours, if_pos h]

theorem threeWay_of_both (hours : F.read t ours ≠ F.read t base)
    (htheirs : F.read t theirs ≠ F.read t base) :
    F.threeWay join base ours theirs t = join t := by
  rw [threeWay, if_neg hours, if_neg htheirs]

theorem tag_of_threeWay (htag : ∀ {t : τ} {v : V}, join t = some v → F.tag v = t) {v : V}
    (h : F.threeWay join base ours theirs t = some v) : F.tag v = t := by
  unfold threeWay at h
  split at h
  · exact F.tag_of_read h
  · split at h
    · exact F.tag_of_read h
    · exact htag h

/-- **A merge does not depend on which side is called ours.** -/
theorem threeWay_comm (join : τ → Option V) (base ours theirs : β) :
    F.threeWay join base ours theirs = F.threeWay join base theirs ours := by
  funext t
  by_cases hours : F.read t ours = F.read t base
  · rw [F.threeWay_of_not_ours hours, F.threeWay_of_not_theirs hours]
  · by_cases htheirs : F.read t theirs = F.read t base
    · rw [F.threeWay_of_not_theirs htheirs, F.threeWay_of_not_ours htheirs]
    · rw [F.threeWay_of_both hours htheirs, F.threeWay_of_both htheirs hours]

end TaggedFields
