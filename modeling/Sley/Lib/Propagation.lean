import Mathlib
import Sley.Lib.Worklist

/-!
# Propagation in rounds

Every node of a graph owns some facts and takes over the facts of its successors, all nodes at once
and from what they held before the round. After `k` rounds a node holds what is owned within `k`
edges of it. **A round that finds every successor's facts already held is the last one that is
needed**: what is held then is what the reachable nodes own. As many rounds as there are nodes
besides the first are always enough, since a node at a greater distance has none at it.
-/

universe u v

variable {α : Type u} {β : Type v} {next : α → Set α} {own : α → Set β} {a c w : α} {b : β} {k : ℕ}

/-! ### Balls -/

/-- The nodes that a path of at most `k` edges leads to. -/
def ball (next : α → Set α) : ℕ → α → Set α
  | 0, a => {a}
  | k + 1, a => ball next k a ∪ {w | ∃ u ∈ ball next k a, w ∈ next u}

theorem ball_subset_succ : ball next k a ⊆ ball next (k + 1) a := Set.subset_union_left

theorem ball_mono {l : ℕ} (h : k ≤ l) : ball next k a ⊆ ball next l a := by
  induction h with
  | refl => exact subset_rfl
  | step _ ih => exact ih.trans ball_subset_succ

theorem self_mem_ball : a ∈ ball next k a := ball_mono k.zero_le rfl

/-- The first edge of a path, instead of the last. -/
theorem mem_ball_succ :
    w ∈ ball next (k + 1) a ↔ w ∈ ball next k a ∨ ∃ c ∈ next a, w ∈ ball next k c := by
  induction k generalizing a w with
  | zero => simp [ball]
  | succ k ih =>
    constructor
    · rintro (hw | ⟨u, hu, hw⟩)
      · exact .inl hw
      · obtain hu | ⟨c, hc, hu⟩ := ih.1 hu
        · exact .inl (.inr ⟨u, hu, hw⟩)
        · exact .inr ⟨c, hc, .inr ⟨u, hu, hw⟩⟩
    · rintro (hw | ⟨c, hc, hw | ⟨u, hu, hw⟩⟩)
      · exact .inl hw
      · exact .inl (ih.2 (.inr ⟨c, hc, hw⟩))
      · exact .inr ⟨u, ih.2 (.inr ⟨c, hc, hu⟩), hw⟩

theorem mem_reachable_iff_ball : w ∈ reachable next {a} ↔ ∃ k, w ∈ ball next k a := by
  constructor
  · rintro ⟨_, rfl, h⟩
    induction h with
    | refl => exact ⟨0, rfl⟩
    | tail _ hw ih =>
      obtain ⟨k, hu⟩ := ih
      exact ⟨k + 1, .inr ⟨_, hu, hw⟩⟩
  · rintro ⟨k, hw⟩
    induction k generalizing w with
    | zero => exact isLeast_reachable.1.seeds_subset hw
    | succ k ih =>
      obtain hw | ⟨u, hu, hw⟩ := hw
      · exact ih hw
      · exact isLeast_reachable.1.next_subset u (ih hu) hw

/-- The nodes besides the center, counted. -/
theorem ball_eq_of_ncard [Finite α] {l : ℕ} (hle : k ≤ l)
    (h : (ball next k a \ {a}).ncard = (ball next l a \ {a}).ncard) :
    ball next k a = ball next l a := by
  have hothers : ball next k a \ {a} = ball next l a \ {a} :=
    Set.eq_of_subset_of_ncard_le (Set.sdiff_subset_sdiff_left (ball_mono hle)) h.ge
  have hself : a ∈ ball next k a := self_mem_ball
  rw [← Set.insert_sdiff_self_of_mem hself, hothers, Set.insert_sdiff_self_of_mem self_mem_ball]

/-- **No node is further away than there are other nodes.** -/
theorem ball_subset_card [Finite α] (k : ℕ) : ball next k a ⊆ ball next (Nat.card α - 1) a := by
  let others (k : ℕ) := (ball next k a \ {a}).ncard
  have hmono : Monotone others := fun _ _ h ↦
    Set.ncard_le_ncard (Set.sdiff_subset_sdiff_left (ball_mono h))
  have hcard (k : ℕ) : others k ≤ Nat.card α - 1 := by
    rw [← Set.ncard_univ, ← Set.ncard_sdiff_singleton_of_mem (Set.mem_univ a)]
    exact Set.ncard_le_ncard (Set.sdiff_subset_sdiff_left (Set.subset_univ _))
  have hstable (k : ℕ) (h : others k = others (k + 1)) : others (k + 1) = others (k + 2) := by
    have heq := ball_eq_of_ncard k.le_succ h
    have hsucc : ball next (k + 2) a = ball next (k + 1) a := by
      rw [ball, ← heq]
      exact heq.symm
    exact congrArg (fun S ↦ (S \ {a}).ncard) hsucc.symm
  obtain hle | hlt := le_total k (Nat.card α - 1)
  · exact ball_mono hle
  · exact (ball_eq_of_ncard hlt (Nat.stabilises_of_monotone hmono hcard hstable hlt).symm).ge

/-! ### Rounds -/

/-- What the nodes hold after `k` rounds. -/
def spread (next : α → Set α) (own : α → Set β) : ℕ → α → Set β
  | 0, a => own a
  | k + 1, a => spread next own k a ∪ {b | ∃ c ∈ next a, b ∈ spread next own k c}

/-- **A node holds what is owned within as many edges as there were rounds.** -/
theorem mem_spread_iff : b ∈ spread next own k a ↔ ∃ w ∈ ball next k a, b ∈ own w := by
  induction k generalizing a with
  | zero => simp [spread, ball]
  | succ k ih =>
    simp only [mem_ball_succ, or_and_right, exists_or]
    refine or_congr ih ?_
    simp only [Set.mem_ofPred_eq, ih]
    grind

theorem spread_subset_succ : spread next own k a ⊆ spread next own (k + 1) a :=
  Set.subset_union_left

/-- Every node holds what its successors hold. -/
def IsSettled (next : α → Set α) (S : α → Set β) : Prop := ∀ a, ∀ c ∈ next a, S c ⊆ S a

theorem isSettled_iff_spread_succ :
    IsSettled next (spread next own k) ↔ ∀ a, spread next own (k + 1) a = spread next own k a := by
  constructor
  · intro h a
    exact Set.union_eq_left.2 fun b ⟨c, hc, hb⟩ ↦ h a c hc hb
  · intro h a c hc b hb
    rw [← h a]
    exact .inr ⟨c, hc, hb⟩

/-- **What has settled is exact.** -/
theorem IsSettled.mem_iff (h : IsSettled next (spread next own k)) :
    b ∈ spread next own k a ↔ ∃ w ∈ reachable next {a}, b ∈ own w := by
  constructor
  · intro hb
    obtain ⟨w, hw, hb⟩ := mem_spread_iff.1 hb
    exact ⟨w, mem_reachable_iff_ball.2 ⟨k, hw⟩, hb⟩
  · rintro ⟨w, ⟨_, rfl, hw⟩, hb⟩
    induction hw using Relation.ReflTransGen.head_induction_on with
    | refl => exact mem_spread_iff.2 ⟨w, self_mem_ball, hb⟩
    | head hc _ ih => exact h _ _ hc ih

/-- **As many rounds as there are other nodes settle everything.** -/
theorem isSettled_spread_card [Finite α] (hk : Nat.card α - 1 ≤ k) :
    IsSettled next (spread next own k) := by
  intro a c hc b hb
  obtain ⟨w, hw, hb⟩ := mem_spread_iff.1 hb
  refine mem_spread_iff.2 ⟨w, ball_mono hk (ball_subset_card (k + 1) ?_), hb⟩
  exact mem_ball_succ.2 (.inr ⟨c, hc, hw⟩)
