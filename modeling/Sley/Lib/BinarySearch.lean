import Mathlib
import Sley.Lib.SortUnique

/-!
# Binary search

Search by halving in a list, as slices are searched. **On a strictly ascending list it finds exactly
the members** (`binarySearch_eq_true_iff`), and a search by keys locates a key, or the place where it
would be (`bisect_locates`); on any other list nothing is claimed. Updates at the place that a
search locates are then what filtering, appending and sorting would give.
-/

section Members

variable {α : Type*} [Ord α]

/-- Search in a list of at most `fuel` elements. -/
def binarySearchIn : Nat → List α → α → Bool
  | 0, _, _ => false
  | fuel + 1, xs, x =>
    match xs[xs.length / 2]? with
    | none => false
    | some middle =>
      match compare middle x with
      | .eq => true
      | .lt => binarySearchIn fuel (xs.drop (xs.length / 2 + 1)) x
      | .gt => binarySearchIn fuel (xs.take (xs.length / 2)) x

/-- `binary_search(..).is_ok()`. -/
def binarySearch (xs : List α) (x : α) : Bool := binarySearchIn xs.length xs x

variable [Std.TransOrd α] [Std.LawfulEqOrd α] {xs : List α} {x : α} {fuel : Nat}

theorem binarySearchIn_eq_true_iff (hxs : xs.Pairwise (compare · · = .lt))
    (hfuel : xs.length ≤ fuel) : binarySearchIn fuel xs x = true ↔ x ∈ xs := by
  induction fuel generalizing xs with
  | zero =>
    rw [List.length_eq_zero_iff.1 (Nat.le_zero.1 hfuel)]
    simp [binarySearchIn]
  | succ fuel ih =>
    rcases Nat.eq_zero_or_pos xs.length with hzero | hpos
    · rw [List.length_eq_zero_iff.1 hzero]
      simp [binarySearchIn]
    have hmiddle : xs.length / 2 < xs.length := Nat.div_lt_self hpos (by decide)
    have hfind : xs[xs.length / 2]? = some xs[xs.length / 2] := List.getElem?_eq_getElem hmiddle
    -- the list is what is before the middle, the middle and what is after it
    have hsplit : xs.take (xs.length / 2) ++ xs[xs.length / 2] :: xs.drop (xs.length / 2 + 1) =
        xs := by
      rw [List.getElem_cons_drop, List.take_append_drop]
    have hparts := hxs
    rw [← hsplit, List.pairwise_append, List.pairwise_cons] at hparts
    obtain ⟨hbefore, ⟨hgreater, hafter⟩, hless⟩ := hparts
    have hmem : x ∈ xs ↔ x ∈ xs.take (xs.length / 2) ∨ x = xs[xs.length / 2] ∨
        x ∈ xs.drop (xs.length / 2 + 1) := by
      conv_lhs => rw [← hsplit]
      rw [List.mem_append, List.mem_cons]
    have hself : compare x x = .eq := Std.ReflCmp.compare_self
    rw [hmem, binarySearchIn, hfind]
    generalize xs[xs.length / 2] = middle at *
    rcases hcompare : compare middle x with _ | _ | _
    · have hnotBefore : x ∉ xs.take (xs.length / 2) := fun hx ↦ by
        have := Std.OrientedCmp.gt_of_lt (hless x hx _ List.mem_cons_self)
        rw [hcompare] at this
        cases this
      have hne : x ≠ middle := by
        rintro rfl
        rw [hself] at hcompare
        cases hcompare
      rw [or_iff_right hnotBefore, or_iff_right hne]
      simp only [hcompare]
      exact ih hafter (by rw [List.length_drop]; omega)
    · obtain rfl := Std.LawfulEqCmp.eq_of_compare hcompare
      simp
    · have hnotAfter : x ∉ xs.drop (xs.length / 2 + 1) := fun hx ↦ by
        rw [hgreater x hx] at hcompare
        cases hcompare
      have hne : x ≠ middle := by
        rintro rfl
        rw [hself] at hcompare
        cases hcompare
      rw [or_iff_right hne, or_iff_left hnotAfter]
      simp only [hcompare]
      exact ih hbefore (by rw [List.length_take]; omega)

/-- **In a strictly ascending list exactly the members are found.** -/
theorem binarySearch_eq_true_iff (hxs : xs.Pairwise (compare · · = .lt)) :
    binarySearch xs x = true ↔ x ∈ xs :=
  binarySearchIn_eq_true_iff hxs (Nat.le_refl _)

end Members

/-! ### Searching by keys -/

section Locates

variable {α κ : Type*} {key : α → κ} {xs : List α} {a b : α} {x : κ} {i : ℕ}

/-- Search by halving between two positions; the order of the item at a position is asked for and
may fail. The position of the item, or the one where it would be. -/
def bisect (order : ℕ → Option Ordering) : ℕ → ℕ → ℕ → Option (Except ℕ ℕ)
  | 0, low, _ => some (.error low)
  | fuel + 1, low, high =>
    if low < high then do
      match ← order (low + (high - low) / 2) with
      | .lt => bisect order fuel (low + (high - low) / 2 + 1) high
      | .gt => bisect order fuel low (low + (high - low) / 2)
      | .eq => return .ok (low + (high - low) / 2)
    else some (.error low)

theorem filter_ne_eq_self [DecidableEq κ] (h : ∀ a ∈ xs, key a ≠ x) : xs.filter (key · ≠ x) = xs :=
  List.filter_eq_self.2 fun a ha ↦ decide_eq_true (h a ha)

theorem insertIdx_eq_take_cons_drop (h : i ≤ xs.length) :
    xs.insertIdx i a = xs.take i ++ a :: xs.drop i := by
  induction xs generalizing i with
  | nil =>
    obtain rfl := Nat.le_zero.1 h
    rfl
  | cons b xs ih =>
    cases i with
    | zero => rfl
    | succ i =>
      rw [List.insertIdx_succ_cons, ih (Nat.le_of_succ_le_succ h)]
      rfl

variable [Ord κ]

/-- Where a key is among others, or between which of them it would be. -/
def Locates (key : α → κ) (xs : List α) (x : κ) : Except ℕ ℕ → Prop
  | .ok i => ∃ a, xs[i]? = some a ∧ key a = x
  | .error i => i ≤ xs.length ∧ (∀ a ∈ xs.take i, compare (key a) x = .lt) ∧
      ∀ a ∈ xs.drop i, compare (key a) x = .gt

theorem ne_of_compare_lt {x y : κ} [Std.OrientedOrd κ] (h : compare x y = .lt) : x ≠ y := by
  rintro rfl
  exact Std.OrientedCmp.not_lt_of_lt h h

theorem ne_of_compare_gt {x y : κ} [Std.OrientedOrd κ] (h : compare x y = .gt) : x ≠ y :=
  (ne_of_compare_lt (Std.OrientedCmp.lt_of_gt h)).symm

theorem eq_take_cons_drop (h : xs[i]? = some a) : xs = xs.take i ++ a :: xs.drop (i + 1) := by
  obtain ⟨hi, rfl⟩ := List.getElem?_eq_some_iff.1 h
  rw [List.getElem_cons_drop, List.take_append_drop]

variable [Std.TransOrd κ]

/-- What is before an item of an ascending list is less, what is behind it greater. -/
theorem Ascends.around (h : Ascends key xs) (hi : xs[i]? = some a) :
    (∀ b ∈ xs.take i, compare (key b) (key a) = .lt) ∧
      ∀ b ∈ xs.drop (i + 1), compare (key b) (key a) = .gt := by
  rw [Ascends, eq_take_cons_drop hi, List.pairwise_append, List.pairwise_cons] at h
  obtain ⟨-, ⟨hafter, -⟩, hbefore⟩ := h
  exact ⟨fun b hb ↦ hbefore b hb a List.mem_cons_self,
    fun b hb ↦ Std.OrientedCmp.gt_of_lt (hafter b hb)⟩

/-- An item fits between what is less and what is greater. -/
theorem Ascends.between {before after : List α} (hbefore : Ascends key before)
    (hafter : Ascends key after) (hless : ∀ b ∈ before, compare (key b) (key a) = .lt)
    (hgreater : ∀ b ∈ after, compare (key b) (key a) = .gt) :
    Ascends key (before ++ a :: after) := by
  have hbehind : ∀ b ∈ after, compare (key a) (key b) = .lt := fun b hb ↦
    Std.OrientedCmp.lt_of_gt (hgreater b hb)
  refine List.pairwise_append.2 ⟨hbefore, List.pairwise_cons.2 ⟨hbehind, hafter⟩, ?_⟩
  intro b hb c hc
  obtain rfl | hc := List.mem_cons.1 hc
  · exact hless b hb
  · exact Std.TransCmp.lt_trans (hless b hb) (hbehind c hc)

/-- **The search locates a key in an ascending list**, where the order asked for is that of the
keys. -/
theorem bisect_locates [Std.LawfulEqOrd κ] {order : ℕ → Option Ordering} (hxs : Ascends key xs)
    (horder : ∀ i a, xs[i]? = some a → order i = some (compare (key a) x)) {fuel low high : ℕ}
    (hfuel : high - low ≤ fuel) (hle : low ≤ high) (hhigh : high ≤ xs.length)
    (hbefore : ∀ a ∈ xs.take low, compare (key a) x = .lt)
    (hafter : ∀ a ∈ xs.drop high, compare (key a) x = .gt) :
    ∃ result, bisect order fuel low high = some result ∧ Locates key xs x result := by
  have hdone {low high : ℕ} (hle : low ≤ high) (hhigh : high ≤ xs.length)
      (hbefore : ∀ a ∈ xs.take low, compare (key a) x = .lt)
      (hafter : ∀ a ∈ xs.drop high, compare (key a) x = .gt) (hlt : ¬ low < high) :
      Locates key xs x (.error low) := by
    obtain rfl : low = high := by omega
    exact ⟨hhigh, hbefore, hafter⟩
  induction fuel generalizing low high with
  | zero => exact ⟨_, rfl, hdone hle hhigh hbefore hafter (by omega)⟩
  | succ fuel ih =>
    rw [bisect]
    by_cases hlt : low < high
    · have hmiddle : low + (high - low) / 2 < high := by omega
      have hle' : low ≤ low + (high - low) / 2 := Nat.le_add_right _ _
      rw [if_pos hlt]
      generalize low + (high - low) / 2 = middle at hmiddle hle'
      obtain ⟨a, ha⟩ : ∃ a, xs[middle]? = some a :=
        ⟨_, List.getElem?_eq_getElem (hmiddle.trans_le hhigh)⟩
      obtain ⟨hless, hgreater⟩ := hxs.around ha
      rw [horder middle a ha, Option.bind_eq_bind, Option.bind_some]
      cases hcompare : compare (key a) x with
      | lt =>
        refine ih (by omega) (by omega) hhigh (fun b hb ↦ ?_) hafter
        rw [List.take_add_one, ha, List.mem_append] at hb
        obtain hb | hb := hb
        · exact Std.TransCmp.lt_trans (hless b hb) hcompare
        · obtain rfl := List.mem_singleton.1 hb
          exact hcompare
      | gt =>
        refine ih (by omega) hle' (by omega) hbefore fun b hb ↦ ?_
        obtain ⟨hi, rfl⟩ := List.getElem?_eq_some_iff.1 ha
        rw [← List.getElem_cons_drop hi, List.mem_cons] at hb
        obtain rfl | hb := hb
        · exact hcompare
        · exact Std.TransCmp.gt_trans (hgreater b hb) hcompare
      | eq => exact ⟨_, rfl, a, ha, Std.LawfulEqCmp.eq_of_compare hcompare⟩
    · rw [if_neg hlt]
      exact ⟨_, rfl, hdone hle hhigh hbefore hafter hlt⟩

/-! ### What a located key gives -/

/-- The list with an item at a located place. -/
def putAt (xs : List α) (a : α) : Except ℕ ℕ → List α
  | .ok i => xs.set i a
  | .error i => xs.insertIdx i a

/-- The list without what is at a located place. -/
def dropAt (xs : List α) : Except ℕ ℕ → List α
  | .ok i => xs.eraseIdx i
  | .error _ => xs

theorem Locates.ne {i : ℕ} (h : Locates key xs x (.error i)) : ∀ a ∈ xs, key a ≠ x := by
  obtain ⟨-, hless, hgreater⟩ := h
  intro a ha
  rw [← List.take_append_drop i xs, List.mem_append] at ha
  rcases ha with ha | ha
  · exact ne_of_compare_lt (hless a ha)
  · exact ne_of_compare_gt (hgreater a ha)

variable [DecidableEq κ]

/-- Without a key that is found. -/
theorem filter_ne_of_found (hxs : Ascends key xs) (h : xs[i]? = some a) :
    xs.filter (key · ≠ key a) = xs.take i ++ xs.drop (i + 1) := by
  obtain ⟨hless, hgreater⟩ := hxs.around h
  conv_lhs => rw [eq_take_cons_drop h]
  rw [List.filter_append, List.filter_cons_of_neg (by simp),
    filter_ne_eq_self fun b hb ↦ ne_of_compare_lt (hless b hb),
    filter_ne_eq_self fun b hb ↦ ne_of_compare_gt (hgreater b hb)]

variable {result : Except ℕ ℕ}

section

variable (hxs : Ascends key xs)

include hxs

section

variable (h : Locates key xs x result)

include h

/-- What a linear search finds. -/
theorem Locates.find?_eq : xs.find? (key · = x) = result.toOption.bind (xs[·]?) := by
  cases result with
  | error i => exact List.find?_eq_none.2 fun a ha ↦ by simpa using h.ne a ha
  | ok i =>
    obtain ⟨a, ha, rfl⟩ := h
    refine Eq.trans ?_ ha.symm
    obtain ⟨hless, -⟩ := hxs.around ha
    rw [List.find?_eq_some_iff_append]
    refine ⟨decide_eq_true rfl, xs.take i, xs.drop (i + 1), eq_take_cons_drop ha, fun b hb ↦ ?_⟩
    simpa using ne_of_compare_lt (hless b hb)

/-- A linear search finds the same position. -/
theorem Locates.toOption_eq : result.toOption = xs.findIdx? (key · = x) := by
  symm
  cases result with
  | error i => exact List.findIdx?_eq_none_iff.2 fun a ha ↦ decide_eq_false (h.ne a ha)
  | ok i =>
    obtain ⟨a, ha, rfl⟩ := h
    obtain ⟨hless, -⟩ := hxs.around ha
    obtain ⟨hi, rfl⟩ := List.getElem?_eq_some_iff.1 ha
    refine List.findIdx?_eq_some_iff_getElem.2 ⟨hi, decide_eq_true rfl, fun j hj ↦ ?_⟩
    have hmem : xs[j] ∈ xs.take i := List.mem_take_iff_getElem.2 ⟨j, by omega, rfl⟩
    simpa using ne_of_compare_lt (hless xs[j] hmem)

/-- The list without the located key. -/
theorem Locates.filter_eq : xs.filter (key · ≠ x) = dropAt xs result := by
  cases result with
  | error i => exact filter_ne_eq_self h.ne
  | ok i =>
    obtain ⟨a, ha, rfl⟩ := h
    rw [filter_ne_of_found hxs ha]
    exact (List.eraseIdx_eq_take_drop_succ xs i).symm

/-- An item put at the located place keeps the order. -/
theorem Locates.ascends_put (ha : key a = x) : Ascends key (putAt xs a result) ∧
      (putAt xs a result).Perm (xs.filter (key · ≠ x) ++ [a]) := by
  subst ha
  cases result with
  | error i =>
    obtain ⟨hle, hless, hgreater⟩ := h
    have hne : ∀ b ∈ xs, key b ≠ key a := Locates.ne ⟨hle, hless, hgreater⟩
    rw [putAt, filter_ne_eq_self hne, insertIdx_eq_take_cons_drop hle]
    refine ⟨Ascends.between (hxs.sublist (List.take_sublist _ _))
      (hxs.sublist (List.drop_sublist _ _)) hless hgreater, ?_⟩
    refine List.perm_middle.trans ?_
    rw [List.take_append_drop]
    exact (List.perm_append_singleton a xs).symm
  | ok i =>
    obtain ⟨b, hb, hkey⟩ := h
    obtain ⟨hless, hgreater⟩ := hxs.around hb
    rw [hkey] at hless hgreater
    have hput : xs.set i a = xs.take i ++ a :: xs.drop (i + 1) := by
      rw [List.set_eq_take_append_cons_drop, if_pos (List.getElem?_eq_some_iff.1 hb).1]
    rw [putAt, ← hkey, filter_ne_of_found hxs hb, hput]
    refine ⟨Ascends.between (hxs.sublist (List.take_sublist _ _))
      (hxs.sublist (List.drop_sublist _ _)) hless hgreater, ?_⟩
    exact List.perm_middle.trans (List.perm_append_singleton a _).symm

end

end

end Locates
