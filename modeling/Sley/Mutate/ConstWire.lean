import Sley.Mutate.ConstEncoding

/-!
# What the streaming encoder emits

`Wire` states the bytes of a node compositionally: a container is its header and the framed bytes
of its children, one level down. **The encoder succeeds with exactly those bytes**
(`encode_eq_ok`), and three facts lead there:

* measuring computes the length of the wire bytes, and fails when there are none;
* the cursor emits the wire bytes and never overflows its stack, because a node at depth `d` has
  at most `d` open containers above it;
* comparing two cursors compares the wire bytes.

In canonical wire bytes identities and map keys ascend; the cursor does not check that again.
-/

namespace Sley.Mutate.ConstEncoding

open Scb1 Ssmc
open Except hiding ok error
open List (append_assoc flatMap_cons flatten_cons length_append length_cons length_nil)
open Nat (not_lt zero_le)

/-! ### The wire bytes -/

/-- The fields of a record, numbered from `index + 1`. -/
def fieldBytes : Nat → List Bytes → Bytes
  | _, [] => []
  | index, p :: ps => Leb128.encode (index + 1) ++ sizedBytes p ++ fieldBytes (index + 1) ps

/-- What a canonical list requires of its order; `key` gives the bytes of a map key. -/
def Ordered (key : Node → Bytes → Prop) : Sequence → Prop
  | .ids ids => Ascending (ids.map Id.bytes)
  | .entries entries =>
    ∃ ks, List.Forall₂ (fun e k ↦ key (.value e.key) k) entries ks ∧ Ascending ks
  | _ => True

/-- The bytes of a layout, given the bytes of its children and of map keys. -/
def LayoutWire (canonical : Bool) (child key : Node → Bytes → Prop) : Layout → Bytes → Prop
  | .atom chunk, bs => bs = chunk
  | .bytes bytes, bs => bs = sizedBytes bytes
  | .union tag none, bs => bs = taggedBytes tag []
  | .union tag (some node), bs => ∃ p, child node p ∧ bs = taggedBytes tag p
  | .record fields, bs =>
    ∃ ps, List.Forall₂ child fields ps ∧ bs = Leb128.encode fields.length ++ fieldBytes 0 ps
  | .list values, bs =>
    values.nodes.length ≤ maxCollectionElements ∧ (canonical → Ordered key values) ∧
      ∃ ps, List.Forall₂ child values.nodes ps ∧
        bs = Leb128.encode values.nodes.length ++ ps.flatMap sizedBytes

/-- The bytes of a node at a depth. -/
def Wire (canonical : Bool) (depth : Nat) (node : Node) (bs : Bytes) : Prop :=
  if _ : depth > maxNestingDepth then False
  else bs.length ≤ maxStandaloneBytes ∧ ∃ layout, node.layout depth = .ok layout ∧
    LayoutWire canonical (Wire canonical (depth + 1)) (Wire canonical (depth + 2)) layout bs
termination_by maxNestingDepth + 1 - depth

variable {depth : Nat} {bs : Bytes} {canonical : Bool} {node : Node}

theorem layout_eq_ok {l : Layout} : node.layout depth = .ok l ↔
      depth ≤ maxNestingDepth ∧ (node.isScalar = false → depth < maxNestingDepth) ∧
        node.frame = .ok l := by
  simp only [Node.layout, checkDepth, checkContainerDepth, bind_eq_ok,
    rejectIf_eq_ok, exists_const, gt_iff_lt, not_lt]
  refine and_congr_right fun _ ↦ ?_
  cases node.isScalar <;> simp [bind_eq_ok]

theorem layout_container (node : Node) {l l' : Layout} (hscalar : node.isScalar = false)
    (hframe : node.frame = .ok l) :
    node.layout depth = .ok l' ↔ depth < maxNestingDepth ∧ l' = l := by
  rw [layout_eq_ok, hframe, Except.ok.injEq, eq_comm (a := l)]
  constructor
  · intro ⟨_, hdepth, hl⟩
    exact ⟨hdepth hscalar, hl⟩
  · intro ⟨hdepth, hl⟩
    exact ⟨Nat.le_of_lt hdepth, fun _ ↦ hdepth, hl⟩

theorem wire_iff : Wire canonical depth node bs ↔
      bs.length ≤ maxStandaloneBytes ∧ ∃ layout, node.layout depth = .ok layout ∧
        LayoutWire canonical (Wire canonical (depth + 1)) (Wire canonical (depth + 2)) layout
          bs := by
  rw [Wire]
  split
  · rename_i hdeep
    refine ⟨False.elim, fun ⟨_, l, hl, _⟩ ↦ ?_⟩
    exact absurd (layout_eq_ok.1 hl).1 (Nat.not_le.2 hdeep)
  · rfl

/-- The bytes of a container are the bytes of its layout. -/
theorem wire_container (node : Node) {l : Layout}
    (hscalar : node.isScalar = false) (hframe : node.frame = .ok l) :
    Wire canonical depth node bs ↔ depth < maxNestingDepth ∧ bs.length ≤ maxStandaloneBytes ∧
        LayoutWire canonical (Wire canonical (depth + 1)) (Wire canonical (depth + 2)) l bs := by
  simp only [wire_iff, layout_container node hscalar hframe]
  constructor
  · rintro ⟨hlen, _, ⟨hdepth, rfl⟩, hwire⟩
    exact ⟨hdepth, hlen, hwire⟩
  · intro ⟨hdepth, hlen, hwire⟩
    exact ⟨hlen, l, ⟨hdepth, rfl⟩, hwire⟩

theorem Wire.depth_le (h : Wire canonical depth node bs) : depth ≤ maxNestingDepth := by
  obtain ⟨-, l, hl, -⟩ := wire_iff.1 h
  exact (layout_eq_ok.1 hl).1

theorem Wire.length_le (h : Wire canonical depth node bs) : bs.length ≤ maxStandaloneBytes :=
  (wire_iff.1 h).1

/-- Canonical bytes are wire bytes. -/
theorem LayoutWire.mono {child child' key key' : Node → Bytes → Prop} {l : Layout}
    (h : LayoutWire true child key l bs) (hchild : ∀ n p, child n p → child' n p) :
    LayoutWire false child' key' l bs := by
  cases l with
  | atom chunk => exact h
  | bytes bytes => exact h
  | union tag payload =>
    cases payload with
    | none => exact h
    | some node =>
      obtain ⟨p, hp, hbs⟩ := h
      exact ⟨p, hchild node p hp, hbs⟩
  | record fields =>
    obtain ⟨ps, hps, hbs⟩ := h
    exact ⟨ps, hps.imp hchild, hbs⟩
  | list values =>
    obtain ⟨hcount, -, ps, hps, hbs⟩ := h
    exact ⟨hcount, nofun, ps, hps.imp hchild, hbs⟩

theorem Wire.relax (h : Wire true depth node bs) : Wire false depth node bs := by
  induction depth using depthInduction generalizing node bs with
  | deep d hdeep => exact absurd h.depth_le (Nat.not_le.2 hdeep)
  | step d _ ih =>
    obtain ⟨hlen, l, hl, hwire⟩ := wire_iff.1 h
    exact wire_iff.2 ⟨hlen, l, hl, hwire.mono fun n p ↦ ih (d + 1) (Nat.lt_succ_self d)⟩

/-! ### Measuring computes the length -/

theorem uvarLen_eq (n : Nat) : uvarLen n = (Leb128.encode n).length := by
  induction n using Nat.strong_induction_on with
  | h n ih =>
    rcases Nat.lt_or_ge n 128 with hlt | hge
    · have hsize : n.size ≤ 7 := Nat.size_le.2 hlt
      rw [Leb128.encode_of_lt hlt, uvarLen, List.length_singleton]
      omega
    · have hpos : 0 < (n / 128).size := Nat.size_pos.2 (by omega)
      -- seven bits less for every byte
      have hsize : n.size = (n / 128).size + 7 := by
        apply le_antisymm
        · rw [Nat.size_le, Nat.pow_add]
          have := Nat.lt_size_self (n / 128)
          omega
        · have hle : 2 ^ ((n / 128).size - 1) ≤ n / 128 :=
            Nat.lt_size.1 (by omega)
          have : (n / 128).size + 6 < n.size := by
            rw [Nat.lt_size]
            have hsplit : (n / 128).size + 6 = ((n / 128).size - 1) + 7 := by omega
            rw [hsplit, Nat.pow_add]
            omega
          omega
      rw [Leb128.encode_of_le hge, length_cons, ← ih (n / 128) (by omega), uvarLen, uvarLen, hsize]
      omega

theorem length_sizedBytes (p : Bytes) : (sizedBytes p).length = sized p.length := by
  rw [sizedBytes, length_append, sized, uvarLen_eq]

/-- `measure` computes the lengths of the bytes `W` relates nodes to. -/
def Measures (measure : Node → Result Nat) (W : Node → Bytes → Prop) : Prop :=
  ∀ ⦃node : Node⦄ ⦃n : Nat⦄, measure node = .ok n ↔ ∃ p, W node p ∧ p.length = n

section Measuring

variable {m m₂ : Node → Result Nat} {W W₂ : Node → Bytes → Prop}

variable {n : Nat} {compare? : Option Comparison} {nodes : List Node} {depth : Nat}
  {previous : Option ConstValue}

theorem measureFields_eq_ok (h : Measures m W) {index : Nat} : measureFields m index nodes = .ok n ↔
      ∃ ps, List.Forall₂ W nodes ps ∧ (fieldBytes index ps).length = n := by
  induction nodes generalizing index n with
  | nil =>
    simp only [measureFields, pure_eq_ok, List.forall₂_nil_left_iff, exists_eq_left,
      fieldBytes, length_nil]
    exact eq_comm
  | cons node nodes ih =>
    simp only [measureFields, bind_eq_ok, @h _ _, ih, pure_eq_ok, List.forall₂_cons_left_iff]
    constructor
    · rintro ⟨_, ⟨p, hp, rfl⟩, _, ⟨ps, hps, rfl⟩, rfl⟩
      refine ⟨p :: ps, ⟨p, ps, hp, hps, rfl⟩, ?_⟩
      rw [fieldBytes, length_append, length_append, length_sizedBytes, uvarLen_eq]
    · rintro ⟨_, ⟨p, ps, hp, hps, rfl⟩, rfl⟩
      refine ⟨_, ⟨p, hp, rfl⟩, _, ⟨ps, hps, rfl⟩, ?_⟩
      rw [fieldBytes, length_append, length_append, length_sizedBytes, uvarLen_eq]

theorem measureNodes_eq_ok (h : Measures m W) : measureNodes m nodes = .ok n ↔
      ∃ ps, List.Forall₂ W nodes ps ∧ (ps.flatMap sizedBytes).length = n := by
  induction nodes generalizing n with
  | nil =>
    simp only [measureNodes, pure_eq_ok, List.forall₂_nil_left_iff, exists_eq_left,
      List.flatMap_nil, length_nil]
    exact eq_comm
  | cons node nodes ih =>
    simp only [measureNodes, bind_eq_ok, @h _ _, ih, pure_eq_ok, List.forall₂_cons_left_iff]
    constructor
    · rintro ⟨_, ⟨p, hp, rfl⟩, _, ⟨ps, hps, rfl⟩, rfl⟩
      refine ⟨p :: ps, ⟨p, ps, hp, hps, rfl⟩, ?_⟩
      rw [flatMap_cons, length_append, length_sizedBytes]
    · rintro ⟨_, ⟨p, ps, hp, hps, rfl⟩, rfl⟩
      refine ⟨_, ⟨p, hp, rfl⟩, _, ⟨ps, hps, rfl⟩, ?_⟩
      rw [flatMap_cons, length_append, length_sizedBytes]

theorem measureRecord_eq_ok (h : Measures m W) : measureRecord m none nodes = .ok n ↔
      ∃ ps, List.Forall₂ W nodes ps ∧
        (Leb128.encode nodes.length ++ fieldBytes 0 ps).length = n := by
  simp only [measureRecord, bind_eq_ok, measureFields_eq_ok h, pure_eq_ok,
    length_append, uvarLen_eq]
  constructor
  · rintro ⟨_, ⟨ps, hps, rfl⟩, rfl⟩
    exact ⟨ps, hps, rfl⟩
  · rintro ⟨ps, hps, rfl⟩
    exact ⟨_, ⟨ps, hps, rfl⟩, rfl⟩

/-- Knowing the length of the first field changes nothing. -/
theorem measureRecord_some {node : Node} (h : m node = .ok n) :
    measureRecord m (some n) (node :: nodes) = measureRecord m none (node :: nodes) := by
  simp only [measureRecord, measureFields, h, ok_bind, bind_assoc, pure_bind]

theorem validateEntityIdSetOrder_eq_ok {ids : List EntityId} {u : Unit} :
    validateEntityIdSetOrder ids = .ok u ↔ Ascending (ids.map Id.bytes) := by
  induction ids with
  | nil => simp [validateEntityIdSetOrder, Ascending]
  | cons first rest ih =>
    cases rest with
    | nil => simp [validateEntityIdSetOrder, Ascending]
    | cons second rest =>
      simp only [validateEntityIdSetOrder, bind_eq_ok, ensureIncreasing_eq_ok, exists_const, ih]
      exact ascending_cons_cons.symm

/-- What the order check of map keys has to compute. -/
def Compares (compare : Comparison) (depth : Nat) (W : Node → Bytes → Prop) : Prop :=
  ∀ ⦃left right : Node⦄ ⦃a b : Bytes⦄, W left a → W right b →
    compare left right depth = .ok (Ord.compare a b)

theorem checkedLength_eq_ok {n n' : Nat} :
    checkedLength n = .ok n' ↔ n ≤ maxStandaloneBytes ∧ n' = n := by
  simp only [checkedLength, bind_eq_ok, rejectIf_eq_ok, exists_const, pure_eq_ok, gt_iff_lt, not_lt]

/-- One entry, once its key is measured. -/
theorem measureEntry_eq_ok (h : Measures m (Wire true (depth + 2)))
    {entry : MapEntryConst} {k : Nat} (hk : m (.value entry.key) = .ok k) :
    measureEntry depth m k entry = .ok n ↔
      ∃ p, Wire true (depth + 1) (.entry entry) p ∧ p.length = n := by
  simp only [measureEntry, bind_eq_ok, wire_container (.entry entry) rfl rfl,
    layout_container (.entry entry) rfl rfl]
  constructor
  · rintro ⟨_, ⟨hdepth, rfl⟩, hmeasure⟩
    simp only [bind_eq_ok, measureRecord_some hk, measureRecord_eq_ok h,
      checkedLength_eq_ok] at hmeasure
    obtain ⟨_, ⟨ps, hps, rfl⟩, hlen, rfl⟩ := hmeasure
    exact ⟨_, ⟨hdepth, hlen, ps, hps, rfl⟩, rfl⟩
  · rintro ⟨_, ⟨hdepth, hlen, ps, hps, rfl⟩, rfl⟩
    refine ⟨_, ⟨hdepth, rfl⟩, ?_⟩
    simp only [bind_eq_ok, measureRecord_some hk, measureRecord_eq_ok h, checkedLength_eq_ok]
    exact ⟨_, ⟨ps, hps, rfl⟩, hlen, rfl⟩

/-- A key above the one before extends an ascending list. -/
theorem checkKeyOrder_eq_ok {compare : Comparison}
    (hcompare : Compares compare (depth + 2) W) {q : Option Bytes}
    (hprevious : Option.Rel (fun v q ↦ W (.value v) q) previous q) {key : ConstValue} {k : Bytes}
    (hk : W (.value key) k) {ks : List Bytes} {u : Unit} :
    (checkKeyOrder compare depth previous key = .ok u ∧ Ascending (k :: ks)) ↔
      Ascending (q.toList ++ k :: ks) := by
  cases hprevious with
  | none => simp [checkKeyOrder]
  | some hv =>
    simp only [checkKeyOrder, bind_eq_ok, hcompare hv hk, Except.ok.injEq, exists_eq_left',
      ensureIncreasing_eq_ok]
    exact ascending_cons_cons.symm

theorem measureEntries_eq_ok {compare : Comparison} (h : Measures m (Wire true (depth + 2)))
    (hcompare : Compares compare (depth + 2) (Wire true (depth + 2))) {q : Option Bytes}
    (hprevious : Option.Rel (fun v q ↦ Wire true (depth + 2) (.value v) q) previous q)
    {entries : List MapEntryConst} :
    measureEntries compare depth m previous entries = .ok n ↔
      ∃ ps ks, List.Forall₂ (Wire true (depth + 1)) (entries.map .entry) ps ∧
        List.Forall₂ (fun e k ↦ Wire true (depth + 2) (.value e.key) k) entries ks ∧
        Ascending (q.toList ++ ks) ∧ (ps.flatMap sizedBytes).length = n := by
  induction entries generalizing previous q n with
  | nil =>
    rw [measureEntries, pure_eq_ok]
    constructor
    · rintro rfl
      refine ⟨[], [], .nil, .nil, ?_, rfl⟩
      cases q <;> simp [Ascending]
    · rintro ⟨_, _, hps, -, -, rfl⟩
      cases hps
      rfl
  | cons entry entries ih =>
    simp only [measureEntries, bind_eq_ok, pure_eq_ok, List.map_cons, List.forall₂_cons_left_iff]
    constructor
    · rintro ⟨_, hkey, u, horder, _, hentry, _, hrest, rfl⟩
      obtain ⟨p, hp, rfl⟩ := (measureEntry_eq_ok h hkey).1 hentry
      obtain ⟨k, hk, rfl⟩ := h.1 hkey
      obtain ⟨ps, ks, hps, hks, hasc, rfl⟩ := (ih (.some hk)).1 hrest
      refine ⟨p :: ps, k :: ks, ⟨p, ps, hp, hps, rfl⟩, ⟨k, ks, hk, hks, rfl⟩,
        (checkKeyOrder_eq_ok hcompare hprevious hk).1 ⟨horder, hasc⟩, ?_⟩
      rw [flatMap_cons, length_append, length_sizedBytes]
    · rintro ⟨_, _, ⟨p, ps, hp, hps, rfl⟩, ⟨k, ks, hk, hks, rfl⟩, hasc, rfl⟩
      have hkey : m (.value entry.key) = .ok k.length := h.2 ⟨k, hk, rfl⟩
      obtain ⟨horder, hasc⟩ := (checkKeyOrder_eq_ok (u := ()) hcompare hprevious hk).2 hasc
      refine ⟨_, hkey, (), horder, _, (measureEntry_eq_ok h hkey).2 ⟨p, hp, rfl⟩, _,
        (ih (.some hk)).2 ⟨ps, ks, hps, hks, hasc, rfl⟩, ?_⟩
      rw [flatMap_cons, length_append, length_sizedBytes]

/-- The three ways to measure a list. -/
theorem measureSequence_eq_ok (h : Measures m (Wire compare?.isSome (depth + 1)))
    (h₂ : Measures m₂ (Wire compare?.isSome (depth + 2)))
    (hcompare : ∀ compare ∈ compare?, Compares compare (depth + 2) (Wire true (depth + 2)))
    {values : Sequence} :
    measureSequence compare? depth m m₂ values = .ok n ↔
      (compare?.isSome → Ordered (Wire compare?.isSome (depth + 2)) values) ∧
        ∃ ps, List.Forall₂ (Wire compare?.isSome (depth + 1)) values.nodes ps ∧
          (ps.flatMap sizedBytes).length = n := by
  unfold measureSequence
  split
  · simp only [bind_eq_ok, validateEntityIdSetOrder_eq_ok, exists_const,
      measureNodes_eq_ok h, Option.isSome_some, forall_const, Ordered]
  · rename_i compare entries
    rw [measureEntries_eq_ok h₂ (hcompare compare rfl) .none]
    simp only [Option.isSome_some, forall_const, Ordered, Sequence.nodes, Option.toList_none,
      List.nil_append]
    constructor
    · rintro ⟨ps, ks, hps, hks, hasc, rfl⟩
      exact ⟨⟨ks, hks, hasc⟩, ps, hps, rfl⟩
    · rintro ⟨⟨ks, hks, hasc⟩, ps, hps, rfl⟩
      exact ⟨ps, ks, hps, hks, hasc, rfl⟩
  · rename_i hids hentries
    rw [measureNodes_eq_ok h, and_iff_right]
    intro hsome
    obtain ⟨compare, rfl⟩ := Option.isSome_iff_exists.1 hsome
    cases values with
    | ids ids => exact (hids compare ids rfl rfl).elim
    | entries entries => exact (hentries compare entries rfl rfl).elim
    | types items => trivial
    | values items => trivial
    | fields items => trivial

theorem measureLayout_eq_ok (h : Measures m (Wire compare?.isSome (depth + 1)))
    (h₂ : Measures m₂ (Wire compare?.isSome (depth + 2)))
    (hcompare : ∀ compare ∈ compare?, Compares compare (depth + 2) (Wire true (depth + 2)))
    {l : Layout} :
    measureLayout compare? depth m m₂ l = .ok n ↔
      ∃ bs, LayoutWire compare?.isSome (Wire compare?.isSome (depth + 1))
        (Wire compare?.isSome (depth + 2)) l bs ∧ bs.length = n := by
  cases l with
  | atom chunk =>
    simp only [measureLayout, pure_eq_ok, LayoutWire, exists_eq_left]
    exact eq_comm
  | bytes bytes =>
    simp only [measureLayout, pure_eq_ok, LayoutWire, exists_eq_left, length_sizedBytes]
    exact eq_comm
  | union tag payload =>
    have hlength : ∀ p : Bytes, (taggedBytes tag p).length = uvarLen tag.toNat + sized p.length := by
      intro p
      rw [taggedBytes, length_append, length_sizedBytes, uvarLen_eq]
    cases payload with
    | none =>
      simp only [measureLayout, ok_bind, pure_eq_ok, LayoutWire, exists_eq_left, hlength]
      exact eq_comm
    | some node =>
      simp only [measureLayout, bind_eq_ok, @h _ _, pure_eq_ok, LayoutWire]
      constructor
      · rintro ⟨_, ⟨p, hp, rfl⟩, rfl⟩
        exact ⟨_, ⟨p, hp, rfl⟩, hlength p⟩
      · rintro ⟨_, ⟨p, hp, rfl⟩, rfl⟩
        exact ⟨_, ⟨p, hp, rfl⟩, hlength p⟩
  | record fields =>
    simp only [measureLayout, measureRecord_eq_ok h, LayoutWire]
    constructor
    · rintro ⟨ps, hps, rfl⟩
      exact ⟨_, ⟨ps, hps, rfl⟩, rfl⟩
    · rintro ⟨_, ⟨ps, hps, rfl⟩, rfl⟩
      exact ⟨ps, hps, rfl⟩
  | list values =>
    simp only [measureLayout, bind_eq_ok, rejectIf_eq_ok, exists_const, pure_eq_ok, LayoutWire,
      gt_iff_lt, not_lt, measureSequence_eq_ok h h₂ hcompare]
    constructor
    · rintro ⟨_, ⟨hordered, ps, hps, rfl⟩, hcount, rfl⟩
      refine ⟨_, ⟨hcount, hordered, ps, hps, rfl⟩, ?_⟩
      rw [length_append, uvarLen_eq]
    · rintro ⟨_, ⟨hcount, hordered, ps, hps, rfl⟩, rfl⟩
      refine ⟨_, ⟨hordered, ps, hps, rfl⟩, hcount, ?_⟩
      rw [length_append, uvarLen_eq]

/-- **Measuring computes the length of the wire bytes**, and fails when there are none. -/
theorem measureWith_eq_ok
    (hcompare : ∀ compare ∈ compare?, ∀ depth, Compares compare depth (Wire true depth))
    (depth : Nat) : Measures (measureWith compare? · depth) (Wire compare?.isSome depth) := by
  induction depth using depthInduction with
  | deep d hdeep =>
    intro node n
    show measureWith compare? node d = _ ↔ _
    rw [measureWith, dif_pos hdeep]
    exact ⟨fun h ↦ (nomatch h), fun ⟨_, h, _⟩ ↦ absurd h.depth_le (Nat.not_le.2 hdeep)⟩
  | step d hle ih =>
    intro node n
    have hlayout : ∀ {l : Layout} {n : Nat}, _ :=
      fun {l n} ↦ measureLayout_eq_ok (ih (d + 1) (by omega)) (ih (d + 2) (by omega))
        (fun compare hmem ↦ hcompare compare hmem (d + 2)) (l := l) (n := n)
    show measureWith compare? node d = _ ↔ _
    rw [measureWith, dif_neg (Nat.not_lt.2 hle)]
    simp only [bind_eq_ok, checkedLength_eq_ok, wire_iff, hlayout]
    constructor
    · rintro ⟨l, hl, _, ⟨bs, hbs, rfl⟩, hlen, rfl⟩
      exact ⟨bs, ⟨hlen, l, hl, hbs⟩, rfl⟩
    · rintro ⟨bs, ⟨hlen, l, hl, hbs⟩, rfl⟩
      exact ⟨l, hl, _, ⟨bs, hbs, rfl⟩, hlen, rfl⟩

end Measuring

/-! ### The cursor emits the wire bytes -/

open WireCursor

/-- From `s` the cursor emits the chunks `cs` and then goes on like `s'`. -/
inductive Emits : WireCursor → List Bytes → WireCursor → Prop
  | done {s s' : WireCursor} (h : next s = next s') : Emits s [] s'
  | step {s s₁ s' : WireCursor} {c : Bytes} {cs : List Bytes} (h : next s = .ok (some (c, s₁)))
    (hrest : Emits s₁ cs s') : Emits s (c :: cs) s'

theorem Emits.trans {s s' s'' : WireCursor} {cs cs' : List Bytes} (h : Emits s cs s')
    (h' : Emits s' cs' s'') : Emits s (cs ++ cs') s'' := by
  induction h with
  | done h =>
    cases h' with
    | done h' => exact .done (h.trans h')
    | step h' hrest => exact .step (h.trans h') hrest
  | step h _ ih => exact .step h (ih h')

theorem chunkUint_eq {n : Nat} (h : n < 2 ^ 128) : chunkUint n = Leb128.encode n := by
  rw [chunkUint, encodeUvar128_eq, BitVec.toNat_ofNat, Nat.mod_eq_of_lt h]

variable {depth : Nat} {node : Node} {fuel : Nat} {left right : WireCursor} {p : Bytes}
  {child : Option Node} {stack : WireCursor} {cs : List Bytes}

theorem push_eq {frame : Frame} (h : stack.length < maxCursorFrames) :
    push stack frame = .ok (frame :: stack) := by
  rw [push, rejectIf_neg (Nat.ne_of_lt h)]
  rfl

/-- The frame of a child, if there is one. -/
def childFrames (child : Option Node) (depth : Nat) : List Frame :=
  child.toList.map (.node · depth)

/-- The bytes of a child; an absent payload has none. -/
def ChildWire (depth : Nat) (child : Option Node) (p : Bytes) : Prop :=
  child.elim (p = []) (Wire false depth · p)

theorem ChildWire.length_le (h : ChildWire depth child p) : p.length ≤ maxStandaloneBytes := by
  cases child with
  | none =>
    obtain rfl : p = [] := h
    exact zero_le _
  | some node => exact Wire.length_le h

/-- One child of a container: its tag in a record, its length, and its node. -/
theorem next_children {layout : Layout} {index depth : Nat}
    (hchild : layout.children[index]? = some child)
    (hp : ChildWire (depth + 1) child p) (hroom : stack.length + 3 ≤ maxCursorFrames) :
    next (.children layout index depth :: stack) = .ok (some (
      if layout.isRecord then
        (chunkUint (index + 1), .chunk (chunkUint p.length) ::
          (childFrames child (depth + 1) ++ .children layout (index + 1) depth :: stack))
      else (chunkUint p.length,
        childFrames child (depth + 1) ++ .children layout (index + 1) depth :: stack))) := by
  rw [next, hchild]
  cases child with
  | none =>
    obtain rfl : p = [] := hp
    simp only [ok_bind]
    rw [push_eq (by omega), ok_bind]
    split
    · rw [push_eq (by simp only [length_cons]; omega)]
      rfl
    · rfl
  | some node =>
    have hlength : measureWith none node (depth + 1) = .ok p.length :=
      (measureWith_eq_ok (by simp) _).2 ⟨p, hp, rfl⟩
    simp only [hlength, ok_bind]
    rw [push_eq (by omega), ok_bind, push_eq (by simp only [length_cons]; omega), ok_bind]
    split
    · rw [push_eq (by simp only [length_cons]; omega)]
      rfl
    · rfl

/-- A cursor on top of `stack` emits `p`, in at most twice as many chunks and one more. -/
def EmitsBytes (s stack : WireCursor) (p : Bytes) : Prop :=
  ∃ cs, Emits s cs stack ∧ cs.flatten = p ∧ cs.length ≤ 2 * p.length + 1

/-- Every node at `depth` is emitted, on any stack that leaves room for its containers. -/
def EmitsNodes (depth : Nat) : Prop :=
  ∀ ⦃node : Node⦄ ⦃p : Bytes⦄, Wire false depth node p → ∀ ⦃stack : WireCursor⦄,
    stack.length + (maxNestingDepth - depth) + 3 ≤ maxCursorFrames →
      EmitsBytes (.node node depth :: stack) stack p

/-- The children of a container from `index` on, framed. -/
def childrenBytes (layout : Layout) (index : Nat) (ps : List Bytes) : Bytes :=
  if layout.isRecord then fieldBytes index ps else ps.flatMap sizedBytes

theorem emits_child (ih : EmitsNodes depth) (hp : ChildWire depth child p) (stack : WireCursor)
    (hroom : stack.length + (maxNestingDepth - depth) + 3 ≤ maxCursorFrames) :
    EmitsBytes (childFrames child depth ++ stack) stack p := by
  cases child with
  | none =>
    obtain rfl : p = [] := hp
    exact ⟨[], .done rfl, rfl, zero_le _⟩
  | some node => exact ih hp hroom

theorem one_le_length_encode (n : Nat) : 1 ≤ (Leb128.encode n).length :=
  List.length_pos_iff.2 (Leb128.encode_ne_nil n)

theorem emits_children (ih : EmitsNodes (depth + 1)) (hdepth : depth < maxNestingDepth)
    {layout : Layout}
    (hroom : stack.length + (maxNestingDepth - depth) + 3 ≤ maxCursorFrames) {index : Nat}
    {ps : List Bytes} (h : List.Forall₂ (ChildWire (depth + 1)) (layout.children.drop index) ps)
    (hsmall : index + ps.length < 2 ^ 128) :
    ∃ cs, Emits (.children layout index depth :: stack) cs stack ∧
      cs.flatten = childrenBytes layout index ps ∧
      cs.length ≤ 2 * (childrenBytes layout index ps).length := by
  induction ps generalizing index with
  | nil =>
    -- the frame of a finished container is skipped
    have hend : layout.children[index]? = none := by
      rw [List.getElem?_eq_none_iff, ← List.drop_eq_nil_iff]
      exact List.forall₂_nil_right_iff.1 h
    refine ⟨[], .done ?_, ?_, zero_le _⟩
    · rw [next, hend]
    · rw [childrenBytes]
      split <;> rfl
  | cons p ps ihps =>
    obtain ⟨child, rest, hp, hrest, hdrop⟩ := List.forall₂_cons_right_iff.1 h
    have hchild : layout.children[index]? = some child := by
      rw [← List.head?_drop, hdrop, List.head?_cons]
    have htail : rest = layout.children.drop (index + 1) := by
      rw [← List.tail_drop, hdrop, List.tail_cons]
    rw [length_cons] at hsmall
    obtain ⟨cs, hcs, hflat, hlen⟩ := ihps (htail ▸ hrest) (by omega)
    obtain ⟨ds, hds, rfl, hdslen⟩ := emits_child ih hp
      (.children layout (index + 1) depth :: stack) (by simp only [length_cons]; omega)
    have hnext : next (.children layout index depth :: stack) = _ :=
      next_children hchild hp (by omega)
    have hplen : chunkUint ds.flatten.length = Leb128.encode ds.flatten.length :=
      chunkUint_eq (lt_of_le_of_lt hp.length_le (by decide))
    have hone := one_le_length_encode ds.flatten.length
    rw [childrenBytes] at hflat hlen ⊢
    cases hrecord : layout.isRecord with
    | true =>
      simp only [hrecord, if_true] at hnext hflat hlen ⊢
      refine ⟨chunkUint (index + 1) :: chunkUint ds.flatten.length :: (ds ++ cs),
        .step hnext (.step rfl (hds.trans hcs)), ?_, ?_⟩
      · rw [flatten_cons, flatten_cons, List.flatten_append, hflat, hplen,
          chunkUint_eq (by omega), fieldBytes, sizedBytes]
        simp only [append_assoc]
      · have := one_le_length_encode (index + 1)
        simp only [fieldBytes, sizedBytes, length_cons, length_append] at hlen ⊢
        omega
    | false =>
      simp only [hrecord, Bool.false_eq_true, if_false] at hnext hflat hlen ⊢
      refine ⟨chunkUint ds.flatten.length :: (ds ++ cs), .step hnext (hds.trans hcs), ?_, ?_⟩
      · rw [flatten_cons, List.flatten_append, hflat, hplen, flatMap_cons, sizedBytes]
        simp only [append_assoc]
      · simp only [flatMap_cons, sizedBytes, length_cons, length_append] at hlen ⊢
        omega

def Layout.isContainer : Layout → Bool
  | atom _ | bytes _ => false
  | _ => true

/-- The bytes of a container are its header and its framed children. -/
theorem LayoutWire.children {key : Node → Bytes → Prop} {l : Layout} {bs : Bytes}
    (h : LayoutWire false (Wire false depth) key l bs) (hl : l.isContainer) :
    ∃ ps, List.Forall₂ (ChildWire depth) l.children ps ∧
      bs = Leb128.encode l.header ++ childrenBytes l 0 ps := by
  cases l with
  | atom chunk => cases hl
  | bytes bytes => cases hl
  | union tag payload =>
    cases payload with
    | none =>
      obtain rfl : bs = taggedBytes tag [] := h
      refine ⟨[[]], .cons rfl .nil, ?_⟩
      rw [taggedBytes, childrenBytes, List.flatMap_singleton]
      rfl
    | some node =>
      obtain ⟨p, hp, rfl⟩ := h
      refine ⟨[p], .cons hp .nil, ?_⟩
      rw [taggedBytes, childrenBytes, List.flatMap_singleton]
      rfl
  | record fields =>
    obtain ⟨ps, hps, rfl⟩ := h
    exact ⟨ps, List.forall₂_map_left_iff.2 hps, rfl⟩
  | list values =>
    obtain ⟨-, -, ps, hps, rfl⟩ := h
    exact ⟨ps, List.forall₂_map_left_iff.2 hps, rfl⟩

theorem length_le_childrenBytes (l : Layout) (index : Nat) (ps : List Bytes) :
    ps.length ≤ (childrenBytes l index ps).length := by
  rw [childrenBytes]
  split
  · induction ps generalizing index with
    | nil => exact zero_le _
    | cons p ps ih =>
      have := ih (index + 1)
      have := one_le_length_encode (index + 1)
      simp only [fieldBytes, length_cons, length_append]
      omega
  · induction ps with
    | nil => exact zero_le _
    | cons p ps ih =>
      have := one_le_length_encode p.length
      simp only [flatMap_cons, sizedBytes, length_cons, length_append]
      omega

theorem isContainer_eq {l : Layout} (h : node.frame = .ok l) : l.isContainer = !node.isScalar := by
  cases node <;> simp only [Node.frame, Except.ok.injEq, bind_eq_ok, pure_eq_ok] at h
  all_goals first
    | obtain rfl := h
      rfl
    | obtain ⟨_, _, rfl⟩ := h
      rfl

theorem header_lt {l : Layout} {ps : List Bytes} (hlen : ps.length = l.children.length)
    (hsmall : ps.length ≤ maxStandaloneBytes) : l.header < 2 ^ 128 := by
  have hbound : maxStandaloneBytes < 2 ^ 128 := by decide
  cases l with
  | atom chunk => exact Nat.two_pow_pos _
  | bytes bytes => exact Nat.two_pow_pos _
  | union tag payload => exact lt_trans tag.toNat_lt (by decide)
  | record fields =>
    simp only [Layout.children, List.length_map] at hlen
    show fields.length < _
    omega
  | list values =>
    simp only [Layout.children, List.length_map] at hlen
    show values.nodes.length < _
    omega

/-- **The cursor emits the wire bytes of every node.** -/
theorem emitsNodes (depth : Nat) : EmitsNodes depth := by
  induction depth using depthInduction with
  | deep d hdeep =>
    intro node p h
    exact absurd h.depth_le (Nat.not_le.2 hdeep)
  | step d hle ih =>
    intro node p h stack hroom
    obtain ⟨hlen, l, hl, hwire⟩ := wire_iff.1 h
    cases hcontainer : l.isContainer with
    | true =>
      have hdepth : d < maxNestingDepth := by
        obtain ⟨-, hdepth, hframe⟩ := layout_eq_ok.1 hl
        rw [isContainer_eq hframe, Bool.not_eq_true'] at hcontainer
        exact hdepth hcontainer
      obtain ⟨ps, hps, rfl⟩ := hwire.children hcontainer
      have hcount := length_le_childrenBytes l 0 ps
      rw [length_append] at hlen
      have hbound : maxStandaloneBytes < 2 ^ 128 := by decide
      obtain ⟨cs, hcs, hflat, hcslen⟩ := emits_children (ih (d + 1) (by omega)) hdepth hroom
        (show List.Forall₂ _ (l.children.drop 0) ps from hps) (by omega)
      have hnext : next (.node node d :: stack) =
          .ok (some (chunkUint l.header, .children l 0 d :: stack)) := by
        cases l with
        | atom chunk => cases hcontainer
        | bytes bytes => cases hcontainer
        | _ =>
          rw [next, hl]
          simp only [ok_bind]
          rw [push_eq (by omega)]
          rfl
      refine ⟨chunkUint l.header :: cs, .step hnext hcs, ?_, ?_⟩
      · rw [flatten_cons, hflat, chunkUint_eq (header_lt hps.length_eq.symm (by omega))]
      · have := one_le_length_encode l.header
        rw [length_cons, length_append]
        omega
    | false =>
      cases l with
      | atom chunk =>
        obtain rfl : p = chunk := hwire
        have hnext : next (.node node d :: stack) = .ok (some (p, stack)) := by
          rw [next, hl]
          rfl
        exact ⟨[p], .step hnext (.done rfl), by simp, by simp⟩
      | bytes bytes =>
        obtain rfl : p = sizedBytes bytes := hwire
        rw [sizedBytes, length_append] at hlen
        have hbound : maxStandaloneBytes < 2 ^ 128 := by decide
        have hnext : next (.node node d :: stack) =
            .ok (some (chunkUint bytes.length, .chunk bytes :: stack)) := by
          rw [next, hl]
          simp only [ok_bind]
          rw [push_eq (by omega)]
          rfl
        refine ⟨[chunkUint bytes.length, bytes], .step hnext (.step rfl (.done rfl)), ?_, ?_⟩
        · rw [chunkUint_eq (by omega), sizedBytes]
          simp
        · have := one_le_length_encode bytes.length
          simp only [sizedBytes, length_cons, length_append, length_nil]
          omega
      | _ => cases hcontainer

/-- A fresh cursor has room for every node. -/
theorem Wire.emits (h : Wire true depth node p) : EmitsBytes [.node node depth] [] p := by
  refine emitsNodes depth h.relax ?_
  simp only [length_nil, maxNestingDepth, maxCursorFrames]
  omega

/-- Draining a cursor collects its chunks. -/
theorem Emits.drain_eq {s s' : WireCursor} (h : Emits s cs s')
    (hend : next s' = .ok none) (hfuel : cs.length < fuel) (out : Bytes) :
    drain fuel s out = .ok (out ++ cs.flatten) := by
  induction h generalizing fuel out with
  | done h =>
    obtain ⟨fuel, rfl⟩ : ∃ k, fuel = k + 1 := ⟨fuel - 1, by omega⟩
    rw [drain, h, hend, List.flatten_nil, List.append_nil]
    rfl
  | step h _ ih =>
    obtain ⟨fuel, rfl⟩ : ∃ k, fuel = k + 1 := ⟨fuel - 1, by omega⟩
    rw [length_cons] at hfuel
    rw [drain, h, ok_bind]
    show drain fuel _ _ = _
    rw [ih hend (by omega), flatten_cons, append_assoc]

/-! ### Comparing cursors compares the wire bytes -/

/-- Strings with equally long first parts compare by those first. -/
theorem compare_append {a b xs ys : Bytes} (h : a.length = b.length) :
    compare (a ++ xs) (b ++ ys) = (compare a b).then (compare xs ys) := by
  induction a generalizing b with
  | nil =>
    obtain rfl := List.length_eq_zero_iff.1 h.symm
    rfl
  | cons x a ih =>
    cases b with
    | nil => cases h
    | cons y b =>
      have hcons : ∀ {as bs : Bytes}, compare (x :: as) (y :: bs) =
          (compare x y).then (compare as bs) := List.compareLex_cons_cons
      rw [List.cons_append, List.cons_append, hcons, hcons, ih (Nat.succ.inj h),
        Ordering.then_assoc]

/-- What a comparison has still to see of one side: the rest of the current chunk and the chunks
`cs` after it; or nothing, past the end. -/
inductive Pending : WireCursor → Option Bytes → List Bytes → Prop
  | done : Pending [] none []
  | chunk {s : WireCursor} {cs : List Bytes} (a : Bytes) (h : Emits s cs []) : Pending s (some a) cs

theorem Pending.emits {s : WireCursor} {a : Bytes} (h : Pending s (some a) cs) : Emits s cs [] := by
  cases h with
  | chunk _ h => exact h

/-- The bytes still to see. -/
def pendingBytes (a : Option Bytes) (cs : List Bytes) : Bytes := a.getD [] ++ cs.flatten

/-- The chunks still to fetch. -/
def pendingChunks (a : Option Bytes) (cs : List Bytes) : Nat := if a.isSome then cs.length + 1 else 0

theorem Emits.advance_eq {s : WireCursor} (h : Emits s cs []) :
    ∃ a s' cs', advance s = .ok (a, s') ∧ Pending s' a cs' ∧
      pendingBytes a cs' = cs.flatten ∧ pendingChunks a cs' = cs.length := by
  cases h with
  | done h =>
    refine ⟨none, [], [], ?_, .done, rfl, rfl⟩
    rw [advance, h]
    rfl
  | @step _ s₁ _ c cs h hrest =>
    refine ⟨some c, s₁, cs, ?_, .chunk c hrest, rfl, rfl⟩
    rw [advance, h]
    rfl

/-- Two strings compare by what they share, then by the rest. -/
theorem compare_append_min (a b xs ys : Bytes) : compare (a ++ xs) (b ++ ys) =
      (compare (a.take (min a.length b.length)) (b.take (min a.length b.length))).then
        (compare (a.drop (min a.length b.length) ++ xs)
          (b.drop (min a.length b.length) ++ ys)) := by
  have hlen : (a.take (min a.length b.length)).length =
      (b.take (min a.length b.length)).length := by
    simp only [List.length_take]
    omega
  rw [← compare_append hlen, ← append_assoc, ← append_assoc, List.take_append_drop,
    List.take_append_drop]

theorem compareLoop_left {b : Option Bytes} : compareLoop (fuel + 1) left (some []) right b =
      advance left >>= fun next ↦ compareLoop fuel next.2 next.1 right b :=
  rfl

theorem compareLoop_right {a : Option Bytes} (ha : a ≠ some []) :
    compareLoop (fuel + 1) left a right (some []) =
      advance right >>= fun next ↦ compareLoop fuel left a next.2 next.1 := by
  rcases a with - | (- | ⟨x, xs⟩)
  · rfl
  · exact absurd rfl ha
  · rfl

/-- Comparing two cursors, with fuel for every chunk and every byte. -/
theorem compareLoop_eq {a b : Option Bytes}
    {ls rs : List Bytes} (hleft : Pending left a ls) (hright : Pending right b rs)
    (hfuel : pendingChunks a ls + pendingChunks b rs + (pendingBytes a ls).length < fuel) :
    compareLoop fuel left a right b = .ok (compare (pendingBytes a ls) (pendingBytes b rs)) := by
  induction fuel generalizing left right a b ls rs with
  | zero => omega
  | succ fuel ih =>
    by_cases ha : a = some []
    · -- fetch the next chunk on the left
      subst ha
      obtain ⟨a, left', ls', hadv, hpend, hbytes, hchunks⟩ := hleft.emits.advance_eq
      have hnow : pendingBytes (some []) ls = pendingBytes a ls' := hbytes.symm
      rw [compareLoop_left, hadv, hnow]
      apply ih hpend hright
      rw [hnow] at hfuel
      have : pendingChunks (some []) ls = ls.length + 1 := rfl
      omega
    by_cases hb : b = some []
    · subst hb
      obtain ⟨b, right', rs', hadv, hpend, hbytes, hchunks⟩ := hright.emits.advance_eq
      have hnow : pendingBytes (some []) rs = pendingBytes b rs' := hbytes.symm
      rw [compareLoop_right ha, hadv, hnow]
      apply ih hleft hpend
      have : pendingChunks (some []) rs = rs.length + 1 := rfl
      omega
    cases hleft with
    | done =>
      obtain - | ⟨y, hright⟩ := hright
      · rfl
      · obtain - | ⟨y, ys⟩ := y
        · exact absurd rfl hb
        · rfl
    | chunk x hleft =>
      obtain - | ⟨x, xs⟩ := x
      · exact absurd rfl ha
      obtain - | ⟨y, hright⟩ := hright
      · rfl
      obtain - | ⟨y, ys⟩ := y
      · exact absurd rfl hb
      -- both sides show at least one byte: compare what they share
      have hbytes : ∀ {z : Bytes} {cs : List Bytes}, pendingBytes (some z) cs = z ++ cs.flatten :=
        rfl
      have hchunks : ∀ {z : Bytes} {cs : List Bytes},
          pendingChunks (some z) cs = cs.length + 1 := rfl
      rw [compareLoop_cons, hbytes, hbytes, compare_append_min]
      rw [hchunks, hchunks, hbytes, length_append] at hfuel
      cases compare ((x :: xs).take (min (x :: xs).length (y :: ys).length))
        ((y :: ys).take (min (x :: xs).length (y :: ys).length)) with
      | lt => rfl
      | gt => rfl
      | eq =>
        show compareLoop fuel _ _ _ _ = _
        rw [ih (.chunk _ hleft) (.chunk _ hright)]
        · rfl
        · rw [hchunks, hchunks, hbytes, length_append, List.length_drop]
          simp only [length_cons] at hfuel ⊢
          omega

/-- **Comparing two cursors compares the wire bytes.** -/
theorem compares_compareValidated (depth : Nat) :
    Compares compareValidated depth (Wire true depth) := by
  intro left right a b hleft hright
  obtain ⟨ls, hls, rfl, hlslen⟩ := hleft.emits
  obtain ⟨rs, hrs, rfl, hrslen⟩ := hright.emits
  obtain ⟨a, left', ls', hadv, hpend, hbytes, hchunks⟩ := hls.advance_eq
  obtain ⟨b, right', rs', hadv', hpend', hbytes', hchunks'⟩ := hrs.advance_eq
  have hlen := hleft.length_le
  have hlen' := hright.length_le
  rw [compareValidated, hadv, ok_bind]
  show (advance _ >>= _) = _
  rw [hadv', ok_bind]
  show compareLoop _ _ _ _ _ = _
  rw [compareLoop_eq hpend hpend', hbytes, hbytes']
  rw [hbytes, hchunks, hchunks', compareFuel]
  omega

/-! ### The encoder -/

/-- **The canonical measurement succeeds exactly with the length of the canonical wire bytes.** -/
theorem measure_eq_ok {depth n : Nat} :
    measure node depth = .ok n ↔ ∃ p, Wire true depth node p ∧ p.length = n := by
  have hcompare : ∀ compare ∈ some compareValidated, ∀ depth,
      Compares compare depth (Wire true depth) := by
    simpa using compares_compareValidated
  exact @measureWith_eq_ok _ hcompare depth node n

/-- Draining a fresh cursor collects the wire bytes. -/
theorem Wire.drain_eq (h : Wire true depth node p) (hfuel : 2 * p.length + 2 ≤ fuel) :
    drain fuel [.node node depth] [] = .ok p := by
  obtain ⟨cs, hcs, rfl, hcslen⟩ := h.emits
  rw [hcs.drain_eq rfl (by omega), List.nil_append]

/-- **The encoder succeeds exactly with the canonical wire bytes.** -/
theorem encode_eq_ok {bs : Bytes} : encode node depth = .ok bs ↔ Wire true depth node bs := by
  have hencode : ∀ {p : Bytes}, Wire true depth node p → encode node depth = .ok p := by
    intro p hp
    rw [encode, measure_eq_ok.2 ⟨_, hp, rfl⟩, ok_bind, hp.drain_eq le_rfl, ok_bind,
      rejectIf_neg (not_not.2 rfl)]
    rfl
  refine ⟨fun h ↦ ?_, hencode⟩
  obtain ⟨n, hn, -⟩ := Except.bind_eq_ok.1 (show measure node depth >>= _ = _ from h)
  obtain ⟨p, hp, -⟩ := measure_eq_ok.1 hn
  rw [hencode hp, Except.ok.injEq] at h
  exact h ▸ hp

end Sley.Mutate.ConstEncoding
