import Sley.Mutate.ConstWire

/-!
# The streaming encoder agrees with the shapes

The decoders of types and constants are hand-written in the shapes of the other codecs, while their
encoder is the streaming one. Here the encoder's wire bytes are matched with what the shapes write:
**within the standalone limit, the bytes of a node are the union, record or list of the bytes of
its children.** The decoders are then compared with the encoder through the rules of the shapes.
-/

namespace Sley.Mutate

open Scb1 Ssmc ConstEncoding

section Nested

variable {α : Type} {mk : α → Node} {depth : Nat} {cost : α → Nat}

theorem encode_length_le {node : Node} {bs : Bytes} (h : encode node depth = .ok bs) :
    bs.length ≤ maxStandaloneBytes :=
  (encode_eq_ok.1 h).length_le

/-- The checks of `encode_at_depth` are the encoder's own. -/
theorem encodeAtDepth_encode {v : α} {bs : Bytes} :
    encodeAtDepth depth (fun v ↦ encode (mk v) depth) v = .ok bs ↔
      encode (mk v) depth = .ok bs := by
  rw [encodeAtDepth_eq_ok]
  constructor
  · intro h
    exact h.2.1
  · intro h
    exact ⟨(encode_eq_ok.1 h).depth_le, h, encode_length_le h⟩

theorem ExactOn.congr {enc enc' : α → Result Bytes} {dec : Bytes → Decoder α}
    (h : ExactOn enc cost dec)
    (henc : ∀ {v : α} {bs : Bytes}, enc' v = .ok bs ↔ enc v = .ok bs) :
    ExactOn enc' cost dec := by
  intro input r b v r' b'
  rw [h.eq_ok, henc]

/-- A node read as a payload of its own. -/
theorem Exact.nestedNode {dec : Decoder α} (h : Exact (fun v ↦ encode (mk v) depth) cost dec) :
    ExactOn (fun v ↦ encode (mk v) depth) cost (decodeNestedExact depth dec) :=
  (h.nested depth).congr encodeAtDepth_encode.symm

end Nested

/-! ### Scalars -/

section Scalars

variable {depth : Nat} {bs : Bytes}

/-- A scalar node is written like any value that is the same bytes. -/
theorem encode_scalar {node : Node} {enc : Result Bytes} (hscalar : node.isScalar = true)
    (hframe : ∀ {bs : Bytes}, enc = .ok bs ↔
      ∃ l, node.frame = .ok l ∧ (l = .atom bs ∨ ∃ p, l = .bytes p ∧ bs = sizedBytes p)) :
    encode node depth = .ok bs ↔ encodeAtDepth depth (fun _ ↦ enc) () = .ok bs := by
  rw [encode_eq_ok, wire_iff, encodeAtDepth_eq_ok, hframe]
  simp only [layout_eq_ok]
  constructor
  · rintro ⟨hlen, l, ⟨hdepth, -, hl⟩, hwire⟩
    have hcontainer := isContainer_eq hl
    rw [hscalar, Bool.not_true] at hcontainer
    refine ⟨hdepth, ⟨l, hl, ?_⟩, hlen⟩
    cases l with
    | atom chunk => exact .inl (congrArg _ (Eq.symm hwire))
    | bytes bytes => exact .inr ⟨bytes, rfl, hwire⟩
    | _ => cases hcontainer
  · rintro ⟨hdepth, ⟨l, hl, hbytes⟩, hlen⟩
    refine ⟨hlen, l, ⟨hdepth, ?_, hl⟩, ?_⟩
    · intro h
      rw [hscalar] at h
      cases h
    · rcases hbytes with rfl | ⟨p, rfl, rfl⟩
      · rfl
      · rfl

/-- **Scalar nodes**: read like any value that is written as the same bytes. -/
theorem Exact.scalarNode {α : Type} {mk : α → Node} {enc : α → Result Bytes} {cost : α → Nat}
    {dec : Decoder α} (h : Exact enc cost dec) (hscalar : ∀ v, (mk v).isScalar = true)
    (hframe : ∀ {v : α} {bs : Bytes}, enc v = .ok bs ↔
      ∃ l, (mk v).frame = .ok l ∧ (l = .atom bs ∨ ∃ p, l = .bytes p ∧ bs = sizedBytes p)) :
    ExactOn (fun v ↦ encode (mk v) depth) cost (decodeNestedExact depth dec) :=
  (h.nested depth).congr (encode_scalar (hscalar _) hframe)

/-- An atom whose bytes the writer always emits. -/
theorem Exact.atomNode {α : Type} {mk : α → Node} {enc : α → Result Bytes} {cost : α → Nat}
    {dec : Decoder α} (h : Exact enc cost dec) (hscalar : ∀ v, (mk v).isScalar = true)
    {c : α → Bytes} (henc : ∀ v, enc v = .ok (c v)) (hframe : ∀ v, (mk v).frame = .ok (.atom (c v))) :
    ExactOn (fun v ↦ encode (mk v) depth) cost (decodeNestedExact depth dec) := by
  refine h.scalarNode hscalar fun {v bs} ↦ ?_
  rw [henc, hframe]
  simp

/-- A narrow unsigned integer as a 128-bit atom. -/
theorem encodeUvar128_setWidth {w : Nat} (hw : w ≤ 64) (x : BitVec w) :
    encodeUvar128 (x.setWidth 128) = encodeUvar (UInt64.ofBitVec (x.setWidth 64)) := by
  rw [encodeUvar128_eq, encodeUvar_eq, UInt64.toNat_ofBitVec, BitVec.toNat_setWidth,
    BitVec.toNat_setWidth, Nat.mod_eq_of_lt, Nat.mod_eq_of_lt]
  · exact lt_of_lt_of_le x.isLt (Nat.pow_le_pow_right (by decide) hw)
  · exact lt_of_lt_of_le x.isLt (Nat.pow_le_pow_right (by decide) (by omega))

variable {kind : IdKind}

theorem exactOn_id :
    ExactOn (fun id : Id kind ↦ encode (.raw id.bytes) depth) (fun _ ↦ 0) (decodeNested depth) :=
  (MutationValueCodec.exact depth).atomNode (fun _ ↦ rfl) (fun _ ↦ rfl) fun _ ↦ rfl

/-- Within the limits the bytes of an identity are the identity. -/
theorem encodeAtDepth_id {id : Id kind} {p : Bytes} (hdepth : depth ≤ maxNestingDepth) :
    encodeAtDepth depth (encodeValue depth) id = .ok p ↔ id.bytes = p := by
  rw [encodeAtDepth_eq_ok, and_iff_right hdepth]
  constructor
  · intro h
    exact Except.ok.inj h.1
  · rintro rfl
    exact ⟨rfl, by rw [id.length_eq]; decide⟩

theorem encode_id {id : Id kind} {p : Bytes} (hdepth : depth ≤ maxNestingDepth) :
    encode (.raw id.bytes) depth = .ok p ↔ id.bytes = p := by
  rw [← encodeAtDepth_id hdepth]
  refine encode_scalar rfl fun {bs} ↦ ?_
  show Except.ok id.bytes = _ ↔ _
  simp [Node.frame]

/-- A narrow unsigned integer, written as a 128-bit one. -/
theorem exactOn_narrow {α : Type} [MutationValueCodec α] {w : Nat} {bits : α → BitVec w}
    (hw : w ≤ 64)
    (henc : ∀ v : α, encodeValue depth v =
      .ok (encodeUvar (UInt64.ofBitVec ((bits v).setWidth 64)))) :
    ExactOn (fun v : α ↦ encode (.uInt ((bits v).setWidth 128)) depth) cost
      (decodeNested depth) := by
  refine (MutationValueCodec.exact depth).atomNode (fun _ ↦ rfl) henc fun v ↦ ?_
  rw [Node.frame, encodeUvar128_setWidth hw]

end Scalars

/-! ### Containers -/

section Containers

variable {α τ σ : Type} {depth : Nat} {bs : Bytes}

variable {mk : α → Node} {cost : α → Nat}

/-- A decoder that refuses a depth is exact where the container limit refuses it too. -/
theorem exact_refused (hscalar : ∀ v, (mk v).isScalar = false) (hdepth : maxNestingDepth ≤ depth) :
    Exact (fun v ↦ encode (mk v) depth) cost (Decoder.fail .resourceLimit) := by
  intro r _ b v r' b'
  refine ⟨fun h ↦ absurd h Decoder.fail_ne_ok, fun ⟨bs, hbs, _⟩ ↦ ?_⟩
  obtain ⟨-, l, hl, -⟩ := wire_iff.1 (encode_eq_ok.1 hbs)
  exact absurd ((layout_eq_ok.1 hl).2.1 (hscalar v)) (Nat.not_lt.2 hdepth)

theorem encode_union {node : Node} {tag : UInt32} {payload : Option Node}
    (hscalar : node.isScalar = false) (hframe : node.frame = .ok (.union tag payload))
    (hlen : bs.length ≤ maxStandaloneBytes) :
    encode node depth = .ok bs ↔
      encodeUnionValue depth tag (payload.elim (.ok []) (encode · (depth + 1))) = .ok bs := by
  rw [encode_eq_ok, wire_container node hscalar hframe, encodeUnionValue_eq_ok]
  refine and_congr_right fun _ ↦ ?_
  rw [and_iff_right hlen]
  cases payload with
  | none => simp [LayoutWire]
  | some child =>
    refine exists_congr fun p ↦ ?_
    constructor
    · rintro ⟨hp, rfl⟩
      exact ⟨encode_eq_ok.2 hp, hp.length_le, rfl⟩
    · rintro ⟨hp, -, rfl⟩
      exact ⟨encode_eq_ok.1 hp, rfl⟩

/-- **Union nodes.** -/
theorem Selects.unionNode {tag : α → UInt32} {payload : α → Option Node}
    {select : UInt32 → Bytes → Decoder α}
    (h : Selects tag (fun v ↦ (payload v).elim (.ok []) (encode · (depth + 1))) cost select)
    (hscalar : ∀ v, (mk v).isScalar = false)
    (hframe : ∀ v, (mk v).frame = .ok (.union (tag v) (payload v))) :
    Exact (fun v ↦ encode (mk v) depth) cost (decodeUnion depth select) :=
  (h.exact depth).congr fun hlen ↦ encode_union (hscalar _) (hframe _) hlen

/-- Fields numbered from `index + 1` are tagged in their order. -/
theorem fieldBytes_eq {tags : List UInt32} {ps : List Bytes} {index : Nat}
    (h : tags.map UInt32.toNat = List.range' (index + 1) ps.length) :
    fieldBytes index ps = (tags.zip ps).flatMap fun f ↦ taggedBytes f.1 f.2 := by
  induction ps generalizing tags index with
  | nil => rw [List.zip_nil_right, List.flatMap_nil, fieldBytes]
  | cons p ps ih =>
    cases tags with
    | nil => cases h
    | cons tag tags =>
      rw [List.map_cons, List.length_cons, List.range'_succ] at h
      obtain ⟨htag, htags⟩ := List.cons.inj h
      rw [fieldBytes, List.zip_cons_cons, List.flatMap_cons, ih htags, taggedBytes, htag]

/-- The fields of a record node: read exactly, and written as the child nodes. -/
structure NodeFields (depth : Nat) (fields : RecordFields τ) (nodes : τ → List Node)
    (cost : τ → Nat) : Prop where
  exact : fields.Exact cost
  encode_eq_ok : ∀ {v : τ} {ps : List Bytes}, fields.encode v = .ok ps ↔
    List.Forall₂ (fun node p ↦ encode node (depth + 1) = .ok p) (nodes v) ps

theorem NodeFields.nil : NodeFields depth .nil (fun _ ↦ []) fun _ ↦ 0 where
  exact := RecordFields.exact_nil
  encode_eq_ok := by simp [RecordFields.nil, Except.pure_eq_ok]

theorem NodeFields.cons {fields : RecordFields τ} {nodes : τ → List Node} {cost : τ → Nat}
    (h : NodeFields depth fields nodes cost) {costField : α → Nat} {dec : Bytes → Decoder α}
    (hfield : ExactOn (fun v ↦ ConstEncoding.encode (mk v) (depth + 1)) costField dec)
    {tag : UInt32} (hbelow : (fields.tags.all fun t ↦ decide (tag < t)) = true) :
    NodeFields depth
      (.cons tag (fun v ↦ ConstEncoding.encode (mk v) (depth + 1)) dec fields)
      (fun v ↦ mk v.1 :: nodes v.2) (fun v ↦ costField v.1 + cost v.2) where
  exact := h.exact.cons hfield hbelow
  encode_eq_ok {v ps} := by
    simp only [RecordFields.cons, Except.bind_eq_ok, Except.pure_eq_ok, h.encode_eq_ok,
      List.forall₂_cons_left_iff]
    constructor
    · rintro ⟨p, hp, ps, hps, rfl⟩
      exact ⟨p, ps, hp, hps, rfl⟩
    · rintro ⟨p, ps, hp, hps, rfl⟩
      exact ⟨p, hp, ps, hps, rfl⟩

/-- **Record nodes**: the fields are the child nodes, tagged in their order. -/
theorem Exact.recordNode {fields : RecordFields τ} {cost : τ → Nat} {nodes : τ → List Node}
    (h : NodeFields depth fields nodes cost) {mk : τ → Node}
    (hscalar : ∀ v, (mk v).isScalar = false) (hframe : ∀ v, (mk v).frame = .ok (.record (nodes v)))
    (htags : ∀ v, fields.tags.map UInt32.toNat = List.range' 1 (nodes v).length)
    (hcount : fields.tags.length ≤ maxRecordFields) :
    Exact (fun v ↦ encode (mk v) depth) cost (fields.decodeRecordFields depth) := by
  refine (h.exact.exact hcount depth).congr fun {v bs} hlen ↦ ?_
  rw [encode_eq_ok, wire_container (mk v) (hscalar v) (hframe v),
    h.exact.encodeRecordValue_eq_ok hcount, and_iff_right hlen]
  have hwidth : fields.tags.length = (nodes v).length := by
    have := congrArg List.length (htags v)
    rwa [List.length_map, List.length_range'] at this
  refine and_congr_right fun _ ↦ exists_congr fun ps ↦ ?_
  rw [h.encode_eq_ok, hwidth]
  simp only [encode_eq_ok]
  have hbytes : List.Forall₂ (fun node p ↦ Wire true (depth + 1) node p) (nodes v) ps →
      fieldBytes 0 ps = (fields.tags.zip ps).flatMap fun f ↦ taggedBytes f.1 f.2 := by
    intro hps
    exact fieldBytes_eq (hps.length_eq ▸ htags v)
  constructor
  · rintro ⟨hps, rfl⟩
    refine ⟨hps, fun p hp ↦ ?_, by rw [hbytes hps]⟩
    obtain ⟨i, hi, rfl⟩ := List.getElem_of_mem hp
    exact (List.Forall₂.get hps (by rw [hps.length_eq]; exact hi) hi).length_le
  · rintro ⟨hps, -, rfl⟩
    exact ⟨hps, by rw [hbytes hps]⟩

theorem encode_sequence {values : Sequence} (hlen : bs.length ≤ maxStandaloneBytes) :
    encode (.sequence values) depth = .ok bs ↔
      depth < maxNestingDepth ∧ values.nodes.length ≤ maxCollectionElements ∧
        Ordered (fun node k ↦ encode node (depth + 2) = .ok k) values ∧
        ∃ ps, List.Forall₂ (fun node p ↦ encode node (depth + 1) = .ok p) values.nodes ps ∧
          bs = Leb128.encode values.nodes.length ++ ps.flatMap sizedBytes := by
  rw [encode_eq_ok, wire_container (.sequence values) rfl rfl, and_iff_right hlen]
  simp only [LayoutWire, forall_const, encode_eq_ok]

/-- **List nodes** without an order: any vector. -/
theorem Exact.vecNode {dec : Decoder α}
    (h : Exact (fun v ↦ encode (mk v) (depth + 1)) cost dec) (sequence : List α → Sequence)
    (hnodes : ∀ vs, (sequence vs).nodes = vs.map mk)
    (hordered : ∀ vs key, Ordered key (sequence vs)) (size : Nat) :
    Exact (fun vs ↦ encode (.sequence (sequence vs)) depth) (listCost size cost)
      (decodeVec size depth dec) := by
  refine (h.vec size depth).congr fun {vs bs} hlen ↦ ?_
  simp only [encode_sequence hlen, encodeVec_eq_ok, hnodes, List.length_map,
    List.forall₂_map_left_iff, encodeAtDepth_encode, hordered, true_and]

end Containers

end Sley.Mutate
