import Sley.Mutate.Codec

/-!
# The shapes of the mutation-value codec

The scalars, lists, options, boxes, records and unions out of which `codec.rs` builds every
implementation of its trait. **Each shape comes with the rule that carries exactness from its parts
to the whole**, so the implementations above only name their fields and cases.

A record is read field by field: the tag must be the one expected next, and the error tells a
repeated tag, a tag out of order and an unknown tag apart. The tags of every record ascend, which
is what makes the writer's sort the identity.
-/

namespace Sley.Mutate

open Scb1
open Except hiding ok error
open Cursor.Consumes (refl)
open Nat (add_assoc not_le)
open Decoder (charge charge_eq_ok fail ofExcept_eq_ok read read_eq_ok)

/-! ### Scalars -/

section Scalars

variable {α : Type}

theorem DecodeBudget.eq_iff {b b' : DecodeBudget} : b' = b ↔ b'.allocated = b.allocated + 0 :=
  ⟨fun h ↦ by rw [h, Nat.add_zero], fun h ↦ DecodeBudget.ext h⟩

/-- A read that allocates nothing is exact as soon as it consumes what the writer emits. -/
theorem Exact.ofRead {enc : α → Result Bytes} {p : ScbReader α}
    (h : ∀ {r r' : Reader} {v : α},
      p.run r = .ok (v, r') ↔ ∃ bs, enc v = .ok bs ∧ r.Consumes bs r') :
    Exact enc (fun _ ↦ 0) (read p) := by
  intro r _ b v r' b'
  rw [read_eq_ok, h, DecodeBudget.eq_iff]
  constructor
  · intro ⟨⟨bs, henc, hcons⟩, hb⟩
    exact ⟨bs, henc, hcons, hb⟩
  · intro ⟨bs, henc, hcons, hb⟩
    exact ⟨⟨bs, henc, hcons⟩, hb⟩

/-- The codec of a scalar: a total writer and a read that consumes what it emits. -/
@[reducible]
def scalarCodec (enc : α → Bytes) (p : ScbReader α)
    (h : ∀ {r r' : Reader} {v : α}, p.run r = .ok (v, r') ↔ r.Consumes (enc v) r') :
    MutationValueCodec α where
  encodeValue _ v := .ok (enc v)
  decodeValue _ := read p
  cost _ := 0
  exact _ := Exact.ofRead fun {r r' v} ↦ by
    rw [h]
    exact ⟨fun hcons ↦ ⟨_, rfl, hcons⟩, fun ⟨_, henc, hcons⟩ ↦ Except.ok.inj henc ▸ hcons⟩

instance : MutationValueCodec Bool :=
  scalarCodec encodeBool Reader.readBool Reader.readBool_eq_ok

def encodeU16 (value : UInt16) : Bytes := encodeUvar value.toUInt64

def decodeU16 : ScbReader UInt16 := do
  let value ← (Reader.readUvar · 16)
  StateT.ofExcept (rejectIf (value.toNat ≥ 2 ^ 16) .integerOverflow)
  return value.toUInt16

def encodeU32 (value : UInt32) : Bytes := encodeUvar value.toUInt64

def decodeU32 : ScbReader UInt32 := do
  let value ← (Reader.readUvar · 32)
  StateT.ofExcept (rejectIf (value.toNat ≥ 2 ^ 32) .integerOverflow)
  return value.toUInt32

def decodeU64 : ScbReader UInt64 := (Reader.readUvar · 64)

theorem decodeU16_eq_ok {r r' : Reader} {v : UInt16} :
    decodeU16.run r = .ok (v, r') ↔ r.Consumes (encodeU16 v) r' := by
  simp only [decodeU16, encodeU16, StateT.run_bind_eq_ok, StateT.run_ofExcept_eq_ok,
    rejectIf_eq_ok, StateT.run_pure_eq_ok]
  constructor
  · rintro ⟨value, r₁, hread, _, _, ⟨hlt, rfl⟩, hv, hr⟩
    obtain ⟨-, -, hcons⟩ := Reader.readUvar_eq_ok.1 hread
    have hback : value.toUInt16.toUInt64 = value := by
      apply UInt64.toNat_inj.1
      rw [UInt16.toNat_toUInt64, UInt64.toNat_toUInt16, Nat.mod_eq_of_lt (Nat.not_le.1 hlt)]
    rwa [hv, hr, hback]
  · intro hcons
    have hlt : v.toUInt64.toNat < 2 ^ 16 := by
      rw [UInt16.toNat_toUInt64]
      exact v.toNat_lt
    exact ⟨v.toUInt64, r', Reader.readUvar_eq_ok.2 ⟨by decide, hlt, hcons⟩, (), r',
      ⟨Nat.not_le.2 hlt, rfl⟩, (UInt16.toUInt16_toUInt64 v).symm, rfl⟩

theorem decodeU32_eq_ok {r r' : Reader} {v : UInt32} :
    decodeU32.run r = .ok (v, r') ↔ r.Consumes (encodeU32 v) r' := by
  simp only [decodeU32, encodeU32, StateT.run_bind_eq_ok, StateT.run_ofExcept_eq_ok,
    rejectIf_eq_ok, StateT.run_pure_eq_ok]
  constructor
  · rintro ⟨value, r₁, hread, _, _, ⟨hlt, rfl⟩, hv, hr⟩
    obtain ⟨-, -, hcons⟩ := Reader.readUvar_eq_ok.1 hread
    have hback : value.toUInt32.toUInt64 = value := by
      apply UInt64.toNat_inj.1
      rw [UInt32.toNat_toUInt64, UInt64.toNat_toUInt32, Nat.mod_eq_of_lt (Nat.not_le.1 hlt)]
    rwa [hv, hr, hback]
  · intro hcons
    have hlt : v.toUInt64.toNat < 2 ^ 32 := by
      rw [UInt32.toNat_toUInt64]
      exact v.toNat_lt
    exact ⟨v.toUInt64, r', Reader.readUvar_eq_ok.2 ⟨by decide, hlt, hcons⟩, (), r',
      ⟨Nat.not_le.2 hlt, rfl⟩, (UInt32.toUInt32_toUInt64 v).symm, rfl⟩

theorem decodeU64_eq_ok {r r' : Reader} {v : UInt64} :
    decodeU64.run r = .ok (v, r') ↔ r.Consumes (encodeUvar v) r' := by
  refine Reader.readUvar_eq_ok.trans ⟨fun h ↦ h.2.2, fun h ↦ ⟨by decide, ?_, h⟩⟩
  exact v.toNat_lt

instance : MutationValueCodec UInt16 := scalarCodec encodeU16 decodeU16 decodeU16_eq_ok

instance : MutationValueCodec UInt32 := scalarCodec encodeU32 decodeU32 decodeU32_eq_ok

instance : MutationValueCodec UInt64 := scalarCodec encodeUvar decodeU64 decodeU64_eq_ok

instance : MutationValueCodec Int64 :=
  scalarCodec encodeSint64 Reader.readSint64 Reader.readSint64_eq_ok

/-- `i128`, in two's complement. -/
@[reducible]
def i128Codec : MutationValueCodec (BitVec 128) :=
  scalarCodec encodeSint128 Reader.readSint128 Reader.readSint128_eq_ok

@[reducible]
def u128Codec : MutationValueCodec (BitVec 128) :=
  scalarCodec encodeUvar128 (Reader.readUvar128 · 128) <| by
    intro r r' v
    refine Reader.readUvar128_eq_ok.trans ⟨fun h ↦ h.2.2, fun h ↦ ⟨by decide, v.isLt, h⟩⟩

/-- The fixed 32 bytes of an identity. -/
def readId (kind : IdKind) : ScbReader (Id kind) := do
  let bytes ← Reader.readExactBytes 32
  if h : bytes.length = 32 then return ⟨bytes, h⟩
  else StateT.ofExcept (.error .lengthOverflow)

theorem readId_eq_ok {kind : IdKind} {r r' : Reader} {v : Id kind} :
    (readId kind).run r = .ok (v, r') ↔ r.Consumes v.bytes r' := by
  rw [readId, StateT.run_bind_eq_ok]
  constructor
  · intro ⟨bytes, r₁, hread, h⟩
    obtain ⟨hlen, hcons⟩ := Reader.takeExact_eq_ok.1 hread
    rw [dif_pos hlen, StateT.run_pure_eq_ok] at h
    obtain ⟨rfl, rfl⟩ := h
    exact hcons
  · intro hcons
    refine ⟨v.bytes, r', Reader.takeExact_eq_ok.2 ⟨v.length_eq, hcons⟩, ?_⟩
    rw [dif_pos v.length_eq]
    rfl

instance (kind : IdKind) : MutationValueCodec (Id kind) :=
  scalarCodec Id.bytes (readId kind) readId_eq_ok

/-- A payload that the reader copies out and is charged for. -/
theorem Exact.charged {enc : α → Result Bytes} {p : ScbReader α} {size : α → Nat}
    (h : ∀ {r r' : Reader} {v : α},
      p.run r = .ok (v, r') ↔ ∃ bs, enc v = .ok bs ∧ r.Consumes bs r') :
    Exact enc size (do
      let value ← read p
      charge (size value)
      return value) := by
  intro r _ b v r' b'
  simp only [Decoder.bind_eq_ok, read_eq_ok, charge_eq_ok, Decoder.pure_eq_ok, h]
  constructor
  · rintro ⟨_, _, _, ⟨⟨bs, henc, hcons⟩, rfl⟩, _, _, _, ⟨rfl, hb⟩, rfl, rfl, rfl⟩
    exact ⟨bs, henc, hcons, hb⟩
  · intro ⟨bs, henc, hcons, hb⟩
    exact ⟨v, r', b, ⟨⟨bs, henc, hcons⟩, rfl⟩, (), r', b', ⟨rfl, hb⟩, rfl, rfl, rfl⟩

instance : MutationValueCodec Bytes where
  encodeValue _ := encodeBytes
  decodeValue _ := do
    let value ← read Reader.readBytes
    charge value.length
    return value
  cost := List.length
  exact _ := Exact.charged fun {r r' v} ↦ by
    simp only [Reader.readBytes_eq_ok, encodeBytes_eq_ok]
    exact ⟨fun ⟨hlen, hcons⟩ ↦ ⟨_, ⟨hlen, rfl⟩, hcons⟩, fun ⟨_, ⟨hlen, rfl⟩, hcons⟩ ↦ ⟨hlen, hcons⟩⟩

instance : MutationValueCodec String where
  encodeValue _ := encodeText
  decodeValue _ := do
    let value ← read Reader.readText
    charge (textBytes value).length
    return value
  cost v := (textBytes v).length
  exact _ := Exact.charged fun {r r' v} ↦ by
    simp only [Reader.readText_eq_ok, encodeText, encodeBytes_eq_ok]
    exact ⟨fun ⟨hlen, hcons⟩ ↦ ⟨_, ⟨hlen, rfl⟩, hcons⟩, fun ⟨_, ⟨hlen, rfl⟩, hcons⟩ ↦ ⟨hlen, hcons⟩⟩

/-! ### Simple enumerations -/

/-- `decode_simple_enum`: a 32-bit tag that the table `cases` knows. -/
def decodeSimpleEnum (cases : List (UInt32 × α)) : ScbReader α := do
  let tag ← decodeU32
  StateT.ofExcept (ofOption .unionInvalid (cases.lookup tag))

/-- The codec of a payload-free enumeration whose tag table `cases` inverts `tag`. -/
@[reducible]
def simpleEnumCodec (tag : α → UInt32) (cases : List (UInt32 × α))
    (hsound : (cases.map fun c ↦ tag c.2) = cases.map Prod.fst := by rfl)
    (hcomplete : ∀ v, cases.lookup (tag v) = some v := by intro v; cases v <;> rfl) :
    MutationValueCodec α :=
  scalarCodec (fun v ↦ encodeU32 (tag v)) (decodeSimpleEnum cases) <| by
    intro r r' v
    have hlookup : ∀ {t : UInt32}, cases.lookup t = some v ↔ tag v = t := by
      intro t
      constructor
      · intro h
        obtain ⟨pre, post, rfl, -⟩ := List.lookup_eq_some_iff.1 h
        simp only [List.map_append, List.map_cons] at hsound
        have htail := List.append_inj_right hsound (by rw [List.length_map, List.length_map])
        exact (List.cons.inj htail).1
      · rintro rfl
        exact hcomplete v
    simp only [decodeSimpleEnum, StateT.run_bind_eq_ok, StateT.run_ofExcept_eq_ok,
      ofOption_eq_ok, decodeU32_eq_ok, hlookup]
    constructor
    · rintro ⟨_, _, hcons, rfl, rfl⟩
      exact hcons
    · intro hcons
      exact ⟨_, _, hcons, rfl, rfl⟩

end Scalars

/-! ### Lists -/

section Lists

variable {α σ : Type}

/-- The loop over the elements of a list, each a payload of its own. After each element `accept`
may refuse it, given what it remembers of the elements before. -/
def decodeElements (accept : σ → Bytes → α → Result σ) (dec : Bytes → Decoder α) :
    Nat → σ → Decoder (List α)
  | 0, _ => return []
  | n + 1, memory => do
    let payload ← read Reader.readSizedPayload
    let value ← dec payload
    let memory ← StateT.ofExcept (accept memory payload value)
    let values ← decodeElements accept dec n memory
    return value :: values

/-- `accept` lets every element pass. -/
def Admits (accept : σ → Bytes → α → Result σ) : σ → List Bytes → List α → Prop
  | memory, p :: ps, v :: vs => ∃ memory', accept memory p v = .ok memory' ∧ Admits accept memory' ps vs
  | _, _, _ => True

/-- A counted list at a depth, whose elements are decoded one level deeper. The count pays for the
slots before the first element is read. -/
def decodeList (size depth : Nat) (accept : σ → Bytes → α → Result σ) (memory : σ)
    (dec : Decoder α) : Decoder (List α) := do
  StateT.ofExcept (checkContainerDepth depth)
  let count ← read Reader.readListCount
  charge (count * size)
  decodeElements accept (decodeNestedExact (depth + 1) dec) count memory

/-- What a list costs: its slots, and what its elements cost. -/
def listCost (size : Nat) (cost : α → Nat) (values : List α) : Nat :=
  values.length * size + (values.map cost).sum

/-- A recursive sum of costs is the cost of the elements. -/
theorem listCost_eq {size : Nat} {cost : α → Nat} {total : List α → Nat} (hnil : total [] = 0)
    (hcons : ∀ v vs, total (v :: vs) = cost v + total vs) (values : List α) :
    values.length * size + total values = listCost size cost values := by
  rw [listCost]
  congr 1
  induction values with
  | nil => exact hnil
  | cons v vs ih => rw [hcons, ih, List.map_cons, List.sum_cons]

variable {enc : α → Result Bytes} {accept : σ → Bytes → α → Result σ}

theorem decodeElements_eq_ok
    {cost : α → Nat} {dec : Bytes → Decoder α} (h : ExactOn enc cost dec) {n : Nat} {memory : σ}
    {r r' : Reader} {b b' : DecodeBudget} {vs : List α} :
    (decodeElements accept dec n memory).run (r, b) = .ok (vs, (r', b')) ↔
      vs.length = n ∧ ∃ ps, List.Forall₂ (fun v p ↦ enc v = .ok p) vs ps ∧
        (∀ p ∈ ps, p.length ≤ maxStandaloneBytes) ∧ Admits accept memory ps vs ∧
        r.Consumes (ps.flatMap sizedBytes) r' ∧
        b'.allocated = b.allocated + (vs.map cost).sum := by
  induction n generalizing memory r r' b b' vs with
  | zero =>
    rw [decodeElements, Decoder.pure_eq_ok, DecodeBudget.eq_iff]
    constructor
    · rintro ⟨rfl, rfl, hb⟩
      exact ⟨rfl, [], .nil, by simp, trivial, refl _, hb⟩
    · rintro ⟨hlen, ps, hps, -, -, hcons, hb⟩
      obtain rfl := List.length_eq_zero_iff.1 hlen
      cases hps
      exact ⟨rfl, hcons.unique (refl _), hb⟩
  | succ n ih =>
    simp only [decodeElements, Decoder.bind_eq_ok, read_eq_ok,
      Reader.readSizedPayload_eq_ok, h.eq_ok, ofExcept_eq_ok, ih, Decoder.pure_eq_ok]
    constructor
    · rintro ⟨p, r₁, b₁, ⟨⟨hp, hcons⟩, rfl⟩, v, r₂, b₂, ⟨hv, rfl, hb₂⟩, m, r₃, b₃,
        ⟨hm, rfl, rfl⟩, vs, r₄, b₄, ⟨hlen, ps, hps, hle, hadmit, hcons', hb₄⟩, rfl, rfl, rfl⟩
      refine ⟨by rw [List.length_cons, hlen], p :: ps, .cons hv hps,
        List.forall_mem_cons.2 ⟨hp, hle⟩, ⟨m, hm, hadmit⟩, hcons.trans hcons', ?_⟩
      rw [hb₄, hb₂, List.map_cons, List.sum_cons, add_assoc]
    · rintro ⟨hlen, ps, hps, hle, hadmit, hcons, hb⟩
      cases hps with
      | nil => cases hlen
      | @cons v p vs ps hv hps =>
        obtain ⟨m, hm, hadmit⟩ := hadmit
        obtain ⟨hp, hle⟩ := List.forall_mem_cons.1 hle
        rw [List.flatMap_cons, Cursor.consumes_append_iff] at hcons
        obtain ⟨r₁, hcons, hcons'⟩ := hcons
        rw [List.map_cons, List.sum_cons, ← add_assoc] at hb
        -- the budget after the first element
        have hle₁ : b.allocated + cost v ≤ maxTotalAllocation := by
          have := b'.allocated_le
          omega
        exact ⟨p, r₁, b, ⟨⟨hp, hcons⟩, rfl⟩, v, r₁, ⟨_, hle₁⟩, ⟨hv, rfl, rfl⟩, m, r₁, _, ⟨hm, rfl,
          rfl⟩, vs, r', b', ⟨Nat.succ.inj hlen, ps, hps, hle, hadmit, hcons', hb⟩, rfl, rfl, rfl⟩

variable {ps : List Bytes}

theorem length_le_of_encoded {depth : Nat} {vs : List α}
    (h : List.Forall₂ (fun v p ↦ encodeAtDepth depth enc v = .ok p) vs ps) :
    ∀ p ∈ ps, p.length ≤ maxStandaloneBytes := by
  induction h with
  | nil => simp
  | cons hv _ ih => exact List.forall_mem_cons.2 ⟨(encodeAtDepth_eq_ok.1 hv).2.2, ih⟩

/-- What a reader within the standalone limit consumes is within it. -/
theorem length_le_of_consumes {r r' : Reader} {bs : Bytes}
    (hr : r.input.length ≤ maxStandaloneBytes) (h : r.Consumes bs r') :
    bs.length ≤ maxStandaloneBytes := by
  have := h.length_le
  rw [Cursor.length_rest] at this
  omega

variable {dec : Decoder α}

/-- A reader is exact for every writer that agrees with its own within the standalone limit. -/
theorem Exact.congr {enc enc' : α → Result Bytes} {cost : α → Nat} (h : Exact enc cost dec)
    (henc : ∀ {v : α} {bs : Bytes}, bs.length ≤ maxStandaloneBytes →
      (enc' v = .ok bs ↔ enc v = .ok bs)) : Exact enc' cost dec := by
  intro r hr b v r' b'
  rw [h hr]
  refine exists_congr fun bs ↦ ?_
  constructor
  · intro ⟨hbs, hcons, hb⟩
    exact ⟨(henc (length_le_of_consumes hr hcons)).2 hbs, hcons, hb⟩
  · intro ⟨hbs, hcons, hb⟩
    exact ⟨(henc (length_le_of_consumes hr hcons)).1 hbs, hcons, hb⟩

/-- What a value costs may be written in another way. -/
theorem Exact.ofCost {cost cost' : α → Nat}
    (h : Exact enc cost dec) (hcost : ∀ v, cost' v = cost v) : Exact enc cost' dec :=
  (funext hcost : cost' = cost) ▸ h

/-- **Lists.** A list is read back exactly when its elements are, for a writer that emits the
framed elements of the lists `accept` lets pass. -/
theorem Exact.list {memory : σ} {cost : α → Nat} (h : Exact enc cost dec) {size depth : Nat}
    {encList : List α → Result Bytes}
    (henc : ∀ {vs : List α} {bs : Bytes}, bs.length ≤ maxStandaloneBytes → (encList vs = .ok bs ↔
      depth < maxNestingDepth ∧ vs.length ≤ maxCollectionElements ∧
        ∃ ps, List.Forall₂ (fun v p ↦ encodeAtDepth (depth + 1) enc v = .ok p) vs ps ∧
          Admits accept memory ps vs ∧
          bs = Leb128.encode vs.length ++ ps.flatMap sizedBytes)) :
    Exact encList (listCost size cost) (decodeList size depth accept memory dec) := by
  intro r hr b vs r' b'
  simp only [decodeList, Decoder.bind_eq_ok, ofExcept_eq_ok, checkContainerDepth,
    rejectIf_eq_ok, read_eq_ok, Reader.readListCount_eq_ok, charge_eq_ok,
    decodeElements_eq_ok (h.nested _), ge_iff_le, not_le]
  constructor
  · rintro ⟨_, _, _, ⟨hdepth, rfl, rfl⟩, n, r₁, b₁, ⟨⟨hn, hcons⟩, rfl⟩, _, r₂, b₂, ⟨rfl, hb₂⟩,
      rfl, ps, hps, -, hadmit, hcons', hb⟩
    have hall := hcons.trans hcons'
    refine ⟨_, (henc (length_le_of_consumes hr hall)).2 ⟨hdepth, hn, ps, hps, hadmit, rfl⟩, hall, ?_⟩
    rw [hb, hb₂, listCost, add_assoc]
  · rintro ⟨_, hencoded, hcons, hb⟩
    obtain ⟨hdepth, hn, ps, hps, hadmit, rfl⟩ := (henc (length_le_of_consumes hr hcons)).1 hencoded
    obtain ⟨r₁, hcons, hcons'⟩ := Cursor.consumes_append_iff.1 hcons
    rw [listCost, ← add_assoc] at hb
    have hle : b.allocated + vs.length * size ≤ maxTotalAllocation := by
      have := b'.allocated_le
      omega
    exact ⟨(), r, b, ⟨hdepth, rfl, rfl⟩, vs.length, r₁, b, ⟨⟨hn, hcons⟩, rfl⟩, (), r₁, ⟨_, hle⟩,
      ⟨rfl, rfl⟩, rfl, ps, hps, length_le_of_encoded hps, hadmit, hcons', hb⟩

/-- `Vec::encode_value`. -/
def encodeVec (depth : Nat) (enc : α → Result Bytes) (values : List α) : Result Bytes := do
  checkContainerDepth depth
  let elements ← values.mapM (encodeAtDepth (depth + 1) enc)
  encodeList elements

/-- `Vec::decode_value`: nothing is remembered and no element refused. -/
def decodeVec (size depth : Nat) (dec : Decoder α) : Decoder (List α) :=
  decodeList size depth (fun _ _ _ ↦ .ok ()) () dec

/-- The elements of a list, framed behind their count. -/
theorem encodeElements_eq_ok {depth : Nat} {vs : List α} {bs : Bytes} :
    (vs.mapM (encodeAtDepth depth enc) >>= encodeList) = .ok bs ↔
      vs.length ≤ maxCollectionElements ∧
        ∃ ps, List.Forall₂ (fun v p ↦ encodeAtDepth depth enc v = .ok p) vs ps ∧
          bs = Leb128.encode vs.length ++ ps.flatMap sizedBytes := by
  simp only [bind_eq_ok, mapM_eq_ok, encodeList_eq_ok]
  constructor
  · rintro ⟨ps, hps, hn, -, rfl⟩
    rw [← hps.length_eq] at hn ⊢
    exact ⟨hn, ps, hps, rfl⟩
  · rintro ⟨hn, ps, hps, rfl⟩
    rw [hps.length_eq] at hn ⊢
    exact ⟨ps, hps, hn, length_le_of_encoded hps, rfl⟩

theorem encodeVec_eq_ok {depth : Nat} {vs : List α} {bs : Bytes} : encodeVec depth enc vs = .ok bs ↔
      depth < maxNestingDepth ∧ vs.length ≤ maxCollectionElements ∧
        ∃ ps, List.Forall₂ (fun v p ↦ encodeAtDepth (depth + 1) enc v = .ok p) vs ps ∧
          bs = Leb128.encode vs.length ++ ps.flatMap sizedBytes := by
  rw [encodeVec, bind_eq_ok]
  simp only [checkContainerDepth, rejectIf_eq_ok, exists_const, encodeElements_eq_ok,
    ge_iff_le, not_le]

theorem admits_trivial {vs : List α} : Admits (fun _ _ _ ↦ .ok ()) () ps vs := by
  induction ps generalizing vs with
  | nil => cases vs <;> trivial
  | cons p ps ih =>
    cases vs with
    | nil => trivial
    | cons v vs => exact ⟨(), rfl, ih⟩

theorem Exact.vec {cost : α → Nat} (h : Exact enc cost dec) (size depth : Nat) :
    Exact (encodeVec depth enc) (listCost size cost) (decodeVec size depth dec) :=
  h.list fun {vs bs} _ ↦ by simp only [encodeVec_eq_ok, admits_trivial, true_and]

/-- The size of a type on the host, the source's `size_of`. -/
class HostSize (α : Type) where
  size : Nat

instance [MutationValueCodec α] [HostSize α] : MutationValueCodec (List α) where
  encodeValue depth := encodeVec depth (encodeValue (depth + 1))
  decodeValue depth := decodeVec (HostSize.size α) depth (decodeValue (depth + 1))
  cost := listCost (HostSize.size α) cost
  exact depth := (MutationValueCodec.exact (depth + 1)).vec _ depth

/-! ### Ascending lists -/

/-- The order check between neighbours. -/
def ensureIncreasing : Ordering → Result Unit
  | .lt => .ok ()
  | .eq => .error .mapDuplicate
  | .gt => .error .mapOrder

/-- Byte strings in strictly ascending order. -/
def Ascending (keys : List Bytes) : Prop := keys.IsChain fun a b ↦ compare a b = .lt

instance (keys : List Bytes) : Decidable (Ascending keys) :=
  inferInstanceAs (Decidable (keys.IsChain _))

theorem ascending_cons_cons {a b : Bytes} {keys : List Bytes} :
    Ascending (a :: b :: keys) ↔ compare a b = .lt ∧ Ascending (b :: keys) :=
  List.isChain_cons_cons

/-- Remember the key of the last element and refuse a key that is not above it. -/
def admitAscending (key : Bytes → α → Result Bytes) (previous : Option Bytes) (payload : Bytes)
    (value : α) : Result (Option Bytes) := do
  let key ← key payload value
  match previous with
  | some previous => ensureIncreasing (compare previous key)
  | none => .ok ()
  return some key

theorem ensureIncreasing_eq_ok {o : Ordering} {u : Unit} :
    ensureIncreasing o = .ok u ↔ o = .lt := by
  cases o <;> simp [ensureIncreasing]

variable {key : Bytes → α → Result Bytes}

theorem admitAscending_eq_ok {previous memory : Option Bytes} {p : Bytes} {v : α} :
    admitAscending key previous p v = .ok memory ↔
      ∃ k, key p v = .ok k ∧ memory = some k ∧ ∀ q ∈ previous, compare q k = .lt := by
  rw [admitAscending, bind_eq_ok]
  refine exists_congr fun k ↦ and_congr_right fun _ ↦ ?_
  cases previous with
  | none => simp [eq_comm]
  | some q =>
    simp only [bind_eq_ok, ensureIncreasing_eq_ok, exists_const, pure_eq_ok,
      Option.mem_some_iff, forall_eq']
    exact and_comm

/-- The admitted lists are the ones whose keys ascend. -/
theorem admits_ascending {previous : Option Bytes} {vs : List α} (h : vs.length = ps.length) :
    Admits (admitAscending key) previous ps vs ↔
      ∃ ks, List.Forall₂ (fun pv k ↦ key pv.1 pv.2 = .ok k) (ps.zip vs) ks ∧
        Ascending (previous.toList ++ ks) := by
  induction ps generalizing previous vs with
  | nil =>
    obtain rfl := List.length_eq_zero_iff.1 h
    refine ⟨fun _ ↦ ⟨[], .nil, ?_⟩, fun _ ↦ trivial⟩
    cases previous <;> simp [Ascending]
  | cons p ps ih =>
    cases vs with
    | nil => cases h
    | cons v vs =>
      simp only [Admits, admitAscending_eq_ok, List.zip_cons_cons, List.forall₂_cons_left_iff,
        ih (Nat.succ.inj h)]
      constructor
      · rintro ⟨_, ⟨k, hk, rfl, hprev⟩, ks, hks, hasc⟩
        refine ⟨k :: ks, ⟨k, ks, hk, hks, rfl⟩, ?_⟩
        cases previous with
        | none => exact hasc
        | some q => exact ascending_cons_cons.2 ⟨hprev q rfl, hasc⟩
      · rintro ⟨_, ⟨k, ks, hk, hks, rfl⟩, hasc⟩
        cases previous with
        | none => exact ⟨_, ⟨k, hk, rfl, by simp⟩, ks, hks, hasc⟩
        | some q =>
          obtain ⟨hq, hasc⟩ := ascending_cons_cons.1 hasc
          exact ⟨_, ⟨k, hk, rfl, fun _ hmem ↦ Option.mem_some_iff.1 hmem ▸ hq⟩, ks, hks, hasc⟩

/-- Elements whose key is their payload. -/
theorem admits_ascending_payloads {vs : List α} (h : vs.length = ps.length) :
    Admits (admitAscending fun payload _ ↦ .ok payload) none ps vs ↔ Ascending ps := by
  rw [admits_ascending h]
  simp only [Except.ok.injEq, Option.toList_none, List.nil_append]
  have hkeys : ∀ {ks : List Bytes},
      List.Forall₂ (fun (pv : Bytes × α) k ↦ pv.1 = k) (ps.zip vs) ks ↔ ks = ps := by
    intro ks
    rw [← List.forall₂_map_left_iff (f := Prod.fst) (R := (· = ·)),
      List.map_fst_zip (Nat.le_of_eq h.symm), List.forall₂_eq_eq_eq]
    exact eq_comm
  simp only [hkeys, exists_eq_left]

/-- Elements whose key is computed from their value. -/
theorem admits_ascending_keys {key : α → Bytes} {vs : List α} (h : vs.length = ps.length) :
    Admits (admitAscending fun _ value ↦ .ok (key value)) none ps vs ↔ Ascending (vs.map key) := by
  rw [admits_ascending h]
  simp only [Except.ok.injEq, Option.toList_none, List.nil_append]
  have hkeys : ∀ {ks : List Bytes},
      List.Forall₂ (fun (pv : Bytes × α) k ↦ key pv.2 = k) (ps.zip vs) ks ↔ ks = vs.map key := by
    intro ks
    show List.Forall₂ (fun pv k ↦ (key ∘ Prod.snd) pv = k) _ _ ↔ _
    rw [← List.forall₂_map_left_iff (R := (· = ·)), ← List.map_map,
      List.map_snd_zip (Nat.le_of_eq h), List.forall₂_eq_eq_eq]
    exact eq_comm
  simp only [hkeys, exists_eq_left]

end Lists

/-! ### Boxes -/

section Boxes

variable {α : Type}

/-- `Box::decode_value`: the box is paid for before its content is read. -/
def decodeBox (size : Nat) (dec : Decoder α) : Decoder α := do
  charge size
  dec

theorem Exact.box {enc : α → Result Bytes} {cost : α → Nat} {dec : Decoder α}
    (h : Exact enc cost dec) (size : Nat) :
    Exact enc (fun v ↦ size + cost v) (decodeBox size dec) := by
  intro r hr b v r' b'
  simp only [decodeBox, Decoder.bind_eq_ok, charge_eq_ok]
  constructor
  · rintro ⟨_, _, b₁, ⟨rfl, hb₁⟩, hdec⟩
    obtain ⟨bs, henc, hcons, hb⟩ := (h hr).1 hdec
    exact ⟨bs, henc, hcons, by rw [hb, hb₁, add_assoc]⟩
  · intro ⟨bs, henc, hcons, hb⟩
    rw [← add_assoc] at hb
    have hle : b.allocated + size ≤ maxTotalAllocation := by
      have := b'.allocated_le
      omega
    exact ⟨(), r, ⟨_, hle⟩, ⟨rfl, rfl⟩, (h hr).2 ⟨bs, henc, hcons, hb⟩⟩

end Boxes

/-! ### Unions -/

section Unions

variable {α β : Type}

/-- A tag and the payload of the case it names. -/
def encodeUnionValue (depth : Nat) (tag : UInt32) (payload : Result Bytes) : Result Bytes := do
  checkContainerDepth depth
  let payload ← payload
  encodeUnion tag payload

/-- Read the tag and the payload, then let the tag select how the payload is read. -/
def decodeUnion (depth : Nat) (select : UInt32 → Bytes → Decoder α) : Decoder α := do
  StateT.ofExcept (checkContainerDepth depth)
  let (tag, payload) ← read Reader.readUnion
  select tag payload

/-- A case without payload. -/
def decodeEmpty (value : α) (payload : Bytes) : Decoder α :=
  if payload = [] then return value else fail .unionInvalid

/-- `select` reads exactly the values whose tag it is given, from their payloads. -/
def Selects (tag : α → UInt32) (payload : α → Result Bytes) (cost : α → Nat)
    (select : UInt32 → Bytes → Decoder α) : Prop :=
  ∀ ⦃t : UInt32⦄ ⦃p : Bytes⦄ ⦃r : Reader⦄ ⦃b : DecodeBudget⦄ ⦃v : α⦄ ⦃r' : Reader⦄
    ⦃b' : DecodeBudget⦄, (select t p).run (r, b) = .ok (v, (r', b')) ↔
      tag v = t ∧ payload v = .ok p ∧ r' = r ∧ b'.allocated = b.allocated + cost v

theorem encodeUnionValue_eq_ok {depth : Nat} {tag : UInt32} {payload : Result Bytes} {bs : Bytes} :
    encodeUnionValue depth tag payload = .ok bs ↔
      depth < maxNestingDepth ∧ ∃ p, payload = .ok p ∧ p.length ≤ maxStandaloneBytes ∧
        bs = taggedBytes tag p := by
  simp only [encodeUnionValue, checkContainerDepth, bind_eq_ok, rejectIf_eq_ok,
    exists_const, encodeUnion_eq_ok, ge_iff_le, not_le]

/-- **Unions.** -/
theorem Selects.exact {tag : α → UInt32} {payload : α → Result Bytes} {cost : α → Nat}
    {select : UInt32 → Bytes → Decoder α} (h : Selects tag payload cost select) (depth : Nat) :
    Exact (fun v ↦ encodeUnionValue depth (tag v) (payload v)) cost
      (decodeUnion depth select) := by
  intro r _ b v r' b'
  simp only [decodeUnion, Decoder.bind_eq_ok, ofExcept_eq_ok, checkContainerDepth,
    rejectIf_eq_ok, read_eq_ok, Prod.exists, Reader.readUnion_eq_ok,
    encodeUnionValue_eq_ok, ge_iff_le, not_le]
  constructor
  · rintro ⟨_, _, _, ⟨hdepth, rfl, rfl⟩, t, p, r₁, b₁, ⟨⟨hlen, hcons⟩, rfl⟩, hsel⟩
    obtain ⟨rfl, hp, rfl, hb⟩ := h.1 hsel
    exact ⟨_, ⟨hdepth, p, hp, hlen, rfl⟩, hcons, hb⟩
  · rintro ⟨_, ⟨hdepth, p, hp, hlen, rfl⟩, hcons, hb⟩
    exact ⟨(), r, b, ⟨hdepth, rfl, rfl⟩, tag v, p, r', b, ⟨⟨hlen, hcons⟩, rfl⟩,
      h.2 ⟨rfl, hp, rfl, hb⟩⟩

variable {b b' : DecodeBudget} {r r' : Reader}

theorem decodeEmpty_eq_ok {c v : α} {p : Bytes} : (decodeEmpty c p).run (r, b) = .ok (v, (r', b')) ↔
      v = c ∧ (.ok [] : Result Bytes) = .ok p ∧ r' = r ∧ b'.allocated = b.allocated + 0 := by
  rw [decodeEmpty, Except.ok.injEq, eq_comm (a := [])]
  split
  · rename_i hp
    rw [Decoder.pure_eq_ok, DecodeBudget.eq_iff, and_iff_right hp]
  · rename_i hp
    exact ⟨fun h ↦ (nomatch h), fun ⟨_, h, _⟩ ↦ absurd h hp⟩

theorem Decoder.fail_ne_ok {e : ScbErrorCode} {s : Reader × DecodeBudget}
    {x : α × Reader × DecodeBudget} : (fail e : Decoder α).run s ≠ .ok x := by
  intro h
  cases h

theorem Decoder.map_eq_ok {f : β → α} {p : Decoder β} {s : Reader × DecodeBudget} {v : α}
    {r' : Reader} {b' : DecodeBudget} :
    (f <$> p).run s = .ok (v, (r', b')) ↔ ∃ a, p.run s = .ok (a, (r', b')) ∧ v = f a := by
  rw [map_eq_pure_bind, Decoder.bind_eq_ok]
  simp only [Decoder.pure_eq_ok]
  constructor
  · rintro ⟨a, r₁, b₁, h, rfl, rfl, rfl⟩
    exact ⟨a, h, rfl⟩
  · rintro ⟨a, h, rfl⟩
    exact ⟨a, r', b', h, rfl, rfl, rfl⟩

/-- A case whose payload `dec` reads exactly. -/
theorem ExactOn.map_eq_ok {enc : β → Result Bytes} {cost : β → Nat} {dec : Bytes → Decoder β}
    (h : ExactOn enc cost dec) {make : β → α} {p : Bytes} {v : α} :
    (make <$> dec p).run (r, b) = .ok (v, (r', b')) ↔
      ∃ a, v = make a ∧ enc a = .ok p ∧ r' = r ∧ b'.allocated = b.allocated + cost a := by
  simp only [Decoder.map_eq_ok, h.eq_ok]
  exact exists_congr fun _ ↦ and_comm

/-- A case whose payload has a codec. -/
def decodeCase [MutationValueCodec β] (make : β → α) (depth : Nat) (payload : Bytes) :
    Decoder α :=
  make <$> decodeNested depth payload

theorem decodeCase_eq_ok [MutationValueCodec β] {make : β → α} {depth : Nat} {p : Bytes} {v : α} :
    (decodeCase make depth p).run (r, b) = .ok (v, (r', b')) ↔
      ∃ a, v = make a ∧ encodeNested depth a = .ok p ∧ r' = r ∧
        b'.allocated = b.allocated + cost a :=
  (exactOn_decodeNested depth).map_eq_ok

/-- An absent value is case 0, a present one case 1. -/
def optionTag : Option α → UInt32
  | none => 0
  | some _ => 1

/-- `Option::encode_value`, over the writer of the value one level down. -/
def encodeOption (depth : Nat) (enc : α → Result Bytes) (value : Option α) : Result Bytes :=
  encodeUnionValue depth (optionTag value) (value.elim (.ok []) (encodeAtDepth (depth + 1) enc))

/-- `Option::decode_value`. -/
def decodeOption (depth : Nat) (dec : Decoder α) : Decoder (Option α) :=
  decodeUnion depth fun tag payload ↦
    match tag.toNat with
    | 0 => decodeEmpty none payload
    | 1 => some <$> decodeNestedExact (depth + 1) dec payload
    | _ => fail .unionInvalid

theorem Exact.option {enc : α → Result Bytes} {cost : α → Nat} {dec : Decoder α}
    (h : Exact enc cost dec) (depth : Nat) :
    Exact (encodeOption depth enc) (fun v ↦ v.elim 0 cost) (decodeOption depth dec) := by
  refine Selects.exact (fun t p r b v r' b' ↦ ⟨fun hsel ↦ ?_, ?_⟩) depth
  · split at hsel
    · rename_i ht
      obtain ⟨rfl, hp⟩ := decodeEmpty_eq_ok.1 hsel
      exact ⟨UInt32.toNat_inj.1 ht.symm, hp⟩
    · rename_i ht
      obtain ⟨a, rfl, hp⟩ := (h.nested _).map_eq_ok.1 hsel
      exact ⟨UInt32.toNat_inj.1 ht.symm, hp⟩
    · exact absurd hsel Decoder.fail_ne_ok
  · rintro ⟨rfl, hv⟩
    cases v with
    | none => exact decodeEmpty_eq_ok.2 ⟨rfl, hv⟩
    | some a => exact (h.nested _).map_eq_ok.2 ⟨a, rfl, hv⟩

instance [MutationValueCodec α] : MutationValueCodec (Option α) where
  encodeValue depth := encodeOption depth (encodeValue (depth + 1))
  decodeValue depth := decodeOption depth (decodeValue (depth + 1))
  cost v := v.elim 0 cost
  exact depth := (MutationValueCodec.exact (depth + 1)).option depth

end Unions

/-! ### Records -/

/-- The fields of a record in ascending tag order: what writes each of them, and what reads them
one after the other. The reader knows all expected tags and the tag before. -/
structure RecordFields (τ : Type) where
  tags : List UInt32
  encode : τ → Result (List Bytes)
  decode : List UInt32 → Option UInt32 → Decoder τ

namespace RecordFields

variable {α β τ : Type}

/-- No field left. -/
def nil : RecordFields Unit where
  tags := []
  encode _ := return []
  decode _ _ := return ()

/-- The tag read must be the expected one; the error tells the ways to miss it apart. -/
def checkTag (expectedTags : List UInt32) (expected : UInt32) (previous : Option UInt32)
    (tag : UInt32) : Result Unit := do
  match previous with
  | some previous =>
    rejectIf (tag = previous) .fieldDuplicate
    rejectIf (tag < previous) .fieldOrder
  | none => .ok ()
  rejectIf (tag ≠ expected)
    (if expectedTags.contains tag then .fieldOrder else .fieldUnknown)

/-- The tag of a field, and its payload read by `dec`. -/
def decodeField (expectedTags : List UInt32) (tag : UInt32) (previous : Option UInt32)
    (dec : Bytes → Decoder β) : Decoder β := do
  let found ← read decodeU32
  StateT.ofExcept (checkTag expectedTags tag previous found)
  let payload ← read Reader.readSizedPayload
  dec payload

/-- One more field in front. -/
def cons (tag : UInt32) (enc : β → Result Bytes) (dec : Bytes → Decoder β)
    (fields : RecordFields τ) : RecordFields (β × τ) where
  tags := tag :: fields.tags
  encode v := do
    let first ← enc v.1
    let rest ← fields.encode v.2
    return first :: rest
  decode expectedTags previous := do
    let first ← decodeField expectedTags tag previous dec
    let rest ← fields.decode expectedTags (some tag)
    return (first, rest)

/-- One more field in front, on whose value the codecs of the fields behind it depend. Their tags
do not. -/
def consDep (tag : UInt32) (enc : β → Result Bytes) (dec : Bytes → Decoder β)
    (tags : List UInt32) (fields : β → RecordFields τ) : RecordFields (β × τ) where
  tags := tag :: tags
  encode v := do
    let first ← enc v.1
    let rest ← (fields v.1).encode v.2
    return first :: rest
  decode expectedTags previous := do
    let first ← decodeField expectedTags tag previous dec
    let rest ← (fields first).decode expectedTags (some tag)
    return (first, rest)

/-- `encode_record` over the fields of a value. -/
def encodeRecordValue (fields : RecordFields τ) (depth : Nat) (value : τ) : Result Bytes := do
  checkContainerDepth depth
  let payloads ← fields.encode value
  encodeRecord (fields.tags.zip payloads)

/-- `decode_record_fields`. -/
def decodeRecordFields (fields : RecordFields τ) (depth : Nat) : Decoder τ := do
  StateT.ofExcept (checkContainerDepth depth)
  let count ← read Reader.readRecordFieldCount
  StateT.ofExcept (rejectIf (count ≠ fields.tags.length)
    (if count < fields.tags.length then .fieldMissing else .fieldUnknown))
  fields.decode fields.tags none

/-- The reader is exact for the writer, after any tag below the first. -/
structure Exact (fields : RecordFields τ) (cost : τ → Nat) : Prop where
  sorted : fields.tags.Pairwise (· < ·)
  decode_eq_ok : ∀ {expectedTags : List UInt32} {previous : Option UInt32} {r r' : Reader}
    {b b' : DecodeBudget} {v : τ}, (∀ q ∈ previous, ∀ t ∈ fields.tags, q < t) →
      ((fields.decode expectedTags previous).run (r, b) = .ok (v, (r', b')) ↔
        ∃ ps, fields.encode v = .ok ps ∧ (∀ p ∈ ps, p.length ≤ maxStandaloneBytes) ∧
          r.Consumes ((fields.tags.zip ps).flatMap fun f ↦ taggedBytes f.1 f.2) r' ∧
          b'.allocated = b.allocated + cost v)
  length_eq : ∀ {v : τ} {ps : List Bytes}, fields.encode v = .ok ps →
    ps.length = fields.tags.length

variable {previous : Option UInt32} {expectedTags : List UInt32}

theorem checkTag_eq_ok {expected tag : UInt32} (hprev : ∀ q ∈ previous, q < expected) {u : Unit} :
    checkTag expectedTags expected previous tag = .ok u ↔ tag = expected := by
  cases previous with
  | none => simp [checkTag]
  | some q =>
    have hlt : q < expected := hprev q rfl
    simp only [checkTag, bind_eq_ok, rejectIf_eq_ok, exists_const, not_not]
    constructor
    · intro h
      exact h.2.2
    · rintro rfl
      exact ⟨(UInt32.ne_of_lt hlt).symm, UInt32.lt_asymm hlt, rfl⟩

variable {dec : Bytes → Decoder β} {enc : β → Result Bytes} {b b' : DecodeBudget} {tag : UInt32}
  {r r' : Reader}

theorem decodeField_eq_ok {cost : β → Nat} (h : ExactOn enc cost dec)
    (hprev : ∀ q ∈ previous, q < tag) {v : β} :
    (decodeField expectedTags tag previous dec).run (r, b) = .ok (v, (r', b')) ↔
      ∃ p, enc v = .ok p ∧ p.length ≤ maxStandaloneBytes ∧ r.Consumes (taggedBytes tag p) r' ∧
        b'.allocated = b.allocated + cost v := by
  simp only [decodeField, Decoder.bind_eq_ok, read_eq_ok, decodeU32_eq_ok,
    ofExcept_eq_ok, checkTag_eq_ok hprev, Reader.readSizedPayload_eq_ok, h.eq_ok]
  constructor
  · rintro ⟨_, r₁, _, ⟨htagged, rfl⟩, _, _, _, ⟨rfl, rfl, rfl⟩, p, r₂, _, ⟨⟨hp, hcons⟩, rfl⟩, hv,
      rfl, hb⟩
    rw [encodeU32, encodeUvar_tag] at htagged
    exact ⟨p, hv, hp, htagged.trans hcons, hb⟩
  · rintro ⟨p, hv, hp, hcons, hb⟩
    rw [taggedBytes, ← encodeUvar_tag, Cursor.consumes_append_iff] at hcons
    obtain ⟨r₁, htagged, hcons⟩ := hcons
    exact ⟨tag, r₁, b, ⟨htagged, rfl⟩, (), r₁, b, ⟨rfl, rfl, rfl⟩, p, r', b, ⟨⟨hp, hcons⟩, rfl⟩, hv,
      rfl, hb⟩

theorem nil_decode_eq_ok {u : Unit} :
    (nil.decode expectedTags previous).run (r, b) = .ok (u, (r', b')) ↔ r' = r ∧ b' = b := by
  rw [nil, Decoder.pure_eq_ok, and_iff_right (Subsingleton.elim _ _)]

theorem consDep_decode_eq_ok {fields : β → RecordFields τ} {tags expectedTags : List UInt32}
    {v : β} {w : τ} :
    ((consDep tag enc dec tags fields).decode expectedTags previous).run (r, b) =
        .ok ((v, w), (r', b')) ↔
      ∃ r₁ b₁, (decodeField expectedTags tag previous dec).run (r, b) = .ok (v, (r₁, b₁)) ∧
        ((fields v).decode expectedTags (some tag)).run (r₁, b₁) = .ok (w, (r', b')) := by
  simp only [consDep, Decoder.bind_eq_ok, Decoder.pure_eq_ok, Prod.mk.injEq]
  constructor
  · rintro ⟨_, r₁, b₁, hv, _, _, _, hw, ⟨rfl, rfl⟩, rfl, rfl⟩
    exact ⟨r₁, b₁, hv, hw⟩
  · intro ⟨r₁, b₁, hv, hw⟩
    exact ⟨v, r₁, b₁, hv, w, r', b', hw, ⟨rfl, rfl⟩, rfl, rfl⟩

variable {fields : RecordFields τ}

theorem cons_decode_eq_ok {v : β} {w : τ} :
    ((cons tag enc dec fields).decode expectedTags previous).run (r, b) = .ok ((v, w), (r', b')) ↔
      ∃ r₁ b₁, (decodeField expectedTags tag previous dec).run (r, b) = .ok (v, (r₁, b₁)) ∧
        (fields.decode expectedTags (some tag)).run (r₁, b₁) = .ok (w, (r', b')) :=
  consDep_decode_eq_ok

theorem exact_nil : nil.Exact fun _ ↦ 0 where
  sorted := .nil
  decode_eq_ok {_ _ r r' b b' v} _ := by
    rw [nil_decode_eq_ok, DecodeBudget.eq_iff]
    simp only [nil, pure_eq_ok, List.zip_nil_left, List.flatMap_nil]
    constructor
    · rintro ⟨rfl, hb⟩
      exact ⟨[], rfl, by simp, refl _, hb⟩
    · rintro ⟨_, rfl, -, hcons, hb⟩
      exact ⟨hcons.unique (refl _), hb⟩
  length_eq {v ps} h := by
    rw [Except.pure_eq_ok.1 h]
    rfl

theorem Exact.consDep {fields : β → RecordFields τ} {tags : List UInt32} {cost : β → τ → Nat}
    (h : ∀ v, (fields v).Exact (cost v)) (htags : ∀ v, (fields v).tags = tags)
    (hsorted : tags.Pairwise (· < ·)) {costField : β → Nat} (hfield : ExactOn enc costField dec)
    (hbelow : (tags.all fun t ↦ decide (tag < t)) = true) :
    (consDep tag enc dec tags fields).Exact fun v ↦ costField v.1 + cost v.1 v.2 where
  sorted := List.pairwise_cons.2 ⟨by simpa using hbelow, hsorted⟩
  length_eq {v ps} hps := by
    simp only [RecordFields.consDep, bind_eq_ok, pure_eq_ok] at hps
    obtain ⟨p, -, ps, hps, rfl⟩ := hps
    rw [List.length_cons, (h v.1).length_eq hps, htags]
    rfl
  decode_eq_ok {expectedTags previous r r' b b' v} hprev := by
    have htag : ∀ t ∈ tags, tag < t := by simpa using hbelow
    have hprevious : ∀ q ∈ previous, q < tag := fun q hq ↦ hprev q hq tag List.mem_cons_self
    have hnext : ∀ v, ∀ q ∈ some tag, ∀ t ∈ (fields v).tags, q < t := by
      intro v q hq
      obtain rfl := Option.mem_some_iff.1 hq
      rw [htags]
      exact htag
    obtain ⟨v, w⟩ := v
    simp only [consDep_decode_eq_ok, decodeField_eq_ok hfield hprevious,
      (h v).decode_eq_ok (hnext v)]
    simp only [RecordFields.consDep, bind_eq_ok, pure_eq_ok]
    constructor
    · rintro ⟨r₁, b₁, ⟨p, hv, hp, hcons, hb₁⟩, ps, hps, hle, hcons', hb⟩
      rw [htags] at hcons'
      refine ⟨p :: ps, ⟨p, hv, ps, hps, rfl⟩, List.forall_mem_cons.2 ⟨hp, hle⟩,
        hcons.trans hcons', ?_⟩
      rw [hb, hb₁, add_assoc]
    · rintro ⟨_, ⟨p, hv, ps, hps, rfl⟩, hle, hcons, hb⟩
      obtain ⟨hp, hle⟩ := List.forall_mem_cons.1 hle
      rw [List.zip_cons_cons, List.flatMap_cons, Cursor.consumes_append_iff] at hcons
      obtain ⟨r₁, hcons, hcons'⟩ := hcons
      rw [← add_assoc] at hb
      have hb₁ : b.allocated + costField v ≤ maxTotalAllocation := by
        have := b'.allocated_le
        omega
      rw [← htags v] at hcons'
      exact ⟨r₁, ⟨_, hb₁⟩, ⟨p, hv, hp, hcons, rfl⟩, ps, hps, hle, hcons', hb⟩

variable {cost : τ → Nat}

/-- The codecs of the fields behind do not depend on the first. -/
theorem Exact.cons (h : fields.Exact cost) {costField : β → Nat}
    (hfield : ExactOn enc costField dec)
    (hbelow : (fields.tags.all fun t ↦ decide (tag < t)) = true) :
    (cons tag enc dec fields).Exact fun v ↦ costField v.1 + cost v.2 :=
  Exact.consDep (fun _ ↦ h) (fun _ ↦ rfl) h.sorted hfield hbelow

theorem Exact.encodeRecordValue_eq_ok
    (h : fields.Exact cost) (hcount : fields.tags.length ≤ maxRecordFields) {depth : Nat} {v : τ}
    {bs : Bytes} :
    fields.encodeRecordValue depth v = .ok bs ↔
      depth < maxNestingDepth ∧ ∃ ps, fields.encode v = .ok ps ∧
        (∀ p ∈ ps, p.length ≤ maxStandaloneBytes) ∧
        bs = Leb128.encode fields.tags.length ++
          (fields.tags.zip ps).flatMap fun f ↦ taggedBytes f.1 f.2 := by
  simp only [encodeRecordValue, checkContainerDepth, bind_eq_ok, rejectIf_eq_ok,
    exists_const, ge_iff_le, not_le]
  refine and_congr_right fun _ ↦ exists_congr fun ps ↦ and_congr_right fun hps ↦ ?_
  have hlen := h.length_eq hps
  have hfst : (fields.tags.zip ps).map Prod.fst = fields.tags := List.map_fst_zip (by omega)
  have hsnd : (fields.tags.zip ps).map Prod.snd = ps := List.map_snd_zip (by omega)
  have hzip : (fields.tags.zip ps).length = fields.tags.length := by
    rw [List.length_zip]
    omega
  have hsorted : ((fields.tags.zip ps).map Prod.fst).Pairwise (· < ·) := by
    rw [hfst]
    exact h.sorted
  rw [encodeRecord_eq_ok hsorted, hzip, and_iff_right hcount]
  refine and_congr_left fun _ ↦ ?_
  have := List.forall_mem_map (f := Prod.snd) (l := fields.tags.zip ps)
    (P := fun p ↦ p.length ≤ maxStandaloneBytes)
  rw [hsnd] at this
  exact this.symm

/-- **Records.** -/
theorem Exact.exact (h : fields.Exact cost)
    (hcount : fields.tags.length ≤ maxRecordFields) (depth : Nat) :
    Mutate.Exact (fields.encodeRecordValue depth) cost (fields.decodeRecordFields depth) := by
  intro r _ b v r' b'
  have hfirst : ∀ q ∈ (none : Option UInt32), ∀ t ∈ fields.tags, q < t := by simp
  simp only [decodeRecordFields, Decoder.bind_eq_ok, ofExcept_eq_ok, checkContainerDepth,
    rejectIf_eq_ok, read_eq_ok, Reader.readRecordFieldCount_eq_ok,
    h.decode_eq_ok hfirst, h.encodeRecordValue_eq_ok hcount, ge_iff_le, not_le, not_not]
  constructor
  · rintro ⟨_, _, _, ⟨hdepth, rfl, rfl⟩, n, r₁, _, ⟨⟨-, hcons⟩, rfl⟩, _, _, _, ⟨rfl, rfl, rfl⟩, ps,
      hps, hle, hcons', hb⟩
    exact ⟨_, ⟨hdepth, ps, hps, hle, rfl⟩, hcons.trans hcons', hb⟩
  · rintro ⟨_, ⟨hdepth, ps, hps, hle, rfl⟩, hcons, hb⟩
    obtain ⟨r₁, hcons, hcons'⟩ := Cursor.consumes_append_iff.1 hcons
    exact ⟨(), r, b, ⟨hdepth, rfl, rfl⟩, _, r₁, b, ⟨⟨hcount, hcons⟩, rfl⟩, (), r₁, b,
      ⟨rfl, rfl, rfl⟩, ps, hps, hle, hcons', hb⟩

end RecordFields

/-! ### Implementations by shape -/

section Implementations

variable {α β τ : Type}

/-- The required fields of a record: their tags, in the order they are written, and their types. -/
inductive RecordShape : Type → Type 1
  | nil : RecordShape Unit
  | cons {τ : Type} (tag : UInt32) (β : Type) [MutationValueCodec β] (shape : RecordShape τ) :
    RecordShape (β × τ)

namespace RecordShape

def tags : {τ : Type} → RecordShape τ → List UInt32
  | _, nil => []
  | _, cons tag _ shape => tag :: shape.tags

/-- Each field is written and read with the codec of its type one level down. -/
def fields (depth : Nat) : {τ : Type} → RecordShape τ → RecordFields τ
  | _, nil => .nil
  | _, cons tag _ shape => .cons tag (encodeNested (depth + 1)) (decodeNested (depth + 1))
    (shape.fields depth)

def cost : {τ : Type} → RecordShape τ → τ → Nat
  | _, nil, _ => 0
  | _, cons _ _ shape, v => MutationValueCodec.cost v.1 + shape.cost v.2

/-- The tags ascend, and there are not too many of them. -/
def wellFormed (shape : RecordShape τ) : Bool :=
  decide (shape.tags.Pairwise (· < ·)) && decide (shape.tags.length ≤ maxRecordFields)

theorem wellFormed_iff {shape : RecordShape τ} : shape.wellFormed = true ↔
      shape.tags.Pairwise (· < ·) ∧ shape.tags.length ≤ maxRecordFields := by
  simp [wellFormed]

theorem fields_tags (depth : Nat) (shape : RecordShape τ) :
    (shape.fields depth).tags = shape.tags := by
  induction shape with
  | nil => rfl
  | cons tag β shape ih => exact congrArg (tag :: ·) ih

theorem exact_fields {shape : RecordShape τ} (h : shape.tags.Pairwise (· < ·)) (depth : Nat) :
    (shape.fields depth).Exact shape.cost := by
  induction shape with
  | nil => exact RecordFields.exact_nil
  | cons tag β shape ih =>
    obtain ⟨hbelow, hsorted⟩ := List.pairwise_cons.1 h
    refine (ih hsorted).cons (exactOn_decodeNested _) ?_
    rw [fields_tags]
    simpa using hbelow

end RecordShape

/-- Two presentations of one value are read and written alike. -/
theorem Exact.map {enc : α → Result Bytes} {cost : α → Nat} {dec : Decoder α}
    (h : Exact enc cost dec) (e : β ≃ α) :
    Exact (fun v ↦ enc (e v)) (fun v ↦ cost (e v)) (e.symm <$> dec) := by
  intro r hr b v r' b'
  rw [Decoder.map_eq_ok]
  constructor
  · rintro ⟨a, hdec, rfl⟩
    simp only [e.apply_symm_apply]
    exact (h hr).1 hdec
  · intro hv
    exact ⟨e v, (h hr).2 hv, (e.symm_apply_apply v).symm⟩

/-- A value is read back once its components are. -/
theorem Exact.ofComponents {enc : β → Result Bytes} {cost : β → Nat} {dec : Decoder α} (e : β ≃ α)
    (h : Exact (fun t ↦ enc (e.symm t)) (fun t ↦ cost (e.symm t)) dec) :
    Exact enc cost (e.symm <$> dec) := by
  simpa only [e.symm_apply_apply] using h.map e

/-- `impl_required_record_codec!`: the record whose fields are the components of `e`. -/
@[reducible]
def recordCodec (shape : RecordShape τ) (e : α ≃ τ) (h : shape.wellFormed = true := by rfl) :
    MutationValueCodec α where
  encodeValue depth v := (shape.fields depth).encodeRecordValue depth (e v)
  decodeValue depth := e.symm <$> (shape.fields depth).decodeRecordFields depth
  cost v := shape.cost (e v)
  exact depth := by
    obtain ⟨hsorted, hcount⟩ := RecordShape.wellFormed_iff.1 h
    exact ((shape.exact_fields hsorted depth).exact (shape.fields_tags depth ▸ hcount) depth).map e

/-- A value together with the codec of its type. -/
structure Payload where
  {type : Type}
  [codec : MutationValueCodec type]
  value : type

attribute [instance] Payload.codec

/-- The bytes of a payload, if there is one. -/
def encodePayload (depth : Nat) : Option Payload → Result Bytes
  | none => .ok []
  | some payload => encodeNested depth payload.value

def payloadCost : Option Payload → Nat
  | none => 0
  | some payload => MutationValueCodec.cost payload.value

/-- One arm of a union's decoder: a case without payload, or one that wraps a decoded value. -/
inductive UnionCase (α : Type) : Type 1
  | empty (value : α)
  | payload {β : Type} [MutationValueCodec β] (make : β → α)

namespace UnionCase

/-- The payload of a case sits at `depth`. -/
def decode (depth : Nat) (payload : Bytes) : UnionCase α → Decoder α
  | empty value => decodeEmpty value payload
  | @UnionCase.payload _ _ _ make => decodeCase make depth payload

/-- Every value of the case has the tag `t` and the payload the case reads. -/
def Sound (tag : α → UInt32) (payload : α → Option Payload) (t : UInt32) : UnionCase α → Prop
  | empty value => tag value = t ∧ payload value = none
  | @UnionCase.payload _ _ _ make => ∀ a, tag (make a) = t ∧ payload (make a) = some ⟨a⟩

/-- The value belongs to the case. -/
def Makes (v : α) : UnionCase α → Prop
  | empty value => v = value
  | @UnionCase.payload _ _ _ make => ∃ a, v = make a

theorem decode_eq_ok {tag : α → UInt32} {payload : α → Option Payload} {t : UInt32}
    {case : UnionCase α} (h : case.Sound tag payload t) {depth : Nat} {p : Bytes} {r r' : Reader}
    {b b' : DecodeBudget} {v : α} :
    (case.decode depth p).run (r, b) = .ok (v, (r', b')) ↔
      case.Makes v ∧ encodePayload depth (payload v) = .ok p ∧ r' = r ∧
        b'.allocated = b.allocated + payloadCost (payload v) := by
  cases case with
  | empty value =>
    rw [decode, decodeEmpty_eq_ok]
    refine and_congr_right ?_
    rintro rfl
    rw [h.2]
    rfl
  | payload make =>
    rw [decode, decodeCase_eq_ok]
    constructor
    · rintro ⟨a, rfl, hp⟩
      rw [(h a).2]
      exact ⟨⟨a, rfl⟩, hp⟩
    · rintro ⟨⟨a, rfl⟩, hp⟩
      rw [(h a).2] at hp
      exact ⟨a, rfl, hp⟩

end UnionCase

/-- The arms of a union's decoder, by tag. -/
def selectCase (cases : List (UInt32 × UnionCase α)) (depth : Nat) (tag : UInt32)
    (payload : Bytes) : Decoder α :=
  match cases.lookup tag with
  | some case => case.decode depth payload
  | none => fail .unionInvalid

/-- Every arm is sound for its tag. -/
def SoundCases (tag : α → UInt32) (payload : α → Option Payload) :
    List (UInt32 × UnionCase α) → Prop
  | [] => True
  | (t, case) :: cases => case.Sound tag payload t ∧ SoundCases tag payload cases

variable {payload : α → Option Payload}

theorem SoundCases.sound {tag : α → UInt32}
    {cases : List (UInt32 × UnionCase α)} (h : SoundCases tag payload cases) {t : UInt32}
    {case : UnionCase α} (hcase : cases.lookup t = some case) : case.Sound tag payload t := by
  induction cases with
  | nil => cases hcase
  | cons c cases ih =>
    rw [List.lookup_cons] at hcase
    split at hcase
    · rename_i heq
      obtain rfl := eq_of_beq heq
      obtain rfl := Option.some.inj hcase
      exact h.1
    · exact ih h.2 hcase

theorem UnionCase.Sound.tag_eq {tag : α → UInt32} {t : UInt32}
    {case : UnionCase α} (h : case.Sound tag payload t) {v : α} (hv : case.Makes v) :
    tag v = t := by
  cases case with
  | empty value =>
    obtain rfl : v = value := hv
    exact h.1
  | payload make =>
    obtain ⟨a, rfl⟩ := hv
    exact (h a).1

/-- The union of the given cases. -/
@[reducible]
def unionCodec (tag : α → UInt32) (payload : α → Option Payload)
    (cases : List (UInt32 × UnionCase α))
    (hsound : SoundCases tag payload cases := by
      repeat' first | exact trivial | exact fun _ ↦ ⟨rfl, rfl⟩ | exact ⟨rfl, rfl⟩ | constructor)
    (hcomplete : ∀ v, ∃ case, cases.lookup (tag v) = some case ∧ case.Makes v := by
      intro v; cases v <;> exact ⟨_, rfl, by first | rfl | exact ⟨_, rfl⟩⟩) :
    MutationValueCodec α where
  encodeValue depth v := encodeUnionValue depth (tag v) (encodePayload (depth + 1) (payload v))
  decodeValue depth := decodeUnion depth (selectCase cases (depth + 1))
  cost v := payloadCost (payload v)
  exact depth := by
    refine Selects.exact (fun t p r b v r' b' ↦ ?_) depth
    rw [selectCase]
    constructor
    · intro h
      split at h
      · rename_i case hcase
        have hcases := hsound.sound hcase
        obtain ⟨hv, hp⟩ := (UnionCase.decode_eq_ok hcases).1 h
        exact ⟨hcases.tag_eq hv, hp⟩
      · exact absurd h Decoder.fail_ne_ok
    · rintro ⟨rfl, hp⟩
      obtain ⟨case, hcase, hv⟩ := hcomplete v
      rw [hcase]
      exact (UnionCase.decode_eq_ok (hsound.sound hcase)).2 ⟨hv, hp⟩

end Implementations

end Sley.Mutate
