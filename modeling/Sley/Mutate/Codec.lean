import Sley.Scb1.Value
import Sley.Ssmc.Types

/-!
# The mutation-value codec: the trait and its combinators

`MutationValueCodec` of `sley-mutate/src/codec.rs`: a writer that knows its nesting depth, and a
reader that knows its depth and shares an allocation budget with the readers around it. The
hand-written implementations of the source are built from a few shapes — scalars, length-delimited
payloads, lists, boxes, options, records and unions — and those shapes are the combinators here.

**Exactness.** A reader is exact for a writer when it succeeds with `v` precisely when the bytes it
consumes are the ones the writer emits for `v` and the budget can pay for `v` (`Exact`). What `v`
costs is a function of `v` alone: the payload bytes, list slots and boxes the reader allocates for
it, at sizes that are parameters. Since exactness is an equivalence it contains both directions of
canonicality, and every combinator carries it from the parts to the whole.

`MutationValueCodec` is the trait together with the cost and the proof of exactness, so an
implementation that reads back something else than it wrote cannot be put together.
-/

namespace Sley.Mutate

open Scb1
open Except (bind_eq_ok rejectIf)

/-! ### Budget and decoders -/

/-- Bytes the decoder has allocated so far, within the epoch's limit. -/
@[ext]
structure DecodeBudget where
  allocated : Nat
  allocated_le : allocated ≤ maxTotalAllocation

instance : Inhabited DecodeBudget := ⟨0, Nat.zero_le _⟩

/-- A read at a cursor that spends from a budget. -/
abbrev Decoder := StateT (Reader × DecodeBudget) Result

namespace Decoder

variable {α : Type}

/-- A read that allocates nothing. -/
def read (p : ScbReader α) : Decoder α := fun s ↦ do
  let (value, reader) ← p.run s.1
  .ok (value, (reader, s.2))

/-- Spend `bytes` from the budget. -/
def charge (bytes : Nat) : Decoder Unit := fun s ↦
  if h : s.2.allocated + bytes ≤ maxTotalAllocation then .ok ((), (s.1, ⟨_, h⟩))
  else .error .resourceLimit

def fail (e : ScbErrorCode) : Decoder α := StateT.ofExcept (.error e)

variable {b b' : DecodeBudget} {r r' : Reader}

theorem read_eq_ok {p : ScbReader α} {v : α} :
    (read p).run (r, b) = .ok (v, (r', b')) ↔ p.run r = .ok (v, r') ∧ b' = b := by
  show p.run r >>= _ = _ ↔ _
  rw [bind_eq_ok]
  constructor
  · rintro ⟨⟨v₁, r₁⟩, h, hend⟩
    simp only [Except.ok.injEq, Prod.mk.injEq] at hend
    obtain ⟨rfl, rfl, rfl⟩ := hend
    exact ⟨h, rfl⟩
  · rintro ⟨h, rfl⟩
    exact ⟨_, h, rfl⟩

theorem charge_eq_ok {n : Nat} {u : Unit} :
    (charge n).run (r, b) = .ok (u, (r', b')) ↔ r' = r ∧ b'.allocated = b.allocated + n := by
  show dite _ _ _ = _ ↔ _
  split
  · simp only [Except.ok.injEq, Prod.mk.injEq, true_and]
    constructor
    · rintro ⟨rfl, rfl⟩
      exact ⟨rfl, rfl⟩
    · rintro ⟨rfl, hb⟩
      exact ⟨rfl, DecodeBudget.ext hb.symm⟩
  · rename_i hbudget
    constructor
    · intro h
      cases h
    · rintro ⟨-, hb⟩
      exact absurd (hb ▸ b'.allocated_le) hbudget

theorem ofExcept_eq_ok {x : Result α} {v : α} :
    (StateT.ofExcept x : Decoder α).run (r, b) = .ok (v, (r', b')) ↔
      x = .ok v ∧ r' = r ∧ b' = b := by
  rw [StateT.run_ofExcept_eq_ok, Prod.mk.injEq]

theorem pure_eq_ok {a v : α} :
    (pure a : Decoder α).run (r, b) = .ok (v, (r', b')) ↔ v = a ∧ r' = r ∧ b' = b := by
  rw [StateT.run_pure_eq_ok, Prod.mk.injEq]

theorem bind_eq_ok {β : Type} {p : Decoder α} {q : α → Decoder β} {s : Reader × DecodeBudget}
    {r' : Reader} {b' : DecodeBudget} {v : β} :
    (p >>= q).run s = .ok (v, (r', b')) ↔
      ∃ a r₁ b₁, p.run s = .ok (a, (r₁, b₁)) ∧ (q a).run (r₁, b₁) = .ok (v, (r', b')) := by
  rw [StateT.run_bind_eq_ok]
  simp only [Prod.exists]

end Decoder

/-! ### Depths -/

def checkDepth (depth : Nat) : Result Unit :=
  rejectIf (depth > maxNestingDepth) .resourceLimit

def checkContainerDepth (depth : Nat) : Result Unit :=
  rejectIf (depth ≥ maxNestingDepth) .resourceLimit

/-- Induction from the deepest level up: recursion on depth stops beyond the limit. -/
theorem depthInduction {P : Nat → Prop} (deep : ∀ d, maxNestingDepth < d → P d)
    (step : ∀ d, d ≤ maxNestingDepth → (∀ d', d < d' → P d') → P d) (d : Nat) : P d := by
  induction hroom : maxNestingDepth + 1 - d using Nat.strong_induction_on generalizing d with
  | h room ih =>
    rcases Nat.lt_or_ge maxNestingDepth d with hdeep | hle
    · exact deep d hdeep
    · exact step d hle fun d' hd' ↦ ih _ (by omega) d' rfl

section AtDepth

variable {α : Type}

/-- `encode_at_depth`, over the value writer `enc` of that depth. -/
def encodeAtDepth (depth : Nat) (enc : α → Result Bytes) (value : α) : Result Bytes := do
  checkDepth depth
  let encoded ← enc value
  rejectIf (encoded.length > maxStandaloneBytes) .resourceLimit
  return encoded

def decodeAtDepth (depth : Nat) (dec : Decoder α) : Decoder α := do
  StateT.ofExcept (checkDepth depth)
  dec

/-- Decode all of `input` at a cursor of its own, spending from a budget. -/
def decodeWhole (depth : Nat) (dec : Decoder α) (input : Bytes) (budget : DecodeBudget) :
    Result (α × DecodeBudget) := do
  let cursor ← Reader.new input
  let (value, cursor, budget) ← (decodeAtDepth depth dec).run (cursor, budget)
  cursor.checkFinished
  .ok (value, budget)

/-- `decode_nested_exact`: a payload inside a value, on the shared budget. -/
def decodeNestedExact (depth : Nat) (dec : Decoder α) (input : Bytes) : Decoder α := fun s ↦ do
  let (value, budget) ← decodeWhole depth dec input s.2
  .ok (value, (s.1, budget))

/-- `dec` succeeds with `v` exactly when it consumes what `enc` writes for `v` and the budget pays
the cost of `v`. Every reader is opened on an input within the standalone limit. -/
def Exact (enc : α → Result Bytes) (cost : α → Nat) (dec : Decoder α) : Prop :=
  ∀ ⦃r : Reader⦄, r.input.length ≤ maxStandaloneBytes →
    ∀ ⦃b : DecodeBudget⦄ ⦃v : α⦄ ⦃r' : Reader⦄ ⦃b' : DecodeBudget⦄,
      dec.run (r, b) = .ok (v, (r', b')) ↔
        ∃ bs, enc v = .ok bs ∧ r.Consumes bs r' ∧ b'.allocated = b.allocated + cost v

/-- Exactness of a reader that is given its whole input: a nested payload. -/
def ExactOn (enc : α → Result Bytes) (cost : α → Nat) (dec : Bytes → Decoder α) : Prop :=
  ∀ ⦃input : Bytes⦄ ⦃r : Reader⦄ ⦃b : DecodeBudget⦄ ⦃v : α⦄ ⦃r' : Reader⦄ ⦃b' : DecodeBudget⦄,
    (dec input).run (r, b) = .ok (v, (r', b')) ↔
      enc v = .ok input ∧ r' = r ∧ b'.allocated = b.allocated + cost v

variable {enc : α → Result Bytes} {cost : α → Nat}

theorem ExactOn.eq_ok {dec : Bytes → Decoder α}
    (h : ExactOn enc cost dec) {input : Bytes} {r r' : Reader} {b b' : DecodeBudget} {v : α} :
    (dec input).run (r, b) = .ok (v, (r', b')) ↔
      enc v = .ok input ∧ r' = r ∧ b'.allocated = b.allocated + cost v :=
  @h input r b v r' b'

theorem encodeAtDepth_eq_ok {depth : Nat} {v : α} {bs : Bytes} :
    encodeAtDepth depth enc v = .ok bs ↔
      depth ≤ maxNestingDepth ∧ enc v = .ok bs ∧ bs.length ≤ maxStandaloneBytes := by
  simp only [encodeAtDepth, checkDepth, bind_eq_ok, Except.rejectIf_eq_ok, exists_const,
    Except.pure_eq_ok, Nat.not_lt, gt_iff_lt]
  constructor
  · rintro ⟨hdepth, _, henc, hlen, rfl⟩
    exact ⟨hdepth, henc, hlen⟩
  · rintro ⟨hdepth, henc, hlen⟩
    exact ⟨hdepth, _, henc, hlen, rfl⟩

theorem Exact.decodeWhole_eq_ok {dec : Decoder α}
    (h : Exact enc cost dec) {depth : Nat} {input : Bytes} {b b' : DecodeBudget} {v : α} :
    decodeWhole depth dec input b = .ok (v, b') ↔
      encodeAtDepth depth enc v = .ok input ∧ b'.allocated = b.allocated + cost v := by
  simp only [decodeWhole, encodeAtDepth_eq_ok, bind_eq_ok, Reader.new_eq_ok, Prod.exists,
    decodeAtDepth, Decoder.bind_eq_ok, Decoder.ofExcept_eq_ok, checkDepth, Except.rejectIf_eq_ok,
    Reader.checkFinished_eq_ok, exists_const, gt_iff_lt, Nat.not_lt, Except.ok.injEq, Prod.mk.injEq]
  constructor
  · rintro ⟨_, ⟨hlen, rfl⟩, v₁, c, b₁, ⟨_, _, ⟨hdepth, rfl, rfl⟩, hdec⟩, hfin, rfl, rfl⟩
    obtain ⟨bs, henc, hcons, hcost⟩ := (h hlen).1 hdec
    have hbs : input = bs := by
      have := hcons.rest_eq
      rwa [Cursor.new_rest, hfin, List.append_nil] at this
    exact ⟨⟨hdepth, hbs ▸ henc, hlen⟩, hcost⟩
  · rintro ⟨⟨hdepth, henc, hlen⟩, hcost⟩
    obtain ⟨c, hcons, hfin⟩ := Cursor.exists_consumes_of_rest
      (show (Cursor.new input).rest = input ++ [] by rw [Cursor.new_rest, List.append_nil])
    exact ⟨_, ⟨hlen, rfl⟩, v, c, b', ⟨_, _, ⟨hdepth, rfl, rfl⟩, (h hlen).2 ⟨input, henc, hcons, hcost⟩⟩,
      hfin, rfl, rfl⟩

/-- **A nested payload is read back whole.** -/
theorem Exact.nested {dec : Decoder α} (h : Exact enc cost dec) (depth : Nat) :
    ExactOn (encodeAtDepth depth enc) cost (decodeNestedExact depth dec) := by
  intro input r b v r' b'
  show (decodeWhole depth dec input b >>= _) = _ ↔ _
  rw [bind_eq_ok]
  constructor
  · rintro ⟨⟨v₁, b₁⟩, hdec, hend⟩
    simp only [Except.ok.injEq, Prod.mk.injEq] at hend
    obtain ⟨rfl, rfl, rfl⟩ := hend
    obtain ⟨henc, hcost⟩ := h.decodeWhole_eq_ok.1 hdec
    exact ⟨henc, rfl, hcost⟩
  · rintro ⟨henc, rfl, hcost⟩
    exact ⟨(v, b'), h.decodeWhole_eq_ok.2 ⟨henc, hcost⟩, rfl⟩

end AtDepth

/-! ### The trait -/

/-- A writer and a reader for every depth, exact for one another. -/
class MutationValueCodec (α : Type) where
  encodeValue : Nat → α → Result Bytes
  decodeValue : Nat → Decoder α
  /-- What the reader allocates for a value. -/
  cost : α → Nat
  exact : ∀ depth, Exact (encodeValue depth) cost (decodeValue depth)

export MutationValueCodec (encodeValue decodeValue cost)

section Trait

variable {α : Type} [MutationValueCodec α]

/-- A component one level down, as its container writes it. -/
def encodeNested (depth : Nat) (value : α) : Result Bytes :=
  encodeAtDepth depth (encodeValue depth) value

/-- A component one level down, as its container reads it. -/
def decodeNested (depth : Nat) (payload : Bytes) : Decoder α :=
  decodeNestedExact depth (decodeValue depth) payload

def encodeExact (value : α) : Result Bytes := encodeNested 0 value

/-- `decode_exact`: a whole value, on a fresh budget. -/
def decodeExact (α : Type) [MutationValueCodec α] (input : Bytes) : Result α := do
  let (value, _) ← decodeWhole 0 (decodeValue 0) input default
  .ok value

theorem exactOn_decodeNested (depth : Nat) :
    ExactOn (encodeNested depth) cost ((decodeNested depth : Bytes → Decoder α)) :=
  (MutationValueCodec.exact depth).nested depth

/-- **Whole values.** Decoding inverts encoding, as far as the budget goes. -/
theorem decodeExact_eq_ok {input : Bytes} {v : α} : decodeExact α input = .ok v ↔
      encodeExact v = .ok input ∧ cost v ≤ maxTotalAllocation := by
  rw [decodeExact, bind_eq_ok]
  constructor
  · intro ⟨⟨v₁, b⟩, hdec, hend⟩
    obtain rfl := Except.ok.inj hend
    obtain ⟨henc, hcost⟩ := (MutationValueCodec.exact 0).decodeWhole_eq_ok.1 hdec
    refine ⟨henc, ?_⟩
    have hzero : (default : DecodeBudget).allocated = 0 := rfl
    have := b.allocated_le
    omega
  · intro ⟨henc, hcost⟩
    exact ⟨(v, ⟨cost v, hcost⟩),
      (MutationValueCodec.exact 0).decodeWhole_eq_ok.2 ⟨henc, (Nat.zero_add _).symm⟩, rfl⟩

end Trait

end Sley.Mutate
