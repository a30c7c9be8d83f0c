import Mathlib
import Sley.Mutate.Shapes
import Sley.Ssmc.Definitions

/-!
# The streaming encoder of types and constants

`codec/const_encoding.rs`. Types and constants are not written by the combinators of the other
codecs: their length is measured first, then a cursor over a bounded stack of frames emits the
bytes chunk by chunk, and the keys of a map are compared by running two such cursors side by side.

**One wire schema serves all of it.** `Node.layout` says how a node is framed — an atom, raw bytes,
a union, a record or a list — and measuring, emitting and comparing only look at layouts. The
source hands the layout to a visitor; here its consumers match on it.

`measureWith` takes the order check of map keys as an argument: measuring without one is what the
cursor does for nodes already validated, measuring with `compareValidated` is the canonical
measurement. Lengths are unbounded naturals: an addition that overflows in the source is far over
the standalone limit and fails with the same code.
-/

namespace Sley.Mutate.ConstEncoding

open Scb1 Ssmc

/-! ### The wire schema -/

/-- The lists of the schema. -/
inductive Sequence
  | types (items : List TypeExpr)
  | values (items : List ConstValue)
  | fields (items : List FieldConst)
  | entries (items : List MapEntryConst)
  | ids (items : List EntityId)

/-- A node of the schema. The structs of named types and function types are the arguments of their
constructors. -/
inductive Node
  | value (value : ConstValue)
  | data (data : ConstData)
  | type (type : TypeExpr)
  | named (definition : EntityId) (arguments : List TypeExpr)
  | function (parameters : List TypeExpr) (output : TypeExpr) (effects : List EntityId)
  | functionRef (value : FunctionRefValue)
  | failure (value : BuiltinFailureValue)
  | field (field : FieldConst)
  | record (record : RecordConst)
  | variant (variant : VariantConst)
  | entry (entry : MapEntryConst)
  | result (result : ResultConst)
  | typePair (first second : TypeExpr)
  | option (value : Option ConstValue)
  | sequence (sequence : Sequence)
  | uInt (value : BitVec 128)
  | sInt (value : BitVec 128)
  | bool (value : Bool)
  | f32 (bits : UInt32)
  | f64 (bits : UInt64)
  | raw (bytes : Bytes)
  | bytes (bytes : Bytes)

/-- `Sequence::get`, for all indices at once. -/
def Sequence.nodes : Sequence → List Node
  | types items => items.map .type
  | values items => items.map .value
  | fields items => items.map .field
  | entries items => items.map .entry
  | ids items => items.map fun id ↦ .raw id.bytes

/-- How a node is framed. The fields of a record are numbered from 1 in their order. -/
inductive Layout
  | atom (chunk : Bytes)
  | bytes (bytes : Bytes)
  | union (tag : UInt32) (payload : Option Node)
  | record (fields : List Node)
  | list (values : Sequence)

def typePayload : TypeExpr → Option Node
  | .unit | .bool | .f32 | .f64 | .bytes | .text => none
  | .sInt width | .uInt width => some (.uInt (width.bits.toBitVec.setWidth 128))
  | .tuple items => some (.sequence (.types items))
  | .named definition arguments => some (.named definition arguments)
  | .vector element | .option element | .localCell element => some (.type element)
  | .orderedMap key value => some (.typePair key value)
  | .result ok error => some (.typePair ok error)
  | .functionRef parameters result effects => some (.function parameters result effects)
  | .adapterHandle id | .capabilityToken id => some (.raw id.bytes)
  | .typeParameter ordinal => some (.uInt (ordinal.toBitVec.setWidth 128))
  | .builtinFailure kind => some (.uInt (kind.tag.toBitVec.setWidth 128))

def dataPayload : ConstData → Option Node
  | .unit => none
  | .bool value => some (.bool value)
  | .sInt value => some (.sInt value)
  | .uInt value => some (.uInt value)
  | .f32Bits bits => some (.f32 bits)
  | .f64Bits bits => some (.f64 bits)
  | .bytes value => some (.bytes value)
  | .text value => some (.bytes (textBytes value))
  | .sequence values => some (.sequence (.values values))
  | .record value => some (.record value)
  | .variant value => some (.variant value)
  | .map entries => some (.sequence (.entries entries))
  | .option value => some (.option value)
  | .result value => some (.result value)
  | .functionRef value => some (.functionRef value)
  | .builtinFailure value => some (.failure value)

def resultPayload : ResultConst → ConstValue
  | .ok value | .err value => value

/-- Scalars may sit one level deeper than containers. -/
def Node.isScalar : Node → Bool
  | uInt _ | sInt _ | bool _ | f32 _ | f64 _ | raw _ | bytes _ => true
  | _ => false

/-- `Node::visit`, up to the framing it chooses. -/
def Node.frame : Node → Result Layout
  | value v => .ok (.record [.type v.valueType, .data v.data])
  | type t => .ok (.union t.tag (typePayload t))
  | data d => .ok (.union d.tag (dataPayload d))
  | named definition arguments =>
    .ok (.record [.raw definition.bytes, .sequence (.types arguments)])
  | typePair first second => .ok (.record [.type first, .type second])
  | function parameters output effects =>
    .ok (.record [.sequence (.types parameters), .type output, .sequence (.ids effects)])
  | functionRef v => .ok (.record [.raw v.function.bytes, .sequence (.types v.typeArguments)])
  | failure v => .ok (.record
      [.uInt (v.kind.tag.toBitVec.setWidth 128), .uInt (v.code.toBitVec.setWidth 128)])
  | field v => .ok (.record [.raw v.memberId.bytes, .value v.value])
  | record v => .ok (.record [.raw v.definition.bytes, .sequence (.fields v.fields)])
  | variant v => .ok (.record [.raw v.definition.bytes, .raw v.memberId.bytes, .option v.payload])
  | entry v => .ok (.record [.value v.key, .value v.value])
  | result v => .ok (.union v.tag (some (.value (resultPayload v))))
  | option v => .ok (.union (if v.isSome then 1 else 0) (v.map .value))
  | sequence v => .ok (.list v)
  | uInt v => .ok (.atom (encodeUvar128 v))
  | sInt v => .ok (.atom (encodeSint128 v))
  | bool v => .ok (.atom [if v then 1 else 0])
  | f32 bits => do return .atom (← encodeF32Bits bits)
  | f64 bits => do return .atom (← encodeF64Bits bits)
  | raw v => .ok (.atom v)
  | bytes v => do
    Except.rejectIf (v.length > maxBytePayload) .resourceLimit
    return .bytes v

/-- The layout of a node at a depth. -/
def Node.layout (node : Node) (depth : Nat) : Result Layout := do
  checkDepth depth
  if node.isScalar then .ok () else checkContainerDepth depth
  node.frame

/-! ### Measuring -/

/-- The length of a minimal numeral, from the bit length of its value. -/
def uvarLen (value : Nat) : Nat := (max value.size 1 + 6) / 7

def sized (length : Nat) : Nat := uvarLen length + length

def checkedLength (length : Nat) : Result Nat := do
  Except.rejectIf (length > maxStandaloneBytes) .resourceLimit
  return length

/-- `validate_entity_id_set_order`. -/
def validateEntityIdSetOrder : List EntityId → Result Unit
  | first :: second :: rest => do
    ensureIncreasing (compare first.bytes second.bytes)
    validateEntityIdSetOrder (second :: rest)
  | _ => .ok ()

/-- The fields from number `index + 1` on. -/
def measureFields (measure : Node → Result Nat) (index : Nat) : List Node → Result Nat
  | [] => return 0
  | node :: nodes => do
    let length ← measure node
    let rest ← measureFields measure (index + 1) nodes
    return uvarLen (index + 1) + sized length + rest

/-- `measure_record`; the length of the first field may be known already. -/
def measureRecord (measure : Node → Result Nat) (firstLength : Option Nat) (fields : List Node) :
    Result Nat :=
  match firstLength, fields with
  | some length, _ :: nodes => do
    let rest ← measureFields measure 1 nodes
    return uvarLen fields.length + (uvarLen 1 + sized length + rest)
  | _, _ => do
    let rest ← measureFields measure 0 fields
    return uvarLen fields.length + rest

def measureNodes (measure : Node → Result Nat) : List Node → Result Nat
  | [] => return 0
  | node :: nodes => do
    let length ← measure node
    let rest ← measureNodes measure nodes
    return sized length + rest

/-- How two nodes at a depth compare by their bytes. -/
abbrev Comparison := Node → Node → Nat → Result Ordering

/-- An entry of a map at `depth` whose key is measured already. -/
def measureEntry (depth : Nat) (measure : Node → Result Nat) (keyLength : Nat)
    (entry : MapEntryConst) : Result Nat := do
  match ← Node.layout (.entry entry) (depth + 1) with
  | .record fields => do
    let length ← measureRecord measure (some keyLength) fields
    checkedLength length
  | _ => .error .resourceLimit

/-- The order check between the key of an entry and the key before. -/
def checkKeyOrder (compare : Comparison) (depth : Nat) (previous : Option ConstValue)
    (key : ConstValue) : Result Unit :=
  match previous with
  | some previous => do
    let order ← compare (.value previous) (.value key) (depth + 2)
    ensureIncreasing order
  | none => .ok ()

/-- The entries of a map at `depth`: each key is measured and compared with the key before. -/
def measureEntries (compare : Comparison) (depth : Nat) (measure : Node → Result Nat) :
    Option ConstValue → List MapEntryConst → Result Nat
  | _, [] => return 0
  | previous, entry :: entries => do
    let keyLength ← measure (.value entry.key)
    checkKeyOrder compare depth previous entry.key
    let length ← measureEntry depth measure keyLength entry
    let rest ← measureEntries compare depth measure (some entry.key) entries
    return sized length + rest

/-- The elements of a list at `depth`; only canonical measurement looks at their order. -/
def measureSequence (compare? : Option Comparison) (depth : Nat)
    (measureChild measureGrandchild : Node → Result Nat) (values : Sequence) : Result Nat :=
  match compare?, values with
  | some _, .ids ids => do
    validateEntityIdSetOrder ids
    measureNodes measureChild values.nodes
  | some compare, .entries entries => measureEntries compare depth measureGrandchild none entries
  | _, _ => measureNodes measureChild values.nodes

/-- `Measure`, over the measurements one and two levels down. -/
def measureLayout (compare? : Option Comparison) (depth : Nat)
    (measureChild measureGrandchild : Node → Result Nat) : Layout → Result Nat
  | .atom chunk => return chunk.length
  | .bytes bytes => return sized bytes.length
  | .union tag payload => do
    let length ← match payload with
      | some node => measureChild node
      | none => .ok 0
    return uvarLen tag.toNat + sized length
  | .record fields => measureRecord measureChild none fields
  | .list values => do
    let body ← measureSequence compare? depth measureChild measureGrandchild values
    -- the collection limit is checked after the children
    Except.rejectIf (values.nodes.length > maxCollectionElements) .resourceLimit
    return uvarLen values.nodes.length + body

/-- The length of a node's bytes at a depth, with the order of map keys checked by `compare?`. -/
def measureWith (compare? : Option Comparison) (node : Node) (depth : Nat) : Result Nat :=
  -- `layout` repeats this check; it stands here because it bounds the recursion
  if _ : depth > maxNestingDepth then .error .resourceLimit
  else do
    let layout ← node.layout depth
    let length ← measureLayout compare? depth (measureWith compare? · (depth + 1))
      (measureWith compare? · (depth + 2)) layout
    checkedLength length
termination_by maxNestingDepth + 1 - depth

/-! ### Emitting -/

/-- Pending work of a cursor. -/
inductive Frame
  | node (node : Node) (depth : Nat)
  | chunk (chunk : Bytes)
  | children (layout : Layout) (index depth : Nat)

def maxCursorFrames : Nat := 3 * (maxNestingDepth + 1) + 1

/-- `Chunk::uint`. -/
def chunkUint (value : Nat) : Bytes := encodeUvar128 (BitVec.ofNat 128 value)

/-- The numeral in front of a container. -/
def Layout.header : Layout → Nat
  | union tag _ => tag.toNat
  | record fields => fields.length
  | list values => values.nodes.length
  | _ => 0

/-- The children of a container; the payload of a union may be absent. -/
def Layout.children : Layout → List (Option Node)
  | union _ payload => [payload]
  | record fields => fields.map some
  | list values => values.nodes.map some
  | _ => []

def Layout.isRecord : Layout → Bool
  | record _ => true
  | _ => false

/-- A cursor: its stack, the top first. -/
abbrev WireCursor := List Frame

namespace WireCursor

def push (stack : WireCursor) (frame : Frame) : Result WireCursor := do
  Except.rejectIf (stack.length = maxCursorFrames) .resourceLimit
  return frame :: stack

/-- The next chunk, or the end of the bytes. -/
def next : WireCursor → Result (Option (Bytes × WireCursor))
  | [] => return none
  | .chunk chunk :: stack => return some (chunk, stack)
  | .node node depth :: stack => do
    match ← node.layout depth with
    | .atom chunk => return some (chunk, stack)
    | .bytes bytes => do
      let stack ← push stack (.chunk bytes)
      return some (chunkUint bytes.length, stack)
    | layout => do
      let stack ← push stack (.children layout 0 depth)
      return some (chunkUint layout.header, stack)
  | .children layout index depth :: stack =>
    match layout.children[index]? with
    | none => next stack
    | some child => do
      let length ← match child with
        | some node => measureWith none node (depth + 1)
        | none => .ok 0
      let stack ← push stack (.children layout (index + 1) depth)
      let stack ← match child with
        | some node => push stack (.node node (depth + 1))
        | none => .ok stack
      if layout.isRecord then do
        let stack ← push stack (.chunk (chunkUint length))
        return some (chunkUint (index + 1), stack)
      else return some (chunkUint length, stack)

/-- Append chunks until the end; `fuel` bounds their number. -/
def drain : Nat → WireCursor → Bytes → Result Bytes
  | 0, _, _ => .error .resourceLimit
  | fuel + 1, stack, out => do
    match ← next stack with
    | none => return out
    | some (chunk, stack) => drain fuel stack (out ++ chunk)

/-- The next chunk with the cursor behind it, which is spent at the end. -/
def advance (stack : WireCursor) : Result (Option Bytes × WireCursor) := do
  match ← next stack with
  | none => return (none, [])
  | some (chunk, stack) => return (some chunk, stack)

end WireCursor

open WireCursor

/-! ### Comparing -/

/-- The loop of `compare_validated`: `a` and `b` are what is left of the current chunks. -/
def compareLoop : Nat → WireCursor → Option Bytes → WireCursor → Option Bytes → Result Ordering
  | 0, _, _, _, _ => .error .resourceLimit
  | fuel + 1, left, a, right, b =>
    match a, b with
    | some [], _ => do
      let (a, left) ← advance left
      compareLoop fuel left a right b
    | _, some [] => do
      let (b, right) ← advance right
      compareLoop fuel left a right b
    | none, none => return .eq
    | none, some _ => return .lt
    | some _, none => return .gt
    | some a, some b =>
      let common := min a.length b.length
      match compare (a.take common) (b.take common) with
      | .eq => compareLoop fuel left (some (a.drop common)) right (some (b.drop common))
      | order => return order

theorem compareLoop_cons {fuel : Nat} {left right : WireCursor} {x y : UInt8} {xs ys : Bytes} :
    compareLoop (fuel + 1) left (some (x :: xs)) right (some (y :: ys)) =
      match compare ((x :: xs).take (min (x :: xs).length (y :: ys).length))
        ((y :: ys).take (min (x :: xs).length (y :: ys).length)) with
      | .eq => compareLoop fuel left
        (some ((x :: xs).drop (min (x :: xs).length (y :: ys).length))) right
        (some ((y :: ys).drop (min (x :: xs).length (y :: ys).length)))
      | order => .ok order :=
  rfl

/-- More steps than two nodes within the standalone limit can take. -/
def compareFuel : Nat := 5 * maxStandaloneBytes + 5

/-- `compare_validated`: the order of two nodes' bytes, without writing them out. -/
def compareValidated : Comparison := fun left right depth ↦ do
  let (a, left) ← advance [.node left depth]
  let (b, right) ← advance [.node right depth]
  compareLoop compareFuel left a right b

/-! ### The encoder -/

/-- The canonical measurement. -/
def measure (node : Node) (depth : Nat) : Result Nat :=
  measureWith (some compareValidated) node depth

/-- The bytes of a node at a depth. A chunk is empty only behind a length, so twice the bytes and
one more bound the chunks. -/
def encode (node : Node) (depth : Nat) : Result Bytes := do
  let length ← measure node depth
  let out ← drain (2 * length + 2) [.node node depth] []
  Except.rejectIf (out.length ≠ length) .resourceLimit
  return out

end Sley.Mutate.ConstEncoding
