import Sley.Vm.Runtime

/-!
# Ownership-aware execution of the hot instructions

`sley-vm/src/execute/owned.rs`: the instructions that build and update values, executed on the
registers themselves. An operand that a mask marks as dead is moved out of its register, so that an
update may work in place, and the units of a result are derived from the cached units of its
operands instead of a walk. `none` defers to the reference arm.

Whether a root has one owner (`Arc::strong_count(..) == 1`) is not visible in the model: it is the
argument `unique`, and **nothing proved about these arms depends on it**.
-/

namespace Sley.Vm

open Ssmc UInt64 Action
open Scb1 (Bytes)

/-- How a stored key compares with the query; two `Bytes` keys of one type and one length share
every header byte of their encodings, so their raw bytes are compared. -/
def keyOrder (stored queryValue : ConstValue) (query : Bytes) : Option Ordering :=
  match stored.data, queryValue.data with
  | .bytes left, .bytes right =>
    if left.length = right.length ∧ stored.valueType = queryValue.valueType then
      some (compare left right)
    else (keyBytes stored).map (compare · query)
  | _, _ => (keyBytes stored).map (compare · query)

/-- Binary search over canonically ordered map entries: where the key is, or where it would be. -/
def searchIn (entries : List MapEntryConst) (queryValue : ConstValue) (query : Bytes) :
    Nat → Nat → Nat → Option (Except Nat Nat)
  | 0, low, _ => some (.error low)
  | fuel + 1, low, high =>
    if low < high then do
      let middle := low + (high - low) / 2
      match ← keyOrder (← entries[middle]?).key queryValue query with
      | .lt => searchIn entries queryValue query fuel (middle + 1) high
      | .gt => searchIn entries queryValue query fuel low middle
      | .eq => return .ok middle
    else some (.error low)

def search (entries : List MapEntryConst) (queryValue : ConstValue) (query : Bytes) :
    Option (Except Nat Nat) :=
  searchIn entries queryValue query entries.length 0 entries.length

/-- Whether a projected part is worth sharing: parts that own heap data. -/
def sharesWell (value : ConstValue) : Bool :=
  match value.data with
  | .sequence _ | .map _ | .record _ | .bytes _ | .text _ | .variant _ | .option (some _)
  | .result _ => true
  | _ => false

/-- The items of a tuple or vector. -/
def itemsOf (value : ConstValue) : Option (List ConstValue) :=
  match value.data with
  | .sequence items => some items
  | _ => none

def fieldsOf (value : ConstValue) : Option (List FieldConst) :=
  match value.data with
  | .record record => some record.fields
  | _ => none

def uIntOf (value : ConstValue) : Option (BitVec 128) :=
  match value.data with
  | .uInt held => some held
  | _ => none

/-- Units of a value with `data` typed `value_type`, from the data units. -/
def whole (valueType : TypeExpr) (dataUnits : UInt64) : Option UInt64 := do
  checkedAdd (← checkedAdd 1 (valueUnitsType valueType)) dataUnits

/-- The first definition of a constant, with its units. -/
def constantIndex (source : ExecutionSource) (id : EntityId) : Option RuntimeValue :=
  (source.constants.find? (·.entityId = id)).map fun constant ↦ .new constant.value

/-- The values of the operands from position `k` on, each moved out when it is dead, with their
units and the sum of these; `each` is what an item has besides its value. -/
def collect (mask each : UInt64) (k : Nat) (units : UInt64) :
    List Register → Action (UInt64 × List UInt64 × List ConstValue)
  | [] => return (units, [], [])
  | register :: registers => do
    let value ← operand register (isDead mask k)
    let units ← orFault (units.checkedAdd (← orFault (each.checkedAdd value.units)))
    let item ← orFault value.value
    let (units, parts, items) ← collect mask each (k + 1) units registers
    return (units, value.units :: parts, item :: items)

/-- The part of a tuple or record that a projection selects, once its index is known: a view of it
when it is worth sharing. -/
def shareItem (source : RuntimeValue) (index : Nat) (element : ConstValue) :
    Option RuntimeValue :=
  if sharesWell element then
    if index < 2 ^ 32 then
      source.itemView (UInt32.ofNat index)
        ((source.partUnits index).getD (valueUnitsConst element))
    else none
  else some (.new element)

/-- The units of an updated container: without the old type and part, with the new ones. -/
def updatedUnits (units : UInt64) (oldType newType : TypeExpr) (removed added : Option UInt64) :
    Option UInt64 := do
  checkedAdd (← checkedSub (← checkedAdd (← units.checkedSub (valueUnitsType oldType))
    (valueUnitsType newType)) (← removed)) (← added)

namespace Owned

def constantRef (source : ExecutionSource) (immediate : Immediate) : Action RuntimeValue := do
  let id ← orFault (entityOf immediate)
  orFault (constantIndex source id)

/-- `TupleNew`, whose result keeps the units of its parts, and `VectorNew`. -/
def sequenceNew (opcode : Opcode) (registers : List Register) (mask : UInt64)
    (resultType : TypeExpr) : Action RuntimeValue := do
  let header ← orFault (checkedAdd 1 (saturate registers.length))
  let (units, parts, items) ← collect mask 0 0 header registers
  let units ← orFault (whole resultType units)
  let value : ConstValue := ⟨resultType, .sequence items⟩
  if opcode = .tupleNew then return .withParts value units parts
  return .withUnits value units

def recordNew (source : ExecutionSource) (immediate : Immediate) (registers : List Register)
    (mask : UInt64) (resultType : TypeExpr) : Action RuntimeValue := do
  let definition ← orFault (entityOf immediate)
  let fields ← orFault (source.recordFields definition)
  rejectIf (fields.length ≠ registers.length) .fault
  let header ← orFault (checkedAdd 33 (saturate registers.length))
  let (units, parts, values) ← collect mask 32 0 header registers
  let units ← orFault (whole resultType units)
  return .withParts ⟨resultType, .record ⟨definition,
    fields.zipWith (fun field value ↦ ⟨field.memberId, value⟩) values⟩⟩ units parts

/-- The payload of a new variant and its units. -/
def variantPayload (mask : UInt64) : List Register → Action (Option ConstValue × UInt64)
  | [register] => do
    let value ← operand register (isDead mask 0)
    let units ← orFault (checkedAdd 1 value.units)
    let payload ← orFault value.value
    return (some payload, units)
  | _ => return (none, 0)

def variantNew (immediate : Immediate) (registers : List Register) (mask : UInt64)
    (resultType : TypeExpr) : Action RuntimeValue := do
  let variant ← orFault (variantOf immediate)
  let (payload, payloadUnits) ← variantPayload mask registers
  let units ← orFault (whole resultType (← orFault (checkedAdd 65 payloadUnits)))
  return .withUnits ⟨resultType, .variant ⟨variant.definition, variant.memberId, payload⟩⟩ units

/-- `OptionSome`, `ResultOk` and `ResultErr`, by the payload of the result. -/
def wrap (data : ConstValue → ConstData) (register : Register) (mask : UInt64)
    (resultType : TypeExpr) : Action RuntimeValue := do
  let value ← operand register (isDead mask 0)
  let units ← orFault (whole resultType (← orFault (checkedAdd 2 value.units)))
  let payload ← orFault value.value
  return .withInner ⟨resultType, data payload⟩ units value.parts

/-- A projection: out of a root that nothing else owns the part is taken, of another it is copied or
shared. -/
def project (unique : Bool) (select : ConstValue → Option (Nat × ConstValue)) (register : Register)
    (mask : UInt64) : Action RuntimeValue := do
  if isDead mask 0 && unique then
    let value ← takeRegister register
    let (_, element) ← orFault (value.value.bind select)
    return .new element
  else
    let value ← readRegister register
    let (index, element) ← orFault (value.value.bind select)
    orFault (shareItem value index element)

def tupleGet (unique : Bool) (immediate : Immediate) (register : Register) (mask : UInt64) :
    Action RuntimeValue := do
  let index ← orFault (indexOf immediate)
  project unique (fun tuple ↦ do
    return (index.toNat, ← (← itemsOf tuple)[index.toNat]?)) register mask

def recordGet (unique : Bool) (immediate : Immediate) (register : Register) (mask : UInt64) :
    Action RuntimeValue := do
  let member ← orFault (memberOf immediate)
  project unique (fun record ↦ do
    let fields ← fieldsOf record
    let position ← fields.findIdx? (·.memberId = member)
    return (position, (← fields[position]?).value)) register mask

def vectorGet (unique : Bool) (vector index : Register) (mask : UInt64) (resultType : TypeExpr) :
    Action RuntimeValue := do
  let index ← orFault ((← readRegister index).value.bind uIntOf)
  let value ← operand vector (isDead mask 0 && unique)
  let items ← orFault (value.value.bind itemsOf)
  return .new ⟨resultType, .option items[index.toNat]?⟩

/-- The vector with an item replaced, its units derived from those of the old one. -/
def updatedVector (vector replacement : RuntimeValue) (vectorType resultType ok : TypeExpr)
    (items : List ConstValue) (index : Nat) (old item : ConstValue) : RuntimeValue :=
  let value : ConstValue := ⟨resultType, .result (.ok ⟨ok, .sequence (items.set index item)⟩)⟩
  let units := (updatedUnits vector.units vectorType ok (some (valueUnitsConst old))
    (some replacement.units)).bind fun inner ↦ (checkedAdd 2 inner).bind (whole resultType)
  .withUnits value (units.getD (valueUnitsConst value))

def vectorSet (vector index replacement : Register) (mask : UInt64) (resultType : TypeExpr) :
    Action RuntimeValue := do
  let index ← orFault ((← readRegister index).value.bind uIntOf)
  let (ok, error) ← orFault (resultTypesOf resultType)
  let vector ← operand vector (isDead mask 0)
  let vectorValue ← orFault vector.value
  let items ← orFault (itemsOf vectorValue)
  let some old := items[index.toNat]? | return .new (failureValue resultType error .index 1)
  let replacement ← operand replacement (isDead mask 2)
  let item ← orFault replacement.value
  return updatedVector vector replacement vectorValue.valueType resultType ok items index.toNat old
    item

/-- `MapGet` and `MapContains`, by what is made of the entry that is found. -/
def mapFind (result : Option MapEntryConst → ConstValue) (map key : Register) :
    Action RuntimeValue := do
  let keyValue ← orFault (← readRegister key).value
  let query ← orFault (keyBytes keyValue)
  let entries ← orFault (mapEntries (← orFault (← readRegister map).value))
  let found ← orFault (search entries keyValue query)
  return .new (result (found.toOption.bind (entries[·]?)))

/-- The entries with one more or with one replaced, and the units that go and come. -/
def insertEntry (entries : List MapEntryConst) (query : Bytes) (entry : MapEntryConst)
    (keyUnits valueUnits : UInt64) :
    Option (List MapEntryConst × Option UInt64 × Option UInt64) := do
  match ← search entries entry.key query with
  | .ok position => do
    let old ← entries[position]?
    return (entries.set position entry,
      (valueUnitsConst old.key).checkedAdd (valueUnitsConst old.value),
      keyUnits.checkedAdd valueUnits)
  | .error position =>
    return (entries.insertIdx position entry, some 0,
      (checkedAdd 1 keyUnits).bind (·.checkedAdd valueUnits))

/-- The entries without a key, and the units that go. -/
def removeEntry (entries : List MapEntryConst) (keyValue : ConstValue) (query : Bytes) :
    Option (List MapEntryConst × Option UInt64) := do
  match ← search entries keyValue query with
  | .ok position => do
    let entry ← entries[position]?
    return (entries.eraseIdx position, (checkedAdd 1 (valueUnitsConst entry.key)).bind
      (·.checkedAdd (valueUnitsConst entry.value)))
  | .error _ => return (entries, some 0)

/-- A map with other entries, its units derived from those of the old one or, where that fails, from
a walk. -/
def updatedMap (map : RuntimeValue) (mapType resultType : TypeExpr) (entries : List MapEntryConst)
    (removed added : Option UInt64) : RuntimeValue :=
  .withUnits ⟨resultType, .map entries⟩
    ((updatedUnits map.units mapType resultType removed added).getD
      (valueUnitsConst ⟨resultType, .map entries⟩))

def mapInsert (map key value : Register) (mask : UInt64) (resultType : TypeExpr) :
    Action RuntimeValue := do
  let key ← operand key (isDead mask 1)
  let value ← operand value (isDead mask 2)
  let map ← operand map (isDead mask 0)
  let mapValue ← orFault map.value
  let keyValue ← orFault key.value
  let query ← orFault (keyBytes keyValue)
  let entries ← orFault (mapEntries mapValue)
  let item ← orFault value.value
  let (entries, removed, added) ← orFault
    (insertEntry entries query ⟨keyValue, item⟩ key.units value.units)
  return updatedMap map mapValue.valueType resultType entries removed added

def mapRemove (map key : Register) (mask : UInt64) (resultType : TypeExpr) :
    Action RuntimeValue := do
  let keyValue ← orFault (← readRegister key).value
  let query ← orFault (keyBytes keyValue)
  let map ← operand map (isDead mask 0)
  let mapValue ← orFault map.value
  let entries ← orFault (mapEntries mapValue)
  let (entries, removed) ← orFault (removeEntry entries keyValue query)
  return updatedMap map mapValue.valueType resultType entries removed (some 0)

/-- Executes one hot instruction, or defers to the reference arm. -/
def execute (unique : Bool) (source : ExecutionSource) (opcode : Opcode) (instruction : Instruction)
    (mask : UInt64) (resultType : TypeExpr) : Action (Option RuntimeValue) :=
  match opcode, instruction.operands with
  | .constantRef, [] => some <$> constantRef source instruction.immediate
  | .tupleNew, registers | .vectorNew, registers =>
    some <$> sequenceNew opcode registers mask resultType
  | .recordNew, registers =>
    some <$> recordNew source instruction.immediate registers mask resultType
  | .variantNew, registers =>
    if registers.length ≤ 1 then
      some <$> variantNew instruction.immediate registers mask resultType
    else pure none
  | .optionSome, [register] =>
    some <$> wrap (fun payload ↦ .option (some payload)) register mask resultType
  | .resultOk, [register] =>
    some <$> wrap (fun payload ↦ .result (.ok payload)) register mask resultType
  | .resultErr, [register] =>
    some <$> wrap (fun payload ↦ .result (.err payload)) register mask resultType
  | .tupleGet, [register] => some <$> tupleGet unique instruction.immediate register mask
  | .recordGet, [register] => some <$> recordGet unique instruction.immediate register mask
  | .vectorGet, [vector, index] => some <$> vectorGet unique vector index mask resultType
  | .vectorSet, [vector, index, replacement] =>
    some <$> vectorSet vector index replacement mask resultType
  | .mapGet, [map, key] =>
    some <$> mapFind (fun entry ↦ ⟨resultType, .option (entry.map (·.value))⟩) map key
  | .mapContains, [map, key] => some <$> mapFind (fun entry ↦ boolValue entry.isSome) map key
  | .mapInsert, [map, key, value] => some <$> mapInsert map key value mask resultType
  | .mapRemove, [map, key] => some <$> mapRemove map key mask resultType
  | _, _ => pure none

end Owned

/-! ### What the arms release -/

/-- What a frame may lose: the values of registers. -/
structure Loses (start frame : Runtime) : Prop where
  eq : frame = { start with registers := frame.registers }
  register : ∀ r : Register, frame.registers[r.toNat]?.join = start.registers[r.toNat]?.join ∨
    frame.registers[r.toNat]?.join = none

/-- However the action ends, values have left registers and nothing else has happened. -/
def Action.Releases {α : Type} (action : Action α) : Prop := action.Moves Loses

section Releases

variable {α β : Type} {p : Action α} {f : α → Action β} {start frame next : Runtime}
  {register : Register}

theorem Loses.refl (frame : Runtime) : Loses frame frame := ⟨rfl, fun _ ↦ .inl rfl⟩

theorem Loses.trans (h : Loses start frame) (h' : Loses frame next) : Loses start next := by
  refine ⟨?_, fun r ↦ ?_⟩
  · rw [h'.eq, h.eq]
  · obtain hsame | hnone := h'.register r
    · rw [hsame]
      exact h.register r
    · exact .inr hnone

theorem join_set {registers : List (Option RuntimeValue)} {value : Option RuntimeValue}
    {r : Register} (hlt : register.toNat < registers.length) :
    (registers.set register.toNat value)[r.toNat]?.join =
      if r = register then value else registers[r.toNat]?.join := by
  split_ifs with hr
  · subst hr
    rw [List.getElem?_set_self hlt, Option.join_some]
  · rw [List.getElem?_set_ne fun heq ↦ hr (UInt32.toNat_inj.1 heq.symm)]

theorem loses_setNone : Loses frame
    { frame with registers := frame.registers.set register.toNat none } := by
  refine ⟨rfl, fun r ↦ ?_⟩
  by_cases hlt : register.toNat < frame.registers.length
  · rw [join_set hlt]
    split_ifs
    · exact .inr rfl
    · exact .inl rfl
  · rw [List.set_eq_of_length_le (Nat.not_lt.1 hlt)]
    exact .inl rfl

theorem releases_of_reads (h : p.Reads) : p.Releases := Operation.moves_of_reads Loses.refl h

theorem releases_pure {a : α} : (pure a : Action α).Releases := Loses.refl

theorem Action.Releases.bind (hp : p.Releases) (hf : ∀ a, (f a).Releases) : (p >>= f).Releases :=
  Operation.Moves.bind id (fun h h' ↦ h.trans h') hp hf

theorem Action.Releases.map (hp : p.Releases) {g : α → β} : (g <$> p).Releases :=
  hp.bind fun _ ↦ releases_pure

theorem releases_orFault {value : Option α} : (orFault value).Releases :=
  releases_of_reads Operation.reads_ofExcept

theorem releases_rejectIf {c : Prop} [Decidable c] {reason : Stop} :
    (rejectIf c reason).Releases :=
  releases_of_reads Operation.reads_ofExcept

theorem releases_readRegister : (readRegister register).Releases :=
  releases_of_reads Operation.reads_ofState

theorem releases_takeRegister : (takeRegister register).Releases := by
  intro frame
  rw [takeRegister]
  split
  exacts [Loses.refl frame, loses_setNone]

theorem releases_operand {dead : Bool} : (operand register dead).Releases := by
  rw [operand]
  split_ifs
  exacts [releases_takeRegister, releases_readRegister]

theorem releases_collect (mask each : UInt64) (registers : List Register) (k : Nat) (units : UInt64) :
    (collect mask each k units registers).Releases := by
  induction registers generalizing k units with
  | nil => exact releases_pure
  | cons register registers ih =>
    exact releases_operand.bind fun _ ↦ releases_orFault.bind fun _ ↦ releases_orFault.bind fun _ ↦
      releases_orFault.bind fun _ ↦ (ih _ _).bind fun _ ↦ releases_pure

namespace Owned

variable {source : ExecutionSource} {immediate : Immediate} {register : Register} {mask : UInt64}
  {resultType : TypeExpr} {unique : Bool}

theorem releases_constantRef : (constantRef source immediate).Releases :=
  releases_orFault.bind fun _ ↦ releases_orFault

variable {registers : List Register}

theorem releases_sequenceNew {opcode : Opcode} :
    (sequenceNew opcode registers mask resultType).Releases :=
  releases_orFault.bind fun _ ↦ (releases_collect _ _ _ _ _).bind fun _ ↦ releases_orFault.bind fun _ ↦ by
    split_ifs <;> exact releases_pure

theorem releases_recordNew : (recordNew source immediate registers mask resultType).Releases :=
  releases_orFault.bind fun _ ↦ releases_orFault.bind fun _ ↦ releases_rejectIf.bind fun _ ↦
    releases_orFault.bind fun _ ↦ (releases_collect _ _ _ _ _).bind fun _ ↦
      releases_orFault.bind fun _ ↦ releases_pure

theorem releases_variantPayload : (variantPayload mask registers).Releases := by
  match registers with
  | [_] => exact releases_operand.bind fun _ ↦ releases_orFault.bind fun _ ↦
      releases_orFault.bind fun _ ↦ releases_pure
  | [] | _ :: _ :: _ => exact releases_pure

theorem releases_variantNew : (variantNew immediate registers mask resultType).Releases :=
  releases_orFault.bind fun _ ↦ releases_variantPayload.bind fun _ ↦ releases_orFault.bind fun _ ↦
    releases_orFault.bind fun _ ↦ releases_pure

theorem releases_wrap {data : ConstValue → ConstData} :
    (wrap data register mask resultType).Releases :=
  releases_operand.bind fun _ ↦ releases_orFault.bind fun _ ↦ releases_orFault.bind fun _ ↦
    releases_orFault.bind fun _ ↦ releases_pure

theorem releases_project {select : ConstValue → Option (Nat × ConstValue)} :
    (project unique select register mask).Releases := by
  rw [project]
  split_ifs
  · exact releases_takeRegister.bind fun _ ↦ releases_orFault.bind fun _ ↦ releases_pure
  · exact releases_readRegister.bind fun _ ↦ releases_orFault.bind fun _ ↦ releases_orFault

theorem releases_vectorGet {vector index : Register} :
    (vectorGet unique vector index mask resultType).Releases :=
  releases_readRegister.bind fun _ ↦ releases_orFault.bind fun _ ↦ releases_operand.bind fun _ ↦
    releases_orFault.bind fun _ ↦ releases_pure

theorem releases_vectorSet {vector index replacement : Register} :
    (vectorSet vector index replacement mask resultType).Releases := by
  refine releases_readRegister.bind fun _ ↦ releases_orFault.bind fun index ↦
    releases_orFault.bind fun _ ↦ releases_operand.bind fun _ ↦ releases_orFault.bind fun _ ↦
      releases_orFault.bind fun items ↦ ?_
  cases items[index.toNat]? with
  | none => exact releases_pure
  | some old => exact releases_operand.bind fun _ ↦ releases_orFault.bind fun _ ↦ releases_pure

theorem releases_mapFind {result : Option MapEntryConst → ConstValue} {map key : Register} :
    (mapFind result map key).Releases :=
  releases_readRegister.bind fun _ ↦ releases_orFault.bind fun _ ↦ releases_orFault.bind fun _ ↦
    releases_readRegister.bind fun _ ↦ releases_orFault.bind fun _ ↦ releases_orFault.bind fun _ ↦
      releases_orFault.bind fun _ ↦ releases_pure

theorem releases_mapInsert {map key value : Register} :
    (mapInsert map key value mask resultType).Releases :=
  releases_operand.bind fun _ ↦ releases_operand.bind fun _ ↦ releases_operand.bind fun _ ↦
    releases_orFault.bind fun _ ↦ releases_orFault.bind fun _ ↦ releases_orFault.bind fun _ ↦
      releases_orFault.bind fun _ ↦ releases_orFault.bind fun _ ↦ releases_orFault.bind fun _ ↦
        releases_pure

theorem releases_mapRemove {map key : Register} : (mapRemove map key mask resultType).Releases :=
  releases_readRegister.bind fun _ ↦ releases_orFault.bind fun _ ↦ releases_orFault.bind fun _ ↦
    releases_operand.bind fun _ ↦ releases_orFault.bind fun _ ↦ releases_orFault.bind fun _ ↦
      releases_orFault.bind fun _ ↦ releases_pure

theorem releases_execute {opcode : Opcode} {instruction : Instruction} :
    (execute unique source opcode instruction mask resultType).Releases := by
  unfold execute
  split
  · exact releases_constantRef.map
  · exact releases_sequenceNew.map
  · exact releases_sequenceNew.map
  · exact releases_recordNew.map
  · split_ifs
    exacts [releases_variantNew.map, releases_pure]
  · exact releases_wrap.map
  · exact releases_wrap.map
  · exact releases_wrap.map
  · exact (releases_orFault.bind fun _ ↦ releases_project).map
  · exact (releases_orFault.bind fun _ ↦ releases_project).map
  · exact releases_vectorGet.map
  · exact releases_vectorSet.map
  · exact releases_mapFind.map
  · exact releases_mapFind.map
  · exact releases_mapInsert.map
  · exact releases_mapRemove.map
  · exact releases_pure

end Owned

end Releases

end Sley.Vm
