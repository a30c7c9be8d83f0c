import Sley.Vm.Operands
import Sley.Vm.Owned
import Sley.Vm.Parts

/-!
# What the owned arms compute

The owned arms read registers that may be views, move operands out of them and derive the units of
a result from cached numbers. `Owned.meaning` is the same work on the constants that the registers
stand for. **The arms compute it, whatever the mask, the owners of a root and the representation of
the operands are** (`Owned.follows_execute`), and what they produce caches its own walk
(`RuntimeValue.Presents`).
-/

namespace Sley.Vm

open Ssmc UInt64 Action Operation
open Scb1 (Bytes)
open List (length_cons mapM_cons)
open Option (bind_eq_bind bind_eq_some_iff bind_some map map_eq_some_iff map_some pure_def)
open RuntimeValue (presents_new presents_withUnits shows_withParts shows_withUnits)
open RuntimeValue.Holds (presents)
open Set (notMem_empty subset_univ)
open UInt64 (ofNat reduceToNat toNat toNat_one)

/-! ### Units that fit -/

/-- A value whose units fit 64 bits. -/
def fits (value : ConstValue) : Option ConstValue :=
  if size value < 2 ^ 64 then some value else none

theorem whole_eq_some {valueType : TypeExpr} {dataUnits units : UInt64} :
    whole valueType dataUnits = some units ↔
      units.toNat = 1 + typeSize valueType + dataUnits.toNat := by
  have htype := toNat_valueUnitsType valueType
  have hunits := units.toNat_lt
  rw [whole, bind_eq_bind, bind_eq_some_iff]
  constructor
  · rintro ⟨header, hheader, hsum⟩
    rw [checkedAdd_eq_some] at hheader hsum
    have := header.toNat_lt
    rw [toNat_one] at hheader
    omega
  · intro h
    have hlt : 1 + typeSize valueType < 2 ^ 64 := by omega
    refine ⟨ofNat (1 + typeSize valueType), ?_, ?_⟩ <;>
    · rw [checkedAdd_eq_some, UInt64.toNat_ofNat_of_lt' hlt]
      first | omega | (rw [toNat_one]; omega)

section Collect

variable {mask each units : UInt64} {operands registers : List Register} {start runtime : Runtime}
  {k : ℕ} {resultType : TypeExpr} {data : ConstData}

/-- The units of a new value, from those of its data. -/
theorem follows_whole (hfaulted : Faulted start runtime) (hdata : units.toNat = dataSize data) :
    Follows .fault (fun value (units : UInt64) s ↦ value = ⟨resultType, data⟩ ∧
        units.toNat = size ⟨resultType, data⟩ ∧ s = runtime) (Faulted start)
      (fits ⟨resultType, data⟩) (orFault (whole resultType units) runtime) := by
  rw [fits]
  cases hwhole : whole resultType units with
  | none =>
    rw [if_neg]
    · exact .none hfaulted
    · intro hlt
      rw [size] at hlt
      refine absurd hwhole (Option.ne_none_iff_exists'.2 ⟨ofNat (size ⟨resultType, data⟩), ?_⟩)
      rw [whole_eq_some, hdata, size, UInt64.toNat_ofNat_of_lt' hlt]
  | some total =>
    have htotal := whole_eq_some.1 hwhole
    have hlt := total.toNat_lt
    rw [hdata] at htotal
    have hsize : total.toNat = size ⟨resultType, data⟩ := by rw [htotal, size]
    rw [if_pos (by omega)]
    exact .some ⟨rfl, hsize, rfl⟩

/-- The constants of registers whose sizes, with `each` for every one, can be added up. -/
def gather (file : Register → Option ConstValue) (each units : ℕ) (registers : List Register) :
    Option (List ConstValue) := do
  let items ← registers.mapM file
  if units + each * items.length + sizes items < 2 ^ 64 then some items else none

theorem gather_eq_none {file : Register → Option ConstValue} {each units : ℕ}
    (h : 2 ^ 64 ≤ units) : gather file each units registers = none := by
  rw [gather]
  cases registers.mapM file with
  | none => rfl
  | some items => exact if_neg (by omega)

theorem follows_collect (hready : Ready mask operands start)
    (hkept : Kept mask operands {j | j < k} start runtime)
    (hregisters : ∀ j r, registers[j]? = some r → operands[k + j]? = some r) :
    Follows .fault (fun items out s ↦ out.2.2 = items ∧ items.length = registers.length ∧
        out.1.toNat = units.toNat + each.toNat * items.length + sizes items ∧
        out.2.1.map toNat = items.map size ∧ (∀ v ∈ items, Narrow v) ∧
        Kept mask operands Set.univ start s) (Faulted start)
      (gather start.file each.toNat units.toNat registers)
      (collect mask each k units registers runtime) := by
  induction registers generalizing k units runtime with
  | nil =>
    have hlt := units.toNat_lt
    rw [gather, List.mapM_nil, pure_bind, List.length_nil, sizes, if_pos (by omega)]
    exact .some ⟨rfl, rfl, by simp [sizes], rfl, by simp, hkept.mono (subset_univ _)⟩
  | cons register registers ih =>
    have hk : operands[k]? = some register := hregisters 0 register rfl
    have hmapM : gather start.file each.toNat units.toNat (register :: registers) =
        start.file register >>= fun item ↦ do
          let items ← gather start.file each.toNat
            (units.toNat + (each.toNat + size item)) registers
          return item :: items := by
      rw [gather, mapM_cons]
      cases start.file register with
      | none => rfl
      | some item =>
        simp only [gather, bind_eq_bind, bind_some]
        cases registers.mapM start.file with
        | none => rfl
        | some items =>
          have hsum : units.toNat + each.toNat * (item :: items).length + sizes (item :: items) =
              units.toNat + (each.toNat + size item) + each.toNat * items.length + sizes items := by
            rw [length_cons, sizes, Nat.mul_succ]
            omega
          simp only [bind_some, pure_def, hsum]
          split_ifs <;> rfl
    rw [hmapM]
    refine (follows_operand hready hkept hk (lt_irrefl k) id).bind ?_
    rintro item value s ⟨hitem, hs⟩
    have hunits := hitem.units_eq
    -- an overflow on the way is an overflow of the sum
    cases heach : each.checkedAdd value.units with
    | none =>
      rw [gather_eq_none]
      · exact follows_none hs.eq
      · have := checkedAdd_eq_none.1 heach
        omega
    | some part =>
      rw [orFault_some_bind]
      cases hsum : units.checkedAdd part with
      | none =>
        rw [gather_eq_none]
        · exact follows_none hs.eq
        · have := checkedAdd_eq_some.1 heach
          have := checkedAdd_eq_none.1 hsum
          omega
      | some total =>
        have htotal : units.toNat + (each.toNat + size item) = total.toNat := by
          have := checkedAdd_eq_some.1 heach
          have := checkedAdd_eq_some.1 hsum
          omega
        rw [orFault_some_bind, hitem.value_eq, orFault_some_bind, htotal]
        have hnext := @ih total s (k + 1) (hs.mono ?_) ?_
        · refine hnext.bind ?_
          rintro items ⟨units', parts, items'⟩ s' ⟨rfl, hlength, hunits', hparts, hnarrow, hs'⟩
          refine .some ⟨rfl, congrArg _ hlength, ?_, ?_, ?_, hs'⟩
          · rw [hunits', ← htotal, length_cons, sizes, Nat.mul_succ]
            omega
          · rw [List.map_cons, List.map_cons, hparts, hunits]
          · exact List.forall_mem_cons.2 ⟨hitem.narrow, hnarrow⟩
        · intro j hj
          rcases hj with rfl | hj
          · exact Nat.lt_succ_self j
          · exact Nat.lt_succ_of_lt hj
        · intro j r hj
          rw [Nat.add_right_comm, Nat.add_assoc]
          exact hregisters (j + 1) r hj

end Collect

section Parts

variable {value part : ConstValue} {index : ℕ}

/-- A part that is shared or copied. -/
theorem presents_shareItem {source : RuntimeValue} (h : source.Holds value)
    (hpart : partAt value index = some part) (hindex : index < 2 ^ 32) :
    ∃ item, shareItem source index part = some item ∧ item.Presents part := by
  have hnarrow := narrow_partAt h.narrow hpart
  have hlt := (size_partAt hpart).trans h.size_lt
  rw [shareItem]
  split_ifs
  · have hunits : ((source.partUnits index).getD (valueUnitsConst part)).toNat = size part := by
      cases htable : source.partUnits index with
      | none =>
        rw [Option.getD_none, toNat_valueUnitsConst]
        omega
      | some units =>
        obtain ⟨table, htable, hentry⟩ := bind_eq_some_iff.1 htable
        exact h.parts table htable index units part hentry hpart
    have hstep : stepInto value (.item (UInt32.ofNat index)) = some part := by
      rw [stepInto, UInt32.toNat_ofNat_of_lt' hindex, hpart]
    obtain ⟨view, hview, hshows⟩ := h.view hstep hunits
    exact ⟨view, hview, presents ⟨hshows, hnarrow⟩⟩
  · exact ⟨_, rfl, presents_new hnarrow⟩

end Parts

/-! ### The arms -/

namespace Owned

section Building

variable {mask : UInt64} {operands registers : List Register} {start runtime : Runtime}
  {register : Register} {resultType : TypeExpr} {source : ExecutionSource} {immediate : Immediate}

/-- What an arm leaves: a value that presents a constant, and the operands that it has not taken. -/
def Made (mask : UInt64) (operands : List Register) (start : Runtime) (shown : ConstValue)
    (value : RuntimeValue) (runtime : Runtime) : Prop :=
  value.Presents shown ∧ Kept mask operands Set.univ start runtime

theorem follows_constantRef : Follows .fault (Made mask operands start) (Faulted start)
      (entityOf immediate >>= fun id ↦
        (source.constants.find? (·.entityId = id)).map (·.value))
      (constantRef source immediate start) := by
  refine (follows_orFault faulted_refl).bind ?_
  rintro id _ s ⟨rfl, -, rfl⟩
  rw [constantIndex]
  cases hfind : source.constants.find? (·.entityId = id) with
  | none => exact .none faulted_refl
  | some constant =>
    have hnarrow := source.constants_narrow constant (List.mem_of_find?_eq_some hfind)
    exact .some ⟨presents_new hnarrow, kept_refl.mono (subset_univ _)⟩

theorem length_of_mapM {α β : Type} {f : α → Option β} {xs : List α} {ys : List β}
    (h : xs.mapM f = some ys) : ys.length = xs.length := by
  induction xs generalizing ys with
  | nil =>
    obtain rfl := Option.some.inj h
    rfl
  | cons x xs ih =>
    rw [mapM_cons, bind_eq_bind, bind_eq_some_iff] at h
    obtain ⟨y, -, h⟩ := h
    obtain ⟨ys, hys, h⟩ := bind_eq_some_iff.1 h
    obtain rfl := Option.some.inj h
    rw [length_cons, length_cons, ih hys]

/-- A check of the sum that what follows makes again. -/
theorem gather_bind {β : Type} {file : Register → Option ConstValue} {each units : ℕ}
    {f : List ConstValue → Option β} (h : ∀ items, items.length = registers.length →
      2 ^ 64 ≤ units + each * items.length + sizes items → f items = none) :
    gather file each units registers >>= f = registers.mapM file >>= f := by
  rw [gather]
  cases hitems : registers.mapM file with
  | none => rfl
  | some items =>
    simp only [bind_eq_bind, bind_some]
    split_ifs with hlt
    · rfl
    · exact (h items (length_of_mapM hitems) (Nat.le_of_not_lt hlt)).symm

/-- The parts that a constructor has counted. -/
theorem partsExact_of_map {value : ConstValue} {parts : List UInt64} {items : List ConstValue}
    (hparts : parts.map toNat = items.map size)
    (hitems : ∀ index part, partAt value index = some part → items[index]? = some part) :
    RuntimeValue.PartsExact (some parts) value := by
  intro table htable index units part hunits hpart
  obtain rfl := Option.some.inj htable
  have hmap := congrArg (·[index]?) hparts
  simp only [List.getElem?_map, hunits, hitems index part hpart, map_some,
    Option.some.injEq] at hmap
  exact hmap

/-- The header of a new value, and then its operands. -/
theorem follows_gathered {β γ : Type} {each header : UInt64} {Q : β → γ → Runtime → Prop}
    {f : List ConstValue → Option β} {g : UInt64 × List UInt64 × List ConstValue → Action γ}
    (hready : Ready mask registers start) (hheader : 0 < header.toNat)
    (hover : ∀ items, items.length = registers.length →
      2 ^ 64 ≤ header.toNat + registers.length + each.toNat * registers.length + sizes items →
      f items = none)
    (hnext : ∀ items units parts s, items.length = registers.length →
      units.toNat = header.toNat + registers.length + each.toNat * registers.length + sizes items →
      parts.map toNat = items.map size → (∀ v ∈ items, Narrow v) →
      Kept mask registers Set.univ start s →
      Follows .fault Q (Faulted start) (f items) (g (units, parts, items) s)) :
    Follows .fault Q (Faulted start)
      (registers.mapM start.file >>= f)
      ((orFault (header.checkedAdd (saturate registers.length)) >>= fun units ↦
        collect mask each 0 units registers >>= g) start) := by
  have hgather : gather start.file each.toNat (header.toNat + registers.length) registers >>= f =
      registers.mapM start.file >>= f :=
    gather_bind fun items hlength hlarge ↦ hover items hlength (by rwa [hlength] at hlarge)
  rw [← hgather]
  cases hsum : header.checkedAdd (saturate registers.length) with
  | none =>
    rw [gather_eq_none]
    · exact follows_none faulted_refl
    · rw [checkedAdd_eq_none, toNat_saturate] at hsum
      omega
  | some count =>
    have hcount : count.toNat = header.toNat + registers.length := by
      have := count.toNat_lt
      rw [checkedAdd_eq_some, toNat_saturate] at hsum
      omega
    rw [orFault_some_bind, ← hcount]
    refine (follows_collect hready (kept_refl.mono (Set.empty_subset _))
      fun j r hj ↦ by rwa [Nat.zero_add]).bind ?_
    rintro _ ⟨units, parts, items⟩ s ⟨rfl, hlength, hunits, hparts, hnarrow, hs⟩
    exact hnext _ _ _ _ hlength (by rw [hunits, hcount, hlength]) hparts hnarrow hs

variable {units : UInt64}

/-- A new value, whose units are those of its data. -/
theorem follows_fits {data : ConstData} {g : UInt64 → Action RuntimeValue}
    (hs : Kept mask operands Set.univ start runtime) (hunits : units.toNat = dataSize data)
    (hnext : ∀ units : UInt64, units.toNat = size ⟨resultType, data⟩ →
      ∃ value : RuntimeValue, g units runtime = (.ok value, runtime) ∧
        value.Presents ⟨resultType, data⟩) :
    Follows .fault (Made mask operands start) (Faulted start) (fits ⟨resultType, data⟩)
      ((orFault (whole resultType units) >>= g) runtime) := by
  rw [← bind_pure (fits _)]
  refine (follows_whole hs.eq hunits).bind ?_
  rintro value units _ ⟨rfl, hunits, rfl⟩
  obtain ⟨value, hvalue, hpresents⟩ := hnext units hunits
  rw [hvalue]
  exact .some ⟨hpresents, hs⟩

theorem presents_withUnits_of_size {shown : ConstValue}
    (hunits : units.toNat = size shown) (h : Narrow shown) :
    (RuntimeValue.withUnits shown units).Presents shown :=
  presents ⟨shows_withUnits hunits, h⟩

variable {opcode : Opcode}

theorem follows_sequenceNew (hready : Ready mask registers start) :
    Follows .fault (Made mask registers start) (Faulted start)
      (registers.mapM start.file >>= fun items ↦ fits ⟨resultType, .sequence items⟩)
      (sequenceNew opcode registers mask resultType start) := by
  rw [sequenceNew]
  refine follows_gathered hready (by decide) ?_ ?_
  · intro items hlength hlarge
    refine if_neg ?_
    rw [UInt64.toNat_zero, toNat_one] at hlarge
    rw [size, dataSize]
    omega
  · intro items units parts s hlength hunits hparts hnarrow hs
    refine follows_fits hs ?_ fun total htotal ↦ ?_
    · rw [hunits, dataSize, hlength]
      simp
    · have hvalue : Narrow ⟨resultType, .sequence items⟩ := narrow_sequence.2 hnarrow
      split_ifs
      · refine ⟨_, rfl, presents ⟨?_, hvalue⟩⟩
        exact shows_withParts htotal (partsExact_of_map hparts fun _ _ h ↦ h)
      · exact ⟨_, rfl, presents_withUnits_of_size htotal hvalue⟩

theorem follows_recordNew (hready : Ready mask registers start) :
    Follows .fault (Made mask registers start) (Faulted start)
      (entityOf immediate >>= fun definition ↦ source.recordFields definition >>= fun fields ↦
        if fields.length ≠ registers.length then none else
          registers.mapM start.file >>= fun values ↦ fits ⟨resultType, .record ⟨definition,
            fields.zipWith (fun field value ↦ ⟨field.memberId, value⟩) values⟩⟩)
      (recordNew source immediate registers mask resultType start) := by
  rw [recordNew]
  refine (follows_orFault faulted_refl).bind ?_
  rintro definition _ s ⟨rfl, -, rfl⟩
  cases hfields : source.recordFields definition with
  | none => exact follows_none faulted_refl
  | some fields =>
    refine follows_rejectIf faulted_refl fun hlengths ↦ ?_
    replace hlengths := not_ne_iff.1 hlengths
    have hsize (items : List ConstValue) (hlength : items.length = registers.length) :
        dataSize (.record ⟨definition,
          fields.zipWith (fun field value ↦ ⟨field.memberId, value⟩) items⟩) =
          33 + registers.length + 32 * registers.length + sizes items := by
      rw [dataSize, fieldSizes_zipWith (hlengths.trans hlength.symm), List.length_zipWith, hlength,
        hlengths, Nat.min_self]
      omega
    refine follows_gathered hready (by decide) ?_ ?_
    · intro items hlength hlarge
      refine if_neg ?_
      simp only [reduceToNat] at hlarge
      rw [size, hsize items hlength]
      omega
    · intro items units parts s hlength hunits hparts hnarrow hs
      refine follows_fits hs ?_ fun total htotal ↦ ⟨_, rfl, presents ⟨?_, ?_⟩⟩
      · rw [hunits, hsize items hlength]
        rfl
      · refine shows_withParts htotal (partsExact_of_map hparts fun index part h ↦ ?_)
        obtain ⟨field, hfield, rfl⟩ := map_eq_some_iff.1 h
        obtain ⟨_, value, -, hvalue, rfl⟩ := List.getElem?_zipWith_eq_some.1 hfield
        exact hvalue
      · exact narrow_newRecord hfields hnarrow

/-- The payload of a new variant. -/
def payloadFrom (file : Register → Option ConstValue) : List Register → Option (Option ConstValue)
  | [register] => (file register).map some
  | _ => some none

theorem follows_variantNew (hready : Ready mask registers start) (hlength : registers.length ≤ 1) :
    Follows .fault (Made mask registers start) (Faulted start)
      (variantOf immediate >>= fun variant ↦ payloadFrom start.file registers >>= fun payload ↦
        fits ⟨resultType, .variant ⟨variant.definition, variant.memberId, payload⟩⟩)
      (variantNew immediate registers mask resultType start) := by
  rw [variantNew]
  refine (follows_orFault faulted_refl).bind ?_
  rintro variant _ s ⟨rfl, -, rfl⟩
  match registers, hlength with
  | [], _ =>
    refine follows_fits (kept_refl.mono (subset_univ _)) rfl fun total htotal ↦ ⟨_, rfl, ?_⟩
    exact presents_withUnits_of_size htotal (narrow_variant.2 (by simp))
  | [register], _ =>
    have hoperand := follows_operand hready kept_refl rfl (notMem_empty 0) id
    have hmeaning : payloadFrom s.file [register] >>= (fun payload ↦
        fits ⟨resultType, .variant ⟨variant.definition, variant.memberId, payload⟩⟩) =
        s.file register >>= fun payload ↦
          fits ⟨resultType, .variant ⟨variant.definition, variant.memberId, some payload⟩⟩ := by
      rw [payloadFrom]
      cases s.file register <;> rfl
    rw [hmeaning, variantPayload, bind_bind]
    refine hoperand.bind ?_
    rintro payload value s ⟨hvalue, hs⟩
    have hover (h : 2 ^ 64 ≤ 66 + size payload) :
        fits ⟨resultType, .variant ⟨variant.definition, variant.memberId, some payload⟩⟩ =
          none := by
      refine if_neg ?_
      rw [size, dataSize]
      omega
    cases hfirst : checkedAdd 1 value.units with
    | none =>
      rw [checkedAdd_eq_none, hvalue.units_eq] at hfirst
      simp only [reduceToNat] at hfirst
      rw [hover (by omega)]
      exact follows_none hs.eq
    | some units =>
      rw [checkedAdd_eq_some, hvalue.units_eq] at hfirst
      rw [bind_bind, orFault_some_bind, hvalue.value_eq, bind_bind, orFault_some_bind]
      show Follows _ _ _ _ ((orFault (checkedAdd 65 units) >>= _) s)
      cases hsecond : checkedAdd 65 units with
      | none =>
        rw [checkedAdd_eq_none, hfirst] at hsecond
        simp only [reduceToNat] at hsecond
        rw [hover (by omega)]
        exact follows_none hs.eq
      | some units' =>
        rw [checkedAdd_eq_some, hfirst] at hsecond
        rw [orFault_some_bind]
        refine follows_fits (hs.mono (subset_univ _)) ?_ fun total htotal ↦ ⟨_, rfl, ?_⟩
        · rw [hsecond, dataSize]
          simp only [reduceToNat]
          omega
        · exact presents_withUnits_of_size htotal (narrow_variant.2 (by simpa using hvalue.narrow))

theorem follows_wrap {data : ConstValue → ConstData} (hready : Ready mask [register] start)
    (hsize : ∀ payload, dataSize (data payload) = 2 + size payload)
    (hpayload : ∀ payload, payloadOf ⟨resultType, data payload⟩ = some payload)
    (hnarrow : ∀ payload, Narrow payload → Narrow ⟨resultType, data payload⟩) :
    Follows .fault (Made mask [register] start) (Faulted start)
      (start.file register >>= fun payload ↦ fits ⟨resultType, data payload⟩)
      (wrap data register mask resultType start) := by
  rw [wrap]
  refine (follows_operand hready kept_refl rfl (notMem_empty 0) id).bind ?_
  rintro payload value s ⟨hvalue, hs⟩
  cases hunits : checkedAdd 2 value.units with
  | none =>
    have hfits : fits ⟨resultType, data payload⟩ = none := by
      refine if_neg ?_
      rw [checkedAdd_eq_none, hvalue.units_eq] at hunits
      simp only [reduceToNat] at hunits
      rw [size, hsize]
      omega
    rw [hfits]
    exact follows_none hs.eq
  | some units =>
    rw [checkedAdd_eq_some, hvalue.units_eq] at hunits
    rw [orFault_some_bind]
    refine follows_fits (hs.mono (subset_univ _)) (hunits.trans (hsize payload).symm)
      fun total htotal ↦ ?_
    rw [hvalue.value_eq]
    refine ⟨_, rfl, presents ⟨?_, hnarrow payload hvalue.narrow⟩⟩
    refine RuntimeValue.shows_withInner htotal fun inner hinner ↦ ?_
    rw [hpayload] at hinner
    obtain rfl := Option.some.inj hinner
    exact hvalue.parts

/-- What a projection selects is a part at a position that fits a step. -/
def Selects (select : ConstValue → Option (ℕ × ConstValue)) : Prop :=
  ∀ value index part, Narrow value → select value = some (index, part) →
    partAt value index = some part ∧ index < 2 ^ 32

variable {unique : Bool}

theorem follows_project {select : ConstValue → Option (ℕ × ConstValue)}
    (hselect : Selects select) (hready : Ready mask [register] start) :
    Follows .fault (Made mask [register] start) (Faulted start)
      (start.file register >>= fun value ↦ (select value).map Prod.snd)
      (project unique select register mask start) := by
  rw [project]
  split_ifs with htake
  · rw [Bool.and_eq_true] at htake
    have htaken : Follows _ _ _ _ (operand register true start) :=
      follows_operand hready kept_refl rfl (notMem_empty 0) fun _ ↦ htake.1
    refine htaken.bind ?_
    rintro shown value s ⟨hvalue, hs⟩
    rw [hvalue.value_eq, bind_some]
    cases hpart : select shown with
    | none => exact follows_none hs.eq
    | some found =>
      obtain ⟨index, part⟩ := found
      have hnarrow := narrow_partAt hvalue.narrow (hselect shown index part hvalue.narrow hpart).1
      exact .some ⟨presents_new hnarrow, hs.mono (subset_univ _)⟩
  · refine (follows_readRegister hready kept_refl (k := 0) rfl (notMem_empty 0)).bind ?_
    rintro shown value s ⟨hvalue, hs⟩
    rw [hvalue.value_eq, bind_some]
    cases hpart : select shown with
    | none => exact follows_none hs.eq
    | some found =>
      obtain ⟨index, part⟩ := found
      obtain ⟨hat, hindex⟩ := hselect shown index part hvalue.narrow hpart
      obtain ⟨item, hitem, hpresents⟩ := presents_shareItem hvalue hat hindex
      rw [orFault_some_bind]
      show Follows _ _ _ _ (orFault (shareItem value index part) s)
      rw [hitem]
      exact .some ⟨hpresents, hs.mono (subset_univ _)⟩

/-- What `TupleGet` selects. -/
def selectItem (index : UInt32) (tuple : ConstValue) : Option (ℕ × ConstValue) := do
  return (index.toNat, ← (← itemsOf tuple)[index.toNat]?)

/-- What `RecordGet` selects. -/
def selectField (member : MemberId) (record : ConstValue) : Option (ℕ × ConstValue) := do
  let fields ← fieldsOf record
  let position ← fields.findIdx? (·.memberId = member)
  return (position, (← fields[position]?).value)

theorem selects_selectItem (index : UInt32) : Selects (selectItem index) := by
  rintro ⟨valueType, data⟩ position part - h
  cases data with
  | sequence items =>
    obtain ⟨item, hitem, h⟩ := bind_eq_some_iff.1 h
    cases h
    exact ⟨hitem, index.toNat_lt⟩
  | _ => cases h

theorem selects_selectField (member : MemberId) : Selects (selectField member) := by
  rintro ⟨valueType, data⟩ position part hnarrow h
  cases data with
  | record record =>
    obtain ⟨_, fields⟩ := record
    obtain ⟨index, -, h⟩ := bind_eq_some_iff.1 h
    obtain ⟨field, hfield, h⟩ := bind_eq_some_iff.1 h
    cases h
    refine ⟨map_eq_some_iff.2 ⟨field, hfield, rfl⟩, ?_⟩
    have hlength : fields.length ≤ maxMembers := (narrow_record.1 hnarrow).1
    have hlt : position < fields.length := (List.getElem?_eq_some_iff.1 hfield).1
    rw [maxMembers] at hlength
    omega
  | _ => cases h

theorem follows_tupleGet (hready : Ready mask [register] start) :
    Follows .fault (Made mask [register] start) (Faulted start)
      (indexOf immediate >>= fun index ↦ start.file register >>= fun value ↦
        (selectItem index value).map Prod.snd)
      (tupleGet unique immediate register mask start) := by
  refine (follows_orFault faulted_refl).bind ?_
  rintro index _ s ⟨rfl, -, rfl⟩
  exact follows_project (selects_selectItem index) hready

theorem follows_recordGet (hready : Ready mask [register] start) :
    Follows .fault (Made mask [register] start) (Faulted start)
      (memberOf immediate >>= fun member ↦ start.file register >>= fun value ↦
        (selectField member value).map Prod.snd)
      (recordGet unique immediate register mask start) := by
  refine (follows_orFault faulted_refl).bind ?_
  rintro member _ s ⟨rfl, -, rfl⟩
  exact follows_project (selects_selectField member) hready

/-- A part of what an operand stands for. -/
theorem follows_part {α : Type} {value : RuntimeValue} {shown : ConstValue}
    {part : ConstValue → Option α} (hvalue : value.Holds shown) (hs : Faulted start runtime) :
    Follows .fault (fun a b s ↦ a = b ∧ part shown = some a ∧ s = runtime) (Faulted start)
      (part shown)
      (orFault (value.value.bind part) runtime) := by
  rw [hvalue.value_eq]
  exact follows_orFault hs

theorem follows_vectorGet {vector index : Register} (hready : Ready mask [vector, index] start) :
    Follows .fault (Made mask [vector, index] start) (Faulted start)
      (start.file index >>= fun indexValue ↦ uIntOf indexValue >>= fun position ↦
        start.file vector >>= fun vectorValue ↦ itemsOf vectorValue >>= fun items ↦
          some ⟨resultType, .option items[position.toNat]?⟩)
      (vectorGet unique vector index mask resultType start) := by
  have hzero : (0 : ℕ) ∉ (∅ : Set ℕ) := notMem_empty 0
  refine (follows_readRegister hready kept_refl (k := 1) rfl (notMem_empty 1)).bind ?_
  rintro indexValue value s ⟨hindex, hs⟩
  refine (follows_part hindex hs.eq).bind ?_
  rintro position _ _ ⟨rfl, -, rfl⟩
  refine (follows_operand hready hs (k := 0) rfl hzero fun h ↦ (Bool.and_eq_true_iff.1 h).1).bind ?_
  rintro vectorValue value s ⟨hvector, hs⟩
  refine (follows_part hvector hs.eq).bind ?_
  rintro items _ _ ⟨rfl, hitems, rfl⟩
  refine .some ⟨presents_new (narrow_option.2 fun item hitem ↦ ?_), hs.mono (subset_univ _)⟩
  exact narrow_itemsOf hvector.narrow hitems item (List.mem_of_getElem? hitem)

/-- **The units of an update are exact** when the old units and the difference are. -/
theorem toNat_updatedUnits {units removed added total : UInt64} {oldType newType : TypeExpr}
    {data : ℕ} (h : updatedUnits units oldType newType (some removed) (some added) = some total)
    (hunits : units.toNat = 1 + typeSize oldType + data) :
    total.toNat + removed.toNat = 1 + typeSize newType + data + added.toNat := by
  have hlt := units.toNat_lt
  have hold := toNat_valueUnitsType oldType
  have hnew := toNat_valueUnitsType newType
  simp only [updatedUnits, bind_eq_bind, bind_some, bind_eq_some_iff,
    checkedAdd_eq_some, checkedSub_eq_some] at h
  obtain ⟨rest, hrest, sum, hsum, left, hleft, htotal⟩ := h
  have := sum.toNat_lt
  omega

theorem getD_eq_of_forall {α : Type} {x : Option α} {a : α} (h : ∀ b, x = some b → b = a) :
    x.getD a = a := by
  cases x with
  | none => rfl
  | some b => exact h b rfl

theorem eq_valueUnitsConst {value : ConstValue} (h : units.toNat = size value) :
    units = valueUnitsConst value :=
  (shows_withUnits h).valueUnits_eq

theorem presents_updatedVector {vector replacement : RuntimeValue} {ok : TypeExpr}
    {items : List ConstValue} {vectorType : TypeExpr} {index : ℕ} {old item : ConstValue}
    (hvector : vector.Holds ⟨vectorType, .sequence items⟩) (hitem : replacement.Holds item)
    (hold : items[index]? = some old) :
    (updatedVector vector replacement vectorType resultType ok items index old item).Presents
      ⟨resultType, .result (.ok ⟨ok, .sequence (items.set index item)⟩)⟩ := by
  refine presents_withUnits (getD_eq_of_forall fun units hunits ↦ ?_) ?_
  · obtain ⟨inner, hinner, hunits⟩ := bind_eq_some_iff.1 hunits
    obtain ⟨wrapped, hwrapped, hunits⟩ := bind_eq_some_iff.1 hunits
    have hvectorUnits := hvector.units_eq
    rw [size, dataSize] at hvectorUnits
    have holdUnits : (valueUnitsConst old).toNat = size old := by
      have := size_le_sizes hold
      have := vector.units.toNat_lt
      rw [toNat_valueUnitsConst]
      omega
    have htotal := toNat_updatedUnits hinner hvectorUnits
    have hsizes : sizes (items.set index item) + size old = sizes items + size item :=
      sizes_set hold
    rw [hitem.units_eq, holdUnits] at htotal
    rw [checkedAdd_eq_some] at hwrapped
    rw [whole_eq_some] at hunits
    simp only [reduceToNat] at hwrapped
    refine eq_valueUnitsConst ?_
    simp only [size, dataSize, List.length_set]
    omega
  · refine narrow_ok.2 (narrow_sequence.2 fun v hv ↦ ?_)
    obtain hv | rfl := List.mem_or_eq_of_mem_set hv
    · exact narrow_sequence.1 hvector.narrow v hv
    · exact hitem.narrow

/-- What `VectorSet` makes of its operands; an index out of range does not ask for the
replacement. -/
def replaced (resultType ok error : TypeExpr) (position : BitVec 128) (items : List ConstValue)
    (replacement : Option ConstValue) : Option ConstValue :=
  if position.toNat < items.length then
    replacement.map fun item ↦
      ⟨resultType, .result (.ok ⟨ok, .sequence (items.set position.toNat item)⟩)⟩
  else some (failureValue resultType error .index 1)

theorem follows_vectorSet {vector index replacement : Register}
    (hready : Ready mask [vector, index, replacement] start) :
    Follows .fault (Made mask [vector, index, replacement] start) (Faulted start)
      (start.file index >>= fun indexValue ↦ uIntOf indexValue >>= fun position ↦
        resultTypesOf resultType >>= fun types ↦
        start.file vector >>= fun vectorValue ↦ itemsOf vectorValue >>= fun items ↦
          replaced resultType types.1 types.2 position items (start.file replacement))
      (vectorSet vector index replacement mask resultType start) := by
  refine (follows_readRegister hready kept_refl (k := 1) rfl (notMem_empty 1)).bind ?_
  rintro indexValue value s ⟨hindex, hs⟩
  refine (follows_part hindex hs.eq).bind ?_
  rintro position _ _ ⟨rfl, -, rfl⟩
  refine (follows_orFault hs.eq).bind ?_
  rintro ⟨ok, error⟩ _ _ ⟨rfl, htypes, rfl⟩
  refine (follows_operand hready hs (k := 0) rfl (notMem_empty 0) id).bind ?_
  rintro ⟨vectorType, vectorData⟩ vectorValue s ⟨hvector, hs⟩
  rw [hvector.value_eq, orFault_some_bind]
  refine (follows_orFault hs.eq).bind ?_
  rintro items _ _ ⟨rfl, hitems, rfl⟩
  rw [replaced]
  cases hold : items[position.toNat]? with
  | none =>
    rw [if_neg (Nat.not_lt.2 (List.getElem?_eq_none_iff.1 hold))]
    exact .some ⟨presents_new trivial, hs.mono (subset_univ _)⟩
  | some old =>
    rw [if_pos (List.getElem?_eq_some_iff.1 hold).1, Option.map_eq_bind]
    refine (follows_operand hready hs (k := 2) rfl (by simp) id).bind ?_
    rintro item replacementValue s ⟨hitem, hs⟩
    rw [hitem.value_eq, orFault_some_bind]
    have hdata : vectorData = .sequence items := by
      cases vectorData with
      | sequence values => rw [Option.some.inj hitems]
      | _ => cases hitems
    subst hdata
    exact .some ⟨presents_updatedVector hvector hitem hold, hs.mono (subset_univ _)⟩

/-! ### Maps -/

theorem follows_mapFind {map key : Register} {result : Option MapEntryConst → ConstValue}
    (hresult : ∀ entry, (∀ e ∈ entry, Narrow e.key ∧ Narrow e.value) → Narrow (result entry))
    (hready : Ready mask [map, key] start) :
    Follows .fault (Made mask [map, key] start) (Faulted start)
      (start.file key >>= fun keyValue ↦ keyBytes keyValue >>= fun query ↦
        start.file map >>= fun mapValue ↦ mapEntries mapValue >>= fun entries ↦
          search entries keyValue query >>= fun found ↦
            some (result (found.toOption.bind (entries[·]?))))
      (mapFind result map key start) := by
  refine (follows_readRegister hready kept_refl (k := 1) rfl (notMem_empty 1)).bind ?_
  rintro keyValue value s ⟨hkey, hs⟩
  rw [hkey.value_eq, orFault_some_bind]
  refine (follows_orFault hs.eq).bind ?_
  rintro query _ _ ⟨rfl, -, rfl⟩
  refine (follows_readRegister hready hs (k := 0) rfl (notMem_empty 0)).bind ?_
  rintro mapValue value s ⟨hmap, hs⟩
  rw [hmap.value_eq, orFault_some_bind]
  refine (follows_orFault hs.eq).bind ?_
  rintro entries _ _ ⟨rfl, hentries, rfl⟩
  refine (follows_orFault hs.eq).bind ?_
  rintro position _ _ ⟨rfl, -, rfl⟩
  refine .some ⟨presents_new (hresult _ fun entry hentry ↦ ?_), hs.mono (subset_univ _)⟩
  obtain ⟨index, -, hindex⟩ := bind_eq_some_iff.1 hentry
  exact narrow_mapEntries hmap.narrow hentries entry (List.mem_of_getElem? hindex)

variable {entries : List MapEntryConst} {query : Bytes}

/-- A search ends inside its bounds. -/
theorem searchIn_bounds {queryValue : ConstValue}
    {result : Except ℕ ℕ} {fuel low high : ℕ} (hle : low ≤ high)
    (h : searchIn entries queryValue query fuel low high = some result) :
    (∀ position, result = .ok position → position < high) ∧
      ∀ position, result = .error position → position ≤ high := by
  induction fuel generalizing low high with
  | zero =>
    obtain rfl := Option.some.inj h
    exact ⟨nofun, fun _ heq ↦ Except.error.inj heq ▸ hle⟩
  | succ fuel ih =>
    rw [searchIn] at h
    split_ifs at h with hlt
    · obtain ⟨entry, -, h⟩ := bind_eq_some_iff.1 h
      obtain ⟨order, -, h⟩ := bind_eq_some_iff.1 h
      cases order with
      | lt => exact ih (by omega) h
      | gt =>
        obtain ⟨hok, herror⟩ := ih (by omega) h
        refine ⟨fun position heq ↦ ?_, fun position heq ↦ ?_⟩
        · have := hok position heq
          omega
        · have := herror position heq
          omega
      | eq =>
        obtain rfl := Option.some.inj h
        refine ⟨fun position heq ↦ ?_, nofun⟩
        obtain rfl := Except.ok.inj heq
        omega
    · obtain rfl := Option.some.inj h
      exact ⟨nofun, fun _ heq ↦ Except.error.inj heq ▸ hle⟩

/-- The entries with one more or with one replaced. -/
def inserted (entries : List MapEntryConst) (query : Bytes) (entry : MapEntryConst) :
    Option (List MapEntryConst) :=
  (search entries entry.key query).map fun
    | .ok position => entries.set position entry
    | .error position => entries.insertIdx position entry

/-- The entries without a key. -/
def removed (entries : List MapEntryConst) (keyValue : ConstValue) (query : Bytes) :
    Option (List MapEntryConst) :=
  (search entries keyValue query).map fun
    | .ok position => entries.eraseIdx position
    | .error _ => entries

/-- What an update of a map adds to its units and takes from them. -/
def Balanced (entries entries' : List MapEntryConst) (gone come : Option UInt64) : Prop :=
  ∀ r a, gone = some r → come = some a →
    entries'.length + entrySizes entries' + r.toNat = entries.length + entrySizes entries + a.toNat

theorem presents_updatedMap {map : RuntimeValue} {mapType : TypeExpr}
    {entries entries' : List MapEntryConst} {gone come : Option UInt64}
    (hmap : map.Holds ⟨mapType, .map entries⟩) (hbalanced : Balanced entries entries' gone come)
    (hnarrow : ∀ entry ∈ entries', Narrow entry.key ∧ Narrow entry.value) :
    (updatedMap map mapType resultType entries' gone come).Presents ⟨resultType, .map entries'⟩ := by
  refine presents_withUnits (getD_eq_of_forall fun units hunits ↦ ?_)
    (narrow_map.2 hnarrow)
  have hmapUnits := hmap.units_eq
  rw [size, dataSize] at hmapUnits
  cases hgone : gone with
  | none => simp [updatedUnits, hgone] at hunits
  | some r =>
    cases hcome : come with
    | none => simp [updatedUnits, hcome] at hunits
    | some a =>
      have htotal := toNat_updatedUnits (hgone ▸ hcome ▸ hunits) hmapUnits
      have hsizes := hbalanced r a hgone hcome
      refine eq_valueUnitsConst ?_
      rw [size, dataSize]
      omega

theorem follows_insertEntry {entry : MapEntryConst}
    {keyUnits valueUnits : UInt64} (hs : Faulted start runtime)
    (hkey : keyUnits.toNat = size entry.key) (hvalue : valueUnits.toNat = size entry.value)
    (hlt : entrySizes entries < 2 ^ 64 - 1) :
    Follows .fault (fun entries' out s ↦ out.1 = entries' ∧
        Balanced entries entries' out.2.1 out.2.2 ∧ (∀ e ∈ entries', e ∈ entries ∨ e = entry) ∧
        s = runtime) (Faulted start) (inserted entries query entry)
      (orFault (insertEntry entries query entry keyUnits valueUnits) runtime) := by
  rw [inserted, insertEntry]
  cases hsearch : search entries entry.key query with
  | none => exact .none hs
  | some result =>
    obtain ⟨hok, herror⟩ := searchIn_bounds (Nat.zero_le _) hsearch
    rw [map_some, bind_eq_bind, bind_some]
    cases result with
    | ok position =>
      have hold := List.getElem?_eq_getElem (hok position rfl)
      simp only [hold, bind_eq_bind, bind_some, pure_def]
      refine .some ⟨rfl, fun r a hr ha ↦ ?_, fun e he ↦ List.mem_or_eq_of_mem_set he, rfl⟩
      have hsizes : entrySizes (entries.set position entry) + entrySize _ = _ := entrySizes_set hold
      have hbefore := entrySizes_eraseIdx hold
      rw [entrySize] at hsizes hbefore
      rw [checkedAdd_eq_some, toNat_valueUnitsConst, toNat_valueUnitsConst] at hr
      rw [checkedAdd_eq_some, hkey, hvalue] at ha
      rw [entrySize] at hsizes
      rw [List.length_set]
      omega
    | error position =>
      have hle := herror position rfl
      refine .some ⟨rfl, fun r a hr ha ↦ ?_, fun e he ↦ ?_, rfl⟩
      · obtain rfl := Option.some.inj hr
        obtain ⟨sum, hsum, ha⟩ := bind_eq_some_iff.1 ha
        rw [checkedAdd_eq_some, hkey] at hsum
        rw [checkedAdd_eq_some, hsum, hvalue] at ha
        rw [entrySizes_insertIdx hle, List.length_insertIdx, if_pos hle, entrySize]
        simp only [reduceToNat] at ha ⊢
        omega
      · exact ((List.mem_insertIdx hle).1 he).symm

theorem follows_removeEntry {keyValue : ConstValue}
    (hs : Faulted start runtime) (hlt : entrySizes entries < 2 ^ 64 - 1) :
    Follows .fault (fun entries' out s ↦ out.1 = entries' ∧
        Balanced entries entries' out.2 (some 0) ∧ (∀ e ∈ entries', e ∈ entries) ∧
        s = runtime) (Faulted start) (removed entries keyValue query)
      (orFault (removeEntry entries keyValue query) runtime) := by
  rw [removed, removeEntry]
  cases hsearch : search entries keyValue query with
  | none => exact .none hs
  | some result =>
    obtain ⟨hok, -⟩ := searchIn_bounds (Nat.zero_le _) hsearch
    rw [map_some, bind_eq_bind, bind_some]
    cases result with
    | ok position =>
      have hold := List.getElem?_eq_getElem (hok position rfl)
      simp only [hold, bind_eq_bind, bind_some, pure_def]
      refine .some ⟨rfl, fun r a hr ha ↦ ?_, fun e he ↦ List.mem_of_mem_eraseIdx he, rfl⟩
      obtain rfl := Option.some.inj ha
      obtain ⟨sum, hsum, hr⟩ := bind_eq_some_iff.1 hr
      have hsizes := entrySizes_eraseIdx hold
      rw [entrySize] at hsizes
      rw [checkedAdd_eq_some, toNat_valueUnitsConst] at hsum
      rw [checkedAdd_eq_some, toNat_valueUnitsConst, hsum] at hr
      rw [List.length_eraseIdx_of_lt (hok position rfl)]
      have := hok position rfl
      simp only [reduceToNat] at hr ⊢
      omega
    | error position =>
      refine .some ⟨rfl, fun r a hr ha ↦ ?_, fun _ he ↦ he, rfl⟩
      obtain rfl := Option.some.inj hr
      obtain rfl := Option.some.inj ha
      rfl

/-- A map whose units are exact has exact entries. -/
theorem entrySizes_lt {map : RuntimeValue} {mapValue : ConstValue}
    (hmap : map.Holds mapValue) (hentries : mapEntries mapValue = some entries) :
    entrySizes entries < 2 ^ 64 - 1 ∧ mapValue = ⟨mapValue.valueType, .map entries⟩ := by
  have hlt := hmap.size_lt
  obtain ⟨valueType, data⟩ := mapValue
  cases data with
  | map held =>
    obtain rfl := Option.some.inj hentries
    rw [size, dataSize] at hlt
    exact ⟨by omega, rfl⟩
  | _ => cases hentries

theorem follows_mapInsert {map key value : Register} (hready : Ready mask [map, key, value] start) :
    Follows .fault (Made mask [map, key, value] start) (Faulted start)
      (start.file key >>= fun keyValue ↦ start.file value >>= fun item ↦
        start.file map >>= fun mapValue ↦ keyBytes keyValue >>= fun query ↦
          mapEntries mapValue >>= fun entries ↦ inserted entries query ⟨keyValue, item⟩ >>=
            fun entries' ↦ some ⟨resultType, .map entries'⟩)
      (mapInsert map key value mask resultType start) := by
  refine (follows_operand hready kept_refl (k := 1) rfl (notMem_empty 1) id).bind ?_
  rintro keyValue keyHeld s ⟨hkey, hs⟩
  refine (follows_operand hready hs (k := 2) rfl (by simp) id).bind ?_
  rintro item itemHeld s ⟨hitem, hs⟩
  refine (follows_operand hready hs (k := 0) rfl (by simp) id).bind ?_
  rintro mapValue mapHeld s ⟨hmap, hs⟩
  rw [hmap.value_eq, orFault_some_bind, hkey.value_eq, orFault_some_bind]
  refine (follows_orFault hs.eq).bind ?_
  rintro query _ _ ⟨rfl, -, rfl⟩
  refine (follows_orFault hs.eq).bind ?_
  rintro entries _ _ ⟨rfl, hentries, rfl⟩
  obtain ⟨hlt, hmapValue⟩ := entrySizes_lt hmap hentries
  have hnarrow := narrow_mapEntries hmap.narrow hentries
  rw [hitem.value_eq, orFault_some_bind]
  refine (follows_insertEntry hs.eq hkey.units_eq hitem.units_eq hlt).bind ?_
  rintro _ ⟨entries', gone, come⟩ _ ⟨rfl, hbalanced, hmem, rfl⟩
  rw [hmapValue] at hmap
  refine .some ⟨presents_updatedMap hmap hbalanced fun entry hentry ↦ ?_, hs.mono (subset_univ _)⟩
  obtain hentry | rfl := hmem entry hentry
  · exact hnarrow entry hentry
  · exact ⟨hkey.narrow, hitem.narrow⟩

theorem follows_mapRemove {map key : Register} (hready : Ready mask [map, key] start) :
    Follows .fault (Made mask [map, key] start) (Faulted start)
      (start.file key >>= fun keyValue ↦ keyBytes keyValue >>= fun query ↦
        start.file map >>= fun mapValue ↦ mapEntries mapValue >>= fun entries ↦
          removed entries keyValue query >>= fun entries' ↦ some ⟨resultType, .map entries'⟩)
      (mapRemove map key mask resultType start) := by
  refine (follows_readRegister hready kept_refl (k := 1) rfl (notMem_empty 1)).bind ?_
  rintro keyValue keyHeld s ⟨hkey, hs⟩
  rw [hkey.value_eq, orFault_some_bind]
  refine (follows_orFault hs.eq).bind ?_
  rintro query _ _ ⟨rfl, -, rfl⟩
  refine (follows_operand hready hs (k := 0) rfl (notMem_empty 0) id).bind ?_
  rintro mapValue mapHeld s ⟨hmap, hs⟩
  rw [hmap.value_eq, orFault_some_bind]
  refine (follows_orFault hs.eq).bind ?_
  rintro entries _ _ ⟨rfl, hentries, rfl⟩
  obtain ⟨hlt, hmapValue⟩ := entrySizes_lt hmap hentries
  have hnarrow := narrow_mapEntries hmap.narrow hentries
  refine (follows_removeEntry hs.eq hlt).bind ?_
  rintro _ ⟨entries', gone⟩ _ ⟨rfl, hbalanced, hmem, rfl⟩
  rw [hmapValue] at hmap
  exact .some ⟨presents_updatedMap hmap hbalanced fun entry hentry ↦ hnarrow entry (hmem entry hentry),
    hs.mono (subset_univ _)⟩

/-- The work of the arms on the constants that the registers stand for; `some none` defers. -/
def meaning (source : ExecutionSource) (file : Register → Option ConstValue) (opcode : Opcode)
    (instruction : Instruction) (resultType : TypeExpr) : Option (Option ConstValue) :=
  match opcode, instruction.operands with
  | .constantRef, [] => some <$> do
    let id ← entityOf instruction.immediate
    (source.constants.find? (·.entityId = id)).map (·.value)
  | .tupleNew, registers | .vectorNew, registers => some <$> do
    let items ← registers.mapM file
    fits ⟨resultType, .sequence items⟩
  | .recordNew, registers => some <$> do
    let definition ← entityOf instruction.immediate
    let fields ← source.recordFields definition
    if fields.length ≠ registers.length then none else
      registers.mapM file >>= fun values ↦ fits ⟨resultType, .record ⟨definition,
        fields.zipWith (fun field value ↦ ⟨field.memberId, value⟩) values⟩⟩
  | .variantNew, registers =>
    if registers.length ≤ 1 then some <$> do
      let variant ← variantOf instruction.immediate
      let payload ← payloadFrom file registers
      fits ⟨resultType, .variant ⟨variant.definition, variant.memberId, payload⟩⟩
    else some none
  | .optionSome, [register] => some <$> do
    let payload ← file register
    fits ⟨resultType, .option (some payload)⟩
  | .resultOk, [register] => some <$> do
    let payload ← file register
    fits ⟨resultType, .result (.ok payload)⟩
  | .resultErr, [register] => some <$> do
    let payload ← file register
    fits ⟨resultType, .result (.err payload)⟩
  | .tupleGet, [register] => some <$> do
    let index ← indexOf instruction.immediate
    let value ← file register
    (selectItem index value).map Prod.snd
  | .recordGet, [register] => some <$> do
    let member ← memberOf instruction.immediate
    let value ← file register
    (selectField member value).map Prod.snd
  | .vectorGet, [vector, index] => some <$> do
    let position ← uIntOf (← file index)
    let items ← itemsOf (← file vector)
    some ⟨resultType, .option items[position.toNat]?⟩
  | .vectorSet, [vector, index, replacement] => some <$> do
    let position ← uIntOf (← file index)
    let types ← resultTypesOf resultType
    let items ← itemsOf (← file vector)
    replaced resultType types.1 types.2 position items (file replacement)
  | .mapGet, [map, key] => some <$> do
    let keyValue ← file key
    let query ← keyBytes keyValue
    let entries ← mapEntries (← file map)
    let found ← search entries keyValue query
    some ⟨resultType, .option ((found.toOption.bind (entries[·]?)).map (·.value))⟩
  | .mapContains, [map, key] => some <$> do
    let keyValue ← file key
    let query ← keyBytes keyValue
    let entries ← mapEntries (← file map)
    let found ← search entries keyValue query
    some (boolValue (found.toOption.bind (entries[·]?)).isSome)
  | .mapInsert, [map, key, value] => some <$> do
    let keyValue ← file key
    let item ← file value
    let mapValue ← file map
    let query ← keyBytes keyValue
    let entries ← mapEntries mapValue
    let entries' ← inserted entries query ⟨keyValue, item⟩
    some ⟨resultType, .map entries'⟩
  | .mapRemove, [map, key] => some <$> do
    let keyValue ← file key
    let query ← keyBytes keyValue
    let entries ← mapEntries (← file map)
    let entries' ← removed entries keyValue query
    some ⟨resultType, .map entries'⟩
  | _, _ => some none

theorem mapM_congr {α β : Type} {f g : α → Option β} {xs : List α} (h : ∀ x ∈ xs, f x = g x) :
    xs.mapM f = xs.mapM g := by
  induction xs with
  | nil => rfl
  | cons x xs ih =>
    obtain ⟨hx, hxs⟩ := List.forall_mem_cons.1 h
    rw [mapM_cons, mapM_cons, hx, ih hxs]

variable {file file' : Register → Option ConstValue}

theorem payloadFrom_congr (h : ∀ r ∈ registers, file r = file' r) :
    payloadFrom file registers = payloadFrom file' registers := by
  match registers with
  | [register] => rw [payloadFrom, payloadFrom, h register List.mem_cons_self]
  | [] | _ :: _ :: _ => rfl

/-- The meaning of an instruction depends on its operands only. -/
theorem meaning_congr
    {instruction : Instruction} (h : ∀ r ∈ instruction.operands, file r = file' r) :
    meaning source file opcode instruction resultType =
      meaning source file' opcode instruction resultType := by
  obtain ⟨tag, operands, results, immediate⟩ := instruction
  replace h : ∀ r ∈ operands, file r = file' r := h
  have hmapM := mapM_congr h
  have hpayload := payloadFrom_congr h
  unfold meaning
  dsimp only
  split
  all_goals first
    | rfl
    | rw [hmapM]
    | rw [hpayload]
    | simp only [List.forall_mem_cons] at h; simp only [h]

/-- What an owned arm leaves, if it does not defer. -/
def Produced (mask : UInt64) (operands : List Register) (start : Runtime) :
    Option ConstValue → Option RuntimeValue → Runtime → Prop
  | none, none, runtime => runtime = start
  | some shown, some value, runtime => Made mask operands start shown value runtime
  | _, _, _ => False

theorem follows_produced {x : Option ConstValue} {action : Action RuntimeValue}
    (h : Follows .fault (Made mask operands start) (Faulted start) x (action start)) :
    Follows .fault (Produced mask operands start) (Faulted start) (some <$> x)
      ((some <$> action) start) := by
  show Follows _ _ _ (map some x) ((action >>= fun value ↦ pure (some value)) start)
  rw [Option.map_eq_bind]
  exact h.bind fun shown value s hmade ↦ .some hmade

/-- **The owned arms compute their meaning**, whatever they move and however the operands are
held. -/
theorem follows_execute {instruction : Instruction}
    (hready : Ready mask instruction.operands start) :
    Follows .fault (Produced mask instruction.operands start) (Faulted start)
      (meaning source start.file opcode instruction resultType)
      (execute unique source opcode instruction mask resultType start) := by
  obtain ⟨tag, operands, results, immediate⟩ := instruction
  have hdefer : Follows .fault (Produced mask operands start) (Faulted start)
      (some (none : Option ConstValue)) ((pure none : Action (Option RuntimeValue)) start) :=
    .some rfl
  cases opcode
  case constantRef =>
    cases operands with
    | nil => exact follows_produced follows_constantRef
    | cons _ _ => exact hdefer
  case tupleNew => exact follows_produced (follows_sequenceNew hready)
  case vectorNew => exact follows_produced (follows_sequenceNew hready)
  case recordNew => exact follows_produced (follows_recordNew hready)
  case variantNew =>
    rw [execute, meaning]
    split_ifs with hlength
    · exact follows_produced (follows_variantNew hready hlength)
    · exact hdefer
  case optionSome =>
    rcases operands with _ | ⟨register, _ | ⟨_, _⟩⟩
    · exact hdefer
    · exact follows_produced (follows_wrap hready (fun _ ↦ rfl) (fun _ ↦ rfl)
        fun _ h ↦ narrow_option.2 (by simpa using h))
    · exact hdefer
  case resultOk | resultErr =>
    rcases operands with _ | ⟨register, _ | ⟨_, _⟩⟩
    · exact hdefer
    · exact follows_produced (follows_wrap hready (fun _ ↦ rfl) (fun _ ↦ rfl) fun _ h ↦ h)
    · exact hdefer
  case tupleGet =>
    rcases operands with _ | ⟨register, _ | ⟨_, _⟩⟩
    · exact hdefer
    · exact follows_produced (follows_tupleGet hready)
    · exact hdefer
  case recordGet =>
    rcases operands with _ | ⟨register, _ | ⟨_, _⟩⟩
    · exact hdefer
    · exact follows_produced (follows_recordGet hready)
    · exact hdefer
  case vectorGet =>
    rcases operands with _ | ⟨vector, _ | ⟨index, _ | ⟨_, _⟩⟩⟩
    · exact hdefer
    · exact hdefer
    · exact follows_produced (follows_vectorGet hready)
    · exact hdefer
  case vectorSet =>
    rcases operands with _ | ⟨vector, _ | ⟨index, _ | ⟨replacement, _ | ⟨_, _⟩⟩⟩⟩
    · exact hdefer
    · exact hdefer
    · exact hdefer
    · exact follows_produced (follows_vectorSet hready)
    · exact hdefer
  case mapGet =>
    rcases operands with _ | ⟨map, _ | ⟨key, _ | ⟨_, _⟩⟩⟩
    · exact hdefer
    · exact hdefer
    · refine follows_produced (follows_mapFind (fun entry hentry ↦ narrow_option.2 ?_) hready)
      intro v hv
      obtain ⟨e, he, rfl⟩ := map_eq_some_iff.1 hv
      exact (hentry e he).2
    · exact hdefer
  case mapContains =>
    rcases operands with _ | ⟨map, _ | ⟨key, _ | ⟨_, _⟩⟩⟩
    · exact hdefer
    · exact hdefer
    · have hbool (entry : Option MapEntryConst) : Narrow (boolValue entry.isSome) := trivial
      exact follows_produced (follows_mapFind (fun entry _ ↦ hbool entry) hready)
    · exact hdefer
  case mapInsert =>
    rcases operands with _ | ⟨map, _ | ⟨key, _ | ⟨value, _ | ⟨_, _⟩⟩⟩⟩
    · exact hdefer
    · exact hdefer
    · exact hdefer
    · exact follows_produced (follows_mapInsert hready)
    · exact hdefer
  case mapRemove =>
    rcases operands with _ | ⟨map, _ | ⟨key, _ | ⟨_, _⟩⟩⟩
    · exact hdefer
    · exact hdefer
    · exact follows_produced (follows_mapRemove hready)
    · exact hdefer
  all_goals exact hdefer

end Building

end Owned

end Sley.Vm
