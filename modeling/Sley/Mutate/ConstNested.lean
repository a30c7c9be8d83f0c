import Sley.Mutate.ConstWire

/-!
# What is encoded inside of a constant

Every node inside of an encoded node is encoded itself, a level deeper, and **the level only limits
the bytes, it does not choose them**. So the parts of a constant with canonical bytes have canonical
bytes of their own (`Encodes.of_child`), and what the encoder checks of the order of a map, it has
checked of every map inside.
-/

namespace Sley.Mutate.ConstEncoding

open Scb1 Ssmc

section Layouts

variable {canonical : Bool} {child child' key key' : Node → Bytes → Prop} {l : Layout} {bs : Bytes}

theorem Ordered.imp {values : Sequence} (h : Ordered key values)
    (hkey : ∀ n p, key n p → key' n p) : Ordered key' values := by
  cases values with
  | entries entries =>
    obtain ⟨ks, hks, hasc⟩ := h
    exact ⟨ks, hks.imp fun e k ↦ hkey _ k, hasc⟩
  | ids ids => exact h
  | _ => trivial

theorem LayoutWire.imp (h : LayoutWire canonical child key l bs)
    (hchild : ∀ n p, child n p → child' n p) (hkey : ∀ n p, key n p → key' n p) :
    LayoutWire canonical child' key' l bs := by
  cases l with
  | atom chunk => exact h
  | bytes bytes => exact h
  | union tag payload =>
    cases payload with
    | none => exact h
    | some node =>
      obtain ⟨p, hp, hbs⟩ := h
      exact ⟨p, hchild node p hp, hbs⟩
  | record fields =>
    obtain ⟨ps, hps, hbs⟩ := h
    exact ⟨ps, hps.imp hchild, hbs⟩
  | list values =>
    obtain ⟨hcount, hordered, ps, hps, hbs⟩ := h
    exact ⟨hcount, fun hc ↦ (hordered hc).imp hkey, ps, hps.imp hchild, hbs⟩

/-- Every child has its bytes in those of the layout. -/
theorem LayoutWire.exists_child (h : LayoutWire canonical child key l bs) {node : Node}
    (hnode : some node ∈ l.children) : ∃ p, child node p := by
  cases l with
  | atom chunk => cases hnode
  | bytes bytes => cases hnode
  | union tag payload =>
    obtain rfl := List.mem_singleton.1 hnode
    obtain ⟨p, hp, -⟩ := h
    exact ⟨p, hp⟩
  | record fields =>
    obtain ⟨ps, hps, -⟩ := h
    obtain ⟨p, -, hp⟩ := hps.exists_of_mem (by simpa [Layout.children] using hnode)
    exact ⟨p, hp⟩
  | list values =>
    obtain ⟨-, -, ps, hps, -⟩ := h
    obtain ⟨p, -, hp⟩ := hps.exists_of_mem (by simpa [Layout.children] using hnode)
    exact ⟨p, hp⟩

end Layouts

/-- **The bytes of a node are those of every level above.** -/
theorem Wire.shallower {canonical : Bool} {depth depth' : Nat} {node : Node} {bs : Bytes}
    (h : Wire canonical depth node bs) (hle : depth' ≤ depth) : Wire canonical depth' node bs := by
  induction depth using depthInduction generalizing depth' node bs with
  | deep d hdeep => exact absurd h.depth_le (Nat.not_le.2 hdeep)
  | step d _ ih =>
    obtain ⟨hlen, l, hl, hwire⟩ := wire_iff.1 h
    obtain ⟨hdepth, hcontainer, hframe⟩ := layout_eq_ok.1 hl
    have hl' : node.layout depth' = .ok l :=
      layout_eq_ok.2 ⟨hle.trans hdepth, fun hscalar ↦ hle.trans_lt (hcontainer hscalar), hframe⟩
    refine wire_iff.2 ⟨hlen, l, hl', hwire.imp ?_ ?_⟩
    · exact fun n p hp ↦ ih (d + 1) (Nat.lt_succ_self d) hp (Nat.succ_le_succ hle)
    · exact fun n p hp ↦ ih (d + 2) (by omega) hp (by omega)

/-! ### Nodes with canonical bytes -/

/-- The node has canonical bytes. -/
def Encodes (node : Node) : Prop := ∃ bs, Wire true 0 node bs

theorem Encodes.of_child {node child : Node} {l : Layout} (h : Encodes node)
    (hframe : node.frame = .ok l) (hchild : some child ∈ l.children) : Encodes child := by
  obtain ⟨bs, hbs⟩ := h
  obtain ⟨-, l', hl', hwire⟩ := wire_iff.1 hbs
  obtain rfl := Except.ok.inj (hframe.symm.trans (layout_eq_ok.1 hl').2.2)
  obtain ⟨p, hp⟩ := hwire.exists_child hchild
  exact ⟨p, hp.shallower (Nat.zero_le _)⟩

theorem Encodes.payload {value : ConstValue} {node : Node} (h : Encodes (.value value))
    (hpayload : dataPayload value.data = some node) : Encodes node := by
  have hdata : Encodes (.data value.data) := h.of_child rfl (by simp [Layout.children])
  exact hdata.of_child rfl (by simp [Layout.children, hpayload])

theorem Encodes.item {values : Sequence} {node : Node} (h : Encodes (.sequence values))
    (hnode : node ∈ values.nodes) : Encodes node :=
  h.of_child rfl (by simpa [Layout.children] using hnode)

/-- The keys of a map with canonical bytes ascend. -/
theorem Encodes.ordered {entries : List MapEntryConst}
    (h : Encodes (.sequence (.entries entries))) :
    ∃ ks, List.Forall₂ (fun e k ↦ Wire true 0 (.value e.key) k) entries ks ∧ Ascending ks := by
  obtain ⟨bs, hbs⟩ := h
  rw [wire_container (.sequence _) rfl rfl] at hbs
  obtain ⟨-, -, -, hordered, -⟩ := hbs
  exact (hordered rfl).imp fun n p hp ↦ hp.shallower (Nat.zero_le _)

end Sley.Mutate.ConstEncoding
