import Voxen.Common.V8gHashTrieNode
import Mathlib.Tactic.Ring

/-!
# What the operations on one trie node do

The bitmaps of a node are disjoint, agree with the packed storage, and the used
bytes are those of the stored children and items.  Under this shape every
operation replaces the content of one slot and leaves the other slots alone.
-/

namespace Voxen.Common.V8gHashTrie

open PackedArray (popcount rank bit)

/-- Slot that the top six of the remaining hash bits select. -/
def slotOf (hashBits : BitVec 64) : Nat :=
  (hashBits >>> (64 - 6)).toNat

theorem slotOf_lt (hashBits : BitVec 64) : slotOf hashBits < 64 := by
  unfold slotOf
  rw [BitVec.toNat_ushiftRight, Nat.shiftRight_eq_div_pow]
  have bound := hashBits.isLt
  omega

theorem selectBit_eq (hashBits : BitVec 64) :
    selectBit hashBits = bit 64 (slotOf hashBits) := by
  rw [selectBit, bit, BitVec.twoPow_eq]
  rfl

namespace Node

variable {K V : Type} {layout : ItemLayout}

/-- Child stored in a slot. -/
def childAt (node : Node K V) (slot : Nat) : Option (NodeItem K V) :=
  PackedArray.get? node.nodeBitmap node.nodes slot

/-- Item stored in a slot. -/
def itemAt (node : Node K V) (slot : Nat) : Option (Item K V) :=
  PackedArray.get? node.itemBitmap node.items slot

/-- The local invariant of a node with `levels` levels of hash bits left. -/
structure Shape (layout : ItemLayout) (levels : Nat) (node : Node K V) : Prop where
  disjoint : ∀ slot, node.nodeBitmap.getLsbD slot = true →
    node.itemBitmap.getLsbD slot = false
  nodesPacked : node.nodes.length = popcount node.nodeBitmap
  itemsPacked : node.items.length = popcount node.itemBitmap
  used : node.usedBytes =
    nodeItemSize * node.nodes.length + layout.itemSize * node.items.length
  fits : node.usedBytes ≤ node.capacityBytes
  capacity_ge : initialCapacity layout ≤ node.capacityBytes
  capacity_le : node.capacityBytes ≤ maxCapacity layout
  consumed : node.consumedHashBits + 6 * levels = 64

/-- `node'` differs from `node` only in what `slot` holds. -/
structure Replaces (node node' : Node K V) (slot : Nat) (item : Option (Item K V))
    (child : Option (NodeItem K V)) : Prop where
  items : ∀ other, node'.itemAt other = if other = slot then item else node.itemAt other
  children : ∀ other,
    node'.childAt other = if other = slot then child else node.childAt other

namespace Replaces

variable {node middle node' : Node K V} {slot : Nat} {item : Option (Item K V)}
  {child : Option (NodeItem K V)}

/-- A node with the same content in every slot replaces any slot by itself. -/
theorem unchanged (items : ∀ other, node'.itemAt other = node.itemAt other)
    (children : ∀ other, node'.childAt other = node.childAt other) (slot : Nat) :
    Replaces node node' slot (node.itemAt slot) (node.childAt slot) := by
  constructor <;> intro other
  · rw [items]
    split
    · rename_i same
      rw [same]
    · rfl
  · rw [children]
    split
    · rename_i same
      rw [same]
    · rfl

theorem trans {item₁ : Option (Item K V)} {child₁ : Option (NodeItem K V)}
    (first : Replaces node middle slot item₁ child₁)
    (second : Replaces middle node' slot item child) :
    Replaces node node' slot item child := by
  constructor <;> intro other
  · rw [second.items, first.items]
    split <;> rfl
  · rw [second.children, first.children]
    split <;> rfl

theorem itemAt_slot (replaced : Replaces node node' slot item child) :
    node'.itemAt slot = item := by
  rw [replaced.items, if_pos rfl]

theorem childAt_slot (replaced : Replaces node node' slot item child) :
    node'.childAt slot = child := by
  rw [replaced.children, if_pos rfl]

theorem itemAt_other (replaced : Replaces node node' slot item child) {other : Nat}
    (differ : other ≠ slot) : node'.itemAt other = node.itemAt other := by
  rw [replaced.items, if_neg differ]

theorem childAt_other (replaced : Replaces node node' slot item child) {other : Nat}
    (differ : other ≠ slot) : node'.childAt other = node.childAt other := by
  rw [replaced.children, if_neg differ]

end Replaces

/-! ## What a slot holds -/

/-- A slot holds an item, a child or nothing. -/
inductive SlotHolds (node : Node K V) (slot : Nat) : Prop where
  | item (item : Item K V) (set : node.itemBitmap.getLsbD slot = true)
      (clear : node.nodeBitmap.getLsbD slot = false)
      (items : node.itemAt slot = some item) (children : node.childAt slot = none)
  | child (child : NodeItem K V) (set : node.nodeBitmap.getLsbD slot = true)
      (clear : node.itemBitmap.getLsbD slot = false)
      (items : node.itemAt slot = none) (children : node.childAt slot = some child)
  | free (clear : node.nodeBitmap.getLsbD slot = false)
      (itemClear : node.itemBitmap.getLsbD slot = false)
      (items : node.itemAt slot = none) (children : node.childAt slot = none)

variable {levels address : Nat}

theorem childAt_eq_none_iff {node : Node K V} (shape : Shape layout levels node) (slot : Nat) :
    node.childAt slot = none ↔ node.nodeBitmap.getLsbD slot = false := by
  constructor
  · intro empty
    by_contra occupied
    have set : node.nodeBitmap.getLsbD slot = true := by simpa using occupied
    obtain ⟨child, stored⟩ := PackedArray.exists_of_set shape.nodesPacked set
    rw [childAt, PackedArray.get?_of_set set, stored] at empty
    exact Option.some_ne_none _ empty
  · intro clear
    exact PackedArray.get?_of_clear clear _

theorem itemAt_eq_none_iff {node : Node K V} (shape : Shape layout levels node) (slot : Nat) :
    node.itemAt slot = none ↔ node.itemBitmap.getLsbD slot = false := by
  constructor
  · intro empty
    by_contra occupied
    have set : node.itemBitmap.getLsbD slot = true := by simpa using occupied
    obtain ⟨item, stored⟩ := PackedArray.exists_of_set shape.itemsPacked set
    rw [itemAt, PackedArray.get?_of_set set, stored] at empty
    exact Option.some_ne_none _ empty
  · intro clear
    exact PackedArray.get?_of_clear clear _

theorem Shape.slotHolds {node : Node K V} (shape : Shape layout levels node) (slot : Nat) :
    SlotHolds node slot := by
  cases children : node.childAt slot with
  | some child =>
    have set : node.nodeBitmap.getLsbD slot = true := by
      by_contra unset
      rw [(childAt_eq_none_iff shape slot).mpr (by simpa using unset)] at children
      exact Option.some_ne_none _ children.symm
    have clear := shape.disjoint slot set
    exact .child child set clear ((itemAt_eq_none_iff shape slot).mpr clear) children
  | none =>
    have clear := (childAt_eq_none_iff shape slot).mp children
    cases items : node.itemAt slot with
    | some item =>
      have set : node.itemBitmap.getLsbD slot = true := by
        by_contra unset
        rw [(itemAt_eq_none_iff shape slot).mpr (by simpa using unset)] at items
        exact Option.some_ne_none _ items.symm
      exact .item item set clear items children
    | none => exact .free clear ((itemAt_eq_none_iff shape slot).mp items) items children

theorem Shape.length_lt {node : Node K V} (shape : Shape layout levels node) {slot : Nat}
    (hs : slot < 64) (clear : node.nodeBitmap.getLsbD slot = false)
    (itemClear : node.itemBitmap.getLsbD slot = false) :
    node.nodes.length + node.items.length < 64 := by
  rw [shape.nodesPacked, shape.itemsPacked]
  exact PackedArray.popcount_add_lt hs shape.disjoint clear itemClear

theorem refNodeBit_of_child {node : Node K V} {slot : Nat} (hs : slot < 64)
    {child : NodeItem K V} (holds : node.childAt slot = some child) :
    node.refNodeBit (bit 64 slot) = some child := by
  rw [childAt, PackedArray.get?] at holds
  split at holds
  · rw [refNodeBit, PackedArray.popcount_and_below _ hs, holds]
  · exact absurd holds.symm (Option.some_ne_none _)

theorem refItemBit_of_item {node : Node K V} {slot : Nat} (hs : slot < 64)
    {item : Item K V} (holds : node.itemAt slot = some item) :
    node.refItemBit (bit 64 slot) = some item := by
  rw [itemAt, PackedArray.get?] at holds
  split at holds
  · rw [refItemBit, PackedArray.popcount_and_below _ hs, holds]
  · exact absurd holds.symm (Option.some_ne_none _)

/-! ## Allocation and copies -/

theorem layout_capacity (layout : ItemLayout) :
    initialCapacity layout < 2 ^ 28 ∧ maxCapacity layout < 2 ^ 28 := by
  have bounded := layout.bounded
  unfold initialCapacity maxCapacity
  omega

theorem allocateNode_shape {consumed : Nat} (depth : consumed + 6 * levels = 64) :
    Shape layout levels (allocateNode layout address consumed : Node K V) := by
  have capacity := layout_capacity layout
  have small := layout.nodeItem_le
  have initial : initialCapacity layout % 2 ^ 28 = initialCapacity layout :=
    Nat.mod_eq_of_lt capacity.1
  refine ⟨?_, ?_, ?_, ?_, ?_, ?_, ?_, ?_⟩
  · intro slot set
    simp [allocateNode] at set
  · simp [allocateNode, popcount]
  · simp [allocateNode, popcount]
  · simp [allocateNode]
  · exact Nat.zero_le _
  · simp only [allocateNode, initial, Nat.le_refl]
  · simp only [allocateNode, initial]
    unfold initialCapacity maxCapacity
    omega
  · simp only [allocateNode]
    omega

theorem copyWithCapacity_shape {capacity : Nat} {node : Node K V} (shape : Shape layout levels node)
    (grows : node.capacityBytes ≤ capacity) (bounded : capacity ≤ maxCapacity layout) :
    Shape layout levels (copyWithCapacity address node capacity) := by
  have small : capacity % 2 ^ 28 = capacity :=
    Nat.mod_eq_of_lt (Nat.lt_of_le_of_lt bounded (layout_capacity layout).2)
  have fits := shape.fits
  have initial := shape.capacity_ge
  refine ⟨shape.disjoint, shape.nodesPacked, shape.itemsPacked, shape.used, ?_, ?_, ?_,
    shape.consumed⟩ <;> simp only [copyWithCapacity, small] <;> omega

@[simp]
theorem childAt_copyWithCapacity (address capacity slot : Nat) (node : Node K V) :
    (copyWithCapacity address node capacity).childAt slot = node.childAt slot := rfl

@[simp]
theorem itemAt_copyWithCapacity (address capacity slot : Nat) (node : Node K V) :
    (copyWithCapacity address node capacity).itemAt slot = node.itemAt slot := rfl

/-- Expanding at most rounds the clamped capacity, so it stays within the maximum. -/
theorem expandedCapacity_bounds {capacity : Nat} (bounded : capacity ≤ maxCapacity layout) :
    capacity ≤ expandedCapacity layout capacity ∧
    min (capacity + capacity / 2) (maxCapacity layout) ≤ expandedCapacity layout capacity ∧
    expandedCapacity layout capacity ≤ maxCapacity layout := by
  have aligned : maxCapacity layout % 8 = 0 := by
    have item := layout.aligned
    unfold maxCapacity
    omega
  unfold expandedCapacity
  generalize maxCapacity layout = maximum at *
  dsimp only
  split <;> omega

theorem expandNode_shape {node : Node K V} (shape : Shape layout levels node) :
    Shape layout levels (expandNode layout address node) := by
  have bounds := expandedCapacity_bounds shape.capacity_le
  exact copyWithCapacity_shape shape bounds.1 bounds.2.2

theorem expandNode_room {node : Node K V} (shape : Shape layout levels node) {slot : Nat}
    (hs : slot < 64) (clear : node.nodeBitmap.getLsbD slot = false)
    (itemClear : node.itemBitmap.getLsbD slot = false) :
    (expandNode layout address node).usedBytes + layout.itemSize ≤
      (expandNode layout address node).capacityBytes := by
  have bounds := expandedCapacity_bounds shape.capacity_le
  have small : expandedCapacity layout node.capacityBytes % 2 ^ 28 =
      expandedCapacity layout node.capacityBytes :=
    Nat.mod_eq_of_lt (Nat.lt_of_le_of_lt bounds.2.2 (layout_capacity layout).2)
  have stored := shape.length_lt hs clear itemClear
  have full : node.usedBytes + layout.itemSize ≤ maxCapacity layout := by
    have children : nodeItemSize * node.nodes.length ≤ layout.itemSize * node.nodes.length :=
      Nat.mul_le_mul_right _ layout.nodeItem_le
    have slots : layout.itemSize * (node.nodes.length + node.items.length + 1) ≤
        layout.itemSize * 64 := Nat.mul_le_mul_left _ stored
    rw [shape.used]
    unfold maxCapacity
    rw [Nat.mul_add, Nat.mul_add, Nat.mul_one] at slots
    omega
  have grown : node.usedBytes + layout.itemSize ≤ node.capacityBytes + node.capacityBytes / 2 := by
    have fits := shape.fits
    have initial := shape.capacity_ge
    unfold initialCapacity at initial
    omega
  simp only [expandNode, copyWithCapacity, small]
  exact Nat.le_trans (Nat.le_min.mpr ⟨grown, full⟩) bounds.2.1

/-! ## Operations on one slot -/

theorem insertItem_spec {slot : Nat} {node : Node K V} (shape : Shape layout levels node)
    (hs : slot < 64) (clear : node.nodeBitmap.getLsbD slot = false)
    (itemClear : node.itemBitmap.getLsbD slot = false)
    (room : node.usedBytes + layout.itemSize ≤ node.capacityBytes) (item : Item K V) :
    ∃ node', node.insertItem layout (bit 64 slot) item = some node' ∧
      Shape layout levels node' ∧ Replaces node node' slot (some item) none := by
  have small : (node.usedBytes + layout.itemSize) % 2 ^ 28 =
      node.usedBytes + layout.itemSize :=
    Nat.mod_eq_of_lt (Nat.lt_of_le_of_lt (Nat.le_trans room shape.capacity_le)
      (layout_capacity layout).2)
  have place : rank node.itemBitmap slot ≤ node.items.length := by
    rw [shape.itemsPacked]
    exact PackedArray.rank_le_popcount _ (Nat.le_of_lt hs)
  rw [insertItem, if_pos room, PackedArray.popcount_and_below _ hs, small]
  refine ⟨_, rfl, ?_, ?_⟩
  · refine ⟨?_, shape.nodesPacked, ?_, ?_, room, shape.capacity_ge, shape.capacity_le,
      shape.consumed⟩
    · intro other set
      have apart := shape.disjoint other set
      have differ : slot ≠ other := by
        rintro rfl
        rw [clear] at set
        exact Bool.noConfusion set
      rw [PackedArray.getLsbD_or_bit _ hs, apart]
      simpa using differ
    · rw [List.length_insertIdx_of_le_length place, shape.itemsPacked,
        PackedArray.popcount_or_bit hs itemClear]
    · rw [List.length_insertIdx_of_le_length place]
      dsimp only
      rw [shape.used]
      ring
  · refine ⟨?_, ?_⟩
    · intro other
      exact PackedArray.get?_insertIdx hs shape.itemsPacked itemClear item other
    · intro other
      by_cases same : other = slot
      · rw [if_pos same, same]
        exact (childAt_eq_none_iff shape slot).mpr clear
      · rw [if_neg same]
        rfl

theorem eraseItem_spec {slot : Nat} {node : Node K V} (shape : Shape layout levels node)
    (set : node.itemBitmap.getLsbD slot = true) (clear : node.nodeBitmap.getLsbD slot = false) :
    Shape layout levels (node.eraseItem layout (bit 64 slot)) ∧
    (node.eraseItem layout (bit 64 slot)).usedBytes + layout.itemSize = node.usedBytes ∧
    Replaces node (node.eraseItem layout (bit 64 slot)) slot none none := by
  have hs := BitVec.lt_of_getLsbD set
  have place : rank node.itemBitmap slot < node.items.length := by
    rw [shape.itemsPacked]
    exact PackedArray.rank_lt_popcount set
  have stored : node.items.length = node.items.length - 1 + 1 := by omega
  have used := shape.used
  rw [stored, Nat.mul_add, Nat.mul_one] at used
  have fits := shape.fits
  rw [eraseItem, PackedArray.popcount_and_below _ hs]
  refine ⟨?_, ?_, ?_⟩
  · refine ⟨?_, shape.nodesPacked, ?_, ?_, ?_, shape.capacity_ge, shape.capacity_le,
      shape.consumed⟩
    · intro other occupied
      have apart := shape.disjoint other occupied
      have differ : slot ≠ other := by
        rintro rfl
        rw [clear] at occupied
        exact Bool.noConfusion occupied
      rw [PackedArray.getLsbD_xor_bit _ hs, apart]
      simpa using differ
    · have fewer := PackedArray.popcount_xor_bit set
      have packed := shape.itemsPacked
      rw [List.length_eraseIdx_of_lt place]
      dsimp only
      omega
    · rw [List.length_eraseIdx_of_lt place]
      dsimp only
      omega
    · dsimp only
      omega
  · dsimp only
    omega
  · refine ⟨?_, ?_⟩
    · intro other
      exact PackedArray.get?_eraseIdx set other
    · intro other
      by_cases same : other = slot
      · rw [if_pos same, same]
        exact (childAt_eq_none_iff shape slot).mpr clear
      · rw [if_neg same]
        rfl

theorem insertNode_spec {slot : Nat} {node : Node K V} (shape : Shape layout levels node)
    (hs : slot < 64) (clear : node.nodeBitmap.getLsbD slot = false)
    (itemClear : node.itemBitmap.getLsbD slot = false)
    (room : node.usedBytes + nodeItemSize ≤ node.capacityBytes) (child : NodeItem K V) :
    ∃ node', node.insertNode (bit 64 slot) child = some node' ∧
      Shape layout levels node' ∧ Replaces node node' slot none (some child) := by
  have small : (node.usedBytes + nodeItemSize) % 2 ^ 28 = node.usedBytes + nodeItemSize :=
    Nat.mod_eq_of_lt (Nat.lt_of_le_of_lt (Nat.le_trans room shape.capacity_le)
      (layout_capacity layout).2)
  have place : rank node.nodeBitmap slot ≤ node.nodes.length := by
    rw [shape.nodesPacked]
    exact PackedArray.rank_le_popcount _ (Nat.le_of_lt hs)
  rw [insertNode, if_pos room, PackedArray.popcount_and_below _ hs, small]
  refine ⟨_, rfl, ?_, ?_⟩
  · refine ⟨?_, ?_, shape.itemsPacked, ?_, room, shape.capacity_ge, shape.capacity_le,
      shape.consumed⟩
    · intro other set
      rw [PackedArray.getLsbD_or_bit _ hs] at set
      by_cases same : slot = other
      · rw [← same]
        exact itemClear
      · exact shape.disjoint other (by simpa [same] using set)
    · rw [List.length_insertIdx_of_le_length place, shape.nodesPacked,
        PackedArray.popcount_or_bit hs clear]
    · rw [List.length_insertIdx_of_le_length place]
      dsimp only
      rw [shape.used]
      ring
  · refine ⟨?_, ?_⟩
    · intro other
      by_cases same : other = slot
      · rw [if_pos same, same]
        exact (itemAt_eq_none_iff shape slot).mpr itemClear
      · rw [if_neg same]
        rfl
    · intro other
      exact PackedArray.get?_insertIdx hs shape.nodesPacked clear child other

theorem eraseNode_spec {slot : Nat} {node : Node K V} (shape : Shape layout levels node)
    (set : node.nodeBitmap.getLsbD slot = true) :
    Shape layout levels (node.eraseNode (bit 64 slot)) ∧
    (node.eraseNode (bit 64 slot)).usedBytes + nodeItemSize = node.usedBytes ∧
    Replaces node (node.eraseNode (bit 64 slot)) slot none none := by
  have hs := BitVec.lt_of_getLsbD set
  have place : rank node.nodeBitmap slot < node.nodes.length := by
    rw [shape.nodesPacked]
    exact PackedArray.rank_lt_popcount set
  have stored : node.nodes.length = node.nodes.length - 1 + 1 := by omega
  have used := shape.used
  rw [stored, Nat.mul_add, Nat.mul_one] at used
  have fits := shape.fits
  rw [eraseNode, PackedArray.popcount_and_below _ hs]
  refine ⟨?_, ?_, ?_⟩
  · refine ⟨?_, ?_, shape.itemsPacked, ?_, ?_, shape.capacity_ge, shape.capacity_le,
      shape.consumed⟩
    · intro other occupied
      rw [PackedArray.getLsbD_xor_bit _ hs] at occupied
      by_cases same : slot = other
      · rw [← same]
        exact shape.disjoint slot set
      · exact shape.disjoint other (by simpa [same] using occupied)
    · have fewer := PackedArray.popcount_xor_bit set
      have packed := shape.nodesPacked
      rw [List.length_eraseIdx_of_lt place]
      dsimp only
      omega
    · rw [List.length_eraseIdx_of_lt place]
      dsimp only
      omega
    · dsimp only
      omega
  · dsimp only
    omega
  · refine ⟨?_, ?_⟩
    · intro other
      by_cases same : other = slot
      · rw [if_pos same, same]
        exact (itemAt_eq_none_iff shape slot).mpr (shape.disjoint slot set)
      · rw [if_neg same]
        rfl
    · intro other
      exact PackedArray.get?_eraseIdx set other

theorem assignNodeBit_spec {slot : Nat} {node : Node K V} (shape : Shape layout levels node)
    (set : node.nodeBitmap.getLsbD slot = true) (child : NodeItem K V) :
    Shape layout levels (node.assignNodeBit (bit 64 slot) child) ∧
    Replaces node (node.assignNodeBit (bit 64 slot) child) slot none (some child) := by
  have hs := BitVec.lt_of_getLsbD set
  rw [assignNodeBit, PackedArray.popcount_and_below _ hs]
  refine ⟨?_, ?_⟩
  · refine ⟨shape.disjoint, ?_, shape.itemsPacked, ?_, shape.fits, shape.capacity_ge,
      shape.capacity_le, shape.consumed⟩
    · rw [List.length_set]
      exact shape.nodesPacked
    · rw [List.length_set]
      exact shape.used
  · refine ⟨?_, ?_⟩
    · intro other
      by_cases same : other = slot
      · rw [if_pos same, same]
        exact (itemAt_eq_none_iff shape slot).mpr (shape.disjoint slot set)
      · rw [if_neg same]
        rfl
    · intro other
      exact PackedArray.get?_set shape.nodesPacked set child other

theorem assignItemBit_spec {slot : Nat} {node : Node K V} (shape : Shape layout levels node)
    (set : node.itemBitmap.getLsbD slot = true) (clear : node.nodeBitmap.getLsbD slot = false)
    (item : Item K V) :
    Shape layout levels (node.assignItemBit (bit 64 slot) item) ∧
    Replaces node (node.assignItemBit (bit 64 slot) item) slot (some item) none := by
  have hs := BitVec.lt_of_getLsbD set
  rw [assignItemBit, PackedArray.popcount_and_below _ hs]
  refine ⟨?_, ?_⟩
  · refine ⟨shape.disjoint, shape.nodesPacked, ?_, ?_, shape.fits, shape.capacity_ge,
      shape.capacity_le, shape.consumed⟩
    · rw [List.length_set]
      exact shape.itemsPacked
    · rw [List.length_set]
      exact shape.used
  · refine ⟨?_, ?_⟩
    · intro other
      exact PackedArray.get?_set shape.itemsPacked set item other
    · intro other
      by_cases same : other = slot
      · rw [if_pos same, same]
        exact (childAt_eq_none_iff shape slot).mpr clear
      · rw [if_neg same]
        rfl

/-- Before an item is stored in a free slot the node is expanded if it is full. -/
theorem makeRoom_spec {slot : Nat} {node : Node K V} (shape : Shape layout levels node)
    (hs : slot < 64) (clear : node.nodeBitmap.getLsbD slot = false)
    (itemClear : node.itemBitmap.getLsbD slot = false) (freeAddress : Nat) :
    let roomy := if node.usedBytes + layout.itemSize > node.capacityBytes then
      expandNode layout freeAddress node else node
    Shape layout levels roomy ∧
      roomy.usedBytes + layout.itemSize ≤ roomy.capacityBytes ∧
      Replaces node roomy slot none none := by
  have items := (itemAt_eq_none_iff shape slot).mpr itemClear
  have children := (childAt_eq_none_iff shape slot).mpr clear
  by_cases full : node.usedBytes + layout.itemSize > node.capacityBytes
  · simp only [if_pos full]
    refine ⟨expandNode_shape shape, expandNode_room shape hs clear itemClear, ?_⟩
    rw [← items, ← children]
    exact Replaces.unchanged
      (fun other => itemAt_copyWithCapacity freeAddress _ other node)
      (fun other => childAt_copyWithCapacity freeAddress _ other node) slot
  · simp only [if_neg full]
    refine ⟨shape, Nat.le_of_not_lt full, ?_⟩
    have same : Replaces node node slot (node.itemAt slot) (node.childAt slot) :=
      Replaces.unchanged (fun _ => rfl) (fun _ => rfl) slot
    rw [items, children] at same
    exact same

end Node

end Voxen.Common.V8gHashTrie
