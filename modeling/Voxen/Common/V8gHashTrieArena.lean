import Voxen.Common.V8gHashTrieRuns

/-!
# The blocks of the nodes

In a node that a run reaches the children at the bottom of the block and the items at its top
do not overlap, and whatever a call does to the node next leaves them apart as well.
-/

namespace Voxen.Common.V8gHashTrie

open PackedArray (popcount bit)

namespace Node

variable {K V : Type} {layout : ItemLayout} {hash : K → BitVec 64}

/-- The node a path of slots leads to. -/
def nodeAt : List Nat → Node K V → Option (Node K V)
  | [], node => some node
  | slot :: path, node => (node.childAt slot).bind fun child => nodeAt path child.2

variable {levels : Nat} {node : Node K V}

theorem WellFormed.nodeAt {pfx : Nat} {root : Node K V} {path : List Nat}
    (wf : WellFormed layout hash levels pfx root) (reached : nodeAt path root = some node) :
    ∃ lower pfx', path.length + (lower + 1) = levels ∧
      WellFormed layout hash (lower + 1) pfx' node := by
  induction path generalizing levels pfx root with
  | nil =>
    cases reached
    obtain ⟨lower, rfl⟩ := wf.levels_pos
    exact ⟨lower, pfx, Nat.zero_add _, wf⟩
  | cons slot path ih =>
    obtain ⟨child, children, below⟩ := Option.bind_eq_some_iff.mp reached
    obtain ⟨levels, rfl⟩ := wf.levels_pos
    obtain ⟨lower, pfx', depth, wf'⟩ := ih (wf.2.2 slot child children) below
    exact ⟨lower, pfx', by rw [List.length_cons]; omega, wf'⟩

/-- The children from the bottom and the items from the top fill the used bytes of the block and
do not meet. -/
structure Apart (layout : ItemLayout) (node : Node K V) : Prop where
  disjoint : node.nodeBitmap &&& node.itemBitmap = 0#64
  used : node.usedBytes =
    nodeItemSize * popcount node.nodeBitmap + layout.itemSize * popcount node.itemBitmap
  fits : node.usedBytes ≤ node.capacityBytes

theorem Shape.apart (shape : Shape layout levels node) :
    Apart layout node where
  disjoint := by
    refine BitVec.eq_of_getLsbD_eq fun slot _ => ?_
    rw [BitVec.getLsbD_and, BitVec.getLsbD_zero]
    cases set : node.nodeBitmap.getLsbD slot with
    | false => rfl
    | true => exact shape.disjoint slot set
  used := by rw [shape.used, shape.nodesPacked, shape.itemsPacked]
  fits := shape.fits

/-- An item of a node has room to become a child: the child is not larger than the item, and the
new node is large enough for the item. -/
theorem Shape.promotes {slot : Nat} (shape : Shape layout levels node)
    (set : node.itemBitmap.getLsbD slot = true) (hash : K → BitVec 64) (address : Nat) :
    ∃ node', node.promoteItemToNode layout hash address (bit 64 slot) = some node' ∧
      Shape layout levels node' := by
  have hs := BitVec.lt_of_getLsbD set
  cases shape.slotHolds slot with
  | child _ _ clear =>
    rw [clear] at set
    cases set
  | free _ clear =>
    rw [clear] at set
    cases set
  | item item _ clear items =>
    obtain ⟨erasedShape, erasedUsed, erased⟩ := eraseItem_spec shape set clear
    have room : (node.eraseItem layout (bit 64 slot)).usedBytes + nodeItemSize ≤
        (node.eraseItem layout (bit 64 slot)).capacityBytes :=
      Nat.le_trans (Nat.add_le_add_left layout.nodeItem_le _)
        (Nat.le_trans (Nat.le_of_eq erasedUsed) shape.fits)
    have initial : (allocateNode layout address (node.consumedHashBits + 6) : Node K V).usedBytes +
        layout.itemSize ≤
          (allocateNode layout address (node.consumedHashBits + 6) : Node K V).capacityBytes := by
      dsimp only [allocateNode]
      rw [Nat.mod_eq_of_lt (layout_capacity layout).1, initialCapacity]
      omega
    rw [promoteItemToNode, refItemBit_of_item hs items]
    simp only [Option.bind_eq_bind, Option.bind_some]
    rw [insertItem, if_pos initial]
    obtain ⟨node', result, shape', _⟩ := insertNode_spec erasedShape hs
      ((childAt_eq_none_iff erasedShape slot).mp erased.childAt_slot)
      ((itemAt_eq_none_iff erasedShape slot).mp erased.itemAt_slot) room _
    exact ⟨node', result, shape'⟩

/-- What holds of a node that a run reaches: the two ends of its block are apart and stay so, and
there are hash bits left to select its slots by. -/
structure Sound (layout : ItemLayout) (hash : K → BitVec 64) (node : Node K V) : Prop where
  apart : Apart layout node
  consumed : node.consumedHashBits + 6 ≤ 64
  /-- An item goes into a free slot of the expanded node. -/
  expands : ∀ slot < 64, node.nodeBitmap.getLsbD slot = false →
    node.itemBitmap.getLsbD slot = false → ∀ address item, ∃ node',
      (expandNode layout address node).insertItem layout (bit 64 slot) item = some node' ∧
        Apart layout node'
  promotes : ∀ slot, node.itemBitmap.getLsbD slot = true → ∀ address, ∃ node',
    node.promoteItemToNode layout hash address (bit 64 slot) = some node' ∧ Apart layout node'
  shrinks : ∀ slot, node.nodeBitmap.getLsbD slot = true → ∃ node',
    node.tryShrinkChildNode layout (bit 64 slot) = some node' ∧ Apart layout node'

theorem WellFormed.sound [DecidableEq K] {pfx : Nat}
    (wf : WellFormed layout hash (levels + 1) pfx node) : Sound layout hash node where
  apart := wf.shape.apart
  consumed := by
    have consumed := wf.shape.consumed
    omega
  expands := by
    intro slot hs clear itemClear address item
    obtain ⟨node', result, shape', _⟩ := insertItem_spec (expandNode_shape wf.shape) hs clear
      itemClear (expandNode_room wf.shape hs clear itemClear) item
    exact ⟨node', result, shape'.apart⟩
  promotes := by
    intro slot set address
    obtain ⟨node', result, shape'⟩ := wf.shape.promotes set hash address
    exact ⟨node', result, shape'.apart⟩
  shrinks := by
    intro slot set
    obtain ⟨child, stored⟩ := PackedArray.exists_of_set wf.shape.nodesPacked set
    have children : node.childAt slot = some child := by
      rw [childAt, PackedArray.get?_of_set set, stored]
    obtain ⟨node', _, _, result, shape', _⟩ := tryShrinkChildNode_spec wf.shape children
      (BitVec.lt_of_getLsbD set) (wf.2.2 slot child children)
    exact ⟨node', result, shape'.apart⟩

end Node

variable {K V : Type} [DecidableEq K] {layout : ItemLayout} {hash : K → BitVec 64}

/-- In every run all the nodes reached are sound, and every insertion and erasure that may follow
returns, so that none of them finds the two ends of a block in each other's way or runs out of
hash bits. -/
theorem run_nodes_sound (unique : Function.Injective hash) (operations : List (Operation K V)) :
    ∃ trie, run layout hash operations = some trie ∧
      (∀ index first root path node, trie.rootNodes index = (first, some root) →
        Node.nodeAt path root = some node → path.length < hashLevels ∧ Node.Sound layout hash node) ∧
      ∀ operation, ∃ trie', Operation.apply layout hash trie operation = some trie' := by
  obtain ⟨trie, result, reflects⟩ : ∃ trie, run layout hash operations = some trie ∧
      Reflects layout hash operations trie := run_reflects unique operations
  refine ⟨trie, result, ?_, fun operation => ?_⟩
  · intro index first root path node holds reached
    obtain ⟨lower, _, depth, wf⟩ := (reflects.wellFormed index first root holds).nodeAt reached
    exact ⟨by omega, wf.sound⟩
  · obtain ⟨trie', next, _⟩ := run_reflects unique (operations ++ [operation])
    rw [run_snoc, result, Option.bind_some] at next
    exact ⟨trie', next⟩

theorem collidingOperations_sound :
    ∃ trie, run wordKeyLayout id collidingOperations = some trie ∧
      (∀ index first root path node, trie.rootNodes index = (first, some root) →
        Node.nodeAt path root = some node →
          path.length < hashLevels ∧ Node.Sound wordKeyLayout id node) ∧
      ∀ operation, ∃ trie', Operation.apply wordKeyLayout id trie operation = some trie' :=
  run_nodes_sound Function.injective_id collidingOperations

end Voxen.Common.V8gHashTrie
