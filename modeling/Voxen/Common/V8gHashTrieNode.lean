import Mathlib.Algebra.Group.Nat.Defs
import Voxen.Lib.PackedArray

/-!
# Nodes of the versioned hash trie

A node keeps its children and its items in one block of `capacityBytes` bytes,
children growing from the bottom and items from the top.  Both are packed in
the order of their slots, and two bitmaps say which slots are taken.
-/

namespace Voxen.Common

open PackedArray (popcount rank bit)

/-- What an instance of the container fixes about `sizeof(Item)`: the asserted
bounds, and that `MAX_CAPACITY` fits the 28 bits of the capacity field. -/
structure ItemLayout where
  itemSize : Nat
  nodeItem_le : 24 ≤ itemSize
  aligned : itemSize % 8 = 0
  bounded : 64 * itemSize < 2 ^ 28

namespace V8gHashTrie

/-- `V8gMapItem`: version, key and value pointer. -/
structure Item (K V : Type) where
  version : BitVec 64
  key : K
  valuePtr : V
  deriving DecidableEq

/-- A trie node.  `address` is where it was allocated: writing to a node keeps
it, every copy gets a new one. -/
structure Node (K V : Type) where
  address : Nat
  nodeBitmap : BitVec 64
  itemBitmap : BitVec 64
  usedBytes : Nat
  capacityBytes : Nat
  consumedHashBits : Nat
  nodes : List (BitVec 64 × Node K V)
  items : List (Item K V)

/-- `std::pair<uint64_t, NodePtr>`: the timeline a node was made at, and the node. -/
abbrev NodeItem (K V : Type) : Type := BitVec 64 × Node K V

/-- `sizeof(NodeItem)`. -/
abbrev nodeItemSize : Nat := 24

/-- `uint64_t(1) << (hash_bits >> (64 - 6))`. -/
def selectBit (hashBits : BitVec 64) : BitVec 64 :=
  1#64 <<< (hashBits >>> (64 - 6)).toNat

namespace Node

variable {K V : Type} (layout : ItemLayout)

/-- `INITIAL_CAPACITY`. -/
def initialCapacity : Nat := 2 * layout.itemSize

/-- `MAX_CAPACITY`. -/
def maxCapacity : Nat := 64 * layout.itemSize

/-- `allocateNode`: the initial constructor over a block of the initial capacity. -/
def allocateNode (address consumedHashBits : Nat) : Node K V where
  address := address
  nodeBitmap := 0
  itemBitmap := 0
  usedBytes := 0
  capacityBytes := initialCapacity layout % 2 ^ 28
  consumedHashBits := consumedHashBits % 2 ^ 8
  nodes := []
  items := []

/-- The copy constructor: the same content in a block of another capacity. -/
def copyWithCapacity (address : Nat) (old : Node K V) (capacity : Nat) : Node K V :=
  { old with address := address, capacityBytes := capacity % 2 ^ 28 }

def copyNode (address : Nat) (old : Node K V) : Node K V :=
  copyWithCapacity address old old.capacityBytes

/-- Capacity x1.5, clamped and rounded up to the alignment of an item. -/
def expandedCapacity (capacityBytes : Nat) : Nat :=
  let capacity := min (capacityBytes + capacityBytes / 2) (maxCapacity layout)
  if capacity % 8 ≠ 0 then capacity + (8 - capacity % 8) else capacity

def expandNode (address : Nat) (old : Node K V) : Node K V :=
  copyWithCapacity address old (expandedCapacity layout old.capacityBytes)

/-- `refNodeBit`, when a child is constructed there. -/
def refNodeBit (node : Node K V) (bit : BitVec 64) : Option (NodeItem K V) :=
  node.nodes[popcount (node.nodeBitmap &&& (bit - 1#64))]?

/-- `refItemBit`, when an item is constructed there. -/
def refItemBit (node : Node K V) (bit : BitVec 64) : Option (Item K V) :=
  node.items[popcount (node.itemBitmap &&& (bit - 1#64))]?

/-- Assignment through the reference `refNodeBit` returns. -/
def assignNodeBit (node : Node K V) (bit : BitVec 64) (child : NodeItem K V) : Node K V :=
  { node with nodes := node.nodes.set (popcount (node.nodeBitmap &&& (bit - 1#64))) child }

/-- Assignment through the reference `refItemBit` returns. -/
def assignItemBit (node : Node K V) (bit : BitVec 64) (item : Item K V) : Node K V :=
  { node with items := node.items.set (popcount (node.itemBitmap &&& (bit - 1#64))) item }

/-- `insertNode`: children after the new one shift up.  Without the space its
precondition asks for, the two ends of the block would overlap. -/
def insertNode (node : Node K V) (bit : BitVec 64) (child : NodeItem K V) :
    Option (Node K V) :=
  if node.usedBytes + nodeItemSize ≤ node.capacityBytes then
    some { node with
      nodes := node.nodes.insertIdx (popcount (node.nodeBitmap &&& (bit - 1#64))) child
      nodeBitmap := node.nodeBitmap ||| bit
      usedBytes := (node.usedBytes + nodeItemSize) % 2 ^ 28 }
  else none

/-- `eraseNode`: children after the erased one shift down. -/
def eraseNode (node : Node K V) (bit : BitVec 64) : Node K V :=
  { node with
    nodes := node.nodes.eraseIdx (popcount (node.nodeBitmap &&& (bit - 1#64)))
    nodeBitmap := node.nodeBitmap ^^^ bit
    usedBytes := node.usedBytes - nodeItemSize }

/-- `insertItem`, with the precondition of `insertNode` for an item. -/
def insertItem (node : Node K V) (bit : BitVec 64) (item : Item K V) : Option (Node K V) :=
  if node.usedBytes + layout.itemSize ≤ node.capacityBytes then
    some { node with
      items := node.items.insertIdx (popcount (node.itemBitmap &&& (bit - 1#64))) item
      itemBitmap := node.itemBitmap ||| bit
      usedBytes := (node.usedBytes + layout.itemSize) % 2 ^ 28 }
  else none

def eraseItem (node : Node K V) (bit : BitVec 64) : Node K V :=
  { node with
    items := node.items.eraseIdx (popcount (node.itemBitmap &&& (bit - 1#64)))
    itemBitmap := node.itemBitmap ^^^ bit
    usedBytes := node.usedBytes - layout.itemSize }

/-- `promoteItemToNode`: the item moves into a new child in its place. -/
def promoteItemToNode (hash : K → BitVec 64) (address : Nat) (node : Node K V)
    (bit : BitVec 64) : Option (Node K V) := do
  let item ← node.refItemBit bit
  let child := allocateNode layout address (node.consumedHashBits + 6)
  let hashBits := (hash item.key <<< (node.consumedHashBits + 6)) >>> (64 - 6)
  let child ← child.insertItem layout (1#64 <<< hashBits.toNat) item
  (node.eraseItem layout bit).insertNode bit (item.version, child)

/-- `tryShrinkChildNode`: an empty child is dropped, the only item of a child
without children of its own moves up if there is room for it. -/
def tryShrinkChildNode (node : Node K V) (bit : BitVec 64) : Option (Node K V) := do
  let (_, child) ← node.refNodeBit bit
  if child.nodeBitmap ≠ 0#64 then
    return node
  if child.itemBitmap = 0#64 then
    return node.eraseNode bit
  if node.capacityBytes - node.usedBytes + nodeItemSize < layout.itemSize then
    return node
  if child.itemBitmap &&& (child.itemBitmap - 1#64) = 0#64 then
    let item ← child.items[0]?
    (node.eraseNode bit).insertItem layout bit item
  else
    return node

/-- "We're about to alter this node": a node of another timeline is copied
first.  The next free address is passed along. -/
def makeUnique (timeline : BitVec 64) (freeAddress : Nat) (nodeItem : NodeItem K V) :
    NodeItem K V × Nat :=
  if nodeItem.1 ≠ timeline then
    ((timeline, copyNode freeAddress nodeItem.2), freeAddress + 1)
  else
    (nodeItem, freeAddress)

/-- The descent of `V8gHashTrie::find`.  `levels` bounds the nodes passed; the
outer `none` is a descent beyond it. -/
def find [DecidableEq K] (key : K) : Nat → Node K V → BitVec 64 → Option (Option (Item K V))
  | 0, _, _ => none
  | levels + 1, node, hashBits => do
      let bit := selectBit hashBits
      if node.itemBitmap &&& bit ≠ 0#64 then
        let item ← node.refItemBit bit
        return if item.key = key then some item else none
      if node.nodeBitmap &&& bit = 0#64 then
        return none
      let (_, child) ← node.refNodeBit bit
      find key levels child (hashBits <<< 6)

/-- The loop of `V8gHashTrie::insert`, from the node it has reached.  Returns
the node item as the loop leaves it, the next free address, and whether the key
is new. -/
def insert [DecidableEq K] (hash : K → BitVec 64) (timeline : BitVec 64) (key : K)
    (valuePtr : V) :
    Nat → NodeItem K V → BitVec 64 → Nat → Option (NodeItem K V × Nat × Bool)
  | 0, _, _, _ => none
  | levels + 1, nodeItem, hashBits, freeAddress => do
      let ((_, node), freeAddress) := makeUnique timeline freeAddress nodeItem
      let bit := selectBit hashBits
      let hashBits := hashBits <<< 6
      if node.nodeBitmap &&& bit ≠ 0#64 then
        -- This index is stored in a child node, proceed to it
        let child ← node.refNodeBit bit
        let (child, freeAddress, added) ←
          insert hash timeline key valuePtr levels child hashBits freeAddress
        return ((timeline, node.assignNodeBit bit child), freeAddress, added)
      if node.itemBitmap &&& bit ≠ 0#64 then
        let item ← node.refItemBit bit
        if item.key = key then
          let item := { item with version := timeline, valuePtr := valuePtr }
          return ((timeline, node.assignItemBit bit item), freeAddress, false)
        -- Hash prefix collision, proceed to the newly created node
        let node ← node.promoteItemToNode layout hash freeAddress bit
        let child ← node.refNodeBit bit
        let (child, freeAddress, added) ←
          insert hash timeline key valuePtr levels child hashBits (freeAddress + 1)
        return ((timeline, node.assignNodeBit bit child), freeAddress, added)
      -- This index is not stored
      let expand := node.usedBytes + layout.itemSize > node.capacityBytes
      let node := if expand then expandNode layout freeAddress node else node
      let freeAddress := if expand then freeAddress + 1 else freeAddress
      let node ← node.insertItem layout bit ⟨timeline, key, valuePtr⟩
      return ((timeline, node), freeAddress, true)

/-- `Node::erase`.  Returns the node item as it is left, the next free address,
and whether the key was there. -/
def erase [DecidableEq K] (timeline : BitVec 64) (key : K) :
    Nat → NodeItem K V → BitVec 64 → Nat → Option (NodeItem K V × Nat × Bool)
  | 0, _, _, _ => none
  | levels + 1, nodeItem, hashBits, freeAddress => do
      let bit := selectBit hashBits
      let hashBits := hashBits <<< 6
      if nodeItem.2.itemBitmap &&& bit ≠ 0#64 then
        let item ← nodeItem.2.refItemBit bit
        if item.key ≠ key then
          return (nodeItem, freeAddress, false)
        let (nodeItem, freeAddress) := makeUnique timeline freeAddress nodeItem
        return ((nodeItem.1, nodeItem.2.eraseItem layout bit), freeAddress, true)
      if nodeItem.2.nodeBitmap &&& bit = 0#64 then
        return (nodeItem, freeAddress, false)
      let (nodeItem, freeAddress) := makeUnique timeline freeAddress nodeItem
      let child ← nodeItem.2.refNodeBit bit
      let (child, freeAddress, erased) ←
        erase timeline key levels child hashBits freeAddress
      let node := nodeItem.2.assignNodeBit bit child
      let node ← if erased then node.tryShrinkChildNode layout bit else some node
      return ((nodeItem.1, node), freeAddress, erased)

end Node

end V8gHashTrie

end Voxen.Common
