import Voxen.Lib.Runs
import Voxen.Lib.SharedHeap
import Voxen.Common.V8gHashTrie

/-!
# The versioned hash trie in shared memory

Tries that were copied from each other share nodes by address, and a call writes
to the nodes it has made its own.  The reference counts are left out: a node that
somebody still points to is not freed.
-/

namespace Voxen.Common.V8gHashTrie.Memory

open PackedArray (popcount)

variable {K V : Type}

/-- `NodeItem` with its pointer: the timeline a node was made at, and where it is. -/
abbrev NodeRef : Type := BitVec 64 × Option Nat

/-- `Node` as it is stored, with the children by address. -/
structure Cell (K V : Type) where
  nodeBitmap : BitVec 64
  itemBitmap : BitVec 64
  usedBytes : Nat
  capacityBytes : Nat
  consumedHashBits : Nat
  nodes : List NodeRef
  items : List (Item K V)
  deriving DecidableEq

namespace Cell

/-- `Node(INITIAL_CAPACITY, consumed_hash_bits)`. -/
def initial (layout : ItemLayout) (consumedHashBits : Nat) : Cell K V where
  nodeBitmap := 0
  itemBitmap := 0
  usedBytes := 0
  capacityBytes := Node.initialCapacity layout % 2 ^ 28
  consumedHashBits := consumedHashBits % 2 ^ 8
  nodes := []
  items := []

def expanded (layout : ItemLayout) (old : Cell K V) : Cell K V :=
  { old with capacityBytes := Node.expandedCapacity layout old.capacityBytes % 2 ^ 28 }

def refNodeBit (cell : Cell K V) (bit : BitVec 64) : Option NodeRef :=
  cell.nodes[popcount (cell.nodeBitmap &&& (bit - 1#64))]?

def refItemBit (cell : Cell K V) (bit : BitVec 64) : Option (Item K V) :=
  cell.items[popcount (cell.itemBitmap &&& (bit - 1#64))]?

/-- Assignment through the reference `refNodeBit` returns. -/
def assignNodeBit (cell : Cell K V) (bit : BitVec 64) (child : NodeRef) : Cell K V :=
  { cell with nodes := cell.nodes.set (popcount (cell.nodeBitmap &&& (bit - 1#64))) child }

/-- Assignment through the reference `refItemBit` returns. -/
def assignItemBit (cell : Cell K V) (bit : BitVec 64) (item : Item K V) : Cell K V :=
  { cell with items := cell.items.set (popcount (cell.itemBitmap &&& (bit - 1#64))) item }

def insertNode (cell : Cell K V) (bit : BitVec 64) (child : NodeRef) : Option (Cell K V) :=
  if cell.usedBytes + nodeItemSize ≤ cell.capacityBytes then
    some { cell with
      nodes := cell.nodes.insertIdx (popcount (cell.nodeBitmap &&& (bit - 1#64))) child
      nodeBitmap := cell.nodeBitmap ||| bit
      usedBytes := (cell.usedBytes + nodeItemSize) % 2 ^ 28 }
  else none

def eraseNode (cell : Cell K V) (bit : BitVec 64) : Cell K V :=
  { cell with
    nodes := cell.nodes.eraseIdx (popcount (cell.nodeBitmap &&& (bit - 1#64)))
    nodeBitmap := cell.nodeBitmap ^^^ bit
    usedBytes := cell.usedBytes - nodeItemSize }

def insertItem (layout : ItemLayout) (cell : Cell K V) (bit : BitVec 64) (item : Item K V) :
    Option (Cell K V) :=
  if cell.usedBytes + layout.itemSize ≤ cell.capacityBytes then
    some { cell with
      items := cell.items.insertIdx (popcount (cell.itemBitmap &&& (bit - 1#64))) item
      itemBitmap := cell.itemBitmap ||| bit
      usedBytes := (cell.usedBytes + layout.itemSize) % 2 ^ 28 }
  else none

def eraseItem (layout : ItemLayout) (cell : Cell K V) (bit : BitVec 64) : Cell K V :=
  { cell with
    items := cell.items.eraseIdx (popcount (cell.itemBitmap &&& (bit - 1#64)))
    itemBitmap := cell.itemBitmap ^^^ bit
    usedBytes := cell.usedBytes - layout.itemSize }

/-- `uint64_t(1) << std::countr_zero(mask)`. -/
def lowestBit (mask : BitVec 64) : BitVec 64 := mask &&& -mask

/-- The loop of `findFirstItem` and `findNextItem` over the set bits of `comboMask`.
`descend` is `findFirstItem` of a child, `itemAt` reads the item at a bit. -/
def firstOf (cell : Cell K V) (descend : Nat → Option (Option (Item K V)))
    (itemAt : BitVec 64 → Option (Item K V)) :
    Nat → BitVec 64 → Nat → Option (Option (Item K V))
  | 0, comboMask, _ => if comboMask = 0#64 then some none else none
  | bits + 1, comboMask, nodeIndex => do
      if comboMask = 0#64 then
        return none
      let bit := lowestBit comboMask
      if cell.itemBitmap &&& bit ≠ 0#64 then
        return some (← itemAt bit)
      let (_, child) ← cell.nodes[nodeIndex]?
      match ← descend (← child) with
      | some found => return some found
      | none => firstOf cell descend itemAt bits (comboMask ^^^ bit) (nodeIndex + 1)

/-- The whole loop. -/
def firstIn (cell : Cell K V) (descend : Nat → Option (Option (Item K V)))
    (itemAt : BitVec 64 → Option (Item K V)) (comboMask : BitVec 64) (nodeIndex : Nat) :
    Option (Option (Item K V)) :=
  cell.firstOf descend itemAt 64 comboMask nodeIndex

end Cell

/-! ## Reading -/

section Reading

variable (heap : SharedHeap (Cell K V))

def findFrom [DecidableEq K] (key : K) : Nat → Nat → BitVec 64 → Option (Option (Item K V))
  | 0, _, _ => none
  | levels + 1, address, hashBits => do
      let cell ← heap.cells address
      let bit := selectBit hashBits
      if cell.itemBitmap &&& bit ≠ 0#64 then
        let item ← cell.refItemBit bit
        return if item.key = key then some item else none
      if cell.nodeBitmap &&& bit = 0#64 then
        return none
      let (_, child) ← cell.refNodeBit bit
      findFrom key levels (← child) (hashBits <<< 6)

def findFirstItem : Nat → Nat → Option (Option (Item K V))
  | 0, _ => none
  | levels + 1, address => do
      let cell ← heap.cells address
      -- an item found at any bit is the one stored first
      cell.firstIn (findFirstItem levels) (fun _ => cell.items[0]?)
        (cell.nodeBitmap ||| cell.itemBitmap) 0

def findNextItem (hash : K → BitVec 64) : Nat → Nat → BitVec 64 → Option (Option (Item K V))
  | 0, _, _ => none
  | levels + 1, address, hashBits => do
      let cell ← heap.cells address
      let bit := selectBit hashBits
      let below ←
        if cell.nodeBitmap &&& bit ≠ 0#64 then do
          let (_, child) ← cell.refNodeBit bit
          findNextItem hash levels (← child) (hashBits <<< 6)
        else pure none
      if let some found := below then
        return some found
      let here ←
        if cell.itemBitmap &&& bit ≠ 0#64 then do
          let item ← cell.refItemBit bit
          let itemHashBits := hash item.key <<< cell.consumedHashBits
          pure (if hashBits < itemHashBits then some item else none)
        else pure none
      if let some item := here then
        return some item
      -- the bits above `bit`; the nodes skipped over are counted in
      let comboMask := (cell.nodeBitmap ||| cell.itemBitmap) &&& ~~~((bit <<< 1) - 1#64)
      cell.firstIn (findFirstItem heap levels) cell.refItemBit comboMask
        (popcount (cell.nodeBitmap &&& ~~~comboMask))

end Reading

/-- A trie: its size and its root nodes. -/
structure Trie where
  size : Nat := 0
  rootNodes : Fin 16 → NodeRef := fun _ => (0#64, none)

namespace Trie

variable (hash : K → BitVec 64) (heap : SharedHeap (Cell K V)) (trie : Trie)

def find [DecidableEq K] (key : K) : Option (Option (Item K V)) :=
  match (trie.rootNodes (rootIndex (hash key))).2 with
  | none => some none
  | some address => findFrom heap key hashLevels address (hash key <<< rootNodesLog2)

/-- The loop of `findFirst` and `findNext` over the root nodes. -/
def firstOfRoots : List (Fin 16) → Option (Option (Item K V))
  | [] => some none
  | index :: rest =>
    match (trie.rootNodes index).2 with
    | none => firstOfRoots rest
    | some address => do
        match ← findFirstItem heap hashLevels address with
        | some found => return some found
        | none => firstOfRoots rest

def findFirst : Option (Option (Item K V)) :=
  trie.firstOfRoots heap (List.finRange 16)

def findNext (key : K) : Option (Option (Item K V)) := do
  let index := rootIndex (hash key)
  let inRoot ←
    match (trie.rootNodes index).2 with
    | none => some none
    | some address => findNextItem heap hash hashLevels address (hash key <<< rootNodesLog2)
  match inRoot with
  | some found => return some found
  | none => trie.firstOfRoots heap ((List.finRange 16).drop (index.val + 1))

/-- The first items of the enumeration: `findFirst`, then `findNext` of each key. -/
def enumeration : Nat → Option (List (Item K V))
  | count => do
      match ← trie.findFirst heap with
      | none => return []
      | some first => follow count first
where
  follow : Nat → Item K V → Option (List (Item K V))
    | 0, _ => some []
    | count + 1, item => do
        match ← trie.findNext hash heap item.key with
        | none => return [item]
        | some next => return item :: (← follow count next)

end Trie

/-! ## Writing -/

/-- The heap, and the root nodes of the trie that is called. -/
structure Mutable (K V : Type) where
  heap : SharedHeap (Cell K V)
  rootNodes : Fin 16 → NodeRef

/-- What a `NodeItem &` refers to: a root node, or a child by its bit in a node. -/
inductive Place where
  | root (index : Fin 16)
  | child (address : Nat) (bit : BitVec 64)

namespace Mutable

variable (layout : ItemLayout)

def load (memory : Mutable K V) : Place → Option NodeRef
  | .root index => some (memory.rootNodes index)
  | .child address bit => do (← memory.heap.cells address).refNodeBit bit

def store (memory : Mutable K V) (ref : NodeRef) : Place → Option (Mutable K V)
  | .root index => some { memory with rootNodes := Function.update memory.rootNodes index ref }
  | .child address bit => do
      let cell ← memory.heap.cells address
      return { memory with heap := memory.heap.write address (cell.assignNodeBit bit ref) }

def write (memory : Mutable K V) (address : Nat) (cell : Cell K V) : Mutable K V :=
  { memory with heap := memory.heap.write address cell }

/-- A new node, and a reference to it with this timeline. -/
def allocate (memory : Mutable K V) (timeline : BitVec 64) (cell : Cell K V) :
    Mutable K V × NodeRef :=
  ({ memory with heap := memory.heap.allocate cell }, (timeline, some memory.heap.freeAddress))

/-- "We're about to alter this node": if it is of another timeline, the place gets
a copy of it. -/
def makeUnique (memory : Mutable K V) (timeline : BitVec 64) (place : Place) :
    Option (Mutable K V) := do
  let (first, node) ← memory.load place
  if first ≠ timeline then
    let (memory, ref) := memory.allocate timeline (← memory.heap.cells (← node))
    memory.store ref place
  else
    return memory

/-- The null pointer an item keeps that was moved away. -/
def movedFrom [Inhabited V] (item : Item K V) : Item K V := { item with valuePtr := default }

/-- The item moves into a new child in its place. -/
def promoteItemToNode (hash : K → BitVec 64) (memory : Mutable K V) (address : Nat)
    (bit : BitVec 64) : Option (Mutable K V) := do
  let cell ← memory.heap.cells address
  let item ← cell.refItemBit bit
  let child := Cell.initial layout (cell.consumedHashBits + 6)
  let hashBits := (hash item.key <<< (cell.consumedHashBits + 6)) >>> (64 - 6)
  let (memory, ref) := memory.allocate item.version
    (← child.insertItem layout (1#64 <<< hashBits.toNat) item)
  return memory.write address (← (cell.eraseItem layout bit).insertNode bit ref)

/-- An empty child is dropped; the only item of a child without children moves up
if there is room for it, and leaves a null pointer behind. -/
def tryShrinkChildNode [Inhabited V] (memory : Mutable K V) (address : Nat) (bit : BitVec 64) :
    Option (Mutable K V) := do
  let cell ← memory.heap.cells address
  let (_, child) ← cell.refNodeBit bit
  let childAddress ← child
  let child ← memory.heap.cells childAddress
  if child.nodeBitmap ≠ 0#64 then
    return memory
  if child.itemBitmap = 0#64 then
    return memory.write address (cell.eraseNode bit)
  if cell.capacityBytes - cell.usedBytes + nodeItemSize < layout.itemSize then
    return memory
  if child.itemBitmap &&& (child.itemBitmap - 1#64) = 0#64 then
    let item ← child.items[0]?
    let memory := memory.write childAddress { child with items := child.items.set 0 (movedFrom item) }
    return memory.write address (← (cell.eraseNode bit).insertItem layout bit item)
  return memory

/-- The place gets a node with more room. -/
def expand (memory : Mutable K V) (place : Place) : Option (Mutable K V × Nat) := do
  let (first, node) ← memory.load place
  let cell ← memory.heap.cells (← node)
  let address := memory.heap.freeAddress
  let (memory, ref) := memory.allocate first (cell.expanded layout)
  return (← memory.store ref place, address)

/-- The loop of `V8gHashTrie::insert`, with `current_node_item` at `place`.  Returns
whether the key is new. -/
def insert [DecidableEq K] (hash : K → BitVec 64) (timeline : BitVec 64) (key : K)
    (valuePtr : V) : Nat → Mutable K V → Place → BitVec 64 → Option (Mutable K V × Bool)
  | 0, _, _, _ => none
  | levels + 1, memory, place, hashBits => do
      let memory ← memory.makeUnique timeline place
      let (_, node) ← memory.load place
      let address ← node
      let cell ← memory.heap.cells address
      let bit := selectBit hashBits
      let hashBits := hashBits <<< 6
      if cell.nodeBitmap &&& bit ≠ 0#64 then
        insert hash timeline key valuePtr levels memory (.child address bit) hashBits
      else if cell.itemBitmap &&& bit ≠ 0#64 then
        let item ← cell.refItemBit bit
        if item.key = key then
          let item := { item with version := timeline, valuePtr := valuePtr }
          return (memory.write address (cell.assignItemBit bit item), false)
        else
          let memory ← memory.promoteItemToNode layout hash address bit
          insert hash timeline key valuePtr levels memory (.child address bit) hashBits
      else
        let item := ⟨timeline, key, valuePtr⟩
        if cell.usedBytes + layout.itemSize > cell.capacityBytes then
          let (memory, address) ← memory.expand layout place
          let cell ← memory.heap.cells address
          return (memory.write address (← cell.insertItem layout bit item), true)
        else
          return (memory.write address (← cell.insertItem layout bit item), true)

/-- `Node::erase`, with `node_item` at `place`.  Returns whether the key was there. -/
def erase [DecidableEq K] [Inhabited V] (timeline : BitVec 64) (key : K) :
    Nat → Mutable K V → Place → BitVec 64 → Option (Mutable K V × Bool)
  | 0, _, _, _ => none
  | levels + 1, memory, place, hashBits => do
      let (_, node) ← memory.load place
      let cell ← memory.heap.cells (← node)
      let bit := selectBit hashBits
      let hashBits := hashBits <<< 6
      if cell.itemBitmap &&& bit ≠ 0#64 then
        let item ← cell.refItemBit bit
        if item.key ≠ key then
          return (memory, false)
        let memory ← memory.makeUnique timeline place
        let (_, node) ← memory.load place
        let address ← node
        let cell ← memory.heap.cells address
        return (memory.write address (cell.eraseItem layout bit), true)
      else if cell.nodeBitmap &&& bit = 0#64 then
        return (memory, false)
      else
        let memory ← memory.makeUnique timeline place
        let (_, node) ← memory.load place
        let address ← node
        let (memory, erased) ← erase timeline key levels memory (.child address bit) hashBits
        if erased then
          return (← memory.tryShrinkChildNode layout address bit, true)
        else
          return (memory, false)

end Mutable

/-- The heap and the tries in it. -/
structure State (Name K V : Type) where
  heap : SharedHeap (Cell K V) := {}
  tries : Name → Trie := fun _ => {}

inductive Operation (Name K V : Type) where
  | insert (name : Name) (timeline : BitVec 64) (key : K) (valuePtr : V)
  | erase (name : Name) (timeline : BitVec 64) (key : K)
  /-- Copy assignment: `target` becomes a copy of `source`. -/
  | copy (source target : Name)

namespace Operation

variable {Name : Type}

/-- The timeline of a call that has one. -/
def timeline : Operation Name K V → Option (BitVec 64)
  | insert _ timeline _ _ | erase _ timeline _ => some timeline
  | copy _ _ => none

/-- The trie that is called or assigned to. -/
def changes : Operation Name K V → Name
  | insert name _ _ _ | erase name _ _ => name
  | copy _ target => target

end Operation

namespace State

variable {Name : Type} [DecidableEq Name] [DecidableEq K] [Inhabited V] (layout : ItemLayout)
  (hash : K → BitVec 64)

/-- Allocate the root node if it is null yet. -/
def prepareRoot (memory : Mutable K V) (timeline : BitVec 64) (index : Fin 16) :
    Option (Mutable K V) :=
  match (memory.rootNodes index).2 with
  | some _ => some memory
  | none =>
    let (memory, ref) := memory.allocate timeline (Cell.initial layout rootNodesLog2)
    memory.store ref (.root index)

def insert (state : State Name K V) (name : Name) (timeline : BitVec 64) (key : K)
    (valuePtr : V) : Option (State Name K V) := do
  let trie := state.tries name
  let index := rootIndex (hash key)
  let memory ← prepareRoot layout ⟨state.heap, trie.rootNodes⟩ timeline index
  let (memory, added) ← memory.insert layout hash timeline key valuePtr hashLevels (.root index)
    (hash key <<< rootNodesLog2)
  let size := if added then trie.size + 1 else trie.size
  return ⟨memory.heap, Function.update state.tries name ⟨size, memory.rootNodes⟩⟩

def erase (state : State Name K V) (name : Name) (timeline : BitVec 64) (key : K) :
    Option (State Name K V) := do
  let trie := state.tries name
  let index := rootIndex (hash key)
  if (trie.rootNodes index).2 = none then
    return state
  let (memory, erased) ← (⟨state.heap, trie.rootNodes⟩ : Mutable K V).erase layout timeline key
    hashLevels (.root index) (hash key <<< rootNodesLog2)
  let size := if erased then trie.size - 1 else trie.size
  return ⟨memory.heap, Function.update state.tries name ⟨size, memory.rootNodes⟩⟩

def step (state : State Name K V) : Operation Name K V → Option (State Name K V)
  | .insert name timeline key valuePtr => state.insert layout hash name timeline key valuePtr
  | .erase name timeline key => state.erase layout hash name timeline key
  | .copy source target =>
    some { state with tries := Function.update state.tries target (state.tries source) }

def run (state : State Name K V) (operations : List (Operation Name K V)) :
    Option (State Name K V) :=
  Runs.run (step layout hash) state operations

end State

end Voxen.Common.V8gHashTrie.Memory
