import Voxen.Land.StorageTreeUtils
import Voxen.Lib.PackedSlots

/-!
# Nodes of the storage tree

Node pointers carry the tick their node was made at; a node is copied when it is
reached with a newer tick.  The node templates are parametrised by the
operations of their child type, as the source's are by `TChild`.
-/

namespace Voxen.Land.StorageTree

open PackedArray (popcount)
open StorageTreeUtils

/-- What user constructors and the allocator change: the context behind
`user_fn_ctx`, and the next free address. -/
structure Heap (Ctx : Type) where
  ctx : Ctx
  freeAddress : Nat := 0

/-- The constructors of `StorageTreeControl`.  They may throw, which is `none`. -/
structure StorageTreeControl (Ctx D : Type) where
  chunkUserDataDefaultCtor : Ctx → ChunkKey → Ctx × Option D
  chunkUserDataCopyCtor : Ctx → ChunkKey → D → Ctx × Option D
  duoctreeUserDataDefaultCtor : Ctx → ChunkKey → Ctx × Option D
  duoctreeUserDataCopyCtor : Ctx → ChunkKey → D → Ctx × Option D

/-- `StorageTreeNodePtr`; a default-constructed one is null with an invalid tick. -/
structure NodePtr (N : Type) where
  tick : Int := -1
  node : Option N := none

/-- The operations of a node type that its parent and its pointers use.
An outer `none` is undefined behaviour; `access` returns the user data block or
`none` if a user constructor threw, `remove` whether it returned normally. -/
structure NodeOps (Ctx N D : Type) where
  /-- `NODE_SIZE_CHUNKS` -/
  nodeSizeChunks : Nat
  /-- The node's constructor and that of its user data. -/
  create : Heap Ctx → IVec3 → Heap Ctx × Option N
  /-- The node's copy constructor and that of its user data. -/
  copy : Heap Ctx → N → Heap Ctx × Option N
  empty : N → Bool
  access : Heap Ctx → BitVec 64 → Int → N → Option (Heap Ctx × N × Option D)
  remove : Heap Ctx → BitVec 64 → Int → N → Option (Heap Ctx × N × Bool)
  lookup : BitVec 64 → N → Option (Option D)

variable {Ctx N C D : Type}

namespace NodePtr

variable (ops : NodeOps Ctx N D)

/-- `init`: the pointer stays as it was if a constructor throws. -/
def init (heap : Heap Ctx) (tick : Int) (minCoord : IVec3) (ptr : NodePtr N) :
    Heap Ctx × NodePtr N × Bool :=
  match ops.create heap minCoord with
  | (heap, none) => (heap, ptr, false)
  | (heap, some node) => (heap, { tick := tick, node := some node }, true)

/-- `moo`: copy the node if it is older than `tick`. -/
def moo (heap : Heap Ctx) (tick : Int) (ptr : NodePtr N) : Heap Ctx × NodePtr N × Bool :=
  if ptr.tick ≥ tick then
    (heap, ptr, true)
  else
    match ptr.node with
    | none => (heap, { ptr with tick := tick }, true)
    | some node =>
      match ops.copy heap node with
      | (heap, none) => (heap, ptr, false)
      | (heap, some node) => (heap, { tick := tick, node := some node }, true)

/-- `reset`; the tick stays. -/
def reset (ptr : NodePtr N) : NodePtr N :=
  { ptr with node := none }

end NodePtr

/-! ## Slots of child pointers -/

/-- `constructItem`.  The storage has `capacity` slots; behind them is other memory. -/
def constructItem (capacity : Nat) (storage : Nat → NodePtr C) (storageIndex afterCount : Nat) :
    Option (Nat → NodePtr C) :=
  if storageIndex + afterCount < capacity then
    some (PackedSlots.openGap storage storageIndex afterCount {})
  else none

/-- `removeItem`: moves `afterCount` items from behind the removed one. -/
def removeItem (capacity : Nat) (storage : Nat → NodePtr C) (storageIndex afterCount : Nat) :
    Option (Nat → NodePtr C) :=
  if storageIndex + afterCount < capacity then
    some (PackedSlots.closeGap storage storageIndex afterCount)
  else none

/-- `child->access(...)` through the pointer in a slot. -/
def accessThrough (child : NodeOps Ctx C D) (heap : Heap Ctx) (treePath : BitVec 64)
    (tick : Int) (storage : Nat → NodePtr C) (storageIndex : Nat) (ptr : NodePtr C) :
    Option (Heap Ctx × (Nat → NodePtr C) × Option D) := do
  let node ← ptr.node
  let (heap, node, result) ← child.access heap treePath tick node
  return (heap, Function.update storage storageIndex { ptr with node := some node }, result)

/-- The part of `access` both node templates share, once the slot is found:
the child is copied or constructed and accessed.  Returns the storage, whether
the bit of the child is set now, and the result. -/
def accessItem (child : NodeOps Ctx C D) (capacity : Nat) (heap : Heap Ctx)
    (treePath : BitVec 64) (tick : Int) (minCoord : IVec3) (storage : Nat → NodePtr C)
    (storageIndex afterCount : Nat) (present : Bool) :
    Option (Heap Ctx × (Nat → NodePtr C) × Bool × Option D) :=
  if present then
    match (storage storageIndex).moo child heap tick with
    | (heap, _, false) => some (heap, storage, true, none)
    | (heap, ptr, true) => do
        let (heap, storage, result) ←
          accessThrough child heap treePath tick storage storageIndex ptr
        return (heap, storage, true, result)
  else do
    let storage ← constructItem capacity storage storageIndex afterCount
    match (storage storageIndex).init child heap tick minCoord with
    | (heap, ptr, false) =>
      let storage ← removeItem capacity (Function.update storage storageIndex ptr)
        storageIndex afterCount
      return (heap, storage, false, none)
    | (heap, ptr, true) =>
      let (heap, storage, result) ←
        accessThrough child heap treePath tick storage storageIndex ptr
      return (heap, storage, true, result)

/-- The part of `remove` both node templates share: the child is copied, the key
removed below it, and the child itself removed if that leaves it empty.
`afterCount` includes the child.  Returns the storage, whether the child was
removed, and whether the call returned normally. -/
def removeBelowItem (child : NodeOps Ctx C D) (capacity : Nat) (heap : Heap Ctx)
    (treePath : BitVec 64) (tick : Int) (storage : Nat → NodePtr C)
    (storageIndex afterCount : Nat) :
    Option (Heap Ctx × (Nat → NodePtr C) × Bool × Bool) :=
  match (storage storageIndex).moo child heap tick with
  | (heap, _, false) => some (heap, storage, false, false)
  | (heap, ptr, true) => do
      let node ← ptr.node
      let (heap, node, returned) ← child.remove heap treePath tick node
      let ptr := { ptr with node := some node }
      if returned ∧ child.empty node then
        let storage ← removeItem capacity
          (Function.update storage storageIndex ptr.reset) storageIndex afterCount
        return (heap, storage, true, true)
      else
        return (heap, Function.update storage storageIndex ptr, false, returned)

/-- `child->lookup(...)` through the pointer in a slot. -/
def lookupThrough (child : NodeOps Ctx C D) (treePath : BitVec 64) (ptr : NodePtr C) :
    Option (Option D) := do
  let node ← ptr.node
  child.lookup treePath node

/-! ## Chunk nodes -/

/-- `ChunkNode`, with the user data block behind it. -/
structure ChunkNode (D : Type) where
  address : Nat
  key : ChunkKey
  userData : D

/-- Chunk nodes have no operations of their own: a parent that holds chunks uses
their user data directly and removes them unconditionally. -/
def chunkOps (ctl : StorageTreeControl Ctx D) : NodeOps Ctx (ChunkNode D) D where
  nodeSizeChunks := 1
  create heap minCoord :=
    let key := ChunkKey.ofBase minCoord
    let (ctx, data) := ctl.chunkUserDataDefaultCtor heap.ctx key
    ({ ctx := ctx, freeAddress := heap.freeAddress + 1 },
      data.map fun data => { address := heap.freeAddress, key := key, userData := data })
  copy heap node :=
    let (ctx, data) := ctl.chunkUserDataCopyCtor heap.ctx node.key node.userData
    ({ ctx := ctx, freeAddress := heap.freeAddress + 1 },
      data.map fun data => { node with address := heap.freeAddress, userData := data })
  empty _ := true
  access heap _ _ node := some (heap, node, some node.userData)
  remove heap _ _ node := some (heap, node, true)
  lookup _ node := some (some node.userData)

/-! ## Duoctree nodes -/

/-- `DuoctreeNodeBase<TChild>`, with the user data block behind it. -/
structure DuoctreeNode (C D : Type) where
  address : Nat
  liveKeyMask : BitVec 32
  key : ChunkKey
  childMask : BitVec 64
  storage : Nat → NodePtr C
  userData : D

namespace DuoctreeNode

/-- The copy constructor.  It does not name the base class, so `NodeBase()` runs
and the live key mask starts at zero. -/
def copyNode (address : Nat) (data : D) (other : DuoctreeNode C D) : DuoctreeNode C D where
  address := address
  liveKeyMask := 0
  key := other.key
  childMask := other.childMask
  storage i := if i < popcount other.childMask then other.storage i else {}
  userData := data

def empty (node : DuoctreeNode C D) : Bool :=
  node.liveKeyMask = 0#32 ∧ node.childMask = 0#64

/-- Slot index of the child a component selects. -/
def storageIndex (node : DuoctreeNode C D) (childBit : BitVec 64) : Nat :=
  popcount (node.childMask &&& (childBit - 1#64))

def afterCount (node : DuoctreeNode C D) (childBit : BitVec 64) : Nat :=
  popcount (node.childMask &&& ~~~(childBit - 1#64))

variable (child : NodeOps Ctx C D) (level : Nat)

/-- `access`, at the level `TREE_PATH_BYTE`. -/
def access (heap : Heap Ctx) (treePath : BitVec 64) (tick : Int) (node : DuoctreeNode C D) :
    Option (Heap Ctx × DuoctreeNode C D × Option D) :=
  let component := extractNodePathComponent level treePath
  let childBit := extractNodePathChildBit component
  if extractNodePathStopBit component then
    let mask := node.liveKeyMask ||| extractNodeKeyMaskBit treePath component
    some (heap, { node with liveKeyMask := mask }, some node.userData)
  else do
    let minCoord := calcDuoctreeChildMinCoord child.nodeSizeChunks node.key component
    let (heap, storage, set, result) ←
      accessItem child 64 heap treePath tick minCoord node.storage
        (node.storageIndex childBit) (node.afterCount childBit)
        (node.childMask &&& childBit ≠ 0#64)
    let mask := if set then node.childMask ||| childBit else node.childMask
    return (heap, { node with storage := storage, childMask := mask }, result)

def remove (heap : Heap Ctx) (treePath : BitVec 64) (tick : Int) (node : DuoctreeNode C D) :
    Option (Heap Ctx × DuoctreeNode C D × Bool) :=
  let component := extractNodePathComponent level treePath
  let childBit := extractNodePathChildBit component
  if extractNodePathStopBit component then
    let mask := node.liveKeyMask &&& ~~~(extractNodeKeyMaskBit treePath component)
    some (heap, { node with liveKeyMask := mask }, true)
  else if node.childMask &&& childBit = 0#64 then
    some (heap, node, true)
  else do
    let (heap, storage, removed, returned) ←
      removeBelowItem child 64 heap treePath tick node.storage
        (node.storageIndex childBit) (node.afterCount childBit)
    let mask := if removed then node.childMask ^^^ childBit else node.childMask
    return (heap, { node with storage := storage, childMask := mask }, returned)

def lookup (treePath : BitVec 64) (node : DuoctreeNode C D) : Option (Option D) :=
  let component := extractNodePathComponent level treePath
  let childBit := extractNodePathChildBit component
  if extractNodePathStopBit component then
    if node.liveKeyMask &&& extractNodeKeyMaskBit treePath component ≠ 0#32 then
      some (some node.userData)
    else some none
  else if node.childMask &&& childBit = 0#64 then
    some none
  else
    lookupThrough child treePath (node.storage (node.storageIndex childBit))

end DuoctreeNode

/-- A duoctree node type over its child type; `level` is its byte in the path. -/
def duoctreeOps (ctl : StorageTreeControl Ctx D) (level : Nat) (child : NodeOps Ctx C D) :
    NodeOps Ctx (DuoctreeNode C D) D where
  nodeSizeChunks := 4 * child.nodeSizeChunks
  create heap minCoord :=
    let key := ChunkKey.ofBase minCoord (2 * level)
    let (ctx, data) := ctl.duoctreeUserDataDefaultCtor heap.ctx key
    ({ ctx := ctx, freeAddress := heap.freeAddress + 1 },
      data.map fun data => {
        address := heap.freeAddress
        liveKeyMask := 0
        key := key
        childMask := 0
        storage := fun _ => {}
        userData := data })
  copy heap node :=
    let (ctx, data) := ctl.duoctreeUserDataCopyCtor heap.ctx node.key node.userData
    ({ ctx := ctx, freeAddress := heap.freeAddress + 1 },
      data.map fun data => node.copyNode heap.freeAddress data)
  empty := DuoctreeNode.empty
  access := DuoctreeNode.access child level
  remove := DuoctreeNode.remove child level
  lookup := DuoctreeNode.lookup child level

/-! ## Triquadtree nodes -/

/-- `TriquadtreeNodeBase<HILO, TChild>`.  The second mask is used if `HILO` only. -/
structure TriquadtreeNode (C : Type) where
  address : Nat
  minX : BitVec 32
  minZ : BitVec 32
  childMask : BitVec 64
  childMaskHigh : BitVec 64
  storage : Nat → NodePtr C

namespace TriquadtreeNode

/-- The copy constructor. -/
def copyNode (address : Nat) (other : TriquadtreeNode C) : TriquadtreeNode C :=
  { other with
    address := address
    storage := fun i =>
      if i < popcount other.childMask + popcount other.childMaskHigh then other.storage i
      else {} }

def empty (node : TriquadtreeNode C) : Bool :=
  node.childMask = 0#64 ∧ node.childMaskHigh = 0#64

/-- The mask a component selects: the second one for negative Y if `HILO`. -/
def mask (node : TriquadtreeNode C) (high : Bool) : BitVec 64 :=
  if high then node.childMaskHigh else node.childMask

def setMask (node : TriquadtreeNode C) (high : Bool) (mask : BitVec 64) : TriquadtreeNode C :=
  if high then { node with childMaskHigh := mask } else { node with childMask := mask }

/-- Slot index of a child: items of the second mask follow those of the first. -/
def storageIndex (node : TriquadtreeNode C) (high : Bool) (childBit : BitVec 64) : Nat :=
  (if high then popcount node.childMask else 0) +
    popcount (node.mask high &&& (childBit - 1#64))

def afterCount (node : TriquadtreeNode C) (hilo high : Bool) (childBit : BitVec 64) : Nat :=
  (if hilo ∧ ¬ high then popcount node.childMaskHigh else 0) +
    popcount (node.mask high &&& ~~~(childBit - 1#64))

variable (child : NodeOps Ctx C D) (hilo : Bool) (level : Nat)

/-- `64 * NUM_MASKS`. -/
def capacity : Nat := if hilo then 128 else 64

def access (heap : Heap Ctx) (treePath : BitVec 64) (tick : Int) (node : TriquadtreeNode C) :
    Option (Heap Ctx × TriquadtreeNode C × Option D) := do
  let component := extractNodePathComponent level treePath
  let childBit := extractNodePathChildBit component
  let high := hilo && triquadtreeYNegative component
  let minCoord :=
    calcTriquadtreeChildMinCoord child.nodeSizeChunks node.minX node.minZ component
  let (heap, storage, set, result) ←
    accessItem child (capacity hilo) heap treePath tick minCoord node.storage
      (node.storageIndex high childBit) (node.afterCount hilo high childBit)
      (node.mask high &&& childBit ≠ 0#64)
  let mask := if set then node.mask high ||| childBit else node.mask high
  return (heap, { node.setMask high mask with storage := storage }, result)

def remove (heap : Heap Ctx) (treePath : BitVec 64) (tick : Int) (node : TriquadtreeNode C) :
    Option (Heap Ctx × TriquadtreeNode C × Bool) :=
  let component := extractNodePathComponent level treePath
  let childBit := extractNodePathChildBit component
  let high := hilo && triquadtreeYNegative component
  if node.mask high &&& childBit = 0#64 then
    some (heap, node, true)
  else do
    let (heap, storage, removed, returned) ←
      removeBelowItem child (capacity hilo) heap treePath tick node.storage
        (node.storageIndex high childBit) (node.afterCount hilo high childBit)
    let mask := if removed then node.mask high ^^^ childBit else node.mask high
    return (heap, { node.setMask high mask with storage := storage }, returned)

def lookup (treePath : BitVec 64) (node : TriquadtreeNode C) : Option (Option D) :=
  let component := extractNodePathComponent level treePath
  let childBit := extractNodePathChildBit component
  let high := hilo && triquadtreeYNegative component
  if node.mask high &&& childBit = 0#64 then
    some none
  else
    lookupThrough child treePath (node.storage (node.storageIndex high childBit))

end TriquadtreeNode

/-- A triquadtree node type over its child type. -/
def triquadtreeOps (hilo : Bool) (level : Nat) (child : NodeOps Ctx C D) :
    NodeOps Ctx (TriquadtreeNode C) D where
  nodeSizeChunks := 8 * child.nodeSizeChunks
  create heap minCoord :=
    ({ heap with freeAddress := heap.freeAddress + 1 },
      some {
        address := heap.freeAddress
        minX := minCoord.x
        minZ := minCoord.z
        childMask := 0
        childMaskHigh := 0
        storage := fun _ => {} })
  copy heap node :=
    ({ heap with freeAddress := heap.freeAddress + 1 },
      some (node.copyNode heap.freeAddress))
  empty := TriquadtreeNode.empty
  access := TriquadtreeNode.access child hilo level
  remove := TriquadtreeNode.remove child hilo level
  lookup := TriquadtreeNode.lookup child hilo level

end Voxen.Land.StorageTree
