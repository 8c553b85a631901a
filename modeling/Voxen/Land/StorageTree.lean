import Voxen.Land.StorageTreeNodes

/-!
# The storage tree

Root items lead through two triquadtree levels and four duoctree levels to the
chunks.
-/

namespace Voxen.Land

open StorageTree StorageTreeUtils

namespace StorageTree

abbrev DuoctreeX4Node (D : Type) := DuoctreeNode (ChunkNode D) D
abbrev DuoctreeX16Node (D : Type) := DuoctreeNode (DuoctreeX4Node D) D
abbrev DuoctreeX64Node (D : Type) := DuoctreeNode (DuoctreeX16Node D) D
abbrev DuoctreeX256Node (D : Type) := DuoctreeNode (DuoctreeX64Node D) D
abbrev TriquadtreeBridgeNode (D : Type) := TriquadtreeNode (DuoctreeX256Node D)
abbrev TriquadtreeRootNode (D : Type) := TriquadtreeNode (TriquadtreeBridgeNode D)

variable {Ctx D : Type} (ctl : StorageTreeControl Ctx D)

def duoctreeX4Ops : NodeOps Ctx (DuoctreeX4Node D) D := duoctreeOps ctl 1 (chunkOps ctl)
def duoctreeX16Ops : NodeOps Ctx (DuoctreeX16Node D) D := duoctreeOps ctl 2 (duoctreeX4Ops ctl)
def duoctreeX64Ops : NodeOps Ctx (DuoctreeX64Node D) D := duoctreeOps ctl 3 (duoctreeX16Ops ctl)
def duoctreeX256Ops : NodeOps Ctx (DuoctreeX256Node D) D :=
  duoctreeOps ctl 4 (duoctreeX64Ops ctl)
def triquadtreeBridgeOps : NodeOps Ctx (TriquadtreeBridgeNode D) D :=
  triquadtreeOps true 5 (duoctreeX256Ops ctl)
def triquadtreeRootOps : NodeOps Ctx (TriquadtreeRootNode D) D :=
  triquadtreeOps false 6 (triquadtreeBridgeOps ctl)

/-- `STORAGE_TREE_ROOT_ITEMS_X * STORAGE_TREE_ROOT_ITEMS_Z`. -/
abbrev numRootItems : Nat :=
  Consts.storageTreeRootItemsX * Consts.storageTreeRootItemsZ

/-- `tree_path >> (64 - 8)`. -/
def rootIndex (treePath : BitVec 64) : Nat := (treePath >>> (64 - 8)).toNat

end StorageTree

/-- The container; an index beyond the root items is undefined behaviour. -/
structure StorageTree (D : Type) where
  rootItems : Nat → NodePtr (TriquadtreeRootNode D) := fun _ => {}

namespace StorageTree

variable {Ctx D : Type} (ctl : StorageTreeControl Ctx D)

def setRootItem (tree : StorageTree D) (index : Nat) (item : NodePtr (TriquadtreeRootNode D)) :
    StorageTree D :=
  { rootItems := Function.update tree.rootItems index item }

def access (heap : Heap Ctx) (treePath : BitVec 64) (tick : Int) (tree : StorageTree D) :
    Option (Heap Ctx × StorageTree D × Option D) :=
  let index := rootIndex treePath
  if index < numRootItems then
    let rootItem := tree.rootItems index
    let ops := triquadtreeRootOps ctl
    let prepared :=
      if rootItem.node.isNone then rootItem.init ops heap tick (calcRootItemMinCoord index)
      else rootItem.moo ops heap tick
    match prepared with
    | (heap, rootItem, false) => some (heap, tree.setRootItem index rootItem, none)
    | (heap, rootItem, true) => do
        let node ← rootItem.node
        let (heap, node, result) ← ops.access heap treePath tick node
        return (heap, tree.setRootItem index { rootItem with node := some node }, result)
  else none

def remove (heap : Heap Ctx) (treePath : BitVec 64) (tick : Int) (tree : StorageTree D) :
    Option (Heap Ctx × StorageTree D × Bool) :=
  let index := rootIndex treePath
  if index < numRootItems then
    let rootItem := tree.rootItems index
    let ops := triquadtreeRootOps ctl
    if rootItem.node.isNone then
      some (heap, tree, true)
    else
      match rootItem.moo ops heap tick with
      | (heap, rootItem, false) => some (heap, tree.setRootItem index rootItem, false)
      | (heap, rootItem, true) => do
          let node ← rootItem.node
          let (heap, node, returned) ← ops.remove heap treePath tick node
          let rootItem := { rootItem with node := some node }
          let rootItem := if returned ∧ ops.empty node then rootItem.reset else rootItem
          return (heap, tree.setRootItem index rootItem, returned)
  else none

def lookup (treePath : BitVec 64) (tree : StorageTree D) : Option (Option D) :=
  let index := rootIndex treePath
  if index < numRootItems then
    match (tree.rootItems index).node with
    | none => some none
    | some node => (triquadtreeRootOps ctl).lookup treePath node
  else none

end StorageTree

end Voxen.Land
