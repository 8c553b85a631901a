import Voxen.Land.CubeArray
import Voxen.Lib.CountedLoop
import Voxen.Lib.PackedArray

/-!
# Compressed chunk storage

`CompressedChunkStorage<T>` splits a 32-chunk into 64 nodes of 8x8x8 blocks and
every node into 64 leaves of 2x2x2 blocks.  Zero nodes are not stored, uniform
nodes keep one value, and the other nodes keep their mixed leaves followed by the
values of their uniform leaves packed eight to a leaf.
-/

namespace Voxen.Land

open PackedArray (popcount rank bit)

/-- The value types the template is instantiated for. -/
inductive BlockType where
  | uint8
  | uint16
  | uint32
deriving DecidableEq, Repr

/-- Width of a value type in bits. -/
def BlockType.width : BlockType → Nat
  | .uint8 => 8
  | .uint16 => 16
  | .uint32 => 32

theorem BlockType.width_le (type : BlockType) : type.width ≤ 64 := by
  cases type <;> decide

/-- Number of blocks along one axis of a chunk. -/
abbrev chunkSizeBlocks : Nat := 32

instance (priority := 2000) borderedSize : NeZero (chunkSizeBlocks + 2) := ⟨by decide⟩

instance (priority := 2000) doubledSize : NeZero (chunkSizeBlocks + chunkSizeBlocks + 1) :=
  ⟨by decide⟩

/-- A plain array of chunk values. -/
abbrev Expanded (w : Nat) := CubeArray (BitVec w) chunkSizeBlocks

/-- Node bases are aligned to 8 blocks. -/
def nodeBaseOffset (i : Nat) : UVec3 where
  x := (i &&& 0b001100) <<< 1
  y := (i &&& 0b110000) >>> 1
  z := (i &&& 0b000011) <<< 3

/-- Leaf bases are aligned to 2 blocks. -/
def leafBaseOffset (base : UVec3) (i : Nat) : UVec3 where
  x := base.x + (i &&& 0b001100) >>> 1
  y := base.y + (i &&& 0b110000) >>> 3
  z := base.z + (i &&& 0b000011) <<< 1

/-- Eight values, either of one mixed leaf or of eight uniform ones. -/
abbrev Leaf (w : Nat) := Fin 8 → BitVec w

/-- `std::bit_cast<Leaf>(leaf_cube)`; cubes are stored in YXZ order. -/
def Leaf.ofCube {w : Nat} (cube : CubeArray (BitVec w) 2) : Leaf w :=
  fun j => cube.load (j.val / 2 % 2) (j.val / 4) (j.val % 2)

/-- `std::bit_cast<CubeArray<T, 2>>(leaf)`. -/
def Leaf.toCube {w : Nat} (leaf : Leaf w) : CubeArray (BitVec w) 2 :=
  fun y x z => leaf (Fin.ofNat 8 (4 * y.val + 2 * x.val + z.val))

/-- The loop comparing every value of a leaf with its first one. -/
def Leaf.uniform {w : Nat} (leaf : Leaf w) : Bool :=
  decide (∀ j, leaf j = leaf 0)

/-- Value held in the low bytes of a mask word, as the unions overlay them. -/
def unionValue (w : Nat) (word : BitVec 64) : BitVec w := word.setWidth w

/-- Overwrite the value overlaid on the low bytes of a mask word. -/
def setUnionValue {w : Nat} (word : BitVec 64) (value : BitVec w) : BitVec 64 :=
  (word >>> w <<< w) ||| value.setWidth 64

structure Node (w : Nat) where
  /-- Union of `nonuniform_leaf_mask` and `uniform_value`. -/
  word : BitVec 64 := 0
  leaves : Option (List (Leaf w)) := none

namespace Node

variable {w : Nat}

def nonuniformLeafMask (node : Node w) : BitVec 64 := node.word

def uniformValue (node : Node w) : BitVec w := unionValue w node.word

def uniform (node : Node w) : Bool := node.leaves.isNone

end Node

/-- Leaf pointed to by `leaves + index`. -/
def leafAt {w : Nat} (leaves : List (Leaf w)) (index : Nat) : Leaf w :=
  leaves.getD index fun _ => 0

/-- `*(leaves[base].data + offset)`, running over the following leaves. -/
def packedValueAt {w : Nat} (leaves : List (Leaf w)) (base offset : Nat) : BitVec w :=
  leafAt leaves (base + offset / 8) (Fin.ofNat 8 offset)

/-- `*(leaves[base].data + offset) = value`. -/
def storePackedValue {w : Nat} (leaves : List (Leaf w)) (base offset : Nat)
    (value : BitVec w) : List (Leaf w) :=
  leaves.modify (base + offset / 8) fun leaf => Function.update leaf (Fin.ofNat 8 offset) value

structure CompressedChunkStorage (w : Nat) where
  /-- Union of `m_nonzero_node_mask` and `m_uniform_value`. -/
  word : BitVec 64 := 0
  nodes : Option (List (Node w)) := none

namespace CompressedChunkStorage

variable {w : Nat}

def uniform (storage : CompressedChunkStorage w) : Bool := storage.nodes.isNone

/-! ## Compression -/

/-- Locals of `construct_node` after some of its leaves were gathered. -/
structure GatherState (w : Nat) where
  nonuniformLeafMask : BitVec 64 := 0
  nodeUniformValue : BitVec w := 0
  metUniformLeaf : Bool := false
  wholeNodeUniform : Bool := true

/-- Gather the values of leaf `i` of the node with base `base`. -/
def gatherLeaf (expanded : Expanded w) (base : UVec3) (i : Nat) : Leaf w :=
  Leaf.ofCube (expanded.extractTo (leafBaseOffset base i) 2)

/-- First loop of `construct_node`: classify leaf `i`. -/
def gatherStep (expanded : Expanded w) (base : UVec3) (state : GatherState w)
    (i : Nat) : GatherState w :=
  let leaf := gatherLeaf expanded base i
  if !leaf.uniform then
    { state with
      nonuniformLeafMask := state.nonuniformLeafMask ||| bit 64 i
      wholeNodeUniform := false }
  else if !state.metUniformLeaf then
    { state with nodeUniformValue := leaf 0, metUniformLeaf := true }
  else if state.nodeUniformValue != leaf 0 then
    { state with wholeNodeUniform := false }
  else state

/-- Leaf storage and the two output cursors of `construct_node`. -/
structure PackState (w : Nat) where
  leaves : List (Leaf w)
  outputNonuniform : Nat := 0
  outputUniform : Nat := 0

/-- Second loop of `construct_node`: store leaf `i` behind its cursor. -/
def packStep (expanded : Expanded w) (base : UVec3) (mask : BitVec 64)
    (state : PackState w) (i : Nat) : PackState w :=
  let leaf := gatherLeaf expanded base i
  if mask &&& bit 64 i ≠ 0#64 then
    { state with
      leaves := state.leaves.set state.outputNonuniform leaf
      outputNonuniform := state.outputNonuniform + 1 }
  else
    { state with
      leaves := storePackedValue state.leaves (popcount mask) state.outputUniform (leaf 0)
      outputUniform := state.outputUniform + 1 }

/-- `construct_node(index, output)`; `none` stands for a returned `false`. -/
def constructNode (expanded : Expanded w) (index : Nat) (output : Node w) : Option (Node w) :=
  let base := nodeBaseOffset index
  let gathered := CountedLoop.run 64 {} (gatherStep expanded base)
  if gathered.wholeNodeUniform && gathered.nodeUniformValue == 0 then none
  else if gathered.wholeNodeUniform then
    some { output with word := setUnionValue output.word gathered.nodeUniformValue }
  else
    let mask := gathered.nonuniformLeafMask
    let numNonuniformLeaves := popcount mask
    let numUniformLeaves := (64 - numNonuniformLeaves + 7) / 8
    let allocated : List (Leaf w) :=
      List.replicate (numNonuniformLeaves + numUniformLeaves) fun _ => 0
    let packed := CountedLoop.run 64 { leaves := allocated } (packStep expanded base mask)
    some { output with word := mask, leaves := some packed.leaves }

/-- Locals of the constructor after some of the nodes were constructed. -/
structure CompressState (w : Nat) where
  nonzeroNodeMask : BitVec 64 := 0
  /-- The used prefix of the local `nodes` array. -/
  nodes : List (Node w) := []
  chunkUniformValue : BitVec w := 0
  metUniformNode : Bool := false
  wholeChunkUniform : Bool := true

def compressStep (expanded : Expanded w) (state : CompressState w) (i : Nat) :
    CompressState w :=
  match constructNode expanded i {} with
  | none =>
    { state with
      metUniformNode := true
      wholeChunkUniform :=
        if state.chunkUniformValue != 0 then false else state.wholeChunkUniform }
  | some node =>
    let state :=
      if !node.uniform then { state with wholeChunkUniform := false }
      -- `met_uniform_node` stays clear here, only a zero node sets it
      else if !state.metUniformNode then { state with chunkUniformValue := node.uniformValue }
      else if state.chunkUniformValue != node.uniformValue then
        { state with wholeChunkUniform := false }
      else state
    { state with
      nonzeroNodeMask := state.nonzeroNodeMask ||| bit 64 i
      nodes := state.nodes ++ [node] }

/-- `CompressedChunkStorage(ConstExpandedView expanded)`. -/
def compress (expanded : Expanded w) : CompressedChunkStorage w :=
  let state := CountedLoop.run 64 {} (compressStep expanded)
  if state.wholeChunkUniform then
    { word := setUnionValue state.nonzeroNodeMask state.chunkUniformValue, nodes := none }
  else
    { word := state.nonzeroNodeMask, nodes := some state.nodes }

/-! ## Decompression -/

/-- Output view and leaf cursors of the inner loop of `expand`. -/
structure LeafExpandState (w : Nat) where
  view : Expanded w
  nonuniformLeaf : Nat := 0
  uniformLeaf : Nat := 0

def expandLeafStep (base : UVec3) (mask : BitVec 64) (leaves : List (Leaf w))
    (state : LeafExpandState w) (j : Nat) : LeafExpandState w :=
  let leafBase := leafBaseOffset base j
  if mask &&& bit 64 j ≠ 0#64 then
    { state with
      view := state.view.fillFrom leafBase (leafAt leaves state.nonuniformLeaf).toCube
      nonuniformLeaf := state.nonuniformLeaf + 1 }
  else
    { state with
      view := state.view.fill leafBase 2
        (packedValueAt leaves (popcount mask) state.uniformLeaf)
      uniformLeaf := state.uniformLeaf + 1 }

/-- What the outer loop of `expand` writes for one stored node. -/
def expandNode (node : Node w) (base : UVec3) (view : Expanded w) : Expanded w :=
  match node.leaves with
  | none => view.fill base 8 node.uniformValue
  | some leaves =>
    (CountedLoop.run 64 { view := view }
      (expandLeafStep base node.nonuniformLeafMask leaves)).view

/-- Output view and node cursor of the outer loop of `expand`. -/
structure ExpandState (w : Nat) where
  view : Expanded w
  node : Nat := 0

def expandStep (mask : BitVec 64) (nodes : List (Node w)) (state : ExpandState w)
    (i : Nat) : ExpandState w :=
  let base := nodeBaseOffset i
  if mask &&& bit 64 i = 0#64 then
    { state with view := state.view.fill base 8 0 }
  else
    { view := expandNode (nodes.getD state.node {}) base state.view, node := state.node + 1 }

/-- `expand(view)`. -/
def expand (storage : CompressedChunkStorage w) (view : Expanded w) : Expanded w :=
  match storage.nodes with
  | none => view.fill ⟨0, 0, 0⟩ chunkSizeBlocks (unionValue w storage.word)
  | some nodes =>
    (CountedLoop.run 64 { view := view } (expandStep storage.word nodes)).view

/-- `setUniform(value)`. -/
def setUniform (storage : CompressedChunkStorage w) (value : BitVec w) :
    CompressedChunkStorage w :=
  { word := setUnionValue storage.word value, nodes := none }

/-- Element of a stored node, by leaf number and position inside the leaf. -/
def loadNode (node : Node w) (leafId elementId : Nat) : BitVec w :=
  match node.leaves with
  | none => node.uniformValue
  | some leaves =>
    let mask := node.nonuniformLeafMask
    let leafBit := bit 64 leafId
    let leafTailMask := leafBit - 1#64
    if mask &&& leafBit ≠ 0#64 then
      leafAt leaves (popcount (mask &&& leafTailMask)) (Fin.ofNat 8 elementId)
    else
      packedValueAt leaves (popcount mask) (popcount (~~~mask &&& leafTailMask))

/-- `load(x, y, z)`. -/
def load (storage : CompressedChunkStorage w) (x y z : Nat) : BitVec w :=
  match storage.nodes with
  | none => unionValue w storage.word
  | some nodes =>
    let nodeId := z / 8 + (x / 8) * 4 + (y / 8) * 16
    let nodeBit := bit 64 nodeId
    let nodeTailMask := nodeBit - 1#64
    if storage.word &&& nodeBit = 0#64 then 0
    else
      let node := nodes.getD (popcount (storage.word &&& nodeTailMask)) {}
      loadNode node (z % 8 / 2 + (x % 8 / 2) * 4 + (y % 8 / 2) * 16)
        (z % 2 + (x % 2) * 2 + (y % 2) * 4)

end CompressedChunkStorage

end Voxen.Land
