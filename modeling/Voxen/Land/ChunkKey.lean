import Mathlib.Data.BitVec
import Voxen.Lib.FinSizes

/-!
# Chunk keys

A chunk key packs the base of a chunk in chunk coordinates and its scale into
64 bits.
-/

namespace Voxen.Land

/-- `glm::ivec3`. -/
structure IVec3 where
  x : BitVec 32
  y : BitVec 32
  z : BitVec 32
  deriving DecidableEq

/-- The bit fields of `ChunkKey`: `CHUNK_KEY_SCALE_BITS`, `CHUNK_KEY_XZ_BITS` and
`CHUNK_KEY_Y_BITS` wide, coordinates signed. -/
structure ChunkKey where
  scaleLog2 : BitVec 4
  x : BitVec 22
  y : BitVec 16
  z : BitVec 22
  deriving DecidableEq

namespace Consts

/-- `NUM_LOD_SCALES`. -/
abbrev numLodScales : Nat := 9

/-- `MAX_GENERATABLE_LOD`. -/
abbrev maxGeneratableLod : Nat := numLodScales - 3

/-- `STORAGE_TREE_ROOT_ITEM_SIZE_CHUNKS`. -/
abbrev storageTreeRootItemSizeChunks : Nat := 2 ^ (numLodScales - 1 + 3 + 3)

/-- `STORAGE_TREE_ROOT_ITEMS_X`. -/
abbrev storageTreeRootItemsX : Nat := 24

/-- `STORAGE_TREE_ROOT_ITEMS_Z`. -/
abbrev storageTreeRootItemsZ : Nat := 4

/-- `MIN_WORLD_Y_CHUNK`. -/
abbrev minWorldYChunk : Int := -2 ^ (numLodScales - 1)

/-- `MAX_WORLD_Y_CHUNK`. -/
abbrev maxWorldYChunk : Int := -minWorldYChunk - 1

/-- `MIN_UNIQUE_WORLD_X_CHUNK`. -/
abbrev minUniqueWorldXChunk : Int :=
  -(storageTreeRootItemSizeChunks * storageTreeRootItemsX / 2)

/-- `MIN_UNIQUE_WORLD_Z_CHUNK`. -/
abbrev minUniqueWorldZChunk : Int :=
  -(storageTreeRootItemSizeChunks * storageTreeRootItemsZ / 2)

end Consts

namespace ChunkKey

/-- The constructor from a base position; every component is cut to its field. -/
def ofBase (base : IVec3) (scaleLog2 : Nat := 0) : ChunkKey where
  scaleLog2 := BitVec.ofNat 4 scaleLog2
  x := base.x.setWidth 22
  y := base.y.setWidth 16
  z := base.z.setWidth 22

/-- `base()`. -/
def base (key : ChunkKey) : IVec3 where
  x := key.x.signExtend 32
  y := key.y.signExtend 32
  z := key.z.signExtend 32

end ChunkKey

end Voxen.Land
