import Voxen.Land.ChunkKey
import Voxen.Lib.CountedLoop
import Voxen.Lib.PackedArray

/-!
# Tree paths of chunk keys

A tree path holds one byte for each level of the storage tree, the root index in
the highest one.  The stop bit marks the byte of the level a key lives at, the
subnode bit says that it has an odd scale there.
-/

namespace Voxen.Land.StorageTreeUtils

open PackedArray (rank bit)

/-- One step of `_pdep_u64`: a set position of the mask takes the next source bit. -/
def pdepStep (source mask : BitVec 64) (state : BitVec 64 × Nat) (i : Nat) : BitVec 64 × Nat :=
  if mask.getLsbD i then
    (if source.getLsbD state.2 then state.1 ||| bit 64 i else state.1, state.2 + 1)
  else state

/-- `_pdep_u64`: the bits of `source` go to the set positions of `mask` in order. -/
def pdep (source mask : BitVec 64) : BitVec 64 :=
  (CountedLoop.run 64 (0#64, 0) (pdepStep source mask)).1

def xMask : BitVec 64 :=
  0b00000000_00101010_00101010_00010010_00010010_00010010_00010010_00000000#64

def yMask : BitVec 64 :=
  0b00000000_00000000_01000000_00100100_00100100_00100100_00100100_00000000#64

def zMask : BitVec 64 :=
  0b00000000_00010101_00010101_00001001_00001001_00001001_00001001_00000000#64

theorem getLsbD_pdep (source mask : BitVec 64) (i : Nat) :
    (pdep source mask).getLsbD i = (mask.getLsbD i && source.getLsbD (rank mask i)) := by
  have final := CountedLoop.run_invariant 64 (0#64, 0) (pdepStep source mask)
    (fun n state => state.2 = rank mask n ∧ ∀ j, state.1.getLsbD j =
      (decide (j < n) && (mask.getLsbD j && source.getLsbD (rank mask j))))
    ⟨rfl, fun j => by simp⟩ (by
      rintro n ⟨result, next⟩ hn ⟨position, bits⟩
      dsimp only at position bits
      subst position
      refine ⟨?_, fun j => ?_⟩
      · rw [PackedArray.rank_succ]
        cases set : mask.getLsbD n <;> simp [pdepStep, set]
      · rcases Nat.lt_trichotomy j n with before | here | after
        · have apart : n ≠ j := by omega
          cases set : mask.getLsbD n <;> cases taken : source.getLsbD (rank mask n) <;>
            simp [pdepStep, set, taken, bits, PackedArray.getLsbD_or_bit _ hn, apart, before,
              Nat.lt_succ_of_lt before]
        · subst here
          cases set : mask.getLsbD j <;> cases taken : source.getLsbD (rank mask j) <;>
            simp [pdepStep, set, taken, bits, PackedArray.getLsbD_or_bit _ hn]
        · have apart : n ≠ j := by omega
          cases set : mask.getLsbD n <;> cases taken : source.getLsbD (rank mask n) <;>
            simp [pdepStep, set, taken, bits, PackedArray.getLsbD_or_bit _ hn, apart,
              show ¬ j < n by omega, show ¬ j < n + 1 by omega])
  have value := final.2 i
  change (pdep source mask).getLsbD i = _ at value
  by_cases inside : i < 64
  · simpa [inside] using value
  · have outside : mask.getLsbD i = false := BitVec.getLsbD_of_ge _ _ (by omega)
    simpa [outside] using value

/-- Coordinate wrapped around a world of the given size, the origin in its middle. -/
def wrapped (coordinate : Int) (world : Nat) : Int :=
  let shifted := (coordinate + world / 2).tmod world
  if shifted < 0 then shifted + world else shifted

/-- The root item selector, in the highest byte of the path. -/
def rootSelector (x z : Int) : BitVec 64 :=
  let worldX := Consts.storageTreeRootItemSizeChunks * Consts.storageTreeRootItemsX
  let worldZ := Consts.storageTreeRootItemSizeChunks * Consts.storageTreeRootItemsZ
  let xRoot := (wrapped x worldX).toNat / Consts.storageTreeRootItemSizeChunks
  let zRoot := (wrapped z worldZ).toNat / Consts.storageTreeRootItemSizeChunks
  BitVec.ofNat 64 (xRoot * Consts.storageTreeRootItemsZ + zRoot) <<< (64 - 8)

/-- `_bextr_u32(source, start, 1)` widened to 64 bits. -/
def bitAt (source : BitVec 32) (start : Nat) : BitVec 64 :=
  ((source >>> start) &&& 1#32).setWidth 64

def keyToTreePath (key : ChunkKey) : Option (BitVec 64) :=
  let x := key.x.signExtend 32
  let y := key.y.signExtend 32
  let z := key.z.signExtend 32
  let scale := key.scaleLog2.toNat
  if y.toInt < Consts.minWorldYChunk ∨ y.toInt > Consts.maxWorldYChunk then
    none
  else if scale > 8 then
    -- larger than `DuoctreeLargestNode::NODE_SCALE_LOG2`
    none
  else if (x ||| y ||| z) &&& (1#32 <<< scale - 1#32) ≠ 0#32 then
    none
  else
    let stopSubnodeBits :=
      BitVec.ofNat 64 (2 ||| (scale &&& 1)) <<< (8 * ((scale + 1) / 2) + 6)
    let subnodeSelector := bitAt y scale <<< 2 ||| bitAt x scale <<< 1 ||| bitAt z scale
    some (subnodeSelector ||| stopSubnodeBits ||| rootSelector x.toInt z.toInt |||
      pdep (x.signExtend 64) xMask ||| pdep (y.signExtend 64) yMask |||
      pdep (z.signExtend 64) zMask)

/-! ## Reading a path -/

/-- `extractNodePathComponent<B>`: the `B`-th byte of the path. -/
def extractNodePathComponent (level : Nat) (treePath : BitVec 64) : BitVec 64 :=
  (treePath >>> (8 * level)) &&& 255#64

/-- `path_component & 63`. -/
def childIndex (pathComponent : BitVec 64) : Nat :=
  (pathComponent &&& 63#64).toNat

def extractNodePathChildBit (pathComponent : BitVec 64) : BitVec 64 :=
  1#64 <<< childIndex pathComponent

def extractNodePathStopBit (pathComponent : BitVec 64) : Bool :=
  pathComponent &&& 128#64 ≠ 0#64

def extractNodeKeyMaskBit (treePath pathComponent : BitVec 64) : BitVec 32 :=
  if pathComponent &&& 64#64 ≠ 0#64 then 1#32 <<< (treePath &&& 7#64).toNat else 256#32

def triquadtreeYNegative (pathComponent : BitVec 64) : Bool :=
  pathComponent &&& 64#64 ≠ 0#64

/-! ## Coordinates of children -/

def calcRootItemMinCoord (index : Nat) : IVec3 :=
  let minX := index / Consts.storageTreeRootItemsZ * Consts.storageTreeRootItemSizeChunks
  let minZ := index % Consts.storageTreeRootItemsZ * Consts.storageTreeRootItemSizeChunks
  { x := BitVec.ofNat 32 minX + BitVec.ofInt 32 Consts.minUniqueWorldXChunk
    y := BitVec.ofInt 32 Consts.minWorldYChunk
    z := BitVec.ofNat 32 minZ + BitVec.ofInt 32 Consts.minUniqueWorldZChunk }

def calcTriquadtreeChildMinCoord (childSize : Nat) (minX minZ : BitVec 32)
    (pathComponent : BitVec 64) : IVec3 :=
  let cx := ((pathComponent &&& 0b100000#64) >>> 3) ||| ((pathComponent &&& 0b1000#64) >>> 2) |||
    ((pathComponent &&& 0b10#64) >>> 1)
  let cz := ((pathComponent &&& 0b010000#64) >>> 2) ||| ((pathComponent &&& 0b0100#64) >>> 1) |||
    (pathComponent &&& 0b01#64)
  { x := minX + (BitVec.ofNat 64 childSize * cx).setWidth 32
    y := if triquadtreeYNegative pathComponent then -BitVec.ofNat 32 childSize else 0#32
    z := minZ + (BitVec.ofNat 64 childSize * cz).setWidth 32 }

def calcDuoctreeChildMinCoord (childSize : Nat) (key : ChunkKey) (pathComponent : BitVec 64) :
    IVec3 :=
  let coord := key.base
  let cx := ((pathComponent &&& 0b010000#64) >>> 3) ||| ((pathComponent &&& 0b010#64) >>> 1)
  let cy := ((pathComponent &&& 0b100000#64) >>> 4) ||| ((pathComponent &&& 0b100#64) >>> 2)
  let cz := ((pathComponent &&& 0b001000#64) >>> 2) ||| (pathComponent &&& 0b001#64)
  { x := coord.x + (BitVec.ofNat 64 childSize * cx).setWidth 32
    y := coord.y + (BitVec.ofNat 64 childSize * cy).setWidth 32
    z := coord.z + (BitVec.ofNat 64 childSize * cz).setWidth 32 }

end Voxen.Land.StorageTreeUtils
