import Voxen.Land.CompressedChunkStorage
import Voxen.Lib.LowerBound

/-!
# Pseudo-chunk data

A pseudo-chunk keeps, for the cells that the surface crosses, which of their eight
corners are solid.  Those of LOD1 are made from blocks, those of every coarser LOD
from eight pseudo-chunks of the LOD below.
-/

namespace Voxen.Land

/-- `Utils::forYXZ<n>`: the loop body is called for `x`, `y`, `z` with `y` outermost. -/
def forYXZ {σ : Type} (n : Nat) (init : σ) (body : σ → Nat → Nat → Nat → σ) : σ :=
  CountedLoop.run n init fun state y =>
    CountedLoop.run n state fun state x =>
      CountedLoop.run n state fun state z => body state x y z

/-- `PseudoChunkData::CellEntry` without the material histogram and the surface point. -/
structure CellEntry where
  cellIndex : UVec3
  cornerSolidMask : BitVec 8
deriving DecidableEq

/-- Coordinates below 256 pack without a carry. -/
def CellEntry.projection (cellIndex : UVec3) : Nat :=
  cellIndex.y <<< 24 ||| cellIndex.x <<< 16 ||| cellIndex.z

structure PseudoChunkData where
  cellEntries : List CellEntry := []

namespace PseudoChunkData

def findEntry (data : PseudoChunkData) (cellIndex : UVec3) : Option CellEntry :=
  LowerBound.find data.cellEntries (fun entry => CellEntry.projection entry.cellIndex)
    (CellEntry.projection cellIndex)

/-- Store a cell if the surface crosses it. -/
def addCell (data : PseudoChunkData) (x y z : Nat) (solidMask : BitVec 8) : PseudoChunkData :=
  if solidMask = 0 ∨ solidMask = 255 then data
  else { cellEntries := data.cellEntries ++ [⟨⟨x, y, z⟩, solidMask⟩] }

/-! ## LOD1 -/

/-- `TempBlockMeta::isBlockEmpty`. -/
def isBlockEmpty (id : BitVec 16) : Bool := id == 0

def isBlockSolid (id : BitVec 16) : Bool := !isBlockEmpty id

/-- `Chunk`: its block IDs. -/
structure Chunk where
  blockIds : CompressedChunkStorage 16

/-- XYZ to add when storing, and XYZ limits of the iteration, for the chunks adjacent
to a face or an edge. -/
def adjacentWalkTable : List (UVec3 × UVec3) :=
  let B := chunkSizeBlocks
  let B2 := B + B
  [ (⟨B2, 0, 0⟩, ⟨1, B, B⟩),
    (⟨B2, 0, B⟩, ⟨1, B, B⟩),
    (⟨B2, B, 0⟩, ⟨1, B, B⟩),
    (⟨B2, B, B⟩, ⟨1, B, B⟩),
    (⟨0, B2, 0⟩, ⟨B, 1, B⟩),
    (⟨0, B2, B⟩, ⟨B, 1, B⟩),
    (⟨B, B2, 0⟩, ⟨B, 1, B⟩),
    (⟨B, B2, B⟩, ⟨B, 1, B⟩),
    (⟨0, 0, B2⟩, ⟨B, B, 1⟩),
    (⟨B, 0, B2⟩, ⟨B, B, 1⟩),
    (⟨0, B, B2⟩, ⟨B, B, 1⟩),
    (⟨B, B, B2⟩, ⟨B, B, 1⟩),
    (⟨0, B2, B2⟩, ⟨B, 1, 1⟩),
    (⟨B, B2, B2⟩, ⟨B, 1, 1⟩),
    (⟨B2, 0, B2⟩, ⟨1, B, 1⟩),
    (⟨B2, B, B2⟩, ⟨1, B, 1⟩),
    (⟨B2, B2, 0⟩, ⟨1, 1, B⟩),
    (⟨B2, B2, B⟩, ⟨1, 1, B⟩) ]

/-- The block IDs of all the chunks in one array. -/
abbrev ExpandedIds := CubeArray (BitVec 16) (chunkSizeBlocks + chunkSizeBlocks + 1)

/-- Expand primary chunk `i`: the view starts with what the array holds there. -/
def expandPrimary (chunks : Fin 27 → Chunk) (ids : ExpandedIds) (i : Nat) : ExpandedIds :=
  let B := chunkSizeBlocks
  let add : UVec3 :=
    ⟨if i.testBit 1 then B else 0, if i.testBit 2 then B else 0, if i.testBit 0 then B else 0⟩
  ids.fillFrom add ((chunks (Fin.ofNat 27 i)).blockIds.expand (ids.extractTo add B))

/-- Gather the blocks of the chunk adjacent to face or edge number `i`. -/
def gatherAdjacent (chunks : Fin 27 → Chunk) (ids : ExpandedIds) (i : Nat) : ExpandedIds :=
  let (add, lim) := adjacentWalkTable.getD i (⟨0, 0, 0⟩, ⟨0, 0, 0⟩)
  let blockIds := (chunks (Fin.ofNat 27 (i + 8))).blockIds
  CountedLoop.run lim.y ids fun ids y =>
    CountedLoop.run lim.x ids fun ids x =>
      CountedLoop.run lim.z ids fun ids z =>
        ids.store (x + add.x) (y + add.y) (z + add.z) (blockIds.load x y z)

/-- What the array holds before it is filled is arbitrary. -/
def gatherIds (chunks : Fin 27 → Chunk) (uninitialised : ExpandedIds) : ExpandedIds :=
  let B2 := chunkSizeBlocks + chunkSizeBlocks
  let ids := CountedLoop.run 8 uninitialised (expandPrimary chunks)
  let ids := CountedLoop.run 18 ids (gatherAdjacent chunks)
  ids.store B2 B2 B2 ((chunks 26).blockIds.load 0 0 0)

/-- The corners of a cell in its 3x3x3 blocks. -/
def blocksSolidMask (cellBlocks : CubeArray (BitVec 16) 3) : BitVec 8 :=
  (if isBlockSolid (cellBlocks 0 0 0) then 0b00000001 else 0) |||
  (if isBlockSolid (cellBlocks 0 0 2) then 0b00000010 else 0) |||
  (if isBlockSolid (cellBlocks 0 2 0) then 0b00000100 else 0) |||
  (if isBlockSolid (cellBlocks 0 2 2) then 0b00001000 else 0) |||
  (if isBlockSolid (cellBlocks 2 0 0) then 0b00010000 else 0) |||
  (if isBlockSolid (cellBlocks 2 0 2) then 0b00100000 else 0) |||
  (if isBlockSolid (cellBlocks 2 2 0) then 0b01000000 else 0) |||
  (if isBlockSolid (cellBlocks 2 2 2) then 0b10000000 else 0)

/-- The old entries are cleared. -/
def generateFromLod0 (chunks : Fin 27 → Chunk) (uninitialised : ExpandedIds) : PseudoChunkData :=
  let expandedIds := gatherIds chunks uninitialised
  forYXZ chunkSizeBlocks {} fun data x y z =>
    data.addCell x y z (blocksSolidMask (expandedIds.extractTo ⟨2 * x, 2 * y, 2 * z⟩ 3))

/-! ## Coarser LODs -/

/-- What is known of the corners of a cell: their solid bits, and which of these were
read from the finer cell at that corner. -/
structure CornerMasks where
  solidMask : BitVec 8 := 0
  knownMask : BitVec 8 := 0

/-- Collect finer cell `i` of the coarse cell with doubled coordinates `base2x`. -/
def collectFiner (finer : Fin 8 → PseudoChunkData) (base2x : UVec3) (masks : CornerMasks)
    (i : Nat) : CornerMasks :=
  let B := chunkSizeBlocks
  let searchX := if i.testBit 1 then base2x.x + 1 else base2x.x
  let searchY := if i.testBit 2 then base2x.y + 1 else base2x.y
  let searchZ := if i.testBit 0 then base2x.z + 1 else base2x.z
  let finerIndex := (if searchZ ≥ B then 0b001 else 0) ||| (if searchX ≥ B then 0b010 else 0) |||
    (if searchY ≥ B then 0b100 else 0)
  let searchCoord : UVec3 :=
    ⟨if searchX ≥ B then searchX - B else searchX, if searchY ≥ B then searchY - B else searchY,
      if searchZ ≥ B then searchZ - B else searchZ⟩
  match (finer (Fin.ofNat 8 finerIndex)).findEntry searchCoord with
  | none => masks
  | some finerCell =>
    -- bit `i` is owned by finer cell `i`
    let thisBit := 1#8 <<< i
    let solidMask := (finerCell.cornerSolidMask &&& thisBit) ||| (masks.solidMask &&& ~~~thisBit)
    let knownMask := masks.knownMask ||| thisBit
    -- fill the unknown bits
    { solidMask := (solidMask &&& knownMask) ||| (finerCell.cornerSolidMask &&& ~~~knownMask)
      knownMask }

/-- The cells are added to those of `data`. -/
def generateFromFinerLod (data : PseudoChunkData) (finer : Fin 8 → PseudoChunkData) :
    PseudoChunkData :=
  forYXZ chunkSizeBlocks data fun data x y z =>
    data.addCell x y z
      (CountedLoop.run 8 {} (collectFiner finer ⟨2 * x, 2 * y, 2 * z⟩)).solidMask

/-- `generateExternally(cells)`. -/
def generateExternally (cells : List CellEntry) : PseudoChunkData := { cellEntries := cells }

end PseudoChunkData

end Voxen.Land
