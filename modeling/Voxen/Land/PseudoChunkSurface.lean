import Mathlib.Data.Fin.VecNotation
import Voxen.Land.ChunkAdjacency
import Voxen.Lib.Interning

/-!
# Surfaces of chunks and pseudo-chunks

A surface is a list of vertices and one of indices into it, three for a triangle. The surface of
a chunk has the faces between its blocks and empty ones next to them. The surface of a
pseudo-chunk has a quad between the four cells around every edge that the surface crosses. What
the positions, normals and materials of a vertex are computed from stands for the packed vertex.
-/

namespace Voxen.Land

open PseudoChunkData (isBlockEmpty)

/-- `PseudoChunkSurface`, with one list for the positions and attributes of its vertices. -/
structure PseudoChunkSurface (Vertex : Type) where
  vertices : List Vertex := []
  indices : List (BitVec 16) := []

namespace PseudoChunkSurface

/-! ## Faces of blocks -/

/-- What a vertex of a face is packed from: its position in blocks, and the face and the block for
its normal and its material. -/
structure FaceVertex where
  position : UVec3
  orientation : Fin 6
  blockId : BitVec 16
  deriving DecidableEq

/-- `FACE_COORD_OFFSET`. -/
def faceCoordOffset : Fin 6 → Fin 4 → UVec3
  | 0 => ![⟨1, 0, 1⟩, ⟨1, 0, 0⟩, ⟨1, 1, 0⟩, ⟨1, 1, 1⟩]
  | 1 => ![⟨0, 1, 0⟩, ⟨0, 0, 0⟩, ⟨0, 0, 1⟩, ⟨0, 1, 1⟩]
  | 2 => ![⟨1, 1, 0⟩, ⟨0, 1, 0⟩, ⟨0, 1, 1⟩, ⟨1, 1, 1⟩]
  | 3 => ![⟨0, 0, 1⟩, ⟨0, 0, 0⟩, ⟨1, 0, 0⟩, ⟨1, 0, 1⟩]
  | 4 => ![⟨0, 1, 1⟩, ⟨0, 0, 1⟩, ⟨1, 0, 1⟩, ⟨1, 1, 1⟩]
  | 5 => ![⟨1, 0, 0⟩, ⟨0, 0, 0⟩, ⟨0, 1, 0⟩, ⟨1, 1, 0⟩]

/-- The key of a vertex in `vertex_index_map`. -/
def vertexKey (vertex : FaceVertex) : Nat :=
  let position := vertex.position
  (position.x <<< 16 ||| position.y <<< 8 ||| position.z) <<< 24 |||
    vertex.orientation.val <<< 8 ||| vertex.blockId.toNat

/-- The arguments of `add_face`. -/
structure Face where
  x : Nat
  y : Nat
  z : Nat
  orientation : Fin 6
  blockId : BitVec 16
  deriving DecidableEq

namespace Face

def corner (face : Face) (i : Fin 4) : FaceVertex where
  position :=
    let offset := faceCoordOffset face.orientation i
    ⟨face.x + offset.x, face.y + offset.y, face.z + offset.z⟩
  orientation := face.orientation
  blockId := face.blockId

def corners (face : Face) : List FaceVertex :=
  [face.corner 0, face.corner 1, face.corner 2, face.corner 3]

end Face

/-- The vertices and `vertex_index_map`, and the indices before they are narrowed. -/
structure FaceBuilder where
  table : Interning.Table Nat FaceVertex := {}
  indexBuffer : List Nat := []

/-- `add_face(x, y, z, orientation, block_id)`. -/
def addFace (builder : FaceBuilder) (face : Face) : FaceBuilder :=
  let (vertexIndices, table) := builder.table.getAll vertexKey face.corners
  let vertexIndex (i : Nat) : Nat := vertexIndices.getD i 0
  { table := table
    indexBuffer := builder.indexBuffer ++ [vertexIndex 0, vertexIndex 1, vertexIndex 2] ++
      [vertexIndex 2, vertexIndex 3, vertexIndex 0] }

open ChunkAdjacencyRef (AdjacentIds)

/-- The visible faces of a block are added. -/
def addBlock (expandedIds : AdjacentIds) (builder : FaceBuilder) (x y z : Nat) : FaceBuilder :=
  let blockId := expandedIds.load (x + 1) (y + 1) (z + 1)
  if isBlockEmpty blockId then builder
  else
    let addIf (neighbour : BitVec 16) (orientation : Fin 6) (builder : FaceBuilder) :=
      if isBlockEmpty neighbour then addFace builder ⟨x, y, z, orientation, blockId⟩ else builder
    let builder := addIf (expandedIds.load (x + 2) (y + 1) (z + 1)) 0 builder
    let builder := addIf (expandedIds.load x (y + 1) (z + 1)) 1 builder
    let builder := addIf (expandedIds.load (x + 1) (y + 2) (z + 1)) 2 builder
    let builder := addIf (expandedIds.load (x + 1) y (z + 1)) 3 builder
    let builder := addIf (expandedIds.load (x + 1) (y + 1) (z + 2)) 4 builder
    addIf (expandedIds.load (x + 1) (y + 1) z) 5 builder

/-- `generate(adj)`. What the expanded array holds before it is filled is arbitrary. -/
def generate (adj : ChunkAdjacencyRef) (uninitialised : AdjacentIds) :
    PseudoChunkSurface FaceVertex :=
  let expandedIds := adj.expandBlockIds uninitialised
  let builder := forYXZ chunkSizeBlocks {} (addBlock expandedIds)
  { vertices := builder.table.values
    indices := builder.indexBuffer.map (BitVec.ofNat 16) }

/-! ## Quads between cells -/

/-- `glm::ivec3` of a cell. -/
structure CellCoord where
  x : Int
  y : Int
  z : Int
  deriving DecidableEq

def CellCoord.add (coord offset : CellCoord) : CellCoord :=
  ⟨coord.x + offset.x, coord.y + offset.y, coord.z + offset.z⟩

/-- What a `ProcessedCellEntry` is computed from: the place of the cell in its chunk and that of
the chunk, and the entry if there is one. -/
structure ProcessedCellEntry where
  coord : UVec3
  adjustment : CellCoord
  entry : Option CellEntry
  /-- Loaded for an inner edge; this tells the materials if there is no entry. -/
  inner : Bool

/-- What a vertex of a triangle is packed from. -/
structure CellVertex where
  cell : ProcessedCellEntry
  /-- The three cells of the triangle, for the normal and the materials. -/
  triangle : ProcessedCellEntry × ProcessedCellEntry × ProcessedCellEntry
  lod : Nat

/-- `add_triangle(v0, v1, v2)`. There are as many vertices as indices, so the first new index is
that of the first new vertex. -/
def addTriangle (lod : Nat) (surface : PseudoChunkSurface CellVertex)
    (v0 v1 v2 : ProcessedCellEntry) : PseudoChunkSurface CellVertex :=
  let firstNewIndex := surface.indices.length
  { indices := surface.indices ++ [BitVec.ofNat 16 firstNewIndex,
      BitVec.ofNat 16 (firstNewIndex + 1), BitVec.ofNat 16 (firstNewIndex + 2)]
    vertices := surface.vertices ++
      [⟨v0, (v0, v1, v2), lod⟩, ⟨v1, (v0, v1, v2), lod⟩, ⟨v2, (v0, v1, v2), lod⟩] }

/-- `add_quad(cells, lower_solid)`. -/
def addQuad (lod : Nat) (surface : PseudoChunkSurface CellVertex)
    (cells : Fin 4 → ProcessedCellEntry) (lowerSolid : Bool) : PseudoChunkSurface CellVertex :=
  if lowerSolid then
    let surface := addTriangle lod surface (cells 0) (cells 1) (cells 2)
    addTriangle lod surface (cells 1) (cells 3) (cells 2)
  else
    let surface := addTriangle lod surface (cells 0) (cells 2) (cells 1)
    addTriangle lod surface (cells 1) (cells 2) (cells 3)

/-- `EDGE_AXIS_OFFSETS`. -/
def edgeAxisOffsets : Fin 3 → Fin 3 → CellCoord
  | 0 => ![⟨0, -1, 0⟩, ⟨0, 0, -1⟩, ⟨0, -1, -1⟩]
  | 1 => ![⟨0, 0, -1⟩, ⟨-1, 0, 0⟩, ⟨-1, 0, -1⟩]
  | 2 => ![⟨-1, 0, 0⟩, ⟨0, -1, 0⟩, ⟨-1, -1, 0⟩]

/-- `DATA_INDEX_3CUBE_MAP`; `none` is `UINT32_MAX`. -/
def dataIndex3CubeMap : List (Option (Fin 19)) :=
  [none, some 15, none, some 7, some 4, some 8, none, some 16, none,
    some 11, some 2, some 12, some 6, some 0, some 5, some 13, some 1, some 14,
    none, some 17, none, some 9, some 3, some 10, none, some 18, none]

/-- The place of a coordinate in its chunk, the adjustment and the digit of the chunk. -/
def axisPlace (coord : Int) : Nat × Int × Nat :=
  let B : Int := chunkSizeBlocks
  if coord < 0 then ((coord + B).toNat, -1, 0)
  else if coord ≥ B then ((coord - B).toNat, 1, 2)
  else (coord.toNat, 0, 1)

/-- The cell at a coordinate; there is no result when the assertion on the data index fails. -/
def adjacentCell (datas : Fin 19 → PseudoChunkData) (coord : CellCoord) :
    Option ProcessedCellEntry := do
  let (x, adjustX, digitX) := axisPlace coord.x
  let (y, adjustY, digitY) := axisPlace coord.y
  let (z, adjustZ, digitZ) := axisPlace coord.z
  let dataIndex ← (dataIndex3CubeMap[9 * digitY + 3 * digitX + digitZ]?).join
  return { coord := ⟨x, y, z⟩, adjustment := ⟨adjustX, adjustY, adjustZ⟩
           entry := (datas dataIndex).findEntry ⟨x, y, z⟩, inner := false }

/-- The coordinate of one of the four cells around an edge. -/
def aroundEdge (base : CellCoord) (axis : Fin 3) : Fin 4 → CellCoord :=
  ![base.add (edgeAxisOffsets axis 2), base.add (edgeAxisOffsets axis 1),
    base.add (edgeAxisOffsets axis 0), base]

/-- The four cells of `add_edge`. -/
def edgeCells (datas : Fin 19 → PseudoChunkData) (base : CellCoord) (axis : Fin 3) :
    Option (Fin 4 → ProcessedCellEntry) := do
  let cell0 ← adjacentCell datas (aroundEdge base axis 0)
  let cell1 ← adjacentCell datas (aroundEdge base axis 1)
  let cell2 ← adjacentCell datas (aroundEdge base axis 2)
  let cell3 ← adjacentCell datas (aroundEdge base axis 3)
  return ![cell0, cell1, cell2, cell3]

/-- The four cells of `add_inner_edge`, all of the main chunk. -/
def innerEdgeCells (datas : Fin 19 → PseudoChunkData) (base : CellCoord) (axis : Fin 3)
    (cell : CellEntry) : Fin 4 → ProcessedCellEntry := fun i =>
  let coord := aroundEdge base axis i
  let place : UVec3 := ⟨coord.x.toNat, coord.y.toNat, coord.z.toNat⟩
  { coord := place, adjustment := ⟨0, 0, 0⟩, inner := true
    entry := if i = 3 then some cell else (datas 0).findEntry place }

/-- A call of `add_edge`, or of `add_inner_edge` with the cell of the loop. -/
structure EdgeCall where
  base : CellCoord
  axis : Fin 3
  lowerSolid : Bool
  inner : Option CellEntry := none

/-- The four cells of a call. -/
def callCells (datas : Fin 19 → PseudoChunkData) (call : EdgeCall) :
    Option (Fin 4 → ProcessedCellEntry) :=
  match call.inner with
  | some cell => some (innerEdgeCells datas call.base call.axis cell)
  | none => edgeCells datas call.base call.axis

/-- `add_edge(edge_base_coord, axis, lower_solid)` or `add_inner_edge(…, cell)`. -/
def addEdge (datas : Fin 19 → PseudoChunkData) (lod : Nat)
    (surface : PseudoChunkSurface CellVertex) (call : EdgeCall) :
    Option (PseudoChunkSurface CellVertex) := do
  let cells ← callCells datas call
  return addQuad lod surface cells call.lowerSolid

/-- `EDGE_MASKS`. -/
def edgeMasks : List (BitVec 8) :=
  [0b00000101, 0b00001010, 0b01010000, 0b10100000,
    0b00010001, 0b00100010, 0b01000100, 0b10001000,
    0b00000011, 0b00001100, 0b00110000, 0b11000000]

/-- `has_edge[edge]`: one end of the edge is solid and the other is not. -/
def hasEdge (mask : BitVec 8) (edge : Nat) : Bool :=
  let edgeMask := edgeMasks.getD edge 0
  let testMask := mask &&& edgeMask
  testMask != 0 && testMask != edgeMask

def callIf (condition : Bool) (call : EdgeCall) : List EdgeCall :=
  if condition then [call] else []

/-- The calls that the loop over the main cells makes for one of them. -/
def cellCalls (cell : CellEntry) : List EdgeCall :=
  let B := chunkSizeBlocks
  let has := hasEdge cell.cornerSolidMask
  let solid := cell.cornerSolidMask.getLsbD
  let index := cell.cellIndex
  let at_ (dx dy dz : Int) : CellCoord := ⟨index.x + dx, index.y + dy, index.z + dz⟩
  let innerIf (condition : Bool) : Option CellEntry := if condition then some cell else none
  let xBorder := index.x + 1 == B
  let yBorder := index.y + 1 == B
  let zBorder := index.z + 1 == B
  callIf (has 0) ⟨at_ 0 0 0, 0, solid 0, innerIf (index.y > 0 && index.z > 0)⟩ ++
  callIf (has 4) ⟨at_ 0 0 0, 1, solid 0, innerIf (index.x > 0 && index.z > 0)⟩ ++
  callIf (has 8) ⟨at_ 0 0 0, 2, solid 0, innerIf (index.x > 0 && index.y > 0)⟩ ++
  callIf (xBorder && has 6) ⟨at_ 1 0 0, 1, solid 2, none⟩ ++
  callIf (xBorder && has 9) ⟨at_ 1 0 0, 2, solid 2, none⟩ ++
  callIf (yBorder && has 2) ⟨at_ 0 1 0, 0, solid 4, none⟩ ++
  callIf (yBorder && has 10) ⟨at_ 0 1 0, 2, solid 4, none⟩ ++
  callIf (zBorder && has 1) ⟨at_ 0 0 1, 0, solid 1, none⟩ ++
  callIf (zBorder && has 5) ⟨at_ 0 0 1, 1, solid 1, none⟩ ++
  callIf (has 3 && (yBorder || zBorder)) ⟨at_ 0 1 1, 0, solid 5, none⟩ ++
  callIf (has 7 && (xBorder || zBorder)) ⟨at_ 1 0 1, 1, solid 3, none⟩ ++
  callIf (has 11 && (xBorder || yBorder)) ⟨at_ 1 1 0, 2, solid 6, none⟩

/-- The calls of the loop over the main cells. -/
def edgeCalls (datas : Fin 19 → PseudoChunkData) : List EdgeCall :=
  (datas 0).cellEntries.flatMap cellCalls

/-- `generate(datas, lod)`; there is no result when an assertion fails. -/
def generateDatas (datas : Fin 19 → PseudoChunkData) (lod : Nat) :
    Option (PseudoChunkSurface CellVertex) :=
  (edgeCalls datas).foldlM (addEdge datas lod) {}

end PseudoChunkSurface

end Voxen.Land
