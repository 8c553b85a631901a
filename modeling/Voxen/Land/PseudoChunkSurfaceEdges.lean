import Mathlib.Data.BitVec
import Voxen.Land.PseudoChunkRuns
import Voxen.Land.PseudoChunkSurface

/-!
# The edges of a pseudo-chunk

A cell has twelve edges, and up to four cells of a chunk share one. Which of them adds the quad
is meant to be the last one at the borders of the chunk and else the one whose base is that of
the edge. Where an edge lies at two upper sides of its cell, the code takes cells at either border
for cells at both, and adds the quad of such an edge twice.
-/

namespace Voxen.Land.PseudoChunkSurface

open PseudoChunkData (InChunk Sorted)

attribute [ext] CellCoord UVec3

/-! ## The twelve edges of a cell -/

/-- An edge of the grid of cells: where it starts and its axis. -/
structure Edge where
  base : CellCoord
  axis : Fin 3
  deriving DecidableEq

/-- Where an edge starts in its cell. -/
def slotOffset : Fin 12 → CellCoord :=
  ![⟨0, 0, 0⟩, ⟨0, 0, 1⟩, ⟨0, 1, 0⟩, ⟨0, 1, 1⟩, ⟨0, 0, 0⟩, ⟨0, 0, 1⟩, ⟨1, 0, 0⟩, ⟨1, 0, 1⟩,
    ⟨0, 0, 0⟩, ⟨1, 0, 0⟩, ⟨0, 1, 0⟩, ⟨1, 1, 0⟩]

def slotAxis : Fin 12 → Fin 3 := ![0, 0, 0, 0, 1, 1, 1, 1, 2, 2, 2, 2]

/-- The number of the corner at an offset. -/
def cornerIndex (offset : CellCoord) : Nat :=
  4 * offset.y.toNat + 2 * offset.x.toNat + offset.z.toNat

def unit : Fin 3 → CellCoord := ![⟨1, 0, 0⟩, ⟨0, 1, 0⟩, ⟨0, 0, 1⟩]

/-- The corners at the lower and the upper end of an edge. -/
def lowerCorner (slot : Fin 12) : Nat := cornerIndex (slotOffset slot)

def upperCorner (slot : Fin 12) : Nat :=
  cornerIndex ((slotOffset slot).add (unit (slotAxis slot)))

/-- The surface crosses an edge of a cell: one end is solid and the other is not. -/
def Crosses (mask : BitVec 8) (slot : Fin 12) : Prop :=
  mask.getLsbD (lowerCorner slot) ≠ mask.getLsbD (upperCorner slot)

theorem hasEdge_iff : ∀ (mask : BitVec 8) (slot : Fin 12),
    hasEdge mask slot = true ↔ Crosses mask slot := by
  unfold Crosses
  decide +kernel

/-- The coordinate of a cell of the main chunk. -/
def cellCoord (cell : UVec3) : CellCoord := ⟨cell.x, cell.y, cell.z⟩

/-- An edge of a cell. -/
def edgeOf (coord : CellCoord) (slot : Fin 12) : Edge :=
  ⟨coord.add (slotOffset slot), slotAxis slot⟩

/-! ## The calls of a cell -/

/-- The code takes the cell for one that adds the quad of the edge: the edge starts at its base, or
at an upper side that is a border of the chunk. -/
def Adds (cell : UVec3) (slot : Fin 12) : Prop :=
  slotOffset slot = ⟨0, 0, 0⟩ ∨
    (slotOffset slot).x = 1 ∧ cell.x + 1 = chunkSizeBlocks ∨
    (slotOffset slot).y = 1 ∧ cell.y + 1 = chunkSizeBlocks ∨
    (slotOffset slot).z = 1 ∧ cell.z + 1 = chunkSizeBlocks

instance (cell : UVec3) (slot : Fin 12) : Decidable (Adds cell slot) :=
  inferInstanceAs (Decidable (_ ∨ _))

def slotCall (cell : CellEntry) (slot : Fin 12) : EdgeCall where
  base := (edgeOf (cellCoord cell.cellIndex) slot).base
  axis := slotAxis slot
  lowerSolid := cell.cornerSolidMask.getLsbD (lowerCorner slot)
  inner :=
    let index := cell.cellIndex
    let innerIf (condition : Bool) : Option CellEntry := if condition then some cell else none
    match slot with
    | 0 => innerIf (index.y > 0 && index.z > 0)
    | 4 => innerIf (index.x > 0 && index.z > 0)
    | 8 => innerIf (index.x > 0 && index.y > 0)
    | _ => none

/-- The order in which a cell looks at its edges. -/
def slotOrder : List (Fin 12) := [0, 4, 8, 6, 9, 2, 10, 1, 5, 3, 7, 11]

/-- The condition of a cell for the quad of an edge. -/
def adds (cell : CellEntry) (slot : Fin 12) : Bool :=
  hasEdge cell.cornerSolidMask slot && decide (Adds cell.cellIndex slot)

theorem adds_eq {cell : CellEntry} {slot : Fin 12} {border : Bool}
    (same : Adds cell.cellIndex slot ↔ border = true) :
    adds cell slot = (hasEdge cell.cornerSolidMask slot && border) := by
  cases border with
  | true => rw [adds, decide_eq_true (same.mpr rfl)]
  | false => rw [adds, decide_eq_false fun taken => Bool.false_ne_true (same.mp taken)]

theorem cellCalls_eq (cell : CellEntry) :
    cellCalls cell =
      slotOrder.flatMap fun slot => callIf (adds cell slot) (slotCall cell slot) := by
  simp only [cellCalls, slotOrder, List.flatMap_cons, List.flatMap_nil, List.append_nil,
    List.append_assoc]
  have base : ∀ slot, slotOffset slot = ⟨0, 0, 0⟩ →
      adds cell slot = hasEdge cell.cornerSolidMask slot := by
    intro slot same
    rw [adds_eq ⟨fun _ => rfl, fun _ => .inl same⟩, Bool.and_true]
  have x : ∀ slot, slotOffset slot = ⟨1, 0, 0⟩ →
      adds cell slot = (cell.cellIndex.x + 1 == chunkSizeBlocks &&
        hasEdge cell.cornerSolidMask slot) := by
    intro slot same
    rw [Bool.and_comm]
    exact adds_eq (by simp [Adds, same])
  have y : ∀ slot, slotOffset slot = ⟨0, 1, 0⟩ →
      adds cell slot = (cell.cellIndex.y + 1 == chunkSizeBlocks &&
        hasEdge cell.cornerSolidMask slot) := by
    intro slot same
    rw [Bool.and_comm]
    exact adds_eq (by simp [Adds, same])
  have z : ∀ slot, slotOffset slot = ⟨0, 0, 1⟩ →
      adds cell slot = (cell.cellIndex.z + 1 == chunkSizeBlocks &&
        hasEdge cell.cornerSolidMask slot) := by
    intro slot same
    rw [Bool.and_comm]
    exact adds_eq (by simp [Adds, same])
  have yz : adds cell 3 = (hasEdge cell.cornerSolidMask 3 &&
      (cell.cellIndex.y + 1 == chunkSizeBlocks || cell.cellIndex.z + 1 == chunkSizeBlocks)) :=
    adds_eq (by simp [Adds, slotOffset])
  have xz : adds cell 7 = (hasEdge cell.cornerSolidMask 7 &&
      (cell.cellIndex.x + 1 == chunkSizeBlocks || cell.cellIndex.z + 1 == chunkSizeBlocks)) :=
    adds_eq (by simp [Adds, slotOffset])
  have xy : adds cell 11 = (hasEdge cell.cornerSolidMask 11 &&
      (cell.cellIndex.x + 1 == chunkSizeBlocks || cell.cellIndex.y + 1 == chunkSizeBlocks)) :=
    adds_eq (by simp [Adds, slotOffset])
  rw [base 0 rfl, base 4 rfl, base 8 rfl, x 6 rfl, x 9 rfl, y 2 rfl, y 10 rfl, z 1 rfl, z 5 rfl,
    yz, xz, xy]
  rfl

/-- The main cells with those of their edges for which they make calls. -/
def callPairs (datas : Fin 19 → PseudoChunkData) : List (CellEntry × Fin 12) :=
  ((datas 0).cellEntries.product slotOrder).filter fun pair => adds pair.1 pair.2

theorem callIf_flatMap {α : Type} (condition : α → Bool) (call : α → EdgeCall) (l : List α) :
    l.flatMap (fun a => callIf (condition a) (call a)) = (l.filter condition).map call := by
  induction l with
  | nil => rfl
  | cons a l ih =>
    rw [List.flatMap_cons, ih]
    cases taken : condition a <;> simp [callIf, taken]

theorem edgeCalls_eq (datas : Fin 19 → PseudoChunkData) :
    edgeCalls datas = (callPairs datas).map fun pair => slotCall pair.1 pair.2 := by
  rw [callPairs, ← callIf_flatMap, List.product, List.flatMap_assoc, edgeCalls]
  refine congrArg (fun calls => (datas 0).cellEntries.flatMap calls) (funext fun cell => ?_)
  rw [List.flatMap_map, cellCalls_eq]

theorem mem_callPairs {datas : Fin 19 → PseudoChunkData} {cell : CellEntry} {slot : Fin 12} :
    (cell, slot) ∈ callPairs datas ↔ cell ∈ (datas 0).cellEntries ∧
      Crosses cell.cornerSolidMask slot ∧ Adds cell.cellIndex slot := by
  have every : slot ∈ slotOrder := by revert slot; decide
  rw [callPairs, List.mem_filter, List.pair_mem_product, adds, Bool.and_eq_true, hasEdge_iff,
    decide_eq_true_eq]
  exact and_congr_left fun _ => and_iff_left every

theorem nodup_callPairs {datas : Fin 19 → PseudoChunkData}
    (nodup : (datas 0).cellEntries.Nodup) : (callPairs datas).Nodup :=
  (nodup.product (by decide)).filter _

/-! ## The cells around an edge -/

/-- The chunks in the order in which `enqueuePseudoSurfaceGen` collects them: their offsets from
the main one. -/
def dataOffset : Fin 19 → CellCoord :=
  ![⟨0, 0, 0⟩, ⟨1, 0, 0⟩, ⟨-1, 0, 0⟩, ⟨0, 1, 0⟩, ⟨0, -1, 0⟩, ⟨0, 0, 1⟩, ⟨0, 0, -1⟩,
    ⟨0, -1, -1⟩, ⟨0, -1, 1⟩, ⟨0, 1, -1⟩, ⟨0, 1, 1⟩,
    ⟨-1, 0, -1⟩, ⟨-1, 0, 1⟩, ⟨1, 0, -1⟩, ⟨1, 0, 1⟩,
    ⟨-1, -1, 0⟩, ⟨1, -1, 0⟩, ⟨-1, 1, 0⟩, ⟨1, 1, 0⟩]

/-- The coordinate of a cell of a chunk, from the base of the main chunk. -/
def placeIn (offset : CellCoord) (cell : UVec3) : CellCoord :=
  ⟨chunkSizeBlocks * offset.x + cell.x, chunkSizeBlocks * offset.y + cell.y,
    chunkSizeBlocks * offset.z + cell.z⟩

/-- The coordinate of a processed cell. -/
def ProcessedCellEntry.place (processed : ProcessedCellEntry) : CellCoord :=
  placeIn processed.adjustment processed.coord

/-- One of the chunks has an entry for the cell at the coordinate. -/
def CellAt (datas : Fin 19 → PseudoChunkData) (coord : CellCoord) (entry : CellEntry) : Prop :=
  ∃ i cell, InChunk cell ∧ coord = placeIn (dataOffset i) cell ∧
    (datas i).findEntry cell = some entry

/-- The map leads to the chunk at the offset, except for the chunks at the vertices. -/
theorem dataIndex3CubeMap_eq : ∀ dx dy dz : Fin 3, dx = 1 ∨ dy = 1 ∨ dz = 1 →
    ∃ i, (dataIndex3CubeMap[9 * dy.val + 3 * dx.val + dz.val]?).join = some i ∧
      dataOffset i = ⟨(dx.val : Int) - 1, (dy.val : Int) - 1, (dz.val : Int) - 1⟩ := by
  decide

theorem axisPlace_eq (coord : Int) (low : -1 ≤ coord) (high : coord ≤ chunkSizeBlocks) :
    ∃ (a : Nat) (d : Fin 3), a < chunkSizeBlocks ∧ axisPlace coord = (a, (d.val : Int) - 1, d.val) ∧
      coord = chunkSizeBlocks * ((d.val : Int) - 1) + a ∧
      (0 ≤ coord ∧ coord < chunkSizeBlocks ↔ d = 1) := by
  simp only [axisPlace, chunkSizeBlocks] at *
  rcases Int.lt_or_le coord 0 with below | nonneg
  · rw [if_pos below]
    exact ⟨(coord + 32).toNat, 0, by omega, rfl, by simp; omega, by simp; omega⟩
  · rw [if_neg (Int.not_lt.mpr nonneg)]
    rcases Int.lt_or_le coord 32 with inside | beyond
    · rw [if_neg (by omega)]
      exact ⟨coord.toNat, 1, by omega, rfl, by simp; omega, by simp; omega⟩
    · rw [if_pos (by omega)]
      exact ⟨(coord - 32).toNat, 2, by omega, rfl, by simp; omega, by simp; omega⟩

/-- The coordinate is in the main chunk or in one next to it, but not at a vertex. -/
structure Near (coord : CellCoord) : Prop where
  x : -1 ≤ coord.x ∧ coord.x ≤ chunkSizeBlocks
  y : -1 ≤ coord.y ∧ coord.y ≤ chunkSizeBlocks
  z : -1 ≤ coord.z ∧ coord.z ≤ chunkSizeBlocks
  flat : (0 ≤ coord.x ∧ coord.x < chunkSizeBlocks) ∨ (0 ≤ coord.y ∧ coord.y < chunkSizeBlocks) ∨
    (0 ≤ coord.z ∧ coord.z < chunkSizeBlocks)

variable {coord : CellCoord} {edge : Edge} {surface : PseudoChunkSurface CellVertex}

theorem adjacentCell_eq (datas : Fin 19 → PseudoChunkData) (near : Near coord) :
    ∃ i cell, InChunk cell ∧ coord = placeIn (dataOffset i) cell ∧
      adjacentCell datas coord = some
        { coord := cell, adjustment := dataOffset i, entry := (datas i).findEntry cell
          inner := false } := by
  obtain ⟨⟨xLow, xHigh⟩, ⟨yLow, yHigh⟩, ⟨zLow, zHigh⟩, flat⟩ := near
  obtain ⟨x, dx, xBound, isX, xPlace, xFlat⟩ := axisPlace_eq coord.x xLow xHigh
  obtain ⟨y, dy, yBound, isY, yPlace, yFlat⟩ := axisPlace_eq coord.y yLow yHigh
  obtain ⟨z, dz, zBound, isZ, zPlace, zFlat⟩ := axisPlace_eq coord.z zLow zHigh
  rw [xFlat, yFlat, zFlat] at flat
  obtain ⟨i, found, offset⟩ := dataIndex3CubeMap_eq dx dy dz flat
  refine ⟨i, ⟨x, y, z⟩, ⟨xBound, yBound, zBound⟩, ?_, ?_⟩
  · obtain ⟨coordX, coordY, coordZ⟩ := coord
    rw [offset, placeIn, CellCoord.mk.injEq]
    exact ⟨xPlace, yPlace, zPlace⟩
  · simp only [adjacentCell, isX, isY, isZ, found, offset, Option.bind_eq_bind, Option.bind_some]
    rfl

theorem placeIn_injective {i j : Fin 19} {cell other : UVec3} (inside : InChunk cell)
    (otherInside : InChunk other)
    (same : placeIn (dataOffset i) cell = placeIn (dataOffset j) other) : i = j ∧ cell = other := by
  have offsets : ∀ i j : Fin 19, dataOffset i = dataOffset j → i = j := by decide
  obtain ⟨xBound, yBound, zBound⟩ := inside
  obtain ⟨xBound', yBound', zBound'⟩ := otherInside
  rw [placeIn, placeIn, CellCoord.mk.injEq] at same
  simp only [chunkSizeBlocks] at *
  constructor
  · apply offsets
    apply CellCoord.ext <;> omega
  · apply UVec3.ext <;> omega

theorem CellAt.findEntry {datas : Fin 19 → PseudoChunkData} {entry : CellEntry} {i : Fin 19}
    {cell : UVec3} (cellAt : CellAt datas (placeIn (dataOffset i) cell) entry)
    (inside : InChunk cell) : (datas i).findEntry cell = some entry := by
  obtain ⟨j, other, otherInside, same, found⟩ := cellAt
  obtain ⟨rfl, rfl⟩ := placeIn_injective inside otherInside same
  exact found

/-- The edge of a main cell: it starts in the chunk or at its upper border, and goes along it. -/
structure Edge.Borders (edge : Edge) : Prop where
  x : 0 ≤ edge.base.x ∧ edge.base.x ≤ chunkSizeBlocks
  y : 0 ≤ edge.base.y ∧ edge.base.y ≤ chunkSizeBlocks
  z : 0 ≤ edge.base.z ∧ edge.base.z ≤ chunkSizeBlocks
  along : edge.axis = 0 ∧ edge.base.x < chunkSizeBlocks ∨
    edge.axis = 1 ∧ edge.base.y < chunkSizeBlocks ∨ edge.axis = 2 ∧ edge.base.z < chunkSizeBlocks

theorem slotOffset_spec : ∀ slot : Fin 12,
    ((slotOffset slot).x = 0 ∨ (slotOffset slot).x = 1) ∧
    ((slotOffset slot).y = 0 ∨ (slotOffset slot).y = 1) ∧
    ((slotOffset slot).z = 0 ∨ (slotOffset slot).z = 1) ∧
    (slotAxis slot = 0 ∧ (slotOffset slot).x = 0 ∨ slotAxis slot = 1 ∧ (slotOffset slot).y = 0 ∨
      slotAxis slot = 2 ∧ (slotOffset slot).z = 0) := by
  decide

theorem borders_edgeOf {cell : UVec3} (inside : InChunk cell) (slot : Fin 12) :
    (edgeOf (cellCoord cell) slot).Borders := by
  obtain ⟨xBound, yBound, zBound⟩ := inside
  obtain ⟨x, y, z, along⟩ := slotOffset_spec slot
  constructor <;> simp only [edgeOf, CellCoord.add, cellCoord]
  · omega
  · omega
  · omega
  · rcases along with ⟨axis, along⟩ | ⟨axis, along⟩ | ⟨axis, along⟩
    · exact .inl ⟨axis, by omega⟩
    · exact .inr (.inl ⟨axis, by omega⟩)
    · exact .inr (.inr ⟨axis, by omega⟩)

/-- The four cells around the edge of a main cell are near the main chunk. -/
theorem Edge.Borders.near (borders : edge.Borders) (i : Fin 4) :
    Near (aroundEdge edge.base edge.axis i) := by
  obtain ⟨⟨base⟩, axis⟩ := edge
  obtain ⟨x, y, z, along⟩ := borders
  simp only [chunkSizeBlocks] at x y z along
  rcases along with ⟨rfl, along⟩ | ⟨rfl, along⟩ | ⟨rfl, along⟩
  all_goals
    match i with
    | 0 | 1 | 2 | 3 =>
      constructor <;> simp [aroundEdge, edgeAxisOffsets, CellCoord.add, chunkSizeBlocks] <;> omega

/-! ## The cells of a call -/

/-- The cell at the coordinate is loaded, with the entry of the chunk it lies in. -/
def Loads (datas : Fin 19 → PseudoChunkData) (processed : ProcessedCellEntry)
    (coord : CellCoord) : Prop :=
  ∃ i, InChunk processed.coord ∧ coord = placeIn (dataOffset i) processed.coord ∧
    processed.adjustment = dataOffset i ∧ processed.entry = (datas i).findEntry processed.coord

variable {datas : Fin 19 → PseudoChunkData} {cell : CellEntry} {slot : Fin 12}

theorem Loads.place {processed : ProcessedCellEntry} (loads : Loads datas processed coord) :
    processed.place = coord := by
  obtain ⟨i, -, isCoord, isOffset, -⟩ := loads
  rw [ProcessedCellEntry.place, isOffset, isCoord]

theorem exists_edgeCells (datas : Fin 19 → PseudoChunkData) (borders : edge.Borders) :
    ∃ cells, edgeCells datas edge.base edge.axis = some cells ∧
      ∀ i, Loads datas (cells i) (aroundEdge edge.base edge.axis i) := by
  have loaded : ∀ i, ∃ processed, adjacentCell datas (aroundEdge edge.base edge.axis i) =
      some processed ∧ Loads datas processed (aroundEdge edge.base edge.axis i) := by
    intro i
    obtain ⟨j, place, inside, isCoord, isCell⟩ := adjacentCell_eq datas (borders.near i)
    exact ⟨_, isCell, j, inside, isCoord, rfl, rfl⟩
  choose cells isCell loads using loaded
  refine ⟨![cells 0, cells 1, cells 2, cells 3], ?_, fun i => ?_⟩
  · simp only [edgeCells, isCell, Option.bind_eq_bind, Option.bind_some]
    rfl
  · match i with
    | 0 | 1 | 2 | 3 => exact loads _

/-- An inner edge is at the base of its cell, which has cells before it on both sides. -/
theorem slotCall_inner {other : CellEntry} (inner : (slotCall cell slot).inner = some other) :
    other = cell ∧ (slot = 0 ∧ 0 < cell.cellIndex.y ∧ 0 < cell.cellIndex.z ∨
      slot = 4 ∧ 0 < cell.cellIndex.x ∧ 0 < cell.cellIndex.z ∨
      slot = 8 ∧ 0 < cell.cellIndex.x ∧ 0 < cell.cellIndex.y) := by
  simp only [slotCall] at inner
  split at inner <;> simp at inner
  · obtain ⟨⟨y, z⟩, rfl⟩ := inner
    exact ⟨rfl, .inl ⟨rfl, y, z⟩⟩
  · obtain ⟨⟨x, z⟩, rfl⟩ := inner
    exact ⟨rfl, .inr (.inl ⟨rfl, x, z⟩)⟩
  · obtain ⟨⟨x, y⟩, rfl⟩ := inner
    exact ⟨rfl, .inr (.inr ⟨rfl, x, y⟩)⟩

theorem callCells_isSome (datas : Fin 19 → PseudoChunkData) (inside : InChunk cell.cellIndex)
    (slot : Fin 12) :
    ∃ cells, callCells datas (slotCall cell slot) = some cells := by
  rw [callCells]
  cases isInner : (slotCall cell slot).inner with
  | some other => exact ⟨_, rfl⟩
  | none =>
    obtain ⟨cells, isCells, -⟩ := exists_edgeCells datas (borders_edgeOf inside slot)
    exact ⟨cells, isCells⟩

/-- The coordinate is one of a cell of the main chunk. -/
def InMain (coord : CellCoord) : Prop :=
  (0 ≤ coord.x ∧ coord.x < chunkSizeBlocks) ∧ (0 ≤ coord.y ∧ coord.y < chunkSizeBlocks) ∧
    (0 ≤ coord.z ∧ coord.z < chunkSizeBlocks)

theorem InMain.exists_place (inMain : InMain coord) :
    ∃ place, InChunk place ∧ coord = cellCoord place := by
  obtain ⟨⟨xLow, xHigh⟩, ⟨yLow, yHigh⟩, ⟨zLow, zHigh⟩⟩ := inMain
  refine ⟨⟨coord.x.toNat, coord.y.toNat, coord.z.toNat⟩, ⟨?_, ?_, ?_⟩, ?_⟩
  · exact (Int.toNat_lt xLow).mpr xHigh
  · exact (Int.toNat_lt yLow).mpr yHigh
  · exact (Int.toNat_lt zLow).mpr zHigh
  · simp [cellCoord, xLow, yLow, zLow]

theorem placeIn_main (place : UVec3) : placeIn (dataOffset 0) place = cellCoord place := by
  have zero : dataOffset 0 = ⟨0, 0, 0⟩ := rfl
  simp [zero, placeIn, cellCoord]

/-- The main chunk has all the cells around an inner edge, the last being the calling one. -/
theorem loads_innerEdgeCells {i : Fin 4} (inMain : InMain (aroundEdge edge.base edge.axis i))
    (base : edge.base = cellCoord cell.cellIndex)
    (found : (datas 0).findEntry cell.cellIndex = some cell) :
    Loads datas (innerEdgeCells datas edge.base edge.axis cell i)
      (aroundEdge edge.base edge.axis i) := by
  obtain ⟨place, inside, isPlace⟩ := inMain.exists_place
  simp only [innerEdgeCells, isPlace, cellCoord, Int.toNat_natCast]
  refine ⟨0, inside, (placeIn_main place).symm, rfl, ?_⟩
  by_cases last : i = 3
  · subst last
    have own : cellCoord place = cellCoord cell.cellIndex := isPlace.symm.trans base
    have same : place = cell.cellIndex := by simpa [cellCoord, UVec3.ext_iff] using own
    rw [if_pos rfl, ← found, same]
  · rw [if_neg last]

theorem inMain_inner (inside : InChunk cell.cellIndex)
    (slots : slot = 0 ∧ 0 < cell.cellIndex.y ∧ 0 < cell.cellIndex.z ∨
      slot = 4 ∧ 0 < cell.cellIndex.x ∧ 0 < cell.cellIndex.z ∨
      slot = 8 ∧ 0 < cell.cellIndex.x ∧ 0 < cell.cellIndex.y) (i : Fin 4) :
    InMain (aroundEdge (cellCoord cell.cellIndex) (slotAxis slot) i) := by
  obtain ⟨xBound, yBound, zBound⟩ := inside
  simp only [chunkSizeBlocks] at xBound yBound zBound
  rcases slots with ⟨rfl, low⟩ | ⟨rfl, low⟩ | ⟨rfl, low⟩
  all_goals
    match i with
    | 0 | 1 | 2 | 3 =>
      simp [InMain, slotAxis, aroundEdge, edgeAxisOffsets, CellCoord.add, cellCoord,
        chunkSizeBlocks]
      omega

theorem callCells_loads (inside : InChunk cell.cellIndex)
    (found : (datas 0).findEntry cell.cellIndex = some cell) {cells : Fin 4 → ProcessedCellEntry}
    (isCells : callCells datas (slotCall cell slot) = some cells) (i : Fin 4) :
    Loads datas (cells i) (aroundEdge (edgeOf (cellCoord cell.cellIndex) slot).base
      (slotAxis slot) i) := by
  rw [callCells] at isCells
  cases isInner : (slotCall cell slot).inner with
  | none =>
    obtain ⟨cells', isCells', loads⟩ := exists_edgeCells datas (borders_edgeOf inside slot)
    rw [isInner] at isCells
    cases isCells.symm.trans isCells'
    exact loads i
  | some other =>
    obtain ⟨rfl, slots⟩ := slotCall_inner isInner
    have base : (edgeOf (cellCoord other.cellIndex) slot).base = cellCoord other.cellIndex := by
      rcases slots with ⟨rfl, -⟩ | ⟨rfl, -⟩ | ⟨rfl, -⟩ <;>
        simp [edgeOf, slotOffset, CellCoord.add]
    rw [isInner] at isCells
    cases isCells
    have inMain := inMain_inner inside slots i
    rw [← base] at inMain
    exact loads_innerEdgeCells inMain base found

/-! ## The quads of the calls -/

/-- The corners of the two triangles of a quad. -/
def corners (lowerSolid : Bool) : List (Fin 4) :=
  if lowerSolid then [0, 1, 2, 1, 3, 2] else [0, 2, 1, 1, 2, 3]

/-- The vertices that `add_quad` adds. -/
def quadVertices (lod : Nat) (cells : Fin 4 → ProcessedCellEntry) (lowerSolid : Bool) :
    List CellVertex :=
  (addQuad lod {} cells lowerSolid).vertices

theorem quadVertices_eq (lod : Nat) (cells : Fin 4 → ProcessedCellEntry) (lowerSolid : Bool) :
    (quadVertices lod cells lowerSolid).map CellVertex.cell = (corners lowerSolid).map cells := by
  cases lowerSolid <;> rfl

/-- The indices are the numbers from zero on, narrowed. -/
def Counts (surface : PseudoChunkSurface CellVertex) : Prop :=
  surface.indices = (List.range surface.vertices.length).map (BitVec.ofNat 16)

theorem addTriangle_spec (lod : Nat) (counts : Counts surface) (v0 v1 v2 : ProcessedCellEntry) :
    Counts (addTriangle lod surface v0 v1 v2) ∧ (addTriangle lod surface v0 v1 v2).vertices =
      surface.vertices ++ (addTriangle lod {} v0 v1 v2).vertices := by
  refine ⟨?_, rfl⟩
  have length : surface.indices.length = surface.vertices.length := by
    rw [counts, List.length_map, List.length_range]
  rw [Counts]
  simp only [addTriangle, length, List.length_append, List.length_cons, List.length_nil]
  rw [counts, List.range_add, List.map_append]
  rfl

theorem addQuad_spec (lod : Nat) (counts : Counts surface) (cells : Fin 4 → ProcessedCellEntry)
    (lowerSolid : Bool) :
    Counts (addQuad lod surface cells lowerSolid) ∧
      (addQuad lod surface cells lowerSolid).vertices =
        surface.vertices ++ quadVertices lod cells lowerSolid := by
  cases lowerSolid with
  | true =>
    have first := addTriangle_spec lod counts (cells 0) (cells 1) (cells 2)
    have second := addTriangle_spec lod first.1 (cells 1) (cells 3) (cells 2)
    refine ⟨second.1, second.2.trans ?_⟩
    rw [first.2, List.append_assoc]
    rfl
  | false =>
    have first := addTriangle_spec lod counts (cells 0) (cells 2) (cells 1)
    have second := addTriangle_spec lod first.1 (cells 1) (cells 2) (cells 3)
    refine ⟨second.1, second.2.trans ?_⟩
    rw [first.2, List.append_assoc]
    rfl

/-- The vertices that the calls add. -/
def callVertices (datas : Fin 19 → PseudoChunkData) (lod : Nat) (call : EdgeCall) :
    List CellVertex :=
  ((callCells datas call).map fun cells => quadVertices lod cells call.lowerSolid).getD []

theorem foldlM_addEdge (lod : Nat) {calls : List EdgeCall}
    (isSome : ∀ call ∈ calls, ∃ cells, callCells datas call = some cells)
    (counts : Counts surface) :
    ∃ result, calls.foldlM (addEdge datas lod) surface = some result ∧ Counts result ∧
      result.vertices = surface.vertices ++ calls.flatMap (callVertices datas lod) := by
  induction calls generalizing surface with
  | nil => exact ⟨surface, rfl, counts, by simp⟩
  | cons call calls ih =>
    obtain ⟨cells, isCells⟩ := isSome call List.mem_cons_self
    obtain ⟨counts', vertices⟩ := addQuad_spec lod counts cells call.lowerSolid
    obtain ⟨result, run, countsResult, isResult⟩ :=
      ih (fun other mem => isSome other (List.mem_cons_of_mem _ mem)) counts'
    refine ⟨result, ?_, countsResult, ?_⟩
    · rw [List.foldlM_cons, addEdge, isCells]
      exact run
    · rw [isResult, vertices, List.append_assoc, List.flatMap_cons, callVertices, isCells]
      rfl

theorem exists_callCells (inside : ∀ cell ∈ (datas 0).cellEntries, InChunk cell.cellIndex) :
    ∀ call ∈ edgeCalls datas, ∃ cells, callCells datas call = some cells := by
  rw [edgeCalls_eq]
  intro call mem
  obtain ⟨⟨cell, slot⟩, pairMem, rfl⟩ := List.mem_map.mp mem
  exact callCells_isSome datas (inside cell (mem_callPairs.mp pairMem).1) slot

theorem generateDatas_eq (lod : Nat)
    (inside : ∀ cell ∈ (datas 0).cellEntries, InChunk cell.cellIndex) :
    ∃ surface, generateDatas datas lod = some surface ∧ Counts surface ∧
      surface.vertices = (edgeCalls datas).flatMap (callVertices datas lod) := by
  have start : Counts {} := rfl
  obtain ⟨surface, generated, counts, vertices⟩ :=
    foldlM_addEdge lod (exists_callCells inside) start
  rw [List.nil_append] at vertices
  exact ⟨surface, generated, counts, vertices⟩

theorem length_corners (lowerSolid : Bool) : (corners lowerSolid).length = 6 := by
  cases lowerSolid <;> rfl

theorem length_flatMap_six {α β : Type} {l : List α} {f : α → List β}
    (six : ∀ a ∈ l, (f a).length = 6) : (l.flatMap f).length = 6 * l.length := by
  rw [List.length_flatMap, List.map_congr_left six, List.map_const', List.sum_replicate_nat,
    Nat.mul_comm]

end Voxen.Land.PseudoChunkSurface
