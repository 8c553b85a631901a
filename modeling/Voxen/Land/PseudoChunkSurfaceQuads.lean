import Voxen.Land.PseudoChunkSurfaceEdges

/-!
# One quad for each edge

Every edge of the main cells that the surface crosses is owned by one of these cells: the one that
has the edge at its upper sides only where these are borders of the chunk. If the cells around an
edge agree on it, its owner adds its quad. Some other cell adds it once more exactly if it has the
edge at two upper sides of which only one is a border.
-/

namespace Voxen.Land.PseudoChunkSurface

open PseudoChunkData (InChunk Sorted Samples Mixed IsCornerMask cornerSolid cornerX cornerY cornerZ
  cornerMask isCornerMask_cornerMask sorted_of_projection ofSamples ofSamples_stores)

/-! ## Consistent pseudo-chunks -/

/-- The cell at the coordinate has the edge, the surface crosses it, and its lower end is solid or
not. -/
def Shows (coord : CellCoord) (mask : BitVec 8) (edge : Edge) (lowerSolid : Bool) : Prop :=
  ∃ slot, Crosses mask slot ∧ edgeOf coord slot = edge ∧
    mask.getLsbD (lowerCorner slot) = lowerSolid

/-- The surface crosses the edge, which is one of a main cell. -/
def MainEdge (datas : Fin 19 → PseudoChunkData) (edge : Edge) (lowerSolid : Bool) : Prop :=
  ∃ cell ∈ (datas 0).cellEntries,
    Shows (cellCoord cell.cellIndex) cell.cornerSolidMask edge lowerSolid

/-- The main entries are those of a pseudo-chunk, and the cells around the edges of its cells have
entries that show the same edge. -/
structure Consistent (datas : Fin 19 → PseudoChunkData) : Prop where
  sorted : Sorted (datas 0).cellEntries
  inside : ∀ cell ∈ (datas 0).cellEntries, InChunk cell.cellIndex
  shared : ∀ edge lowerSolid, MainEdge datas edge lowerSolid → ∀ i, ∃ entry,
    CellAt datas (aroundEdge edge.base edge.axis i) entry ∧
      Shows (aroundEdge edge.base edge.axis i) entry.cornerSolidMask edge lowerSolid

variable {datas : Fin 19 → PseudoChunkData} {cell : CellEntry} {edge : Edge} {lowerSolid : Bool}

theorem Consistent.findEntry (consistent : Consistent datas) {place : UVec3}
    (inside : InChunk place) : (datas 0).findEntry place = some cell ↔
      cell ∈ (datas 0).cellEntries ∧ cell.cellIndex = place :=
  PseudoChunkData.findEntry_of_sorted consistent.sorted
    (fun _ mem => (consistent.inside _ mem).inBytes) inside.inBytes cell

theorem Consistent.found (consistent : Consistent datas) (mem : cell ∈ (datas 0).cellEntries) :
    (datas 0).findEntry cell.cellIndex = some cell :=
  (consistent.findEntry (consistent.inside _ mem)).mpr ⟨mem, rfl⟩

theorem Consistent.nodup (consistent : Consistent datas) : (datas 0).cellEntries.Nodup := by
  refine consistent.sorted.imp ?_
  rintro entry _ before rfl
  rcases before with less | ⟨-, less | ⟨-, less⟩⟩
  · exact Nat.lt_irrefl _ less
  · exact Nat.lt_irrefl _ less
  · exact Nat.lt_irrefl _ less

/-! ## Owners of edges -/

/-- The cell has the edge at an upper side only where this is a border of the chunk. -/
def Owns (cell : UVec3) (slot : Fin 12) : Prop :=
  ((slotOffset slot).x = 1 → cell.x + 1 = chunkSizeBlocks) ∧
  ((slotOffset slot).y = 1 → cell.y + 1 = chunkSizeBlocks) ∧
  ((slotOffset slot).z = 1 → cell.z + 1 = chunkSizeBlocks)

/-- The edge is at two upper sides of the cell, and exactly one of them is a border of the
chunk. -/
def HalfBorder (cell : UVec3) (slot : Fin 12) : Prop :=
  slot = 3 ∧ (cell.y + 1 = chunkSizeBlocks ↔ cell.z + 1 ≠ chunkSizeBlocks) ∨
  slot = 7 ∧ (cell.x + 1 = chunkSizeBlocks ↔ cell.z + 1 ≠ chunkSizeBlocks) ∨
  slot = 11 ∧ (cell.x + 1 = chunkSizeBlocks ↔ cell.y + 1 ≠ chunkSizeBlocks)

/-- The code takes for owners also the cells that have only one of both sides at a border. -/
theorem adds_iff (cell : UVec3) (slot : Fin 12) :
    Adds cell slot ↔ Owns cell slot ∨ HalfBorder cell slot := by
  match slot with
  | 0 | 1 | 2 | 4 | 5 | 6 | 8 | 9 | 10 => simp [Adds, Owns, HalfBorder, slotOffset]
  | 3 | 7 | 11 =>
    simp [Adds, Owns, HalfBorder, slotOffset]
    tauto

theorem HalfBorder.not_owns {cell : UVec3} {slot : Fin 12} (half : HalfBorder cell slot) :
    ¬ Owns cell slot := by
  rintro ⟨x, y, z⟩
  rcases half with ⟨rfl, half⟩ | ⟨rfl, half⟩ | ⟨rfl, half⟩
  · exact half.mp (y rfl) (z rfl)
  · exact half.mp (x rfl) (z rfl)
  · exact half.mp (x rfl) (y rfl)

theorem slot_injective : ∀ slot other : Fin 12, slotOffset slot = slotOffset other →
    slotAxis slot = slotAxis other → slot = other := by
  decide

theorem edgeOf_injective {coord : CellCoord} {slot other : Fin 12}
    (same : edgeOf coord slot = edgeOf coord other) : slot = other := by
  rw [edgeOf, edgeOf, Edge.mk.injEq, CellCoord.add, CellCoord.add, CellCoord.mk.injEq] at same
  obtain ⟨⟨x, y, z⟩, axis⟩ := same
  apply slot_injective
  · apply CellCoord.ext <;> omega
  · exact axis

theorem owner_unique {cell other : UVec3} {slot otherSlot : Fin 12} (inside : InChunk cell)
    (otherInside : InChunk other) (owns : Owns cell slot) (otherOwns : Owns other otherSlot)
    (same : edgeOf (cellCoord cell) slot = edgeOf (cellCoord other) otherSlot) :
    cell = other ∧ slot = otherSlot := by
  have sameCell : cell = other := by
    rw [edgeOf, edgeOf, Edge.mk.injEq, CellCoord.add, CellCoord.add, CellCoord.mk.injEq] at same
    obtain ⟨⟨x, y, z⟩, -⟩ := same
    obtain ⟨xBound, yBound, zBound⟩ := inside
    obtain ⟨xBound', yBound', zBound'⟩ := otherInside
    obtain ⟨xOwns, yOwns, zOwns⟩ := owns
    obtain ⟨xOwns', yOwns', zOwns'⟩ := otherOwns
    obtain ⟨offsetX, offsetY, offsetZ, -⟩ := slotOffset_spec slot
    obtain ⟨offsetX', offsetY', offsetZ', -⟩ := slotOffset_spec otherSlot
    simp only [cellCoord] at x y z
    apply UVec3.ext <;> omega
  subst sameCell
  exact ⟨rfl, edgeOf_injective same⟩

/-- The coordinate is that of the main chunk that is the last at the borders around the base. -/
structure OwnerAt (base coord : CellCoord) : Prop where
  inMain : InMain coord
  x : coord.x ≠ base.x → coord.x + 1 = chunkSizeBlocks
  y : coord.y ≠ base.y → coord.y + 1 = chunkSizeBlocks
  z : coord.z ≠ base.z → coord.z + 1 = chunkSizeBlocks

theorem Edge.Borders.exists_ownerAt (borders : edge.Borders) :
    ∃ i, OwnerAt edge.base (aroundEdge edge.base edge.axis i) := by
  obtain ⟨⟨baseX, baseY, baseZ⟩, axis⟩ := edge
  obtain ⟨x, y, z, along⟩ := borders
  simp only [chunkSizeBlocks] at x y z along
  -- In each case one of the four cells is the last at both sides.
  have owner : ∃ i, (let coord := aroundEdge ⟨baseX, baseY, baseZ⟩ axis i
      ((0 ≤ coord.x ∧ coord.x < 32) ∧ (0 ≤ coord.y ∧ coord.y < 32) ∧ 0 ≤ coord.z ∧ coord.z < 32) ∧
        (coord.x ≠ baseX → coord.x = 31) ∧ (coord.y ≠ baseY → coord.y = 31) ∧
        (coord.z ≠ baseZ → coord.z = 31)) := by
    rcases along with ⟨rfl, along⟩ | ⟨rfl, along⟩ | ⟨rfl, along⟩
    all_goals
      simp [Fin.exists_fin_succ, aroundEdge, edgeAxisOffsets, CellCoord.add]
      omega
  obtain ⟨i, inMain, lastX, lastY, lastZ⟩ := owner
  exact ⟨i, inMain, fun differs => by rw [lastX differs]; rfl,
    fun differs => by rw [lastY differs]; rfl, fun differs => by rw [lastZ differs]; rfl⟩

theorem MainEdge.borders (consistent : Consistent datas) (main : MainEdge datas edge lowerSolid) :
    edge.Borders := by
  obtain ⟨cell, mem, slot, -, rfl, -⟩ := main
  exact borders_edgeOf (consistent.inside cell mem) slot

theorem MainEdge.exists_owner (consistent : Consistent datas)
    (main : MainEdge datas edge lowerSolid) :
    ∃ cell ∈ (datas 0).cellEntries, ∃ slot, Crosses cell.cornerSolidMask slot ∧
      Owns cell.cellIndex slot ∧ edgeOf (cellCoord cell.cellIndex) slot = edge ∧
      cell.cornerSolidMask.getLsbD (lowerCorner slot) = lowerSolid := by
  obtain ⟨i, owner⟩ := (main.borders consistent).exists_ownerAt
  obtain ⟨cell, cellAt, slot, crosses, isEdge, isLower⟩ := consistent.shared _ _ main i
  obtain ⟨place, inside, isPlace⟩ := owner.inMain.exists_place
  have found : (datas 0).findEntry place = some cell := by
    rw [isPlace, ← placeIn_main] at cellAt
    exact cellAt.findEntry inside
  obtain ⟨mem, rfl⟩ := (consistent.findEntry inside).mp found
  rw [isPlace] at owner isEdge
  refine ⟨cell, mem, slot, crosses, ?_, isEdge, isLower⟩
  obtain ⟨-, x, y, z⟩ := owner
  rw [← isEdge] at x y z
  simp only [edgeOf, CellCoord.add, cellCoord] at x y z
  exact ⟨fun upper => by omega, fun upper => by omega, fun upper => by omega⟩

/-! ## The quads -/

/-- The edge of a cell, and whether its lower end is solid. -/
def quadOf (pair : CellEntry × Fin 12) : Edge × Bool :=
  (edgeOf (cellCoord pair.1.cellIndex) pair.2, pair.1.cornerSolidMask.getLsbD (lowerCorner pair.2))

/-- The places of the vertices of the two triangles around an edge. -/
def quadPlaces (quad : Edge × Bool) : List CellCoord :=
  (corners quad.2).map (aroundEdge quad.1.base quad.1.axis)

theorem length_flatMap_quadPlaces (quads : List (Edge × Bool)) :
    (quads.flatMap quadPlaces).length = 6 * quads.length :=
  length_flatMap_six fun quad _ => by rw [quadPlaces, List.length_map, length_corners]

theorem mem_quads (consistent : Consistent datas) :
    (edge, lowerSolid) ∈ (callPairs datas).map quadOf ↔ MainEdge datas edge lowerSolid := by
  rw [List.mem_map]
  constructor
  · rintro ⟨⟨cell, slot⟩, mem, same⟩
    obtain ⟨mem, crosses, -⟩ := mem_callPairs.mp mem
    rw [quadOf, Prod.mk.injEq] at same
    exact ⟨cell, mem, slot, crosses, same⟩
  · intro main
    obtain ⟨cell, mem, slot, crosses, owns, isEdge, isLower⟩ := main.exists_owner consistent
    refine ⟨(cell, slot), mem_callPairs.mpr ⟨mem, crosses, (adds_iff _ _).mpr (.inl owns)⟩, ?_⟩
    rw [quadOf, isEdge, isLower]

theorem nodup_quads_iff (consistent : Consistent datas) :
    (((callPairs datas).map quadOf).map Prod.fst).Nodup ↔ ∀ cell ∈ (datas 0).cellEntries,
      ∀ slot, Crosses cell.cornerSolidMask slot → ¬ HalfBorder cell.cellIndex slot := by
  rw [List.map_map]
  constructor
  · intro nodup cell mem slot crosses half
    have pair := mem_callPairs.mpr ⟨mem, crosses, (adds_iff _ _).mpr (.inr half)⟩
    have main : MainEdge datas (edgeOf (cellCoord cell.cellIndex) slot) _ :=
      ⟨cell, mem, slot, crosses, rfl, rfl⟩
    obtain ⟨owner, ownerMem, ownerSlot, ownerCrosses, owns, isEdge, -⟩ :=
      main.exists_owner consistent
    have ownerPair := mem_callPairs.mpr ⟨ownerMem, ownerCrosses, (adds_iff _ _).mpr (.inl owns)⟩
    have same := List.inj_on_of_nodup_map nodup ownerPair pair isEdge
    cases same
    exact half.not_owns owns
  · intro noHalf
    have owns : ∀ pair ∈ callPairs datas, Owns pair.1.cellIndex pair.2 := by
      rintro ⟨cell, slot⟩ mem
      obtain ⟨mem, crosses, taken⟩ := mem_callPairs.mp mem
      exact ((adds_iff _ _).mp taken).resolve_right (noHalf cell mem slot crosses)
    refine (nodup_callPairs consistent.nodup).map_on ?_
    rintro ⟨cell, slot⟩ mem ⟨other, otherSlot⟩ otherMem same
    have cellMem := (mem_callPairs.mp mem).1
    have otherCellMem := (mem_callPairs.mp otherMem).1
    obtain ⟨sameCell, rfl⟩ := owner_unique (consistent.inside _ cellMem)
      (consistent.inside _ otherCellMem) (owns _ mem) (owns _ otherMem) same
    have sameEntry : some cell = some other := by
      rw [← consistent.found cellMem, sameCell, consistent.found otherCellMem]
    rw [Option.some.inj sameEntry]

/-! ## The surface -/

/-- The vertices of a call are those of the quad of its edge, each with the cell loaded for it. -/
theorem callVertices_spec (lod : Nat) (consistent : Consistent datas)
    (mem : cell ∈ (datas 0).cellEntries) (slot : Fin 12) :
    (callVertices datas lod (slotCall cell slot)).map (fun vertex => vertex.cell.place) =
        quadPlaces (quadOf (cell, slot)) ∧
      ∀ vertex ∈ callVertices datas lod (slotCall cell slot), ∃ i, Loads datas vertex.cell
        (aroundEdge (edgeOf (cellCoord cell.cellIndex) slot).base (slotAxis slot) i) := by
  have inside := consistent.inside cell mem
  obtain ⟨cells, isCells⟩ := callCells_isSome datas inside slot
  have loads := callCells_loads inside (consistent.found mem) isCells
  have isVertices : callVertices datas lod (slotCall cell slot) =
      quadVertices lod cells (slotCall cell slot).lowerSolid := by
    rw [callVertices, isCells]
    rfl
  have isCell := quadVertices_eq lod cells (slotCall cell slot).lowerSolid
  rw [isVertices]
  constructor
  · have places := congrArg (List.map ProcessedCellEntry.place) isCell
    rw [List.map_map, List.map_map] at places
    exact places.trans (List.map_congr_left fun i _ => (loads i).place)
  · intro vertex vertexMem
    have cellMem := List.mem_map_of_mem (f := CellVertex.cell) vertexMem
    rw [isCell] at cellMem
    obtain ⟨i, -, isLoaded⟩ := List.mem_map.mp cellMem
    rw [← isLoaded]
    exact ⟨i, loads i⟩

/-- A surface is generated: its vertices are those of the quads of the calls, and each has the
entry of its cell. -/
theorem generateDatas_spec (consistent : Consistent datas) (lod : Nat) :
    ∃ surface, generateDatas datas lod = some surface ∧ Counts surface ∧
      (∀ vertex ∈ surface.vertices, ∃ entry, vertex.cell.entry = some entry ∧
        CellAt datas vertex.cell.place entry) ∧
      surface.vertices.map (fun vertex => vertex.cell.place) =
        ((callPairs datas).map quadOf).flatMap quadPlaces := by
  obtain ⟨surface, generated, counts, vertices⟩ := generateDatas_eq lod consistent.inside
  rw [edgeCalls_eq, List.flatMap_map] at vertices
  refine ⟨surface, generated, counts, ?_, ?_⟩
  · intro vertex vertexMem
    rw [vertices] at vertexMem
    obtain ⟨⟨cell, slot⟩, mem, vertexMem⟩ := List.mem_flatMap.mp vertexMem
    obtain ⟨mem, crosses, -⟩ := mem_callPairs.mp mem
    obtain ⟨i, loads⟩ := (callVertices_spec lod consistent mem slot).2 vertex vertexMem
    obtain ⟨entry, cellAt, -⟩ := consistent.shared _ _ ⟨cell, mem, slot, crosses, rfl, rfl⟩ i
    refine ⟨entry, ?_, ?_⟩
    · obtain ⟨j, inside, isPlace, -, isEntry⟩ := loads
      rw [isEntry]
      exact CellAt.findEntry (isPlace ▸ cellAt) inside
    · rw [loads.place]
      exact cellAt
  · rw [vertices, List.map_flatMap, List.flatMap_map]
    refine List.flatMap_congr fun ⟨cell, slot⟩ mem => ?_
    exact (callVertices_spec lod consistent (mem_callPairs.mp mem).1 slot).1

/-- A surface is generated that has exactly one quad for each edge of the main cells that it
crosses, with a corner in each of the four cells around the edge. -/
def OneQuadEach (datas : Fin 19 → PseudoChunkData) (lod : Nat) : Prop :=
  ∃ surface, generateDatas datas lod = some surface ∧ Counts surface ∧
    (∀ vertex ∈ surface.vertices, ∃ entry, vertex.cell.entry = some entry ∧
      CellAt datas vertex.cell.place entry) ∧
    ∃ quads : List (Edge × Bool), (quads.map Prod.fst).Nodup ∧
      (∀ edge lowerSolid, (edge, lowerSolid) ∈ quads ↔ MainEdge datas edge lowerSolid) ∧
      surface.vertices.map (fun vertex => vertex.cell.place) = quads.flatMap quadPlaces

/-- There is only one list of quads that has each of them once, up to its order. -/
theorem OneQuadEach.nodup {lod : Nat} (consistent : Consistent datas)
    (once : OneQuadEach datas lod) : (((callPairs datas).map quadOf).map Prod.fst).Nodup := by
  obtain ⟨surface, generated, -, -, quads, nodup, isMain, places⟩ := once
  obtain ⟨_, generated', -, -, places'⟩ := generateDatas_spec consistent lod
  cases generated.symm.trans generated'
  have length : quads.length = ((callPairs datas).map quadOf).length := by
    have same := congrArg List.length (places.symm.trans places')
    rw [length_flatMap_quadPlaces, length_flatMap_quadPlaces] at same
    omega
  have subset : quads.map Prod.fst ⊆ ((callPairs datas).map quadOf).map Prod.fst := by
    apply List.map_subset
    rintro ⟨edge, lowerSolid⟩ mem
    exact (mem_quads consistent).mpr ((isMain _ _).mp mem)
  have perm := (nodup.subperm subset).perm_of_length_le (by
    simp only [List.length_map] at length ⊢
    exact length.ge)
  exact perm.nodup_iff.mp nodup

theorem oneQuadEach_of_nodup (consistent : Consistent datas) (lod : Nat)
    (nodup : (((callPairs datas).map quadOf).map Prod.fst).Nodup) : OneQuadEach datas lod := by
  obtain ⟨surface, generated, counts, entries, places⟩ := generateDatas_spec consistent lod
  exact ⟨surface, generated, counts, entries, _, nodup, fun _ _ => mem_quads consistent, places⟩

/-- Of consistent pseudo-chunks a surface is generated without a failed assertion. It has one quad
for each edge exactly if no main cell has a crossing edge at two upper sides of which only one is a
border of the chunk. -/
theorem generateDatas_once_iff (datas : Fin 19 → PseudoChunkData) (lod : Nat)
    (consistent : Consistent datas) :
    (∃ surface, generateDatas datas lod = some surface) ∧
      (OneQuadEach datas lod ↔ ∀ cell ∈ (datas 0).cellEntries, ∀ slot,
        Crosses cell.cornerSolidMask slot → ¬ HalfBorder cell.cellIndex slot) := by
  constructor
  · obtain ⟨surface, generated, -⟩ := generateDatas_spec consistent lod
    exact ⟨surface, generated⟩
  · rw [← nodup_quads_iff consistent]
    exact ⟨OneQuadEach.nodup consistent, oneQuadEach_of_nodup consistent lod⟩

/-! ## Pseudo-chunks of one field of samples -/

/-- The samples of a chunk, from those of the whole field. -/
def samplesAt (field : CellCoord → Bool) (offset : CellCoord) : Samples :=
  fun x y z => field (placeIn offset ⟨x, y, z⟩)

/-- Where a corner of a cell is. -/
def cornerOffset (i : Nat) : CellCoord := ⟨cornerX i, cornerY i, cornerZ i⟩

theorem cornerSolid_samplesAt (field : CellCoord → Bool) (offset : CellCoord) (place : UVec3)
    (i : Nat) : cornerSolid (samplesAt field offset) place i =
      field ((placeIn offset place).add (cornerOffset i)) := by
  simp only [cornerSolid, samplesAt, placeIn, CellCoord.add, cornerOffset, Nat.cast_add,
    Int.add_assoc]

theorem cornerOffset_slot : ∀ slot : Fin 12,
    lowerCorner slot < 8 ∧ cornerOffset (lowerCorner slot) = slotOffset slot ∧
    upperCorner slot < 8 ∧
      cornerOffset (upperCorner slot) = (slotOffset slot).add (unit (slotAxis slot)) := by
  decide

theorem CellCoord.add_assoc (coord offset other : CellCoord) :
    coord.add (offset.add other) = (coord.add offset).add other := by
  simp only [CellCoord.add, Int.add_assoc]

section Field

variable {field : CellCoord → Bool} {offset : CellCoord} {place : UVec3} {mask : BitVec 8}

/-- The lower end of an edge is solid as the field is where the edge starts. -/
theorem lowerSolid_eq (isMask : IsCornerMask mask (samplesAt field offset) place) (slot : Fin 12) :
    mask.getLsbD (lowerCorner slot) = field (edgeOf (placeIn offset place) slot).base := by
  obtain ⟨bound, isOffset, -⟩ := cornerOffset_slot slot
  rw [isMask _ bound, cornerSolid_samplesAt, isOffset, edgeOf]

theorem crosses_iff (isMask : IsCornerMask mask (samplesAt field offset) place) (slot : Fin 12) :
    Crosses mask slot ↔ field (edgeOf (placeIn offset place) slot).base ≠
      field ((edgeOf (placeIn offset place) slot).base.add (unit (slotAxis slot))) := by
  obtain ⟨-, -, bound, isOffset⟩ := cornerOffset_slot slot
  rw [Crosses, lowerSolid_eq isMask, isMask _ bound, cornerSolid_samplesAt, isOffset,
    CellCoord.add_assoc, edgeOf]

end Field

theorem Crosses.stored {mask : BitVec 8} {slot : Fin 12} (crosses : Crosses mask slot) :
    ¬ (mask = 0 ∨ mask = 255) := by
  have full : ∀ slot, (255 : BitVec 8).getLsbD (lowerCorner slot) =
      (255 : BitVec 8).getLsbD (upperCorner slot) := by decide
  rintro (rfl | rfl)
  · exact crosses (by simp)
  · exact crosses (full slot)

/-- Which edge of the cells around it an edge is. -/
def aroundSlot : Fin 3 → Fin 4 → Fin 12 := ![![3, 1, 2, 0], ![7, 6, 5, 4], ![11, 10, 9, 8]]

theorem aroundSlot_spec : ∀ (axis : Fin 3) (i : Fin 4),
    (aroundEdge ⟨0, 0, 0⟩ axis i).add (slotOffset (aroundSlot axis i)) = ⟨0, 0, 0⟩ ∧
      slotAxis (aroundSlot axis i) = axis := by
  decide

theorem aroundEdge_eq (base : CellCoord) (axis : Fin 3) (i : Fin 4) :
    aroundEdge base axis i = base.add (aroundEdge ⟨0, 0, 0⟩ axis i) := by
  match i with
  | 0 | 1 | 2 | 3 => simp [aroundEdge, CellCoord.add]

theorem edgeOf_aroundEdge (edge : Edge) (i : Fin 4) :
    edgeOf (aroundEdge edge.base edge.axis i) (aroundSlot edge.axis i) = edge := by
  obtain ⟨base, axis⟩ := edge
  obtain ⟨cancels, isAxis⟩ := aroundSlot_spec axis i
  rw [edgeOf, aroundEdge_eq, ← CellCoord.add_assoc, cancels, isAxis]
  simp [CellCoord.add]

theorem consistent_of_stores {field : CellCoord → Bool}
    (stores : ∀ i, (datas i).Stores (samplesAt field (dataOffset i))) : Consistent datas := by
  have inside : ∀ cell ∈ (datas 0).cellEntries, InChunk cell.cellIndex :=
    fun cell mem => (((stores 0).mem_iff cell).mp mem).1
  refine ⟨sorted_of_projection inside (stores 0).sorted, inside, ?_⟩
  rintro edge lowerSolid ⟨cell, mem, slot, crosses, rfl, rfl⟩ i
  obtain ⟨cellInside, -, isMask⟩ := ((stores 0).mem_iff cell).mp mem
  have differs := (crosses_iff isMask slot).mp crosses
  rw [lowerSolid_eq isMask]
  rw [placeIn_main] at differs ⊢
  -- the cell around the edge, in the chunk where it lies
  obtain ⟨j, place, placeInside, isPlace, -⟩ :=
    adjacentCell_eq datas ((borders_edgeOf cellInside slot).near i)
  have isMask' := isCornerMask_cornerMask (samplesAt field (dataOffset j)) place
  have isEdge := edgeOf_aroundEdge (edgeOf (cellCoord cell.cellIndex) slot) i
  rw [isPlace] at isEdge ⊢
  have crosses' : Crosses (cornerMask (samplesAt field (dataOffset j)) place)
      (aroundSlot (slotAxis slot) i) := by
    rw [crosses_iff isMask', (aroundSlot_spec _ i).2]
    exact isEdge.symm ▸ differs
  have mixed : Mixed (samplesAt field (dataOffset j)) place :=
    isMask'.mixed_iff.mpr crosses'.stored
  refine ⟨⟨place, cornerMask _ place⟩, ⟨j, place, placeInside, rfl, ?_⟩, _, crosses', isEdge, ?_⟩
  · exact ((stores j).findEntry_iff placeInside).mpr ⟨rfl, mixed, isMask'⟩
  · rw [lowerSolid_eq isMask', ← isEdge]
    rfl

/-- The pseudo-chunks of a field. -/
def fieldDatas (field : CellCoord → Bool) (i : Fin 19) : PseudoChunkData :=
  ofSamples (samplesAt field (dataOffset i))

theorem fieldDatas_stores (field : CellCoord → Bool) (i : Fin 19) :
    (fieldDatas field i).Stores (samplesAt field (dataOffset i)) :=
  ofSamples_stores _

/-- One solid sample in the main chunk. -/
def oneSolid : CellCoord → Bool := fun coord => coord = ⟨5, 5, 5⟩

theorem oneSolid_once : OneQuadEach (fieldDatas oneSolid) 0 := by
  refine (generateDatas_once_iff _ 0 (consistent_of_stores (fieldDatas_stores oneSolid))).2.mpr ?_
  intro cell mem slot crosses half
  obtain ⟨-, ⟨⟨i, -, isSolid⟩, -⟩, -⟩ := ((fieldDatas_stores oneSolid 0).mem_iff cell).mp mem
  rw [cornerSolid_samplesAt, oneSolid, decide_eq_true_eq, placeIn_main,
    CellCoord.ext_iff] at isSolid
  simp only [CellCoord.add, cellCoord, cornerOffset] at isSolid
  simp only [HalfBorder, chunkSizeBlocks] at half
  omega

/-- Flat ground in the middle of the main chunk. -/
def flatGround : CellCoord → Bool := fun coord => coord.y < 16

/-- Around a side of the chunk, one cell of the ground has the edge at both sides. -/
theorem flatGround_twice : ¬ ∀ (datas : Fin 19 → PseudoChunkData) (lod : Nat),
    Consistent datas → OneQuadEach datas lod := by
  intro once
  have stores := fieldDatas_stores flatGround
  have consistent := consistent_of_stores stores
  have noHalf := (nodup_quads_iff consistent).mp ((once _ 0 consistent).nodup consistent)
  have isMask := isCornerMask_cornerMask (samplesAt flatGround (dataOffset 0)) ⟨31, 15, 0⟩
  have crosses : Crosses (cornerMask (samplesAt flatGround (dataOffset 0)) ⟨31, 15, 0⟩) 7 :=
    (crosses_iff isMask 7).mpr (by decide)
  have half : HalfBorder ⟨31, 15, 0⟩ 7 := .inr (.inl ⟨rfl, by decide⟩)
  have inside : InChunk ⟨31, 15, 0⟩ := ⟨by decide, by decide, by decide⟩
  refine noHalf ⟨⟨31, 15, 0⟩, cornerMask _ ⟨31, 15, 0⟩⟩ ?_ 7 crosses half
  exact ((stores 0).mem_iff _).mpr ⟨inside, isMask.mixed_iff.mpr crosses.stored, isMask⟩

end Voxen.Land.PseudoChunkSurface
