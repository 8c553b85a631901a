import Voxen.Lib.Interning
import Voxen.Terrain.Generator

/-!
# Building the surface of a chunk

`SurfaceBuilder` makes one vertex for each cell around a crossing edge of the grid, and two
triangles between the four cells of each.  The positions and normals of the vertices are left
out, and with them the accumulators that they are solved from.
-/

namespace Voxen.Terrain.SurfaceBuilder

open Interning

/-- A vertex and the cell that its position is solved in. -/
structure SurfaceVertex where
  cell : IVec
  flags : Nat

/-- The key of a cell in both maps. -/
def cellKey (cell : IVec) : BitVec 32 :=
  let kmult := BitVec.ofInt 32 (chunkSize + 2)
  (.ofInt 32 (cell 0 + 1) * kmult + .ofInt 32 (cell 1 + 1)) * kmult + .ofInt 32 (cell 2 + 1)

def vertexKey (vertex : SurfaceVertex) : BitVec 32 := cellKey vertex.cell

def newVertex (cell : IVec) : SurfaceVertex where
  cell := cell
  flags := if (∃ i, cell i < 0) ∨ ∃ i, cell i ≥ chunkSize then 1 else 0

/-- The vertices with `cell_to_vertex_id`, and the indices. -/
structure ChunkSurface where
  table : Table (BitVec 32) SurfaceVertex := {}
  indices : List Nat := []

/-- The cells around an edge, in the order of their vertices `id0` to `id3`. -/
def cellsAround (edge : Edge) : List IVec :=
  let axis2 := edge.axis + 1
  let axis3 := edge.axis + 2
  let lesser := edge.lesserEndpoint
  [lesser - unit axis2 - unit axis3, lesser - unit axis3, lesser - unit axis2, lesser]

/-- `addTriangle(a, b, c)`. -/
def addTriangle (a b c : Nat) (indices : List Nat) : List Nat :=
  if a = b ∨ b = c ∨ a = c then indices else indices ++ [a, b, c]

/-- `add_triangles(entry, axis)`. -/
def addTriangles (surface : ChunkSurface) (edge : Edge) : ChunkSurface :=
  let (ids, table) := surface.table.getAll vertexKey ((cellsAround edge).map newVertex)
  let id (i : Nat) : Nat := ids.getD i 0 % 2 ^ 32
  if max (max (id 0) (id 1)) (max (id 2) (id 3)) = 2 ^ 32 - 1 then { surface with table }
  else if edge.isLesserEndpointSolid then
    { table, indices :=
        addTriangle (id 1) (id 3) (id 2) (addTriangle (id 0) (id 1) (id 2) surface.indices) }
  else
    { table, indices :=
        addTriangle (id 3) (id 1) (id 2) (addTriangle (id 1) (id 0) (id 2) surface.indices) }

/-- `buildSurface(chunk)`. -/
def buildSurface (hermiteData : List HermiteDataEntry) : ChunkSurface :=
  if hermiteData.isEmpty then {}
  else hermiteData.foldl (fun surface entry => addTriangles surface entry.edge) {}

/-! ## Cells of the grid -/

/-- A cell with a corner in the grid. -/
def AtGrid (cell : IVec) : Prop := ∀ i, -1 ≤ cell i ∧ cell i ≤ chunkSize

variable {solid : IVec → Bool} {edge : Edge} {edges : List Edge} {cell other : IVec} {i j : Nat}
  {table later : Table (BitVec 32) SurfaceVertex} {surface : ChunkSurface}

theorem unit_next (axis : Fin 3) (i : Fin 3) :
    0 ≤ unit (axis + 1) i + unit (axis + 2) i ∧ unit (axis + 1) i + unit (axis + 2) i ≤ 1 := by
  revert axis i
  decide

theorem cellKey_toNat (atGrid : AtGrid cell) :
    ((cellKey cell).toNat : Int) = ((cell 0 + 1) * 34 + (cell 1 + 1)) * 34 + (cell 2 + 1) := by
  have x := atGrid 0
  have y := atGrid 1
  have z := atGrid 2
  have same : cellKey cell =
      .ofInt 32 (((cell 0 + 1) * 34 + (cell 1 + 1)) * 34 + (cell 2 + 1)) := by
    rw [BitVec.ofInt_add, BitVec.ofInt_mul, BitVec.ofInt_add, BitVec.ofInt_mul]
    rfl
  simp only [chunkSize] at x y z
  rw [same, BitVec.toNat_ofInt]
  omega

theorem cellKey_inj (atGrid : AtGrid cell) (otherAt : AtGrid other)
    (same : cellKey cell = cellKey other) : cell = other := by
  have key := cellKey_toNat atGrid
  rw [same, cellKey_toNat otherAt] at key
  have x := atGrid 0
  have y := atGrid 1
  have z := atGrid 2
  have x' := otherAt 0
  have y' := otherAt 1
  have z' := otherAt 2
  simp only [chunkSize] at x y z x' y' z'
  exact funext (forall_axis (by omega) (by omega) (by omega))

theorem atGrid_of_inGrid (inGrid : InGrid edge.lesserEndpoint) :
    ∀ cell ∈ cellsAround edge, AtGrid cell := by
  intro cell mem i
  have inside := inGrid i
  have both := unit_next edge.axis i
  have second := unit_bounds (edge.axis + 1) i
  have third := unit_bounds (edge.axis + 2) i
  simp only [cellsAround, List.mem_cons, List.not_mem_nil, or_false] at mem
  rcases mem with rfl | rfl | rfl | rfl <;> grind [Pi.sub_apply]

theorem nodup_cellsAround (edge : Edge) : (cellsAround edge).Nodup := by
  have offsets : ∀ axis : Fin 3, [-unit (axis + 1) - unit (axis + 2), -unit (axis + 2),
      -unit (axis + 1), 0].Nodup := by decide
  have moved := (offsets edge.axis).map (add_right_injective edge.lesserEndpoint)
  simp only [List.map_cons, List.map_nil, add_zero, ← sub_eq_add_neg, ← add_sub_assoc] at moved
  exact moved

/-! ## Building -/

/-- The corners of the triangles of an edge. -/
def corners {α : Type} (c0 c1 c2 c3 : α) : Bool → List α
  | true => [c0, c1, c2, c1, c3, c2]
  | false => [c1, c0, c2, c3, c1, c2]

def cellCorners (edge : Edge) : List IVec :=
  let axis2 := edge.axis + 1
  let axis3 := edge.axis + 2
  let lesser := edge.lesserEndpoint
  corners (lesser - unit axis2 - unit axis3) (lesser - unit axis3) (lesser - unit axis2) lesser
    edge.isLesserEndpointSolid

/-- The vertex with the number is that of the cell. -/
def Shows (table : Table (BitVec 32) SurfaceVertex) (cell : IVec) (i : Nat) : Prop :=
  table.values[i]? = some (newVertex cell)

theorem Shows.mono (shows : Shows table cell i) (grows : table.values <+: later.values) :
    Shows later cell i := by
  obtain ⟨inside, -⟩ := List.getElem?_eq_some_iff.mp shows
  obtain ⟨more, whole⟩ := grows
  rwa [Shows, ← whole, List.getElem?_append_left inside]

theorem Shows.lt (shows : Shows table cell i) : i < table.values.length :=
  (List.getElem?_eq_some_iff.mp shows).1

theorem Shows.ne (shows : Shows table cell i) (otherShows : Shows table other j)
    (differ : cell ≠ other) : i ≠ j := by
  rintro rfl
  rw [Shows, shows, Option.some.injEq] at otherShows
  exact differ (congrArg SurfaceVertex.cell otherShows)

/-- The vertices and the triangles of some edges. -/
structure Built (edges : List Edge) (surface : ChunkSurface) : Prop where
  lawful : surface.table.Lawful vertexKey
  origin : ∀ vertex ∈ surface.table.values, ∃ edge ∈ edges, ∃ cell ∈ cellsAround edge,
    vertex = newVertex cell
  indices : List.Forall₂ (Shows surface.table) (edges.flatMap cellCorners) surface.indices

theorem built_empty : Built [] {} :=
  ⟨Table.lawful_empty, fun _ mem => absurd mem List.not_mem_nil, .nil⟩

/-- Cells at the grid leave room below the greatest vertex id. -/
theorem length_values_le (lawful : table.Lawful vertexKey)
    (atGrid : ∀ vertex ∈ table.values, AtGrid vertex.cell) : table.values.length ≤ 34 ^ 3 := by
  have nodup := lawful.nodup.map fun _ _ => BitVec.eq_of_toNat_eq
  have inside : (table.values.map vertexKey).map BitVec.toNat ⊆ List.range (34 ^ 3) := by
    intro key mem
    rw [List.map_map] at mem
    obtain ⟨vertex, isVertex, rfl⟩ := List.mem_map.mp mem
    have key := cellKey_toNat (atGrid vertex isVertex)
    have x := atGrid vertex isVertex 0
    have y := atGrid vertex isVertex 1
    have z := atGrid vertex isVertex 2
    simp only [chunkSize] at x y z
    refine List.mem_range.mpr ?_
    simp only [Function.comp_apply, vertexKey]
    omega
  have short := (List.subperm_of_subset nodup inside).length_le
  rwa [List.length_map, List.length_map, List.length_range] at short

theorem Built.addTriangles (built : Built edges surface)
    (atGrid : ∀ edge' ∈ edges ++ [edge], InGrid edge'.lesserEndpoint) :
    Built (edges ++ [edge]) (addTriangles surface edge) := by
  obtain ⟨lawful, grows, reads, mem⟩ :=
    Table.getAll_spec built.lawful ((cellsAround edge).map newVertex)
  rcases got : surface.table.getAll vertexKey ((cellsAround edge).map newVertex) with ⟨ids, table⟩
  rw [got] at lawful grows reads mem
  dsimp only at lawful grows reads mem
  have origin : ∀ vertex ∈ table.values, ∃ edge' ∈ edges ++ [edge],
      ∃ cell ∈ cellsAround edge', vertex = newVertex cell := by
    intro vertex inTable
    rcases mem vertex inTable with old | new
    · obtain ⟨edge', isEdge, made⟩ := built.origin vertex old
      exact ⟨edge', List.mem_append_left _ isEdge, made⟩
    · obtain ⟨cell, isCell, rfl⟩ := List.mem_map.mp new
      exact ⟨edge, List.mem_append_right _ (List.mem_singleton_self _), cell, isCell, rfl⟩
  have small := length_values_le lawful fun vertex inTable => by
    obtain ⟨edge', isEdge, cell, isCell, rfl⟩ := origin vertex inTable
    exact atGrid_of_inGrid (atGrid edge' isEdge) cell isCell
  have here := atGrid_of_inGrid (atGrid edge (List.mem_append_right _ (List.mem_singleton_self _)))
  have shows : ∀ cell ∈ cellsAround edge, ∀ i, table.Reads vertexKey (newVertex cell) i →
      Shows table cell i := by
    rintro cell isCell i ⟨vertex, isThere, same⟩
    obtain ⟨edge', isEdge, other, isOther, rfl⟩ :=
      origin vertex (List.mem_of_getElem? isThere)
    have otherAt := atGrid_of_inGrid (atGrid edge' isEdge) other isOther
    rw [← cellKey_inj otherAt (here cell isCell) same]
    exact isThere
  obtain ⟨id0, ids0, read0, reads0, rfl⟩ := List.forall₂_cons_left_iff.mp reads
  obtain ⟨id1, ids1, read1, reads1, rfl⟩ := List.forall₂_cons_left_iff.mp reads0
  obtain ⟨id2, ids2, read2, reads2, rfl⟩ := List.forall₂_cons_left_iff.mp reads1
  obtain ⟨id3, ids3, read3, reads3, rfl⟩ := List.forall₂_cons_left_iff.mp reads2
  obtain rfl := List.forall₂_nil_left_iff.mp reads3
  have show0 := shows _ (by simp [cellsAround]) _ read0
  have show1 := shows _ (by simp [cellsAround]) _ read1
  have show2 := shows _ (by simp [cellsAround]) _ read2
  have show3 := shows _ (by simp [cellsAround]) _ read3
  have nodup := nodup_cellsAround edge
  simp only [cellsAround, List.nodup_cons, List.mem_cons, List.not_mem_nil, or_false,
    not_or] at nodup
  obtain ⟨⟨not01, not02, -⟩, ⟨not12, not13⟩, not23, -⟩ := nodup
  have ids : List.Forall₂ (Shows table) (cellCorners edge)
      (corners id0 id1 id2 id3 edge.isLesserEndpointSolid) := by
    unfold cellCorners
    cases edge.isLesserEndpointSolid with
    | true => exact .cons show0 (.cons show1 (.cons show2 (.cons show1 (.cons show3
        (.cons show2 .nil)))))
    | false => exact .cons show1 (.cons show0 (.cons show2 (.cons show3 (.cons show1
        (.cons show2 .nil)))))
  have added : Terrain.SurfaceBuilder.addTriangles surface edge =
      { table, indices := surface.indices ++
          corners id0 id1 id2 id3 edge.isLesserEndpointSolid } := by
    have lt0 := show0.lt
    have lt1 := show1.lt
    have lt2 := show2.lt
    have lt3 := show3.lt
    simp only [Terrain.SurfaceBuilder.addTriangles, got, List.getD_cons_zero, List.getD_cons_succ]
    rw [Nat.mod_eq_of_lt (by omega), Nat.mod_eq_of_lt (by omega), Nat.mod_eq_of_lt (by omega),
      Nat.mod_eq_of_lt (by omega), if_neg (by omega)]
    have ne01 := show0.ne show1 not01
    have ne12 := show1.ne show2 not12
    have ne02 := show0.ne show2 not02
    have ne13 := show1.ne show3 not13
    have ne23 := show2.ne show3 not23
    cases edge.isLesserEndpointSolid <;>
      simp [addTriangle, corners, ne01, ne12, ne02, ne13, ne01.symm, ne13.symm, ne23.symm]
  rw [added]
  refine ⟨lawful, origin, ?_⟩
  rw [List.flatMap_append, List.flatMap_singleton]
  exact List.rel_append (built.indices.imp fun _ _ shows => shows.mono grows) ids

theorem built_foldl {more : List Edge} (built : Built edges surface)
    (atGrid : ∀ edge ∈ edges ++ more, InGrid edge.lesserEndpoint) :
    Built (edges ++ more) (more.foldl Terrain.SurfaceBuilder.addTriangles surface) := by
  induction more generalizing edges surface with
  | nil => rwa [List.append_nil]
  | cons edge more ih =>
    rw [List.append_cons] at atGrid ⊢
    exact ih (built.addTriangles fun edge' mem =>
      atGrid edge' (List.mem_append_left _ mem)) atGrid

theorem buildSurface_built {hermiteData : List HermiteDataEntry}
    (crossings : Crossings solid (hermiteData.map HermiteDataEntry.edge)) :
    Built (hermiteData.map HermiteDataEntry.edge) (buildSurface hermiteData) := by
  have built := built_foldl built_empty fun edge (mem : edge ∈ [] ++ hermiteData.map _) =>
    ((crossings.mem_iff edge).mp mem).lesser
  rw [List.foldl_map] at built
  cases hermiteData with
  | nil => exact built
  | cons entry hermiteData => exact built

/-! ## Sides -/

section Sides

variable {α β : Type} [DecidableEq α] [DecidableEq β]

/-- The sides of triangles, each from a corner to the next. -/
def sides : List α → List (α × α)
  | a :: b :: c :: rest => (a, b) :: (b, c) :: (c, a) :: sides rest
  | [] | [_] | [_, _] => []

/-- Corners that stand for each other have the same sides. -/
theorem count_sides_eq {R : α → β → Prop} {a b : α} {i j : β}
    (first : ∀ {x y}, R x y → (x = a ↔ y = i)) (second : ∀ {x y}, R x y → (x = b ↔ y = j))
    {l : List α} {l' : List β} (same : List.Forall₂ R l l') :
    (sides l).count (a, b) = (sides l').count (i, j) := by
  induction l using sides.induct generalizing l' with
  | case1 x y z rest ih =>
    cases same with
    | cons isX same => cases same with
      | cons isY same => cases same with
        | cons isZ same =>
          simp only [sides, List.count_cons, beq_iff_eq, Prod.mk.injEq, ih same, first isX,
            first isY, first isZ, second isX, second isY, second isZ]
  | case2 =>
    cases same
    rfl
  | case3 => cases same with
    | cons _ same =>
      cases same
      rfl
  | case4 => cases same with
    | cons _ same => cases same with
      | cons _ same =>
        cases same
        rfl

omit [DecidableEq α] [DecidableEq β] in
theorem sides_map (f : α → β) (l : List α) :
    sides (l.map f) = (sides l).map (Prod.map f f) := by
  induction l using sides.induct with
  | case1 a b c rest ih => simp only [List.map_cons, sides, ih, Prod.map_apply]
  | case2 => rfl
  | case3 => rfl
  | case4 => rfl

end Sides

/-- The side from a cell to the next one along an axis, or back. -/
def side (cell : IVec) (axis : Fin 3) (forward : Bool) : IVec × IVec :=
  if forward then (cell, cell + unit axis) else (cell + unit axis, cell)

/-- The edges of the face between a cell and the next one along an axis, each with the solid
endpoint for which its triangles have the side. -/
def faceEdges (cell : IVec) (axis : Fin 3) (forward : Bool) : List Edge :=
  let corner := cell + unit axis
  [⟨forward, axis + 2, corner + unit (axis + 1)⟩, ⟨forward, axis + 1, corner⟩,
    ⟨!forward, axis + 1, corner + unit (axis + 2)⟩, ⟨!forward, axis + 2, corner⟩]

/-- The edges at the origin have the sides of the faces that they are in. -/
theorem count_sides_origin (cell : IVec) (axis edgeAxis : Fin 3) (forward lesserSolid : Bool) :
    (sides (cellCorners ⟨lesserSolid, edgeAxis, 0⟩)).count (side cell axis forward) =
      (faceEdges cell axis forward).count ⟨lesserSolid, edgeAxis, 0⟩ := by
  have each : ∀ (lesserSolid : Bool) (edgeAxis : Fin 3),
      ∀ s ∈ sides (cellCorners ⟨lesserSolid, edgeAxis, 0⟩), ∀ (axis : Fin 3) (forward : Bool),
        let cell := if forward then s.1 else s.2
        s = side cell axis forward → (sides (cellCorners ⟨lesserSolid, edgeAxis, 0⟩)).count s =
          (faceEdges cell axis forward).count ⟨lesserSolid, edgeAxis, 0⟩ := by
    decide +kernel
  have back : ∀ (axis : Fin 3) (forward : Bool),
      ∀ cell ∈ [-unit axis, -unit axis - unit (axis + 1), -unit axis - unit (axis + 2)],
        ∀ edge ∈ faceEdges cell axis forward, edge.lesserEndpoint = 0 →
          side cell axis forward ∈ sides (cellCorners edge) := by
    decide +kernel
  by_cases mem : side cell axis forward ∈ sides (cellCorners ⟨lesserSolid, edgeAxis, 0⟩)
  · have here := each lesserSolid edgeAxis _ mem axis forward
    cases forward with
    | true => exact here rfl
    | false => exact here rfl
  · rw [List.count_eq_zero_of_not_mem mem, eq_comm, List.count_eq_zero]
    intro isFace
    refine mem (back axis forward cell ?_ _ isFace rfl)
    simp only [faceEdges, List.mem_cons, List.not_mem_nil, or_false, Edge.mk.injEq] at isFace ⊢
    grind

theorem count_sides_edge (edge : Edge) (cell : IVec) (axis : Fin 3) (forward : Bool) :
    (sides (cellCorners edge)).count (side cell axis forward) =
      (faceEdges cell axis forward).count edge := by
  obtain ⟨lesserSolid, edgeAxis, lesser⟩ := edge
  obtain ⟨offset, rfl⟩ : ∃ offset, cell = lesser + offset := ⟨_, (add_sub_cancel lesser cell).symm⟩
  have moved : side (lesser + offset) axis forward =
      Prod.map (lesser + ·) (lesser + ·) (side offset axis forward) := by
    cases forward <;> simp only [side, add_assoc] <;> rfl
  have corners : cellCorners ⟨lesserSolid, edgeAxis, lesser⟩ =
      (cellCorners ⟨lesserSolid, edgeAxis, 0⟩).map (lesser + ·) := by
    cases lesserSolid <;> simp [cellCorners, corners, sub_eq_add_neg, add_assoc]
  have inj := add_right_injective lesser
  rw [corners, sides_map, moved, List.count_map_of_injective _ _ (inj.prodMap inj),
    count_sides_origin]
  simp only [faceEdges, List.count_cons, List.count_nil, beq_iff_eq, Edge.mk.injEq, add_assoc,
    add_eq_left]

/-- When each edge has a side as often as `wanted` has the edge, the edges have the side as often as
they have the edges wanted. -/
theorem count_sides_flatMap {wanted : List Edge} {side : IVec × IVec}
    (each : ∀ edge, (sides (cellCorners edge)).count side = wanted.count edge)
    (edges : List Edge) : (sides (edges.flatMap cellCorners)).count side =
      (wanted.map fun edge => edges.count edge).sum := by
  induction edges with
  | nil => simp [sides]
  | cons edge edges ih =>
    have apart : ∀ rest, sides (cellCorners edge ++ rest) =
        sides (cellCorners edge) ++ sides rest := by
      intro rest
      unfold cellCorners
      cases edge.isLesserEndpointSolid <;> rfl
    rw [List.flatMap_cons, apart, List.count_append, ih, each]
    clear each ih
    induction wanted with
    | nil => rfl
    | cons first wanted ih =>
      have turned := @BEq.comm _ _ _ first edge
      simp only [List.map_cons, List.sum_cons, List.count_cons, turned] at ih ⊢
      omega

theorem count_crossings (crossings : Crossings solid edges) {point : IVec} {axis : Fin 3}
    {lesserSolid : Bool} (lesser : InGrid point) (bigger : InGrid (point + unit axis)) :
    edges.count ⟨lesserSolid, axis, point⟩ =
      if solid point = lesserSolid ∧ solid (point + unit axis) = !lesserSolid then 1 else 0 := by
  split
  · rename_i differ
    exact List.count_eq_one_of_mem crossings.nodup
      ((crossings.mem_iff _).mpr ⟨lesser, bigger, differ.1, differ.2⟩)
  · rename_i same
    refine List.count_eq_zero.mpr fun mem => ?_
    obtain ⟨-, -, isLesser, isBigger⟩ := (crossings.mem_iff _).mp mem
    exact same ⟨isLesser, isBigger⟩

/-- The four edges of the face behind a cell along an axis are edges of the grid. -/
def FaceInGrid (cell : IVec) (axis : Fin 3) : Prop :=
  ∀ edge ∈ faceEdges cell axis true, InGrid edge.lesserEndpoint ∧ InGrid edge.biggerEndpoint

/-- On the way around a face the solid points are left as often as they are entered. -/
theorem balanced (crossings : Crossings solid edges) {axis : Fin 3}
    (inGrid : FaceInGrid cell axis) :
    (sides (edges.flatMap cellCorners)).count (cell, cell + unit axis) =
      (sides (edges.flatMap cellCorners)).count (cell + unit axis, cell) := by
  have forth := count_sides_flatMap (fun edge => count_sides_edge edge cell axis true) edges
  have back := count_sides_flatMap (fun edge => count_sides_edge edge cell axis false) edges
  refine forth.trans (Eq.trans ?_ back.symm)
  simp only [FaceInGrid, faceEdges, Edge.biggerEndpoint, List.forall_mem_cons,
    add_right_comm _ (unit (axis + 2)) (unit (axis + 1))] at inGrid
  obtain ⟨⟨second, opposite⟩, ⟨corner, -⟩, ⟨third, -⟩, -⟩ := inGrid
  have opposite' : InGrid (cell + unit axis + unit (axis + 2) + unit (axis + 1)) := by
    rwa [add_right_comm]
  simp only [faceEdges, List.map_cons, List.map_nil, List.sum_cons, List.sum_nil,
    count_crossings crossings second opposite, count_crossings crossings corner second,
    count_crossings crossings third opposite', count_crossings crossings corner third,
    add_right_comm _ (unit (axis + 2)) (unit (axis + 1))]
  cases solid (cell + unit axis) <;> cases solid (cell + unit axis + unit (axis + 1)) <;>
    cases solid (cell + unit axis + unit (axis + 2)) <;>
    cases solid (cell + unit axis + unit (axis + 1) + unit (axis + 2)) <;> rfl

/-! ## The surface -/

/-- A cell around an edge of the grid whose endpoints differ. -/
def Touched (solid : IVec → Bool) (cell : IVec) : Prop :=
  ∃ edge, Crosses solid edge ∧ cell ∈ cellsAround edge

/-- The vertices and the triangles that the points of a grid call for. -/
structure Closed (solid : IVec → Bool) (surface : ChunkSurface) (cells : List IVec) : Prop where
  onePerCell : cells.Nodup
  mem_iff : ∀ cell, cell ∈ cells ↔ Touched solid cell
  valid : ∀ i ∈ surface.indices, i < cells.length
  /-- The triangles go through a face as often one way as the other. -/
  balanced : ∀ cell axis, FaceInGrid cell axis → ∀ i j, cells[i]? = some cell →
    cells[j]? = some (cell + unit axis) →
      (sides surface.indices).count (i, j) = (sides surface.indices).count (j, i)

theorem closed {hermiteData : List HermiteDataEntry}
    (crossings : Crossings solid (hermiteData.map HermiteDataEntry.edge)) :
    Closed solid (buildSurface hermiteData)
      ((buildSurface hermiteData).table.values.map SurfaceVertex.cell) := by
  have built := buildSurface_built crossings
  generalize buildSurface hermiteData = surface at built ⊢
  have nodup : (surface.table.values.map SurfaceVertex.cell).Nodup := by
    have keys := built.lawful.nodup
    rw [show vertexKey = cellKey ∘ SurfaceVertex.cell from rfl, ← List.map_map] at keys
    exact keys.of_map
  have shown : ∀ {cell i}, Shows surface.table cell i →
      (surface.table.values.map SurfaceVertex.cell)[i]? = some cell := by
    intro cell i shows
    rw [List.getElem?_map, shows]
    rfl
  refine ⟨nodup, fun cell => ⟨fun mem => ?_, ?_⟩, fun i mem => ?_, ?_⟩
  · obtain ⟨vertex, isVertex, rfl⟩ := List.mem_map.mp mem
    obtain ⟨edge, isEdge, cell, isCell, rfl⟩ := built.origin vertex isVertex
    exact ⟨edge, (crossings.mem_iff edge).mp isEdge, isCell⟩
  · rintro ⟨edge, crosses, isCell⟩
    have isCorner : cell ∈ cellCorners edge := by
      unfold cellsAround at isCell
      unfold cellCorners
      cases edge.isLesserEndpointSolid <;> grind [corners]
    have among := List.mem_flatMap.mpr ⟨edge, (crossings.mem_iff edge).mpr crosses, isCorner⟩
    have each := built.indices.imp fun cell i shows => And.intro (Exists.intro i shows) shows
    obtain ⟨i, shows⟩ := ((List.forall₂_and_left _ _).mp each).1 cell among
    exact List.mem_of_getElem? (shown shows)
  · rw [List.length_map]
    have each := built.indices.flip.imp fun i cell shows => And.intro (Shows.lt shows) shows
    exact ((List.forall₂_and_left _ _).mp each).1 i mem
  · intro cell axis inGrid i j isI isJ
    have number : ∀ {point k}, (surface.table.values.map SurfaceVertex.cell)[k]? = some point →
        ∀ {x y}, Shows surface.table x y → (x = point ↔ y = k) := by
      intro point k isK x y shows
      have isX := shown shows
      obtain ⟨inside, -⟩ := List.getElem?_eq_some_iff.mp isX
      constructor
      · rintro rfl
        exact (List.getElem?_inj inside nodup).mp (isX.trans isK.symm)
      · rintro rfl
        exact Option.some.inj (isX.symm.trans isK)
    rw [← count_sides_eq (number isI) (number isJ) built.indices,
      ← count_sides_eq (number isJ) (number isI) built.indices]
    exact balanced crossings inGrid

end Voxen.Terrain.SurfaceBuilder
