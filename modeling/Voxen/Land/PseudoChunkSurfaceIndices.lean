import Voxen.Land.PseudoChunkSurfaceFaces
import Voxen.Land.PseudoChunkSurfaceQuads

/-!
# The indices of a surface

Indices are narrowed to 16 bits, so they select the vertices meant only if there are at most
65536 vertices. Nothing bounds the vertices of a surface: those of a chunk are as many as there
are corners of its visible faces, and a pseudo-chunk gets six for each quad.
-/

namespace Voxen.Land.PseudoChunkSurface

open Interning ChunkAdjacencyRef

open PseudoChunkData (InChunk)

/-- The vertices can be addressed by 16 bits, and the indices select those meant, three for each
triangle. -/
def Exact {Vertex : Type} (surface : PseudoChunkSurface Vertex) (meant : List Vertex) : Prop :=
  surface.vertices.length ≤ 2 ^ 16 ∧ surface.readBack = meant.map some

theorem toNat_narrowed {i n : Nat} (inside : i < n) (fits : n ≤ 2 ^ 16) :
    (BitVec.ofNat 16 i).toNat = i := by
  rw [BitVec.toNat_ofNat]
  exact Nat.mod_eq_of_lt (Nat.lt_of_lt_of_le inside fits)

/-! ## Corners of visible faces -/

/-- The different corners of the visible faces of a chunk. -/
def cornerSet (adj : ChunkAdjacencyRef) : Set FaceVertex :=
  {vertex | ∃ face, Visible adj face ∧ ∃ i, face.corner i = vertex}

theorem mem_triangles {face : Face} {vertex : FaceVertex} :
    vertex ∈ face.triangles ↔ ∃ i, face.corner i = vertex := by
  constructor
  · exact exists_corner_of_mem_triangles
  · rintro ⟨i, rfl⟩
    match i with
    | 0 | 1 | 2 | 3 => simp [Face.triangles]

variable {adj : ChunkAdjacencyRef} {uninitialised : AdjacentIds} {builder : FaceBuilder}

theorem mem_cornerSet {vertex : FaceVertex} : vertex ∈ cornerSet adj ↔
    vertex ∈ (faces (adj.expandBlockIds uninitialised)).flatMap Face.triangles := by
  simp only [cornerSet, Set.mem_ofPred_eq, List.mem_flatMap, mem_triangles, mem_faces]

theorem finite_cornerSet (adj : ChunkAdjacencyRef) : (cornerSet adj).Finite := by
  have same : cornerSet adj = {vertex | vertex ∈
      (faces (adj.expandBlockIds fun _ _ _ => 0)).flatMap Face.triangles} :=
    Set.ext fun _ => mem_cornerSet
  rw [same]
  exact List.finite_toSet _

section Generated

variable (built : Built (faces (adj.expandBlockIds uninitialised)) builder)

include built

theorem stored_mem_cornerSet {stored : FaceVertex} (mem : stored ∈ builder.table.values) :
    stored ∈ cornerSet adj := by
  obtain ⟨face, inFaces, isCorner⟩ := List.mem_flatMap.mp (built.origin stored mem)
  exact ⟨face, mem_faces.mp inFaces, mem_corners.mp isCorner⟩

theorem length_values_le : builder.table.values.length ≤ (cornerSet adj).ncard := by
  have distinct : builder.table.values.Nodup := List.Nodup.of_map vertexKey built.lawful.nodup
  rw [← List.toFinset_card_of_nodup distinct, ← Set.ncard_coe_finset]
  refine Set.ncard_le_ncard (fun stored mem => ?_) (finite_cornerSet adj)
  exact stored_mem_cornerSet built (List.mem_toFinset.mp mem)

theorem readBack_eq (injective : Set.InjOn vertexKey (cornerSet adj))
    (fits : builder.table.values.length ≤ 2 ^ 16) :
    (builder.indexBuffer.map (BitVec.ofNat 16)).map (fun i => builder.table.values[i.toNat]?) =
      ((faces (adj.expandBlockIds uninitialised)).flatMap Face.triangles).map some := by
  have asked : ∀ vertex ∈ (faces (adj.expandBlockIds uninitialised)).flatMap Face.triangles,
      vertex ∈ cornerSet adj := fun _ mem => mem_cornerSet.mpr mem
  have selects : List.Forall₂ Eq
      (((faces (adj.expandBlockIds uninitialised)).flatMap Face.triangles).map some)
      ((builder.indexBuffer.map (BitVec.ofNat 16)).map
        fun i => builder.table.values[i.toNat]?) := by
    refine List.forall₂_map_left_iff.mpr (List.forall₂_map_right_iff.mpr
      (List.forall₂_map_right_iff.mpr
        (((List.forall₂_and_left _ _).mpr ⟨asked, built.reads⟩).imp ?_)))
    rintro vertex i ⟨inCorners, stored, isThere, same⟩
    obtain ⟨inside, -⟩ := List.getElem?_eq_some_iff.mp isThere
    have stays := stored_mem_cornerSet built (List.mem_of_getElem? isThere)
    rw [toNat_narrowed inside fits, isThere, injective stays inCorners same]
  rw [List.forall₂_eq_eq_eq] at selects
  exact selects.symm

end Generated

theorem Exact.mem {Vertex : Type} {surface : PseudoChunkSurface Vertex} {meant : List Vertex}
    (exactly : Exact surface meant) {vertex : Vertex} (mem : vertex ∈ meant) :
    vertex ∈ surface.vertices := by
  have read : some vertex ∈ surface.readBack := exactly.2 ▸ List.mem_map_of_mem mem
  obtain ⟨i, -, isThere⟩ := List.mem_map.mp read
  exact List.mem_of_getElem? isThere

/-- The indices of a chunk's surface are exact if and only if the keys tell its corners apart and
16 bits can address these. -/
theorem generate_exact_iff (adj : ChunkAdjacencyRef) (uninitialised : AdjacentIds) :
    Exact (generate adj uninitialised)
        ((faces (adj.expandBlockIds uninitialised)).flatMap Face.triangles) ↔
      Set.InjOn vertexKey (cornerSet adj) ∧ (cornerSet adj).ncard ≤ 2 ^ 16 := by
  obtain ⟨builder, built, isSurface⟩ := generate_built adj uninitialised
  rw [isSurface]
  constructor
  · intro exactly
    have stored : ∀ vertex ∈ cornerSet adj, vertex ∈ builder.table.values :=
      fun vertex mem => exactly.mem (mem_cornerSet.mp mem)
    refine ⟨fun vertex mem vertex' mem' same => ?_, ?_⟩
    · exact List.inj_on_of_nodup_map built.lawful.nodup (stored _ mem) (stored _ mem') same
    · have distinct : builder.table.values.Nodup := List.Nodup.of_map vertexKey built.lawful.nodup
      refine Nat.le_trans ?_ exactly.1
      rw [← List.toFinset_card_of_nodup distinct, ← Set.ncard_coe_finset]
      exact Set.ncard_le_ncard (fun vertex mem => List.mem_toFinset.mpr (stored vertex mem))
        (Finset.finite_toSet _)
  · rintro ⟨injective, few⟩
    have fits := Nat.le_trans (length_values_le built) few
    exact ⟨fits, readBack_eq built injective fits⟩

/-! ## Quads between cells -/

theorem length_callVertices {datas : Fin 19 → PseudoChunkData} {lod : Nat} {call : EdgeCall}
    {cells : Fin 4 → ProcessedCellEntry} (isCells : callCells datas call = some cells) :
    (callVertices datas lod call).length = 6 := by
  have six := congrArg List.length (quadVertices_eq lod cells call.lowerSolid)
  rw [List.length_map, List.length_map] at six
  rw [callVertices, isCells, Option.map_some, Option.getD_some, six, length_corners]

/-- Where each call adds its six vertices, the indices select them in their order if these are few
enough. -/
theorem Counts.exact_iff {surface : PseudoChunkSurface CellVertex} (counts : Counts surface) :
    Exact surface surface.vertices ↔ surface.vertices.length ≤ 2 ^ 16 := by
  refine ⟨And.left, fun fits => ⟨fits, ?_⟩⟩
  rw [readBack, counts, List.map_map]
  refine List.ext_getElem (by simp) fun i inside inside' => ?_
  have bound : i < surface.vertices.length := by simpa using inside'
  simp [toNat_narrowed bound fits, bound]

/-- The indices of a pseudo-chunk's surface are exact if and only if it has at most 10922 quads. -/
theorem generateDatas_exact_iff (datas : Fin 19 → PseudoChunkData) (lod : Nat)
    (inside : ∀ cell ∈ (datas 0).cellEntries, InChunk cell.cellIndex) :
    ∃ surface, generateDatas datas lod = some surface ∧
      (Exact surface ((edgeCalls datas).flatMap (callVertices datas lod)) ↔
        (callPairs datas).length ≤ 10922) := by
  obtain ⟨surface, generated, counts, vertices⟩ := generateDatas_eq lod inside
  have six : ∀ call ∈ edgeCalls datas, (callVertices datas lod call).length = 6 := by
    intro call mem
    obtain ⟨cells, isCells⟩ := exists_callCells inside call mem
    exact length_callVertices isCells
  have length : surface.vertices.length = 6 * (callPairs datas).length := by
    rw [vertices, length_flatMap_six six, edgeCalls_eq, List.length_map]
  refine ⟨surface, generated, ?_⟩
  rw [← vertices, counts.exact_iff, length]
  omega

/-- The indices of a chunk's surface are exact if and only if the keys tell the corners of its
visible faces apart and these are at most 65536. Those of a pseudo-chunk's surface are exact if
and only if its cells add at most 10922 quads. -/
theorem indices_exact_iff (adj : ChunkAdjacencyRef) (uninitialised : AdjacentIds)
    (datas : Fin 19 → PseudoChunkData) (lod : Nat) :
    (Exact (generate adj uninitialised)
        ((faces (adj.expandBlockIds uninitialised)).flatMap Face.triangles) ↔
      Set.InjOn vertexKey (cornerSet adj) ∧ (cornerSet adj).ncard ≤ 2 ^ 16) ∧
    ((∀ cell ∈ (datas 0).cellEntries, InChunk cell.cellIndex) →
      ∃ surface, generateDatas datas lod = some surface ∧
        (Exact surface ((edgeCalls datas).flatMap (callVertices datas lod)) ↔
          (callPairs datas).length ≤ 10922)) :=
  ⟨generate_exact_iff adj uninitialised, generateDatas_exact_iff datas lod⟩

/-- A main chunk with one cell. -/
def oneCell : Fin 19 → PseudoChunkData :=
  fun i => if i = 0 then { cellEntries := [⟨⟨5, 5, 5⟩, 1⟩] } else {}

theorem oneCell_exact : ∃ surface, generateDatas oneCell 0 = some surface ∧
    Exact surface ((edgeCalls oneCell).flatMap (callVertices oneCell 0)) := by
  have inside : ∀ cell ∈ (oneCell 0).cellEntries, InChunk cell.cellIndex := by
    simp [oneCell, InChunk, chunkSizeBlocks]
  obtain ⟨surface, generated, exact_iff⟩ :=
    (indices_exact_iff ⟨⟨⟨0, none⟩⟩, fun _ => none⟩ (fun _ _ _ => 0) oneCell 0).2 inside
  exact ⟨surface, generated, exact_iff.mpr (by decide)⟩

/-- Every other sample is solid, in all directions. -/
def checkerboard : CellCoord → Bool := fun coord => (coord.x + coord.y + coord.z) % 2 = 0

/-- Every cell adds the quad of the edge at its base along the first axis. -/
theorem checkerboard_many : chunkSizeBlocks * (chunkSizeBlocks * chunkSizeBlocks) ≤
    (callPairs (fieldDatas checkerboard)).length := by
  have stores := fieldDatas_stores checkerboard 0
  let mask (place : UVec3) :=
    PseudoChunkData.cornerMask (samplesAt checkerboard (dataOffset 0)) place
  let pairAt (place : Nat × Nat × Nat) : CellEntry × Fin 12 :=
    (⟨⟨place.1, place.2.1, place.2.2⟩, mask ⟨place.1, place.2.1, place.2.2⟩⟩, 0)
  let size := List.range chunkSizeBlocks
  have distinct : ((size ×ˢ size ×ˢ size).map pairAt).Nodup := by
    refine (List.nodup_range.product (List.nodup_range.product List.nodup_range)).map ?_
    rintro ⟨x, y, z⟩ ⟨x', y', z'⟩ same
    simp only [pairAt, Prod.mk.injEq, CellEntry.mk.injEq, UVec3.mk.injEq] at same
    obtain ⟨⟨⟨rfl, rfl, rfl⟩, -⟩, -⟩ := same
    rfl
  have subset : (size ×ˢ size ×ˢ size).map pairAt ⊆
      callPairs (fieldDatas checkerboard) := by
    intro pair mem
    obtain ⟨⟨x, y, z⟩, inSizes, rfl⟩ := List.mem_map.mp mem
    simp only [size, List.mem_product, List.mem_range] at inSizes
    have isMask := PseudoChunkData.isCornerMask_cornerMask
      (samplesAt checkerboard (dataOffset 0)) ⟨x, y, z⟩
    have crosses : Crosses (mask ⟨x, y, z⟩) 0 := by
      rw [crosses_iff isMask, placeIn_main]
      simp [checkerboard, edgeOf, cellCoord, CellCoord.add, slotOffset, slotAxis, unit]
      omega
    have inside : InChunk ⟨x, y, z⟩ := ⟨inSizes.1, inSizes.2⟩
    refine mem_callPairs.mpr ⟨(stores.mem_iff _).mpr ?_, crosses, .inl rfl⟩
    exact ⟨inside, isMask.mixed_iff.mpr crosses.stored, isMask⟩
  have length := (distinct.subperm subset).length_le
  rwa [List.length_map, List.length_product, List.length_product, List.length_range] at length

/-- Indices of the checkerboard's surface are narrowed to others. -/
theorem checkerboard_inexact :
    ¬ ((∀ (adj : ChunkAdjacencyRef) (uninitialised : AdjacentIds),
        Exact (generate adj uninitialised)
          ((faces (adj.expandBlockIds uninitialised)).flatMap Face.triangles)) ∧
      ∀ (datas : Fin 19 → PseudoChunkData) (lod : Nat),
        (∀ cell ∈ (datas 0).cellEntries, InChunk cell.cellIndex) →
        ∃ surface, generateDatas datas lod = some surface ∧
          Exact surface ((edgeCalls datas).flatMap (callVertices datas lod))) := by
  rintro ⟨-, always⟩
  have stores := fieldDatas_stores checkerboard 0
  have inside : ∀ cell ∈ (fieldDatas checkerboard 0).cellEntries, InChunk cell.cellIndex :=
    fun cell mem => ((stores.mem_iff cell).mp mem).1
  obtain ⟨surface, generated, exactly⟩ := always _ 0 inside
  obtain ⟨_, generated', exact_iff⟩ := generateDatas_exact_iff _ 0 inside
  cases generated.symm.trans generated'
  have many := checkerboard_many
  have few := exact_iff.mp exactly
  simp only [chunkSizeBlocks] at many
  omega

end Voxen.Land.PseudoChunkSurface
