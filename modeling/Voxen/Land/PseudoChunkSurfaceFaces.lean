import Voxen.Land.PseudoChunkSurface

/-!
# The faces of a chunk

The surface of a chunk has a quad for each visible face of its blocks. Vertices are shared by
their keys, and a key tells the position; it tells the face and the block as well if the number
of the block is less than 256.
-/

namespace Voxen.Land.PseudoChunkSurface

open Interning ChunkAdjacencyRef

open PseudoChunkData (isBlockEmpty)

/-! ## Keys -/

/-- The position of a corner: its coordinates fit into bytes. -/
def FaceVertex.InBytes (vertex : FaceVertex) : Prop :=
  vertex.position.x < 2 ^ 8 ∧ vertex.position.y < 2 ^ 8 ∧ vertex.position.z < 2 ^ 8

/-- The number that stands for the face and the block in a key. -/
def faceCode (vertex : FaceVertex) : Nat :=
  vertex.orientation.val <<< 8 ||| vertex.blockId.toNat

theorem faceCode_lt (vertex : FaceVertex) : faceCode vertex < 2 ^ 24 := by
  have face := vertex.orientation.isLt
  have block := vertex.blockId.isLt
  refine Nat.or_lt_two_pow ?_ (by omega)
  rw [Nat.shiftLeft_eq]
  omega

variable {vertex : FaceVertex} {face : Face}

/-- A key is the position and the face with the block, one after the other. -/
theorem vertexKey_eq (bytes : vertex.InBytes) :
    vertexKey vertex = (vertex.position.x * 2 ^ 16 + vertex.position.y * 2 ^ 8 +
      vertex.position.z) * 2 ^ 24 + faceCode vertex := by
  obtain ⟨-, yBound, zBound⟩ := bytes
  have place : vertex.position.x <<< 16 ||| vertex.position.y <<< 8 ||| vertex.position.z =
      vertex.position.x * 2 ^ 16 + vertex.position.y * 2 ^ 8 + vertex.position.z := by
    have low : vertex.position.y <<< 8 < 2 ^ 16 := by
      rw [Nat.shiftLeft_eq]
      omega
    have high : vertex.position.x <<< 16 + vertex.position.y <<< 8 =
        (vertex.position.x * 2 ^ 8 + vertex.position.y) <<< 8 := by
      simp only [Nat.shiftLeft_eq]
      omega
    rw [← Nat.shiftLeft_add_eq_or_of_lt low, high, ← Nat.shiftLeft_add_eq_or_of_lt zBound,
      Nat.shiftLeft_eq]
    omega
  rw [vertexKey, Nat.or_assoc]
  change _ ||| faceCode vertex = _
  rw [← Nat.shiftLeft_add_eq_or_of_lt (faceCode_lt vertex), place, Nat.shiftLeft_eq]

theorem vertexKey_inj {vertex' : FaceVertex} (bytes : vertex.InBytes) (bytes' : vertex'.InBytes) :
    vertexKey vertex = vertexKey vertex' ↔
      vertex.position = vertex'.position ∧ faceCode vertex = faceCode vertex' := by
  have code := faceCode_lt vertex
  have code' := faceCode_lt vertex'
  rw [vertexKey_eq bytes, vertexKey_eq bytes']
  obtain ⟨⟨x, y, z⟩, orientation, blockId⟩ := vertex
  obtain ⟨⟨x', y', z'⟩, orientation', blockId'⟩ := vertex'
  obtain ⟨xBound, yBound, zBound⟩ := bytes
  obtain ⟨xBound', yBound', zBound'⟩ := bytes'
  simp only [UVec3.mk.injEq] at *
  omega

/-! ## Building -/

/-- The vertices of the two triangles of a face. -/
def Face.triangles (face : Face) : List FaceVertex :=
  [face.corner 0, face.corner 1, face.corner 2, face.corner 2, face.corner 3, face.corner 0]

/-- The faces are in the builder. -/
structure Built (faces : List Face) (builder : FaceBuilder) : Prop where
  lawful : builder.table.Lawful vertexKey
  reads : List.Forall₂ (builder.table.Reads vertexKey) (faces.flatMap Face.triangles)
    builder.indexBuffer
  origin : ∀ stored ∈ builder.table.values, stored ∈ faces.flatMap Face.corners

theorem built_empty : Built [] {} :=
  ⟨Table.lawful_empty, .nil, fun _ mem => absurd mem List.not_mem_nil⟩

theorem Built.addFace {faces : List Face} {builder : FaceBuilder} (built : Built faces builder)
    (face : Face) : Built (faces ++ [face]) (addFace builder face) := by
  obtain ⟨lawful, grows, reads, mem⟩ := Table.getAll_spec built.lawful face.corners
  refine ⟨lawful, ?_, fun stored inTable => ?_⟩
  · obtain ⟨i0, rest0, read0, reads0, isRest⟩ := List.forall₂_cons_left_iff.mp reads
    obtain ⟨i1, rest1, read1, reads1, rfl⟩ := List.forall₂_cons_left_iff.mp reads0
    obtain ⟨i2, rest2, read2, reads2, rfl⟩ := List.forall₂_cons_left_iff.mp reads1
    obtain ⟨i3, rest3, read3, reads3, rfl⟩ := List.forall₂_cons_left_iff.mp reads2
    obtain rfl := List.forall₂_nil_left_iff.mp reads3
    have before := built.reads.imp fun _ _ read => read.mono grows
    rw [List.flatMap_append, List.flatMap_singleton]
    simp only [PseudoChunkSurface.addFace, isRest, List.append_assoc]
    refine List.rel_append before ?_
    exact .cons read0 (.cons read1 (.cons read2 (.cons read2 (.cons read3 (.cons read0 .nil)))))
  · rw [List.flatMap_append, List.flatMap_singleton, List.mem_append]
    exact (mem stored inTable).imp_left (built.origin stored)

theorem built_foldl {faces : List Face} {builder : FaceBuilder} (built : Built faces builder)
    (more : List Face) : Built (faces ++ more) (more.foldl PseudoChunkSurface.addFace builder) := by
  induction more generalizing faces builder with
  | nil => rwa [List.append_nil]
  | cons face more ih =>
    have next := ih (built.addFace face)
    rwa [List.append_assoc] at next

/-! ## The faces in order -/

/-- The visible faces of a block, in the order in which they are added. -/
def blockFaces (expandedIds : AdjacentIds) (x y z : Nat) : List Face :=
  let blockId := expandedIds.load (x + 1) (y + 1) (z + 1)
  if isBlockEmpty blockId then []
  else
    let shows (d : Fin 6) : Bool :=
      let place := nextTo x y z d
      isBlockEmpty (expandedIds.load place.x place.y place.z)
    ((List.finRange 6).filter shows).map fun d => ⟨x, y, z, d, blockId⟩

theorem addBlock_eq (expandedIds : AdjacentIds) (builder : FaceBuilder) (x y z : Nat) :
    addBlock expandedIds builder x y z =
      (blockFaces expandedIds x y z).foldl addFace builder := by
  simp only [addBlock, blockFaces]
  split
  · rfl
  · rw [List.foldl_map, List.foldl_filter]
    rfl

def faces (expandedIds : AdjacentIds) : List Face :=
  (List.range chunkSizeBlocks).flatMap fun y => (List.range chunkSizeBlocks).flatMap fun x =>
    (List.range chunkSizeBlocks).flatMap fun z => blockFaces expandedIds x y z

theorem forYXZ_addBlock (expandedIds : AdjacentIds) (builder : FaceBuilder) :
    forYXZ chunkSizeBlocks builder (addBlock expandedIds) =
      (faces expandedIds).foldl addFace builder := by
  simp only [forYXZ, addBlock_eq, CountedLoop.run_foldl, faces]

theorem generate_built (adj : ChunkAdjacencyRef) (uninitialised : AdjacentIds) :
    ∃ builder, Built (faces (adj.expandBlockIds uninitialised)) builder ∧
      generate adj uninitialised = { vertices := builder.table.values
                                     indices := builder.indexBuffer.map (BitVec.ofNat 16) } := by
  have built := built_foldl built_empty (faces (adj.expandBlockIds uninitialised))
  rw [List.nil_append] at built
  refine ⟨_, built, ?_⟩
  rw [generate, forYXZ_addBlock]

/-- The face belongs to a block of the chunk, and the block next to it is empty. -/
structure Visible (adj : ChunkAdjacencyRef) (face : Face) : Prop where
  x : face.x < chunkSizeBlocks
  y : face.y < chunkSizeBlocks
  z : face.z < chunkSizeBlocks
  block : face.blockId = adj.chunk.blockIds.load face.x face.y face.z
  solid : isBlockEmpty face.blockId = false
  adjacent : isBlockEmpty (adj.adjacentBlock face.x face.y face.z face.orientation) = true

theorem mem_blockFaces {expandedIds : AdjacentIds} {x y z : Nat} :
    face ∈ blockFaces expandedIds x y z ↔ face.x = x ∧ face.y = y ∧ face.z = z ∧
      face.blockId = expandedIds.load (x + 1) (y + 1) (z + 1) ∧
      isBlockEmpty face.blockId = false ∧
      isBlockEmpty (expandedIds.load (nextTo x y z face.orientation).x
        (nextTo x y z face.orientation).y (nextTo x y z face.orientation).z) = true := by
  obtain ⟨x', y', z', orientation, blockId⟩ := face
  simp only [blockFaces]
  split
  · rename_i empty
    refine ⟨fun mem => absurd mem List.not_mem_nil, ?_⟩
    rintro ⟨-, -, -, rfl, solid, -⟩
    rw [solid] at empty
    cases empty
  · rename_i solid
    simp only [List.mem_map, List.mem_filter, List.mem_finRange, true_and, Face.mk.injEq]
    constructor
    · rintro ⟨d, shows, rfl, rfl, rfl, rfl, rfl⟩
      exact ⟨rfl, rfl, rfl, rfl, Bool.eq_false_iff.mpr solid, shows⟩
    · rintro ⟨rfl, rfl, rfl, rfl, -, shows⟩
      exact ⟨orientation, shows, rfl, rfl, rfl, rfl, rfl⟩

theorem mem_faces {adj : ChunkAdjacencyRef} {uninitialised : AdjacentIds} :
    face ∈ faces (adj.expandBlockIds uninitialised) ↔ Visible adj face := by
  simp only [faces, List.mem_flatMap, List.mem_range, mem_blockFaces]
  constructor
  · rintro ⟨y, yBound, x, xBound, z, zBound, rfl, rfl, rfl, block, solid, adjacent⟩
    rw [load_self uninitialised xBound yBound zBound] at block
    rw [load_nextTo uninitialised xBound yBound zBound] at adjacent
    exact ⟨xBound, yBound, zBound, block, solid, adjacent⟩
  · rintro ⟨xBound, yBound, zBound, block, solid, adjacent⟩
    refine ⟨_, yBound, _, xBound, _, zBound, rfl, rfl, rfl, ?_, solid, ?_⟩
    · rw [load_self uninitialised xBound yBound zBound, block]
    · rw [load_nextTo uninitialised xBound yBound zBound, adjacent]

theorem nodup_blockFaces (expandedIds : AdjacentIds) (x y z : Nat) :
    (blockFaces expandedIds x y z).Nodup := by
  simp only [blockFaces]
  split
  · exact List.nodup_nil
  · exact ((List.nodup_finRange 6).filter _).map fun _ _ same => (Face.mk.inj same).2.2.2.1

theorem nodup_faces (expandedIds : AdjacentIds) : (faces expandedIds).Nodup := by
  refine CountedLoop.nodup_flatMap_range Face.y (fun y _ face mem => ?_) fun y _ =>
    CountedLoop.nodup_flatMap_range Face.x (fun x _ face mem => ?_) fun x _ =>
      CountedLoop.nodup_flatMap_range Face.z (fun z _ face mem => ?_) fun z _ =>
        nodup_blockFaces expandedIds x y z
  · simp only [List.mem_flatMap, mem_blockFaces] at mem
    obtain ⟨x, -, z, -, -, sameY, -⟩ := mem
    exact sameY
  · simp only [List.mem_flatMap, mem_blockFaces] at mem
    obtain ⟨z, -, sameX, -⟩ := mem
    exact sameX
  · exact (mem_blockFaces.mp mem).2.2.1

/-! ## The quads -/

/-- The side of the unit cube that a direction points to. -/
def OnSide : Fin 6 → UVec3 → Prop
  | 0, offset => offset.x = 1
  | 1, offset => offset.x = 0
  | 2, offset => offset.y = 1
  | 3, offset => offset.y = 0
  | 4, offset => offset.z = 1
  | 5, offset => offset.z = 0

instance OnSide.decidable : ∀ d offset, Decidable (OnSide d offset)
  | 0, offset => inferInstanceAs (Decidable (offset.x = 1))
  | 1, offset => inferInstanceAs (Decidable (offset.x = 0))
  | 2, offset => inferInstanceAs (Decidable (offset.y = 1))
  | 3, offset => inferInstanceAs (Decidable (offset.y = 0))
  | 4, offset => inferInstanceAs (Decidable (offset.z = 1))
  | 5, offset => inferInstanceAs (Decidable (offset.z = 0))

/-- A corner of the square of a face: one of its block's, on the side of the face. -/
def Face.IsCorner (face : Face) (position : UVec3) : Prop :=
  ∃ offset : UVec3, offset.x < 2 ∧ offset.y < 2 ∧ offset.z < 2 ∧
    OnSide face.orientation offset ∧
    position = ⟨face.x + offset.x, face.y + offset.y, face.z + offset.z⟩

/-- The positions are the corners of a face, in the order of a way around it. -/
structure Face.IsSquare (face : Face) (c : Fin 4 → UVec3) : Prop where
  distinct : Function.Injective c
  corner_iff : ∀ position, face.IsCorner position ↔ ∃ i, c i = position
  x : (c 0).x + (c 2).x = (c 1).x + (c 3).x
  y : (c 0).y + (c 2).y = (c 1).y + (c 3).y
  z : (c 0).z + (c 2).z = (c 1).z + (c 3).z

theorem faceCoordOffset_injective :
    ∀ d i j, faceCoordOffset d i = faceCoordOffset d j → i = j := by decide

theorem faceCoordOffset_onSide : ∀ d i, (faceCoordOffset d i).x < 2 ∧
    (faceCoordOffset d i).y < 2 ∧ (faceCoordOffset d i).z < 2 ∧
    OnSide d (faceCoordOffset d i) := by decide

theorem exists_faceCoordOffset : ∀ d, ∀ x < 2, ∀ y < 2, ∀ z < 2, OnSide d ⟨x, y, z⟩ →
    ∃ i, faceCoordOffset d i = ⟨x, y, z⟩ := by decide

theorem faceCoordOffset_middle : ∀ d,
    (faceCoordOffset d 0).x + (faceCoordOffset d 2).x =
      (faceCoordOffset d 1).x + (faceCoordOffset d 3).x ∧
    (faceCoordOffset d 0).y + (faceCoordOffset d 2).y =
      (faceCoordOffset d 1).y + (faceCoordOffset d 3).y ∧
    (faceCoordOffset d 0).z + (faceCoordOffset d 2).z =
      (faceCoordOffset d 1).z + (faceCoordOffset d 3).z := by decide

theorem Face.isSquare (face : Face) : face.IsSquare fun i => (face.corner i).position where
  distinct i j same := by
    simp only [Face.corner, UVec3.mk.injEq, Nat.add_left_cancel_iff] at same
    refine faceCoordOffset_injective face.orientation i j ?_
    exact UVec3.mk.injEq .. ▸ same
  corner_iff position := by
    constructor
    · rintro ⟨offset, x, y, z, side, rfl⟩
      obtain ⟨i, same⟩ := exists_faceCoordOffset face.orientation _ x _ y _ z side
      exact ⟨i, by simp only [Face.corner, same]⟩
    · rintro ⟨i, rfl⟩
      obtain ⟨x, y, z, side⟩ := faceCoordOffset_onSide face.orientation i
      exact ⟨_, x, y, z, side, rfl⟩
  x := by
    have middle := (faceCoordOffset_middle face.orientation).1
    simp only [Face.corner]
    omega
  y := by
    have middle := (faceCoordOffset_middle face.orientation).2.1
    simp only [Face.corner]
    omega
  z := by
    have middle := (faceCoordOffset_middle face.orientation).2.2
    simp only [Face.corner]
    omega

/-- The vertices that the indices of the triangles select. -/
def readBack {Vertex : Type} (surface : PseudoChunkSurface Vertex) : List (Option Vertex) :=
  surface.indices.map fun i => surface.vertices[i.toNat]?

/-- The six corners of the two triangles of a square. -/
def quad {α : Type} (c : Fin 4 → α) : List α := [c 0, c 1, c 2, c 2, c 3, c 0]

theorem corner_inBytes {adj : ChunkAdjacencyRef} (visible : Visible adj face) (i : Fin 4) :
    (face.corner i).InBytes := by
  obtain ⟨x, y, z, -⟩ := faceCoordOffset_onSide face.orientation i
  have xBound := visible.x
  have yBound := visible.y
  have zBound := visible.z
  simp only [chunkSizeBlocks] at xBound yBound zBound
  simp only [FaceVertex.InBytes, Face.corner]
  omega

theorem mem_corners :
    vertex ∈ face.corners ↔ ∃ i, face.corner i = vertex := by
  simp [Face.corners, Fin.exists_fin_succ, eq_comm]

theorem exists_corner_of_mem_triangles (mem : vertex ∈ face.triangles) :
    ∃ i, face.corner i = vertex := by
  simp only [Face.triangles, List.mem_cons, List.not_mem_nil, or_false] at mem
  rcases mem with rfl | rfl | rfl | rfl | rfl | rfl
  all_goals exact ⟨_, rfl⟩

section Generated

variable {adj : ChunkAdjacencyRef} {uninitialised : AdjacentIds} {builder : FaceBuilder}
  (built : Built (faces (adj.expandBlockIds uninitialised)) builder)

include built

theorem stored_inBytes {stored : FaceVertex} (mem : stored ∈ builder.table.values) :
    stored.InBytes := by
  obtain ⟨face, inFaces, isCorner⟩ := List.mem_flatMap.mp (built.origin stored mem)
  obtain ⟨i, rfl⟩ := mem_corners.mp isCorner
  exact corner_inBytes (mem_faces.mp inFaces) i

/-- What the indices select, where the vertices are few enough to be addressed. -/
theorem reads_keys (fits : builder.table.values.length ≤ 2 ^ 16) :
    List.Forall₂ (fun (vertex : FaceVertex) (i : BitVec 16) =>
        ∃ stored, builder.table.values[i.toNat]? = some stored ∧
          stored.position = vertex.position ∧ faceCode stored = faceCode vertex)
      ((faces (adj.expandBlockIds uninitialised)).flatMap Face.triangles)
      (builder.indexBuffer.map (BitVec.ofNat 16)) := by
  have asked : ∀ vertex ∈ (faces (adj.expandBlockIds uninitialised)).flatMap Face.triangles,
      vertex.InBytes := by
    intro vertex mem
    obtain ⟨face, inFaces, inTriangles⟩ := List.mem_flatMap.mp mem
    obtain ⟨i, rfl⟩ := exists_corner_of_mem_triangles inTriangles
    exact corner_inBytes (mem_faces.mp inFaces) i
  refine List.forall₂_map_right_iff.mpr
    (((List.forall₂_and_left _ _).mpr ⟨asked, built.reads⟩).imp ?_)
  rintro vertex i ⟨bytes, stored, isThere, same⟩
  obtain ⟨inside, rfl⟩ := List.getElem?_eq_some_iff.mp isThere
  have index : (BitVec.ofNat 16 i).toNat = i := by
    rw [BitVec.toNat_ofNat]
    exact Nat.mod_eq_of_lt (Nat.lt_of_lt_of_le inside fits)
  refine ⟨_, by rw [index]; exact isThere, ?_⟩
  exact (vertexKey_inj (stored_inBytes built (List.getElem_mem inside)) bytes).mp same

end Generated

/-- The surface of a chunk has one quad for each visible face of its blocks, between the four
corners of the face, and nothing else. -/
theorem generate_quads (adj : ChunkAdjacencyRef) (uninitialised : AdjacentIds)
    (fits : (generate adj uninitialised).vertices.length ≤ 2 ^ 16) :
    ∃ (faces : List Face) (corners : Face → Fin 4 → UVec3),
      faces.Nodup ∧ (∀ face, face ∈ faces ↔ Visible adj face) ∧
      (∀ face : Face, face.IsSquare (corners face)) ∧
      (generate adj uninitialised).readBack.map (Option.map FaceVertex.position) =
        faces.flatMap fun face => (quad (corners face)).map some := by
  obtain ⟨builder, built, isSurface⟩ := generate_built adj uninitialised
  rw [isSurface] at fits ⊢
  refine ⟨faces (adj.expandBlockIds uninitialised), fun face i => (face.corner i).position,
    nodup_faces _, fun face => mem_faces, Face.isSquare, ?_⟩
  have positions : List.Forall₂ Eq
      (((faces (adj.expandBlockIds uninitialised)).flatMap Face.triangles).map
        fun vertex => some vertex.position)
      ((builder.indexBuffer.map (BitVec.ofNat 16)).map
        fun i => (builder.table.values[i.toNat]?).map FaceVertex.position) := by
    refine List.forall₂_map_left_iff.mpr (List.forall₂_map_right_iff.mpr
      ((reads_keys built fits).imp ?_))
    rintro vertex i ⟨stored, isThere, same, -⟩
    rw [isThere, Option.map_some, same]
  rw [List.forall₂_eq_eq_eq] at positions
  rw [readBack, List.map_map]
  refine positions.symm.trans ?_
  rw [List.map_flatMap]
  rfl

theorem Built.vertices_le {faces : List Face} {builder : FaceBuilder}
    (built : Built faces builder) : builder.table.values.length ≤ 4 * faces.length := by
  have distinct : builder.table.values.Nodup := List.Nodup.of_map vertexKey built.lawful.nodup
  have all : (faces.flatMap Face.corners).length = 4 * faces.length := by
    have four : ∀ face : Face, face.corners.length = 4 := fun _ => rfl
    simp [List.length_flatMap, four, Nat.mul_comm]
  rw [← all]
  exact (distinct.subperm built.origin).length_le

/-- A chunk of stone that is open to the east. -/
def openEast : ChunkAdjacencyRef where
  chunk := ⟨⟨2, none⟩⟩
  adjacent d := if d = 0 then none else some ⟨⟨2, none⟩⟩

def eastFaces : List Face :=
  (List.range 32).flatMap fun y => (List.range 32).map fun z => ⟨31, y, z, 0, 2⟩

theorem mem_eastFaces (visible : Visible openEast face) : face ∈ eastFaces := by
  obtain ⟨xBound, yBound, zBound, block, -, adjacent⟩ := visible
  obtain ⟨x, y, z, orientation, blockId⟩ := face
  obtain rfl : blockId = 2 := block
  have stone : isBlockEmpty 2 = false := by decide
  have closed : ∀ (inner : Prop) [Decidable inner],
      isBlockEmpty (if inner then (2 : BitVec 16) else 2) = true → False := by
    intro inner _ empty
    rw [ite_self, stone] at empty
    cases empty
  match orientation with
  | 0 =>
    have last : ¬ x + 1 < chunkSizeBlocks := by
      intro inner
      rw [adjacentBlock, if_pos inner] at adjacent
      exact Bool.false_ne_true (stone.symm.trans adjacent)
    simp only [chunkSizeBlocks] at *
    obtain rfl : x = 31 := by omega
    exact List.mem_flatMap.mpr ⟨y, List.mem_range.mpr yBound,
      List.mem_map.mpr ⟨z, List.mem_range.mpr zBound, rfl⟩⟩
  | 1 | 2 | 3 | 4 | 5 => exact (closed _ adjacent).elim

theorem openEast_quads :
    ∃ (faces : List Face) (corners : Face → Fin 4 → UVec3),
      faces.Nodup ∧ (∀ face, face ∈ faces ↔ Visible openEast face) ∧
      (∀ face : Face, face.IsSquare (corners face)) ∧
      (generate openEast fun _ _ _ => 0).readBack.map (Option.map FaceVertex.position) =
        faces.flatMap fun face => (quad (corners face)).map some := by
  refine generate_quads openEast (fun _ _ _ => 0) ?_
  obtain ⟨builder, built, isSurface⟩ := generate_built openEast fun _ _ _ => 0
  have few : (faces (openEast.expandBlockIds fun _ _ _ => 0)).length ≤ eastFaces.length :=
    ((nodup_faces _).subperm fun _ mem => mem_eastFaces (mem_faces.mp mem)).length_le
  have size : eastFaces.length = 32 * 32 := by simp [eastFaces, List.length_flatMap]
  have bound := built.vertices_le
  rw [isSurface]
  exact bound.trans (by omega)

end Voxen.Land.PseudoChunkSurface
