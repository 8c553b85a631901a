import Voxen.Land.CompressedChunkLoad
import Voxen.Land.PseudoChunkAggregation

/-!
# Pseudo-chunks of LOD1

The blocks of 27 chunks are gathered into one array.  Every position of it belongs
to one of the chunks, and gets the block of that chunk.
-/

namespace Voxen.Land

namespace PseudoChunkData

/-- The order in which `enqueuePseudoDataGen` collects the chunks: their offsets from
the base, in chunks. -/
def dependencyOffsets : List UVec3 :=
  [⟨0, 0, 0⟩, ⟨0, 0, 1⟩, ⟨1, 0, 0⟩, ⟨1, 0, 1⟩, ⟨0, 1, 0⟩, ⟨0, 1, 1⟩, ⟨1, 1, 0⟩, ⟨1, 1, 1⟩,
    ⟨2, 0, 0⟩, ⟨2, 0, 1⟩, ⟨2, 1, 0⟩, ⟨2, 1, 1⟩,
    ⟨0, 2, 0⟩, ⟨0, 2, 1⟩, ⟨1, 2, 0⟩, ⟨1, 2, 1⟩,
    ⟨0, 0, 2⟩, ⟨1, 0, 2⟩, ⟨0, 1, 2⟩, ⟨1, 1, 2⟩,
    ⟨0, 2, 2⟩, ⟨1, 2, 2⟩, ⟨2, 0, 2⟩, ⟨2, 1, 2⟩, ⟨2, 2, 0⟩, ⟨2, 2, 1⟩,
    ⟨2, 2, 2⟩]

def dependencyOffset (i : Nat) : UVec3 := dependencyOffsets.getD i ⟨0, 0, 0⟩

/-- The chunks passed to `generateFromLod0`, from those at each offset. -/
def collectDependencies (chunkAt : UVec3 → Chunk) (i : Fin 27) : Chunk :=
  chunkAt (dependencyOffset i)

/-- The block at a position, from the base of the first chunk. -/
def blockAt (chunkAt : UVec3 → Chunk) (x y z : Nat) : BitVec 16 :=
  (chunkAt ⟨x / chunkSizeBlocks, y / chunkSizeBlocks, z / chunkSizeBlocks⟩).blockIds.load
    (x % chunkSizeBlocks) (y % chunkSizeBlocks) (z % chunkSizeBlocks)

/-- A position in the gathered array. -/
structure Position where
  y : Fin (chunkSizeBlocks + chunkSizeBlocks + 1)
  x : Fin (chunkSizeBlocks + chunkSizeBlocks + 1)
  z : Fin (chunkSizeBlocks + chunkSizeBlocks + 1)

/-- The position belongs to the chunk at the offset. -/
def Position.In (p : Position) (offset : UVec3) : Prop :=
  p.x / chunkSizeBlocks = offset.x ∧ p.y / chunkSizeBlocks = offset.y ∧
    p.z / chunkSizeBlocks = offset.z

def idAt (ids : ExpandedIds) (p : Position) : BitVec 16 := ids p.y p.x p.z

variable {chunkAt : UVec3 → Chunk}

/-- The positions get the blocks of the chunks they belong to. -/
abbrev Gathers (chunkAt : UVec3 → Chunk) (region : Position → Prop) (before after : ExpandedIds) :
    Prop :=
  CountedLoop.Writes idAt (fun p => blockAt chunkAt p.x p.y p.z) region before after

theorem blockAt_of_in {p : Position} {offset : UVec3} (inside : p.In offset) :
    blockAt chunkAt p.x p.y p.z = (chunkAt offset).blockIds.load
      (p.x % chunkSizeBlocks) (p.y % chunkSizeBlocks) (p.z % chunkSizeBlocks) := by
  obtain ⟨xPart, yPart, zPart⟩ := inside
  rw [blockAt, xPart, yPart, zPart]

theorem dependencyOffset_primary : ∀ i < 8, dependencyOffset i =
    ⟨if i.testBit 1 then 1 else 0, if i.testBit 2 then 1 else 0,
      if i.testBit 0 then 1 else 0⟩ := by
  decide

theorem adjacentWalkTable_fits : ∀ i < 18,
    adjacentWalkTable.getD i (⟨0, 0, 0⟩, ⟨0, 0, 0⟩) =
      (⟨chunkSizeBlocks * (dependencyOffset (i + 8)).x,
        chunkSizeBlocks * (dependencyOffset (i + 8)).y,
        chunkSizeBlocks * (dependencyOffset (i + 8)).z⟩,
      ⟨if (dependencyOffset (i + 8)).x = 2 then 1 else chunkSizeBlocks,
        if (dependencyOffset (i + 8)).y = 2 then 1 else chunkSizeBlocks,
        if (dependencyOffset (i + 8)).z = 2 then 1 else chunkSizeBlocks⟩) := by
  decide

theorem dependencyOffset_surjective : ∀ x ≤ 2, ∀ y ≤ 2, ∀ z ≤ 2,
    ∃ i < 27, dependencyOffset i = ⟨x, y, z⟩ := by
  decide

theorem div_eq_iff_within {a offset : Nat} :
    a / chunkSizeBlocks = offset ↔
      chunkSizeBlocks * offset ≤ a ∧ a < chunkSizeBlocks * offset + chunkSizeBlocks := by
  simp only [chunkSizeBlocks]
  omega

theorem sub_mod_within {a offset : Nat} (part : a / chunkSizeBlocks = offset) :
    (a - chunkSizeBlocks * offset) % chunkSizeBlocks = a % chunkSizeBlocks := by
  simp only [chunkSizeBlocks] at *
  omega

theorem expandPrimary_gathers (ids : ExpandedIds) {i : Nat} (bound : i < 8) :
    Gathers chunkAt (·.In (dependencyOffset i)) ids
      (expandPrimary (collectDependencies chunkAt) ids i) := by
  have isChunk : collectDependencies chunkAt (Fin.ofNat 27 i) = chunkAt (dependencyOffset i) := by
    rw [collectDependencies, Fin.val_ofNat, Nat.mod_eq_of_lt (by omega)]
  have isAdd : (⟨if i.testBit 1 then chunkSizeBlocks else 0,
      if i.testBit 2 then chunkSizeBlocks else 0,
      if i.testBit 0 then chunkSizeBlocks else 0⟩ : UVec3) =
      ⟨chunkSizeBlocks * (dependencyOffset i).x, chunkSizeBlocks * (dependencyOffset i).y,
        chunkSizeBlocks * (dependencyOffset i).z⟩ := by
    have scaled : ∀ bit : Bool,
        (if bit then chunkSizeBlocks else 0) = chunkSizeBlocks * if bit then 1 else 0 := by
      decide
    simp only [dependencyOffset_primary i bound, scaled]
  intro p
  have inside_iff : CubeArray.Inside ⟨chunkSizeBlocks * (dependencyOffset i).x,
      chunkSizeBlocks * (dependencyOffset i).y, chunkSizeBlocks * (dependencyOffset i).z⟩
      chunkSizeBlocks p.x p.y p.z ↔ p.In (dependencyOffset i) := by
    simp only [CubeArray.Inside, Position.In, div_eq_iff_within]
  simp only [idAt, expandPrimary, isAdd, isChunk, CubeArray.fillFrom]
  refine ⟨fun inside => ?_, fun outside => if_neg (mt inside_iff.mp outside)⟩
  rw [if_pos (inside_iff.mpr inside), blockAt_of_in inside, CubeArray.load,
    CompressedChunkStorage.expand_apply]
  simp only [Fin.val_ofNat, sub_mod_within inside.1, sub_mod_within inside.2.1,
    sub_mod_within inside.2.2]

theorem store_gathers (ids : ExpandedIds) (offset : UVec3) {x y z : Nat}
    (xBound : x < chunkSizeBlocks) (yBound : y < chunkSizeBlocks) (zBound : z < chunkSizeBlocks) :
    Gathers chunkAt (fun p => p.x.val = x + chunkSizeBlocks * offset.x ∧
        p.y.val = y + chunkSizeBlocks * offset.y ∧ p.z.val = z + chunkSizeBlocks * offset.z) ids
      (ids.store (x + chunkSizeBlocks * offset.x) (y + chunkSizeBlocks * offset.y)
        (z + chunkSizeBlocks * offset.z) ((chunkAt offset).blockIds.load x y z)) := by
  intro p
  refine ⟨fun isHere => ?_, fun elsewhere => if_neg elsewhere⟩
  obtain ⟨xHere, yHere, zHere⟩ := isHere
  have inside : p.In offset := by
    simp only [Position.In, div_eq_iff_within]
    simp only [chunkSizeBlocks] at *
    omega
  have xRest : p.x.val % chunkSizeBlocks = x := by
    rw [xHere, Nat.add_mul_mod_self_left, Nat.mod_eq_of_lt xBound]
  have yRest : p.y.val % chunkSizeBlocks = y := by
    rw [yHere, Nat.add_mul_mod_self_left, Nat.mod_eq_of_lt yBound]
  have zRest : p.z.val % chunkSizeBlocks = z := by
    rw [zHere, Nat.add_mul_mod_self_left, Nat.mod_eq_of_lt zBound]
  change _ = blockAt chunkAt p.x p.y p.z
  rw [blockAt_of_in inside, xRest, yRest, zRest]
  exact if_pos ⟨xHere, yHere, zHere⟩

theorem exists_lt_iff_within {offset a : Nat}
    (bound : a < chunkSizeBlocks + chunkSizeBlocks + 1) :
    (∃ t < if offset = 2 then 1 else chunkSizeBlocks, a = t + chunkSizeBlocks * offset) ↔
      a / chunkSizeBlocks = offset := by
  rw [div_eq_iff_within]
  simp only [chunkSizeBlocks] at *
  constructor
  · rintro ⟨t, tBound, rfl⟩
    split at tBound <;> omega
  · rintro ⟨low, high⟩
    refine ⟨a - 32 * offset, ?_, by omega⟩
    split <;> omega

theorem gatherAdjacent_gathers (ids : ExpandedIds) {i : Nat} (bound : i < 18) :
    Gathers chunkAt (·.In (dependencyOffset (i + 8))) ids
      (gatherAdjacent (collectDependencies chunkAt) ids i) := by
  have isChunk : collectDependencies chunkAt (Fin.ofNat 27 (i + 8)) =
      chunkAt (dependencyOffset (i + 8)) := by
    rw [collectDependencies, Fin.val_ofNat, Nat.mod_eq_of_lt (by omega)]
  have limit : ∀ {offset t : Nat}, (t < if offset = 2 then 1 else chunkSizeBlocks) →
      t < chunkSizeBlocks := by
    intro offset t less
    simp only [chunkSizeBlocks] at *
    split at less <;> omega
  rw [gatherAdjacent, adjacentWalkTable_fits i bound, isChunk]
  refine (CountedLoop.run_writes fun y yBound _ => CountedLoop.run_writes fun x xBound _ =>
    CountedLoop.run_writes fun z zBound ids =>
      store_gathers ids _ (limit xBound) (limit yBound) (limit zBound)).congr fun p => ?_
  simp only [Position.In, ← exists_lt_iff_within p.x.isLt,
    ← exists_lt_iff_within p.y.isLt, ← exists_lt_iff_within p.z.isLt]
  constructor
  · rintro ⟨⟨x, xBound, isX⟩, ⟨y, yBound, isY⟩, z, zBound, isZ⟩
    exact ⟨y, yBound, x, xBound, z, zBound, isX, isY, isZ⟩
  · rintro ⟨y, yBound, x, xBound, z, zBound, isX, isY, isZ⟩
    exact ⟨⟨x, xBound, isX⟩, ⟨y, yBound, isY⟩, z, zBound, isZ⟩

theorem gatherIds_eq (uninitialised : ExpandedIds) (p : Position) :
    idAt (gatherIds (collectDependencies chunkAt) uninitialised) p =
      blockAt chunkAt p.x p.y p.z := by
  have primary : Gathers chunkAt (fun p => ∃ i < 8, p.In (dependencyOffset i)) uninitialised
      (CountedLoop.run 8 uninitialised (expandPrimary (collectDependencies chunkAt))) :=
    CountedLoop.run_writes fun i bound ids => expandPrimary_gathers ids bound
  have adjacent := primary.trans (CountedLoop.run_writes
    fun i (bound : i < 18) ids => gatherAdjacent_gathers ids bound)
  have positive : 0 < chunkSizeBlocks := by decide
  have vertex := adjacent.trans (store_gathers _ ⟨2, 2, 2⟩ positive positive positive)
  refine (vertex p).1 ?_
  have part_le : ∀ {a : Nat}, a < chunkSizeBlocks + chunkSizeBlocks + 1 →
      a / chunkSizeBlocks ≤ 2 := by
    intro a bound
    simp only [chunkSizeBlocks] at *
    omega
  obtain ⟨i, bound, isOffset⟩ := dependencyOffset_surjective _ (part_le p.x.isLt) _
    (part_le p.y.isLt) _ (part_le p.z.isLt)
  have inside : p.In (dependencyOffset i) := by
    rw [isOffset]
    exact ⟨rfl, rfl, rfl⟩
  rcases Nat.lt_or_ge i 8 with isPrimary | notPrimary
  · exact Or.inl (Or.inl ⟨i, isPrimary, inside⟩)
  rcases Nat.lt_or_ge i 26 with isAdjacent | isVertex
  · refine Or.inl (Or.inr ⟨i - 8, by omega, ?_⟩)
    rw [Nat.sub_add_cancel notPrimary]
    exact inside
  · obtain rfl : i = 26 := by omega
    obtain ⟨xPart, yPart, zPart⟩ := inside
    have last : ∀ {a : Nat}, a < chunkSizeBlocks + chunkSizeBlocks + 1 →
        a / chunkSizeBlocks = 2 → a = 0 + chunkSizeBlocks * 2 := by
      intro a bound part
      simp only [chunkSizeBlocks] at *
      omega
    exact Or.inr ⟨last p.x.isLt xPart, last p.y.isLt yPart, last p.z.isLt zPart⟩

/-! ## Corners -/

theorem extractTo_gatherIds (uninitialised : ExpandedIds) {cell : UVec3} (inside : InChunk cell)
    (y x z : Fin 3) :
    (gatherIds (collectDependencies chunkAt) uninitialised).extractTo
        ⟨2 * cell.x, 2 * cell.y, 2 * cell.z⟩ 3 y x z =
      blockAt chunkAt (2 * cell.x + x) (2 * cell.y + y) (2 * cell.z + z) := by
  obtain ⟨xBound, yBound, zBound⟩ := inside
  have within : ∀ {a : Nat} (b : Fin 3), a < chunkSizeBlocks →
      (2 * a + b) % (chunkSizeBlocks + chunkSizeBlocks + 1) = 2 * a + b := by
    intro a b bound
    have := b.isLt
    exact Nat.mod_eq_of_lt (by omega)
  let p : Position :=
    ⟨Fin.ofNat _ (2 * cell.y + y), Fin.ofNat _ (2 * cell.x + x), Fin.ofNat _ (2 * cell.z + z)⟩
  have held : idAt (gatherIds (collectDependencies chunkAt) uninitialised) p = _ :=
    gatherIds_eq uninitialised p
  simp only [p, Fin.val_ofNat, within _ xBound, within _ yBound, within _ zBound] at held
  exact held

theorem getLsbD_ite (bit : Bool) (mask : BitVec 8) (i : Nat) :
    (if bit then mask else 0).getLsbD i = (bit && mask.getLsbD i) := by
  cases bit <;> simp

theorem blocksSolidMask_bit (cellBlocks : CubeArray (BitVec 16) 3) : ∀ i < 8,
    (blocksSolidMask cellBlocks).getLsbD i = isBlockSolid (cellBlocks
      (Fin.ofNat 3 (2 * cornerY i)) (Fin.ofNat 3 (2 * cornerX i)) (Fin.ofNat 3 (2 * cornerZ i))) := by
  intro i bound
  simp only [blocksSolidMask, BitVec.getLsbD_or, getLsbD_ite]
  match i, bound with
  | 0, _ | 1, _ | 2, _ | 3, _ | 4, _ | 5, _ | 6, _ | 7, _ =>
    conv_lhs => simp
    rfl

/-- `generateFromLod0` stores the samples at every other block. -/
theorem generateFromLod0_stores (chunkAt : UVec3 → Chunk) (uninitialised : ExpandedIds) :
    Stores (generateFromLod0 (collectDependencies chunkAt) uninitialised)
      (coarser fun x y z => isBlockSolid (blockAt chunkAt x y z)) := by
  have isMask : ∀ cell, InChunk cell → IsCornerMask (blocksSolidMask
      ((gatherIds (collectDependencies chunkAt) uninitialised).extractTo
        ⟨2 * cell.x, 2 * cell.y, 2 * cell.z⟩ 3))
      (coarser fun x y z => isBlockSolid (blockAt chunkAt x y z)) cell := by
    intro cell inside i bound
    rw [blocksSolidMask_bit _ i bound, extractTo_gatherIds uninitialised inside]
    obtain ⟨xCorner, yCorner, zCorner⟩ := corner_le_one i
    have small : ∀ {corner : Nat}, corner ≤ 1 → (Fin.ofNat 3 (2 * corner)).val = 2 * corner :=
      fun le => Nat.mod_eq_of_lt (by omega)
    simp only [small xCorner, small yCorner, small zCorner, cornerSolid, coarser, Nat.mul_add]
  exact stores_of_masks (fun cell inside => (isMask cell inside).mixed_iff)
    fun cell inside _ => isMask cell inside

end PseudoChunkData

end Voxen.Land
