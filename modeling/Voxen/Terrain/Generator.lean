import Mathlib.Algebra.Group.Pi.Basic
import Mathlib.Data.Fin.VecNotation
import Mathlib.Data.Fintype.Basic
import Mathlib.Data.List.FinRange
import Mathlib.Data.List.ProdSigma
import Voxen.Lib.FinSizes
import Voxen.Terrain.HermiteData

/-!
# Generating a chunk

The voxels of a chunk fill a grid of points.  `TerrainGenerator` adds one entry of Hermite data
for each edge of the grid with endpoints that differ.  The function that it takes the voxels from
is floating point: here it is a parameter, by its sign.
-/

namespace Voxen.Terrain

/-- `glm::ivec3`, by axis. -/
abbrev IVec := Fin 3 → Int

/-- The step along an axis. -/
def unit (axis : Fin 3) : IVec := fun i => if i = axis then 1 else 0

/-- `Config::CHUNK_SIZE`. -/
def chunkSize : Nat := 32

/-- `VoxelGrid::GRID_SIZE`. -/
def gridSize : Nat := chunkSize + 1

/-- What the surface depends on of an entry, beside its crossing point and normal. -/
@[ext] structure Edge where
  isLesserEndpointSolid : Bool
  axis : Fin 3
  lesserEndpoint : IVec

instance : DecidableEq Edge := fun _ _ => decidable_of_iff' _ Edge.ext_iff

def Edge.biggerEndpoint (edge : Edge) : IVec := edge.lesserEndpoint + unit edge.axis

/-- `isLesserEndpointSolid()`, `axis()` and `lesserEndpoint()`. -/
def HermiteDataEntry.edge (entry : HermiteDataEntry) : Edge where
  isLesserEndpointSolid := entry.solidEndpoint = 0
  axis := Fin.ofNat 3 entry.axis.toNat
  lesserEndpoint := ![entry.lesserX.toNat, entry.lesserY.toNat, entry.lesserZ.toNat]

namespace TerrainGenerator

/-- What the loop does for one edge; `solid` tells the points whose value is not positive.  Their
voxel is 1, and that of all others 0. -/
def zeroCrossing (solid : IVec → Bool) (x y z : Fin gridSize) (axis : Fin 3) :
    Option HermiteDataEntry :=
  let lesser : IVec := ![x, y, z]
  let bigger := lesser + unit axis
  if bigger axis < gridSize ∧ solid lesser ≠ solid bigger then
    some {
      solidEndpoint := if solid lesser then 0 else 1
      axis := .ofNat 2 axis
      solidVoxel := 1
      lesserX := .ofNat 8 x
      lesserY := .ofNat 8 y
      lesserZ := .ofNat 8 z }
  else none

/-- The entries that `generate(id, output)` adds. -/
def generate (solid : IVec → Bool) : List HermiteDataEntry :=
  let points := List.finRange gridSize
  (points ×ˢ points ×ˢ points ×ˢ [1, 0, 2]).filterMap fun (y, x, z, axis) =>
    zeroCrossing solid x y z axis

end TerrainGenerator

/-- A point of the grid. -/
def InGrid (point : IVec) : Prop := ∀ i, 0 ≤ point i ∧ point i ≤ chunkSize

/-- An edge of the grid with endpoints that differ, and which of them is solid. -/
structure Crosses (solid : IVec → Bool) (edge : Edge) : Prop where
  lesser : InGrid edge.lesserEndpoint
  bigger : InGrid edge.biggerEndpoint
  isLesser : solid edge.lesserEndpoint = edge.isLesserEndpointSolid
  isBigger : solid edge.biggerEndpoint = !edge.isLesserEndpointSolid

/-- One edge for each edge of the grid whose endpoints differ. -/
structure Crossings (solid : IVec → Bool) (edges : List Edge) : Prop where
  nodup : edges.Nodup
  mem_iff : ∀ edge, edge ∈ edges ↔ Crosses solid edge

theorem forall_axis {p : Fin 3 → Prop} (x : p 0) (y : p 1) (z : p 2) : ∀ i, p i :=
  Fin.cases x (Fin.cases y (Fin.cases z fun i => i.elim0))

theorem unit_bounds (axis i : Fin 3) : 0 ≤ unit axis i ∧ unit axis i ≤ 1 := by
  unfold unit
  split <;> omega

namespace TerrainGenerator

variable {solid : IVec → Bool}

theorem mem_zeroCrossing {x y z : Fin gridSize} {axis : Fin 3} {edge : Edge} :
    edge ∈ (zeroCrossing solid x y z axis).map HermiteDataEntry.edge ↔
      Crosses solid edge ∧ edge.axis = axis ∧ edge.lesserEndpoint = ![(x : Int), y, z] := by
  have small : ∀ n : Fin gridSize, (BitVec.ofNat 8 n).toNat = n := fun n =>
    Nat.mod_eq_of_lt (n.isLt.trans (by decide))
  have axisSmall : ∀ axis : Fin 3, Fin.ofNat 3 (BitVec.ofNat 2 axis).toNat = axis := by decide
  have isSolid : decide ((if solid ![(x : Int), y, z] then 0 else 1 : BitVec 1) = 0) =
      solid ![(x : Int), y, z] := by
    cases solid ![(x : Int), y, z] <;> rfl
  have pointIn : ∀ n : Fin gridSize, 0 ≤ (n : Int) ∧ (n : Int) ≤ chunkSize := fun n =>
    ⟨Int.natCast_nonneg _, Int.ofNat_le.mpr (Nat.le_of_lt_succ n.isLt)⟩
  have lesserIn : InGrid ![(x : Int), y, z] := forall_axis (pointIn x) (pointIn y) (pointIn z)
  have biggerIn : InGrid (![(x : Int), y, z] + unit axis) ↔
      (![(x : Int), y, z] + unit axis) axis < gridSize := by
    refine ⟨fun inside => Int.lt_add_one_iff.mpr (inside axis).2, fun below i => ?_⟩
    have step := unit_bounds axis i
    have inside := lesserIn i
    obtain rfl | other := eq_or_ne i axis
    · exact ⟨Int.add_nonneg inside.1 step.1, Int.lt_add_one_iff.mp below⟩
    · rw [Pi.add_apply, unit, if_neg other]
      omega
  constructor
  · unfold zeroCrossing
    dsimp only
    split
    · rename_i differ
      rintro ⟨⟩
      simp only [HermiteDataEntry.edge, small, axisSmall, and_true]
      have other := Bool.eq_not.mpr (Ne.symm differ.2)
      exact ⟨lesserIn, biggerIn.mpr differ.1, isSolid.symm,
        other.trans (congrArg not isSolid.symm)⟩
    · intro none
      cases none
  · rintro ⟨⟨-, bigger, isLesser, isBigger⟩, rfl, isPoint⟩
    rw [Edge.biggerEndpoint] at bigger isBigger
    rw [isPoint] at isLesser isBigger bigger
    have differ := (isLesser.trans_ne (Bool.self_ne_not _)).trans_eq isBigger.symm
    rw [zeroCrossing, if_pos ⟨biggerIn.mp bigger, differ⟩, Option.map_some, Option.mem_some_iff]
    refine Edge.ext (isSolid.trans isLesser) (axisSmall _) ?_
    simp only [HermiteDataEntry.edge, small, isPoint]

theorem generate_crossings (solid : IVec → Bool) :
    Crossings solid ((generate solid).map HermiteDataEntry.edge) := by
  rw [generate, List.map_filterMap]
  constructor
  · refine List.Nodup.filterMap ?_ ?_
    · rintro ⟨y, x, z, axis⟩ ⟨y', x', z', axis'⟩ edge here there
      obtain ⟨-, isAxis, isLesser⟩ := mem_zeroCrossing.mp here
      obtain ⟨-, isAxis', isLesser'⟩ := mem_zeroCrossing.mp there
      have same := isLesser.symm.trans isLesser'
      simp only [Matrix.vecCons_inj, Int.natCast_inj, Fin.val_inj, and_true] at same
      obtain ⟨rfl, rfl, rfl⟩ := same
      rw [← isAxis, ← isAxis']
    · have points := List.nodup_finRange gridSize
      exact points.product (points.product (points.product (by decide)))
  · intro edge
    rw [List.mem_filterMap]
    constructor
    · rintro ⟨⟨y, x, z, axis⟩, -, here⟩
      exact (mem_zeroCrossing.mp here).1
    · intro crosses
      have point : ∀ i, ∃ n : Fin gridSize, edge.lesserEndpoint i = n := fun i =>
        ⟨⟨(edge.lesserEndpoint i).toNat, Nat.lt_succ_of_le (Int.toNat_le.mpr (crosses.lesser i).2)⟩,
          (Int.toNat_of_nonneg (crosses.lesser i).1).symm⟩
      obtain ⟨x, isX⟩ := point 0
      obtain ⟨y, isY⟩ := point 1
      obtain ⟨z, isZ⟩ := point 2
      refine ⟨(y, x, z, edge.axis), ?_, mem_zeroCrossing.mpr ⟨crosses, rfl, ?_⟩⟩
      · have axes : ∀ axis : Fin 3, axis ∈ [1, 0, 2] := by decide
        have inGrid := List.mem_finRange (n := gridSize)
        exact List.pair_mem_product.mpr ⟨inGrid y, List.pair_mem_product.mpr ⟨inGrid x,
          List.pair_mem_product.mpr ⟨inGrid z, axes _⟩⟩⟩
      · exact funext (forall_axis isX isY isZ)

end TerrainGenerator

end Voxen.Terrain
