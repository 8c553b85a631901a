import Voxen.Land.CompressedChunkLoad
import Voxen.Land.PseudoChunkData

/-!
# Chunks with their neighbours

The blocks of a chunk are expanded into an array that is one block larger on all sides. The six
sides hold the nearest blocks of the chunks next to it; edges and corners stay empty.
-/

namespace Voxen.Land

open PseudoChunkData (Chunk)

/-- `ChunkAdjacencyRef`; the neighbours are in the order X+, X-, Y+, Y-, Z+, Z-. -/
structure ChunkAdjacencyRef where
  chunk : Chunk
  adjacent : Fin 6 → Option Chunk

namespace ChunkAdjacencyRef

/-- The blocks of a chunk and of the sides around it. -/
abbrev AdjacentIds := CubeArray (BitVec 16) (chunkSizeBlocks + 2)

/-- The loops for one neighbour: from its positions `source` to `target`. -/
def fillSlice (neighbour : Option Chunk) (target source : Nat → Nat → UVec3)
    (view : AdjacentIds) : AdjacentIds :=
  match neighbour with
  | none => view
  | some chunk =>
    CountedLoop.run chunkSizeBlocks view fun view a =>
      CountedLoop.run chunkSizeBlocks view fun view b =>
        view.store (target a b).x (target a b).y (target a b).z
          (chunk.blockIds.load (source a b).x (source a b).y (source a b).z)

/-- `expandBlockIds(view)`. -/
def expandBlockIds (ref : ChunkAdjacencyRef) (view : AdjacentIds) : AdjacentIds :=
  let N := chunkSizeBlocks
  let view := view.fill ⟨0, 0, 0⟩ (N + 2) 0
  let view := view.fillFrom ⟨1, 1, 1⟩ (ref.chunk.blockIds.expand (view.extractTo ⟨1, 1, 1⟩ N))
  -- load from west, store to east
  let view := fillSlice (ref.adjacent 0) (fun y z => ⟨N + 1, y + 1, z + 1⟩)
    (fun y z => ⟨0, y, z⟩) view
  let view := fillSlice (ref.adjacent 1) (fun y z => ⟨0, y + 1, z + 1⟩)
    (fun y z => ⟨N - 1, y, z⟩) view
  let view := fillSlice (ref.adjacent 2) (fun x z => ⟨x + 1, N + 1, z + 1⟩)
    (fun x z => ⟨x, 0, z⟩) view
  let view := fillSlice (ref.adjacent 3) (fun x z => ⟨x + 1, 0, z + 1⟩)
    (fun x z => ⟨x, N - 1, z⟩) view
  let view := fillSlice (ref.adjacent 4) (fun y x => ⟨x + 1, y + 1, N + 1⟩)
    (fun y x => ⟨x, y, 0⟩) view
  fillSlice (ref.adjacent 5) (fun y x => ⟨x + 1, y + 1, 0⟩) (fun y x => ⟨x, y, N - 1⟩) view

/-! ## The block at each position -/

/-- A block of a neighbour, empty if there is none. -/
def blockOf (neighbour : Option Chunk) (x y z : Nat) : BitVec 16 :=
  match neighbour with
  | none => 0
  | some chunk => chunk.blockIds.load x y z

/-- The block next to a block of the chunk in a direction: one of the chunk, or at its border
the nearest one of the neighbour. -/
def adjacentBlock (ref : ChunkAdjacencyRef) (x y z : Nat) : Fin 6 → BitVec 16
  | 0 => if x + 1 < chunkSizeBlocks then ref.chunk.blockIds.load (x + 1) y z
      else blockOf (ref.adjacent 0) 0 y z
  | 1 => if 0 < x then ref.chunk.blockIds.load (x - 1) y z
      else blockOf (ref.adjacent 1) (chunkSizeBlocks - 1) y z
  | 2 => if y + 1 < chunkSizeBlocks then ref.chunk.blockIds.load x (y + 1) z
      else blockOf (ref.adjacent 2) x 0 z
  | 3 => if 0 < y then ref.chunk.blockIds.load x (y - 1) z
      else blockOf (ref.adjacent 3) x (chunkSizeBlocks - 1) z
  | 4 => if z + 1 < chunkSizeBlocks then ref.chunk.blockIds.load x y (z + 1)
      else blockOf (ref.adjacent 4) x y 0
  | 5 => if 0 < z then ref.chunk.blockIds.load x y (z - 1)
      else blockOf (ref.adjacent 5) x y (chunkSizeBlocks - 1)

/-- The block that belongs to a position of the larger array, on a side or inside. -/
def blockAt (ref : ChunkAdjacencyRef) (x y z : Nat) : BitVec 16 :=
  if x = chunkSizeBlocks + 1 then blockOf (ref.adjacent 0) 0 (y - 1) (z - 1)
  else if x = 0 then blockOf (ref.adjacent 1) (chunkSizeBlocks - 1) (y - 1) (z - 1)
  else if y = chunkSizeBlocks + 1 then blockOf (ref.adjacent 2) (x - 1) 0 (z - 1)
  else if y = 0 then blockOf (ref.adjacent 3) (x - 1) (chunkSizeBlocks - 1) (z - 1)
  else if z = chunkSizeBlocks + 1 then blockOf (ref.adjacent 4) (x - 1) (y - 1) 0
  else if z = 0 then blockOf (ref.adjacent 5) (x - 1) (y - 1) (chunkSizeBlocks - 1)
  else ref.chunk.blockIds.load (x - 1) (y - 1) (z - 1)

/-- A position of the larger array. -/
structure Position where
  y : Fin (chunkSizeBlocks + 2)
  x : Fin (chunkSizeBlocks + 2)
  z : Fin (chunkSizeBlocks + 2)

def idAt (ids : AdjacentIds) (p : Position) : BitVec 16 := ids p.y p.x p.z

variable {ref : ChunkAdjacencyRef}

/-- The positions get the blocks that belong to them. -/
abbrev Gathers (ref : ChunkAdjacencyRef) (region : Position → Prop)
    (before after : AdjacentIds) : Prop :=
  CountedLoop.Writes idAt (fun p => ref.blockAt p.x p.y p.z) region before after

/-- The position is one of the slice of a neighbour. -/
def InSlice (neighbour : Option Chunk) (target : Nat → Nat → UVec3) (p : Position) : Prop :=
  neighbour.isSome = true ∧ ∃ a < chunkSizeBlocks, ∃ b < chunkSizeBlocks,
    target a b = ⟨p.x, p.y, p.z⟩

theorem store_gathers (view : AdjacentIds) {place : UVec3} {value : BitVec 16}
    (belongs : ref.blockAt place.x place.y place.z = value) :
    Gathers ref (fun p => place = ⟨p.x, p.y, p.z⟩) view
      (view.store place.x place.y place.z value) := by
  intro p
  constructor
  · rintro rfl
    exact (if_pos ⟨rfl, rfl, rfl⟩).trans belongs.symm
  · refine fun elsewhere => if_neg fun ⟨sameX, sameY, sameZ⟩ => elsewhere ?_
    obtain ⟨x, y, z⟩ := place
    simp only at sameX sameY sameZ
    simp only [sameX, sameY, sameZ]

/-- The positions of a slice belong to the neighbour. -/
def Belongs (ref : ChunkAdjacencyRef) (neighbour : Option Chunk)
    (target source : Nat → Nat → UVec3) : Prop :=
  ∀ a < chunkSizeBlocks, ∀ b < chunkSizeBlocks,
    ref.blockAt (target a b).x (target a b).y (target a b).z =
      blockOf neighbour (source a b).x (source a b).y (source a b).z

variable {neighbour : Option Chunk} {target source : Nat → Nat → UVec3}

theorem fillSlice_gathers (belongs : Belongs ref neighbour target source) (view : AdjacentIds) :
    Gathers ref (InSlice neighbour target) view (fillSlice neighbour target source view) := by
  cases neighbour with
  | none => exact fun p => ⟨fun inside => absurd inside.1 Bool.false_ne_true, fun _ => rfl⟩
  | some chunk =>
    refine CountedLoop.Writes.congr (CountedLoop.run_writes fun a aBound _ =>
      CountedLoop.run_writes fun b bBound view =>
        store_gathers view (belongs a aBound b bBound)) fun p => ?_
    exact and_iff_right rfl

theorem inSlice_or_empty (belongs : Belongs ref neighbour target source) {p : Position} {a b : Nat}
    (aBound : a < chunkSizeBlocks) (bBound : b < chunkSizeBlocks)
    (place : target a b = ⟨p.x, p.y, p.z⟩) :
    InSlice neighbour target p ∨ ref.blockAt p.x p.y p.z = 0 := by
  cases neighbour with
  | none =>
    have value := belongs a aBound b bBound
    rw [place] at value
    exact .inr value
  | some chunk => exact .inl ⟨rfl, a, aBound, b, bBound, place⟩

/-- The position is inside or on one side. -/
structure Position.Near (p : Position) : Prop where
  xy : 0 < p.x.val ∧ p.x.val ≤ chunkSizeBlocks ∨ 0 < p.y.val ∧ p.y.val ≤ chunkSizeBlocks
  xz : 0 < p.x.val ∧ p.x.val ≤ chunkSizeBlocks ∨ 0 < p.z.val ∧ p.z.val ≤ chunkSizeBlocks
  yz : 0 < p.y.val ∧ p.y.val ≤ chunkSizeBlocks ∨ 0 < p.z.val ∧ p.z.val ≤ chunkSizeBlocks

/-- A coordinate is one of the chunk, or the first or the last of the larger array. -/
theorem coordinate_cases (a : Fin (chunkSizeBlocks + 2)) :
    (∃ b < chunkSizeBlocks, a.val = b + 1) ∨ a.val = chunkSizeBlocks + 1 ∨ a.val = 0 := by
  have bound := a.isLt
  rcases Nat.eq_zero_or_pos a.val with first | inner
  · exact .inr (.inr first)
  rcases Nat.lt_or_ge a.val (chunkSizeBlocks + 1) with low | last
  · exact .inl ⟨a.val - 1, by omega, by omega⟩
  · exact .inr (.inl (by omega))

/-- A position that is not inside is on one side, at two coordinates of the chunk. -/
theorem Position.Near.side {p : Position} (near : p.Near)
    (outside : ¬ CubeArray.Inside ⟨1, 1, 1⟩ chunkSizeBlocks p.x p.y p.z) :
    ∃ a < chunkSizeBlocks, ∃ b < chunkSizeBlocks,
      ((p.x.val = chunkSizeBlocks + 1 ∨ p.x.val = 0) ∧ p.y.val = a + 1 ∧ p.z.val = b + 1) ∨
      ((p.y.val = chunkSizeBlocks + 1 ∨ p.y.val = 0) ∧ p.x.val = a + 1 ∧ p.z.val = b + 1) ∨
      ((p.z.val = chunkSizeBlocks + 1 ∨ p.z.val = 0) ∧ p.y.val = a + 1 ∧ p.x.val = b + 1) := by
  obtain ⟨xy, xz, yz⟩ := near
  simp only [CubeArray.Inside] at outside
  rcases coordinate_cases p.x with ⟨x, xBound, isX⟩ | side
  · rcases coordinate_cases p.y with ⟨y, yBound, isY⟩ | side
    · rcases coordinate_cases p.z with ⟨z, zBound, isZ⟩ | side
      · exact absurd ⟨by omega, by omega, by omega⟩ outside
      · exact ⟨y, yBound, x, xBound, .inr (.inr ⟨side, isY, isX⟩)⟩
    · exact ⟨x, xBound, p.z - 1, by omega, .inr (.inl ⟨side, isX, by omega⟩)⟩
  · exact ⟨p.y - 1, by omega, p.z - 1, by omega, .inl ⟨side, by omega, by omega⟩⟩

theorem fillFrom_gathers (view : AdjacentIds) :
    Gathers ref (fun p => CubeArray.Inside ⟨1, 1, 1⟩ chunkSizeBlocks p.x p.y p.z) view
      (view.fillFrom ⟨1, 1, 1⟩
        (ref.chunk.blockIds.expand (view.extractTo ⟨1, 1, 1⟩ chunkSizeBlocks))) := by
  intro p
  refine ⟨fun inside => ?_, fun outside => if_neg outside⟩
  refine (if_pos inside).trans ?_
  rw [CubeArray.load, CompressedChunkStorage.expand_apply]
  obtain ⟨⟨xLow, xHigh⟩, ⟨yLow, yHigh⟩, zLow, zHigh⟩ := inside
  have within : ∀ {a : Nat}, 1 ≤ a → a < 1 + chunkSizeBlocks →
      (a - 1) % chunkSizeBlocks = a - 1 ∧ a ≠ chunkSizeBlocks + 1 ∧ a ≠ 0 := by
    intro a low high
    exact ⟨Nat.mod_eq_of_lt (by omega), by omega, by omega⟩
  obtain ⟨xRest, xLast, xFirst⟩ := within xLow xHigh
  obtain ⟨yRest, yLast, yFirst⟩ := within yLow yHigh
  obtain ⟨zRest, zLast, zFirst⟩ := within zLow zHigh
  change _ = ref.blockAt p.x p.y p.z
  rw [Fin.val_ofNat, Fin.val_ofNat, Fin.val_ofNat, xRest, yRest, zRest, blockAt, if_neg xLast,
    if_neg xFirst, if_neg yLast, if_neg yFirst, if_neg zLast, if_neg zFirst]

theorem inner_bounds {a : Nat} (bound : a < chunkSizeBlocks) :
    a + 1 ≠ chunkSizeBlocks + 1 ∧ a + 1 ≠ 0 ∧ a + 1 - 1 = a :=
  ⟨by omega, by omega, by omega⟩

/-- The larger array holds the block that belongs to each position inside or on a side. -/
theorem expandBlockIds_at (view : AdjacentIds) {p : Position} (near : p.Near) :
    idAt (ref.expandBlockIds view) p = ref.blockAt p.x p.y p.z := by
  have positive : chunkSizeBlocks ≠ 0 := by decide
  have distinct : chunkSizeBlocks + 1 ≠ 0 := by decide
  have east : Belongs ref (ref.adjacent 0) (fun y z => ⟨chunkSizeBlocks + 1, y + 1, z + 1⟩)
      fun y z => ⟨0, y, z⟩ := by
    intro y yBound z zBound
    simp only [blockAt, if_true, Nat.add_sub_cancel]
  have west : Belongs ref (ref.adjacent 1) (fun y z => ⟨0, y + 1, z + 1⟩)
      fun y z => ⟨chunkSizeBlocks - 1, y, z⟩ := by
    intro y yBound z zBound
    simp only [blockAt, if_true, if_neg distinct.symm, Nat.add_sub_cancel]
  have above : Belongs ref (ref.adjacent 2) (fun x z => ⟨x + 1, chunkSizeBlocks + 1, z + 1⟩)
      fun x z => ⟨x, 0, z⟩ := by
    intro x xBound z zBound
    obtain ⟨xLast, xFirst, xRest⟩ := inner_bounds xBound
    simp only [blockAt, if_true, if_neg xLast, if_neg xFirst, Nat.add_sub_cancel]
  have below : Belongs ref (ref.adjacent 3) (fun x z => ⟨x + 1, 0, z + 1⟩)
      fun x z => ⟨x, chunkSizeBlocks - 1, z⟩ := by
    intro x xBound z zBound
    obtain ⟨xLast, xFirst, xRest⟩ := inner_bounds xBound
    simp only [blockAt, if_true, if_neg xLast, if_neg xFirst, if_neg distinct.symm,
      Nat.add_sub_cancel]
  have south : Belongs ref (ref.adjacent 4) (fun y x => ⟨x + 1, y + 1, chunkSizeBlocks + 1⟩)
      fun y x => ⟨x, y, 0⟩ := by
    intro y yBound x xBound
    obtain ⟨xLast, xFirst, xRest⟩ := inner_bounds xBound
    obtain ⟨yLast, yFirst, yRest⟩ := inner_bounds yBound
    simp only [blockAt, if_true, if_neg xLast, if_neg xFirst, if_neg yLast, if_neg yFirst,
      Nat.add_sub_cancel]
  have north : Belongs ref (ref.adjacent 5) (fun y x => ⟨x + 1, y + 1, 0⟩)
      fun y x => ⟨x, y, chunkSizeBlocks - 1⟩ := by
    intro y yBound x xBound
    obtain ⟨xLast, xFirst, xRest⟩ := inner_bounds xBound
    obtain ⟨yLast, yFirst, yRest⟩ := inner_bounds yBound
    simp only [blockAt, if_true, if_neg xLast, if_neg xFirst, if_neg yLast, if_neg yFirst,
      if_neg distinct.symm, Nat.add_sub_cancel]
  have all := ((((((fillFrom_gathers (view.fill ⟨0, 0, 0⟩ (chunkSizeBlocks + 2) 0)).trans
    (fillSlice_gathers east _)).trans (fillSlice_gathers west _)).trans
    (fillSlice_gathers above _)).trans (fillSlice_gathers below _)).trans
    (fillSlice_gathers south _)).trans (fillSlice_gathers north _)
  by_contra differs
  have outside := mt (all p).1 differs
  have empty : ref.blockAt p.x p.y p.z = 0 := by
    simp only [not_or] at outside
    obtain ⟨⟨⟨⟨⟨⟨notInner, notEast⟩, notWest⟩, notAbove⟩, notBelow⟩, notSouth⟩, notNorth⟩ := outside
    obtain ⟨a, aBound, b, bBound, side⟩ := near.side notInner
    rcases side with ⟨last | first, isY, isZ⟩ | ⟨last | first, isX, isZ⟩ |
      ⟨last | first, isY, isX⟩
    · exact (inSlice_or_empty east aBound bBound (by rw [last, isY, isZ])).resolve_left notEast
    · exact (inSlice_or_empty west aBound bBound (by rw [first, isY, isZ])).resolve_left notWest
    · exact (inSlice_or_empty above aBound bBound (by rw [last, isX, isZ])).resolve_left notAbove
    · exact (inSlice_or_empty below aBound bBound (by rw [first, isX, isZ])).resolve_left notBelow
    · exact (inSlice_or_empty south aBound bBound (by rw [last, isY, isX])).resolve_left notSouth
    · exact (inSlice_or_empty north aBound bBound (by rw [first, isY, isX])).resolve_left notNorth
  have filled : CubeArray.Inside ⟨0, 0, 0⟩ (chunkSizeBlocks + 2) p.x p.y p.z := by
    simp only [CubeArray.Inside, Nat.zero_le, Nat.zero_add, true_and]
    exact ⟨p.x.isLt, p.y.isLt, p.z.isLt⟩
  have kept : idAt (ref.expandBlockIds view) p = 0 := ((all p).2 outside).trans (if_pos filled)
  exact differs (kept.trans empty.symm)

theorem load_expandBlockIds (view : AdjacentIds) {x y z : Nat} (xBound : x < chunkSizeBlocks + 2)
    (yBound : y < chunkSizeBlocks + 2) (zBound : z < chunkSizeBlocks + 2)
    (near : Position.Near ⟨⟨y, yBound⟩, ⟨x, xBound⟩, ⟨z, zBound⟩⟩) :
    (ref.expandBlockIds view).load x y z = ref.blockAt x y z := by
  have held : idAt (ref.expandBlockIds view) _ = _ := expandBlockIds_at view near
  have same : ∀ {a : Nat} (bound : a < chunkSizeBlocks + 2),
      Fin.ofNat (chunkSizeBlocks + 2) a = ⟨a, bound⟩ :=
    fun bound => Fin.ext (Nat.mod_eq_of_lt bound)
  rw [CubeArray.load, same xBound, same yBound, same zBound]
  exact held

/-- The position in the larger array next to a block of the chunk. -/
def nextTo (x y z : Nat) : Fin 6 → UVec3
  | 0 => ⟨x + 2, y + 1, z + 1⟩
  | 1 => ⟨x, y + 1, z + 1⟩
  | 2 => ⟨x + 1, y + 2, z + 1⟩
  | 3 => ⟨x + 1, y, z + 1⟩
  | 4 => ⟨x + 1, y + 1, z + 2⟩
  | 5 => ⟨x + 1, y + 1, z⟩

variable {x y z : Nat}

theorem load_self (view : AdjacentIds) (xBound : x < chunkSizeBlocks) (yBound : y < chunkSizeBlocks)
    (zBound : z < chunkSizeBlocks) :
    (ref.expandBlockIds view).load (x + 1) (y + 1) (z + 1) = ref.chunk.blockIds.load x y z := by
  rw [load_expandBlockIds view (by omega) (by omega) (by omega)
    ⟨.inl ⟨x.succ_pos, xBound⟩, .inl ⟨x.succ_pos, xBound⟩, .inl ⟨y.succ_pos, yBound⟩⟩]
  obtain ⟨xLast, xFirst, xRest⟩ := inner_bounds xBound
  obtain ⟨yLast, yFirst, yRest⟩ := inner_bounds yBound
  obtain ⟨zLast, zFirst, zRest⟩ := inner_bounds zBound
  rw [blockAt, if_neg xLast, if_neg xFirst, if_neg yLast, if_neg yFirst, if_neg zLast,
    if_neg zFirst, xRest, yRest, zRest]

theorem load_nextTo (view : AdjacentIds) (xBound : x < chunkSizeBlocks)
    (yBound : y < chunkSizeBlocks) (zBound : z < chunkSizeBlocks) (d : Fin 6) :
    (ref.expandBlockIds view).load (nextTo x y z d).x (nextTo x y z d).y (nextTo x y z d).z =
      ref.adjacentBlock x y z d := by
  obtain ⟨xLast, xFirst, xRest⟩ := inner_bounds xBound
  obtain ⟨yLast, yFirst, yRest⟩ := inner_bounds yBound
  obtain ⟨zLast, zFirst, zRest⟩ := inner_bounds zBound
  have inX : 0 < x + 1 ∧ x + 1 ≤ chunkSizeBlocks := ⟨x.succ_pos, xBound⟩
  have inY : 0 < y + 1 ∧ y + 1 ≤ chunkSizeBlocks := ⟨y.succ_pos, yBound⟩
  have inZ : 0 < z + 1 ∧ z + 1 ≤ chunkSizeBlocks := ⟨z.succ_pos, zBound⟩
  -- one coordinate is moved by one, and only this one can leave the chunk
  match d with
  | 0 =>
    simp only [nextTo, adjacentBlock]
    rw [load_expandBlockIds view (by omega) (by omega) (by omega)
      ⟨.inr inY, .inr inZ, .inl inY⟩, blockAt]
    by_cases inner : x + 1 < chunkSizeBlocks
    · rw [if_pos inner, if_neg (by omega), if_neg (by omega), if_neg yLast, if_neg yFirst,
        if_neg zLast, if_neg zFirst]
      rfl
    · rw [if_neg inner, if_pos (by omega)]
      rfl
  | 1 =>
    simp only [nextTo, adjacentBlock]
    rw [load_expandBlockIds view (by omega) (by omega) (by omega)
      ⟨.inr inY, .inr inZ, .inl inY⟩, blockAt]
    by_cases inner : 0 < x
    · rw [if_pos inner, if_neg (by omega), if_neg (by omega), if_neg yLast, if_neg yFirst,
        if_neg zLast, if_neg zFirst]
      rfl
    · rw [if_neg inner, if_neg (by omega), if_pos (by omega)]
      rfl
  | 2 =>
    simp only [nextTo, adjacentBlock]
    rw [load_expandBlockIds view (by omega) (by omega) (by omega)
      ⟨.inl inX, .inl inX, .inr inZ⟩, blockAt, if_neg xLast, if_neg xFirst]
    by_cases inner : y + 1 < chunkSizeBlocks
    · rw [if_pos inner, if_neg (by omega), if_neg (by omega), if_neg zLast, if_neg zFirst]
      rfl
    · rw [if_neg inner, if_pos (by omega)]
      rfl
  | 3 =>
    simp only [nextTo, adjacentBlock]
    rw [load_expandBlockIds view (by omega) (by omega) (by omega)
      ⟨.inl inX, .inl inX, .inr inZ⟩, blockAt, if_neg xLast, if_neg xFirst]
    by_cases inner : 0 < y
    · rw [if_pos inner, if_neg (by omega), if_neg (by omega), if_neg zLast, if_neg zFirst]
      rfl
    · rw [if_neg inner, if_neg (by omega), if_pos (by omega)]
      rfl
  | 4 =>
    simp only [nextTo, adjacentBlock]
    rw [load_expandBlockIds view (by omega) (by omega) (by omega)
      ⟨.inl inX, .inl inX, .inl inY⟩, blockAt, if_neg xLast, if_neg xFirst, if_neg yLast,
      if_neg yFirst]
    by_cases inner : z + 1 < chunkSizeBlocks
    · rw [if_pos inner, if_neg (by omega), if_neg (by omega)]
      rfl
    · rw [if_neg inner, if_pos (by omega)]
      rfl
  | 5 =>
    simp only [nextTo, adjacentBlock]
    rw [load_expandBlockIds view (by omega) (by omega) (by omega)
      ⟨.inl inX, .inl inX, .inl inY⟩, blockAt, if_neg xLast, if_neg xFirst, if_neg yLast,
      if_neg yFirst]
    by_cases inner : 0 < z
    · rw [if_pos inner, if_neg (by omega), if_neg (by omega)]
      rfl
    · rw [if_neg inner, if_neg (by omega), if_pos (by omega)]
      rfl

end ChunkAdjacencyRef

end Voxen.Land
