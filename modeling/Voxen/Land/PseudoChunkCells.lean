import Voxen.Land.PseudoChunkData

/-!
# Cells of pseudo-chunks

A pseudo-chunk stores a grid of corner samples if its entries are the cells of the
chunk with both solid and empty corners, sorted, each with its exact corner mask.
-/

namespace Voxen.Land

namespace PseudoChunkData

/-- The position of corner `i` of a cell, in YXZ order. -/
def cornerX (i : Nat) : Nat := if i.testBit 1 then 1 else 0

def cornerY (i : Nat) : Nat := if i.testBit 2 then 1 else 0

def cornerZ (i : Nat) : Nat := if i.testBit 0 then 1 else 0

/-- Which samples of a grid are solid, at `x`, `y`, `z`. -/
abbrev Samples := Nat → Nat → Nat → Bool

def cornerSolid (solid : Samples) (cell : UVec3) (i : Nat) : Bool :=
  solid (cell.x + cornerX i) (cell.y + cornerY i) (cell.z + cornerZ i)

/-- The surface crosses the cell. -/
def Mixed (solid : Samples) (cell : UVec3) : Prop :=
  (∃ i < 8, cornerSolid solid cell i = true) ∧ ∃ i < 8, cornerSolid solid cell i = false

def IsCornerMask (mask : BitVec 8) (solid : Samples) (cell : UVec3) : Prop :=
  ∀ i < 8, mask.getLsbD i = cornerSolid solid cell i

def InChunk (cell : UVec3) : Prop :=
  cell.x < chunkSizeBlocks ∧ cell.y < chunkSizeBlocks ∧ cell.z < chunkSizeBlocks

/-- The entries are exactly the cells that the surface crosses, in YXZ order. -/
structure Stores (data : PseudoChunkData) (solid : Samples) : Prop where
  sorted : data.cellEntries.Pairwise fun first second =>
    CellEntry.projection first.cellIndex < CellEntry.projection second.cellIndex
  mem_iff : ∀ entry, entry ∈ data.cellEntries ↔ InChunk entry.cellIndex ∧
    Mixed solid entry.cellIndex ∧ IsCornerMask entry.cornerSolidMask solid entry.cellIndex

variable {solid : Samples} {cell : UVec3} {mask : BitVec 8}

theorem eq_zero_iff : mask = 0 ↔ ∀ i < 8, mask.getLsbD i = false := by
  constructor
  · rintro rfl i -
    simp
  · intro clear
    refine BitVec.eq_of_getLsbD_eq fun i bound => ?_
    rw [clear i bound]
    simp

theorem eq_full_iff : mask = 255 ↔ ∀ i < 8, mask.getLsbD i = true := by
  have full : ∀ i < 8, (255 : BitVec 8).getLsbD i = true := by decide
  constructor
  · rintro rfl
    exact full
  · intro set
    exact BitVec.eq_of_getLsbD_eq fun i bound => (set i bound).trans (full i bound).symm

theorem IsCornerMask.mixed_iff (isMask : IsCornerMask mask solid cell) :
    Mixed solid cell ↔ ¬ (mask = 0 ∨ mask = 255) := by
  rw [not_or, eq_zero_iff, eq_full_iff]
  constructor
  · rintro ⟨⟨i, iBound, isSolid⟩, j, jBound, isEmpty⟩
    refine ⟨fun clear => ?_, fun set => ?_⟩
    · rw [← isMask i iBound, clear i iBound] at isSolid
      cases isSolid
    · rw [← isMask j jBound, set j jBound] at isEmpty
      cases isEmpty
  · rintro ⟨notClear, notFull⟩
    constructor
    · by_contra none_
      exact notClear fun i bound => by
        rw [isMask i bound, Bool.eq_false_iff]
        exact fun isSolid => none_ ⟨i, bound, isSolid⟩
    · by_contra none_
      exact notFull fun i bound => by
        rw [isMask i bound, ← Bool.not_eq_false]
        exact fun isEmpty => none_ ⟨i, bound, isEmpty⟩

theorem IsCornerMask.unique {mask' : BitVec 8} (isMask : IsCornerMask mask solid cell)
    (isMask' : IsCornerMask mask' solid cell) : mask = mask' :=
  BitVec.eq_of_getLsbD_eq fun i bound => (isMask i bound).trans (isMask' i bound).symm

/-- The mask of the corners of a cell. -/
def cornerMask (solid : Samples) (cell : UVec3) : BitVec 8 :=
  let corner := cornerSolid solid cell
  BitVec.ofBoolListLE [corner 0, corner 1, corner 2, corner 3, corner 4, corner 5, corner 6,
    corner 7]

theorem isCornerMask_cornerMask (solid : Samples) (cell : UVec3) :
    IsCornerMask (cornerMask solid cell) solid cell := by
  intro i bound
  rw [cornerMask, BitVec.getLsbD_ofBoolListLE]
  match i, bound with
  | 0, _ | 1, _ | 2, _ | 3, _ | 4, _ | 5, _ | 6, _ | 7, _ => rfl

/-! ## Lookup -/

/-- The coordinates fit into bytes, as those of a stored cell do. -/
def InBytes (cell : UVec3) : Prop := cell.x < 2 ^ 8 ∧ cell.y < 2 ^ 8 ∧ cell.z < 2 ^ 8

theorem InChunk.inBytes (inside : InChunk cell) : InBytes cell := by
  obtain ⟨xBound, yBound, zBound⟩ := inside
  simp only [chunkSizeBlocks] at *
  exact ⟨by omega, by omega, by omega⟩

theorem InBytes.projection_eq (inside : InBytes cell) :
    CellEntry.projection cell = cell.y * 2 ^ 24 + cell.x * 2 ^ 16 + cell.z := by
  obtain ⟨xBound, -, zBound⟩ := inside
  have low : cell.x <<< 16 < 2 ^ 24 := by
    rw [Nat.shiftLeft_eq]
    omega
  have high : cell.y <<< 24 + cell.x <<< 16 = (cell.y * 2 ^ 8 + cell.x) <<< 16 := by
    simp only [Nat.shiftLeft_eq]
    omega
  rw [CellEntry.projection, ← Nat.shiftLeft_add_eq_or_of_lt low, high,
    ← Nat.shiftLeft_add_eq_or_of_lt (by omega), Nat.shiftLeft_eq]
  omega

variable {other : UVec3} {data : PseudoChunkData} {entry : CellEntry}

theorem InBytes.projection_injective (inside : InBytes cell) (otherInside : InBytes other)
    (same : CellEntry.projection cell = CellEntry.projection other) : cell = other := by
  rw [inside.projection_eq, otherInside.projection_eq] at same
  obtain ⟨xBound, yBound, zBound⟩ := inside
  obtain ⟨xBound', yBound', zBound'⟩ := otherInside
  obtain ⟨x, y, z⟩ := cell
  obtain ⟨x', y', z'⟩ := other
  simp only at *
  obtain ⟨rfl, rfl, rfl⟩ : x = x' ∧ y = y' ∧ z = z' := by omega
  rfl

theorem projection_eq (inside : InChunk cell) :
    CellEntry.projection cell = cell.y * 2 ^ 24 + cell.x * 2 ^ 16 + cell.z :=
  inside.inBytes.projection_eq

theorem projection_injective (inside : InChunk cell) (otherInside : InChunk other)
    (same : CellEntry.projection cell = CellEntry.projection other) : cell = other :=
  inside.inBytes.projection_injective otherInside.inBytes same

/-- The binary search finds the entry of a cell if the surface crosses it. -/
theorem Stores.findEntry_iff (stores : Stores data solid) (inside : InChunk cell) :
    data.findEntry cell = some entry ↔ entry.cellIndex = cell ∧ Mixed solid cell ∧
      IsCornerMask entry.cornerSolidMask solid cell := by
  rw [findEntry, LowerBound.find_eq_some_iff stores.sorted, stores.mem_iff]
  constructor
  · rintro ⟨⟨entryInside, mixed, isMask⟩, same⟩
    obtain rfl := projection_injective entryInside inside same
    exact ⟨rfl, mixed, isMask⟩
  · rintro ⟨rfl, mixed, isMask⟩
    exact ⟨⟨inside, mixed, isMask⟩, rfl⟩

theorem Stores.findEntry_eq_none (stores : Stores data solid) (inside : InChunk cell)
    (absent : data.findEntry cell = none) : ¬ Mixed solid cell := by
  intro mixed
  have found : data.findEntry cell = some ⟨cell, cornerMask solid cell⟩ :=
    (stores.findEntry_iff inside).mpr ⟨rfl, mixed, isCornerMask_cornerMask solid cell⟩
  rw [absent] at found
  cases found

/-! ## Collecting cells -/

/-- The entries that `addCell` adds. -/
def cellOf (x y z : Nat) (mask : BitVec 8) : List CellEntry :=
  if mask = 0 ∨ mask = 255 then [] else [⟨⟨x, y, z⟩, mask⟩]

theorem addCell_entries (data : PseudoChunkData) (x y z : Nat) (mask : BitVec 8) :
    (data.addCell x y z mask).cellEntries = data.cellEntries ++ cellOf x y z mask := by
  unfold addCell cellOf
  split <;> simp

theorem forYXZ_entries (n : Nat) (data : PseudoChunkData) (maskOf : Nat → Nat → Nat → BitVec 8) :
    (forYXZ n data fun data x y z => data.addCell x y z (maskOf x y z)).cellEntries =
      data.cellEntries ++ (List.range n).flatMap fun y => (List.range n).flatMap fun x =>
        (List.range n).flatMap fun z => cellOf x y z (maskOf x y z) := by
  refine CountedLoop.run_append n data _ cellEntries _ fun data y => ?_
  refine CountedLoop.run_append n data _ cellEntries _ fun data x => ?_
  refine CountedLoop.run_append n data _ cellEntries _ fun data z => ?_
  exact addCell_entries data x y z (maskOf x y z)

theorem mem_cellOf {x y z : Nat} :
    entry ∈ cellOf x y z mask ↔
      entry = ⟨⟨x, y, z⟩, mask⟩ ∧ ¬ (mask = 0 ∨ mask = 255) := by
  unfold cellOf
  split <;> simp_all

theorem cellIndex_of_mem {x y z : Nat} (mem : entry ∈ cellOf x y z mask) :
    entry.cellIndex = ⟨x, y, z⟩ := by
  rw [(mem_cellOf.mp mem).1]

theorem projection_lt (inside : InChunk cell) (otherInside : InChunk other)
    (before : cell.y < other.y ∨ cell.y = other.y ∧
      (cell.x < other.x ∨ cell.x = other.x ∧ cell.z < other.z)) :
    CellEntry.projection cell < CellEntry.projection other := by
  rw [projection_eq inside, projection_eq otherInside]
  obtain ⟨xBound, -, zBound⟩ := inside
  obtain ⟨xBound', -, zBound'⟩ := otherInside
  simp only [chunkSizeBlocks] at *
  omega

theorem cells_sorted (maskOf : Nat → Nat → Nat → BitVec 8) :
    ((List.range chunkSizeBlocks).flatMap fun y => (List.range chunkSizeBlocks).flatMap fun x =>
      (List.range chunkSizeBlocks).flatMap fun z =>
        cellOf x y z (maskOf x y z)).Pairwise fun first second =>
      CellEntry.projection first.cellIndex < CellEntry.projection second.cellIndex := by
  refine List.pairwise_flatMap.mpr ⟨fun y yMem => List.pairwise_flatMap.mpr ⟨fun x xMem =>
    List.pairwise_flatMap.mpr ⟨fun z zMem => ?_, ?_⟩, ?_⟩, ?_⟩
  · unfold cellOf
    split <;> simp
  · refine List.pairwise_lt_range.imp_of_mem fun {z z'} zMem zMem' less first firstMem second
      secondMem => ?_
    rw [List.mem_range] at *
    rw [cellIndex_of_mem firstMem, cellIndex_of_mem secondMem]
    exact projection_lt ⟨xMem, yMem, zMem⟩ ⟨xMem, yMem, zMem'⟩ (Or.inr ⟨rfl, Or.inr ⟨rfl, less⟩⟩)
  · refine List.pairwise_lt_range.imp_of_mem fun {x x'} xMem xMem' less first firstMem second
      secondMem => ?_
    obtain ⟨z, zMem, firstMem⟩ := List.mem_flatMap.mp firstMem
    obtain ⟨z', zMem', secondMem⟩ := List.mem_flatMap.mp secondMem
    rw [List.mem_range] at *
    rw [cellIndex_of_mem firstMem, cellIndex_of_mem secondMem]
    exact projection_lt ⟨xMem, yMem, zMem⟩ ⟨xMem', yMem, zMem'⟩ (Or.inr ⟨rfl, Or.inl less⟩)
  · refine List.pairwise_lt_range.imp_of_mem fun {y y'} yMem yMem' less first firstMem second
      secondMem => ?_
    obtain ⟨x, xMem, firstMem⟩ := List.mem_flatMap.mp firstMem
    obtain ⟨z, zMem, firstMem⟩ := List.mem_flatMap.mp firstMem
    obtain ⟨x', xMem', secondMem⟩ := List.mem_flatMap.mp secondMem
    obtain ⟨z', zMem', secondMem⟩ := List.mem_flatMap.mp secondMem
    rw [List.mem_range] at *
    rw [cellIndex_of_mem firstMem, cellIndex_of_mem secondMem]
    exact projection_lt ⟨xMem, yMem, zMem⟩ ⟨xMem', yMem', zMem'⟩ (Or.inl less)

/-- A loop that finds the mask of every mixed cell, and none for the others, makes a
pseudo-chunk that stores the samples. -/
theorem stores_of_masks {maskOf : Nat → Nat → Nat → BitVec 8}
    (mixed_iff : ∀ cell, InChunk cell →
      (Mixed solid cell ↔ ¬ (maskOf cell.x cell.y cell.z = 0 ∨ maskOf cell.x cell.y cell.z = 255)))
    (isMask : ∀ cell, InChunk cell → Mixed solid cell →
      IsCornerMask (maskOf cell.x cell.y cell.z) solid cell) :
    Stores (forYXZ chunkSizeBlocks {} fun data x y z => data.addCell x y z (maskOf x y z))
      solid := by
  have entries := forYXZ_entries chunkSizeBlocks {} maskOf
  rw [List.nil_append] at entries
  refine ⟨?_, fun entry => ?_⟩
  · rw [entries]
    exact cells_sorted maskOf
  · rw [entries]
    simp only [List.mem_flatMap, List.mem_range, mem_cellOf]
    constructor
    · rintro ⟨y, yBound, x, xBound, z, zBound, rfl, stored⟩
      have inside : InChunk ⟨x, y, z⟩ := ⟨xBound, yBound, zBound⟩
      have mixed := (mixed_iff _ inside).mpr stored
      exact ⟨inside, mixed, isMask _ inside mixed⟩
    · rintro ⟨inside, mixed, mask⟩
      have ⟨xBound, yBound, zBound⟩ := inside
      refine ⟨_, yBound, _, xBound, _, zBound, ?_, (mixed_iff _ inside).mp mixed⟩
      rw [(isMask _ inside mixed).unique mask]

theorem Stores.nodup (stores : Stores data solid) :
    data.cellEntries.Nodup := by
  refine stores.sorted.imp ?_
  rintro entry _ less rfl
  exact Nat.lt_irrefl _ less

theorem Stores.unique {data' : PseudoChunkData} (stores : Stores data solid)
    (stores' : Stores data' solid) : data = data' := by
  have perm : data.cellEntries.Perm data'.cellEntries :=
    (List.perm_ext_iff_of_nodup stores.nodup stores'.nodup).mpr fun entry => by
      rw [stores.mem_iff, stores'.mem_iff]
  have same := perm.eq_of_pairwise (fun _ _ _ _ less more => absurd more (Nat.lt_asymm less))
    stores.sorted stores'.sorted
  obtain ⟨entries⟩ := data
  obtain ⟨entries'⟩ := data'
  exact congrArg PseudoChunkData.mk same

end PseudoChunkData

end Voxen.Land
