import Mathlib.Tactic.Ring
import Voxen.Land.PseudoChunkCells

/-!
# Aggregation of pseudo-chunks

A coarse cell takes corner `i` from finer cell `i`.  A finer cell that is absent has
eight equal corners, and one of them is a corner of every other finer cell, so that
any finer cell that is present tells the bit of an absent one.
-/

namespace Voxen.Land

namespace PseudoChunkData

/-- The samples at every other position. -/
def coarser (solid : Samples) : Samples := fun x y z => solid (2 * x) (2 * y) (2 * z)

/-- The samples of finer chunk `i`. -/
def finerSamples (solid : Samples) (i : Nat) : Samples := fun x y z =>
  solid (chunkSizeBlocks * cornerX i + x) (chunkSizeBlocks * cornerY i + y)
    (chunkSizeBlocks * cornerZ i + z)

/-- Finer cell `i` of a coarse cell. -/
def finerCell (cell : UVec3) (i : Nat) : UVec3 :=
  ⟨2 * cell.x + cornerX i, 2 * cell.y + cornerY i, 2 * cell.z + cornerZ i⟩

variable {solid : Samples} {cell : UVec3}

theorem cornerSolid_finerCell_comm (i j : Nat) :
    cornerSolid solid (finerCell cell i) j = cornerSolid solid (finerCell cell j) i := by
  simp only [cornerSolid, finerCell, Nat.add_right_comm]

theorem cornerSolid_coarser (i : Nat) :
    cornerSolid (coarser solid) cell i = cornerSolid solid (finerCell cell i) i := by
  have double : ∀ a b : Nat, 2 * (a + b) = 2 * a + b + b := fun a b => by omega
  simp only [cornerSolid, coarser, finerCell, double]

theorem cornerSolid_eq_of_not_mixed (notMixed : ¬ Mixed solid cell) {i j : Nat} (iBound : i < 8)
    (jBound : j < 8) : cornerSolid solid cell i = cornerSolid solid cell j := by
  by_contra different
  cases isSolid : cornerSolid solid cell i with
  | true =>
    rw [isSolid] at different
    exact notMixed ⟨⟨i, iBound, isSolid⟩, j, jBound, Bool.eq_false_iff.mpr (Ne.symm different)⟩
  | false =>
    rw [isSolid] at different
    exact notMixed ⟨⟨j, jBound, Bool.not_eq_false _ ▸ Ne.symm different⟩, i, iBound, isSolid⟩

/-- The opposite corners of the finer cells meet in the middle of the coarse cell. -/
theorem corner_opposite : ∀ i < 8, cornerX i + cornerX (7 - i) = 1 ∧
    cornerY i + cornerY (7 - i) = 1 ∧ cornerZ i + cornerZ (7 - i) = 1 := by
  decide

theorem not_mixed_coarser (none_ : ∀ i < 8, ¬ Mixed solid (finerCell cell i)) :
    ¬ Mixed (coarser solid) cell := by
  have middle : ∀ i < 8, cornerSolid (coarser solid) cell i =
      solid (2 * cell.x + 1) (2 * cell.y + 1) (2 * cell.z + 1) := by
    intro i bound
    obtain ⟨oppositeX, oppositeY, oppositeZ⟩ := corner_opposite i bound
    rw [cornerSolid_coarser,
      cornerSolid_eq_of_not_mixed (none_ i bound) bound (show 7 - i < 8 by omega)]
    simp only [cornerSolid, finerCell, Nat.add_assoc, oppositeX, oppositeY, oppositeZ]
  rintro ⟨⟨i, iBound, isSolid⟩, j, jBound, isEmpty⟩
  rw [middle i iBound] at isSolid
  rw [middle j jBound, isSolid] at isEmpty
  cases isEmpty

/-! ## One finer cell -/

/-- The masks after a finer cell with this mask is collected. -/
def collected (masks : CornerMasks) (i : Nat) (mask : BitVec 8) : CornerMasks :=
  let thisBit := 1#8 <<< i
  let solidMask := (mask &&& thisBit) ||| (masks.solidMask &&& ~~~thisBit)
  let knownMask := masks.knownMask ||| thisBit
  { solidMask := (solidMask &&& knownMask) ||| (mask &&& ~~~knownMask)
    knownMask }

theorem getLsbD_thisBit : ∀ i < 8, ∀ k < 8, (1#8 <<< i).getLsbD k = decide (k = i) := by
  decide

theorem collected_known (masks : CornerMasks) {i k : Nat} (iBound : i < 8) (kBound : k < 8)
    (mask : BitVec 8) :
    (collected masks i mask).knownMask.getLsbD k =
      (masks.knownMask.getLsbD k || decide (k = i)) := by
  simp only [collected, BitVec.getLsbD_or, getLsbD_thisBit i iBound k kBound]

/-- The bit of the finer cell itself is taken from it, and so are the unknown bits. -/
theorem collected_solid (masks : CornerMasks) {i k : Nat} (iBound : i < 8) (kBound : k < 8)
    (mask : BitVec 8) :
    (collected masks i mask).solidMask.getLsbD k =
      if k ≠ i ∧ masks.knownMask.getLsbD k = true then masks.solidMask.getLsbD k
      else mask.getLsbD k := by
  simp only [collected, BitVec.getLsbD_or, BitVec.getLsbD_and, BitVec.getLsbD_not,
    getLsbD_thisBit i iBound k kBound, kBound, decide_true, Bool.true_and]
  by_cases isBit : k = i
  · simp [isBit]
  · cases known : masks.knownMask.getLsbD k <;> simp [isBit]

theorem finerIndex_corner (px py pz : Prop) [Decidable px] [Decidable py] [Decidable pz] :
    ∃ index < 8, ((if pz then 0b001 else 0) ||| (if px then 0b010 else 0) |||
        (if py then 0b100 else 0) : Nat) = index ∧
      cornerX index = (if px then 1 else 0) ∧ cornerY index = (if py then 1 else 0) ∧
      cornerZ index = (if pz then 1 else 0) := by
  by_cases hx : px <;> by_cases hy : py <;> by_cases hz : pz <;>
    simp only [hx, hy, hz, if_true, if_false] <;> exact ⟨_, by decide, rfl, by decide⟩

theorem search_place {position : Nat} (bound : position < chunkSizeBlocks + chunkSizeBlocks) :
    (if position ≥ chunkSizeBlocks then position - chunkSizeBlocks else position) <
        chunkSizeBlocks ∧
      chunkSizeBlocks * (if position ≥ chunkSizeBlocks then 1 else 0) +
        (if position ≥ chunkSizeBlocks then position - chunkSizeBlocks else position) =
          position := by
  split <;> omega

theorem corner_le_one (i : Nat) : cornerX i ≤ 1 ∧ cornerY i ≤ 1 ∧ cornerZ i ≤ 1 := by
  unfold cornerX cornerY cornerZ
  refine ⟨?_, ?_, ?_⟩ <;> split <;> omega

theorem collectFiner_cases {finer : Fin 8 → PseudoChunkData}
    (stores : ∀ i : Fin 8, Stores (finer i) (finerSamples solid i)) (inside : InChunk cell)
    (masks : CornerMasks) (i : Nat) :
    (¬ Mixed solid (finerCell cell i) ∧
      collectFiner finer ⟨2 * cell.x, 2 * cell.y, 2 * cell.z⟩ masks i = masks) ∨
    (Mixed solid (finerCell cell i) ∧ ∃ mask, IsCornerMask mask solid (finerCell cell i) ∧
      collectFiner finer ⟨2 * cell.x, 2 * cell.y, 2 * cell.z⟩ masks i =
        collected masks i mask) := by
  obtain ⟨xBound, yBound, zBound⟩ := inside
  obtain ⟨xCorner, yCorner, zCorner⟩ := corner_le_one i
  obtain ⟨xInside, xPlace⟩ := search_place (show 2 * cell.x + cornerX i < _ by omega)
  obtain ⟨yInside, yPlace⟩ := search_place (show 2 * cell.y + cornerY i < _ by omega)
  obtain ⟨zInside, zPlace⟩ := search_place (show 2 * cell.z + cornerZ i < _ by omega)
  obtain ⟨index, indexBound, isIndex, xIndex, yIndex, zIndex⟩ := finerIndex_corner
    (2 * cell.x + cornerX i ≥ chunkSizeBlocks) (2 * cell.y + cornerY i ≥ chunkSizeBlocks)
    (2 * cell.z + cornerZ i ≥ chunkSizeBlocks)
  rw [← xIndex] at xPlace
  rw [← yIndex] at yPlace
  rw [← zIndex] at zPlace
  let search : UVec3 :=
    ⟨if 2 * cell.x + cornerX i ≥ chunkSizeBlocks then 2 * cell.x + cornerX i - chunkSizeBlocks
      else 2 * cell.x + cornerX i,
    if 2 * cell.y + cornerY i ≥ chunkSizeBlocks then 2 * cell.y + cornerY i - chunkSizeBlocks
      else 2 * cell.y + cornerY i,
    if 2 * cell.z + cornerZ i ≥ chunkSizeBlocks then 2 * cell.z + cornerZ i - chunkSizeBlocks
      else 2 * cell.z + cornerZ i⟩
  have lookup : collectFiner finer ⟨2 * cell.x, 2 * cell.y, 2 * cell.z⟩ masks i =
      ((finer (Fin.ofNat 8 index)).findEntry search).elim masks
        fun found => collected masks i found.cornerSolidMask := by
    have xSearch : (if i.testBit 1 then 2 * cell.x + 1 else 2 * cell.x) =
        2 * cell.x + cornerX i := by
      unfold cornerX
      split <;> rfl
    have ySearch : (if i.testBit 2 then 2 * cell.y + 1 else 2 * cell.y) =
        2 * cell.y + cornerY i := by
      unfold cornerY
      split <;> rfl
    have zSearch : (if i.testBit 0 then 2 * cell.z + 1 else 2 * cell.z) =
        2 * cell.z + cornerZ i := by
      unfold cornerZ
      split <;> rfl
    simp only [collectFiner, xSearch, ySearch, zSearch, isIndex]
    cases (finer (Fin.ofNat 8 index)).findEntry search <;> rfl
  have sameCorner : ∀ k, cornerSolid (finerSamples solid (Fin.ofNat 8 index)) search k =
      cornerSolid solid (finerCell cell i) k := by
    intro k
    have isSelf : (Fin.ofNat 8 index).val = index := Nat.mod_eq_of_lt indexBound
    simp only [cornerSolid, finerSamples, isSelf, finerCell, ← Nat.add_assoc, search, xPlace,
      yPlace, zPlace]
  have searchInside : InChunk search := ⟨xInside, yInside, zInside⟩
  have sameMixed : Mixed (finerSamples solid (Fin.ofNat 8 index)) search ↔
      Mixed solid (finerCell cell i) := by
    simp only [Mixed, sameCorner]
  rw [lookup, ← sameMixed]
  cases found : (finer (Fin.ofNat 8 index)).findEntry search with
  | none =>
    exact Or.inl ⟨(stores _).findEntry_eq_none searchInside found, rfl⟩
  | some entry =>
    obtain ⟨-, mixed, isMask⟩ := ((stores _).findEntry_iff searchInside).mp found
    exact Or.inr ⟨mixed, entry.cornerSolidMask,
      fun k bound => (isMask k bound).trans (sameCorner k), rfl⟩

/-! ## All the finer cells -/

/-- What the masks say after the finer cells below `count` are collected. -/
structure CornersInv (solid : Samples) (cell : UVec3) (count : Nat) (masks : CornerMasks) :
    Prop where
  known : ∀ k < 8, masks.knownMask.getLsbD k = true ↔
    k < count ∧ Mixed solid (finerCell cell k)
  exact_ : (∃ j < count, Mixed solid (finerCell cell j)) →
    ∀ k < 8, k < count ∨ ¬ Mixed solid (finerCell cell k) →
      masks.solidMask.getLsbD k = cornerSolid (coarser solid) cell k
  empty : (∀ j < count, ¬ Mixed solid (finerCell cell j)) → masks.solidMask = 0

theorem CornersInv.skip {count : Nat} {masks : CornerMasks}
    (inv : CornersInv solid cell count masks) (absent : ¬ Mixed solid (finerCell cell count)) :
    CornersInv solid cell (count + 1) masks where
  known k bound := by
    rw [inv.known k bound, Nat.lt_succ_iff_lt_or_eq]
    constructor
    · exact fun both => ⟨Or.inl both.1, both.2⟩
    · rintro ⟨less | rfl, mixed⟩
      · exact ⟨less, mixed⟩
      · exact absurd mixed absent
  exact_ := by
    rintro ⟨j, jBound, mixed⟩ k bound either
    have jLess : j < count := by
      rcases Nat.lt_succ_iff_lt_or_eq.mp jBound with less | rfl
      · exact less
      · exact absurd mixed absent
    refine inv.exact_ ⟨j, jLess, mixed⟩ k bound ?_
    rcases either with less | notMixed
    · rcases Nat.lt_succ_iff_lt_or_eq.mp less with less | rfl
      · exact Or.inl less
      · exact Or.inr absent
    · exact Or.inr notMixed
  empty none_ := inv.empty fun j less => none_ j (Nat.lt_succ_of_lt less)

/-- A finer cell that is present tells its own corner and those of the absent ones. -/
theorem CornersInv.collect {count : Nat} {masks : CornerMasks} {mask : BitVec 8}
    (inv : CornersInv solid cell count masks) (countBound : count < 8)
    (present : Mixed solid (finerCell cell count))
    (isMask : IsCornerMask mask solid (finerCell cell count)) :
    CornersInv solid cell (count + 1) (collected masks count mask) where
  known k bound := by
    rw [collected_known masks countBound bound, Bool.or_eq_true, inv.known k bound,
      decide_eq_true_eq, Nat.lt_succ_iff_lt_or_eq]
    constructor
    · rintro (⟨less, mixed⟩ | rfl)
      · exact ⟨Or.inl less, mixed⟩
      · exact ⟨Or.inr rfl, present⟩
    · rintro ⟨less | rfl, mixed⟩
      · exact Or.inl ⟨less, mixed⟩
      · exact Or.inr rfl
  exact_ := by
    rintro - k bound either
    rw [collected_solid masks countBound bound]
    split
    next old =>
      obtain ⟨less, mixed⟩ := (inv.known k bound).mp old.2
      exact inv.exact_ ⟨k, less, mixed⟩ k bound (Or.inl less)
    next new =>
      rw [isMask k bound, cornerSolid_coarser]
      by_cases isCount : k = count
      · rw [isCount]
      · -- the corner is shared with an absent cell, whose corners are all equal
        have notMixed : ¬ Mixed solid (finerCell cell k) := by
          rcases either with less | notMixed
          · intro mixed
            exact new ⟨isCount, (inv.known k bound).mpr ⟨by omega, mixed⟩⟩
          · exact notMixed
        rw [cornerSolid_finerCell_comm]
        exact cornerSolid_eq_of_not_mixed notMixed countBound bound
  empty none_ := absurd present (none_ count (Nat.lt_succ_self count))

variable {finer : Fin 8 → PseudoChunkData}

theorem collectFiner_inv (stores : ∀ i : Fin 8, Stores (finer i) (finerSamples solid i))
    (inside : InChunk cell) :
    CornersInv solid cell 8
      (CountedLoop.run 8 {} (collectFiner finer ⟨2 * cell.x, 2 * cell.y, 2 * cell.z⟩)) := by
  have start : CornersInv solid cell 0 {} := by
    refine ⟨?_, ?_, ?_⟩
    · intro k bound
      simp
    · rintro ⟨j, less, -⟩
      exact absurd less (Nat.not_lt_zero j)
    · intro _
      rfl
  apply CountedLoop.run_invariant 8 {} _ (CornersInv solid cell) start
  intro i masks bound inv
  rcases collectFiner_cases stores inside masks i with ⟨absent, same⟩ |
    ⟨present, mask, isMask, same⟩
  · rw [same]
    exact inv.skip absent
  · rw [same]
    exact inv.collect bound present isMask

/-- Aggregation of the pseudo-chunks of one LOD stores the samples of the next one. -/
theorem generateFromFinerLod_stores
    (stores : ∀ i : Fin 8, Stores (finer i) (finerSamples solid i)) :
    Stores (generateFromFinerLod {} finer) (coarser solid) := by
  have isMask : ∀ cell, InChunk cell → (∃ j < 8, Mixed solid (finerCell cell j)) →
      IsCornerMask (CountedLoop.run 8 {}
        (collectFiner finer ⟨2 * cell.x, 2 * cell.y, 2 * cell.z⟩)).solidMask
        (coarser solid) cell :=
    fun cell inside some_ k bound =>
      (collectFiner_inv stores inside).exact_ some_ k bound (Or.inl bound)
  refine stores_of_masks (fun cell inside => ?_) (fun cell inside mixed => ?_)
  · by_cases some_ : ∃ j < 8, Mixed solid (finerCell cell j)
    · exact (isMask cell inside some_).mixed_iff
    · have none_ : ∀ j < 8, ¬ Mixed solid (finerCell cell j) :=
        fun j bound mixed => some_ ⟨j, bound, mixed⟩
      rw [(collectFiner_inv stores inside).empty none_]
      simp [not_mixed_coarser none_]
  · refine isMask cell inside ?_
    by_contra none_
    exact not_mixed_coarser (fun j bound mixed => none_ ⟨j, bound, mixed⟩) mixed

/-! ## All the LODs -/

/-- The base of a chunk in the world, in chunks. -/
structure ChunkBase where
  x : Int
  y : Int
  z : Int

/-- Which blocks of the world are solid. -/
abbrev SolidBlocks := Int → Int → Int → Bool

/-- The corner samples of a pseudo-chunk: `2 ^ scaleLog2` blocks apart. -/
def lodSamples (blocks : SolidBlocks) (scaleLog2 : Nat) (base : ChunkBase) : Samples := fun x y z =>
  blocks (chunkSizeBlocks * base.x + 2 ^ scaleLog2 * x)
    (chunkSizeBlocks * base.y + 2 ^ scaleLog2 * y) (chunkSizeBlocks * base.z + 2 ^ scaleLog2 * z)

/-- The pseudo-chunks `enqueuePseudoDataGen` aggregates, from those of LOD1: the data
`steps` LODs above it. -/
def aggregate (lod1 : ChunkBase → PseudoChunkData) : Nat → ChunkBase → PseudoChunkData
  | 0, base => lod1 base
  | steps + 1, base =>
    let K : Int := 2 ^ (steps + 1)
    generateFromFinerLod {} fun i => aggregate lod1 steps
      ⟨base.x + K * cornerX i, base.y + K * cornerY i, base.z + K * cornerZ i⟩

theorem finerSamples_lodSamples (blocks : SolidBlocks) (scaleLog2 : Nat) (base : ChunkBase)
    (i : Nat) : finerSamples (lodSamples blocks scaleLog2 base) i =
      lodSamples blocks scaleLog2 ⟨base.x + 2 ^ scaleLog2 * cornerX i,
        base.y + 2 ^ scaleLog2 * cornerY i, base.z + 2 ^ scaleLog2 * cornerZ i⟩ := by
  have place : ∀ (a : Int) (corner position : Nat),
      (chunkSizeBlocks : Int) * a + 2 ^ scaleLog2 * (chunkSizeBlocks * corner + position : Nat) =
        chunkSizeBlocks * (a + 2 ^ scaleLog2 * corner) + 2 ^ scaleLog2 * position := by
    intro a corner position
    push_cast
    ring
  funext x y z
  simp only [finerSamples, lodSamples, place]

theorem coarser_lodSamples (blocks : SolidBlocks) (scaleLog2 : Nat) (base : ChunkBase) :
    coarser (lodSamples blocks scaleLog2 base) = lodSamples blocks (scaleLog2 + 1) base := by
  have place : ∀ position : Nat, (2 : Int) ^ scaleLog2 * (2 * position : Nat) =
      2 ^ (scaleLog2 + 1) * position := by
    intro position
    push_cast
    ring
  funext x y z
  simp only [coarser, lodSamples, place]

/-- By induction on the LODs, every aggregated pseudo-chunk stores the samples of its
LOD. -/
theorem aggregate_stores {blocks : SolidBlocks} {lod1 : ChunkBase → PseudoChunkData}
    (stores : ∀ base, Stores (lod1 base) (lodSamples blocks 1 base)) (steps : Nat)
    (base : ChunkBase) : Stores (aggregate lod1 steps base) (lodSamples blocks (steps + 1) base) := by
  induction steps generalizing base with
  | zero => exact stores base
  | succ steps ih =>
    rw [← coarser_lodSamples]
    refine generateFromFinerLod_stores fun i => ?_
    rw [finerSamples_lodSamples]
    exact ih _

/-- One step of aggregation, all the LODs, and that what they store is determined by
the samples. -/
theorem aggregation_exact :
    (∀ (solid : Samples) (finer : Fin 8 → PseudoChunkData),
      (∀ i : Fin 8, Stores (finer i) (finerSamples solid i)) →
        Stores (generateFromFinerLod {} finer) (coarser solid)) ∧
    (∀ (blocks : SolidBlocks) (lod1 : ChunkBase → PseudoChunkData),
      (∀ base, Stores (lod1 base) (lodSamples blocks 1 base)) →
        ∀ steps base, Stores (aggregate lod1 steps base) (lodSamples blocks (steps + 1) base)) ∧
    ∀ (solid : Samples) (data data' : PseudoChunkData),
      Stores data solid → Stores data' solid → data = data' :=
  ⟨fun _ _ stores => generateFromFinerLod_stores stores,
    fun _ _ stores => aggregate_stores stores, fun _ _ _ stores stores' => stores.unique stores'⟩

/-- The pseudo-chunk made from the corner masks of the samples. -/
def ofSamples (solid : Samples) : PseudoChunkData :=
  forYXZ chunkSizeBlocks {} fun data x y z => data.addCell x y z (cornerMask solid ⟨x, y, z⟩)

theorem ofSamples_stores (solid : Samples) : Stores (ofSamples solid) solid :=
  stores_of_masks (fun cell _ => (isCornerMask_cornerMask solid cell).mixed_iff)
    fun cell _ _ => isCornerMask_cornerMask solid cell

/-- One solid sample. -/
def oneSample : Samples := fun x y z => decide (x = 2 ∧ y = 2 ∧ z = 34)

theorem oneSample_aggregated :
    Stores (generateFromFinerLod {} fun i => ofSamples (finerSamples oneSample i))
      (coarser oneSample) :=
  aggregation_exact.1 oneSample _ fun _ => ofSamples_stores _

end PseudoChunkData

end Voxen.Land
