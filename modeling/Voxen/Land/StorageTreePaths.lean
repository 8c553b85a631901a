import Voxen.Land.StorageTreeNodeLaws
import Mathlib.Tactic.IntervalCases

/-!
# The bits of a valid tree path

Between the root byte and the byte with the stop bit a path spells the bits of
the key's coordinates, below it everything is determined by the bits above.  So
two valid paths that lead to the same key of the same node are equal.
-/

namespace Voxen.Land.StorageTree

open PackedArray (popcount rank bit)
open StorageTreeUtils

/-- The path is a value `keyToTreePath` returns. -/
def ValidPath (treePath : BitVec 64) : Prop :=
  ∃ key, keyToTreePath key = some treePath

/-- Bit `index` of the coordinate that position `axis` of a bit triple stands for. -/
def coordinateBit (key : ChunkKey) (axis index : Nat) : Bool :=
  match axis with
  | 0 => key.z.getLsbD index
  | 1 => key.x.getLsbD index
  | _ => key.y.getLsbD index

theorem getLsbD_signExtend_twice {w : Nat} (source : BitVec w) {index : Nat}
    (inside : index < w) (narrow : w ≤ 32) :
    ((source.signExtend 32).signExtend 64).getLsbD index = source.getLsbD index := by
  rw [BitVec.getLsbD_signExtend, BitVec.getLsbD_signExtend]
  simp [show index < 64 by omega, show index < 32 by omega, inside]

theorem getLsbD_bitAt (source : BitVec 32) (start i : Nat) :
    (bitAt source start).getLsbD i = (decide (i = 0) && source.getLsbD start) := by
  unfold bitAt
  rw [BitVec.getLsbD_setWidth, BitVec.getLsbD_and, BitVec.getLsbD_ushiftRight,
    BitVec.getLsbD_one]
  cases i with
  | zero => simp
  | succ i => simp

/-- What is known about the key of a valid path. -/
structure PathOf (treePath : BitVec 64) (key : ChunkKey) : Prop where
  scale : key.scaleLog2.toNat ≤ 8
  aligned : ∀ axis index, index < key.scaleLog2.toNat → coordinateBit key axis index = false
  eq : treePath =
    (bitAt (key.y.signExtend 32) key.scaleLog2.toNat <<< 2 |||
      bitAt (key.x.signExtend 32) key.scaleLog2.toNat <<< 1 |||
      bitAt (key.z.signExtend 32) key.scaleLog2.toNat) |||
    BitVec.ofNat 64 (2 ||| (key.scaleLog2.toNat &&& 1)) <<<
      (8 * ((key.scaleLog2.toNat + 1) / 2) + 6) |||
    rootSelector (key.x.signExtend 32).toInt (key.z.signExtend 32).toInt |||
    pdep ((key.x.signExtend 32).signExtend 64) xMask |||
    pdep ((key.y.signExtend 32).signExtend 64) yMask |||
    pdep ((key.z.signExtend 32).signExtend 64) zMask

theorem pathOf_of_keyToTreePath {key : ChunkKey} {treePath : BitVec 64}
    (path : keyToTreePath key = some treePath) : PathOf treePath key := by
  unfold keyToTreePath at path
  dsimp only at path
  split at path
  · cases path
  · split at path
    · cases path
    · rename_i scale
      split at path
      · cases path
      · rename_i misaligned
        have aligned := not_not.mp misaligned
        have small : key.scaleLog2.toNat ≤ 8 := Nat.le_of_not_lt scale
        refine ⟨small, ?_, (Option.some.inj path).symm⟩
        intro axis index below
        have cleared := congrArg (fun mask => mask.getLsbD index) aligned
        have one : (1#32 <<< key.scaleLog2.toNat - 1#32) = bit 32 key.scaleLog2.toNat - 1#32 := by
          rw [bit, BitVec.twoPow_eq]
        simp only [one, BitVec.getLsbD_and, BitVec.getLsbD_or,
          PackedArray.getLsbD_bit_sub_one (show key.scaleLog2.toNat < 32 by omega), below,
          BitVec.getLsbD_signExtend, decide_true, Bool.and_true] at cleared
        unfold coordinateBit
        simp [show index < 32 by omega, show index < 22 by omega,
          show index < 16 by omega] at cleared
        split <;> simp [show index < 22 by omega, show index < 16 by omega, cleared]

/-! ## The bits of a path, byte by byte -/

theorem getLsbD_stopSubnodeBits : ∀ scale : Fin 9, ∀ i : Fin 64,
    (BitVec.ofNat 64 (2 ||| (scale.val &&& 1)) <<< (8 * ((scale.val + 1) / 2) + 6)).getLsbD i =
      (decide (i.val = 8 * ((scale.val + 1) / 2) + 7) ||
        (decide (i.val = 8 * ((scale.val + 1) / 2) + 6) && decide (scale.val % 2 = 1))) := by
  decide +kernel

theorem getLsbD_rootSelector_low (x z : Int) {i : Nat} (low : i < 56) :
    (rootSelector x z).getLsbD i = false := by
  unfold rootSelector
  rw [BitVec.getLsbD_shiftLeft]
  simp [low]

theorem masks_duoctree : ∀ l : Fin 4, ∀ b : Fin 6,
    xMask.getLsbD (8 * (l + 1) + b) = decide (b.val % 3 = 1) ∧
    yMask.getLsbD (8 * (l + 1) + b) = decide (b.val % 3 = 2) ∧
    zMask.getLsbD (8 * (l + 1) + b) = decide (b.val % 3 = 0) ∧
    (b.val % 3 = 1 → rank xMask (8 * (l + 1) + b) = 2 * l + b / 3) ∧
    (b.val % 3 = 2 → rank yMask (8 * (l + 1) + b) = 2 * l + b / 3) ∧
    (b.val % 3 = 0 → rank zMask (8 * (l + 1) + b) = 2 * l + b / 3) := by
  decide +kernel

theorem masks_triquadtree : ∀ l : Fin 2, ∀ b : Fin 6,
    xMask.getLsbD (8 * (l + 5) + b) = decide (b.val % 2 = 1) ∧
    yMask.getLsbD (8 * (l + 5) + b) = false ∧
    zMask.getLsbD (8 * (l + 5) + b) = decide (b.val % 2 = 0) ∧
    (b.val % 2 = 1 → rank xMask (8 * (l + 5) + b) = 8 + 3 * l + b / 2) ∧
    (b.val % 2 = 0 → rank zMask (8 * (l + 5) + b) = 8 + 3 * l + b / 2) := by
  decide +kernel

theorem masks_rest : ∀ i : Fin 64, (i.val < 8 ∨ 56 ≤ i.val ∨ 6 ≤ i.val % 8) →
    xMask.getLsbD i = false ∧ zMask.getLsbD i = false ∧
    yMask.getLsbD i = decide (i.val = 46) := by
  decide +kernel

namespace PathOf

variable {treePath : BitVec 64} {key : ChunkKey}

theorem getLsbD (path : PathOf treePath key) {i : Nat} (hi : i < 64) :
    treePath.getLsbD i =
      ((decide (i < 3) && coordinateBit key i key.scaleLog2.toNat) ||
      (decide (i = 8 * ((key.scaleLog2.toNat + 1) / 2) + 7) ||
        (decide (i = 8 * ((key.scaleLog2.toNat + 1) / 2) + 6) &&
          decide (key.scaleLog2.toNat % 2 = 1))) ||
      (rootSelector (key.x.signExtend 32).toInt (key.z.signExtend 32).toInt).getLsbD i ||
      (xMask.getLsbD i && key.x.getLsbD (rank xMask i)) ||
      (yMask.getLsbD i && key.y.getLsbD (rank yMask i)) ||
      (zMask.getLsbD i && key.z.getLsbD (rank zMask i))) := by
  have xRank : ∀ i, i < 64 → rank xMask i < 16 := fun i hi =>
    Nat.lt_of_le_of_lt (PackedArray.rank_le_popcount xMask (Nat.le_of_lt hi)) (by decide)
  have yRank : ∀ i, i < 64 → rank yMask i < 16 := fun i hi =>
    Nat.lt_of_le_of_lt (PackedArray.rank_le_popcount yMask (Nat.le_of_lt hi)) (by decide)
  have zRank : ∀ i, i < 64 → rank zMask i < 16 := fun i hi =>
    Nat.lt_of_le_of_lt (PackedArray.rank_le_popcount zMask (Nat.le_of_lt hi)) (by decide)
  have stop := getLsbD_stopSubnodeBits ⟨key.scaleLog2.toNat, Nat.lt_succ_of_le path.scale⟩ ⟨i, hi⟩
  have selector : (bitAt (key.y.signExtend 32) key.scaleLog2.toNat <<< 2 |||
      bitAt (key.x.signExtend 32) key.scaleLog2.toNat <<< 1 |||
      bitAt (key.z.signExtend 32) key.scaleLog2.toNat).getLsbD i =
        (decide (i < 3) && coordinateBit key i key.scaleLog2.toNat) := by
    have scale := path.scale
    simp only [BitVec.getLsbD_or, BitVec.getLsbD_shiftLeft, getLsbD_bitAt,
      BitVec.getLsbD_signExtend]
    rcases Nat.lt_or_ge i 3 with low | high
    · interval_cases i <;>
        simp [coordinateBit, show key.scaleLog2.toNat < 32 by omega,
          show key.scaleLog2.toNat < 22 by omega, show key.scaleLog2.toNat < 16 by omega]
    · simp [show ¬ i < 3 by omega, show i ≠ 0 by omega, show i - 1 ≠ 0 by omega,
        show i - 2 ≠ 0 by omega]
  dsimp only at stop
  rw [path.eq]
  simp only [BitVec.getLsbD_or, getLsbD_pdep]
  rw [← BitVec.getLsbD_or, ← BitVec.getLsbD_or, selector, stop,
    getLsbD_signExtend_twice key.x (Nat.lt_trans (xRank i hi) (by decide)) (by decide),
    getLsbD_signExtend_twice key.y (yRank i hi) (by decide),
    getLsbD_signExtend_twice key.z (Nat.lt_trans (zRank i hi) (by decide)) (by decide)]

theorem duoctree_bit (path : PathOf treePath key) {l b : Nat} (hl : l < 4) (hb : b < 6) :
    treePath.getLsbD (8 * (l + 1) + b) = coordinateBit key (b % 3) (2 * l + b / 3) := by
  obtain ⟨xSet, ySet, zSet, xRank, yRank, zRank⟩ := masks_duoctree ⟨l, hl⟩ ⟨b, hb⟩
  dsimp only at xSet ySet zSet xRank yRank zRank
  rw [path.getLsbD (by omega), getLsbD_rootSelector_low _ _ (by omega), xSet, ySet, zSet]
  have above : ¬ 8 * (l + 1) + b < 3 := by omega
  have notStop : 8 * (l + 1) + b ≠ 8 * ((key.scaleLog2.toNat + 1) / 2) + 7 := by omega
  have notSubnode : 8 * (l + 1) + b ≠ 8 * ((key.scaleLog2.toNat + 1) / 2) + 6 := by omega
  rcases (by omega : b % 3 = 0 ∨ b % 3 = 1 ∨ b % 3 = 2) with axis | axis | axis
  · simp [above, notStop, notSubnode, axis, zRank axis, coordinateBit]
  · simp [above, notStop, notSubnode, axis, xRank axis, coordinateBit]
  · simp [above, notStop, notSubnode, axis, yRank axis, coordinateBit]

/-- The bits of a triquadtree level that select the column of the child. -/
theorem triquadtree_bit (path : PathOf treePath key) {l b : Nat} (hl : l < 2) (hb : b < 6) :
    treePath.getLsbD (8 * (l + 5) + b) = coordinateBit key (b % 2) (8 + 3 * l + b / 2) := by
  obtain ⟨xSet, ySet, zSet, xRank, zRank⟩ := masks_triquadtree ⟨l, hl⟩ ⟨b, hb⟩
  dsimp only at xSet ySet zSet xRank zRank
  have scale := path.scale
  rw [path.getLsbD (by omega), getLsbD_rootSelector_low _ _ (by omega), xSet, ySet, zSet]
  have above : ¬ 8 * (l + 5) + b < 3 := by omega
  have notStop : 8 * (l + 5) + b ≠ 8 * ((key.scaleLog2.toNat + 1) / 2) + 7 := by omega
  have notSubnode : 8 * (l + 5) + b ≠ 8 * ((key.scaleLog2.toNat + 1) / 2) + 6 := by omega
  rcases (by omega : b % 2 = 0 ∨ b % 2 = 1) with axis | axis
  · simp [above, notStop, notSubnode, axis, zRank axis, coordinateBit]
  · simp [above, notStop, notSubnode, axis, xRank axis, coordinateBit]

theorem rest_bit (path : PathOf treePath key) {i : Nat} (hi : i < 56)
    (rest : i < 8 ∨ 6 ≤ i % 8) :
    treePath.getLsbD i =
      ((decide (i < 3) && coordinateBit key i key.scaleLog2.toNat) ||
      (decide (i = 8 * ((key.scaleLog2.toNat + 1) / 2) + 7) ||
        (decide (i = 8 * ((key.scaleLog2.toNat + 1) / 2) + 6) &&
          decide (key.scaleLog2.toNat % 2 = 1))) ||
      (decide (i = 46) && coordinateBit key 2 8)) := by
  obtain ⟨xSet, zSet, ySet⟩ := masks_rest ⟨i, by omega⟩ (by
    rcases rest with low | unused
    · exact Or.inl low
    · exact Or.inr (Or.inr unused))
  dsimp only at xSet zSet ySet
  rw [path.getLsbD (by omega), getLsbD_rootSelector_low _ _ hi, xSet, ySet, zSet]
  by_cases sign : i = 46
  · subst sign
    have yRank : rank yMask 46 = 8 := by decide
    simp [yRank, coordinateBit]
  · simp [sign]

end PathOf

/-! ## Path components in terms of bits -/

theorem getLsbD_component (level : Nat) (treePath : BitVec 64) {b : Nat} (hb : b < 8) :
    (extractNodePathComponent level treePath).getLsbD b = treePath.getLsbD (8 * level + b) := by
  unfold extractNodePathComponent
  rw [BitVec.getLsbD_and, BitVec.getLsbD_ushiftRight]
  have ones : ∀ b : Fin 8, (255#64).getLsbD b = true := by decide
  rw [ones ⟨b, hb⟩, Bool.and_true]

theorem pathStop_eq (level : Nat) (treePath : BitVec 64) :
    pathStop level treePath = treePath.getLsbD (8 * level + 7) := by
  have test := PackedArray.and_bit_ne_zero (extractNodePathComponent level treePath) 7
  rw [getLsbD_component level treePath (by decide)] at test
  unfold pathStop extractNodePathStopBit
  rw [Bool.eq_iff_iff, decide_eq_true_eq]
  exact test

theorem pathHigh_eq (level : Nat) (treePath : BitVec 64) :
    pathHigh true level treePath = treePath.getLsbD (8 * level + 6) := by
  have test := PackedArray.and_bit_ne_zero (extractNodePathComponent level treePath) 6
  rw [getLsbD_component level treePath (by decide)] at test
  unfold pathHigh triquadtreeYNegative
  rw [Bool.true_and, Bool.eq_iff_iff, decide_eq_true_eq]
  exact test

theorem bits_of_pathSlot {level : Nat} {treePath query : BitVec 64}
    (same : pathSlot level treePath = pathSlot level query) {b : Nat} (hb : b < 6) :
    treePath.getLsbD (8 * level + b) = query.getLsbD (8 * level + b) := by
  have equal := congrArg (fun mask => mask.getLsbD b) (BitVec.eq_of_toNat_eq same)
  have ones : ∀ b : Fin 6, (63#64).getLsbD b = true := by decide
  simp only [BitVec.getLsbD_and, ones ⟨b, hb⟩, Bool.and_true] at equal
  rwa [getLsbD_component level treePath (by omega),
    getLsbD_component level query (by omega)] at equal

/-- Equal positions in the live key mask mean equal subnode bits, and equal
selectors if these are set. -/
theorem bits_of_keyIndex {level : Nat} {treePath query : BitVec 64}
    (same : keyIndex level treePath = keyIndex level query) :
    treePath.getLsbD (8 * level + 6) = query.getLsbD (8 * level + 6) ∧
    (treePath.getLsbD (8 * level + 6) = true →
      ∀ b, b < 3 → treePath.getLsbD b = query.getLsbD b) := by
  have test : ∀ path : BitVec 64, extractNodePathComponent level path &&& 64#64 ≠ 0#64 ↔
      path.getLsbD (8 * level + 6) = true := fun path => by
    rw [← getLsbD_component level path (by decide)]
    exact PackedArray.and_bit_ne_zero _ 6
  have selector : ∀ path : BitVec 64, (path &&& 7#64).toNat < 8 := fun path => by
    rw [BitVec.toNat_and]
    exact Nat.lt_of_le_of_lt Nat.and_le_right (by decide)
  have smallPath := selector treePath
  have smallQuery := selector query
  unfold keyIndex at same
  simp only [test] at same
  cases subnode : treePath.getLsbD (8 * level + 6) <;>
    cases subnodeQuery : query.getLsbD (8 * level + 6) <;>
    simp only [subnode, subnodeQuery, Bool.false_eq_true, if_true, if_false] at same
  · exact ⟨rfl, nofun⟩
  · omega
  · omega
  · refine ⟨rfl, fun _ b hb => ?_⟩
    have equal := congrArg (fun mask => mask.getLsbD b) (BitVec.eq_of_toNat_eq same)
    have ones : ∀ b : Fin 3, (7#64).getLsbD b = true := by decide
    simpa only [BitVec.getLsbD_and, ones ⟨b, hb⟩, Bool.and_true] using equal

/-- Two paths agree from the root byte down to the level they stop at. -/
structure AgreeAbove (level : Nat) (treePath query : BitVec 64) : Prop where
  root : ∀ i, 56 ≤ i → treePath.getLsbD i = query.getLsbD i
  triquadtree : ∀ l b, l < 2 → b < 6 →
    treePath.getLsbD (8 * (l + 5) + b) = query.getLsbD (8 * (l + 5) + b)
  sign : treePath.getLsbD 46 = query.getLsbD 46
  duoctree : ∀ l b, l < 4 → level < l + 1 → b < 6 →
    treePath.getLsbD (8 * (l + 1) + b) = query.getLsbD (8 * (l + 1) + b)

/-- Two valid paths that stop at one level, agree above it and mean the same key
there are equal. -/
theorem eq_of_agreeAbove {treePath query : BitVec 64} {key other : ChunkKey}
    (path : PathOf treePath key) (path' : PathOf query other) {level : Nat}
    (stop : (key.scaleLog2.toNat + 1) / 2 = level)
    (stop' : (other.scaleLog2.toNat + 1) / 2 = level)
    (agree : AgreeAbove level treePath query)
    (same : level ≠ 0 → keyIndex level treePath = keyIndex level query) :
    treePath = query := by
  have scale := path.scale
  -- both keys have the same scale
  have subnode : ∀ {path : BitVec 64} {key : ChunkKey}, PathOf path key →
      (key.scaleLog2.toNat + 1) / 2 = level →
      path.getLsbD (8 * level + 6) = decide (key.scaleLog2.toNat % 2 = 1) := by
    intro path key pathOf stops
    have small := pathOf.scale
    rw [pathOf.rest_bit (by omega) (Or.inr (by omega)), stops]
    simp [show ¬ 8 * level + 6 < 3 by omega, show 8 * level + 6 ≠ 46 by omega]
  have scales : key.scaleLog2.toNat = other.scaleLog2.toNat := by
    by_cases bottom : level = 0
    · omega
    · have bits := (bits_of_keyIndex (same bottom)).1
      rw [subnode path stop, subnode path' stop'] at bits
      have parity : key.scaleLog2.toNat % 2 = 1 ↔ other.scaleLog2.toNat % 2 = 1 := by
        simpa using bits
      omega
  have selectors : ∀ b, b < 3 → treePath.getLsbD b = query.getLsbD b := by
    intro b hb
    rcases Nat.mod_two_eq_zero_or_one key.scaleLog2.toNat with even | odd
    · -- the selector repeats the lowest bits of the level above
      have above : ∀ {path : BitVec 64} {key : ChunkKey}, PathOf path key →
          (key.scaleLog2.toNat + 1) / 2 = level → key.scaleLog2.toNat % 2 = 0 →
          path.getLsbD b = coordinateBit key b (2 * level) := by
        intro path key pathOf stops even
        rw [pathOf.rest_bit (by omega) (Or.inl (by omega)),
          show key.scaleLog2.toNat = 2 * level by omega]
        simp [hb, show b ≠ 8 * ((2 * level + 1) / 2) + 7 by omega,
          show b ≠ 8 * ((2 * level + 1) / 2) + 6 by omega, show b ≠ 46 by omega]
      rw [above path stop even, above path' stop' (by omega)]
      by_cases top : level = 4
      · subst top
        interval_cases b
        · rw [← path.triquadtree_bit (show 0 < 2 by decide) (show 0 < 6 by decide),
            ← path'.triquadtree_bit (show 0 < 2 by decide) (show 0 < 6 by decide)]
          exact agree.triquadtree 0 0 (by decide) (by decide)
        · rw [← path.triquadtree_bit (show 0 < 2 by decide) (show 1 < 6 by decide),
            ← path'.triquadtree_bit (show 0 < 2 by decide) (show 1 < 6 by decide)]
          exact agree.triquadtree 0 1 (by decide) (by decide)
        · have sign : ∀ {path : BitVec 64} {key : ChunkKey}, PathOf path key →
              path.getLsbD 46 = coordinateBit key 2 8 := by
            intro path key pathOf
            have small := pathOf.scale
            rw [pathOf.rest_bit (by decide) (Or.inr (by decide))]
            simp [show 46 ≠ 8 * ((key.scaleLog2.toNat + 1) / 2) + 7 by omega,
              show 46 ≠ 8 * ((key.scaleLog2.toNat + 1) / 2) + 6 by omega]
          rw [← sign path, ← sign path']
          exact agree.sign
      · have repeated : ∀ {path : BitVec 64} {key : ChunkKey}, PathOf path key →
            path.getLsbD (8 * (level + 1) + b) = coordinateBit key b (2 * level) := by
          intro path key pathOf
          rw [pathOf.duoctree_bit (by omega) (by omega), Nat.mod_eq_of_lt hb,
            Nat.div_eq_of_lt hb, Nat.add_zero]
        rw [← repeated path, ← repeated path']
        exact agree.duoctree level b (by omega) (Nat.lt_succ_self level) (by omega)
    · have positive : level ≠ 0 := by omega
      refine (bits_of_keyIndex (same positive)).2 ?_ b hb
      rw [subnode path stop]
      simpa using odd
  -- the coordinate bits below the scale are zero, the one at an odd scale is the selector
  have lower : ∀ l b, l + 1 ≤ level → l < 4 → b < 6 →
      treePath.getLsbD (8 * (l + 1) + b) = query.getLsbD (8 * (l + 1) + b) := by
    intro l b below hl hb
    rw [path.duoctree_bit hl hb, path'.duoctree_bit hl hb]
    by_cases inside : 2 * l + b / 3 < key.scaleLog2.toNat
    · rw [path.aligned _ _ inside, path'.aligned _ _ (scales ▸ inside)]
    · have lands : 2 * l + b / 3 = key.scaleLog2.toNat := by omega
      have selector : ∀ {path : BitVec 64} {key : ChunkKey}, PathOf path key →
          (key.scaleLog2.toNat + 1) / 2 = level → 2 * l + b / 3 = key.scaleLog2.toNat →
          path.getLsbD (b % 3) = coordinateBit key (b % 3) (2 * l + b / 3) := by
        intro path key pathOf stops here
        rw [pathOf.rest_bit (by omega) (Or.inl (by omega)), ← here]
        simp [show b % 3 < 3 by omega,
          show b % 3 ≠ 8 * ((2 * l + b / 3 + 1) / 2) + 7 by omega,
          show b % 3 ≠ 8 * ((2 * l + b / 3 + 1) / 2) + 6 by omega, show b % 3 ≠ 46 by omega]
      rw [← selector path stop lands, ← selector path' stop' (by omega)]
      exact selectors _ (by omega)
  apply BitVec.eq_of_getLsbD_eq
  intro i hi
  by_cases rest : i < 56 ∧ (i < 8 ∨ 6 ≤ i % 8)
  · by_cases low : i < 3
    · exact selectors i low
    · by_cases sign : i = 46
      · rw [sign]
        exact agree.sign
      · rw [path.rest_bit rest.1 rest.2, path'.rest_bit rest.1 rest.2, scales]
        simp [low, sign]
  · obtain ⟨l, b, split⟩ : ∃ l b, i = 8 * l + b ∧ b < 8 ∧ l < 8 :=
      ⟨i / 8, i % 8, by omega, by omega, by omega⟩
    by_cases root : 56 ≤ i
    · exact agree.root i root
    · rcases Nat.lt_or_ge l 5 with duoctree | triquadtree
      · obtain ⟨m, rfl⟩ : ∃ m, l = m + 1 := ⟨l - 1, by omega⟩
        rw [split.1]
        rcases Nat.lt_or_ge level (m + 1) with above | below
        · exact agree.duoctree m b (by omega) above (by omega)
        · exact lower m b below (by omega) (by omega)
      · obtain ⟨m, rfl⟩ : ∃ m, l = m + 5 := ⟨l - 5, by omega⟩
        rw [split.1]
        exact agree.triquadtree m b (by omega) (by omega)

end Voxen.Land.StorageTree
