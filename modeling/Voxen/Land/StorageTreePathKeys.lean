import Mathlib.Data.Int.ModEq
import Voxen.Land.ChunkKeyVolumes
import Voxen.Land.StorageTree
import Voxen.Land.StorageTreePaths

/-!
# The keys of tree paths

A path tells the key it was made of, with the coordinates wrapped around the world. So two
keys have one path exactly when they are the same up to the wraparound.
-/

namespace Voxen.Land.Consts

/-- `MAX_UNIQUE_WORLD_X_CHUNK`. -/
abbrev maxUniqueWorldXChunk : Int := -minUniqueWorldXChunk - 1

/-- `MAX_UNIQUE_WORLD_Z_CHUNK`. -/
abbrev maxUniqueWorldZChunk : Int := -minUniqueWorldZChunk - 1

end Voxen.Land.Consts

namespace Voxen.Land.StorageTreeUtils

open PackedArray (rank bit popcount)

/-- One step of `_pext_u64`: the source bit at a set position of the mask goes to the next
position of the result. -/
def pextStep (source mask : BitVec 64) (state : BitVec 64 × Nat) (i : Nat) : BitVec 64 × Nat :=
  if mask.getLsbD i then
    (if source.getLsbD i then state.1 ||| bit 64 state.2 else state.1, state.2 + 1)
  else state

/-- `_pext_u64`: the bits of `source` at the set positions of `mask`, in order. -/
def pext (source mask : BitVec 64) : BitVec 64 :=
  (CountedLoop.run 64 (0#64, 0) (pextStep source mask)).1

/-- The loop that searches the level with the stop bit, over the scales still to be tested. -/
def searchLod (treePath : BitVec 64) : List Nat → Nat
  | [] => 0
  | lod :: rest =>
    if treePath &&& (128#64 <<< (8 * lod / 2)) ≠ 0#64 then
      if treePath &&& (64#64 <<< (8 * lod / 2)) ≠ 0#64 then lod - 1 else lod
    else searchLod treePath rest

/-- The scales of the duoctree levels: `lod = 2; lod < NUM_LOD_SCALES; lod += 2`. -/
def duoctreeLods : List Nat := List.range' 2 ((Consts.numLodScales - 1) / 2) 2

def treePathToKey (treePath : BitVec 64) : ChunkKey :=
  let x := pext treePath xMask
  let y := pext treePath yMask
  let z := pext treePath zMask
  let ySignBit := 1#64 <<< 8
  let ySignFillMask := ~~~((ySignBit <<< 1) - 1#64)
  let y := if y &&& ySignBit ≠ 0#64 then y ||| ySignFillMask else y
  let coord := calcRootItemMinCoord (treePath >>> (64 - 8)).toNat
  let coord : IVec3 :=
    { x := coord.x + x.setWidth 32
      y := y.setWidth 32
      z := coord.z + z.setWidth 32 }
  ChunkKey.ofBase coord (searchLod treePath duoctreeLods)

theorem getLsbD_pext (source mask : BitVec 64) :
    (∀ i, i < 64 → mask.getLsbD i →
      (pext source mask).getLsbD (rank mask i) = source.getLsbD i) ∧
    ∀ k, popcount mask ≤ k → (pext source mask).getLsbD k = false := by
  have final := CountedLoop.run_invariant 64 (0#64, 0) (pextStep source mask)
    (fun n state => state.2 = rank mask n ∧
      (∀ i, i < n → mask.getLsbD i → state.1.getLsbD (rank mask i) = source.getLsbD i) ∧
      ∀ k, rank mask n ≤ k → state.1.getLsbD k = false)
    ⟨rfl, fun i below => absurd below (Nat.not_lt_zero i), fun k _ => BitVec.getLsbD_zero⟩ (by
      rintro n ⟨result, next⟩ hn ⟨position, gathered, clear⟩
      dsimp only at position gathered clear
      subst position
      cases set : mask.getLsbD n with
      | false =>
        have same : rank mask (n + 1) = rank mask n := by
          rw [PackedArray.rank_succ, set]
          rfl
        unfold pextStep
        rw [set, if_neg Bool.false_ne_true, same]
        refine ⟨rfl, fun i below chosen => gathered i ?_ chosen, clear⟩
        rcases Nat.lt_succ_iff_lt_or_eq.mp below with before | rfl
        · exact before
        · rw [set] at chosen
          cases chosen
      | true =>
        have next : rank mask (n + 1) = rank mask n + 1 := by
          rw [PackedArray.rank_succ, set]
          rfl
        have inside : rank mask n < 64 :=
          Nat.lt_of_lt_of_le (PackedArray.rank_lt_popcount set) (PackedArray.popcount_le mask)
        unfold pextStep
        rw [set, if_pos rfl, next]
        refine ⟨rfl, fun i below chosen => ?_, fun k above => ?_⟩
        · dsimp only
          rcases Nat.lt_succ_iff_lt_or_eq.mp below with before | rfl
          · have apart : rank mask n ≠ rank mask i :=
              (PackedArray.rank_lt_rank chosen before).ne'
            cases taken : source.getLsbD n <;>
              simp [gathered i before chosen, PackedArray.getLsbD_or_bit _ inside, apart]
          · cases taken : source.getLsbD i <;>
              simp [clear _ (Nat.le_refl _), PackedArray.getLsbD_or_bit _ inside]
        · have apart : rank mask n ≠ k := by omega
          cases taken : source.getLsbD n <;>
            simp [clear k (by omega), PackedArray.getLsbD_or_bit _ inside, apart])
  rw [PackedArray.popcount_eq_rank]
  exact final.2

end Voxen.Land.StorageTreeUtils

namespace Voxen.Land.StorageTree

open PackedArray (rank bit popcount)
open StorageTreeUtils

/-! ## Keys that have a path -/

/-- The bits of a coordinate below the scale are clear if it is a multiple of the scale. -/
theorem dvd_toInt_iff {w scale : Nat} (coordinate : BitVec w) (small : scale ≤ w) :
    (2 ^ scale : Int) ∣ coordinate.toInt ↔ ∀ i, i < scale → coordinate.getLsbD i = false := by
  have words : (2 ^ scale : Int) ∣ coordinate.toInt ↔ 2 ^ scale ∣ coordinate.toNat := by
    have whole : (2 ^ scale : Int) ∣ (2 ^ w : Nat) := by
      push_cast
      exact pow_dvd_pow 2 small
    rw [BitVec.toInt_eq_toNat_bmod,
      Int.dvd_iff_dvd_of_dvd_sub (whole.trans Int.dvd_bmod_sub_self)]
    exact_mod_cast Iff.rfl
  rw [words]
  constructor
  · rintro ⟨q, value⟩ i below
    rw [BitVec.getLsbD, value, Nat.testBit_two_pow_mul, decide_eq_false (by omega), Bool.false_and]
  · intro clear
    refine Nat.dvd_of_mod_eq_zero (Nat.eq_of_testBit_eq fun i => ?_)
    rw [Nat.testBit_mod_two_pow, Nat.zero_testBit]
    by_cases below : i < scale
    · have bit := clear i below
      rw [BitVec.getLsbD] at bit
      rw [bit, Bool.and_false]
    · rw [decide_eq_false below, Bool.false_and]

/-- The key lies in the height of the world and on the grid of a scale the tree has. -/
structure InWorld (key : ChunkKey) : Prop where
  bottom : Consts.minWorldYChunk ≤ key.y.toInt
  top : key.y.toInt + 2 ^ key.scaleLog2.toNat - 1 ≤ Consts.maxWorldYChunk
  scale : key.scaleLog2.toNat ≤ 8
  x : (2 ^ key.scaleLog2.toNat : Int) ∣ key.x.toInt
  y : (2 ^ key.scaleLog2.toNat : Int) ∣ key.y.toInt
  z : (2 ^ key.scaleLog2.toNat : Int) ∣ key.z.toInt

theorem aligned_iff (key : ChunkKey) (small : key.scaleLog2.toNat ≤ 8) :
    (key.x.signExtend 32 ||| key.y.signExtend 32 ||| key.z.signExtend 32) &&&
        (1#32 <<< key.scaleLog2.toNat - 1#32) = 0#32 ↔
      (2 ^ key.scaleLog2.toNat : Int) ∣ key.x.toInt ∧
        (2 ^ key.scaleLog2.toNat : Int) ∣ key.y.toInt ∧
        (2 ^ key.scaleLog2.toNat : Int) ∣ key.z.toInt := by
  have one : (1#32 <<< key.scaleLog2.toNat - 1#32) = bit 32 key.scaleLog2.toNat - 1#32 := by
    rw [bit, BitVec.twoPow_eq]
  have masked : ∀ i, i < 32 →
      ((key.x.signExtend 32 ||| key.y.signExtend 32 ||| key.z.signExtend 32) &&&
        (1#32 <<< key.scaleLog2.toNat - 1#32)).getLsbD i =
      (decide (i < key.scaleLog2.toNat) &&
        (key.x.getLsbD i || key.y.getLsbD i || key.z.getLsbD i)) := by
    intro i inside
    rw [one, BitVec.getLsbD_and, PackedArray.getLsbD_bit_sub_one (by omega), Bool.and_comm]
    by_cases below : i < key.scaleLog2.toNat
    · simp only [below, decide_true, Bool.true_and, BitVec.getLsbD_or, BitVec.getLsbD_signExtend,
        inside, show i < 22 by omega, show i < 16 by omega, if_true]
    · simp only [below, decide_false, Bool.false_and]
  rw [dvd_toInt_iff key.x (by omega), dvd_toInt_iff key.y (by omega),
    dvd_toInt_iff key.z (by omega)]
  constructor
  · intro clear
    have low : ∀ i, i < key.scaleLog2.toNat →
        (key.x.getLsbD i || key.y.getLsbD i || key.z.getLsbD i) = false := by
      intro i below
      have value := masked i (by omega)
      rw [clear, decide_eq_true below, Bool.true_and, BitVec.getLsbD_zero] at value
      exact value.symm
    simp only [Bool.or_eq_false_iff] at low
    exact ⟨fun i below => (low i below).1.1, fun i below => (low i below).1.2,
      fun i below => (low i below).2⟩
  · rintro ⟨x, y, z⟩
    refine BitVec.eq_of_getLsbD_eq fun i inside => ?_
    rw [masked i inside, BitVec.getLsbD_zero]
    by_cases below : i < key.scaleLog2.toNat
    · rw [x i below, y i below, z i below, Bool.or_false, Bool.or_false, Bool.and_false]
    · rw [decide_eq_false below, Bool.false_and]

theorem keyToTreePath_isSome_iff (key : ChunkKey) :
    (keyToTreePath key).isSome ↔ InWorld key := by
  have height : (key.y.signExtend 32).toInt = key.y.toInt :=
    BitVec.toInt_signExtend_of_le (by decide)
  have size : (0 : Int) < 2 ^ key.scaleLog2.toNat := by positivity
  have bounds : Consts.minWorldYChunk = -256 ∧ Consts.maxWorldYChunk = 255 := by decide
  obtain ⟨low, high⟩ := bounds
  unfold keyToTreePath
  simp only [height]
  by_cases outside : key.y.toInt < Consts.minWorldYChunk ∨ key.y.toInt > Consts.maxWorldYChunk
  · rw [if_pos outside]
    refine iff_of_false (by simp) fun inWorld => ?_
    have bottom := inWorld.bottom
    have top := inWorld.top
    omega
  rw [if_neg outside]
  by_cases large : key.scaleLog2.toNat > 8
  · rw [if_pos large]
    exact iff_of_false (by simp) fun inWorld => Nat.not_lt.mpr inWorld.scale large
  rw [if_neg large]
  have small := Nat.le_of_not_lt large
  by_cases aligned : (key.x.signExtend 32 ||| key.y.signExtend 32 ||| key.z.signExtend 32) &&&
      (1#32 <<< key.scaleLog2.toNat - 1#32) = 0#32
  · rw [if_neg (not_not.mpr aligned)]
    obtain ⟨x, y, z⟩ := (aligned_iff key small).mp aligned
    refine iff_of_true rfl ⟨by omega, ?_, small, x, y, z⟩
    -- the height of the world is a multiple of every scale
    obtain ⟨q, base⟩ := y
    have whole : (2 : Int) ^ key.scaleLog2.toNat * 2 ^ (8 - key.scaleLog2.toNat) = 256 := by
      rw [← pow_add, Nat.add_sub_cancel' small]
      rfl
    have below : q < 2 ^ (8 - key.scaleLog2.toNat) := by
      refine Int.lt_of_mul_lt_mul_left (a := 2 ^ key.scaleLog2.toNat) ?_ size.le
      rw [whole, ← base]
      omega
    have room := mul_le_mul_of_nonneg_left (Int.add_one_le_of_lt below) size.le
    rw [whole, mul_add, mul_one, ← base] at room
    omega
  · rw [if_pos aligned]
    exact iff_of_false (by simp) fun inWorld =>
      aligned ((aligned_iff key small).mpr ⟨inWorld.x, inWorld.y, inWorld.z⟩)

/-! ## The key of a path -/

namespace PathOf

variable {treePath : BitVec 64} {key : ChunkKey}

theorem stop_bit (path : PathOf treePath key) {level : Nat} (positive : 0 < level)
    (small : level < 7) :
    treePath.getLsbD (8 * level + 7) = decide ((key.scaleLog2.toNat + 1) / 2 = level) := by
  rw [path.rest_bit (by omega) (Or.inr (by omega))]
  simp [show ¬ 8 * level + 7 < 3 by omega, show 8 * level + 7 ≠ 46 by omega,
    show 8 * level + 7 ≠ 8 * ((key.scaleLog2.toNat + 1) / 2) + 6 by omega]
  exact eq_comm

theorem subnode_bit (path : PathOf treePath key) :
    treePath.getLsbD (8 * ((key.scaleLog2.toNat + 1) / 2) + 6) =
      decide (key.scaleLog2.toNat % 2 = 1) := by
  have scale := path.scale
  rw [path.rest_bit (by omega) (Or.inr (by omega))]
  simp [show ¬ 8 * ((key.scaleLog2.toNat + 1) / 2) + 6 < 3 by omega,
    show 8 * ((key.scaleLog2.toNat + 1) / 2) + 6 ≠ 46 by omega]

/-- The search finds the scale of the key, if no level before has the stop bit. -/
theorem searchLod_range (path : PathOf treePath key) : ∀ n first, first + n = 4 →
    (first < (key.scaleLog2.toNat + 1) / 2 ∨ key.scaleLog2.toNat = 0) →
    searchLod treePath (List.range' (2 * (first + 1)) n 2) = key.scaleLog2.toNat := by
  have scale := path.scale
  intro n
  induction n with
  | zero =>
    intro first whole ahead
    rw [List.range'_zero, searchLod]
    omega
  | succ n ih =>
    intro first whole ahead
    have masks : ∀ level : Fin 4,
        128#64 <<< (8 * (2 * (level.val + 1)) / 2) = bit 64 (8 * (level.val + 1) + 7) ∧
        64#64 <<< (8 * (2 * (level.val + 1)) / 2) = bit 64 (8 * (level.val + 1) + 6) := by decide
    obtain ⟨stopMask, subnodeMask⟩ := masks ⟨first, by omega⟩
    dsimp only at stopMask subnodeMask
    rw [List.range'_succ, searchLod, stopMask, subnodeMask]
    simp only [PackedArray.and_bit_ne_zero, path.stop_bit (Nat.succ_pos first) (by omega),
      decide_eq_true_eq]
    by_cases here : (key.scaleLog2.toNat + 1) / 2 = first + 1
    · have subnode := path.subnode_bit
      rw [here] at subnode
      simp only [if_pos here, subnode, decide_eq_true_eq]
      by_cases odd : key.scaleLog2.toNat % 2 = 1
      · rw [if_pos odd]
        omega
      · rw [if_neg odd]
        omega
    · rw [if_neg here]
      exact ih (first + 1) (by omega) (by omega)

theorem searchLod_eq (path : PathOf treePath key) :
    searchLod treePath duoctreeLods = key.scaleLog2.toNat := by
  have scale := path.scale
  exact path.searchLod_range 4 0 rfl (by omega)

end PathOf

/-- Where the bits of the x and the z coordinate are in a path. -/
def columnPosition (axis index : Nat) : Nat :=
  if index < 8 then 8 * (index / 2 + 1) + (3 * (index % 2) + axis)
  else 8 * ((index - 8) / 3 + 5) + (2 * ((index - 8) % 3) + axis)

/-- Where the bits of the y coordinate are in a path. -/
def heightPosition (index : Nat) : Nat :=
  if index < 8 then 8 * (index / 2 + 1) + (3 * (index % 2) + 2) else 46

theorem xMask_position : popcount xMask = 14 ∧ ∀ i : Fin 14,
    columnPosition 1 i < 64 ∧ xMask.getLsbD (columnPosition 1 i) ∧
      rank xMask (columnPosition 1 i) = i := by decide

theorem zMask_position : popcount zMask = 14 ∧ ∀ i : Fin 14,
    columnPosition 0 i < 64 ∧ zMask.getLsbD (columnPosition 0 i) ∧
      rank zMask (columnPosition 0 i) = i := by decide

theorem yMask_position : popcount yMask = 9 ∧ ∀ i : Fin 9,
    heightPosition i < 64 ∧ yMask.getLsbD (heightPosition i) ∧
      rank yMask (heightPosition i) = i := by decide

theorem pext_bits {source mask : BitVec 64} {count : Nat} {position : Nat → Nat}
    (positions : popcount mask = count ∧ ∀ i : Fin count,
      position i < 64 ∧ mask.getLsbD (position i) ∧ rank mask (position i) = i) (i : Nat) :
    (pext source mask).getLsbD i = (decide (i < count) && source.getLsbD (position i)) := by
  obtain ⟨gathered, clear⟩ := getLsbD_pext source mask
  by_cases inside : i < count
  · obtain ⟨low, set, place⟩ := positions.2 ⟨i, inside⟩
    have same := gathered _ low set
    rw [place] at same
    rw [same, decide_eq_true inside, Bool.true_and]
  · rw [clear i (by rw [positions.1]; omega), decide_eq_false inside, Bool.false_and]

namespace PathOf

variable {treePath : BitVec 64} {key : ChunkKey} (path : PathOf treePath key)

include path

theorem column_bit {axis i : Nat} (column : axis < 2) (inside : i < 14) :
    treePath.getLsbD (columnPosition axis i) = coordinateBit key axis i := by
  unfold columnPosition
  by_cases low : i < 8
  · rw [if_pos low, path.duoctree_bit (by omega) (by omega)]
    congr 1 <;> omega
  · rw [if_neg low, path.triquadtree_bit (by omega) (by omega)]
    congr 1 <;> omega

theorem sign_bit : treePath.getLsbD 46 = coordinateBit key 2 8 := by
  have scale := path.scale
  rw [path.rest_bit (by decide) (Or.inr (by decide))]
  simp [show 46 ≠ 8 * ((key.scaleLog2.toNat + 1) / 2) + 7 by omega,
    show 46 ≠ 8 * ((key.scaleLog2.toNat + 1) / 2) + 6 by omega]

theorem height_bit {i : Nat} (inside : i < 9) :
    treePath.getLsbD (heightPosition i) = coordinateBit key 2 i := by
  unfold heightPosition
  by_cases low : i < 8
  · rw [if_pos low, path.duoctree_bit (by omega) (by omega)]
    congr 1 <;> omega
  · obtain rfl : i = 8 := by omega
    rw [if_neg low]
    exact path.sign_bit

theorem pext_column {axis : Nat} {mask : BitVec 64} {coordinate : BitVec 22} (column : axis < 2)
    (positions : popcount mask = 14 ∧ ∀ i : Fin 14,
      columnPosition axis i < 64 ∧ mask.getLsbD (columnPosition axis i) ∧
        rank mask (columnPosition axis i) = i)
    (isAxis : coordinateBit key axis = coordinate.getLsbD) :
    ((pext treePath mask).setWidth 32).toNat = coordinate.toNat % 2 ^ 14 := by
  have same : (pext treePath mask).setWidth 32 = (coordinate.setWidth 14).setWidth 32 := by
    refine BitVec.eq_of_getLsbD_eq fun i inside => ?_
    rw [BitVec.getLsbD_setWidth, pext_bits positions, BitVec.getLsbD_setWidth,
      BitVec.getLsbD_setWidth]
    by_cases low : i < 14
    · rw [path.column_bit column low, isAxis]
    · rw [decide_eq_false low, Bool.false_and, Bool.false_and]
  rw [same, BitVec.toNat_setWidth_of_le (by decide), BitVec.toNat_setWidth]

theorem pext_height (inside : key.y.toInt.bmod (2 ^ 9) = key.y.toInt) :
    (if pext treePath yMask &&& (1#64 <<< 8) ≠ 0#64 then
      pext treePath yMask ||| ~~~((1#64 <<< 8 <<< 1) - 1#64) else pext treePath yMask).setWidth 32 =
      key.y.signExtend 32 := by
  have narrow : key.y = (key.y.setWidth 9).signExtend 16 := by
    refine BitVec.eq_of_toInt_eq ?_
    rw [BitVec.toInt_signExtend_of_le (by decide), ChunkKey.toInt_setWidth_eq _ (by decide), inside]
  have height : ∀ i, (pext treePath yMask).getLsbD i = (decide (i < 9) && key.y.getLsbD i) := by
    intro i
    rw [pext_bits yMask_position]
    by_cases low : i < 9
    · rw [path.height_bit low]
      rfl
    · rw [decide_eq_false low, Bool.false_and, Bool.false_and]
  have fill : ∀ i : Fin 64, (~~~((1#64 <<< 8 <<< 1) - 1#64)).getLsbD i = decide (9 ≤ i.val) := by
    decide
  have sign : pext treePath yMask &&& (1#64 <<< 8) ≠ 0#64 ↔ key.y.getLsbD 8 := by
    rw [show (1#64 <<< 8) = bit 64 8 by decide, PackedArray.and_bit_ne_zero, height]
    rfl
  have tail : ∀ i, 9 ≤ i → i < 16 → key.y.getLsbD i = key.y.getLsbD 8 := by
    intro i high low
    have value : key.y.getLsbD i = ((key.y.setWidth 9).signExtend 16).getLsbD i :=
      congrArg (fun y : BitVec 16 => y.getLsbD i) narrow
    rw [value, BitVec.getLsbD_signExtend, decide_eq_true low, Bool.true_and, if_neg (by omega),
      BitVec.msb_eq_getLsbD_last, BitVec.getLsbD_setWidth]
    rfl
  have extended : ∀ i, i < 32 → (key.y.signExtend 32).getLsbD i =
      if i < 9 then key.y.getLsbD i else key.y.getLsbD 8 := by
    intro i inside
    rw [BitVec.getLsbD_signExtend, decide_eq_true inside, Bool.true_and,
      BitVec.msb_eq_getLsbD_last]
    by_cases low : i < 9
    · rw [if_pos low, if_pos (by omega)]
    · rw [if_neg low]
      by_cases middle : i < 16
      · rw [if_pos middle, tail i (by omega) middle]
      · rw [if_neg middle, tail _ (by decide) (by decide)]
  refine BitVec.eq_of_getLsbD_eq fun i inside => ?_
  rw [extended i inside, BitVec.getLsbD_setWidth, decide_eq_true inside, Bool.true_and]
  by_cases negative : key.y.getLsbD 8
  · have filled := fill ⟨i, by omega⟩
    dsimp only at filled
    rw [if_pos (sign.mpr negative), BitVec.getLsbD_or, height, filled, negative]
    by_cases low : i < 9
    · simp [low, show ¬ 9 ≤ i by omega]
    · simp [low, show 9 ≤ i by omega]
  · rw [if_neg (mt sign.mp negative), height]
    by_cases low : i < 9
    · simp [low]
    · rw [if_neg low, decide_eq_false low, Bool.false_and, Bool.eq_false_of_not_eq_true negative]

end PathOf

/-! ## Wraparound -/

variable {world items : Nat} {restored : ChunkKey}

theorem wrapped_eq (coordinate : Int) (positive : 0 < world) :
    wrapped coordinate world = (coordinate + world / 2) % world := by
  have size : (0 : Int) < world := by exact_mod_cast positive
  have nonneg := Int.emod_nonneg (coordinate + world / 2) size.ne'
  have bound := Int.emod_lt_of_pos (coordinate + world / 2) size
  unfold wrapped
  dsimp only
  rw [Int.tmod_eq_emod, Int.natAbs_natCast]
  by_cases whole : 0 ≤ coordinate + world / 2 ∨ (world : Int) ∣ coordinate + world / 2
  · rw [if_pos whole, if_neg (by omega)]
    exact sub_zero _
  · rw [if_neg whole, if_pos (by omega), Int.sub_add_cancel]

theorem wrapped_bounds (coordinate : Int) (positive : 0 < world) :
    0 ≤ wrapped coordinate world ∧ wrapped coordinate world < world := by
  have size : (0 : Int) < world := by exact_mod_cast positive
  rw [wrapped_eq coordinate positive]
  exact ⟨Int.emod_nonneg _ size.ne', Int.emod_lt_of_pos _ size⟩

/-- The index of the root item along an axis with that many items. -/
def rootItem (coordinate : Int) (items : Nat) : Nat :=
  (wrapped coordinate (Consts.storageTreeRootItemSizeChunks * items)).toNat /
    Consts.storageTreeRootItemSizeChunks

theorem rootItem_lt (coordinate : Int) (positive : 0 < items) :
    rootItem coordinate items < items := by
  have bounds := wrapped_bounds coordinate
    (Nat.mul_pos (by decide : 0 < Consts.storageTreeRootItemSizeChunks) positive)
  exact Nat.div_lt_of_lt_mul ((Int.toNat_lt bounds.1).mpr bounds.2)

namespace PathOf

variable {treePath : BitVec 64} {key : ChunkKey} (path : PathOf treePath key)

include path

theorem rootIndex_eq : rootIndex treePath =
    rootItem key.x.toInt Consts.storageTreeRootItemsX * Consts.storageTreeRootItemsZ +
      rootItem key.z.toInt Consts.storageTreeRootItemsZ := by
  have scale := path.scale
  have x : (key.x.signExtend 32).toInt = key.x.toInt := BitVec.toInt_signExtend_of_le (by decide)
  have z : (key.z.signExtend 32).toInt = key.z.toInt := BitVec.toInt_signExtend_of_le (by decide)
  have xRoot : rootItem key.x.toInt Consts.storageTreeRootItemsX < 24 :=
    rootItem_lt key.x.toInt (by decide)
  have zRoot : rootItem key.z.toInt Consts.storageTreeRootItemsZ < 4 :=
    rootItem_lt key.z.toInt (by decide)
  have selector : rootSelector (key.x.signExtend 32).toInt (key.z.signExtend 32).toInt =
      BitVec.ofNat 64 (rootItem key.x.toInt Consts.storageTreeRootItemsX *
        Consts.storageTreeRootItemsZ + rootItem key.z.toInt Consts.storageTreeRootItemsZ) <<<
          (64 - 8) := by
    rw [x, z]
    rfl
  have bound : rootItem key.x.toInt Consts.storageTreeRootItemsX * Consts.storageTreeRootItemsZ +
      rootItem key.z.toInt Consts.storageTreeRootItemsZ < numRootItems := by
    change _ * 4 + _ < 24 * 4
    omega
  generalize rootItem key.x.toInt Consts.storageTreeRootItemsX * Consts.storageTreeRootItemsZ +
    rootItem key.z.toInt Consts.storageTreeRootItemsZ = index at *
  have same : treePath >>> (64 - 8) = BitVec.ofNat 64 index := by
    apply BitVec.eq_of_getLsbD_eq
    intro i _
    rw [BitVec.getLsbD_ushiftRight]
    rcases Nat.lt_or_ge i 8 with low | high
    · obtain ⟨xSet, zSet, ySet⟩ := masks_rest ⟨64 - 8 + i, by omega⟩
        (Or.inr (Or.inl (by dsimp only; omega)))
      dsimp only at xSet zSet ySet
      rw [path.getLsbD (by omega), selector, BitVec.getLsbD_shiftLeft, xSet, zSet, ySet]
      simp [show ¬ 64 - 8 + i < 3 by omega,
        show 64 - 8 + i ≠ 8 * ((key.scaleLog2.toNat + 1) / 2) + 7 by omega,
        show 64 - 8 + i ≠ 8 * ((key.scaleLog2.toNat + 1) / 2) + 6 by omega,
        show 64 - 8 + i ≠ 46 by omega, show 64 - 8 + i < 64 by omega]
    · have small : index < 2 ^ i := Nat.lt_of_lt_of_le bound
        (Nat.le_trans (by decide) (Nat.pow_le_pow_right (by decide) high))
      rw [BitVec.getLsbD_of_ge _ _ (by omega), BitVec.getLsbD_ofNat,
        Nat.testBit_lt_two_pow small, Bool.and_false]
  rw [rootIndex, same, BitVec.toNat_ofNat]
  exact Nat.mod_eq_of_lt (Nat.lt_trans bound (by decide))

theorem rootIndex_lt : rootIndex treePath < numRootItems := by
  have xRoot : rootItem key.x.toInt Consts.storageTreeRootItemsX < 24 :=
    rootItem_lt key.x.toInt (by decide)
  have zRoot : rootItem key.z.toInt Consts.storageTreeRootItemsZ < 4 :=
    rootItem_lt key.z.toInt (by decide)
  rw [path.rootIndex_eq]
  change _ * 4 + _ < 24 * 4
  omega

end PathOf

/-- The coordinate with the wraparound undone: the one of its kind in the unique range. -/
def uniqueCoordinate (coordinate : Int) (items : Nat) : Int :=
  wrapped coordinate (Consts.storageTreeRootItemSizeChunks * items) -
    Consts.storageTreeRootItemSizeChunks * items / 2

theorem rootItemSize_eq : Consts.storageTreeRootItemSizeChunks = 16384 := by decide

/-- The corner of the root item and the offset in it make the coordinate. -/
theorem rootItem_offset (coordinate : BitVec 22) (positive : 0 < items) (even : 2 ∣ items) :
    ((Consts.storageTreeRootItemSizeChunks * rootItem coordinate.toInt items +
        coordinate.toNat % 2 ^ 14 : Nat) : Int) =
      wrapped coordinate.toInt (Consts.storageTreeRootItemSizeChunks * items) := by
  obtain ⟨half, rfl⟩ := even
  have world : 0 < Consts.storageTreeRootItemSizeChunks * (2 * half) :=
    Nat.mul_pos (by decide) positive
  have bounds := wrapped_bounds coordinate.toInt world
  have offset : (coordinate.toNat : Int) % 16384 =
      wrapped coordinate.toInt (Consts.storageTreeRootItemSizeChunks * (2 * half)) % 16384 := by
    have whole : (16384 : Int) ∣ (Consts.storageTreeRootItemSizeChunks * (2 * half) : Nat) := by
      rw [rootItemSize_eq]
      exact ⟨2 * half, by push_cast; ring⟩
    rw [wrapped_eq coordinate.toInt world, Int.emod_emod_of_dvd _ whole,
      BitVec.toInt_eq_toNat_cond, rootItemSize_eq]
    split <;> omega
  unfold rootItem
  generalize wrapped coordinate.toInt (Consts.storageTreeRootItemSizeChunks * (2 * half)) = place
    at *
  rw [rootItemSize_eq]
  omega

/-- The sum of a corner and the offsets in it, as far as it fits into the field. -/
theorem toInt_column {corner place : Int} {base : Nat} {gathered : BitVec 32}
    (value : ((base + gathered.toNat : Nat) : Int) = place) (low : -2 ^ 21 ≤ place + corner)
    (high : place + corner < 2 ^ 21) :
    ((BitVec.ofNat 32 base + BitVec.ofInt 32 corner + gathered).setWidth 22).toInt =
      place + corner := by
  have sum : BitVec.ofNat 32 base + BitVec.ofInt 32 corner + gathered =
      BitVec.ofInt 32 (place + corner) := by
    have own : gathered = BitVec.ofInt 32 gathered.toNat := by
      rw [BitVec.ofInt_natCast, BitVec.ofNat_toNat, BitVec.setWidth_eq]
    rw [own, ← BitVec.ofInt_natCast, ← BitVec.ofInt_add, ← BitVec.ofInt_add, ← value]
    congr 1
    push_cast
    ring
  rw [sum, ChunkKey.toInt_setWidth_eq _ (by decide), BitVec.toInt_ofInt,
    Int.bmod_bmod_of_dvd (by decide)]
  exact ChunkKey.bmod_eq_self (w := 22) (by decide) low high

theorem uniqueCoordinate_bounds (coordinate : Int) (positive : 0 < items) :
    -(Consts.storageTreeRootItemSizeChunks * items / 2 : Int) ≤ uniqueCoordinate coordinate items ∧
      uniqueCoordinate coordinate items < Consts.storageTreeRootItemSizeChunks * items -
        Consts.storageTreeRootItemSizeChunks * items / 2 := by
  have bounds := wrapped_bounds coordinate
    (Nat.mul_pos (by decide : 0 < Consts.storageTreeRootItemSizeChunks) positive)
  unfold uniqueCoordinate
  rw [Nat.cast_mul] at bounds
  exact ⟨by linarith [bounds.1], by linarith [bounds.2]⟩

theorem uniqueCoordinate_modEq (coordinate : Int) (positive : 0 < items) :
    uniqueCoordinate coordinate items ≡ coordinate
      [ZMOD (Consts.storageTreeRootItemSizeChunks * items : Nat)] := by
  unfold uniqueCoordinate
  rw [wrapped_eq coordinate (Nat.mul_pos (by decide) positive)]
  have back := (Int.mod_modEq
    (coordinate + (Consts.storageTreeRootItemSizeChunks * items : Nat) / 2)
    (Consts.storageTreeRootItemSizeChunks * items : Nat)).sub_right
      ((Consts.storageTreeRootItemSizeChunks * items : Nat) / 2)
  rw [add_sub_cancel_right] at back
  exact_mod_cast back

/-- What a path tells of its key. -/
structure Restores (key restored : ChunkKey) : Prop where
  scale : restored.scaleLog2 = key.scaleLog2
  y : restored.y = key.y
  x : restored.x.toInt = uniqueCoordinate key.x.toInt Consts.storageTreeRootItemsX
  z : restored.z.toInt = uniqueCoordinate key.z.toInt Consts.storageTreeRootItemsZ

/-- A coordinate of the column, as it is put together from the root item and the offset. -/
theorem PathOf.restored_column {treePath : BitVec 64} {key : ChunkKey} (path : PathOf treePath key)
    {axis : Nat} {mask : BitVec 64} (column : axis < 2)
    (positions : popcount mask = 14 ∧ ∀ i : Fin 14,
      columnPosition axis i < 64 ∧ mask.getLsbD (columnPosition axis i) ∧
        rank mask (columnPosition axis i) = i) (coordinate : BitVec 22)
    (isAxis : coordinateBit key axis = coordinate.getLsbD) (positive : 0 < items) (few : items ≤ 24)
    (even : 2 ∣ items) {corner : Int}
    (middle : corner = -(Consts.storageTreeRootItemSizeChunks * items / 2 : Int)) :
    ((BitVec.ofNat 32 (rootItem coordinate.toInt items * Consts.storageTreeRootItemSizeChunks) +
      BitVec.ofInt 32 corner + (pext treePath mask).setWidth 32).setWidth 22).toInt =
      uniqueCoordinate coordinate.toInt items := by
  have bounds := uniqueCoordinate_bounds coordinate.toInt positive
  have place := rootItem_offset coordinate positive even
  rw [← path.pext_column column positions isAxis, mul_comm] at place
  have unique : uniqueCoordinate coordinate.toInt items =
      wrapped coordinate.toInt (Consts.storageTreeRootItemSizeChunks * items) + corner := by
    rw [middle]
    rfl
  have size : (Consts.storageTreeRootItemSizeChunks : Int) = 16384 := by decide
  have low : -2 ^ 21 ≤ uniqueCoordinate coordinate.toInt items := by
    rw [size] at bounds
    omega
  have high : uniqueCoordinate coordinate.toInt items < 2 ^ 21 := by
    rw [size] at bounds
    omega
  rw [unique] at low high ⊢
  exact toInt_column place low high

theorem treePathToKey_restores {treePath : BitVec 64} {key : ChunkKey}
    (path : keyToTreePath key = some treePath) : Restores key (treePathToKey treePath) := by
  have inWorld := (keyToTreePath_isSome_iff key).mp (path ▸ rfl)
  have pathOf := pathOf_of_keyToTreePath path
  have zRoot : rootItem key.z.toInt Consts.storageTreeRootItemsZ < 4 :=
    rootItem_lt key.z.toInt (by decide)
  have index : ∀ a b : Nat, b < 4 → (a * 4 + b) / 4 = a ∧ (a * 4 + b) % 4 = b := by omega
  obtain ⟨indexX, indexZ⟩ := index (rootItem key.x.toInt Consts.storageTreeRootItemsX) _ zRoot
  have root : (treePath >>> (64 - 8)).toNat = _ := pathOf.rootIndex_eq
  have height : key.y.toInt.bmod (2 ^ 9) = key.y.toInt := by
    have bottom := inWorld.bottom
    have top := inWorld.top
    have size : (0 : Int) < 2 ^ key.scaleLog2.toNat := by positivity
    have bounds : Consts.minWorldYChunk = -256 ∧ Consts.maxWorldYChunk = 255 := by decide
    exact ChunkKey.bmod_eq_self (w := 9) (by decide) (by omega) (by omega)
  unfold treePathToKey calcRootItemMinCoord ChunkKey.ofBase
  rw [root, pathOf.searchLod_eq]
  constructor
  · exact (BitVec.ofNat_toNat _ _).trans (BitVec.setWidth_eq _)
  · dsimp only
    rw [pathOf.pext_height height]
    refine BitVec.eq_of_toInt_eq ?_
    rw [ChunkKey.toInt_setWidth_eq (v := 16) _ (by decide),
      BitVec.toInt_signExtend_of_le (by decide)]
    exact ChunkKey.bmod_eq_self (w := 16) (by decide) key.y.le_toInt key.y.toInt_lt
  · dsimp only
    rw [indexX]
    exact pathOf.restored_column (by decide) xMask_position key.x rfl (by decide) (by decide)
      (by decide) rfl
  · dsimp only
    rw [indexZ]
    exact pathOf.restored_column (by decide) zMask_position key.z rfl (by decide) (by decide)
      (by decide) rfl

/-! ## Keys with one path -/

/-- The keys are the same up to the wraparound. -/
structure SamePlace (key other : ChunkKey) : Prop where
  scale : key.scaleLog2 = other.scaleLog2
  y : key.y = other.y
  x : key.x.toInt ≡ other.x.toInt
    [ZMOD (Consts.storageTreeRootItemSizeChunks * Consts.storageTreeRootItemsX : Nat)]
  z : key.z.toInt ≡ other.z.toInt
    [ZMOD (Consts.storageTreeRootItemSizeChunks * Consts.storageTreeRootItemsZ : Nat)]

theorem wrapped_congr {first second : Int} (positive : 0 < world)
    (same : first ≡ second [ZMOD world]) : wrapped first world = wrapped second world := by
  rw [wrapped_eq first positive, wrapped_eq second positive]
  exact same.add_right _

theorem low_bits_congr {first second : BitVec 22} (same : first.toInt ≡ second.toInt
      [ZMOD (Consts.storageTreeRootItemSizeChunks * items : Nat)]) {i : Nat} (low : i < 14) :
    first.getLsbD i = second.getLsbD i := by
  have item : first.toInt ≡ second.toInt [ZMOD 16384] := by
    refine same.of_dvd ?_
    rw [rootItemSize_eq]
    exact ⟨items, by push_cast; ring⟩
  have words : first.toNat % 2 ^ 14 = second.toNat % 2 ^ 14 := by
    rw [Int.ModEq, BitVec.toInt_eq_toNat_cond, BitVec.toInt_eq_toNat_cond] at item
    split at item <;> split at item <;> omega
  have bits := congrArg (fun word => word.testBit i) words
  simpa only [Nat.testBit_mod_two_pow, low, decide_true, Bool.true_and,
    BitVec.getLsbD] using bits

theorem treePath_congr {treePath query : BitVec 64} {key other : ChunkKey}
    (path : PathOf treePath key) (path' : PathOf query other) (same : SamePlace key other) :
    treePath = query := by
  have scale := path.scale
  have roots : rootSelector (key.x.signExtend 32).toInt (key.z.signExtend 32).toInt =
      rootSelector (other.x.signExtend 32).toInt (other.z.signExtend 32).toInt := by
    unfold rootSelector
    simp only [BitVec.toInt_signExtend_of_le (show 22 ≤ 32 by decide)]
    rw [wrapped_congr (by decide) same.x, wrapped_congr (by decide) same.z]
  have coordinates : ∀ axis i, i < 14 → coordinateBit key axis i = coordinateBit other axis i := by
    intro axis i low
    unfold coordinateBit
    split
    · exact low_bits_congr same.z low
    · exact low_bits_congr same.x low
    · rw [same.y]
  have gathered : ∀ mask : BitVec 64, popcount mask = 14 → ∀ i, i < 64 → mask.getLsbD i →
      rank mask i < 14 := fun mask count i inside set => count ▸ PackedArray.rank_lt_popcount set
  refine BitVec.eq_of_getLsbD_eq fun i inside => ?_
  rw [path.getLsbD inside, path'.getLsbD inside, ← same.scale, roots, same.y,
    coordinates i _ (by omega)]
  have x : (xMask.getLsbD i && key.x.getLsbD (rank xMask i)) =
      (xMask.getLsbD i && other.x.getLsbD (rank xMask i)) := by
    cases set : xMask.getLsbD i with
    | false => rfl
    | true => exact low_bits_congr same.x (gathered xMask xMask_position.1 i inside set)
  have z : (zMask.getLsbD i && key.z.getLsbD (rank zMask i)) =
      (zMask.getLsbD i && other.z.getLsbD (rank zMask i)) := by
    cases set : zMask.getLsbD i with
    | false => rfl
    | true => exact low_bits_congr same.z (gathered zMask zMask_position.1 i inside set)
  rw [x, z]

theorem Restores.samePlace {key : ChunkKey} (restores : Restores key restored) :
    SamePlace restored key where
  scale := restores.scale
  y := restores.y
  x := restores.x ▸ uniqueCoordinate_modEq key.x.toInt (by decide)
  z := restores.z ▸ uniqueCoordinate_modEq key.z.toInt (by decide)

/-- The coordinates are those before the wraparound begins. -/
structure InUniqueRange (key : ChunkKey) : Prop where
  x : Consts.minUniqueWorldXChunk ≤ key.x.toInt ∧ key.x.toInt ≤ Consts.maxUniqueWorldXChunk
  z : Consts.minUniqueWorldZChunk ≤ key.z.toInt ∧ key.z.toInt ≤ Consts.maxUniqueWorldZChunk

theorem Restores.inUniqueRange {key : ChunkKey} (restores : Restores key restored) :
    InUniqueRange restored := by
  have size : (Consts.storageTreeRootItemSizeChunks : Int) = 16384 := by decide
  have xBounds := uniqueCoordinate_bounds key.x.toInt (by decide : 0 < Consts.storageTreeRootItemsX)
  have zBounds := uniqueCoordinate_bounds key.z.toInt (by decide : 0 < Consts.storageTreeRootItemsZ)
  rw [← restores.x] at xBounds
  rw [← restores.z] at zBounds
  exact ⟨⟨xBounds.1, Int.le_sub_one_of_lt xBounds.2⟩, ⟨zBounds.1, Int.le_sub_one_of_lt zBounds.2⟩⟩

theorem SamePlace.trans_symm {key other : ChunkKey} (first : SamePlace restored key)
    (second : SamePlace restored other) : SamePlace key other where
  scale := first.scale.symm.trans second.scale
  y := first.y.symm.trans second.y
  x := first.x.symm.trans second.x
  z := first.z.symm.trans second.z

/-- The keys in the world are those with a path, their paths tell them up to the wraparound,
and the paths of different places are different. -/
theorem treePaths_tell_keys (key other : ChunkKey) :
    ((keyToTreePath key).isSome ↔ InWorld key) ∧
      (∀ treePath, keyToTreePath key = some treePath →
        SamePlace (treePathToKey treePath) key ∧ InUniqueRange (treePathToKey treePath)) ∧
      (InWorld key → InWorld other →
        (keyToTreePath key = keyToTreePath other ↔ SamePlace key other)) := by
  refine ⟨keyToTreePath_isSome_iff key, ?_, ?_⟩
  · intro treePath path
    have restores := treePathToKey_restores path
    exact ⟨restores.samePlace, restores.inUniqueRange⟩
  · intro inWorld inWorld'
    obtain ⟨treePath, path⟩ :=
      Option.isSome_iff_exists.mp ((keyToTreePath_isSome_iff key).mpr inWorld)
    obtain ⟨query, path'⟩ :=
      Option.isSome_iff_exists.mp ((keyToTreePath_isSome_iff other).mpr inWorld')
    constructor
    · intro same
      have restores := treePathToKey_restores path
      have restores' := treePathToKey_restores (same ▸ path)
      exact restores.samePlace.trans_symm restores'.samePlace
    · intro same
      rw [path, path', treePath_congr (pathOf_of_keyToTreePath path)
        (pathOf_of_keyToTreePath path') same]

/-- A key of an odd scale beyond the west end of the world, and the key it wraps around to. -/
def westKey : ChunkKey := ⟨3, -196616, -8, 16⟩

def eastKey : ChunkKey := ⟨3, 196600, -8, 16⟩

theorem westKey_path :
    keyToTreePath westKey = keyToTreePath eastKey ∧
      ∀ treePath, keyToTreePath westKey = some treePath →
        InUniqueRange (treePathToKey treePath) := by
  obtain ⟨-, tells, same⟩ := treePaths_tell_keys westKey eastKey
  exact ⟨(same ⟨by decide, by decide, by decide, by decide, by decide, by decide⟩
    ⟨by decide, by decide, by decide, by decide, by decide, by decide⟩).mpr
      ⟨rfl, rfl, by decide, by decide⟩, fun treePath path => (tells treePath path).2⟩

end Voxen.Land.StorageTree
