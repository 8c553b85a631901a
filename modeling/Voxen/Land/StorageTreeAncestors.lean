import Voxen.Land.StorageTreePathKeys

/-!
# Ancestors of a key along its path

The nodes on a path get their coordinates from their parents: a path component adds the next
bits of every coordinate. For a valid path these are the coordinates of the ancestors of its
key.
-/

namespace Voxen.Land

open PackedArray (bit)

namespace ChunkKey

/-- The key of a larger scale around the key. -/
def ancestor (key : ChunkKey) (scale : Nat) : ChunkKey :=
  parentLodKey^[scale - key.scaleLog2.toNat] key

/-- The coordinates are those of `key`, rounded down to the scale. -/
structure RoundedTo (key : ChunkKey) (scale : Nat) (around : ChunkKey) : Prop where
  size : around.scaleLog2.toNat = scale
  x : around.x.toInt = key.x.toInt / 2 ^ scale * 2 ^ scale
  y : around.y.toInt = key.y.toInt / 2 ^ scale * 2 ^ scale
  z : around.z.toInt = key.z.toInt / 2 ^ scale * 2 ^ scale

theorem rounded_succ (a : Int) (n : Nat) :
    a / 2 ^ n * 2 ^ n / 2 ^ (n + 1) * 2 ^ (n + 1) = a / 2 ^ (n + 1) * 2 ^ (n + 1) := by
  have positive : (0 : Int) < 2 ^ n := by positivity
  have quotient : a / 2 ^ n * 2 ^ n / 2 ^ (n + 1) = a / 2 ^ (n + 1) := by
    rw [pow_succ, mul_comm (a / 2 ^ n), Int.mul_ediv_mul_of_pos _ _ positive,
      Int.ediv_ediv_of_nonneg positive.le]
  rw [quotient]

variable {scale : Nat}

theorem RoundedTo.parent {key around : ChunkKey} (rounded : RoundedTo key scale around)
    (small : scale < 15) : RoundedTo key (scale + 1) around.parentLodKey := by
  obtain ⟨size, x, y, z⟩ := rounded
  have grow : around.parentLodKey.scaleLog2.toNat = around.scaleLog2.toNat + 1 :=
    (BitVec.toNat_ofNat _ _).trans (Nat.mod_eq_of_lt (by omega))
  have newX : around.parentLodKey.x.toInt = _ :=
    toInt_parent around.x (n := around.scaleLog2.toNat + 1) (by decide) (by omega)
  have newY : around.parentLodKey.y.toInt = _ :=
    toInt_parent around.y (n := around.scaleLog2.toNat + 1) (by decide) (by omega)
  have newZ : around.parentLodKey.z.toInt = _ :=
    toInt_parent around.z (n := around.scaleLog2.toNat + 1) (by decide) (by omega)
  rw [size] at grow newX newY newZ
  refine ⟨grow, ?_, ?_, ?_⟩
  · rw [newX, x, rounded_succ]
  · rw [newY, y, rounded_succ]
  · rw [newZ, z, rounded_succ]

theorem ancestor_roundedTo {key : ChunkKey} (isValid : key.valid)
    (above : key.scaleLog2.toNat ≤ scale) (small : scale < 16) :
    RoundedTo key scale (key.ancestor scale) := by
  obtain ⟨x, y, z⟩ := (valid_iff key).mp isValid
  have steps : ∀ n, key.scaleLog2.toNat + n < 16 →
      RoundedTo key (key.scaleLog2.toNat + n) (parentLodKey^[n] key) := by
    intro n
    induction n with
    | zero =>
      intro _
      exact ⟨rfl, (Int.ediv_mul_cancel x).symm, (Int.ediv_mul_cancel y).symm,
        (Int.ediv_mul_cancel z).symm⟩
    | succ n ih =>
      intro fits
      rw [Function.iterate_succ_apply']
      exact (ih (by omega)).parent (by omega)
  have last := steps (scale - key.scaleLog2.toNat) (by omega)
  rwa [Nat.add_sub_cancel' above] at last

theorem RoundedTo.valid {key around : ChunkKey} (rounded : RoundedTo key scale around) :
    around.valid := by
  rw [valid_iff, rounded.size, rounded.x, rounded.y, rounded.z]
  exact ⟨Int.dvd_mul_left _ _, Int.dvd_mul_left _ _, Int.dvd_mul_left _ _⟩

end ChunkKey

namespace StorageTree

open StorageTreeUtils

/-! ## Digits of coordinates -/

variable {count first w : Nat} {coordinate : BitVec w}

theorem digit_eq {digit : BitVec 64}
    (bits : ∀ i, digit.getLsbD i = (decide (i < count) && coordinate.getLsbD (first + i))) :
    digit.toNat = coordinate.toNat / 2 ^ first % 2 ^ count := by
  refine Nat.eq_of_testBit_eq fun i => ?_
  have same := bits i
  rw [BitVec.getLsbD, BitVec.getLsbD] at same
  rw [same, Nat.testBit_mod_two_pow, Nat.testBit_div_two_pow, Nat.add_comm first i]

theorem rounded_digit (coordinate : BitVec w) (inside : first + count ≤ w) :
    coordinate.toInt / 2 ^ (first + count) * 2 ^ (first + count) +
        2 ^ first * ((coordinate.toNat / 2 ^ first % 2 ^ count : Nat) : Int) =
      coordinate.toInt / 2 ^ first * 2 ^ first := by
  have positive : (0 : Int) < 2 ^ first := by positivity
  -- the sign does not change the digits
  have digits : ((coordinate.toNat / 2 ^ first % 2 ^ count : Nat) : Int) =
      coordinate.toInt / 2 ^ first % 2 ^ count := by
    push_cast
    obtain ⟨q, sign⟩ : ((2 ^ w : Nat) : Int) ∣ coordinate.toInt - coordinate.toNat := by
      rw [BitVec.toInt_eq_toNat_bmod]
      exact Int.dvd_bmod_sub_self
    have split : ((2 ^ w : Nat) : Int) =
        2 ^ first * (2 ^ count * 2 ^ (w - (first + count))) := by
      push_cast
      rw [← pow_add, ← pow_add, ← Nat.add_assoc, Nat.add_sub_cancel' inside]
    have whole : coordinate.toInt =
        coordinate.toNat + 2 ^ first * (2 ^ count * (2 ^ (w - (first + count)) * q)) := by
      rw [split] at sign
      linarith [sign, mul_assoc ((2 : Int) ^ first) (2 ^ count * 2 ^ (w - (first + count))) q,
        mul_assoc ((2 : Int) ^ count) (2 ^ (w - (first + count))) q]
    rw [whole, Int.add_mul_ediv_left _ _ positive.ne', Int.add_mul_emod_self_left]
  rw [digits, pow_add, ← Int.ediv_ediv_of_nonneg positive.le]
  have parts := Int.mul_ediv_add_emod (coordinate.toInt / 2 ^ first) (2 ^ count)
  nth_rewrite 3 [← parts]
  ring

theorem child_coordinate {base : BitVec 32} {digit : BitVec 64} (start : base = BitVec.ofInt 32
      (coordinate.toInt / 2 ^ (first + count) * 2 ^ (first + count)))
    (bits : ∀ i, digit.getLsbD i = (decide (i < count) && coordinate.getLsbD (first + i)))
    (inside : first + count ≤ w) :
    base + (BitVec.ofNat 64 (2 ^ first) * digit).setWidth 32 =
      BitVec.ofInt 32 (coordinate.toInt / 2 ^ first * 2 ^ first) := by
  have product : (BitVec.ofNat 64 (2 ^ first) * digit).setWidth 32 =
      BitVec.ofInt 32 (2 ^ first * ((coordinate.toNat / 2 ^ first % 2 ^ count : Nat) : Int)) := by
    rw [← digit_eq bits]
    refine BitVec.eq_of_toNat_eq ?_
    rw [BitVec.toNat_setWidth, BitVec.toNat_mul, BitVec.toNat_ofNat, BitVec.toNat_ofInt,
      Nat.mod_mul_mod, Nat.mod_mod_of_dvd _ (by decide)]
    have cast : (2 : Int) ^ first * (digit.toNat : Int) =
        ((2 ^ first * digit.toNat : Nat) : Int) := by
      push_cast
      rfl
    rw [cast]
    omega
  rw [start, product, ← BitVec.ofInt_add, rounded_digit coordinate inside]

/-- The base of the key, rounded down to the scale. -/
def roundedBase (key : ChunkKey) (scale : Nat) : IVec3 where
  x := BitVec.ofInt 32 (key.x.toInt / 2 ^ scale * 2 ^ scale)
  y := BitVec.ofInt 32 (key.y.toInt / 2 ^ scale * 2 ^ scale)
  z := BitVec.ofInt 32 (key.z.toInt / 2 ^ scale * 2 ^ scale)

theorem ofBase_roundedBase {key around : ChunkKey} {scale : Nat} (small : scale < 16)
    (rounded : key.RoundedTo scale around) :
    ChunkKey.ofBase (roundedBase key scale) scale = around := by
  obtain ⟨size, x, y, z⟩ := rounded
  have coordinate : ∀ {w : Nat} {c : BitVec w} {a : Int}, w ≤ 32 → 0 < w → c.toInt = a →
      (BitVec.ofInt 32 a).setWidth w = c := by
    intro w c a narrow wide value
    refine BitVec.eq_of_toInt_eq ?_
    rw [ChunkKey.toInt_setWidth_eq _ narrow, BitVec.toInt_ofInt,
      Int.bmod_bmod_of_dvd (Nat.pow_dvd_pow 2 narrow), ← value]
    exact ChunkKey.bmod_eq_self wide c.le_toInt c.toInt_lt
  obtain ⟨aroundScale, aroundX, aroundY, aroundZ⟩ := around
  unfold ChunkKey.ofBase roundedBase
  rw [ChunkKey.mk.injEq]
  refine ⟨?_, coordinate (by decide) (by decide) x, coordinate (by decide) (by decide) y,
    coordinate (by decide) (by decide) z⟩
  refine BitVec.eq_of_toNat_eq ?_
  rw [BitVec.toNat_ofNat, Nat.mod_eq_of_lt small]
  exact size.symm

/-! ## Path components -/

theorem moved_bit (component : BitVec 64) {position : Nat} (inside : position < 64)
    (shift i : Nat) :
    ((component &&& bit 64 position) >>> shift).getLsbD i =
      (decide (i + shift = position) && component.getLsbD position) := by
  rw [BitVec.getLsbD_ushiftRight, BitVec.getLsbD_and, PackedArray.getLsbD_bit inside,
    Nat.add_comm shift i]
  by_cases here : i + shift = position
  · rw [here, decide_eq_true rfl, Bool.and_comm]
  · rw [decide_eq_false here, decide_eq_false (Ne.symm here), Bool.and_false, Bool.false_and]

/-- The digits a duoctree component has of a coordinate, its bits three apart. -/
theorem duoctree_digits (component : BitVec 64) (axis : Nat) (inside : axis < 3)
    (low : component.getLsbD axis = coordinate.getLsbD first)
    (high : component.getLsbD (axis + 3) = coordinate.getLsbD (first + 1)) (i : Nat) :
    (((component &&& bit 64 (axis + 3)) >>> (axis + 2)) |||
      ((component &&& bit 64 axis) >>> axis)).getLsbD i =
        (decide (i < 2) && coordinate.getLsbD (first + i)) := by
  rw [BitVec.getLsbD_or, moved_bit _ (by omega), moved_bit _ (by omega), low, high]
  match i with
  | 0 => simp
  | 1 => simp [Nat.add_comm 1 (axis + 2)]
  | i + 2 => simp [show i + 2 + (axis + 2) ≠ axis + 3 by omega]

/-- The digits a triquadtree component has of a coordinate, its bits two apart. -/
theorem triquadtree_digits (component : BitVec 64) (axis : Nat) (inside : axis < 2)
    (low : component.getLsbD axis = coordinate.getLsbD first)
    (middle : component.getLsbD (axis + 2) = coordinate.getLsbD (first + 1))
    (high : component.getLsbD (axis + 4) = coordinate.getLsbD (first + 2)) (i : Nat) :
    (((component &&& bit 64 (axis + 4)) >>> (axis + 2)) |||
      ((component &&& bit 64 (axis + 2)) >>> (axis + 1)) |||
        ((component &&& bit 64 axis) >>> axis)).getLsbD i =
          (decide (i < 3) && coordinate.getLsbD (first + i)) := by
  rw [BitVec.getLsbD_or, BitVec.getLsbD_or, moved_bit _ (by omega), moved_bit _ (by omega),
    moved_bit _ (by omega), low, middle, high]
  match i with
  | 0 => simp
  | 1 => simp [show 1 + (axis + 2) ≠ axis + 4 by omega, Nat.add_comm 1 (axis + 1)]
  | 2 => simp [show 2 + (axis + 2) = axis + 4 by omega, show 2 + (axis + 1) ≠ axis + 2 by omega]
  | i + 3 =>
    simp [show i + 3 + (axis + 2) ≠ axis + 4 by omega,
      show i + 3 + (axis + 1) ≠ axis + 2 by omega]

section Path

variable {treePath : BitVec 64} {key : ChunkKey} (path : PathOf treePath key)

include path

variable {l : Nat}

theorem PathOf.duoctree_component {b : Nat} (hl : l < 4) (hb : b < 6) :
    (extractNodePathComponent (l + 1) treePath).getLsbD b =
      coordinateBit key (b % 3) (2 * l + b / 3) := by
  rw [getLsbD_component _ _ (by omega), path.duoctree_bit hl hb]

theorem PathOf.triquadtree_component {b : Nat} (hl : l < 2) (hb : b < 6) :
    (extractNodePathComponent (l + 5) treePath).getLsbD b =
      coordinateBit key (b % 2) (8 + 3 * l + b / 2) := by
  rw [getLsbD_component _ _ (by omega), path.triquadtree_bit hl hb]

theorem PathOf.calcDuoctreeChildMinCoord_eq {around : ChunkKey} (hl : l < 4)
    (rounded : key.RoundedTo (2 * (l + 1)) around) :
    calcDuoctreeChildMinCoord (2 ^ (2 * l)) around (extractNodePathComponent (l + 1) treePath) =
      roundedBase key (2 * l) := by
  obtain ⟨size, x, y, z⟩ := rounded
  have component := fun b => path.duoctree_component (b := b) hl
  have start : ∀ {w : Nat} {c coordinate : BitVec w}, w ≤ 32 →
      c.toInt = coordinate.toInt / 2 ^ (2 * (l + 1)) * 2 ^ (2 * (l + 1)) →
      c.signExtend 32 =
        BitVec.ofInt 32 (coordinate.toInt / 2 ^ (2 * l + 2) * 2 ^ (2 * l + 2)) := by
    intro w c coordinate narrow value
    rw [← BitVec.ofInt_toInt (x := c.signExtend 32), BitVec.toInt_signExtend_of_le narrow, value]
    rfl
  unfold calcDuoctreeChildMinCoord roundedBase ChunkKey.base
  rw [IVec3.mk.injEq]
  refine ⟨?_, ?_, ?_⟩
  · exact child_coordinate (start (by decide) x)
      (duoctree_digits _ 1 (by decide) (component 1 (by decide))
        (component 4 (by decide))) (by omega)
  · exact child_coordinate (start (by decide) y)
      (duoctree_digits _ 2 (by decide) (component 2 (by decide))
        (component 5 (by decide))) (by omega)
  · exact child_coordinate (start (by decide) z)
      (duoctree_digits _ 0 (by decide) (component 0 (by decide))
        (component 3 (by decide))) (by omega)

theorem PathOf.calcTriquadtreeChildMinCoord_eq (hl : l < 2) :
    (calcTriquadtreeChildMinCoord (2 ^ (8 + 3 * l)) (roundedBase key (8 + 3 * (l + 1))).x
        (roundedBase key (8 + 3 * (l + 1))).z (extractNodePathComponent (l + 5) treePath)).x =
      (roundedBase key (8 + 3 * l)).x ∧
    (calcTriquadtreeChildMinCoord (2 ^ (8 + 3 * l)) (roundedBase key (8 + 3 * (l + 1))).x
        (roundedBase key (8 + 3 * (l + 1))).z (extractNodePathComponent (l + 5) treePath)).z =
      (roundedBase key (8 + 3 * l)).z := by
  have component := fun b => path.triquadtree_component (b := b) hl
  have level : 8 + 3 * (l + 1) = 8 + 3 * l + 3 := by omega
  rw [level]
  constructor
  · exact child_coordinate rfl (triquadtree_digits _ 1 (by decide)
      (component 1 (by decide)) (component 3 (by decide)) (component 5 (by decide))) (by omega)
  · exact child_coordinate rfl (triquadtree_digits _ 0 (by decide)
      (component 0 (by decide)) (component 2 (by decide)) (component 4 (by decide))) (by omega)

theorem PathOf.calcTriquadtreeChildMinCoord_y (inWorld : InWorld key) (minX minZ : BitVec 32) :
    (calcTriquadtreeChildMinCoord (2 ^ 8) minX minZ (extractNodePathComponent 5 treePath)).y =
      (roundedBase key 8).y := by
  have bottom := inWorld.bottom
  have top := inWorld.top
  have size : (0 : Int) < 2 ^ key.scaleLog2.toNat := by positivity
  have bounds : Consts.minWorldYChunk = -256 ∧ Consts.maxWorldYChunk = 255 := by decide
  have sign : triquadtreeYNegative (extractNodePathComponent 5 treePath) = key.y.getLsbD 8 := by
    have high := pathHigh_eq 5 treePath
    unfold pathHigh at high
    rw [Bool.true_and] at high
    rw [high]
    exact path.sign_bit
  unfold calcTriquadtreeChildMinCoord roundedBase
  rw [sign]
  dsimp only
  have value : key.y.getLsbD 8 = decide (key.y.toInt < 0) := by
    rw [BitVec.getLsbD, Nat.testBit_eq_decide_div_mod_eq]
    refine decide_eq_decide.mpr ?_
    have words := key.y.toInt_eq_toNat_cond
    have small := key.y.isLt
    split at words <;> omega
  rw [value]
  by_cases negative : key.y.toInt < 0
  · rw [decide_eq_true negative, if_pos rfl, show key.y.toInt / 2 ^ 8 = -1 by omega]
    decide
  · rw [decide_eq_false negative, if_neg Bool.false_ne_true, show key.y.toInt / 2 ^ 8 = 0 by omega]
    decide

theorem PathOf.calcRootItemMinCoord_eq (unique : InUniqueRange key) :
    (calcRootItemMinCoord (rootIndex treePath)).x = (roundedBase key 14).x ∧
      (calcRootItemMinCoord (rootIndex treePath)).z = (roundedBase key 14).z := by
  have zRoot : rootItem key.z.toInt Consts.storageTreeRootItemsZ < 4 :=
    rootItem_lt key.z.toInt (by decide)
  have index : ∀ a b : Nat, b < 4 → (a * 4 + b) / 4 = a ∧ (a * 4 + b) % 4 = b := by omega
  obtain ⟨indexX, indexZ⟩ := index (rootItem key.x.toInt Consts.storageTreeRootItemsX) _ zRoot
  have corner : ∀ (coordinate : BitVec 22) {items : Nat} {least most : Int}, 0 < items →
      2 ∣ items → least = -(Consts.storageTreeRootItemSizeChunks * items / 2 : Int) →
      most = -least - 1 → least ≤ coordinate.toInt ∧ coordinate.toInt ≤ most →
      BitVec.ofNat 32 (rootItem coordinate.toInt items * Consts.storageTreeRootItemSizeChunks) +
          BitVec.ofInt 32 least =
        BitVec.ofInt 32 (coordinate.toInt / 2 ^ 14 * 2 ^ 14) := by
    intro coordinate items least most positive even first last range
    have place := rootItem_offset coordinate positive even
    rw [wrapped_eq coordinate.toInt (Nat.mul_pos (by decide) positive), mul_comm] at place
    rw [← BitVec.ofInt_natCast, ← BitVec.ofInt_add]
    congr 1
    have words := coordinate.toInt_eq_toNat_cond
    have small := coordinate.isLt
    have size : (Consts.storageTreeRootItemSizeChunks : Int) = 16384 := by decide
    obtain ⟨half, rfl⟩ := even
    rw [size] at first
    rw [rootItemSize_eq] at place ⊢
    rw [Int.emod_eq_of_lt (by omega) (by omega)] at place
    split at words <;> omega
  unfold calcRootItemMinCoord
  rw [path.rootIndex_eq]
  dsimp only
  rw [indexX, indexZ]
  exact ⟨corner key.x (by decide) (by decide) rfl rfl unique.x,
    corner key.z (by decide) (by decide) rfl rfl unique.z⟩

end Path

/-! ## The key a path tells -/

theorem keyToTreePath_treePathToKey {treePath : BitVec 64} (valid : ValidPath treePath) :
    keyToTreePath (treePathToKey treePath) = some treePath := by
  obtain ⟨key, path⟩ := valid
  have restores := treePathToKey_restores path
  have inWorld := (keyToTreePath_isSome_iff key).mp (path ▸ rfl)
  have aligned : ∀ {a b : Int} {items : Nat}, (2 ^ key.scaleLog2.toNat : Int) ∣ a →
      b ≡ a [ZMOD (Consts.storageTreeRootItemSizeChunks * items : Nat)] →
      (2 ^ key.scaleLog2.toNat : Int) ∣ b := by
    intro a b items divides same
    have whole : (2 ^ key.scaleLog2.toNat : Int) ∣
        (Consts.storageTreeRootItemSizeChunks * items : Nat) := by
      push_cast
      exact Dvd.dvd.mul_right (pow_dvd_pow 2 (Nat.le_trans inWorld.scale (by decide))) _
    exact (Int.dvd_iff_dvd_of_dvd_sub (whole.trans same.symm.dvd)).mpr divides
  have place := restores.samePlace
  have restored : InWorld (treePathToKey treePath) := by
    refine ⟨?_, ?_, ?_, ?_, ?_, ?_⟩
    · rw [restores.y]
      exact inWorld.bottom
    · rw [restores.y, restores.scale]
      exact inWorld.top
    · rw [restores.scale]
      exact inWorld.scale
    · rw [restores.scale]
      exact aligned inWorld.x place.x
    · rw [restores.y, restores.scale]
      exact inWorld.y
    · rw [restores.scale]
      exact aligned inWorld.z place.z
  obtain ⟨query, path'⟩ :=
    Option.isSome_iff_exists.mp ((keyToTreePath_isSome_iff _).mpr restored)
  rw [path', treePath_congr (pathOf_of_keyToTreePath path') (pathOf_of_keyToTreePath path) place]

end StorageTree

end Voxen.Land
