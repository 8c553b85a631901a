import Mathlib.Data.Int.ConditionallyCompleteOrder
import Mathlib.Order.CompletePartialOrder
import Mathlib.Tactic.Linarith
import Voxen.Land.ChunkKeyLod

/-!
# The blocks of chunk keys

A key of scale `s` stands for a cube of blocks that is `2 ^ s` chunks wide. The children of a
key cut its cube into eight, and the parent of a key has a cube around that of the key, also
where coordinates are negative: the shifts round down. The packed form of a key tells the key.
-/

namespace Voxen.Land

namespace Consts

/-- `CHUNK_SIZE_BLOCKS`. -/
abbrev chunkSizeBlocks : Int := 32

end Consts

namespace ChunkKey

/-- `(coordinate >> scale) << scale`; bit fields this narrow are computed with as `int`. -/
def shiftedBack {w : Nat} (coordinate : BitVec w) (scale : Nat) : BitVec 32 :=
  (coordinate.signExtend 32).sshiftRight scale <<< scale

/-- `valid()`. -/
def valid (key : ChunkKey) : Bool :=
  shiftedBack key.x key.scaleLog2.toNat == key.x.signExtend 32 &&
  shiftedBack key.y key.scaleLog2.toNat == key.y.signExtend 32 &&
  shiftedBack key.z key.scaleLog2.toNat == key.z.signExtend 32

/-- `parentLodKey()`. -/
def parentLodKey (key : ChunkKey) : ChunkKey :=
  let nscale := key.scaleLog2.toNat + 1
  { scaleLog2 := BitVec.ofNat 4 nscale
    x := (shiftedBack key.x nscale).setWidth 22
    y := (shiftedBack key.y nscale).setWidth 16
    z := (shiftedBack key.z nscale).setWidth 22 }

/-- The constructor from a packed value, a bit cast. -/
def ofPacked (packed : BitVec 64) : ChunkKey where
  scaleLog2 := packed.extractLsb' 0 4
  x := packed.extractLsb' 4 22
  y := packed.extractLsb' 26 16
  z := packed.extractLsb' 42 22

/-! ## Coordinates -/

section Coordinate

variable {w n : Nat}

theorem bmod_eq_self {a : Int} (wide : 0 < w) (low : -2 ^ (w - 1) ≤ a) (high : a < 2 ^ (w - 1)) :
    a.bmod (2 ^ w) = a := by
  have double : 2 ^ w = 2 * 2 ^ (w - 1) := by rw [← pow_succ', Nat.sub_add_cancel wide]
  refine Int.bmod_eq_of_le_mul_two ?_ ?_ <;> rw [double] <;> push_cast <;> linarith

theorem toInt_shiftLeft_eq (x : BitVec w) (n : Nat) :
    (x <<< n).toInt = (x.toInt * 2 ^ n).bmod (2 ^ w) := by
  rw [BitVec.toInt_shiftLeft, Nat.shiftLeft_eq, BitVec.toInt_eq_toNat_bmod, Int.bmod_mul_bmod]
  push_cast
  rfl

theorem toInt_setWidth_eq {v : Nat} (x : BitVec w) (narrow : v ≤ w) :
    (x.setWidth v).toInt = x.toInt.bmod (2 ^ v) := by
  rw [← BitVec.signExtend_eq_setWidth_of_le x narrow, BitVec.toInt_signExtend,
    Nat.min_eq_left narrow]

variable (coordinate : BitVec w)

/-- A coordinate that is rounded down to a multiple is still one of the width. -/
theorem rounded_bounds (small : n < w) :
    -2 ^ (w - 1) ≤ coordinate.toInt / 2 ^ n * 2 ^ n ∧
      coordinate.toInt / 2 ^ n * 2 ^ n < 2 ^ (w - 1) := by
  have positive : (0 : Int) < 2 ^ n := by positivity
  have split : (2 : Int) ^ (w - 1) = 2 ^ (w - 1 - n) * 2 ^ n := by
    rw [← pow_add, Nat.sub_add_cancel (Nat.le_sub_one_of_lt small)]
  constructor
  · have low : -2 ^ (w - 1 - n) ≤ coordinate.toInt / 2 ^ n := by
      rw [Int.le_ediv_iff_mul_le positive, neg_mul, ← split]
      exact coordinate.le_toInt
    rw [split, ← neg_mul]
    exact mul_le_mul_of_nonneg_right low positive.le
  · exact Int.lt_of_le_of_lt (Int.ediv_mul_le _ positive.ne') coordinate.toInt_lt

theorem toInt_shiftedBack (narrow : w ≤ 32) (small : n < w) :
    (shiftedBack coordinate n).toInt = coordinate.toInt / 2 ^ n * 2 ^ n := by
  obtain ⟨low, high⟩ := rounded_bounds coordinate small
  have wide : (2 : Int) ^ (w - 1) ≤ 2 ^ (32 - 1) :=
    pow_le_pow_right₀ (by decide) (Nat.sub_le_sub_right narrow 1)
  unfold shiftedBack
  rw [toInt_shiftLeft_eq, BitVec.toInt_sshiftRight, Int.shiftRight_eq_div_pow,
    BitVec.toInt_signExtend_of_le narrow]
  push_cast
  exact bmod_eq_self (w := 32) (by decide) (by linarith) (by linarith)

theorem shiftedBack_eq_iff (narrow : w ≤ 32) (small : n < w) :
    shiftedBack coordinate n = coordinate.signExtend 32 ↔ (2 ^ n : Int) ∣ coordinate.toInt := by
  rw [← BitVec.toInt_inj, toInt_shiftedBack coordinate narrow small,
    BitVec.toInt_signExtend_of_le narrow]
  constructor
  · intro same
    exact ⟨_, same.symm.trans (mul_comm _ _)⟩
  · exact Int.ediv_mul_cancel

theorem toInt_parent (narrow : w ≤ 32) (small : n < w) :
    ((shiftedBack coordinate n).setWidth w).toInt = coordinate.toInt / 2 ^ n * 2 ^ n := by
  obtain ⟨low, high⟩ := rounded_bounds coordinate small
  rw [toInt_setWidth_eq _ narrow, toInt_shiftedBack coordinate narrow small]
  exact bmod_eq_self (Nat.zero_lt_of_lt small) low high

variable {coordinate}

theorem toInt_child (small : n + 1 < w) (aligned : (2 ^ (n + 1) : Int) ∣ coordinate.toInt)
    (upper : Bool) :
    (if upper then coordinate + BitVec.ofNat w (2 ^ n) else coordinate).toInt =
      coordinate.toInt + if upper then 2 ^ n else 0 := by
  cases upper with
  | false => exact (add_zero _).symm
  | true =>
    have wide : (2 : Int) ^ n < 2 ^ (w - 1) := pow_lt_pow_right₀ (by decide) (by omega)
    have positive : (0 : Int) < 2 ^ n := by positivity
    have step : (BitVec.ofNat w (2 ^ n)).toInt = 2 ^ n := by
      rw [BitVec.toInt_ofNat']
      push_cast
      exact bmod_eq_self (Nat.zero_lt_of_lt small) (by linarith) wide
    have room : coordinate.toInt + 2 ^ n < 2 ^ (w - 1) := by
      obtain ⟨q, base⟩ := aligned
      have split : (2 : Int) ^ (w - 1) = 2 ^ (n + 1) * 2 ^ (w - 1 - (n + 1)) := by
        rw [← pow_add, Nat.add_sub_cancel' (by omega)]
      have below : q < 2 ^ (w - 1 - (n + 1)) := by
        have high := coordinate.toInt_lt
        rw [base, split] at high
        exact Int.lt_of_mul_lt_mul_left high (by positivity)
      have next : (2 : Int) ^ (n + 1) * (q + 1) ≤ 2 ^ (w - 1) := by
        rw [split]
        exact mul_le_mul_of_nonneg_left below (by positivity)
      rw [mul_add, mul_one, ← base] at next
      rw [pow_succ] at next
      linarith
    have low := coordinate.le_toInt
    simp only [if_true]
    rw [BitVec.toInt_add, step]
    exact bmod_eq_self (Nat.zero_lt_of_lt small) (by linarith) room

end Coordinate

theorem valid_iff (key : ChunkKey) :
    key.valid ↔ (2 ^ key.scaleLog2.toNat : Int) ∣ key.x.toInt ∧
      (2 ^ key.scaleLog2.toNat : Int) ∣ key.y.toInt ∧
      (2 ^ key.scaleLog2.toNat : Int) ∣ key.z.toInt := by
  have scale := key.scaleLog2.isLt
  unfold valid
  rw [Bool.and_eq_true, Bool.and_eq_true, beq_iff_eq, beq_iff_eq, beq_iff_eq,
    shiftedBack_eq_iff key.x (by decide) (by omega),
    shiftedBack_eq_iff key.y (by decide) (by omega),
    shiftedBack_eq_iff key.z (by decide) (by omega), and_assoc]

/-! ## Blocks -/

/-- The position of a block in the world. -/
structure Block where
  x : Int
  y : Int
  z : Int

/-- The blocks of `2 ^ scale` chunks along an axis. -/
def span (coordinate : Int) (scale : Nat) : Set Int :=
  Set.Ico (Consts.chunkSizeBlocks * coordinate) (Consts.chunkSizeBlocks * (coordinate + 2 ^ scale))

/-- The blocks of the key. -/
def volume (key : ChunkKey) : Set Block :=
  {block | block.x ∈ span key.x.toInt key.scaleLog2.toNat ∧
    block.y ∈ span key.y.toInt key.scaleLog2.toNat ∧
    block.z ∈ span key.z.toInt key.scaleLog2.toNat}

/-- Where a half begins. -/
def half (n : Nat) (upper : Bool) : Int := if upper then 2 ^ n else 0

theorem half_span (coordinate : Int) (n : Nat) (upper : Bool) :
    span (coordinate + half n upper) n ⊆ span coordinate (n + 1) := by
  intro block inside
  have positive : (0 : Int) < 2 ^ n := by positivity
  unfold span half Consts.chunkSizeBlocks at *
  rw [pow_succ]
  cases upper <;> simp only [Bool.false_eq_true, if_false, if_true, Set.mem_Ico] at * <;> omega

theorem exists_half {coordinate block : Int} {n : Nat} (inside : block ∈ span coordinate (n + 1)) :
    ∃! upper, block ∈ span (coordinate + half n upper) n := by
  have positive : (0 : Int) < 2 ^ n := by positivity
  unfold span half Consts.chunkSizeBlocks at *
  rw [pow_succ] at inside
  simp only [Set.mem_Ico] at *
  by_cases low : block < 32 * (coordinate + 2 ^ n)
  · refine ⟨false, by simp only [Bool.false_eq_true, if_false]; omega, ?_⟩
    intro upper other
    cases upper with
    | false => rfl
    | true =>
      simp only [if_true] at other
      omega
  · refine ⟨true, by simp only [if_true]; omega, ?_⟩
    intro upper other
    cases upper with
    | true => rfl
    | false =>
      simp only [Bool.false_eq_true, if_false] at other
      omega

theorem span_parent {coordinate : Int} {n : Nat} (aligned : (2 ^ n : Int) ∣ coordinate) :
    span coordinate n ⊆ span (coordinate / 2 ^ (n + 1) * 2 ^ (n + 1)) (n + 1) := by
  intro block inside
  have positive : (0 : Int) < 2 ^ n := by positivity
  obtain ⟨q, rfl⟩ := aligned
  have quotient : 2 ^ n * q / 2 ^ (n + 1) = q / 2 := by
    rw [pow_succ, Int.mul_ediv_mul_of_pos _ _ positive]
  have wide : (2 : Int) ^ (n + 1) = 2 ^ n * 2 := pow_succ _ _
  have parts : q = 2 * (q / 2) + q % 2 := (Int.mul_ediv_add_emod q 2).symm
  have place : 2 ^ n * q = q / 2 * 2 ^ (n + 1) + 2 ^ n * (q % 2) := by
    rw [wide]
    nth_rewrite 1 [parts]
    ring
  unfold span Consts.chunkSizeBlocks at *
  rw [quotient]
  simp only [Set.mem_Ico] at *
  obtain even | odd := Int.emod_two_eq_zero_or_one q
  · rw [even, mul_zero] at place
    omega
  · rw [odd, mul_one] at place
    omega

/-! ## Children and parents -/

section Child

variable {key : ChunkKey} (isValid : key.valid) (large : 0 < key.scaleLog2.toNat)

include isValid large

theorem childLodKey_toInt (i : Fin 8) :
    (key.childLodKey i).x.toInt =
        key.x.toInt + half (key.childLodKey i).scaleLog2.toNat (i.val.testBit 1) ∧
      (key.childLodKey i).y.toInt =
        key.y.toInt + half (key.childLodKey i).scaleLog2.toNat (i.val.testBit 2) ∧
      (key.childLodKey i).z.toInt =
        key.z.toInt + half (key.childLodKey i).scaleLog2.toNat (i.val.testBit 0) := by
  have scale := childLodKey_scale large i
  have bound := key.scaleLog2.isLt
  have nscale : key.scaleLog2.toNat - 1 = (key.childLodKey i).scaleLog2.toNat := by omega
  obtain ⟨x, y, z⟩ := (valid_iff key).mp isValid
  rw [← scale] at x y z
  have one := toInt_child (by omega) x (i.val.testBit 1)
  have two := toInt_child (by omega) y (i.val.testBit 2)
  have three := toInt_child (by omega) z (i.val.testBit 0)
  unfold half
  rw [← nscale] at one two three ⊢
  exact ⟨one, two, three⟩

theorem childLodKey_valid (i : Fin 8) : (key.childLodKey i).valid := by
  have scale := childLodKey_scale large i
  obtain ⟨x, y, z⟩ := childLodKey_toInt isValid large i
  obtain ⟨dx, dy, dz⟩ := (valid_iff key).mp isValid
  rw [← scale] at dx dy dz
  have step : ∀ {a : Int} {n : Nat} (upper : Bool), (2 ^ (n + 1) : Int) ∣ a →
      (2 ^ n : Int) ∣ a + half n upper := by
    intro a n upper aligned
    refine Int.dvd_add ((pow_dvd_pow 2 (Nat.le_succ n)).trans aligned) ?_
    cases upper with
    | false => exact Int.dvd_zero _
    | true => exact Int.dvd_refl _
  rw [valid_iff, x, y, z]
  exact ⟨step _ dx, step _ dy, step _ dz⟩

theorem mem_child {block : Block} (i : Fin 8) :
    block ∈ (key.childLodKey i).volume ↔
      block.x ∈ span (key.x.toInt + half (key.scaleLog2.toNat - 1) (i.val.testBit 1))
          (key.scaleLog2.toNat - 1) ∧
        block.y ∈ span (key.y.toInt + half (key.scaleLog2.toNat - 1) (i.val.testBit 2))
          (key.scaleLog2.toNat - 1) ∧
        block.z ∈ span (key.z.toInt + half (key.scaleLog2.toNat - 1) (i.val.testBit 0))
          (key.scaleLog2.toNat - 1) := by
  have scale : (key.childLodKey i).scaleLog2.toNat = key.scaleLog2.toNat - 1 :=
    Nat.eq_sub_of_add_eq (childLodKey_scale large i)
  obtain ⟨x, y, z⟩ := childLodKey_toInt isValid large i
  rw [scale] at x y z
  rw [← x, ← y, ← z, ← scale]
  rfl

theorem child_volume (i : Fin 8) : (key.childLodKey i).volume ⊆ key.volume := by
  intro block inside
  have scale : key.scaleLog2.toNat - 1 + 1 = key.scaleLog2.toNat := Nat.sub_add_cancel large
  obtain ⟨x, y, z⟩ := (mem_child isValid large i).mp inside
  unfold volume
  rw [← scale]
  exact ⟨half_span _ _ _ x, half_span _ _ _ y, half_span _ _ _ z⟩

theorem exists_child {block : Block} (inside : block ∈ key.volume) :
    ∃! i : Fin 8, block ∈ (key.childLodKey i).volume := by
  have scale : key.scaleLog2.toNat - 1 + 1 = key.scaleLog2.toNat := Nat.sub_add_cancel large
  obtain ⟨x, y, z⟩ := inside
  rw [← scale] at x y z
  obtain ⟨upperX, inX, onlyX⟩ := exists_half x
  obtain ⟨upperY, inY, onlyY⟩ := exists_half y
  obtain ⟨upperZ, inZ, onlyZ⟩ := exists_half z
  have index : ∀ a b c : Bool, ∃ i : Fin 8,
      (i.val.testBit 1 = a ∧ i.val.testBit 2 = b ∧ i.val.testBit 0 = c) ∧ ∀ j : Fin 8,
        j.val.testBit 1 = a ∧ j.val.testBit 2 = b ∧ j.val.testBit 0 = c → j = i := by decide
  obtain ⟨i, ⟨bitX, bitY, bitZ⟩, only⟩ := index upperX upperY upperZ
  refine ⟨i, (mem_child isValid large i).mpr ?_, ?_⟩
  · rw [bitX, bitY, bitZ]
    exact ⟨inX, inY, inZ⟩
  · intro j other
    obtain ⟨otherX, otherY, otherZ⟩ := (mem_child isValid large j).mp other
    exact only j ⟨onlyX _ otherX, onlyY _ otherY, onlyZ _ otherZ⟩

theorem parentLodKey_childLodKey (i : Fin 8) : (key.childLodKey i).parentLodKey = key := by
  have scale := childLodKey_scale large i
  have bound := key.scaleLog2.isLt
  obtain ⟨x, y, z⟩ := childLodKey_toInt isValid large i
  obtain ⟨dx, dy, dz⟩ := (valid_iff key).mp isValid
  have back : ∀ {a : Int} {n : Nat} (upper : Bool), (2 ^ (n + 1) : Int) ∣ a →
      (a + half n upper) / 2 ^ (n + 1) * 2 ^ (n + 1) = a := by
    intro a n upper aligned
    have positive : (0 : Int) < 2 ^ n := by positivity
    have wide : (2 : Int) ^ (n + 1) = 2 ^ n * 2 := pow_succ _ _
    have small : half n upper / 2 ^ (n + 1) = 0 := by
      unfold half
      cases upper with
      | false => exact Int.zero_ediv _
      | true => exact Int.ediv_eq_zero_of_lt positive.le (by rw [if_pos rfl]; omega)
    rw [Int.add_ediv_of_dvd_left aligned, small, add_zero, Int.ediv_mul_cancel aligned]
  rw [← scale] at dx dy dz
  have coordinate : ∀ {w : Nat} {child own : BitVec w} {upper : Bool}, w ≤ 32 → 16 ≤ w →
      child.toInt = own.toInt + half (key.childLodKey i).scaleLog2.toNat upper →
      (2 ^ ((key.childLodKey i).scaleLog2.toNat + 1) : Int) ∣ own.toInt →
      (shiftedBack child ((key.childLodKey i).scaleLog2.toNat + 1)).setWidth w = own := by
    intro w child own upper narrow wide place aligned
    refine BitVec.eq_of_toInt_eq ?_
    rw [toInt_parent child narrow (by omega), place, back upper aligned]
  have sameScale : BitVec.ofNat 4 ((key.childLodKey i).scaleLog2.toNat + 1) = key.scaleLog2 := by
    rw [scale, BitVec.ofNat_toNat, BitVec.setWidth_eq]
  unfold parentLodKey
  simp only [sameScale, coordinate (by decide) (by decide) x dx,
    coordinate (by decide) (by decide) y dy, coordinate (by decide) (by decide) z dz]

end Child

theorem parentLodKey_spec {key : ChunkKey} (isValid : key.valid)
    (small : key.scaleLog2.toNat < 15) :
    key.parentLodKey.valid ∧ key.volume ⊆ key.parentLodKey.volume := by
  obtain ⟨dx, dy, dz⟩ := (valid_iff key).mp isValid
  have scale : key.parentLodKey.scaleLog2.toNat = key.scaleLog2.toNat + 1 :=
    (BitVec.toNat_ofNat _ _).trans (Nat.mod_eq_of_lt (by omega))
  have x : key.parentLodKey.x.toInt = _ :=
    toInt_parent key.x (n := key.scaleLog2.toNat + 1) (by decide) (by omega)
  have y : key.parentLodKey.y.toInt = _ :=
    toInt_parent key.y (n := key.scaleLog2.toNat + 1) (by decide) (by omega)
  have z : key.parentLodKey.z.toInt = _ :=
    toInt_parent key.z (n := key.scaleLog2.toNat + 1) (by decide) (by omega)
  constructor
  · rw [valid_iff, scale, x, y, z]
    exact ⟨Int.dvd_mul_left _ _, Int.dvd_mul_left _ _, Int.dvd_mul_left _ _⟩
  · rintro block ⟨inX, inY, inZ⟩
    unfold volume
    rw [scale, x, y, z]
    exact ⟨span_parent dx inX, span_parent dy inY, span_parent dz inZ⟩

/-! ## Packed keys -/

theorem ofPacked_packed (key : ChunkKey) : ofPacked key.packed = key := by
  obtain ⟨scale, x, y, z⟩ := key
  unfold ofPacked packed
  rw [ChunkKey.mk.injEq]
  refine ⟨?_, ?_, ?_, ?_⟩ <;> refine BitVec.eq_of_getLsbD_eq fun i inside => ?_
  all_goals
    simp only [BitVec.getLsbD_extractLsb', BitVec.getLsbD_append]
    grind

theorem packed_injective : Function.Injective packed :=
  Function.LeftInverse.injective ofPacked_packed

theorem packed_ofPacked (value : BitVec 64) : (ofPacked value).packed = value := by
  refine BitVec.eq_of_getLsbD_eq fun i inside => ?_
  unfold ofPacked packed
  simp only [BitVec.getLsbD_extractLsb', BitVec.getLsbD_append]
  grind

/-- The numbers fit into the fields of a key. -/
structure InRange (base : IVec3) (scaleLog2 : Nat) : Prop where
  x : -2 ^ 21 ≤ base.x.toInt ∧ base.x.toInt < 2 ^ 21
  y : -2 ^ 15 ≤ base.y.toInt ∧ base.y.toInt < 2 ^ 15
  z : -2 ^ 21 ≤ base.z.toInt ∧ base.z.toInt < 2 ^ 21
  scale : scaleLog2 < 16

theorem ofBase_spec {base : IVec3} {scaleLog2 : Nat} (range : InRange base scaleLog2) :
    (ofBase base scaleLog2).base = base ∧ (ofBase base scaleLog2).scaleLog2.toNat = scaleLog2 := by
  have coordinate : ∀ {w : Nat} {c : BitVec 32}, 0 < w → w ≤ 32 →
      -2 ^ (w - 1) ≤ c.toInt ∧ c.toInt < 2 ^ (w - 1) → (c.setWidth w).signExtend 32 = c := by
    intro w c wide narrow fits
    refine BitVec.eq_of_toInt_eq ?_
    rw [BitVec.toInt_signExtend_of_le narrow, toInt_setWidth_eq c narrow]
    exact bmod_eq_self wide fits.1 fits.2
  constructor
  · unfold ofBase ChunkKey.base
    rw [coordinate (by decide) (by decide) range.x, coordinate (by decide) (by decide) range.y,
      coordinate (by decide) (by decide) range.z]
  · exact (BitVec.toNat_ofNat _ _).trans (Nat.mod_eq_of_lt range.scale)

/-! ## Keys of neighbouring scales -/

theorem first_mem_volume (key : ChunkKey) :
    (⟨Consts.chunkSizeBlocks * key.x.toInt, Consts.chunkSizeBlocks * key.y.toInt,
      Consts.chunkSizeBlocks * key.z.toInt⟩ : Block) ∈ key.volume := by
  have first : ∀ (coordinate : Int) (n : Nat),
      Consts.chunkSizeBlocks * coordinate ∈ span coordinate n := by
    intro coordinate n
    have positive : (0 : Int) < 2 ^ n := by positivity
    exact ⟨Int.le_refl _, mul_lt_mul_of_pos_left (by omega) (by decide)⟩
  exact ⟨first _ _, first _ _, first _ _⟩

/-- The children of the key cut its blocks into eight. -/
structure Octants (key : ChunkKey) : Prop where
  valid : ∀ i, (key.childLodKey i).valid
  distinct : Function.Injective key.childLodKey
  cover : key.volume = ⋃ i, (key.childLodKey i).volume
  apart : Pairwise fun i j => Disjoint (key.childLodKey i).volume (key.childLodKey j).volume
  parent : ∀ i, (key.childLodKey i).parentLodKey = key

theorem octants {key : ChunkKey} (isValid : key.valid) (large : 0 < key.scaleLog2.toNat) :
    key.Octants where
  valid := childLodKey_valid isValid large
  distinct i j same := by
    have own := first_mem_volume (key.childLodKey i)
    have volumes : (key.childLodKey i).volume = (key.childLodKey j).volume := congrArg volume same
    exact (exists_child isValid large (child_volume isValid large i own)).unique own (volumes ▸ own)
  cover := by
    refine Set.Subset.antisymm ?_ (Set.iUnion_subset (child_volume isValid large))
    intro block inside
    exact Set.mem_iUnion.mpr (exists_child isValid large inside).exists
  apart i j differ := by
    refine Set.disjoint_left.mpr fun block first second => ?_
    exact differ ((exists_child isValid large (child_volume isValid large i first)).unique
      first second)
  parent := parentLodKey_childLodKey isValid large

/-- Children cut the blocks of a valid key into eight and have it as their parent, parents are
around their children, and packed keys are unpacked as they were. -/
theorem scales_and_packing_correct (key : ChunkKey) (base : IVec3) (scaleLog2 : Nat) :
    (key.valid → 1 ≤ key.scaleLog2.toNat → key.scaleLog2.toNat < Consts.numLodScales →
        key.Octants) ∧
      (key.valid → key.scaleLog2.toNat < 15 →
        key.parentLodKey.valid ∧ key.volume ⊆ key.parentLodKey.volume) ∧
      ofPacked key.packed = key ∧
      (InRange base scaleLog2 →
        (ofPacked (ofBase base scaleLog2).packed).base = base ∧
          (ofPacked (ofBase base scaleLog2).packed).scaleLog2.toNat = scaleLog2) := by
  refine ⟨fun isValid large _ => octants isValid large, parentLodKey_spec, ofPacked_packed key, ?_⟩
  rw [ofPacked_packed]
  exact ofBase_spec

/-- A key of scale 2 at a negative base. -/
def slopeKey : ChunkKey := ⟨2, -8, 4, 16⟩

theorem slopeKey_scales_and_packing :
    slopeKey.Octants ∧ slopeKey.parentLodKey.valid ∧
      (ofPacked (ofBase ⟨-8, 4, 16⟩ 2).packed).base = ⟨-8, 4, 16⟩ := by
  obtain ⟨children, parent, -, base⟩ := scales_and_packing_correct slopeKey ⟨-8, 4, 16⟩ 2
  have isValid : slopeKey.valid := by decide
  exact ⟨children isValid (by decide) (by decide), (parent isValid (by decide)).1,
    (base ⟨by decide, by decide, by decide, by decide⟩).1⟩

/-- Different values have different hashes, and so have different keys; with one pivot,
different keys have different identifiers. -/
theorem hashes_never_collide :
    Function.Bijective Hash.xxh64Fixed ∧ Function.Injective hash ∧
      ∀ pivotUid, Function.Injective (Hash.keyToUid pivotUid) :=
  ⟨Hash.xxh64Fixed_bijective, Hash.xxh64Fixed_injective.comp packed_injective,
    Hash.keyToUid_injective⟩

end ChunkKey

end Voxen.Land
