import Mathlib.Tactic.Ring
import Voxen.Land.ChunkKey
import Voxen.Util.Hash

/-!
# Children of chunk keys

A key of a larger scale stands for a cube of chunks, and its eight children for the
octants of the cube.
-/

namespace Voxen.Land.ChunkKey

/-- `packed()`, the fields from the low bits on. -/
def packed (key : ChunkKey) : BitVec 64 :=
  key.z ++ (key.y ++ (key.x ++ key.scaleLog2))

/-- `hash()`. -/
def hash (key : ChunkKey) : BitVec 64 := Hash.xxh64Fixed key.packed

/-- `childLodKey(index)`, for a scale that is not the smallest. -/
def childLodKey (key : ChunkKey) (index : Fin 8) : ChunkKey :=
  let nscale := key.scaleLog2.toNat - 1
  let step := 2 ^ nscale
  { scaleLog2 := BitVec.ofNat 4 nscale
    x := if index.val.testBit 1 then key.x + BitVec.ofNat 22 step else key.x
    y := if index.val.testBit 2 then key.y + BitVec.ofNat 16 step else key.y
    z := if index.val.testBit 0 then key.z + BitVec.ofNat 22 step else key.z }

/-! ## Cubes of keys -/

/-- The base of the key is one for its scale. -/
structure Aligned (key : ChunkKey) : Prop where
  x : 2 ^ key.scaleLog2.toNat ∣ key.x.toNat
  y : 2 ^ key.scaleLog2.toNat ∣ key.y.toNat
  z : 2 ^ key.scaleLog2.toNat ∣ key.z.toNat

/-- The cube of the other key lies in that of the key. -/
structure Inside (key other : ChunkKey) : Prop where
  scale : other.scaleLog2.toNat ≤ key.scaleLog2.toNat
  x : other.x.toNat / 2 ^ key.scaleLog2.toNat = key.x.toNat / 2 ^ key.scaleLog2.toNat
  y : other.y.toNat / 2 ^ key.scaleLog2.toNat = key.y.toNat / 2 ^ key.scaleLog2.toNat
  z : other.z.toNat / 2 ^ key.scaleLog2.toNat = key.z.toNat / 2 ^ key.scaleLog2.toNat

theorem Inside.refl (key : ChunkKey) : Inside key key := ⟨Nat.le_refl _, rfl, rfl, rfl⟩

theorem div_pow_of_le {a b s n : Nat} (le : s ≤ n) (same : a / 2 ^ s = b / 2 ^ s) :
    a / 2 ^ n = b / 2 ^ n := by
  have split : 2 ^ n = 2 ^ s * 2 ^ (n - s) := by rw [← pow_add, Nat.add_sub_cancel' le]
  rw [split, ← Nat.div_div_eq_div_mul, ← Nat.div_div_eq_div_mul, same]

theorem Inside.trans {key other third : ChunkKey} (first : Inside key other)
    (second : Inside other third) : Inside key third where
  scale := Nat.le_trans second.scale first.scale
  x := (div_pow_of_le first.scale second.x).trans first.x
  y := (div_pow_of_le first.scale second.y).trans first.y
  z := (div_pow_of_le first.scale second.z).trans first.z

theorem eq_of_inside {key other third : ChunkKey} (aligned : key.Aligned)
    (aligned' : other.Aligned) (same : key.scaleLog2 = other.scaleLog2)
    (first : Inside key third) (second : Inside other third) : key = other := by
  have coordinate : ∀ {a b c s : Nat}, 2 ^ s ∣ a → 2 ^ s ∣ b → c / 2 ^ s = a / 2 ^ s →
      c / 2 ^ s = b / 2 ^ s → a = b := fun left right one two =>
    (Nat.div_left_inj left right).mp (one.symm.trans two)
  obtain ⟨scale, x, y, z⟩ := key
  obtain ⟨scale', x', y', z'⟩ := other
  dsimp only at same
  subst same
  rw [ChunkKey.mk.injEq]
  exact ⟨rfl, BitVec.eq_of_toNat_eq (coordinate aligned.x aligned'.x first.x second.x),
    BitVec.eq_of_toNat_eq (coordinate aligned.y aligned'.y first.y second.y),
    BitVec.eq_of_toNat_eq (coordinate aligned.z aligned'.z first.z second.z)⟩

theorem octant_toNat {w n : Nat} (coordinate : BitVec w) (fits : n + 1 ≤ w)
    (aligned : 2 ^ (n + 1) ∣ coordinate.toNat) (upper : Bool) :
    (if upper then coordinate + BitVec.ofNat w (2 ^ n) else coordinate).toNat =
      coordinate.toNat + if upper then 2 ^ n else 0 := by
  cases upper with
  | false => rfl
  | true =>
    obtain ⟨q, base⟩ := aligned
    have whole : 2 ^ w = 2 ^ (n + 1) * 2 ^ (w - (n + 1)) := by
      rw [← pow_add, Nat.add_sub_cancel' fits]
    have below : 2 ^ (n + 1) * q < 2 ^ (n + 1) * 2 ^ (w - (n + 1)) := by
      rw [← base, ← whole]
      exact coordinate.isLt
    have room : 2 ^ (n + 1) * (q + 1) ≤ 2 ^ w := by
      rw [whole]
      exact Nat.mul_le_mul_left _ (Nat.lt_of_mul_lt_mul_left below)
    have double : 2 ^ (n + 1) = 2 * 2 ^ n := by ring
    have positive : 0 < 2 ^ n := Nat.two_pow_pos n
    rw [Nat.mul_add, Nat.mul_one, ← base] at room
    simp only [if_true, BitVec.toNat_add, BitVec.toNat_ofNat]
    rw [Nat.mod_eq_of_lt (by omega : 2 ^ n < 2 ^ w), Nat.mod_eq_of_lt (by omega)]

theorem octant_div {a n : Nat} (aligned : 2 ^ (n + 1) ∣ a) (upper : Bool) :
    (a + if upper then 2 ^ n else 0) / 2 ^ (n + 1) = a / 2 ^ (n + 1) := by
  have positive : 0 < 2 ^ n := Nat.two_pow_pos n
  have double : 2 ^ (n + 1) = 2 * 2 ^ n := by ring
  rw [Nat.add_div_of_dvd_right aligned]
  have below : (if upper then 2 ^ n else 0) < 2 ^ (n + 1) := by
    cases upper <;> simp only [Bool.false_eq_true, if_false, if_true] <;> omega
  have small : (if upper then 2 ^ n else 0) / 2 ^ (n + 1) = 0 := Nat.div_eq_of_lt below
  rw [small, Nat.add_zero]

theorem octant_dvd {a n : Nat} (aligned : 2 ^ (n + 1) ∣ a) (upper : Bool) :
    2 ^ n ∣ a + if upper then 2 ^ n else 0 := by
  refine Nat.dvd_add ((pow_dvd_pow 2 (Nat.le_succ n)).trans aligned) ?_
  cases upper with
  | false => exact Nat.dvd_zero _
  | true => exact Nat.dvd_refl _

theorem octant_injective {a n : Nat} {upper upper' : Bool}
    (same : (a + if upper then 2 ^ n else 0) / 2 ^ n = (a + if upper' then 2 ^ n else 0) / 2 ^ n) :
    upper = upper' := by
  have positive : 0 < 2 ^ n := Nat.two_pow_pos n
  cases upper <;> cases upper' <;> simp [positive] at same ⊢

section Child

variable {key : ChunkKey} (aligned : key.Aligned) (large : 0 < key.scaleLog2.toNat)

include large in
theorem childLodKey_scale (i : Fin 8) :
    (key.childLodKey i).scaleLog2.toNat + 1 = key.scaleLog2.toNat := by
  have bound := key.scaleLog2.isLt
  unfold childLodKey
  rw [BitVec.toNat_ofNat, Nat.mod_eq_of_lt (Nat.lt_of_le_of_lt (Nat.sub_le _ _) bound)]
  exact Nat.sub_add_cancel large

include large in
theorem childLodKey_not_inside (i : Fin 8) : ¬ Inside (key.childLodKey i) key := fun inside =>
  absurd inside.scale (Nat.not_le.mpr (childLodKey_scale large i ▸ Nat.lt_succ_self _))

include aligned large

theorem childLodKey_toNat (i : Fin 8) :
    (key.childLodKey i).x.toNat = key.x.toNat +
        (if i.val.testBit 1 then 2 ^ (key.childLodKey i).scaleLog2.toNat else 0) ∧
      (key.childLodKey i).y.toNat = key.y.toNat +
        (if i.val.testBit 2 then 2 ^ (key.childLodKey i).scaleLog2.toNat else 0) ∧
      (key.childLodKey i).z.toNat = key.z.toNat +
        if i.val.testBit 0 then 2 ^ (key.childLodKey i).scaleLog2.toNat else 0 := by
  have scale := childLodKey_scale large i
  have bound := key.scaleLog2.isLt
  have nscale : key.scaleLog2.toNat - 1 = (key.childLodKey i).scaleLog2.toNat := by omega
  obtain ⟨x, y, z⟩ := aligned
  rw [← scale] at x y z
  have one := octant_toNat key.x (by omega) x (i.val.testBit 1)
  have two := octant_toNat key.y (by omega) y (i.val.testBit 2)
  have three := octant_toNat key.z (by omega) z (i.val.testBit 0)
  rw [← nscale] at one two three ⊢
  exact ⟨one, two, three⟩

theorem childLodKey_aligned (i : Fin 8) : (key.childLodKey i).Aligned := by
  have scale := childLodKey_scale large i
  obtain ⟨x, y, z⟩ := childLodKey_toNat aligned large i
  obtain ⟨dx, dy, dz⟩ := aligned
  rw [← scale] at dx dy dz
  exact ⟨x ▸ octant_dvd dx _, y ▸ octant_dvd dy _, z ▸ octant_dvd dz _⟩

theorem childLodKey_inside (i : Fin 8) : Inside key (key.childLodKey i) := by
  have scale := childLodKey_scale large i
  obtain ⟨x, y, z⟩ := childLodKey_toNat aligned large i
  obtain ⟨dx, dy, dz⟩ := aligned
  rw [← scale] at dx dy dz
  refine ⟨Nat.le_of_lt (scale ▸ Nat.lt_succ_self _), ?_, ?_, ?_⟩
  · rw [x, ← scale, octant_div dx]
  · rw [y, ← scale, octant_div dy]
  · rw [z, ← scale, octant_div dz]

theorem childLodKey_apart {i j : Fin 8} {other : ChunkKey}
    (first : Inside (key.childLodKey i) other) (second : Inside (key.childLodKey j) other) :
    i = j := by
  have scale : (key.childLodKey i).scaleLog2.toNat = (key.childLodKey j).scaleLog2.toNat :=
    Nat.succ_injective ((childLodKey_scale large i).trans (childLodKey_scale large j).symm)
  obtain ⟨x, y, z⟩ := childLodKey_toNat aligned large i
  obtain ⟨x', y', z'⟩ := childLodKey_toNat aligned large j
  have bits : ∀ i j : Fin 8, i.val.testBit 1 = j.val.testBit 1 →
      i.val.testBit 2 = j.val.testBit 2 → i.val.testBit 0 = j.val.testBit 0 → i = j := by decide
  have one := first.x.symm
  have two := first.y.symm
  have three := first.z.symm
  rw [x, scale, second.x, x'] at one
  rw [y, scale, second.y, y'] at two
  rw [z, scale, second.z, z'] at three
  exact bits i j (octant_injective one) (octant_injective two) (octant_injective three)

end Child

end Voxen.Land.ChunkKey
