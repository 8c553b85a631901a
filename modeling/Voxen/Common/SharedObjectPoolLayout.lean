import Mathlib.Data.List.Range
import Voxen.Lib.AlignDown
import Voxen.Lib.BumpRegion

/-!
# The slabs of the shared object pool

The size of a slab is computed at compile time from the size of an object and a hint how
many of them it should hold; the layout of a slab is computed at run time.  The first
computation counts one byte for the reference counter of an object, the second two.
-/

namespace Voxen.SharedObjectPool

open BumpRegion

/-! ## The size of a slab -/

/-- `sizeof(void *)`. -/
def ptrSize : Nat := 8

/-- `SLAB_HEADER_SIZE`. -/
def slabHeaderSize : Nat := 2 * ptrSize + 8

/-- `REF_COUNTER_SIZE`. -/
def refCounterSize : Nat := 2

/-- `std::bit_ceil`. -/
def bitCeil (n : Nat) : Nat := if n ≤ 1 then 1 else 2 ^ ((n - 1).log2 + 1)

/-- A difference on 64 bits. -/
def sub64 (minuend subtrahend : Nat) : Nat := (minuend + 2 ^ 64 - subtrahend) % 2 ^ 64

/-- `adjustObjectSize`. -/
def adjustObjectSize (objectSize : Nat) : Nat := max objectSize ptrSize

/-- `calcSlabSize`. -/
def calcSlabSize (objectSize objectsHint : Nat) : Nat :=
  -- one byte per object for refcounts
  let slabSize := (objectsHint * max objectSize ptrSize + objectsHint) % 2 ^ 64
  let slabSize := alignDown ((slabSize + ptrSize - 1) % 2 ^ 64) ptrSize
  bitCeil ((slabSize + slabHeaderSize) % 2 ^ 64)

/-- `calcMaxObjects`. -/
def calcMaxObjects (adjustedObjectSize slabSize : Nat) : Nat :=
  sub64 slabSize slabHeaderSize / ((adjustedObjectSize + refCounterSize) % 2 ^ 32) % 2 ^ 32

/-- The constants of a `SharedObjectPoolBase`; they are `uint32_t`. -/
structure PoolConstants where
  adjustedObjectSize : Nat
  slabSize : Nat
  maxObjects : Nat

/-- What the constructor makes of the size of an object and the hint. -/
def PoolConstants.new (objectSize objectsHint : Nat) : PoolConstants :=
  let adjustedObjectSize := adjustObjectSize objectSize % 2 ^ 32
  let slabSize := calcSlabSize objectSize objectsHint % 2 ^ 32
  { adjustedObjectSize, slabSize, maxObjects := calcMaxObjects adjustedObjectSize slabSize }

/-! ## The layout of a slab -/

/-- `getSlabHeader`. -/
def getSlabHeader (slabBase slabSize : Nat) : Nat := sub64 (slabBase + slabSize) slabHeaderSize

/-- `getObjectSlabHeader`. -/
def getObjectSlabHeader (obj slabSize : Nat) : Nat :=
  sub64 (alignDown obj slabSize + slabSize) slabHeaderSize

/-- `getRefCounter` of an object. -/
def getObjectRefCounter (obj slabSize adjustedObjectSize : Nat) : Nat :=
  let slabBase := alignDown obj slabSize
  let index := sub64 obj slabBase / adjustedObjectSize
  sub64 (sub64 (slabBase + slabSize) slabHeaderSize) (refCounterSize * (index + 1))

/-- `getRefCounter` of an index. -/
def getRefCounter (hdr objectIndex : Nat) : Nat :=
  sub64 hdr (refCounterSize * ((objectIndex + 1) % 2 ^ 32) % 2 ^ 32)

namespace PoolConstants

/-- The object that `allocate` places at an index. -/
def object (pool : PoolConstants) (slabBase index : Nat) : Nat :=
  slabBase + index * pool.adjustedObjectSize % 2 ^ 32

/-- The bytes of the header, of the reference counters and of the objects of a slab. -/
def ranges (pool : PoolConstants) (slabBase : Nat) : List Range :=
  let hdr := getSlabHeader slabBase pool.slabSize
  ⟨hdr, hdr + slabHeaderSize⟩ ::
    ((List.range pool.maxObjects).map (fun index =>
        ⟨getRefCounter hdr index, getRefCounter hdr index + refCounterSize⟩) ++
      (List.range pool.maxObjects).map fun index =>
        ⟨pool.object slabBase index, pool.object slabBase index + pool.adjustedObjectSize⟩)

end PoolConstants

/-- The slabs hold what the hint says, and everything in them has bytes of its own.  The
pointers of objects find the same header and counters with the size at compile time. -/
structure LayoutOk (objectSize objectsHint : Nat) (pool : PoolConstants) : Prop where
  enough : objectsHint ≤ pool.maxObjects
  inside : ∀ slabBase, pool.slabSize ∣ slabBase → slabBase + pool.slabSize < 2 ^ 64 →
    ∀ range ∈ pool.ranges slabBase,
      slabBase ≤ range.first ∧ range.last ≤ slabBase + pool.slabSize
  apart : ∀ slabBase, pool.slabSize ∣ slabBase → slabBase + pool.slabSize < 2 ^ 64 →
    (pool.ranges slabBase).Pairwise Range.Apart
  found : ∀ slabBase, pool.slabSize ∣ slabBase → slabBase + pool.slabSize < 2 ^ 64 →
    ∀ index < pool.maxObjects,
      getObjectSlabHeader (pool.object slabBase index) (calcSlabSize objectSize objectsHint) =
        getSlabHeader slabBase pool.slabSize ∧
      getObjectRefCounter (pool.object slabBase index) (calcSlabSize objectSize objectsHint)
        (adjustObjectSize objectSize) =
          getRefCounter (getSlabHeader slabBase pool.slabSize) index

/-- A slab with one byte for each reference counter has at most `2 ^ 31` bytes, and every
power of two that has space for it has space for one with two bytes. -/
structure HintFits (objectSize objectsHint : Nat) : Prop where
  small : objectsHint * (max objectSize 8 + 1) + 24 ≤ 2 ^ 31
  room : ∀ k, objectsHint * (max objectSize 8 + 1) + 24 ≤ 2 ^ k →
    objectsHint * (max objectSize 8 + 2) + 24 ≤ 2 ^ k

/-! ## Facts about the sizes -/

theorem bitCeil_spec {n : Nat} (positive : 1 < n) :
    ∃ k, bitCeil n = 2 ^ k ∧ n ≤ 2 ^ k ∧ ∀ j, n ≤ 2 ^ j → k ≤ j := by
  have notZero : n - 1 ≠ 0 := by omega
  refine ⟨(n - 1).log2 + 1, if_neg (by omega), ?_, fun j le => ?_⟩
  · have lt : n - 1 < 2 ^ ((n - 1).log2 + 1) := Nat.lt_log2_self
    omega
  · have lt : (n - 1).log2 < j := (Nat.log2_lt notZero).mpr (by omega)
    exact lt

theorem sub64_eq {minuend subtrahend : Nat} (bound : minuend < 2 ^ 64)
    (le : subtrahend ≤ minuend) : sub64 minuend subtrahend = minuend - subtrahend := by
  unfold sub64
  omega

section Sizes

variable {objectSize objectsHint : Nat}

/-- The size at compile time is the least power of two with space for one byte per counter. -/
theorem calcSlabSize_spec (objectSize_le : objectSize ≤ 512) (positive : 1 ≤ objectsHint)
    (hint_lt : objectsHint < 2 ^ 32) :
    ∃ k, calcSlabSize objectSize objectsHint = 2 ^ k ∧
      ∀ j, objectsHint * (max objectSize 8 + 1) + 24 ≤ 2 ^ j ↔ k ≤ j := by
  have max_le : max objectSize 8 ≤ 512 := by omega
  have max_ge : 8 ≤ max objectSize 8 := by omega
  have bytes : objectsHint * max objectSize ptrSize + objectsHint =
      objectsHint * (max objectSize 8 + 1) := (Nat.mul_succ _ _).symm
  have low : 1 * 9 ≤ objectsHint * (max objectSize 8 + 1) :=
    Nat.mul_le_mul positive (by omega)
  have high : objectsHint * (max objectSize 8 + 1) ≤ 2 ^ 32 * 513 :=
    Nat.mul_le_mul (by omega) (by omega)
  generalize objectsHint * (max objectSize 8 + 1) = total at *
  have rounded : alignDown ((total % 2 ^ 64 + ptrSize - 1) % 2 ^ 64) ptrSize =
      (total + 7) / 8 * 8 := by
    have small : total % 2 ^ 64 + ptrSize - 1 = total + 7 := by
      rw [Nat.mod_eq_of_lt (by omega), ptrSize]
      rfl
    rw [small, Nat.mod_eq_of_lt (by omega), ptrSize]
    exact alignDown.two_pow (by omega) 3
  obtain ⟨k, isPower, fits, least⟩ := bitCeil_spec (n := (total + 7) / 8 * 8 + 24) (by omega)
  refine ⟨k, ?_, fun j => ⟨fun le => least j ?_, fun le => ?_⟩⟩
  · simp only [calcSlabSize, bytes, rounded]
    rw [slabHeaderSize, ptrSize, Nat.mod_eq_of_lt (by omega)]
    exact isPower
  · -- a power of two that is large enough is a multiple of eight
    have three_le : 3 ≤ j := by
      by_contra less
      have le' : 2 ^ j ≤ 2 ^ 2 := Nat.pow_le_pow_right (by decide) (by omega)
      omega
    obtain ⟨count, same⟩ : 2 ^ 3 ∣ 2 ^ j := Nat.pow_dvd_pow 2 three_le
    omega
  · have grows : 2 ^ k ≤ 2 ^ j := Nat.pow_le_pow_right (by decide) le
    omega

theorem new_adjustedObjectSize (objectsHint : Nat) (objectSize_le : objectSize ≤ 512) :
    (PoolConstants.new objectSize objectsHint).adjustedObjectSize = max objectSize 8 :=
  Nat.mod_eq_of_lt (show max objectSize 8 < 2 ^ 32 by omega)

end Sizes

/-! ## The layout -/

/-- A slab with space for the header and for all its slots. -/
structure Roomy (pool : PoolConstants) (k : Nat) : Prop where
  slabSize : pool.slabSize = 2 ^ k
  small : k ≤ 31
  positive : 0 < pool.adjustedObjectSize
  adjustedObjectSize_lt : pool.adjustedObjectSize < 2 ^ 31
  room : pool.maxObjects * (pool.adjustedObjectSize + 2) + 24 ≤ 2 ^ k

namespace Roomy

variable {pool : PoolConstants} {k slabBase index : Nat}

theorem slabSize_le (roomy : Roomy pool k) : 2 ^ k ≤ 2 ^ 31 :=
  Nat.pow_le_pow_right (by decide) roomy.small

theorem slot_le (roomy : Roomy pool k) (isSlot : index < pool.maxObjects) :
    index * pool.adjustedObjectSize + pool.adjustedObjectSize +
      2 * pool.maxObjects + 24 ≤ 2 ^ k := by
  have slots : (index + 1) * pool.adjustedObjectSize ≤
      pool.maxObjects * pool.adjustedObjectSize := Nat.mul_le_mul_right _ isSlot
  have room := roomy.room
  rw [Nat.mul_add] at room
  rw [Nat.succ_mul] at slots
  omega

theorem getSlabHeader_eq (roomy : Roomy pool k) (bound : slabBase + 2 ^ k < 2 ^ 64) :
    getSlabHeader slabBase pool.slabSize = slabBase + 2 ^ k - 24 := by
  have room := roomy.room
  rw [getSlabHeader, roomy.slabSize]
  exact sub64_eq bound (show 24 ≤ slabBase + 2 ^ k by omega)

theorem object_eq (roomy : Roomy pool k) (isSlot : index < pool.maxObjects) :
    pool.object slabBase index = slabBase + index * pool.adjustedObjectSize := by
  have slot := roomy.slot_le isSlot
  have slab := roomy.slabSize_le
  rw [PoolConstants.object, Nat.mod_eq_of_lt (by omega)]

theorem getRefCounter_eq (roomy : Roomy pool k) (bound : slabBase + 2 ^ k < 2 ^ 64)
    (isSlot : index < pool.maxObjects) :
    getRefCounter (slabBase + 2 ^ k - 24) index = slabBase + 2 ^ k - 24 - 2 * (index + 1) := by
  have slot := roomy.slot_le isSlot
  have slab := roomy.slabSize_le
  have offset : refCounterSize * ((index + 1) % 2 ^ 32) % 2 ^ 32 = 2 * (index + 1) := by
    rw [refCounterSize, Nat.mod_eq_of_lt (a := index + 1) (by omega), Nat.mod_eq_of_lt (by omega)]
  rw [getRefCounter, offset, sub64_eq (by omega) (by omega)]

theorem alignDown_object (roomy : Roomy pool k) (aligned : 2 ^ k ∣ slabBase)
    (bound : slabBase + 2 ^ k < 2 ^ 64) (isSlot : index < pool.maxObjects) :
    alignDown (pool.object slabBase index) (2 ^ k) = slabBase := by
  have slot := roomy.slot_le isSlot
  rw [roomy.object_eq isSlot]
  exact alignDown.inside (by omega) aligned (by omega)

theorem getObjectRefCounter_eq (roomy : Roomy pool k) (aligned : 2 ^ k ∣ slabBase)
    (bound : slabBase + 2 ^ k < 2 ^ 64) (isSlot : index < pool.maxObjects) :
    getObjectRefCounter (pool.object slabBase index) (2 ^ k) pool.adjustedObjectSize =
      slabBase + 2 ^ k - 24 - 2 * (index + 1) := by
  have slot := roomy.slot_le isSlot
  have isIndex : sub64 (pool.object slabBase index) slabBase / pool.adjustedObjectSize = index := by
    rw [roomy.object_eq isSlot, sub64_eq (by omega) (Nat.le_add_right _ _), Nat.add_sub_cancel_left]
    exact Nat.mul_div_cancel _ roomy.positive
  simp only [getObjectRefCounter, roomy.alignDown_object aligned bound isSlot, isIndex]
  rw [slabHeaderSize, ptrSize, refCounterSize, sub64_eq bound (by omega), sub64_eq (by omega)
    (by omega)]

theorem mem_ranges (roomy : Roomy pool k) (bound : slabBase + 2 ^ k < 2 ^ 64) {range : Range}
    (mem : range ∈ pool.ranges slabBase) :
    slabBase ≤ range.first ∧ range.last ≤ slabBase + 2 ^ k := by
  have room := roomy.room
  simp only [PoolConstants.ranges, roomy.getSlabHeader_eq bound, List.mem_cons, List.mem_append,
    List.mem_map, List.mem_range] at mem
  rcases mem with rfl | ⟨index, isSlot, rfl⟩ | ⟨index, isSlot, rfl⟩
  · simp only [slabHeaderSize, ptrSize]
    omega
  · have slot := roomy.slot_le isSlot
    simp only [roomy.getRefCounter_eq bound isSlot, refCounterSize]
    omega
  · have slot := roomy.slot_le isSlot
    simp only [roomy.object_eq isSlot]
    omega

/-- Counters go down from the header, objects go up from the start of the slab. -/
theorem ranges_apart (roomy : Roomy pool k) (bound : slabBase + 2 ^ k < 2 ^ 64) :
    (pool.ranges slabBase).Pairwise Range.Apart := by
  simp only [PoolConstants.ranges, roomy.getSlabHeader_eq bound]
  refine List.pairwise_cons.mpr ⟨fun range mem => ?_, List.pairwise_append.mpr ⟨?_, ?_, ?_⟩⟩
  · simp only [List.mem_append, List.mem_map, List.mem_range] at mem
    rcases mem with ⟨index, isSlot, rfl⟩ | ⟨index, isSlot, rfl⟩
    · have slot := roomy.slot_le isSlot
      right
      simp only [roomy.getRefCounter_eq bound isSlot, refCounterSize]
      omega
    · have slot := roomy.slot_le isSlot
      right
      simp only [roomy.object_eq isSlot]
      omega
  · refine List.pairwise_map.mpr (List.pairwise_lt_range.imp_of_mem fun mem mem' less => ?_)
    have isSlot := List.mem_range.mp mem
    have isSlot' := List.mem_range.mp mem'
    have slot := roomy.slot_le isSlot'
    right
    simp only [roomy.getRefCounter_eq bound isSlot, roomy.getRefCounter_eq bound isSlot',
      refCounterSize]
    omega
  · refine List.pairwise_map.mpr
      (List.pairwise_lt_range.imp_of_mem fun {index other} mem mem' less => ?_)
    have isSlot := List.mem_range.mp mem
    have isSlot' := List.mem_range.mp mem'
    have before : (index + 1) * pool.adjustedObjectSize ≤ other * pool.adjustedObjectSize :=
      Nat.mul_le_mul_right _ less
    rw [Nat.succ_mul] at before
    left
    simp only [roomy.object_eq isSlot, roomy.object_eq isSlot']
    omega
  · intro counter isCounter object isObject
    obtain ⟨index, mem, rfl⟩ := List.mem_map.mp isCounter
    obtain ⟨other, mem', rfl⟩ := List.mem_map.mp isObject
    have isSlot := List.mem_range.mp mem
    have isSlot' := List.mem_range.mp mem'
    have slot := roomy.slot_le isSlot
    have slot' := roomy.slot_le isSlot'
    right
    simp only [roomy.getRefCounter_eq bound isSlot, roomy.object_eq isSlot']
    omega

end Roomy

section Hint

variable {objectSize objectsHint : Nat}

theorem roomy_new {k : Nat} (objectSize_le : objectSize ≤ 512)
    (isPower : calcSlabSize objectSize objectsHint = 2 ^ k) (header : 24 ≤ 2 ^ k)
    (small : k ≤ 31) :
    Roomy (PoolConstants.new objectSize objectsHint) k ∧
      (PoolConstants.new objectSize objectsHint).maxObjects =
        (2 ^ k - 24) / (max objectSize 8 + 2) := by
  have le : 2 ^ k ≤ 2 ^ 31 := Nat.pow_le_pow_right (by decide) small
  have adjusted := new_adjustedObjectSize objectsHint objectSize_le
  have slab : (PoolConstants.new objectSize objectsHint).slabSize = 2 ^ k := by
    show calcSlabSize objectSize objectsHint % 2 ^ 32 = 2 ^ k
    rw [isPower, Nat.mod_eq_of_lt (by omega)]
  have most : (2 ^ k - 24) / (max objectSize 8 + 2) ≤ 2 ^ k - 24 := Nat.div_le_self _ _
  have count : (PoolConstants.new objectSize objectsHint).maxObjects =
      (2 ^ k - 24) / (max objectSize 8 + 2) := by
    show calcMaxObjects (PoolConstants.new objectSize objectsHint).adjustedObjectSize
      (PoolConstants.new objectSize objectsHint).slabSize = _
    rw [adjusted, slab, calcMaxObjects, slabHeaderSize, ptrSize, refCounterSize,
      sub64_eq (by omega) header, Nat.mod_eq_of_lt (a := max objectSize 8 + 2) (by omega),
      Nat.mod_eq_of_lt (by omega)]
  refine ⟨⟨slab, small, ?_, ?_, ?_⟩, count⟩
  · rw [adjusted]
    omega
  · rw [adjusted]
    omega
  · rw [count, adjusted]
    have fits := Nat.div_mul_le_self (2 ^ k - 24) (max objectSize 8 + 2)
    omega

theorem hintFits_iff {k : Nat}
    (least : ∀ j, objectsHint * (max objectSize 8 + 1) + 24 ≤ 2 ^ j ↔ k ≤ j) :
    HintFits objectSize objectsHint ↔
      k ≤ 31 ∧ objectsHint * (max objectSize 8 + 2) + 24 ≤ 2 ^ k := by
  constructor
  · intro fits
    exact ⟨(least 31).mp fits.small, fits.room k ((least k).mpr (Nat.le_refl k))⟩
  · rintro ⟨small, room⟩
    refine ⟨(least 31).mpr small, fun j le => Nat.le_trans room ?_⟩
    exact Nat.pow_le_pow_right (by decide) ((least j).mp le)

/-- The slabs of a pool are as the hint says exactly if the byte that the size calculation
misses for each counter finds space anyway. -/
theorem layoutOk_iff (objectSize_le : objectSize ≤ 512) (positive : 1 ≤ objectsHint)
    (hint_lt : objectsHint < 2 ^ 32) :
    LayoutOk objectSize objectsHint (PoolConstants.new objectSize objectsHint) ↔
      HintFits objectSize objectsHint := by
  obtain ⟨k, isPower, least⟩ := calcSlabSize_spec objectSize_le positive hint_lt
  have header : 24 ≤ 2 ^ k := by
    have := (least k).mpr (Nat.le_refl k)
    omega
  rw [hintFits_iff least]
  by_cases small : k ≤ 31
  · obtain ⟨roomy, count⟩ := roomy_new objectSize_le isPower header small
    have enough_iff : objectsHint ≤ (PoolConstants.new objectSize objectsHint).maxObjects ↔
        objectsHint * (max objectSize 8 + 2) + 24 ≤ 2 ^ k := by
      rw [count, Nat.le_div_iff_mul_le (by omega)]
      omega
    rw [and_iff_right small, ← enough_iff]
    refine ⟨LayoutOk.enough, fun enough => ⟨enough, ?_, ?_, ?_⟩⟩
    · intro slabBase _ bound range mem
      rw [roomy.slabSize] at bound ⊢
      exact roomy.mem_ranges bound mem
    · intro slabBase _ bound
      rw [roomy.slabSize] at bound
      exact roomy.ranges_apart bound
    · intro slabBase aligned bound index isSlot
      rw [roomy.slabSize] at aligned bound
      rw [isPower, roomy.getSlabHeader_eq bound, roomy.getRefCounter_eq bound isSlot]
      have adjusted := new_adjustedObjectSize objectsHint objectSize_le
      refine ⟨?_, ?_⟩
      · rw [getObjectSlabHeader, roomy.alignDown_object aligned bound isSlot]
        exact sub64_eq bound (show 24 ≤ slabBase + 2 ^ k by omega)
      · have same : adjustObjectSize objectSize =
            (PoolConstants.new objectSize objectsHint).adjustedObjectSize := adjusted.symm
        rw [same, roomy.getObjectRefCounter_eq aligned bound isSlot]
  · -- the size at run time is zero, and there is no space for the header
    refine iff_of_false (fun ok => ?_) fun both => small both.1
    have noSlab : (PoolConstants.new objectSize objectsHint).slabSize = 0 := by
      show calcSlabSize objectSize objectsHint % 2 ^ 32 = 0
      rw [isPower]
      exact Nat.mod_eq_zero_of_dvd (Nat.pow_dvd_pow 2 (by omega))
    have inside := ok.inside 0 (Nat.dvd_zero _) (by rw [noSlab]; decide) _ List.mem_cons_self
    rw [noSlab] at inside
    exact absurd inside.2 (by decide)

end Hint

/-- 254 objects of 512 bytes. -/
theorem layoutOk_of_254_objects :
    LayoutOk 512 254 (PoolConstants.new 512 254) ↔ HintFits 512 254 :=
  layoutOk_iff (by decide) (by decide) (by decide)

/-- A slab for 255 objects of 512 bytes holds 254 of them. -/
theorem not_layoutOk_of_255_objects :
    (PoolConstants.new 512 255).slabSize = 131072 ∧ (PoolConstants.new 512 255).maxObjects = 254 ∧
      ¬ LayoutOk 512 255 (PoolConstants.new 512 255) := by
  have count : (PoolConstants.new 512 255).maxObjects = 254 := by decide +kernel
  refine ⟨by decide +kernel, count, fun ok => ?_⟩
  have enough := ok.enough
  rw [count] at enough
  exact absurd enough (by decide)

end Voxen.SharedObjectPool
