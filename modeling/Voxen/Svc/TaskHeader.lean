import Mathlib.Data.BitVec
import Voxen.Lib.PackedArray
import Voxen.Lib.FinSizes

/-!
# The atomic word of a task header

One 32-bit word holds the reference count, two flags and the number of
continuations that are still incomplete.  As long as neither count overflows its
bits, additions and subtractions on the word count one of them and leave the
rest alone.
-/

namespace Voxen.Svc.TaskService

/-- `ATOMIC_WORD_REFCOUNT_MASK`. -/
def refcountMask : BitVec 32 := (1#32 <<< 16) - 1#32

/-- `ATOMIC_WORD_FUTEX_WAITING_BIT`. -/
def futexWaitingBit : BitVec 32 := 1#32 <<< 16

/-- `ATOMIC_WORD_FINISHED_BIT`. -/
def finishedBit : BitVec 32 := 1#32 <<< 17

/-- `ATOMIC_WORD_CONTINUATION_COUNT_MASK`. -/
def continuationCountMask : BitVec 32 := ((1#32 <<< 12) - 1#32) <<< 20

/-- `ATOMIC_WORD_CONTINUATION_ADD`. -/
def continuationAdd : BitVec 32 := 1#32 <<< 20

/-- `ATOMIC_WORD_CONTINUATION_REF_ADD`: adds 1 to both counts. -/
def continuationRefAdd : BitVec 32 := continuationAdd ||| 1#32

/-- The word with these counts and flags. -/
def wordOf (refs : Nat) (waiting finished : Bool) (continuations : Nat) : BitVec 32 :=
  BitVec.ofNat 32 (refs + waiting.toNat * 2 ^ 16 + finished.toNat * 2 ^ 17 +
    continuations * 2 ^ 20)

section Word

variable {refs continuations : Nat} {waiting finished : Bool}

theorem wordOf_add_ref :
    wordOf refs waiting finished continuations + 1#32 =
      wordOf (refs + 1) waiting finished continuations := by
  unfold wordOf
  rw [← BitVec.ofNat_add]
  congr 1
  omega

theorem wordOf_add_continuation :
    wordOf refs waiting finished continuations + continuationRefAdd =
      wordOf (refs + 1) waiting finished (continuations + 1) := by
  have both : continuationRefAdd = BitVec.ofNat 32 (2 ^ 20 + 1) := by decide
  unfold wordOf
  rw [both, ← BitVec.ofNat_add]
  congr 1
  omega

theorem wordOf_sub_ref :
    wordOf (refs + 1) waiting finished continuations - 1#32 =
      wordOf refs waiting finished continuations := by
  rw [← wordOf_add_ref, BitVec.add_sub_cancel]

theorem wordOf_sub_continuation :
    wordOf refs waiting finished (continuations + 1) - continuationAdd =
      wordOf refs waiting finished continuations := by
  have one : continuationAdd = BitVec.ofNat 32 (2 ^ 20) := by decide
  have added : wordOf refs waiting finished (continuations + 1) =
      wordOf refs waiting finished continuations + continuationAdd := by
    unfold wordOf
    rw [one, ← BitVec.ofNat_add]
    congr 1
    omega
  rw [added, BitVec.add_sub_cancel]

variable (refsFit : refs < 2 ^ 16) (continuationsFit : continuations < 2 ^ 12)

include refsFit continuationsFit

theorem toNat_wordOf :
    (wordOf refs waiting finished continuations).toNat =
      refs + waiting.toNat * 2 ^ 16 + finished.toNat * 2 ^ 17 + continuations * 2 ^ 20 := by
  have small := waiting.toNat_le
  have small' := finished.toNat_le
  unfold wordOf
  rw [BitVec.toNat_ofNat, Nat.mod_eq_of_lt]
  omega

theorem wordOf_refcount :
    (wordOf refs waiting finished continuations &&& refcountMask).toNat = refs := by
  have mask : refcountMask.toNat = 2 ^ 16 - 1 := by decide
  rw [BitVec.toNat_and, mask, Nat.and_two_pow_sub_one_eq_mod,
    toNat_wordOf refsFit continuationsFit]
  omega

theorem wordOf_continuations :
    wordOf refs waiting finished continuations &&& continuationCountMask =
      BitVec.ofNat 32 (continuations * 2 ^ 20) := by
  have small := waiting.toNat_le
  have small' := finished.toNat_le
  have shifted : ∀ word : BitVec 32,
      word &&& continuationCountMask = word >>> 20 <<< 20 := by
    intro word
    apply BitVec.eq_of_getLsbD_eq
    intro i hi
    have mask : ∀ j : Fin 32, continuationCountMask.getLsbD j = decide (20 ≤ j.val) := by
      decide
    rw [BitVec.getLsbD_and, mask ⟨i, hi⟩, BitVec.getLsbD_shiftLeft, BitVec.getLsbD_ushiftRight]
    rcases Nat.lt_or_ge i 20 with low | high
    · simp [low, Nat.not_le.mpr low]
    · simp [hi, high, Nat.not_lt.mpr high]
  rw [shifted]
  apply BitVec.eq_of_toNat_eq
  rw [BitVec.toNat_shiftLeft, BitVec.toNat_ushiftRight, toNat_wordOf refsFit continuationsFit,
    Nat.shiftRight_eq_div_pow, Nat.shiftLeft_eq, BitVec.toNat_ofNat]
  congr 2
  omega

theorem wordOf_continuations_eq_zero :
    wordOf refs waiting finished continuations &&& continuationCountMask = 0#32 ↔
      continuations = 0 := by
  rw [wordOf_continuations refsFit continuationsFit, ← BitVec.toNat_inj, BitVec.toNat_ofNat,
    BitVec.toNat_ofNat]
  omega

theorem wordOf_continuations_eq_one :
    wordOf refs waiting finished continuations &&& continuationCountMask = continuationAdd ↔
      continuations = 1 := by
  have one : continuationAdd.toNat = 2 ^ 20 := by decide
  rw [wordOf_continuations refsFit continuationsFit, ← BitVec.toNat_inj, BitVec.toNat_ofNat, one]
  omega

theorem wordOf_continuations_eq_mask :
    wordOf refs waiting finished continuations &&& continuationCountMask =
      continuationCountMask ↔ continuations + 1 = 2 ^ 12 := by
  have all : continuationCountMask.toNat = (2 ^ 12 - 1) * 2 ^ 20 := by decide
  rw [wordOf_continuations refsFit continuationsFit, ← BitVec.toNat_inj, BitVec.toNat_ofNat, all]
  omega

theorem wordOf_refcount_eq_mask :
    wordOf refs waiting finished continuations &&& refcountMask = refcountMask ↔
      refs + 1 = 2 ^ 16 := by
  have all : refcountMask.toNat = 2 ^ 16 - 1 := by decide
  rw [← BitVec.toNat_inj, wordOf_refcount refsFit continuationsFit, all]
  omega

theorem getLsbD_wordOf (i : Nat) :
    (wordOf refs waiting finished continuations).getLsbD i =
      decide ((refs + waiting.toNat * 2 ^ 16 + finished.toNat * 2 ^ 17 +
        continuations * 2 ^ 20) / 2 ^ i % 2 = 1) := by
  rw [BitVec.getLsbD, toNat_wordOf refsFit continuationsFit, Nat.testBit_eq_decide_div_mod_eq]

theorem wordOf_or_finished :
    wordOf refs waiting finished continuations ||| finishedBit =
      wordOf refs waiting true continuations := by
  have small := waiting.toNat_le
  have flag : finishedBit = PackedArray.bit 32 17 := by decide
  cases finished with
  | true =>
    rw [flag, PackedArray.or_bit_of_set]
    rw [getLsbD_wordOf refsFit continuationsFit, decide_eq_true_eq, Bool.toNat_true]
    omega
  | false =>
    have clear : wordOf refs waiting false continuations &&& finishedBit = 0#32 := by
      rw [flag, PackedArray.and_bit_eq_zero, getLsbD_wordOf refsFit continuationsFit,
        decide_eq_false_iff_not, Bool.toNat_false]
      omega
    have one : finishedBit = BitVec.ofNat 32 (2 ^ 17) := by decide
    rw [← BitVec.add_eq_or_of_and_eq_zero _ _ clear, one]
    unfold wordOf
    rw [← BitVec.ofNat_add, Bool.toNat_true, Bool.toNat_false]
    exact congrArg (BitVec.ofNat 32) (by omega)

theorem wordOf_or_waiting :
    wordOf refs waiting finished continuations ||| futexWaitingBit =
      wordOf refs true finished continuations := by
  have small := finished.toNat_le
  have flag : futexWaitingBit = PackedArray.bit 32 16 := by decide
  cases waiting with
  | true =>
    rw [flag, PackedArray.or_bit_of_set]
    rw [getLsbD_wordOf refsFit continuationsFit, decide_eq_true_eq, Bool.toNat_true]
    omega
  | false =>
    have clear : wordOf refs false finished continuations &&& futexWaitingBit = 0#32 := by
      rw [flag, PackedArray.and_bit_eq_zero, getLsbD_wordOf refsFit continuationsFit,
        decide_eq_false_iff_not, Bool.toNat_false]
      omega
    have one : futexWaitingBit = BitVec.ofNat 32 (2 ^ 16) := by decide
    rw [← BitVec.add_eq_or_of_and_eq_zero _ _ clear, one]
    unfold wordOf
    rw [← BitVec.ofNat_add, Bool.toNat_true, Bool.toNat_false]
    exact congrArg (BitVec.ofNat 32) (by omega)

end Word

end Voxen.Svc.TaskService
