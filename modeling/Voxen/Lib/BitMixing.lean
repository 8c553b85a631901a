import Mathlib.Data.BitVec

/-!
# Steps of bit mixing functions

Each of the steps that hash functions mix bits by can be undone: rotations, multiplications
by odd numbers, and xor with a shifted copy.
-/

namespace BitMixing

open Function

variable {w : Nat}

/-- Multiplication by a number that has an inverse. -/
theorem mul_injective {factor inverse : BitVec w} (unit : factor * inverse = 1) :
    Injective fun x : BitVec w => x * factor := by
  intro x y same
  have back : ∀ x : BitVec w, x * factor * inverse = x := by
    intro x
    rw [BitVec.mul_assoc, unit]
    exact BitVec.mul_one x
  rw [← back x, ← back y]
  exact congrArg (· * inverse) same

theorem add_injective (summand : BitVec w) : Injective fun x : BitVec w => x + summand := by
  intro x y same
  have back : ∀ x : BitVec w, x + summand - summand = x := fun x => BitVec.add_sub_cancel x summand
  rw [← back x, ← back y]
  exact congrArg (· - summand) same

theorem xor_injective (mask : BitVec w) : Injective fun x : BitVec w => mask ^^^ x := by
  intro x y same
  have back : ∀ x : BitVec w, mask ^^^ (mask ^^^ x) = x := by
    intro x
    rw [← BitVec.xor_assoc, BitVec.xor_self, BitVec.zero_xor]
  rw [← back x, ← back y]
  exact congrArg (mask ^^^ ·) same

/-- A number that a shift to the right keeps is zero. -/
theorem eq_zero_of_shift {x : BitVec w} {n : Nat} (positive : 0 < n) (same : x >>> n = x) :
    x = 0 := by
  have often : ∀ k, x >>> (n * k) = x := by
    intro k
    induction k with
    | zero => rfl
    | succ k ih =>
      rw [Nat.mul_succ, BitVec.shiftRight_add, ih]
      exact same
  rw [← often w]
  exact BitVec.ushiftRight_eq_zero (Nat.le_mul_of_pos_left w positive)

/-- Xor with a copy of its own that is shifted to the right. -/
theorem xorShift_injective {n : Nat} (positive : 0 < n) :
    Injective fun x : BitVec w => x ^^^ (x >>> n) := by
  intro x y same
  have same : x ^^^ (x >>> n) = y ^^^ (y >>> n) := same
  have split : (x ^^^ y) >>> n = x ^^^ y := by
    have swap : (x ^^^ y) ^^^ ((x ^^^ y) >>> n) = (x ^^^ (x >>> n)) ^^^ (y ^^^ (y >>> n)) := by
      rw [BitVec.ushiftRight_xor_distrib]
      ac_rfl
    have zero : (x ^^^ y) ^^^ ((x ^^^ y) >>> n) = 0 := by
      rw [swap, same]
      exact BitVec.xor_self
    exact (BitVec.xor_eq_zero_iff.mp zero).symm
  exact BitVec.xor_eq_zero_iff.mp (eq_zero_of_shift positive split)

/-- Where a rotation moves a bit to. -/
theorem getLsbD_of_rotateLeft (x : BitVec w) {n i : Nat} (below : n < w) (inside : i < w) :
    x.getLsbD i = (x.rotateLeft n).getLsbD (if i + n < w then i + n else i + n - w) := by
  rw [BitVec.getLsbD_rotateLeft_of_le below]
  by_cases fits : i + n < w
  · rw [if_pos fits, decide_eq_false (by omega), cond_false, decide_eq_true fits, Bool.true_and,
      Nat.add_sub_cancel]
  · rw [if_neg fits, decide_eq_true (by omega), cond_true]
    congr 1
    omega

theorem rotateLeft_injective {n : Nat} (below : n < w) :
    Injective fun x : BitVec w => x.rotateLeft n := by
  intro x y same
  have same : x.rotateLeft n = y.rotateLeft n := same
  refine BitVec.eq_of_getLsbD_eq fun i inside => ?_
  rw [getLsbD_of_rotateLeft x below inside, getLsbD_of_rotateLeft y below inside, same]

/-- What is injective on words is a bijection. -/
theorem bijective_of_injective {mix : BitVec w → BitVec w} (injective : Injective mix) :
    Bijective mix := by
  have finite : Finite (BitVec w) :=
    Finite.of_injective BitVec.toFin fun _ _ same => BitVec.eq_of_toFin_eq same
  exact Finite.injective_iff_bijective.mp injective

end BitMixing
