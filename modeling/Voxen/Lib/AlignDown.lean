import Mathlib.Data.BitVec

/-!
# Masking off the low bits of an address

`address & ~(align - 1)` is the address rounded down to a multiple of a power of two.
-/

/-- `address & ~(align - 1)` on a number of bits. -/
def alignDownTo (bits address align : Nat) : Nat :=
  (BitVec.ofNat bits address &&& ~~~(BitVec.ofNat bits align - 1)).toNat

namespace alignDownTo

theorem low_bits (bits k : Nat) :
    BitVec.ofNat bits (2 ^ k) - 1 = BitVec.ofNat bits (2 ^ k - 1) := by
  have positive : 1 ≤ 2 ^ k := Nat.one_le_two_pow
  have one : (1 : BitVec bits) = BitVec.ofNat bits 1 := rfl
  have sum : BitVec.ofNat bits (2 ^ k) = BitVec.ofNat bits (2 ^ k - 1) + 1 := by
    rw [one, ← BitVec.ofNat_add, Nat.sub_add_cancel positive]
  rw [sum, BitVec.add_sub_cancel]

theorem two_pow {bits address : Nat} (fits : address < 2 ^ bits) (k : Nat) :
    alignDownTo bits address (2 ^ k) = address / 2 ^ k * 2 ^ k := by
  have masked : BitVec.ofNat bits address &&& ~~~(BitVec.ofNat bits (2 ^ k - 1)) =
      BitVec.ofNat bits (address / 2 ^ k * 2 ^ k) := by
    apply BitVec.eq_of_getLsbD_eq
    intro i bound
    simp only [BitVec.getLsbD_and, BitVec.getLsbD_not, BitVec.getLsbD_ofNat, bound, decide_true,
      Bool.true_and, Nat.testBit_two_pow_sub_one, Nat.testBit_mul_two_pow,
      Nat.testBit_div_two_pow]
    by_cases below : i < k
    · simp [below]
    · have above : k ≤ i := Nat.le_of_not_lt below
      simp [below, above, Nat.sub_add_cancel above]
  rw [alignDownTo, low_bits, masked, BitVec.toNat_ofNat]
  exact Nat.mod_eq_of_lt (Nat.lt_of_le_of_lt (Nat.div_mul_le_self _ _) fits)

end alignDownTo

/-- `address & ~(align - 1)` on 64 bits. -/
def alignDown (address align : Nat) : Nat :=
  (BitVec.ofNat 64 address &&& ~~~(BitVec.ofNat 64 align - 1)).toNat

namespace alignDown

theorem two_pow {address : Nat} (fits : address < 2 ^ 64) (k : Nat) :
    alignDown address (2 ^ k) = address / 2 ^ k * 2 ^ k :=
  alignDownTo.two_pow fits k

theorem dvd {address : Nat} (fits : address < 2 ^ 64) (k : Nat) :
    2 ^ k ∣ alignDown address (2 ^ k) := by
  rw [two_pow fits]
  exact Nat.dvd_mul_left _ _

theorem le {address : Nat} (fits : address < 2 ^ 64) (k : Nat) :
    alignDown address (2 ^ k) ≤ address := by
  rw [two_pow fits]
  exact Nat.div_mul_le_self _ _

/-- Less than `align` bytes are skipped. -/
theorem lt_add {address : Nat} (fits : address < 2 ^ 64) (k : Nat) :
    address < alignDown address (2 ^ k) + 2 ^ k := by
  rw [two_pow fits]
  exact Nat.lt_div_mul_add (Nat.two_pow_pos k)

/-- An address inside an aligned block is rounded down to the start of the block. -/
theorem inside {start offset k : Nat} (fits : start + offset < 2 ^ 64) (aligned : 2 ^ k ∣ start)
    (small : offset < 2 ^ k) : alignDown (start + offset) (2 ^ k) = start := by
  obtain ⟨count, rfl⟩ := aligned
  rw [two_pow fits, Nat.mul_add_div (Nat.two_pow_pos k), Nat.div_eq_of_lt small, Nat.add_zero,
    Nat.mul_comm]

end alignDown
