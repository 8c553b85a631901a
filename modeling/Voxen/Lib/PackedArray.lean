import Mathlib.Data.List.Basic

/-!
# Arrays packed by a bitmap

A bitmap `mask` says which of `w` slots are occupied, and the occupied slots are
stored without gaps in increasing slot order.  The position of slot `i` is then
its rank, the number of set bits below bit `i`.
-/

namespace PackedArray

variable {w : Nat} {α : Type}

/-- Number of set bits of a mask. -/
def popcount (mask : BitVec w) : Nat := mask.cpop.toNat

/-- Number of set bits strictly below position `i`. -/
def rank (mask : BitVec w) (i : Nat) : Nat := mask.cpopNatRec i 0

@[simp]
theorem rank_zero (mask : BitVec w) : rank mask 0 = 0 := rfl

theorem rank_succ (mask : BitVec w) (i : Nat) :
    rank mask (i + 1) = rank mask i + (mask.getLsbD i).toNat := by
  unfold rank
  rw [BitVec.cpopNatRec_succ, BitVec.cpopNatRec_eq, Nat.zero_add]

theorem popcount_eq_rank (mask : BitVec w) : popcount mask = rank mask w :=
  BitVec.toNat_cpop mask

@[simp]
theorem popcount_zero : popcount (0#w) = 0 := by
  simp [popcount]

variable {i j : Nat} {mask : BitVec w} {cells : List α}

theorem rank_congr {v : Nat} {first : BitVec v} {second : BitVec w}
    (same : ∀ j, j < i → first.getLsbD j = second.getLsbD j) :
    rank first i = rank second i := by
  induction i with
  | zero => rfl
  | succ i ih =>
    rw [rank_succ, rank_succ, same i (Nat.lt_succ_self i),
      ih fun j hj => same j (Nat.lt_succ_of_lt hj)]

theorem rank_eq_zero (clear : ∀ j, j < i → mask.getLsbD j = false) : rank mask i = 0 := by
  induction i with
  | zero => rfl
  | succ i ih =>
    rw [rank_succ, clear i (Nat.lt_succ_self i),
      ih fun j hj => clear j (Nat.lt_succ_of_lt hj)]
    rfl

theorem rank_mono (mask : BitVec w) (hle : i ≤ j) :
    rank mask i ≤ rank mask j := by
  induction hle with
  | refl => exact Nat.le_refl _
  | step _ ih =>
    rw [rank_succ]
    exact Nat.le_add_right_of_le ih

theorem rank_lt_rank (set : mask.getLsbD i = true) (hlt : i < j) : rank mask i < rank mask j := by
  have step : rank mask (i + 1) = rank mask i + 1 := by rw [rank_succ, set]; rfl
  have upper : rank mask (i + 1) ≤ rank mask j := rank_mono mask hlt
  omega

theorem rank_lt_popcount (set : mask.getLsbD i = true) : rank mask i < popcount mask := by
  rw [popcount_eq_rank]
  exact rank_lt_rank set (BitVec.lt_of_getLsbD set)

theorem rank_le_popcount (mask : BitVec w) (hi : i ≤ w) :
    rank mask i ≤ popcount mask := by
  rw [popcount_eq_rank]
  exact rank_mono mask hi

theorem popcount_le (mask : BitVec w) : popcount mask ≤ w :=
  BitVec.toNat_cpop_le mask

theorem rank_injective (hi : mask.getLsbD i = true) (hj : mask.getLsbD j = true)
    (same : rank mask i = rank mask j) : i = j := by
  rcases Nat.lt_trichotomy i j with hlt | heq | hgt
  · have := rank_lt_rank hi hlt
    omega
  · exact heq
  · have := rank_lt_rank hj hgt
    omega

/-! ## The masks the source computes ranks with -/

/-- Mask with only bit `i` set. -/
def bit (w i : Nat) : BitVec w := BitVec.twoPow w i

theorem getLsbD_bit (hi : i < w) (j : Nat) :
    (bit w i).getLsbD j = decide (i = j) := by
  simp [bit, BitVec.getLsbD_twoPow, hi]

theorem and_bit_ne_zero (mask : BitVec w) (i : Nat) :
    mask &&& bit w i ≠ 0#w ↔ mask.getLsbD i = true := by
  rw [bit, BitVec.and_twoPow]
  by_cases set : mask.getLsbD i = true
  · have hi := BitVec.lt_of_getLsbD set
    have nonzero : BitVec.twoPow w i ≠ 0#w := by
      intro zero
      have := congrArg (fun mask => mask.getLsbD i) zero
      simp [hi] at this
    simp [set, nonzero]
  · simp [set]

theorem and_bit_eq_zero (mask : BitVec w) (i : Nat) :
    mask &&& bit w i = 0#w ↔ mask.getLsbD i = false := by
  rw [← not_iff_not, ← ne_eq, and_bit_ne_zero]
  simp

theorem getLsbD_bit_sub_one (hi : i < w) (j : Nat) :
    (bit w i - 1#w).getLsbD j = decide (j < i) := by
  have value : (bit w i - 1#w).toNat = 2 ^ i - 1 := by
    have one : (1#w).toNat = 1 := by
      have := @Nat.one_lt_two_pow w (by omega)
      simpa using Nat.mod_eq_of_lt this
    have pow : (bit w i).toNat = 2 ^ i := BitVec.toNat_twoPow_of_lt hi
    have positive := Nat.two_pow_pos i
    rw [BitVec.toNat_sub_of_le (by rw [BitVec.le_def, one, pow]; exact positive), one, pow]
  rw [BitVec.getLsbD, value, Nat.testBit_two_pow_sub_one]

theorem popcount_of_below {part : BitVec w} (hi : i ≤ w)
    (below : ∀ j, part.getLsbD j = (mask.getLsbD j && decide (j < i))) :
    popcount part = rank mask i := by
  have masked : ∀ j, rank part j = rank mask (min i j) := by
    intro j
    induction j with
    | zero => simp
    | succ j ih =>
      rw [rank_succ, ih, below]
      by_cases less : j < i
      · rw [Nat.min_eq_right (Nat.le_of_lt less), Nat.min_eq_right less, rank_succ]
        simp [less]
      · rw [Nat.min_eq_left (by omega), Nat.min_eq_left (by omega)]
        simp [less]
  rw [popcount_eq_rank, masked, Nat.min_eq_left hi]

/-- `popcount(mask & (bit - 1))` is the rank of the slot. -/
theorem popcount_and_below (mask : BitVec w) (hi : i < w) :
    popcount (mask &&& (bit w i - 1#w)) = rank mask i := by
  refine popcount_of_below (Nat.le_of_lt hi) fun j => ?_
  rw [BitVec.getLsbD_and, getLsbD_bit_sub_one hi]

/-- `~((bit << 1) - 1)` has the slots after the one of the bit. -/
theorem getLsbD_not_bit_shiftLeft_sub_one (hi : i < w) (j : Nat) :
    (~~~((bit w i <<< 1) - 1#w)).getLsbD j = (decide (j < w) && decide (i < j)) := by
  have shifted : ∀ k, k < w → (bit w i <<< 1).getLsbD k = decide (i + 1 = k) := by
    intro k hk
    rw [BitVec.getLsbD_shiftLeft, getLsbD_bit hi]
    rcases Nat.eq_zero_or_pos k with rfl | positive
    · simp
    · simp only [hk, decide_true, Bool.true_and, show ¬ k < 1 by omega, decide_false, Bool.not_false,
        decide_eq_decide]
      omega
  rw [BitVec.getLsbD_not]
  rcases Nat.lt_or_ge (i + 1) w with inside | last
  · have next : bit w i <<< 1 = bit w (i + 1) := by
      apply BitVec.eq_of_getLsbD_eq
      intro k hk
      rw [shifted k hk, getLsbD_bit inside]
    rw [next, getLsbD_bit_sub_one inside, ← decide_not]
    congr 1
    exact decide_eq_decide.mpr (by omega)
  · -- the bit is shifted out
    have gone : bit w i <<< 1 = 0#w := by
      apply BitVec.eq_of_getLsbD_eq
      intro k hk
      rw [shifted k hk, BitVec.getLsbD_zero]
      exact decide_eq_false (by omega)
    rw [gone, BitVec.zero_sub, BitVec.neg_one_eq_allOnes, BitVec.getLsbD_allOnes]
    by_cases inside : j < w
    · simp only [inside, decide_true, Bool.not_true, Bool.and_false, Bool.true_and]
      exact (decide_eq_false (by omega)).symm
    · simp only [inside, decide_false, Bool.false_and]

/-- `popcount(mask & ~(bit - 1))` counts the slot and everything after it. -/
theorem popcount_and_above (mask : BitVec w) (hi : i < w) :
    popcount (mask &&& ~~~(bit w i - 1#w)) = popcount mask - rank mask i := by
  have masked : ∀ j, j ≤ w →
      rank (mask &&& ~~~(bit w i - 1#w)) j + rank mask (min i j) = rank mask j := by
    intro j hj
    induction j with
    | zero => simp
    | succ j ih =>
      have prior := ih (Nat.le_of_succ_le hj)
      rw [rank_succ, rank_succ, BitVec.getLsbD_and, BitVec.getLsbD_not,
        getLsbD_bit_sub_one hi]
      by_cases below : j < i
      · rw [Nat.min_eq_right (Nat.le_of_lt below)] at prior
        rw [Nat.min_eq_right below, rank_succ]
        simp [below]
        omega
      · rw [Nat.min_eq_left (by omega)] at prior
        rw [Nat.min_eq_left (by omega)]
        simp [below, show j < w by omega]
        omega
  have whole := masked w (Nat.le_refl w)
  rw [Nat.min_eq_left (Nat.le_of_lt hi)] at whole
  rw [popcount_eq_rank, popcount_eq_rank]
  omega

theorem getLsbD_or_bit (mask : BitVec w) (hi : i < w) (j : Nat) :
    (mask ||| bit w i).getLsbD j = (mask.getLsbD j || decide (i = j)) := by
  rw [BitVec.getLsbD_or, getLsbD_bit hi]

theorem getLsbD_xor_bit (mask : BitVec w) (hi : i < w) (j : Nat) :
    (mask ^^^ bit w i).getLsbD j = (mask.getLsbD j != decide (i = j)) := by
  rw [BitVec.getLsbD_xor, getLsbD_bit hi]

theorem getLsbD_and_not_bit (mask : BitVec w) (hi : i < w) (j : Nat) :
    (mask &&& ~~~bit w i).getLsbD j = (mask.getLsbD j && !decide (i = j)) := by
  rw [BitVec.getLsbD_and, BitVec.getLsbD_not, getLsbD_bit hi]
  by_cases inside : j < w
  · simp [inside]
  · simp [BitVec.getLsbD_of_ge mask j (Nat.le_of_not_lt inside)]

theorem or_bit_of_set (set : mask.getLsbD i = true) :
    mask ||| bit w i = mask := by
  apply BitVec.eq_of_getLsbD_eq
  intro j _
  rw [getLsbD_or_bit mask (BitVec.lt_of_getLsbD set)]
  by_cases same : i = j
  · rw [← same, set, Bool.true_or]
  · simp [same]

/-- Setting a clear bit moves the ranks above it up by one. -/
theorem rank_or_bit (hi : i < w) (clear : mask.getLsbD i = false) (j : Nat) :
    rank (mask ||| bit w i) j = if i < j then rank mask j + 1 else rank mask j := by
  induction j with
  | zero => simp
  | succ j ih =>
    rw [rank_succ, rank_succ, ih, getLsbD_or_bit mask hi]
    rcases Nat.lt_trichotomy i j with hlt | heq | hgt
    · simp [hlt, show i < j + 1 by omega, show i ≠ j by omega]
      omega
    · subst heq
      simp [clear]
    · simp [show ¬ i < j by omega, show ¬ i < j + 1 by omega, show i ≠ j by omega]

/-- Clearing a set bit moves the ranks above it down by one. -/
theorem rank_xor_bit (set : mask.getLsbD i = true) (j : Nat) :
    rank (mask ^^^ bit w i) j = if i < j then rank mask j - 1 else rank mask j := by
  have hi := BitVec.lt_of_getLsbD set
  induction j with
  | zero => simp
  | succ j ih =>
    rw [rank_succ, rank_succ, ih, getLsbD_xor_bit mask hi]
    rcases Nat.lt_trichotomy i j with hlt | heq | hgt
    · have := rank_lt_rank set hlt
      simp [hlt, show i < j + 1 by omega, show i ≠ j by omega]
      omega
    · subst heq
      simp [set]
    · simp [show ¬ i < j by omega, show ¬ i < j + 1 by omega, show i ≠ j by omega]

theorem popcount_or_bit (hi : i < w) (clear : mask.getLsbD i = false) :
    popcount (mask ||| bit w i) = popcount mask + 1 := by
  rw [popcount_eq_rank, popcount_eq_rank, rank_or_bit hi clear, if_pos hi]

theorem popcount_xor_bit (set : mask.getLsbD i = true) :
    popcount (mask ^^^ bit w i) + 1 = popcount mask := by
  have hi := BitVec.lt_of_getLsbD set
  have positive := rank_lt_rank set hi
  rw [popcount_eq_rank, popcount_eq_rank, rank_xor_bit set, if_pos hi]
  omega

theorem popcount_add_lt {other : BitVec w} (hi : i < w)
    (disjoint : ∀ j, mask.getLsbD j = true → other.getLsbD j = false)
    (clear : mask.getLsbD i = false) (otherClear : other.getLsbD i = false) :
    popcount mask + popcount other < w := by
  have below : ∀ j, rank mask j + rank other j + (if i < j then 1 else 0) ≤ j := by
    intro j
    induction j with
    | zero => simp
    | succ j ih =>
      have apart := disjoint j
      rw [rank_succ, rank_succ]
      rcases Nat.lt_trichotomy i j with before | here | after
      · rw [if_pos before] at ih
        rw [if_pos (Nat.lt_succ_of_lt before)]
        cases set : mask.getLsbD j <;> cases otherSet : other.getLsbD j <;>
          simp [set, otherSet] at apart ⊢ <;> omega
      · subst here
        rw [if_neg (Nat.lt_irrefl _)] at ih
        rw [if_pos (Nat.lt_succ_self _), clear, otherClear]
        simpa using ih
      · rw [if_neg (Nat.lt_asymm after)] at ih
        rw [if_neg (by omega)]
        cases set : mask.getLsbD j <;> cases otherSet : other.getLsbD j <;>
          simp [set, otherSet] at apart ⊢ <;> omega
  have whole := below w
  rw [if_pos hi] at whole
  rw [popcount_eq_rank, popcount_eq_rank]
  exact whole

theorem rank_bit (hi : i < w) (j : Nat) :
    rank (bit w i) j = if i < j then 1 else 0 := by
  have clear : (0#w).getLsbD i = false := by simp
  have zero : ∀ j, rank (0#w) j = 0 := by
    intro j
    induction j with
    | zero => rfl
    | succ j ih => rw [rank_succ, ih]; simp
  have grown := rank_or_bit hi clear j
  rw [BitVec.zero_or, zero] at grown
  exact grown

theorem eq_bit_of_and_sub_one (nonzero : mask ≠ 0#w) (single : mask &&& (mask - 1#w) = 0#w) :
    ∃ i, i < w ∧ mask = bit w i := by
  have positive : 0 < mask.toNat := by
    rcases Nat.eq_zero_or_pos mask.toNat with zero | positive
    · exact absurd (BitVec.eq_of_toNat_eq zero) nonzero
    · exact positive
  have wide : 1 < 2 ^ w := Nat.lt_of_le_of_lt positive mask.isLt
  have one : (1#w).toNat = 1 := by simpa using Nat.mod_eq_of_lt wide
  have value : mask.toNat &&& (mask.toNat - 1) = 0 := by
    have cleared := congrArg BitVec.toNat single
    rw [BitVec.toNat_and, BitVec.toNat_sub_of_le (by rw [BitVec.le_def, one]; exact positive),
      one] at cleared
    simpa using cleared
  obtain ⟨i, power⟩ :=
    (Nat.and_sub_one_eq_zero_iff_isPowerOfTwo (Nat.pos_iff_ne_zero.mp positive)).mp value
  have hi : i < w := by
    have bound := mask.isLt
    rw [power] at bound
    exact (Nat.pow_lt_pow_iff_right (by decide)).mp bound
  refine ⟨i, hi, BitVec.eq_of_toNat_eq ?_⟩
  rw [power, bit, BitVec.toNat_twoPow_of_lt hi]

/-! ## Reading and updating the packed storage -/

/-- Value stored for slot `i`, if the slot is occupied. -/
def get? (mask : BitVec w) (cells : List α) (i : Nat) : Option α :=
  if mask.getLsbD i then cells[rank mask i]? else none

theorem get?_of_clear (clear : mask.getLsbD i = false) (cells : List α) :
    get? mask cells i = none := by
  simp [get?, clear]

theorem get?_of_set (set : mask.getLsbD i = true) (cells : List α) :
    get? mask cells i = cells[rank mask i]? := by
  simp [get?, set]

theorem exists_of_set (packed : cells.length = popcount mask) (set : mask.getLsbD i = true) :
    ∃ value, cells[rank mask i]? = some value := by
  have bound : rank mask i < cells.length := packed ▸ rank_lt_popcount set
  exact ⟨cells[rank mask i], List.getElem?_eq_getElem bound⟩

theorem get?_insertIdx (hi : i < w) (packed : cells.length = popcount mask)
    (clear : mask.getLsbD i = false) (value : α) (j : Nat) :
    get? (mask ||| bit w i) (cells.insertIdx (rank mask i) value) j =
      if j = i then some value else get? mask cells j := by
  have bound : rank mask i ≤ cells.length :=
    packed ▸ rank_le_popcount mask (Nat.le_of_lt hi)
  unfold get?
  rw [getLsbD_or_bit mask hi, rank_or_bit hi clear]
  rcases Nat.lt_trichotomy j i with hlt | heq | hgt
  · by_cases set : mask.getLsbD j = true
    · have lower := rank_lt_rank set hlt
      simp [set, show ¬ i < j by omega, show j ≠ i by omega,
        List.getElem?_insertIdx_of_lt lower]
    · simp [set, show j ≠ i by omega, show i ≠ j by omega]
  · subst heq
    simp [List.getElem?_insertIdx_self, Nat.not_lt.mpr bound]
  · by_cases set : mask.getLsbD j = true
    · have upper := rank_mono mask (Nat.le_of_lt hgt)
      simp only [set, Bool.true_or, if_true, hgt, show ¬ j = i by omega, if_false]
      rw [List.getElem?_insertIdx_of_gt (by omega), Nat.add_sub_cancel]
    · simp [set, show j ≠ i by omega, show i ≠ j by omega]

theorem get?_eraseIdx (set : mask.getLsbD i = true) (j : Nat) :
    get? (mask ^^^ bit w i) (cells.eraseIdx (rank mask i)) j =
      if j = i then none else get? mask cells j := by
  have hi := BitVec.lt_of_getLsbD set
  unfold get?
  rw [getLsbD_xor_bit mask hi, rank_xor_bit set]
  rcases Nat.lt_trichotomy j i with hlt | heq | hgt
  · by_cases occupied : mask.getLsbD j = true
    · have lower := rank_lt_rank occupied hlt
      simp [occupied, show ¬ i < j by omega, show j ≠ i by omega, show i ≠ j by omega,
        List.getElem?_eraseIdx_of_lt lower]
    · simp [occupied, show j ≠ i by omega, show i ≠ j by omega]
  · subst heq
    simp [set]
  · by_cases occupied : mask.getLsbD j = true
    · have upper := rank_lt_rank set hgt
      simp only [occupied, show ¬ j = i by omega, show ¬ i = j by omega, decide_false,
        hgt, if_true, if_false, bne_iff_ne, ne_eq, Bool.true_eq_false, not_false_eq_true]
      rw [List.getElem?_eraseIdx_of_ge (by omega), Nat.sub_add_cancel (by omega)]
    · simp [occupied, show j ≠ i by omega, show i ≠ j by omega]

theorem get?_set (packed : cells.length = popcount mask) (set : mask.getLsbD i = true) (value : α)
    (j : Nat) :
    get? mask (cells.set (rank mask i) value) j =
      if j = i then some value else get? mask cells j := by
  have bound : rank mask i < cells.length := packed ▸ rank_lt_popcount set
  unfold get?
  by_cases same : j = i
  · subst same
    simp [set, bound]
  · by_cases occupied : mask.getLsbD j = true
    · have distinct : rank mask i ≠ rank mask j :=
        fun heq => same (rank_injective set occupied heq).symm
      simp [occupied, same, List.getElem?_set_ne distinct]
    · simp [occupied, same]

end PackedArray
