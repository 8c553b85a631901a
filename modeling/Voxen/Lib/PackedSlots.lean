import Voxen.Lib.PackedArray
import Voxen.Lib.CountedLoop

/-!
# Packed arrays in raw slot memory

The occupied slots of a mask are stored side by side in memory that also has
cells no slot uses.  A gap is opened or closed by swapping neighbouring cells.
-/

namespace PackedSlots

open PackedArray (popcount rank bit)

variable {w : Nat} {α : Type}

/-- Exchange the contents of two cells. -/
def swap (cells : Nat → α) (i j : Nat) : Nat → α :=
  fun k => if k = i then cells j else if k = j then cells i else cells k

/-- Put `fresh` behind the `after` cells that follow `index` and carry it down. -/
def openGap (cells : Nat → α) (index after : Nat) (fresh : α) : Nat → α :=
  CountedLoop.run after (Function.update cells (index + after) fresh)
    fun cells i => swap cells (index + after - i) (index + after - i - 1)

/-- Carry the cell at `index` up behind the `after` cells that follow it. -/
def closeGap (cells : Nat → α) (index after : Nat) : Nat → α :=
  CountedLoop.run after cells fun cells i => swap cells (index + i) (index + i + 1)

theorem openGap_apply (cells : Nat → α) (index after : Nat) (fresh : α) (k : Nat) :
    openGap cells index after fresh k =
      if k < index then cells k
      else if k = index then fresh
      else if k ≤ index + after then cells (k - 1) else cells k := by
  have carried := CountedLoop.run_invariant after
    (Function.update cells (index + after) fresh)
    (fun cells i => swap cells (index + after - i) (index + after - i - 1))
    (fun i current => ∀ k, current k =
      if k < index + after - i then cells k
      else if k = index + after - i then fresh
      else if k ≤ index + after then cells (k - 1) else cells k)
    (fun k => by
      rcases Nat.lt_trichotomy k (index + after) with before | here | behind
      · simp [before, Nat.ne_of_lt before]
      · simp [here]
      · simp [Nat.ne_of_gt behind, show ¬ k < index + after by omega,
          show ¬ k ≤ index + after by omega])
    (fun i current hi inv k => by
      simp only [swap, inv]
      split_ifs <;> first | rfl | (congr 1; omega))
  have final := carried k
  rwa [Nat.add_sub_cancel] at final

theorem closeGap_apply (cells : Nat → α) (index after : Nat) (k : Nat) :
    closeGap cells index after k =
      if k < index then cells k
      else if k < index + after then cells (k + 1)
      else if k = index + after then cells index else cells k := by
  have carried := CountedLoop.run_invariant after cells
    (fun cells i => swap cells (index + i) (index + i + 1))
    (fun i current => ∀ k, current k =
      if k < index then cells k
      else if k < index + i then cells (k + 1)
      else if k = index + i then cells index else cells k)
    (fun k => by
      split_ifs with below inside here
      · rfl
      · omega
      · rw [here, Nat.add_zero]
      · rfl)
    (fun i current hi inv k => by
      simp only [swap, inv]
      split_ifs <;> first | rfl | (congr 1; omega))
  exact carried k

/-! ## Cells in use -/

/-- Exactly the first `n` cells are in use. -/
def Filled (Used : α → Prop) (cells : Nat → α) (n : Nat) : Prop :=
  ∀ k, Used (cells k) ↔ k < n

section Filled

variable {Used : α → Prop} {cells : Nat → α} {n index : Nat} {value : α}

theorem Filled.update (filled : Filled Used cells n) (inside : index < n) (used : Used value) :
    Filled Used (Function.update cells index value) n := by
  intro k
  by_cases same : k = index
  · rw [same, Function.update_self]
    exact iff_of_true used inside
  · rw [Function.update_of_ne same]
    exact filled k

/-- A gap that was opened and filled takes one cell more. -/
theorem Filled.openGap (filled : Filled Used cells n) (inside : index ≤ n) (used : Used value)
    (fresh : α) :
    Filled Used (Function.update (openGap cells index (n - index) fresh) index value) (n + 1) := by
  intro k
  rcases Nat.lt_trichotomy k index with before | rfl | behind
  · rw [Function.update_of_ne (Nat.ne_of_lt before), openGap_apply, if_pos before, filled]
    omega
  · rw [Function.update_self]
    exact iff_of_true used (Nat.lt_succ_of_le inside)
  · rw [Function.update_of_ne (Nat.ne_of_gt behind), openGap_apply, if_neg (by omega),
      if_neg (by omega)]
    split
    · rw [filled]
      omega
    · rw [filled]
      omega

/-- A gap that is closed over an unused cell leaves one cell less. -/
theorem Filled.closeGap (filled : Filled Used cells n) (inside : index < n)
    (unused : ¬ Used value) :
    Filled Used (closeGap (Function.update cells index value) index (n - index)) (n - 1) := by
  intro k
  rw [closeGap_apply]
  split_ifs with before moved last
  · rw [Function.update_of_ne (Nat.ne_of_lt before), filled]
    omega
  · rw [Function.update_of_ne (by omega), filled]
    omega
  · rw [Function.update_self]
    exact iff_of_false unused (by omega)
  · rw [Function.update_of_ne (by omega), filled]
    omega

/-- A gap that was opened and is closed again over an unused cell. -/
theorem Filled.closeGap_openGap (filled : Filled Used cells n) (inside : index ≤ n)
    (unused : ¬ Used value) (fresh : α) :
    Filled Used (PackedSlots.closeGap (Function.update
      (PackedSlots.openGap cells index (n - index) fresh) index value) index (n - index)) n := by
  intro k
  rw [closeGap_apply]
  split_ifs with before moved last
  · rw [Function.update_of_ne (Nat.ne_of_lt before), openGap_apply, if_pos before, filled]
  · rw [Function.update_of_ne (by omega), openGap_apply, if_neg (by omega), if_neg (by omega),
      if_pos (by omega), Nat.add_sub_cancel, filled]
  · rw [Function.update_self]
    exact iff_of_false unused (by omega)
  · rw [Function.update_of_ne (by omega), openGap_apply, if_neg (by omega), if_neg (by omega),
      if_neg (by omega), filled]

end Filled

/-! ## The slots of a mask -/

/-- Content of slot `i`, if the slot is occupied. -/
def get? (mask : BitVec w) (cells : Nat → α) (i : Nat) : Option α :=
  if mask.getLsbD i then some (cells (rank mask i)) else none

variable {i v : Nat} {mask : BitVec w}

theorem get?_of_set (set : mask.getLsbD i = true) (cells : Nat → α) :
    get? mask cells i = some (cells (rank mask i)) := by
  rw [get?, if_pos set]

theorem get?_of_clear (clear : mask.getLsbD i = false) (cells : Nat → α) :
    get? mask cells i = none := by
  rw [get?, if_neg (by rw [clear]; exact Bool.false_ne_true)]

theorem set_of_get? {cells : Nat → α} {value : α} (holds : get? mask cells i = some value) :
    mask.getLsbD i = true := by
  unfold get? at holds
  split at holds
  · assumption
  · cases holds

theorem get?_congr {cells cells' : Nat → α} (same : ∀ k, k < popcount mask → cells' k = cells k)
    (i : Nat) :
    get? mask cells' i = get? mask cells i := by
  unfold get?
  split
  · rename_i set
    rw [same _ (PackedArray.rank_lt_popcount set)]
  · rfl

theorem get?_update (set : mask.getLsbD i = true) (cells : Nat → α) (value : α) (j : Nat) :
    get? mask (Function.update cells (rank mask i) value) j =
      if j = i then some value else get? mask cells j := by
  unfold get?
  by_cases same : j = i
  · subst same
    simp [set]
  · by_cases occupied : mask.getLsbD j = true
    · have distinct : rank mask j ≠ rank mask i :=
        fun heq => same (PackedArray.rank_injective occupied set heq)
      simp [occupied, same, Function.update_of_ne distinct]
    · simp [occupied, same]

theorem get?_openGap (hi : i < w) (clear : mask.getLsbD i = false) (cells : Nat → α) (fresh : α)
    (j : Nat) :
    get? (mask ||| bit w i)
        (openGap cells (rank mask i) (popcount mask - rank mask i) fresh) j =
      if j = i then some fresh else get? mask cells j := by
  have whole := PackedArray.rank_le_popcount mask (Nat.le_of_lt hi)
  unfold get?
  rw [PackedArray.getLsbD_or_bit mask hi, PackedArray.rank_or_bit hi clear]
  simp only [openGap_apply]
  rcases Nat.lt_trichotomy j i with before | here | behind
  · by_cases set : mask.getLsbD j = true
    · have lower := PackedArray.rank_lt_rank set before
      simp [set, show ¬ i < j by omega, show j ≠ i by omega, lower]
    · simp [set, show j ≠ i by omega, show i ≠ j by omega]
  · subst here
    simp
  · by_cases set : mask.getLsbD j = true
    · have upper := PackedArray.rank_mono mask (Nat.le_of_lt behind)
      have inside := PackedArray.rank_lt_popcount set
      simp [set, behind, show j ≠ i by omega, show ¬ rank mask j + 1 < rank mask i by omega,
        show rank mask j + 1 ≠ rank mask i by omega,
        show rank mask j + 1 ≤ rank mask i + (popcount mask - rank mask i) by omega]
    · simp [set, show j ≠ i by omega, show i ≠ j by omega]

theorem get?_update_openGap (hi : i < w) (clear : mask.getLsbD i = false) (cells : Nat → α)
    (fresh value : α) (j : Nat) :
    get? (mask ||| bit w i) (Function.update
        (openGap cells (rank mask i) (popcount mask - rank mask i) fresh) (rank mask i) value) j =
      if j = i then some value else get? mask cells j := by
  have place : rank mask i = rank (mask ||| bit w i) i := by
    rw [PackedArray.rank_or_bit hi clear, if_neg (Nat.lt_irrefl i)]
  have set : (mask ||| bit w i).getLsbD i = true := by
    rw [PackedArray.getLsbD_or_bit mask hi]
    simp
  have updated := get?_update set
    (openGap cells (rank mask i) (popcount mask - rank mask i) fresh) value j
  rw [← place] at updated
  rw [updated, get?_openGap hi clear]
  split <;> rfl

theorem get?_closeGap (set : mask.getLsbD i = true) (cells : Nat → α) (j : Nat) :
    get? (mask ^^^ bit w i)
        (closeGap cells (rank mask i) (popcount mask - rank mask i)) j =
      if j = i then none else get? mask cells j := by
  have hi := BitVec.lt_of_getLsbD set
  have whole := PackedArray.rank_lt_popcount set
  unfold get?
  rw [PackedArray.getLsbD_xor_bit mask hi, PackedArray.rank_xor_bit set]
  simp only [closeGap_apply]
  rcases Nat.lt_trichotomy j i with before | here | behind
  · by_cases occupied : mask.getLsbD j = true
    · have lower := PackedArray.rank_lt_rank occupied before
      simp [occupied, show ¬ i < j by omega, show j ≠ i by omega, show i ≠ j by omega, lower]
    · simp [occupied, show j ≠ i by omega, show i ≠ j by omega]
  · subst here
    simp [set]
  · by_cases occupied : mask.getLsbD j = true
    · have upper := PackedArray.rank_lt_rank set behind
      have inside := PackedArray.rank_lt_popcount occupied
      have step : rank mask j - 1 + 1 = rank mask j := by omega
      simp [occupied, behind, show j ≠ i by omega, show i ≠ j by omega,
        show ¬ rank mask j - 1 < rank mask i by omega,
        show rank mask j - 1 < rank mask i + (popcount mask - rank mask i) by omega, step]
    · simp [occupied, show j ≠ i by omega, show i ≠ j by omega]

theorem get?_closeGap_update (set : mask.getLsbD i = true) (cells : Nat → α) (value : α) (j : Nat) :
    get? (mask ^^^ bit w i) (closeGap (Function.update cells (rank mask i) value)
        (rank mask i) (popcount mask - rank mask i)) j =
      if j = i then none else get? mask cells j := by
  rw [get?_closeGap set]
  split
  · rfl
  · rename_i differ
    rw [get?_update set, if_neg differ]

theorem get?_closeGap_openGap (mask : BitVec w) (hi : i < w) (cells : Nat → α) (fresh other : α)
    (j : Nat) :
    get? mask (closeGap (Function.update
        (openGap cells (rank mask i) (popcount mask - rank mask i) fresh)
        (rank mask i) other) (rank mask i) (popcount mask - rank mask i)) j =
      get? mask cells j := by
  have whole := PackedArray.rank_le_popcount mask (Nat.le_of_lt hi)
  apply get?_congr
  intro k hk
  rw [closeGap_apply]
  split_ifs with below inside here
  · rw [Function.update_of_ne (Nat.ne_of_lt below), openGap_apply, if_pos below]
  · rw [Function.update_of_ne (by omega), openGap_apply, if_neg (by omega),
      if_neg (by omega), if_pos (by omega), Nat.add_sub_cancel]
  · omega
  · omega

/-! ## Two masks over one memory -/

theorem rank_append_low (high : BitVec v) (low : BitVec w) (hi : i ≤ w) :
    rank (high ++ low) i = rank low i := by
  apply PackedArray.rank_congr
  intro j hj
  rw [BitVec.getLsbD_append, if_pos (Nat.lt_of_lt_of_le hj hi)]

theorem rank_append_high (high : BitVec v) (low : BitVec w) (i : Nat) :
    rank (high ++ low) (w + i) = popcount low + rank high i := by
  induction i with
  | zero =>
    rw [Nat.add_zero, rank_append_low high low (Nat.le_refl w),
      PackedArray.popcount_eq_rank, PackedArray.rank_zero, Nat.add_zero]
  | succ i ih =>
    rw [← Nat.add_assoc, PackedArray.rank_succ, ih, PackedArray.rank_succ,
      BitVec.getLsbD_append, if_neg (by omega), Nat.add_sub_cancel_left, Nat.add_assoc]

theorem popcount_append (high : BitVec v) (low : BitVec w) :
    popcount (high ++ low) = popcount low + popcount high := by
  rw [PackedArray.popcount_eq_rank high, ← rank_append_high, PackedArray.popcount_eq_rank]
  exact congrArg (rank (high ++ low)) (Nat.add_comm v w)

end PackedSlots
