import Mathlib.Data.List.GetD
import Voxen.Lib.CountedLoop

/-!
# Rows in a flat buffer

Rows of one size that lie one after the other in a list: cutting them off, writing them
at an offset, turning their order round and setting their cells in pairs.
-/

namespace FlatRows

variable {α : Type}

/-- The first `count` pieces of `size` cells. -/
def rows (size : Nat) : Nat → List α → List (List α)
  | 0, _ => []
  | count + 1, cells => cells.take size :: rows size count (cells.drop size)

@[simp]
theorem length_rows (size count : Nat) (cells : List α) :
    (rows size count cells).length = count := by
  induction count generalizing cells with
  | zero => rfl
  | succ count ih => simp [rows, ih]

theorem length_of_mem_rows {size count : Nat} {cells row : List α}
    (enough : count * size ≤ cells.length) (mem : row ∈ rows size count cells) :
    row.length = size := by
  induction count generalizing cells with
  | zero => cases mem
  | succ count ih =>
    rw [Nat.succ_mul] at enough
    rcases List.mem_cons.mp mem with rfl | later
    · rw [List.length_take]
      omega
    · exact ih (by rw [List.length_drop]; omega) later

theorem flatten_rows (size count : Nat) (cells : List α) :
    (rows size count cells).flatten = cells.take (count * size) := by
  induction count generalizing cells with
  | zero => simp [rows]
  | succ count ih =>
    rw [rows, List.flatten_cons, ih, Nat.succ_mul, Nat.add_comm, List.take_add]

/-- The cells of lines of one size are found by the line and the place in it. -/
theorem getElem?_flatten {size : Nat} {lines : List (List α)}
    (sized : ∀ line ∈ lines, line.length = size) (line : Nat) {place : Nat}
    (less : place < size) :
    lines.flatten[line * size + place]? = lines[line]?.bind fun cells => cells[place]? := by
  induction lines generalizing line with
  | nil => simp
  | cons first lines ih =>
    have length := sized first List.mem_cons_self
    cases line with
    | zero => simp [List.getElem?_append_left (length.symm ▸ less : place < first.length)]
    | succ line =>
      rw [List.flatten_cons, List.getElem?_append_right (by rw [length, Nat.succ_mul]; omega),
        List.getElem?_cons_succ,
        ← ih (fun cells mem => sized cells (List.mem_cons_of_mem _ mem)), length, Nat.succ_mul]
      congr 1
      omega

theorem getElem?_rows {size count : Nat} {cells : List α} {line place : Nat}
    (inside : line < count) (less : place < size) (enough : count * size ≤ cells.length) :
    ((rows size count cells)[line]?.bind fun row => row[place]?) =
      cells[line * size + place]? := by
  have within : line * size + place < count * size := by
    have := Nat.mul_le_mul_right size (Nat.succ_le_of_lt inside)
    rw [Nat.succ_mul] at this
    omega
  rw [← getElem?_flatten (fun row mem => length_of_mem_rows enough mem) line less, flatten_rows,
    List.getElem?_take_of_lt within]

/-- The buffer with its rows in the opposite order. -/
def flipRows (size count : Nat) (cells : List α) : List α :=
  (rows size count cells).reverse.flatten

theorem getElem?_flipRows {size count : Nat} {cells : List α} {line place : Nat}
    (inside : line < count) (less : place < size) (enough : count * size ≤ cells.length) :
    (flipRows size count cells)[line * size + place]? =
      cells[(count - 1 - line) * size + place]? := by
  rw [flipRows, getElem?_flatten (fun row mem =>
      length_of_mem_rows enough (List.mem_reverse.mp mem)) line less,
    List.getElem?_reverse (by rwa [length_rows]), length_rows,
    getElem?_rows (by omega) less enough]

theorem length_flipRows {size count : Nat} {cells : List α}
    (enough : count * size ≤ cells.length) :
    (flipRows size count cells).length = count * size := by
  rw [flipRows, List.length_flatten, List.map_reverse, List.sum_reverse, ← List.length_flatten,
    flatten_rows, List.length_take, Nat.min_eq_left enough]

theorem flipRows_one {size : Nat} {cells : List α} (all : cells.length = size) :
    flipRows size 1 cells = cells := by
  simp [flipRows, rows, ← all]

section Kept

/-- Rows cut off at a size, in one of the orders, with `blank` cells in the rest of the
buffer. -/
def kept (size count : Nat) (cells : List α) (blank : α) (flip : Bool) : List α :=
  (if flip then (rows size count cells).reverse else rows size count cells).flatten ++
    List.replicate (cells.length - count * size) blank

variable {size count : Nat} {cells : List α} {blank : α}

theorem div_mod_cell (line : Nat) {place : Nat} (less : place < size) :
    (line * size + place) / size = line ∧ (line * size + place) % size = place := by
  rw [Nat.mul_comm, Nat.mul_add_div (Nat.zero_lt_of_lt less), Nat.div_eq_of_lt less,
    Nat.mul_add_mod, Nat.mod_eq_of_lt less]
  exact ⟨rfl, rfl⟩

theorem cell_lt {line place : Nat} (inside : line < count) (less : place < size) :
    line * size + place < count * size := by
  have := Nat.mul_le_mul_right size (Nat.succ_le_of_lt inside)
  rw [Nat.succ_mul] at this
  omega

theorem getD_flipRows (enough : count * size ≤ cells.length) {place : Nat}
    (inside : place < count * size) :
    (flipRows size count cells).getD place blank =
      cells.getD ((count - 1 - place / size) * size + place % size) blank := by
  have positive : 0 < size := Nat.pos_of_mul_pos_left (Nat.zero_lt_of_lt inside)
  have line : place / size < count := (Nat.div_lt_iff_lt_mul positive).mpr inside
  have cell := getElem?_flipRows line (Nat.mod_lt place positive) enough
  rw [Nat.mul_comm (place / size), Nat.div_add_mod] at cell
  rw [List.getD_eq_getElem?_getD, List.getD_eq_getElem?_getD, cell]

theorem kept_flatten_length (enough : count * size ≤ cells.length) (flip : Bool) :
    (if flip then (rows size count cells).reverse else rows size count cells).flatten.length =
      count * size := by
  cases flip with
  | false =>
    rw [if_neg Bool.false_ne_true, flatten_rows, List.length_take, Nat.min_eq_left enough]
  | true => exact length_flipRows enough

theorem length_kept (enough : count * size ≤ cells.length) (flip : Bool) :
    (kept size count cells blank flip).length = cells.length := by
  rw [kept, List.length_append, kept_flatten_length enough, List.length_replicate]
  omega

theorem getD_replicate_self (length place : Nat) :
    (List.replicate length blank).getD place blank = blank := by
  rw [List.getD_eq_getElem?_getD, List.getElem?_replicate]
  split <;> rfl

theorem getD_kept (enough : count * size ≤ cells.length) (flip : Bool) (place : Nat) :
    (kept size count cells blank flip).getD place blank =
      if place < count * size then
        cells.getD (if flip then (count - 1 - place / size) * size + place % size else place) blank
      else blank := by
  by_cases inside : place < count * size
  · rw [if_pos inside, kept, List.getD_append _ _ _ _ (by rwa [kept_flatten_length enough])]
    cases flip with
    | false =>
      simp only [Bool.false_eq_true, if_false]
      rw [flatten_rows, List.getD_eq_getElem?_getD, List.getElem?_take_of_lt inside,
        List.getD_eq_getElem?_getD]
    | true =>
      simp only [if_true]
      exact getD_flipRows enough inside
  · rw [if_neg inside, kept, List.getD_append_right _ _ _ _ (by
      rw [kept_flatten_length enough]; omega), getD_replicate_self]

theorem ext_getD (blank : α) {other : List α} (length : cells.length = other.length)
    (same : ∀ place, cells.getD place blank = other.getD place blank) : cells = other := by
  apply List.ext_getElem length
  intro place inside inside'
  have cell := same place
  rwa [List.getD_eq_getElem _ _ inside, List.getD_eq_getElem _ _ inside'] at cell

theorem kept_all (length : cells.length = count * size) (flip : Bool) :
    kept size count cells blank flip = if flip then flipRows size count cells else cells := by
  rw [kept, length, Nat.sub_self, List.replicate_zero, List.append_nil]
  cases flip with
  | false =>
    simp only [Bool.false_eq_true, if_false]
    rw [flatten_rows, ← length, List.take_length]
  | true => rfl

/-- A cell of the first half of the rows whose mirror image is there too is in the middle row. -/
theorem middle_row {whole place : Nat} (wide : 2 * size ≤ whole)
    (inside : place < count * size)
    (mirrored : (count - 1 - place / whole) * whole + place % whole < count * size) :
    (count - 1 - place / whole) * whole + place % whole = place ∧
      (count - 1) * size ≤ place := by
  have positive : 0 < size := Nat.pos_of_mul_pos_left (Nat.zero_lt_of_lt inside)
  have parts := Nat.div_add_mod place whole
  have early : ∀ row, row * whole < count * size → 2 * row < count := by
    intro row before
    have twice := Nat.mul_le_mul_left row wide
    have : 2 * row * size < count * size := by
      rw [Nat.mul_comm 2, Nat.mul_assoc]
      omega
    exact Nat.lt_of_mul_lt_mul_right this
  have first := early (place / whole) (by rw [Nat.mul_comm]; omega)
  have last := early (count - 1 - place / whole) (by omega)
  have middle : count - 1 - place / whole = place / whole := by omega
  rw [middle]
  constructor
  · rw [Nat.mul_comm]
    exact parts
  · have twice := Nat.mul_le_mul_left (place / whole) wide
    have rows : (count - 1) * size = place / whole * (2 * size) := by
      rw [← Nat.mul_assoc, Nat.mul_comm _ 2, show count - 1 = 2 * (place / whole) by omega]
    rw [rows]
    rw [Nat.mul_comm whole] at parts
    omega

/-- Of rows that were cut off below half of their size, both orders are only right when
there is nothing to be lost and nothing to be moved. -/
theorem kept_short_iff {whole : Nat} (length : cells.length = count * whole)
    (wide : 2 * size < whole) (some : 0 < count) (flip : Bool) :
    kept size count cells blank flip = cells ∧
        kept size count cells blank (!flip) = flipRows whole count cells ↔
      ∀ place, (if count = 1 then size else 0) ≤ place → cells.getD place blank = blank := by
  have enough : count * size ≤ cells.length := by
    rw [length]
    exact Nat.mul_le_mul_left count (by omega)
  have beyond : ∀ place, cells.length ≤ place → cells.getD place blank = blank :=
    fun place outside => List.getD_eq_default _ _ outside
  by_cases single : count = 1
  · subst single
    rw [Nat.one_mul] at length enough
    have same : ∀ flip, kept size 1 cells blank flip = kept size 1 cells blank false := by
      intro flip
      cases flip <;> rfl
    rw [same flip, same (!flip), ← length, flipRows_one rfl, and_self, if_pos rfl]
    constructor
    · intro all place later
      rw [← all, getD_kept (by omega), if_neg (by omega)]
    · intro nothing
      refine ext_getD blank (length_kept (by omega) false) fun place => ?_
      rw [getD_kept (by omega)]
      by_cases inside : place < 1 * size
      · rw [if_pos inside]
        rfl
      · rw [if_neg inside, nothing place (by omega)]
  · rw [if_neg single]
    have whole_enough : count * whole ≤ cells.length := Nat.le_of_eq length.symm
    constructor
    · rintro ⟨forth, back⟩ place -
      apply Classical.byContradiction
      intro held
      have early : ∀ place, cells.getD place blank ≠ blank → place < count * size := by
        intro place held
        rw [← forth, getD_kept enough] at held
        apply Classical.byContradiction
        intro outside
        exact held (if_neg outside)
      -- a cell that is held is mirrored at itself, in the last of the rows that were cut off
      have settled : ∀ place, cells.getD place blank ≠ blank →
          (count - 1 - place / whole) * whole + place % whole = place ∧
            (count - 1) * size ≤ place := by
        intro place held
        have inside := early place held
        have positive : 0 < whole := by omega
        have line : place / whole < count :=
          (Nat.div_lt_iff_lt_mul positive).mpr (Nat.lt_of_lt_of_le inside (by omega))
        have row := div_mod_cell (count - 1 - place / whole) (Nat.mod_lt place positive)
        refine middle_row (Nat.le_of_lt wide) inside ?_
        apply Classical.byContradiction
        intro outside
        have mirror : (count - 1 - place / whole) * whole + place % whole < count * whole :=
          cell_lt (Nat.lt_of_le_of_lt (Nat.sub_le _ _) (Nat.sub_one_lt_of_lt some))
            (Nat.mod_lt place positive)
        have lost := congrArg (List.getD · ((count - 1 - place / whole) * whole + place % whole)
          blank) back
        rw [getD_kept enough, if_neg outside, getD_flipRows whole_enough mirror, row.1, row.2,
          Nat.sub_sub_self (Nat.le_sub_one_of_lt line),
          Nat.mul_comm (place / whole), Nat.div_add_mod] at lost
        exact held lost.symm
      have inside := early place held
      have positive : 0 < size := Nat.pos_of_mul_pos_left (Nat.zero_lt_of_lt inside)
      obtain ⟨itself, late⟩ := settled place held
      have line : place / size = count - 1 :=
        Nat.div_eq_of_lt_le late (by rwa [show count - 1 + 1 = count by omega])
      have flipped : (kept size count cells blank true).getD place blank =
          cells.getD place blank := by
        cases flip with
        | true => rw [forth]
        | false =>
          rw [show kept size count cells blank true = flipRows whole count cells from back,
            getD_flipRows whole_enough (by omega), itself]
      rw [getD_kept enough, if_pos inside, if_pos rfl, line, Nat.sub_self, Nat.zero_mul,
        Nat.zero_add] at flipped
      have first := (settled (place % size) (by rwa [flipped])).2
      have below := Nat.mod_lt place positive
      have one := Nat.mul_le_mul_right size (show 1 ≤ count - 1 by omega)
      omega
    · intro nothing
      have blanks : ∀ flip, kept size count cells blank flip = cells := by
        intro flip
        refine ext_getD blank (length_kept enough flip) fun place => ?_
        rw [getD_kept enough, nothing place (Nat.zero_le _)]
        split
        · exact nothing _ (Nat.zero_le _)
        · rfl
      refine ⟨blanks flip, (blanks _).trans (ext_getD blank ?_ fun place => ?_)⟩
      · rw [length_flipRows whole_enough, length]
      · rw [nothing place (Nat.zero_le _)]
        by_cases inside : place < count * whole
        · rw [getD_flipRows whole_enough inside, nothing _ (Nat.zero_le _)]
        · rw [List.getD_eq_default _ _ (by rw [length_flipRows whole_enough]; omega)]

end Kept

/-- The cells from `offset` on replaced by as many new ones. -/
def writeAt (cells : List α) (offset : Nat) (new : List α) : List α :=
  cells.take offset ++ new ++ cells.drop (offset + new.length)

theorem writeAt_middle (before old after new : List α) (fits : old.length = new.length) :
    writeAt (before ++ old ++ after) before.length new = before ++ new ++ after := by
  rw [writeAt, List.append_assoc before old, List.take_left, ← fits, ← List.length_append,
    ← List.append_assoc, List.drop_left]

section Pairs

variable (first second : Nat → α)

/-- `first 0, second 0, first 1, second 1, …` -/
def pairs (count : Nat) : List α :=
  (List.range count).flatMap fun k => [first k, second k]

@[simp]
theorem length_pairs (count : Nat) : (pairs first second count).length = 2 * count := by
  simp [pairs, Nat.mul_comm]

theorem pairs_succ (count : Nat) :
    pairs first second (count + 1) = pairs first second count ++ [first count, second count] := by
  simp [pairs, List.range_succ]

theorem pairs_getElem? {count k : Nat} (less : k < count) :
    (pairs first second count)[2 * k]? = some (first k) ∧
      (pairs first second count)[2 * k + 1]? = some (second k) := by
  induction count with
  | zero => omega
  | succ count ih =>
    rw [pairs_succ]
    rcases Nat.lt_succ_iff_lt_or_eq.mp less with before | rfl
    · rw [List.getElem?_append_left (by rw [length_pairs]; omega),
        List.getElem?_append_left (by rw [length_pairs]; omega)]
      exact ih before
    · constructor
      · rw [List.getElem?_append_right (by simp), length_pairs, Nat.sub_self]
        rfl
      · rw [List.getElem?_append_right (by rw [length_pairs]; omega), length_pairs,
          Nat.add_sub_cancel_left]
        rfl

theorem pairs_congr {first' second' : Nat → α} {count : Nat}
    (same : ∀ k < count, first k = first' k ∧ second k = second' k) :
    pairs first second count = pairs first' second' count := by
  induction count with
  | zero => rfl
  | succ count ih =>
    rw [pairs_succ, pairs_succ, ih fun k less => same k (Nat.lt_succ_of_lt less),
      (same count (Nat.lt_succ_self count)).1, (same count (Nat.lt_succ_self count)).2]

theorem getD_pairs {count k : Nat} {default : α} (less : k < count) :
    (pairs first second count).getD (2 * k) default = first k ∧
      (pairs first second count).getD (2 * k + 1) default = second k := by
  rw [List.getD_eq_getElem?_getD, List.getD_eq_getElem?_getD, (pairs_getElem? _ _ less).1,
    (pairs_getElem? _ _ less).2]
  exact ⟨rfl, rfl⟩

/-- A loop that sets two cells after the other writes the pairs. -/
theorem run_set_pairs {offset count : Nat} {cells : List α}
    (room : offset + 2 * count ≤ cells.length) :
    CountedLoop.run count cells (fun cells k =>
        (cells.set (2 * k + offset) (first k)).set (2 * k + offset + 1) (second k)) =
      writeAt cells offset (pairs first second count) := by
  induction count with
  | zero => simp [writeAt, pairs]
  | succ count ih =>
    have before :
        (cells.take offset ++ pairs first second count).length = 2 * count + offset := by
      rw [List.length_append, List.length_take, length_pairs]
      omega
    have rest : cells.drop (offset + 2 * count) =
        cells[offset + 2 * count] :: cells[offset + 2 * count + 1] ::
          cells.drop (offset + 2 * (count + 1)) := by
      rw [List.drop_eq_getElem_cons (by omega), List.drop_eq_getElem_cons (by omega)]
      rfl
    rw [CountedLoop.run_succ, ih (by omega), writeAt, writeAt, length_pairs, length_pairs, rest,
      List.set_append_right _ _ (Nat.le_of_eq before), before, Nat.sub_self, List.set_cons_zero,
      List.set_append_right _ _ (by rw [before]; omega), before, Nat.add_sub_cancel_left,
      List.set_cons_succ, List.set_cons_zero, pairs_succ]
    simp

end Pairs

/-- The cells of a list, two by two. -/
theorem pairs_of_list {cells : List α} (default : α) (count : Nat)
    (even : cells.length = 2 * count) :
    pairs (fun k => cells.getD (2 * k) default) (fun k => cells.getD (2 * k + 1) default) count =
      cells := by
  apply List.ext_getElem?
  intro i
  by_cases less : i < 2 * count
  · obtain ⟨k, rfl | rfl⟩ : ∃ k, i = 2 * k ∨ i = 2 * k + 1 := ⟨i / 2, by omega⟩
    · rw [(pairs_getElem? _ _ (by omega)).1, List.getD_eq_getElem?_getD,
        List.getElem?_eq_getElem (by omega), Option.getD_some]
    · rw [(pairs_getElem? _ _ (by omega)).2, List.getD_eq_getElem?_getD,
        List.getElem?_eq_getElem (by omega), Option.getD_some]
  · rw [List.getElem?_eq_none (by rw [length_pairs]; omega), List.getElem?_eq_none (by omega)]

end FlatRows
