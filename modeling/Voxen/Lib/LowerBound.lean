import Mathlib.Data.List.Basic

/-!
# Lower bound search

Binary search for the end of the leading part of a sequence that meets a condition,
and with it the lookup of a key in a list that is sorted by its keys.
-/

namespace LowerBound

variable {α : Type}

/-- `std::lower_bound` on the `count` positions from `first` on. -/
def search (before : Nat → Bool) (first count : Nat) : Nat :=
  if count = 0 then first
  else if before (first + count / 2) then
    search before (first + count / 2 + 1) (count - (count / 2 + 1))
  else search before first (count / 2)
termination_by count

/-- The search separates the positions that meet the condition from those that do not. -/
theorem search_spec (before : Nat → Bool) (first count : Nat)
    (initial : ∀ i j, i ≤ j → before j = true → before i = true) :
    first ≤ search before first count ∧ search before first count ≤ first + count ∧
      ∀ i, first ≤ i → i < first + count →
        (i < search before first count ↔ before i = true) := by
  induction first, count using search.induct before with
  | case1 first =>
    rw [search, if_pos rfl]
    exact ⟨Nat.le_refl _, Nat.le_refl _, fun i low high => absurd high (Nat.not_lt.mpr low)⟩
  | case2 first count notEmpty isBefore ih =>
    rw [search, if_neg notEmpty, if_pos isBefore]
    obtain ⟨low, high, inside⟩ := ih
    refine ⟨by omega, by omega, fun i iLow iHigh => ?_⟩
    by_cases right : first + count / 2 + 1 ≤ i
    · exact inside i right (by omega)
    · exact ⟨fun _ => initial i _ (by omega) isBefore, fun _ => by omega⟩
  | case3 first count notEmpty notBefore ih =>
    rw [search, if_neg notEmpty, if_neg notBefore]
    obtain ⟨low, high, inside⟩ := ih
    refine ⟨low, by omega, fun i iLow iHigh => ?_⟩
    by_cases left : i < first + count / 2
    · exact inside i iLow left
    · exact ⟨fun less => by omega,
        fun isBefore => absurd (initial _ i (by omega) isBefore) notBefore⟩

/-- Find the entry with a key in a list sorted by its keys. -/
def find (entries : List α) (key : α → Nat) (target : Nat) : Option α :=
  let found := search (fun i => entries[i]?.any fun entry => decide (key entry < target)) 0
    entries.length
  entries[found]?.filter fun entry => decide (key entry = target)

/-- In a sorted list the search finds exactly the entries with the key. -/
theorem find_eq_some_iff {entries : List α} {key : α → Nat} {target : Nat} {entry : α}
    (sorted : entries.Pairwise fun first second => key first < key second) :
    find entries key target = some entry ↔ entry ∈ entries ∧ key entry = target := by
  have increasing : ∀ i j (iBound : i < entries.length) (jBound : j < entries.length), i < j →
      key entries[i] < key entries[j] := List.pairwise_iff_getElem.mp sorted
  let before : Nat → Bool := fun i => entries[i]?.any fun entry => decide (key entry < target)
  have before_iff : ∀ i, before i = true ↔
      ∃ bound : i < entries.length, key entries[i] < target := by
    intro i
    by_cases bound : i < entries.length
    · simp [before, bound]
    · simp [before, bound]
  have initial : ∀ i j, i ≤ j → before j = true → before i = true := by
    intro i j le isBefore
    rw [before_iff] at isBefore ⊢
    obtain ⟨bound, less⟩ := isBefore
    refine ⟨by omega, ?_⟩
    rcases Nat.lt_or_eq_of_le le with lt | rfl
    · exact Nat.lt_trans (increasing i j (by omega) bound lt) less
    · exact less
  obtain ⟨-, high, inside⟩ := search_spec before 0 entries.length initial
  rw [Nat.zero_add] at high
  have found_eq : find entries key target =
      entries[search before 0 entries.length]?.filter fun entry => decide (key entry = target) :=
    rfl
  rw [found_eq, Option.filter_eq_some_iff, List.getElem?_eq_some_iff, decide_eq_true_eq]
  constructor
  · rintro ⟨⟨bound, rfl⟩, same⟩
    exact ⟨List.getElem_mem bound, same⟩
  · rintro ⟨mem, same⟩
    refine ⟨?_, same⟩
    obtain ⟨i, bound, rfl⟩ := List.getElem_of_mem mem
    have atLeast : ¬ i < search before 0 entries.length := by
      rw [inside i (Nat.zero_le i) (by omega), before_iff]
      rintro ⟨_, less⟩
      exact Nat.ne_of_lt less same
    have atMost : ¬ search before 0 entries.length < i := by
      intro lt
      have notBefore : ¬ before (search before 0 entries.length) = true := by
        rw [← inside _ (Nat.zero_le _) (by omega)]
        exact Nat.lt_irrefl _
      rw [before_iff] at notBefore
      exact notBefore ⟨by omega, same ▸ increasing _ i (by omega) bound lt⟩
    have isFound : search before 0 entries.length = i := by omega
    exact ⟨by omega, by simp only [isFound]⟩

end LowerBound
