import Mathlib.Data.Set.Card

/-!
# Threads at a place

Each thread of a system is at a place of its code.  When one thread moves, the number of
threads at a place changes by the one that enters or leaves it.
-/

namespace ThreadPlaces

open Function (update update_of_ne update_self)

variable {Thread Place : Type} [DecidableEq Thread]

/-- The threads at the place. -/
def threadsAt (places : Thread → Place) (place : Place) : Set Thread :=
  {thread | places thread = place}

omit [DecidableEq Thread] in
@[simp]
theorem mem_threadsAt {places : Thread → Place} {place : Place} {thread : Thread} :
    thread ∈ threadsAt places place ↔ places thread = place := Iff.rfl

omit [DecidableEq Thread] in
theorem threadsAt_const {start place : Place} (away : start ≠ place) :
    threadsAt (fun _ : Thread => start) place = ∅ :=
  Set.eq_empty_of_forall_notMem fun _ there => away there

variable {places : Thread → Place} {thread : Thread} {place new : Place}

theorem threadsAt_enter :
    threadsAt (update places thread place) place =
      insert thread (threadsAt places place) := by
  ext other
  by_cases same : other = thread
  · rw [mem_threadsAt, same, update_self]
    exact iff_of_true rfl (Set.mem_insert _ _)
  · rw [mem_threadsAt, update_of_ne same, Set.mem_insert_iff, or_iff_right same,
      mem_threadsAt]

theorem threadsAt_leave (away : new ≠ place) :
    threadsAt (update places thread new) place = threadsAt places place \ {thread} := by
  ext other
  by_cases same : other = thread
  · rw [mem_threadsAt, same, update_self]
    exact iff_of_false away fun mem => mem.2 rfl
  · rw [mem_threadsAt, update_of_ne same, Set.mem_sdiff, mem_threadsAt]
    exact (and_iff_left same).symm

theorem threadsAt_elsewhere (before : places thread ≠ place) (after : new ≠ place) :
    threadsAt (update places thread new) place = threadsAt places place := by
  rw [threadsAt_leave after]
  exact Set.sdiff_singleton_eq_self before

theorem ncard_enter (finite : (threadsAt places place).Finite) (before : places thread ≠ place) :
    (threadsAt (update places thread place) place).Finite ∧
      (threadsAt (update places thread place) place).ncard =
        (threadsAt places place).ncard + 1 := by
  rw [threadsAt_enter]
  exact ⟨finite.insert thread, Set.ncard_insert_of_notMem before finite⟩

theorem ncard_leave (finite : (threadsAt places place).Finite) (before : places thread = place)
    (after : new ≠ place) :
    (threadsAt (update places thread new) place).Finite ∧
      (threadsAt (update places thread new) place).ncard + 1 =
        (threadsAt places place).ncard := by
  rw [threadsAt_leave after]
  exact ⟨finite.sdiff, Set.ncard_sdiff_singleton_add_one before finite⟩

omit [DecidableEq Thread] in
theorem eq_of_ncard_le_one {other : Thread} (finite : (threadsAt places place).Finite)
    (one : (threadsAt places place).ncard ≤ 1) (here : places thread = place)
    (there : places other = place) : thread = other :=
  (Set.ncard_le_one finite).mp one thread here other there

omit [DecidableEq Thread] in
theorem ncard_pos (finite : (threadsAt places place).Finite) :
    0 < (threadsAt places place).ncard ↔ ∃ thread, places thread = place :=
  Set.ncard_pos finite

/-- What at most one thread has at its place, one thread that moves may get if no other one has
it. -/
theorem once_update {ι : Type} {P : Place → ι → Prop}
    (once : ∀ thread thread' i, P (places thread) i → P (places thread') i → thread = thread')
    (fresh : ∀ i, P new i → ∀ other, other ≠ thread → ¬ P (places other) i) :
    ∀ first second i, P (update places thread new first) i →
      P (update places thread new second) i → first = second := by
  intro first second i has has'
  by_cases same : first = thread
  · by_cases same' : second = thread
    · exact same.trans same'.symm
    · rw [same, update_self] at has
      rw [update_of_ne same'] at has'
      exact absurd has' (fresh i has second same')
  · rw [update_of_ne same] at has
    by_cases same' : second = thread
    · rw [same', update_self] at has'
      exact absurd has (fresh i has' first same)
    · rw [update_of_ne same'] at has'
      exact once first second i has has'

end ThreadPlaces
