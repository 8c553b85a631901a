import Mathlib.Data.List.Basic

/-!
# The futex and atomic exchanges

A 32-bit word that threads exchange atomically, and the threads that sleep on it in the kernel.
-/

namespace Voxen.Os

/-- The word at the address, and the threads in `FUTEX_WAIT` on it. -/
structure Futex (Thread : Type) where
  word : BitVec 32 := 0#32
  sleepers : List Thread := []
  deriving DecidableEq

namespace Futex

variable {Thread : Type} (futex : Futex Thread)

/-- `store`, as a part of the atomic operations. -/
def set (word : BitVec 32) : Futex Thread := { futex with word }

/-- `compare_exchange_weak`, which may fail spuriously: the word after it, or what it leaves in
`expected`. -/
def compareExchangeWeak (expected desired : BitVec 32) (fails : Bool) :
    Except (BitVec 32) (Futex Thread) :=
  if futex.word = expected ∧ fails = false then .ok (futex.set desired) else .error futex.word

theorem compareExchangeWeak_cases (expected desired : BitVec 32) (fails : Bool) :
    (futex.word = expected ∧ fails = false ∧
      futex.compareExchangeWeak expected desired fails = .ok (futex.set desired)) ∨
    futex.compareExchangeWeak expected desired fails = .error futex.word := by
  by_cases done : futex.word = expected ∧ fails = false
  · exact Or.inl ⟨done.1, done.2, if_pos done⟩
  · exact Or.inr (if_neg done)

/-- `compare_exchange_strong`. -/
def compareExchangeStrong (expected desired : BitVec 32) : Except (BitVec 32) (Futex Thread) :=
  futex.compareExchangeWeak expected desired false

theorem compareExchangeStrong_cases (expected desired : BitVec 32) :
    (futex.word = expected ∧
      futex.compareExchangeStrong expected desired = .ok (futex.set desired)) ∨
    futex.word ≠ expected ∧
      futex.compareExchangeStrong expected desired = .error futex.word := by
  by_cases done : futex.word = expected
  · exact Or.inl ⟨done, if_pos ⟨done, rfl⟩⟩
  · exact Or.inr ⟨done, if_neg fun both => done both.1⟩

/-- `Futex::waitInfinite`: the thread falls asleep if the word has the value. -/
def waitInfinite (thread : Thread) (value : BitVec 32) : Futex Thread :=
  if futex.word = value then { futex with sleepers := thread :: futex.sleepers } else futex

@[simp]
theorem waitInfinite_word (thread : Thread) (value : BitVec 32) :
    (futex.waitInfinite thread value).word = futex.word := by
  unfold waitInfinite
  split <;> rfl

variable [DecidableEq Thread]

/-- The thread wakes up, also spuriously. -/
def wake (thread : Thread) : Futex Thread :=
  { futex with sleepers := futex.sleepers.filter (· ≠ thread) }

/-- `Futex::wakeSingle`: which of the threads wakes up is the kernel's choice. -/
def wakeSingle : Option Thread → Option (Futex Thread)
  | some thread => if thread ∈ futex.sleepers then some (futex.wake thread) else none
  | none => if futex.sleepers = [] then some futex else none

omit [DecidableEq Thread] in
/-- `Futex::wakeAll`. -/
def wakeAll : Futex Thread := { futex with sleepers := [] }

theorem wakeSingle_cases {woken : Option Thread} {futex' : Futex Thread}
    (done : futex.wakeSingle woken = some futex') :
    (futex.sleepers = [] ∧ futex' = futex) ∨
      ∃ sleeping ∈ futex.sleepers, futex' = futex.wake sleeping := by
  cases woken with
  | none =>
    simp only [wakeSingle, Option.ite_none_right_eq_some, Option.some.injEq] at done
    exact Or.inl ⟨done.1, done.2.symm⟩
  | some sleeping =>
    simp only [wakeSingle, Option.ite_none_right_eq_some, Option.some.injEq] at done
    exact Or.inr ⟨sleeping, done.1, done.2.symm⟩

@[simp]
theorem mem_wake {thread other : Thread} :
    other ∈ (futex.wake thread).sleepers ↔ other ∈ futex.sleepers ∧ other ≠ thread := by
  simp [wake]

end Futex

end Voxen.Os
