import Mathlib.Data.Nat.Bitwise
import Voxen.Lib.PackedArray
import Voxen.Lib.ThreadPlaces
import Voxen.Os.FutexRWLock
import Voxen.Lib.FinSizes

/-!
# Runs of the futex readers–writer lock

The highest bit of the word counts the threads that hold the lock exclusively and the low bits
those that share it, and one of the two counts is zero.  The waiting bit between them does not
matter for that.
-/

namespace Voxen.Os.FutexRWLock

open ThreadPlaces

variable {Thread : Type} {state : State Thread}

/-! ## The parts of the word -/

/-- The exclusive bit as a number. -/
def exclusives (word : BitVec 32) : Nat := word.toNat / 2 ^ 31

/-- The bits below the waiting bit. -/
def shares (word : BitVec 32) : Nat := word.toNat % 2 ^ 30

/-- The words differ in the waiting bit at most. -/
def SameHolders (word word' : BitVec 32) : Prop :=
  exclusives word' = exclusives word ∧ shares word' = shares word

section Word

variable {word : BitVec 32}

theorem exclusives_zero : exclusives 0#32 = 0 := by decide

theorem shares_zero : shares 0#32 = 0 := by decide

theorem exclusives_le_one (word : BitVec 32) : exclusives word ≤ 1 := by
  have bound := word.isLt
  unfold exclusives
  omega

theorem sameHolders_or : SameHolders word (word ||| waitingBit) := by
  have bit : waitingBit.toNat = 2 ^ 30 := by decide
  constructor
  · rw [exclusives, exclusives, BitVec.toNat_or, bit, ← Nat.shiftRight_eq_div_pow,
      Nat.shiftRight_or_distrib, ← Nat.shiftRight_eq_div_pow]
    exact Nat.or_zero _
  · rw [shares, shares, BitVec.toNat_or, bit, Nat.or_mod_two_pow, Nat.mod_self]
    exact Nat.or_zero _

theorem sameHolders_and_not : SameHolders word (word &&& ~~~waitingBit) := by
  have bits : (~~~waitingBit).toNat = 2 ^ 32 - 1 - 2 ^ 30 := by decide
  have bound := word.isLt
  constructor
  · rw [exclusives, exclusives, BitVec.toNat_and, bits, ← Nat.shiftRight_eq_div_pow,
      Nat.shiftRight_and_distrib, ← Nat.shiftRight_eq_div_pow]
    have high : (2 ^ 32 - 1 - 2 ^ 30) >>> 31 = 2 ^ 1 - 1 := by decide
    rw [high, Nat.and_two_pow_sub_one_eq_mod, Nat.shiftRight_eq_div_pow, Nat.mod_eq_of_lt]
    omega
  · have low : (2 ^ 32 - 1 - 2 ^ 30) % 2 ^ 30 = 2 ^ 30 - 1 := by decide
    rw [shares, shares, BitVec.toNat_and, bits, Nat.and_mod_two_pow, low,
      Nat.and_two_pow_sub_one_eq_mod, Nat.mod_mod]

theorem and_exclusiveBit_eq_zero : word &&& exclusiveBit = 0#32 ↔ exclusives word = 0 := by
  have bit : exclusiveBit = PackedArray.bit 32 31 := by decide
  have bound := word.isLt
  rw [bit, PackedArray.and_bit_eq_zero, BitVec.getLsbD, Nat.testBit_eq_decide_div_mod_eq,
    decide_eq_false_iff_not, exclusives]
  omega

theorem shares_add_one (fits : shares word + 1 < 2 ^ 30) :
    exclusives (word + 1#32) = exclusives word ∧ shares (word + 1#32) = shares word + 1 := by
  have bound := word.isLt
  unfold exclusives shares at *
  have next : (word + 1#32).toNat = word.toNat + 1 := by
    rw [BitVec.toNat_add, BitVec.toNat_ofNat]
    omega
  rw [next]
  omega

theorem shares_sub_one (some_share : 0 < shares word) :
    exclusives (word - 1#32) = exclusives word ∧ shares (word - 1#32) + 1 = shares word := by
  have bound := word.isLt
  unfold exclusives shares at *
  have next : (word - 1#32).toNat = word.toNat - 1 := by
    rw [BitVec.toNat_sub, BitVec.toNat_ofNat]
    omega
  rw [next]
  omega

end Word

/-! ## The invariant -/

/-- The counts of the word are the numbers of threads that hold the lock. -/
structure Inv (state : State Thread) : Prop where
  exclusive_finite : (threadsAt state.places .exclusive).Finite
  shared_finite : (threadsAt state.places .shared).Finite
  exclusive : (threadsAt state.places .exclusive).ncard = exclusives state.futex.word
  shared : (threadsAt state.places .shared).ncard = shares state.futex.word
  alone : exclusives state.futex.word = 0 ∨ shares state.futex.word = 0

theorem Inv.initial : Inv ({} : State Thread) := by
  have no_exclusive : threadsAt (fun _ : Thread => Place.idle) .exclusive = ∅ :=
    threadsAt_const nofun
  have no_shared : threadsAt (fun _ : Thread => Place.idle) .shared = ∅ := threadsAt_const nofun
  exact
    { exclusive_finite := no_exclusive ▸ Set.finite_empty
      shared_finite := no_shared ▸ Set.finite_empty
      exclusive := by rw [no_exclusive, Set.ncard_empty, exclusives_zero]
      shared := by rw [no_shared, Set.ncard_empty, shares_zero]
      alone := Or.inl exclusives_zero }

/-- A thread at this place does not hold the lock. -/
def Place.Outside : Place → Prop
  | .exclusive | .shared => False
  | _ => True

theorem Place.Outside.ne_exclusive {place : Place} (outside : place.Outside) :
    place ≠ .exclusive := by
  rintro rfl
  exact outside

theorem Place.Outside.ne_shared {place : Place} (outside : place.Outside) : place ≠ .shared := by
  rintro rfl
  exact outside

section Moves

variable [DecidableEq Thread] {futex : Futex Thread} {thread : Thread} {place : Place}

namespace Inv

variable (inv : Inv state)

include inv

/-- A thread moves outside the lock and changes at most the waiting bit. -/
theorem moves (before : (state.places thread).Outside) (after : place.Outside)
    (same : SameHolders state.futex.word futex.word) : Inv (state.move futex thread place) where
  exclusive_finite := by
    rw [State.move, threadsAt_elsewhere before.ne_exclusive after.ne_exclusive]
    exact inv.exclusive_finite
  shared_finite := by
    rw [State.move, threadsAt_elsewhere before.ne_shared after.ne_shared]
    exact inv.shared_finite
  exclusive := by
    rw [State.move, threadsAt_elsewhere before.ne_exclusive after.ne_exclusive, same.1]
    exact inv.exclusive
  shared := by
    rw [State.move, threadsAt_elsewhere before.ne_shared after.ne_shared, same.2]
    exact inv.shared
  alone := by
    rw [State.move, same.1, same.2]
    exact inv.alone

theorem takesExclusive (before : (state.places thread).Outside) (free : state.futex.word = 0#32)
    (exclusives_eq : exclusives futex.word = 1) (shares_eq : shares futex.word = 0) :
    Inv (state.move futex thread .exclusive) := by
  obtain ⟨finite, count⟩ := ncard_enter inv.exclusive_finite before.ne_exclusive
  have same := threadsAt_elsewhere before.ne_shared (show Place.exclusive ≠ .shared by nofun)
  have none_before := inv.exclusive
  have none_shared := inv.shared
  rw [free, exclusives_zero] at none_before
  rw [free, shares_zero] at none_shared
  exact
    { exclusive_finite := finite
      shared_finite := by
        rw [State.move, same]
        exact inv.shared_finite
      exclusive := by
        refine count.trans ?_
        rw [none_before]
        exact exclusives_eq.symm
      shared := by
        rw [State.move, same, none_shared]
        exact shares_eq.symm
      alone := Or.inr shares_eq }

theorem releasesExclusive (before : state.places thread = .exclusive) (after : place.Outside)
    (word : futex.word = 0#32) : Inv (state.move futex thread place) := by
  obtain ⟨finite, count⟩ := ncard_leave inv.exclusive_finite before after.ne_exclusive
  have same := threadsAt_elsewhere
    (show state.places thread ≠ .shared by rw [before]; nofun) after.ne_shared
  have exclusive := inv.exclusive
  have le_one := exclusives_le_one state.futex.word
  have none_shared : shares state.futex.word = 0 := inv.alone.resolve_left (by omega)
  exact
    { exclusive_finite := finite
      shared_finite := by
        rw [State.move, same]
        exact inv.shared_finite
      exclusive := by
        have none_left :
            (threadsAt (Function.update state.places thread place) .exclusive).ncard = 0 := by
          omega
        exact none_left.trans (exclusives_zero.symm.trans (congrArg exclusives word.symm))
      shared := by rw [State.move, same, inv.shared, none_shared, word, shares_zero]
      alone := Or.inl (word ▸ exclusives_zero) }

theorem takesShared (before : (state.places thread).Outside)
    (not_exclusive : exclusives state.futex.word = 0) (fits : shares state.futex.word + 1 < 2 ^ 30)
    (word : futex.word = state.futex.word + 1#32) : Inv (state.move futex thread .shared) := by
  obtain ⟨finite, count⟩ := ncard_enter inv.shared_finite before.ne_shared
  have same := threadsAt_elsewhere before.ne_exclusive (show Place.shared ≠ .exclusive by nofun)
  obtain ⟨exclusives_eq, shares_eq⟩ := shares_add_one fits
  rw [← word] at exclusives_eq shares_eq
  exact
    { exclusive_finite := by
        rw [State.move, same]
        exact inv.exclusive_finite
      shared_finite := finite
      exclusive := by
        rw [State.move, same, inv.exclusive]
        exact exclusives_eq.symm
      shared := by
        refine count.trans ?_
        rw [inv.shared]
        exact shares_eq.symm
      alone := Or.inl (exclusives_eq.trans not_exclusive) }

theorem releasesShared (before : state.places thread = .shared) (after : place.Outside)
    (word : futex.word = state.futex.word - 1#32) : Inv (state.move futex thread place) := by
  obtain ⟨finite, count⟩ := ncard_leave inv.shared_finite before after.ne_shared
  have same := threadsAt_elsewhere
    (show state.places thread ≠ .exclusive by rw [before]; nofun) after.ne_exclusive
  have shared := inv.shared
  have some_share : 0 < shares state.futex.word := by omega
  obtain ⟨exclusives_eq, shares_eq⟩ := shares_sub_one some_share
  rw [← word] at exclusives_eq shares_eq
  have not_exclusive := inv.alone.resolve_right (Nat.ne_of_gt some_share)
  exact
    { exclusive_finite := by
        rw [State.move, same]
        exact inv.exclusive_finite
      shared_finite := finite
      exclusive := by
        rw [State.move, same, inv.exclusive]
        exact exclusives_eq.symm
      shared := by
        change (threadsAt (Function.update state.places thread place) .shared).ncard =
          shares futex.word
        omega
      alone := Or.inl (exclusives_eq.trans not_exclusive) }

end Inv

end Moves

/-! ## One step -/

/-- The waiting bit of the word is set. -/
def Waiting (word : BitVec 32) : Prop := word &&& waitingBit ≠ 0#32

instance (word : BitVec 32) : Decidable (Waiting word) := inferInstanceAs (Decidable (_ ≠ _))

/-- A thread at this place neither holds the lock nor is about to wake others up. -/
def Place.Quiet : Place → Prop
  | .exclusive | .shared | .clear | .wakeSingle | .wakeAll => False
  | _ => True

/-- In a call of `waitInfinite`. -/
def Place.InWait : Place → Prop
  | .waited | .waitedShared => True
  | _ => False

/-- In the loop of `lock`. -/
def Place.InLock : Place → Prop
  | .mark _ | .wait _ | .waited | .acquire => True
  | _ => False

/-- The word that a thread is about to wait at has the waiting bit, and for a shared lock the
exclusive one. -/
def Place.Marked : Place → Prop
  | .wait desired => Waiting desired
  | .waitShared desired => Waiting desired ∧ exclusives desired = 1
  | _ => True

/-- What a step can do. -/
inductive Stepped [DecidableEq Thread] (state : State Thread) (action : Action Thread) :
    State Thread → Prop where
  | nothing : Stepped state action state
  | stays (thread : Thread) (place : Place)
      (awake : ¬ (state.places thread).InWait ∨ thread ∉ state.futex.sleepers)
      (before : (state.places thread).Quiet) (after : place.Quiet)
      (loops : (state.places thread).InLock → place.InLock) (marked : place.Marked) :
      Stepped state action (state.move state.futex thread place)
  /-- The thread inserts the waiting bit. -/
  | marks (thread : Thread) (place : Place) (awake : ¬ (state.places thread).InWait)
      (before : (state.places thread).Quiet) (after : place.Quiet) (marked : place.Marked)
      (unmarked : ¬ Waiting state.futex.word)
      (taken : action = .nextLock thread false ∧ state.places thread = .mark state.futex.word ∨
        exclusives state.futex.word = 1) :
      Stepped state action (state.move (state.futex.set (state.futex.word ||| waitingBit)) thread
        place)
  | sleeps (thread : Thread) (place : Place)
      (there : state.places thread = .wait state.futex.word ∧ place = .waited ∨
        state.places thread = .waitShared state.futex.word ∧ place = .waitedShared) :
      Stepped state action (state.move
        { state.futex with sleepers := thread :: state.futex.sleepers } thread place)
  | takesExclusive (thread : Thread) (word : BitVec 32) (awake : ¬ (state.places thread).InWait)
      (before : (state.places thread).Quiet) (free : state.futex.word = 0#32)
      (bits : word = exclusiveBit ∧ ¬ (state.places thread).InLock ∨
        word = exclusiveBit ||| waitingBit) :
      Stepped state action (state.move (state.futex.set word) thread .exclusive)
  | takesShared (thread : Thread) (awake : ¬ (state.places thread).InWait)
      (before : (state.places thread).Quiet) (apart : ¬ (state.places thread).InLock)
      (not_exclusive : exclusives state.futex.word = 0) :
      Stepped state action (state.move (state.futex.set (state.futex.word + 1#32)) thread .shared)
  | unlocks (thread : Thread) (there : state.places thread = .exclusive) :
      Stepped state action (state.move (state.futex.set 0#32) thread
        (if Waiting state.futex.word then .wakeAll else .idle))
  | leaves (thread : Thread) (there : state.places thread = .shared) :
      Stepped state action (state.move (state.futex.set (state.futex.word - 1#32)) thread
        (if Waiting state.futex.word then .clear else .idle))
  | clears (thread : Thread) (woken : Option Thread) (isNext : action = .nextOther thread woken)
      (there : state.places thread = .clear) :
      Stepped state action (state.move (state.futex.set (state.futex.word &&& ~~~waitingBit))
        thread .wakeSingle)
  | wakesAll (thread : Thread) (there : state.places thread = .wakeAll) :
      Stepped state action (state.move state.futex.wakeAll thread .idle)
  | wakesNone (thread : Thread) (there : state.places thread = .wakeSingle)
      (awake : state.futex.sleepers = []) :
      Stepped state action (state.move state.futex thread .idle)
  | wakesOne (thread sleeping : Thread) (there : state.places thread = .wakeSingle)
      (mem : sleeping ∈ state.futex.sleepers) :
      Stepped state action (state.move (state.futex.wake sleeping) thread .idle)
  | wakes (sleeping : Thread) (mem : sleeping ∈ state.futex.sleepers) :
      Stepped state action { state with futex := state.futex.wake sleeping }

section Step

variable [DecidableEq Thread] {thread : Thread} {action : Action Thread} {state' : State Thread}

theorem waiting_iff {word : BitVec 32} : Waiting word ↔ word.getLsbD 30 = true := by
  have bit : waitingBit = PackedArray.bit 32 30 := by decide
  rw [Waiting, bit, ne_eq, PackedArray.and_bit_eq_zero, Bool.not_eq_false]

theorem waiting_or (word : BitVec 32) : Waiting (word ||| waitingBit) := by
  have bit : waitingBit.getLsbD 30 = true := by decide
  rw [waiting_iff, BitVec.getLsbD_or, bit, Bool.or_true]

theorem or_waitingBit_of_waiting {word : BitVec 32} (waiting : Waiting word) :
    word ||| waitingBit = word := by
  have bit : waitingBit = PackedArray.bit 32 30 := by decide
  rw [bit]
  exact PackedArray.or_bit_of_set (waiting_iff.mp waiting)

theorem exclusives_of_and_ne_zero {word : BitVec 32} (locked : ¬ word &&& exclusiveBit = 0#32) :
    exclusives word = 1 := by
  have le_one := exclusives_le_one word
  have positive : exclusives word ≠ 0 := fun zero => locked (and_exclusiveBit_eq_zero.mpr zero)
  omega

theorem Stepped.goes {place place' : Place} (there : state.places thread = place)
    (awake : ¬ place.InWait ∨ thread ∉ state.futex.sleepers) (before : place.Quiet)
    (after : place'.Quiet) (loops : place.InLock → place'.InLock) (marked : place'.Marked) :
    Stepped state action (state.move state.futex thread place') :=
  .stays thread place' (there ▸ awake) (there ▸ before) after (there ▸ loops) marked

theorem Stepped.waits {desired : BitVec 32} {place place' : Place}
    (there : state.places thread = place)
    (which : place = .wait desired ∧ place' = .waited ∨
      place = .waitShared desired ∧ place' = .waitedShared) :
    Stepped state action (state.move (state.futex.waitInfinite thread desired) thread place') := by
  by_cases same : state.futex.word = desired
  · rw [Futex.waitInfinite, if_pos same]
    subst same
    exact .sleeps thread place' (there ▸ which)
  · rw [Futex.waitInfinite, if_neg same]
    rcases which with ⟨rfl, rfl⟩ | ⟨rfl, rfl⟩
    · exact .goes there (Or.inl id) trivial trivial id trivial
    · exact .goes there (Or.inl id) trivial trivial id trivial

theorem lockStep_stepped {fails : Bool} (stepped : lockStep state thread fails = some state') :
    Stepped state (.nextLock thread fails) state' := by
  unfold lockStep at stepped
  cases there : state.places thread with
  | mark expected =>
    simp only [there] at stepped
    split at stepped
    next marked =>
      cases stepped
      exact .goes there (Or.inl id) trivial trivial id (waiting_or expected)
    next unmarked =>
      rcases state.futex.compareExchangeWeak_cases expected (expected ||| waitingBit) fails with
        ⟨same, rfl, done⟩ | failed
      · rw [done] at stepped
        cases stepped
        subst same
        refine .marks thread _ (there ▸ id) (there ▸ trivial) trivial (waiting_or _) ?_
          (Or.inl ⟨rfl, there⟩)
        exact fun waiting => unmarked (or_waitingBit_of_waiting waiting).symm
      · rw [failed] at stepped
        cases stepped
        exact .goes there (Or.inl id) trivial trivial id trivial
  | wait desired =>
    simp only [there] at stepped
    cases stepped
    exact .waits there (Or.inl ⟨rfl, rfl⟩)
  | waited =>
    simp only [there] at stepped
    split at stepped
    case isTrue => cases stepped
    rename_i awake
    cases stepped
    exact .goes there (Or.inr awake) trivial trivial id trivial
  | acquire =>
    simp only [there] at stepped
    rcases state.futex.compareExchangeWeak_cases 0#32 (exclusiveBit ||| waitingBit) fails with
      ⟨free, -, done⟩ | failed
    · rw [done] at stepped
      cases stepped
      exact .takesExclusive thread _ (there ▸ id) (there ▸ trivial) free (Or.inr rfl)
    · rw [failed] at stepped
      cases stepped
      exact .goes there (Or.inl id) trivial trivial id trivial
  | _ =>
    simp only [there] at stepped
    cases stepped

theorem lockSharedStep_stepped {fails : Bool}
    (stepped : lockSharedStep state thread fails = some state') : Stepped state action state' := by
  unfold lockSharedStep at stepped
  cases there : state.places thread with
  | loadShared =>
    simp only [there] at stepped
    cases stepped
    exact .goes there (Or.inl id) trivial trivial id trivial
  | joinShared expected =>
    simp only [there] at stepped
    split at stepped
    next not_exclusive =>
      rcases state.futex.compareExchangeWeak_cases expected (expected + 1#32) fails with
        ⟨rfl, -, done⟩ | failed
      · rw [done] at stepped
        cases stepped
        exact .takesShared thread (there ▸ id) (there ▸ trivial) (there ▸ id)
          (and_exclusiveBit_eq_zero.mp not_exclusive)
      · rw [failed] at stepped
        cases stepped
        exact .goes there (Or.inl id) trivial trivial id trivial
    next locked =>
      have one := exclusives_of_and_ne_zero locked
      have marked : (Place.waitShared (expected ||| waitingBit)).Marked :=
        ⟨waiting_or expected, sameHolders_or.1.trans one⟩
      split at stepped
      next =>
        cases stepped
        exact .goes there (Or.inl id) trivial trivial id marked
      next unmarked =>
        rcases state.futex.compareExchangeWeak_cases expected (expected ||| waitingBit) fails
          with ⟨rfl, -, done⟩ | failed
        · rw [done] at stepped
          cases stepped
          refine .marks thread _ (there ▸ id) (there ▸ trivial) trivial marked ?_ (Or.inr one)
          exact fun waiting => unmarked (or_waitingBit_of_waiting waiting).symm
        · rw [failed] at stepped
          cases stepped
          exact .goes there (Or.inl id) trivial trivial id trivial
  | waitShared desired =>
    simp only [there] at stepped
    cases stepped
    exact .waits there (Or.inr ⟨rfl, rfl⟩)
  | waitedShared =>
    simp only [there] at stepped
    split at stepped
    case isTrue => cases stepped
    rename_i awake
    cases stepped
    exact .goes there (Or.inr awake) trivial trivial id trivial
  | _ =>
    simp only [there] at stepped
    cases stepped

theorem otherStep_stepped {woken : Option Thread}
    (stepped : otherStep state thread woken = some state') :
    Stepped state (.nextOther thread woken) state' := by
  unfold otherStep at stepped
  cases there : state.places thread with
  | tryShared expected tested =>
    simp only [there] at stepped
    rcases state.futex.compareExchangeStrong_cases expected (expected + 1#32) with
      ⟨rfl, done⟩ | ⟨-, failed⟩
    · rw [done] at stepped
      cases stepped
      exact .takesShared thread (there ▸ id) (there ▸ trivial) (there ▸ id)
        (and_exclusiveBit_eq_zero.mp tested)
    · rw [failed] at stepped
      cases stepped
      exact .goes there (Or.inl id) trivial trivial id trivial
  | wakeAll =>
    simp only [there] at stepped
    cases stepped
    exact .wakesAll thread there
  | clear =>
    simp only [there] at stepped
    cases stepped
    exact .clears thread woken rfl there
  | wakeSingle =>
    simp only [there] at stepped
    obtain ⟨futex, done, rfl⟩ := Option.map_eq_some_iff.mp stepped
    rcases state.futex.wakeSingle_cases done with ⟨awake, rfl⟩ | ⟨sleeping, mem, rfl⟩
    · exact .wakesNone thread there awake
    · exact .wakesOne thread sleeping there mem
  | _ =>
    simp only [there] at stepped
    cases stepped

theorem step_stepped (stepped : step state action = some state') :
    Stepped state action state' := by
  cases action with
  | lock thread =>
    simp only [step] at stepped
    split at stepped
    case isFalse => cases stepped
    rename_i there
    rcases state.futex.compareExchangeStrong_cases 0#32 exclusiveBit with
      ⟨free, done⟩ | ⟨-, failed⟩
    · rw [done] at stepped
      cases stepped
      exact .takesExclusive thread _ (there ▸ id) (there ▸ trivial) free
        (Or.inl ⟨rfl, there ▸ id⟩)
    · rw [failed] at stepped
      cases stepped
      exact .goes there (Or.inl id) trivial trivial False.elim trivial
  | tryLock thread =>
    simp only [step] at stepped
    split at stepped
    case isFalse => cases stepped
    rename_i there
    rcases state.futex.compareExchangeStrong_cases 0#32 exclusiveBit with
      ⟨free, done⟩ | ⟨-, failed⟩
    · rw [done] at stepped
      cases stepped
      exact .takesExclusive thread _ (there ▸ id) (there ▸ trivial) free
        (Or.inl ⟨rfl, there ▸ id⟩)
    · rw [failed] at stepped
      cases stepped
      exact .nothing
  | unlock thread =>
    simp only [step] at stepped
    split at stepped
    case isFalse => cases stepped
    rename_i there
    have unlocked : Stepped state (.unlock thread) _ := .unlocks thread there
    split at stepped
    next unmarked =>
      cases stepped
      rwa [if_neg (show ¬ Waiting _ from not_not.mpr unmarked)] at unlocked
    next waiting =>
      cases stepped
      rwa [if_pos (show Waiting _ from waiting)] at unlocked
  | lockShared thread =>
    simp only [step] at stepped
    split at stepped
    case isFalse => cases stepped
    rename_i there
    cases stepped
    exact .goes there (Or.inl id) trivial trivial False.elim trivial
  | tryLockShared thread =>
    simp only [step] at stepped
    split at stepped
    case isFalse => cases stepped
    rename_i there
    split at stepped
    next =>
      cases stepped
      exact .goes there (Or.inl id) trivial trivial False.elim trivial
    next =>
      cases stepped
      exact .nothing
  | unlockShared thread =>
    simp only [step] at stepped
    split at stepped
    case isFalse => cases stepped
    rename_i there
    have left : Stepped state (.unlockShared thread) _ := .leaves thread there
    split at stepped
    next unmarked =>
      cases stepped
      rwa [if_neg (show ¬ Waiting _ from not_not.mpr unmarked)] at left
    next waiting =>
      cases stepped
      rwa [if_pos (show Waiting _ from waiting)] at left
  | nextLock thread fails => exact lockStep_stepped stepped
  | nextLockShared thread fails => exact lockSharedStep_stepped stepped
  | nextOther thread woken => exact otherStep_stepped stepped
  | spuriousWake thread =>
    simp only [step] at stepped
    split at stepped
    case isFalse => cases stepped
    rename_i mem
    cases stepped
    exact .wakes thread mem

/-- What a step can do to the holders of the lock. -/
inductive Changes [DecidableEq Thread] (state : State Thread) : State Thread → Prop where
  | moves (thread : Thread) (futex : Futex Thread) (place : Place)
      (before : (state.places thread).Outside) (after : place.Outside)
      (same : SameHolders state.futex.word futex.word) :
      Changes state (state.move futex thread place)
  | sleepers (sleepers : List Thread) :
      Changes state { state with futex := { state.futex with sleepers } }
  | takesExclusive (thread : Thread) (word : BitVec 32) (before : (state.places thread).Outside)
      (free : state.futex.word = 0#32) (exclusives_eq : exclusives word = 1)
      (shares_eq : shares word = 0) :
      Changes state (state.move (state.futex.set word) thread .exclusive)
  | releasesExclusive (thread : Thread) (place : Place)
      (before : state.places thread = .exclusive) (after : place.Outside) :
      Changes state (state.move (state.futex.set 0#32) thread place)
  | takesShared (thread : Thread) (before : (state.places thread).Outside)
      (not_exclusive : exclusives state.futex.word = 0) :
      Changes state (state.move (state.futex.set (state.futex.word + 1#32)) thread .shared)
  | releasesShared (thread : Thread) (place : Place)
      (before : state.places thread = .shared) (after : place.Outside) :
      Changes state (state.move (state.futex.set (state.futex.word - 1#32)) thread place)

theorem Place.Quiet.outside {place : Place} (quiet : place.Quiet) : place.Outside := by
  cases place with
  | exclusive | shared => exact quiet
  | _ => trivial

theorem Stepped.changes (stepped : Stepped state action state') : Changes state state' := by
  cases stepped with
  | nothing => exact .sleepers state.futex.sleepers
  | stays thread place awake before after loops marked =>
    exact .moves thread _ place before.outside after.outside ⟨rfl, rfl⟩
  | marks thread place awake before after marked unmarked taken =>
    exact .moves thread _ place before.outside after.outside sameHolders_or
  | sleeps thread place there =>
    refine .moves thread _ place ?_ ?_ ⟨rfl, rfl⟩
    · rcases there with ⟨there, -⟩ | ⟨there, -⟩
      · exact there ▸ trivial
      · exact there ▸ trivial
    · rcases there with ⟨-, rfl⟩ | ⟨-, rfl⟩
      · trivial
      · trivial
  | takesExclusive thread word awake before free bits =>
    rcases bits with ⟨rfl, -⟩ | rfl
    · exact .takesExclusive thread _ before.outside free (by decide) (by decide)
    · exact .takesExclusive thread _ before.outside free (by decide) (by decide)
  | takesShared thread awake before apart not_exclusive =>
    exact .takesShared thread before.outside not_exclusive
  | unlocks thread there =>
    refine .releasesExclusive thread _ there ?_
    split
    · trivial
    · trivial
  | leaves thread there =>
    refine .releasesShared thread _ there ?_
    split
    · trivial
    · trivial
  | clears thread woken isNext there =>
    exact .moves thread _ _ (there ▸ trivial) trivial sameHolders_and_not
  | wakesAll thread there => exact .moves thread _ _ (there ▸ trivial) trivial ⟨rfl, rfl⟩
  | wakesNone thread there awake =>
    exact .moves thread _ _ (there ▸ trivial) trivial ⟨rfl, rfl⟩
  | wakesOne thread sleeping there mem =>
    exact .moves thread _ _ (there ▸ trivial) trivial ⟨rfl, rfl⟩
  | wakes sleeping mem => exact .sleepers _

theorem step_changes (stepped : step state action = some state') : Changes state state' :=
  (step_stepped stepped).changes

/-- Every step keeps the invariant if it leaves fewer than 2 ^ 30 threads that share the lock. -/
theorem Changes.inv (changes : Changes state state') (inv : Inv state)
    (few : (threadsAt state'.places .shared).ncard < 2 ^ 30) : Inv state' := by
  cases changes with
  | moves thread futex place before after same => exact inv.moves before after same
  | sleepers sleepers =>
    exact ⟨inv.exclusive_finite, inv.shared_finite, inv.exclusive, inv.shared, inv.alone⟩
  | takesExclusive thread word before free exclusives_eq shares_eq =>
    exact inv.takesExclusive before free exclusives_eq shares_eq
  | releasesExclusive thread place before after => exact inv.releasesExclusive before after rfl
  | takesShared thread before not_exclusive =>
    obtain ⟨-, count⟩ := ncard_enter inv.shared_finite before.ne_shared
    have fits : shares state.futex.word + 1 < 2 ^ 30 := by
      rw [← inv.shared, ← count]
      exact few
    exact inv.takesShared before not_exclusive fits rfl
  | releasesShared thread place before after => exact inv.releasesShared before after rfl

end Step

/-! ## Runs -/

/-- A thread that holds the lock exclusively is its only holder, and the low bits count the
threads that share it. -/
structure Correct (state : State Thread) : Prop where
  excludes : ∀ thread other, state.places thread = .exclusive → other ≠ thread →
    (state.places other).Outside
  finite : (threadsAt state.places .shared).Finite
  counts : state.futex.word.toNat % 2 ^ 30 = (threadsAt state.places .shared).ncard

theorem Inv.correct (inv : Inv state) : Correct state where
  excludes thread other holds apart := by
    have one : exclusives state.futex.word = 1 := by
      have some_holder := (ncard_pos inv.exclusive_finite).mpr ⟨thread, holds⟩
      have le_one := exclusives_le_one state.futex.word
      rw [inv.exclusive] at some_holder
      omega
    cases there : state.places other with
    | exclusive =>
      refine absurd (eq_of_ncard_le_one inv.exclusive_finite ?_ there holds) apart
      rw [inv.exclusive, one]
    | shared =>
      have some_share := (ncard_pos inv.shared_finite).mpr ⟨other, there⟩
      rw [inv.shared] at some_share
      have none_shares := inv.alone.resolve_left (by omega)
      omega
    | _ => trivial
  finite := inv.shared_finite
  counts := inv.shared.symm

/-- Fewer than 2 ^ 30 threads share the lock at any time: it is correct in every state that a
run reaches. -/
theorem run_correct [DecidableEq Thread] {actions : List (Action Thread)} {last : State Thread}
    (few : Runs.Throughout step
      (fun state => (threadsAt state.places .shared).ncard < 2 ^ 30) ({} : State Thread) actions)
    (reached : Runs.run step ({} : State Thread) actions = some last) : Correct last :=
  have inv : Inv last :=
    Runs.run_invariant
      (fun _ _ state' inv few stepped => (step_changes stepped).inv inv (few state' stepped))
      Inv.initial few.after_steps reached
  inv.correct

/-- Two threads wait for a writer, one of them for the exclusive lock; after the unlock the other
one shares the lock with a third. -/
def contended : List (Action (Fin 4)) :=
  [.lock 0, .lockShared 1, .nextLockShared 1 false, .nextLockShared 1 false, .lock 2,
    .nextLock 2 false, .nextLock 2 false, .unlock 0, .nextOther 0 none, .nextLockShared 1 false,
    .nextLockShared 1 false, .nextLockShared 1 false, .tryLockShared 3, .nextOther 3 none]

theorem run_correct_of_two_readers :
    ∃ last, Runs.run step ({} : State (Fin 4)) contended = some last ∧
      last.futex.word = 2#32 ∧ Correct last := by
  have reached : (Runs.run step ({} : State (Fin 4)) contended).map
      (fun last => last.futex.word) = some 2#32 := by decide
  obtain ⟨last, run_eq, word⟩ := Option.map_eq_some_iff.mp reached
  refine ⟨last, run_eq, word, run_correct (Runs.throughout_of_forall (fun state => ?_) _ _) run_eq⟩
  have few := Set.ncard_le_card (threadsAt state.places .shared)
  rw [Nat.card_eq_fintype_card, Fintype.card_fin] at few
  omega

end Voxen.Os.FutexRWLock
