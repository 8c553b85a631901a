import Voxen.Lib.ThreadPlaces
import Voxen.Os.FutexLock

/-!
# Runs of the futex lock

One thread holds the lock exactly while the word is not 0, and no sleeping thread is forgotten.
A weak exchange that fails spuriously leaves 0 in `expected`; the exchange that should mark a
taken lock may then take a free one for nobody.
-/

namespace Voxen.Os.FutexLock

open ThreadPlaces

variable {Thread : Type} {state : State Thread}

/-! ## What the lock should do -/

/-- In the waiting loop or about to wake somebody up: the thread will exchange the word for 2,
or another one will after it. -/
def Place.WillLook : Place → Prop
  | .mark _ | .wait | .waited _ | .acquire | .wake => True
  | _ => False

/-- A thread falls asleep while the word is 2, and the word stays 2 to the next unlock, which
then wakes a thread up. -/
def TwoUntilUnlock (state : State Thread) : Prop :=
  ∀ thread ∈ state.futex.sleepers, ∃ since ≤ state.contendedUnlocks,
    state.places thread = .waited since ∧
      (since = state.contendedUnlocks → state.futex.word = 2#32)

/-- After an unlock some thread that is awake looks after the sleeping ones until the word is 2
again. -/
structure Watched (state : State Thread) : Prop where
  untilUnlock : TwoUntilUnlock state
  looked : state.futex.sleepers ≠ [] → state.futex.word = 2#32 ∨
    ∃ thread, thread ∉ state.futex.sleepers ∧ (state.places thread).WillLook

/-- At most one thread has the lock, the word is not 0 exactly while one has it, and sleeping
threads are watched. -/
structure Correct (state : State Thread) : Prop where
  exclusive : ∀ thread other, state.places thread = .holding → state.places other = .holding →
    thread = other
  taken : state.futex.word ≠ 0#32 ↔ ∃ thread, state.places thread = .holding
  watched : Watched state

/-- No exchange that expects 0 marks a lock that is free. -/
def MarksTaken (state : State Thread) : Action Thread → Prop
  | .next thread false => state.places thread = .mark 0#32 → state.futex.word ≠ 0#32
  | _ => True

instance MarksTaken.decidable (state : State Thread) :
    (action : Action Thread) → Decidable (MarksTaken state action)
  | .next _ false => inferInstanceAs (Decidable (_ → _))
  | .next _ true | .lock _ | .tryLock _ | .unlock _ | .wakeSingle _ _ | .spuriousWake _ =>
    isTrue trivial

/-- As many threads have the lock as the word tells. -/
structure Owned (state : State Thread) : Prop where
  finite : (threadsAt state.places .holding).Finite
  count : (threadsAt state.places .holding).ncard = if state.futex.word = 0#32 then 0 else 1

structure Inv (state : State Thread) : Prop where
  owned : Owned state
  watched : Watched state

theorem Inv.correct (inv : Inv state) : Correct state where
  exclusive _ _ := by
    refine eq_of_ncard_le_one inv.owned.finite ?_
    rw [inv.owned.count]
    split <;> decide
  taken := by
    rw [← ncard_pos inv.owned.finite, inv.owned.count]
    split
    next free => exact iff_of_false (fun taken => taken free) (Nat.lt_irrefl 0)
    next taken => exact iff_of_true taken Nat.one_pos
  watched := inv.watched

theorem Owned.initial : Owned ({} : State Thread) := by
  have none_there : threadsAt (fun _ : Thread => Place.idle) .holding = ∅ := threadsAt_const nofun
  constructor
  · rw [none_there]
    exact Set.finite_empty
  · rw [if_pos rfl, none_there, Set.ncard_empty]

theorem Watched.initial : Watched ({} : State Thread) where
  untilUnlock := nofun
  looked asleep := absurd rfl asleep

/-! ## One thread moves -/

section Moves

variable [DecidableEq Thread] {futex : Futex Thread} {thread : Thread} {place : Place}

namespace Owned

variable (owned : Owned state)

include owned

theorem stay (before : state.places thread ≠ .holding) (after : place ≠ .holding)
    (word : futex.word = 0#32 ↔ state.futex.word = 0#32) : Owned (state.move futex thread place) := by
  obtain ⟨finite, count⟩ := owned
  have same := threadsAt_elsewhere before after
  constructor
  · rw [State.move, same]
    exact finite
  · simp only [State.move, same, count, word]

theorem take (before : state.places thread ≠ .holding) (free : state.futex.word = 0#32)
    (word : futex.word ≠ 0#32) : Owned (state.move futex thread .holding) := by
  obtain ⟨finite, count⟩ := owned
  obtain ⟨finite', count'⟩ := ncard_enter finite before
  refine ⟨finite', count'.trans ?_⟩
  rw [count, if_pos free]
  exact (if_neg word).symm

theorem release (before : state.places thread = .holding) (after : place ≠ .holding)
    (word : futex.word = 0#32) : Owned (state.move futex thread place) := by
  obtain ⟨finite, count⟩ := owned
  obtain ⟨finite', count'⟩ := ncard_leave finite before after
  have none_left : (threadsAt (Function.update state.places thread place) .holding).ncard = 0 := by
    rw [count] at count'
    split at count' <;> omega
  exact ⟨finite', none_left.trans (if_pos word).symm⟩

end Owned

namespace TwoUntilUnlock

variable (untilUnlock : TwoUntilUnlock state)

include untilUnlock

omit [DecidableEq Thread] in
theorem awake (there : state.places thread = place) (elsewhere : ∀ since, place ≠ .waited since) :
    thread ∉ state.futex.sleepers := by
  intro mem
  obtain ⟨since, -, there', -⟩ := untilUnlock thread mem
  exact elsewhere since (there.symm.trans there')

theorem moved (awake : thread ∉ state.futex.sleepers)
    (sleepers : futex.sleepers = state.futex.sleepers)
    (word : state.futex.word = 2#32 → futex.word = 2#32) :
    TwoUntilUnlock (state.move futex thread place) := by
  intro other mem
  have mem' : other ∈ state.futex.sleepers := sleepers ▸ mem
  obtain ⟨since, le, there, two⟩ := untilUnlock other mem'
  have apart : other ≠ thread := fun same => awake (same ▸ mem')
  exact ⟨since, le, (State.move_places_of_ne apart).trans there, fun same => word (two same)⟩

theorem woken {sleeping : Thread} (mem : sleeping ∈ state.futex.sleepers) :
    Watched { state with futex := state.futex.wake sleeping } where
  untilUnlock other other_mem := untilUnlock other ((Futex.mem_wake _).mp other_mem).1
  looked _ := by
    obtain ⟨since, -, there, -⟩ := untilUnlock sleeping mem
    refine Or.inr ⟨sleeping, fun still => ((Futex.mem_wake _).mp still).2 rfl, ?_⟩
    rw [there]
    trivial

end TwoUntilUnlock

namespace Watched

variable (watched : Watched state)

include watched

/-- A thread that is awake moves: the word stays 2 if it was, and if the thread looked after the
others it still does, or the word is 2. -/
theorem moved (awake : thread ∉ state.futex.sleepers)
    (sleepers : futex.sleepers = state.futex.sleepers)
    (word : state.futex.word = 2#32 → futex.word = 2#32)
    (looks : futex.word = 2#32 ∨ place.WillLook ∨ ¬ (state.places thread).WillLook) :
    Watched (state.move futex thread place) where
  untilUnlock := watched.untilUnlock.moved awake sleepers word
  looked asleep := by
    rcases watched.looked (sleepers ▸ asleep) with two | ⟨other, other_awake, other_looks⟩
    · exact Or.inl (word two)
    · have other_awake' : other ∉ (state.move futex thread place).futex.sleepers :=
        sleepers.symm ▸ other_awake
      by_cases apart : other = thread
      · subst apart
        rcases looks with two | looks | idle
        · exact Or.inl two
        · exact Or.inr ⟨other, other_awake', by rwa [State.move_places_self]⟩
        · exact absurd other_looks idle
      · exact Or.inr ⟨other, other_awake', by rwa [State.move_places_of_ne apart]⟩

theorem waited (there : state.places thread = .wait) :
    Watched (state.move (state.futex.waitInfinite thread 2#32) thread
      (.waited state.contendedUnlocks)) := by
  have awake := watched.untilUnlock.awake there nofun
  by_cases two : state.futex.word = 2#32
  · rw [Futex.waitInfinite, if_pos two]
    refine ⟨fun other mem => ?_, fun _ => Or.inl two⟩
    rcases List.mem_cons.mp mem with rfl | mem
    · exact ⟨state.contendedUnlocks, Nat.le_refl _, Function.update_self _ _ _, fun _ => two⟩
    · obtain ⟨since, le, other_there, -⟩ := watched.untilUnlock other mem
      have apart : other ≠ thread := fun same => awake (same ▸ mem)
      exact ⟨since, le, (State.move_places_of_ne apart).trans other_there, fun _ => two⟩
  · rw [Futex.waitInfinite, if_neg two]
    exact watched.moved awake rfl id (Or.inr (Or.inl trivial))

/-- A thread that holds the lock takes a 2 away; it will wake one of the others. -/
theorem unlocked (there : state.places thread = .holding) :
    Watched { state.move (state.futex.set 0#32) thread .wake with
      contendedUnlocks := state.contendedUnlocks + 1 } := by
  have awake := watched.untilUnlock.awake there nofun
  have moved : (state.move (state.futex.set 0#32) thread .wake).places thread = .wake :=
    State.move_places_self _ _ _ _
  have others (other : Thread) (apart : other ≠ thread) :
      (state.move (state.futex.set 0#32) thread .wake).places other = state.places other :=
    State.move_places_of_ne apart
  refine ⟨fun other mem => ?_, fun _ => Or.inr ⟨thread, awake, moved.symm ▸ trivial⟩⟩
  obtain ⟨since, le, other_there, -⟩ := watched.untilUnlock other mem
  have apart : other ≠ thread := fun same => awake (same ▸ mem)
  exact ⟨since, Nat.le_succ_of_le le, (others other apart).trans other_there,
    fun same => absurd le (same ▸ Nat.not_succ_le_self _)⟩

end Watched

end Moves

/-! ## One step -/

/-- What a step can do. -/
inductive Changes [DecidableEq Thread] (state : State Thread) (action : Action Thread) :
    State Thread → Prop where
  | nothing : Changes state action state
  | moves (thread : Thread) (place : Place)
      (awake : (∀ since, state.places thread ≠ .waited since) ∨ thread ∉ state.futex.sleepers)
      (before : state.places thread ≠ .holding) (after : place ≠ .holding)
      (looks : place.WillLook ∨ ¬ (state.places thread).WillLook) :
      Changes state action (state.move state.futex thread place)
  | takes (thread : Thread) (word : BitVec 32) (free : state.futex.word = 0#32)
      (taken : word ≠ 0#32) (before : state.places thread ≠ .holding)
      (awake : ∀ since, state.places thread ≠ .waited since)
      (looks : word = 2#32 ∨ ¬ (state.places thread).WillLook) :
      Changes state action (state.move (state.futex.set word) thread .holding)
  | marks (thread : Thread) (expected : BitVec 32)
      (isNext : action = .next thread false) (there : state.places thread = .mark expected)
      (same : state.futex.word = expected) :
      Changes state action (state.move (state.futex.set 2#32) thread .wait)
  | waits (thread : Thread) (there : state.places thread = .wait) :
      Changes state action (state.move (state.futex.waitInfinite thread 2#32) thread
        (.waited state.contendedUnlocks))
  | unlocks (thread : Thread) (there : state.places thread = .holding)
      (alone : state.futex.word ≠ 2#32) :
      Changes state action (state.move (state.futex.set 0#32) thread .idle)
  | unlocksContended (thread : Thread) (there : state.places thread = .holding) :
      Changes state action { state.move (state.futex.set 0#32) thread .wake with
        contendedUnlocks := state.contendedUnlocks + 1 }
  | wakesNone (thread : Thread) (there : state.places thread = .wake)
      (awake : state.futex.sleepers = []) :
      Changes state action (state.move state.futex thread .idle)
  | wakesOne (thread sleeping : Thread) (there : state.places thread = .wake)
      (mem : sleeping ∈ state.futex.sleepers) :
      Changes state action (state.move (state.futex.wake sleeping) thread .idle)
  | wakes (sleeping : Thread) (mem : sleeping ∈ state.futex.sleepers) :
      Changes state action { state with futex := state.futex.wake sleeping }

section Step

variable [DecidableEq Thread] {thread : Thread} {action : Action Thread} {state' : State Thread}

theorem lockStep_changes {fails : Bool} (stepped : lockStep state thread fails = some state') :
    Changes state (.next thread fails) state' := by
  unfold lockStep at stepped
  cases there : state.places thread with
  | spin spinCount =>
    simp only [there] at stepped
    have not_waited : ∀ since, state.places thread ≠ .waited since := by
      rw [there]
      nofun
    have not_holding : state.places thread ≠ .holding := by
      rw [there]
      nofun
    have not_looking : ¬ (state.places thread).WillLook := by
      rw [there]
      exact id
    rcases state.futex.compareExchangeWeak_cases 0#32 1#32 fails with
      ⟨free, -, done⟩ | failed
    · rw [done] at stepped
      cases stepped
      exact .takes thread 1#32 free (by decide) not_holding not_waited (Or.inr not_looking)
    · simp only [failed] at stepped
      split_ifs at stepped
      all_goals
        cases stepped
        exact .moves thread _ (Or.inl not_waited) not_holding nofun (Or.inr not_looking)
  | mark expected =>
    simp only [there] at stepped
    have not_waited : ∀ since, state.places thread ≠ .waited since := by
      rw [there]
      nofun
    have not_holding : state.places thread ≠ .holding := by
      rw [there]
      nofun
    split at stepped
    next =>
      cases stepped
      exact .moves thread _ (Or.inl not_waited) not_holding nofun (Or.inl trivial)
    next =>
      rcases state.futex.compareExchangeWeak_cases expected 2#32 fails with
        ⟨same, rfl, done⟩ | failed
      · rw [done] at stepped
        cases stepped
        exact .marks thread expected rfl there same
      · rw [failed] at stepped
        cases stepped
        exact .moves thread _ (Or.inl not_waited) not_holding nofun (Or.inl trivial)
  | wait =>
    simp only [there] at stepped
    cases stepped
    exact .waits thread there
  | waited since =>
    simp only [there] at stepped
    split at stepped
    case isTrue => cases stepped
    rename_i awake
    cases stepped
    exact .moves thread _ (Or.inr awake) (by rw [there]; nofun) nofun (Or.inl trivial)
  | acquire =>
    simp only [there] at stepped
    have not_waited : ∀ since, state.places thread ≠ .waited since := by
      rw [there]
      nofun
    have not_holding : state.places thread ≠ .holding := by
      rw [there]
      nofun
    rcases state.futex.compareExchangeWeak_cases 0#32 2#32 fails with
      ⟨free, -, done⟩ | failed
    · rw [done] at stepped
      cases stepped
      exact .takes thread 2#32 free (by decide) not_holding not_waited (Or.inl rfl)
    · simp only [failed] at stepped
      cases stepped
      exact .moves thread _ (Or.inl not_waited) not_holding nofun (Or.inl trivial)
  | idle | holding | wake =>
    simp only [there] at stepped
    cases stepped

theorem step_changes (stepped : step state action = some state') :
    Changes state action state' := by
  cases action with
  | lock thread =>
    simp only [step] at stepped
    split at stepped
    case isFalse => cases stepped
    rename_i there
    cases stepped
    exact .moves thread _ (Or.inl (by rw [there]; nofun)) (by rw [there]; nofun) nofun
      (Or.inr (by rw [there]; exact id))
  | tryLock thread =>
    simp only [step] at stepped
    split at stepped
    case isFalse => cases stepped
    rename_i there
    rcases state.futex.compareExchangeStrong_cases 0#32 1#32 with ⟨free, done⟩ | ⟨-, failed⟩
    · rw [done] at stepped
      cases stepped
      exact .takes thread 1#32 free (by decide) (by rw [there]; nofun) (by rw [there]; nofun)
        (Or.inr (by rw [there]; exact id))
    · rw [failed] at stepped
      cases stepped
      exact .nothing
  | unlock thread =>
    simp only [step] at stepped
    split at stepped
    case isFalse => cases stepped
    rename_i there
    split at stepped
    next =>
      cases stepped
      exact .unlocksContended thread there
    next alone =>
      cases stepped
      exact .unlocks thread there alone
  | next thread fails => exact lockStep_changes stepped
  | wakeSingle thread woken =>
    simp only [step] at stepped
    split at stepped
    case isFalse => cases stepped
    rename_i there
    obtain ⟨futex, done, rfl⟩ := Option.map_eq_some_iff.mp stepped
    rcases state.futex.wakeSingle_cases done with ⟨awake, rfl⟩ | ⟨sleeping, mem, rfl⟩
    · exact .wakesNone thread there awake
    · exact .wakesOne thread sleeping there mem
  | spuriousWake thread =>
    simp only [step] at stepped
    split at stepped
    case isFalse => cases stepped
    rename_i mem
    cases stepped
    exact .wakes thread mem

namespace Changes

variable (changes : Changes state action state')

include changes

theorem watched (watched : Watched state) : Watched state' := by
  cases changes with
  | nothing => exact watched
  | moves thread place awake before after looks =>
    have awake' : thread ∉ state.futex.sleepers := awake.elim (watched.untilUnlock.awake rfl) id
    exact watched.moved awake' rfl id (Or.inr looks)
  | takes thread word free taken before awake looks =>
    refine watched.moved (watched.untilUnlock.awake rfl awake) rfl (fun two => ?_)
      (looks.elim Or.inl fun idle => Or.inr (Or.inr idle))
    rw [free] at two
    cases two
  | marks thread expected isNext there same =>
    have awake := watched.untilUnlock.awake there nofun
    exact watched.moved awake rfl (fun _ => rfl) (Or.inl rfl)
  | waits thread there => exact watched.waited there
  | unlocks thread there alone =>
    have awake := watched.untilUnlock.awake there nofun
    refine watched.moved awake rfl (fun two => absurd two alone) (Or.inr (Or.inr ?_))
    rw [there]
    exact id
  | unlocksContended thread there => exact watched.unlocked there
  | wakesNone thread there awake =>
    have no_sleeper : (state.move state.futex thread .idle).futex.sleepers = [] := awake
    exact ⟨fun other mem => absurd (no_sleeper ▸ mem) List.not_mem_nil,
      fun asleep => absurd awake asleep⟩
  | wakesOne thread sleeping there mem =>
    have awake := watched.untilUnlock.awake there nofun
    have moved : TwoUntilUnlock (state.move state.futex thread .idle) :=
      watched.untilUnlock.moved awake rfl id
    exact moved.woken mem
  | wakes sleeping mem => exact watched.untilUnlock.woken mem

theorem owned (owned : Owned state) (marks : MarksTaken state action) : Owned state' := by
  cases changes with
  | nothing => exact owned
  | moves thread place awake before after looks => exact owned.stay before after Iff.rfl
  | takes thread word free taken before awake looks => exact owned.take before free taken
  | marks thread expected isNext there same =>
    have taken : state.futex.word ≠ 0#32 := by
      intro free
      rw [isNext] at marks
      refine marks ?_ free
      rw [there, ← same, free]
    exact owned.stay (by rw [there]; nofun) nofun
      (iff_of_false (show 2#32 ≠ 0#32 by decide) taken)
  | waits thread there =>
    refine owned.stay (by rw [there]; nofun) nofun ?_
    rw [Futex.waitInfinite_word]
  | unlocks thread there alone => exact owned.release there nofun rfl
  | unlocksContended thread there => 
    have released : Owned (state.move (state.futex.set 0#32) thread .wake) :=
      owned.release there nofun rfl
    exact ⟨released.finite, released.count⟩
  | wakesNone thread there awake => exact owned.stay (by rw [there]; nofun) nofun Iff.rfl
  | wakesOne thread sleeping there mem =>
    exact owned.stay (by rw [there]; nofun) nofun Iff.rfl
  | wakes sleeping mem => exact ⟨owned.finite, owned.count⟩

end Changes

theorem step_marks_free (owned : Owned state) (marks : ¬ MarksTaken state action)
    (stepped : step state action = some state') : ¬ Correct state' := by
  obtain ⟨thread, rfl, there, free⟩ : ∃ thread, action = .next thread false ∧
      state.places thread = .mark 0#32 ∧ state.futex.word = 0#32 := by
    unfold MarksTaken at marks
    split at marks
    next thread =>
      obtain ⟨there, free⟩ := Classical.not_imp.mp marks
      exact ⟨thread, rfl, there, not_not.mp free⟩
    next => exact absurd trivial marks
  have done : state' = state.move (state.futex.set 2#32) thread .wait := by
    simp only [step, lockStep, there, Futex.compareExchangeWeak, free] at stepped
    exact (Option.some.inj stepped).symm
  subst done
  intro correct
  obtain ⟨other, there'⟩ := correct.taken.mp (show 2#32 ≠ 0#32 by decide)
  have apart : other ≠ thread := by
    rintro rfl
    rw [State.move_places_self] at there'
    cases there'
  rw [State.move_places_of_ne apart] at there'
  have positive := (ncard_pos owned.finite).mpr ⟨other, there'⟩
  rw [owned.count, if_pos free] at positive
  exact absurd positive (Nat.lt_irrefl 0)

end Step

/-! ## Runs -/

/-- The lock is correct in every state of a run exactly if no step of the run marks a lock that
is free. -/
theorem run_correct_iff [DecidableEq Thread] {actions : List (Action Thread)}
    {last : State Thread} (reached : Runs.run step ({} : State Thread) actions = some last) :
    Runs.Throughout step Correct ({} : State Thread) actions ↔
      Runs.StepsMeet step MarksTaken ({} : State Thread) actions :=
  Runs.throughout_iff_stepsMeet (fun _ => Inv.correct)
    (fun _ _ _ inv marks stepped => ⟨(step_changes stepped).owned inv.owned marks,
      (step_changes stepped).watched inv.watched⟩)
    (fun _ _ _ inv marks stepped => step_marks_free inv.owned marks stepped)
    ⟨Owned.initial, Watched.initial⟩ reached

/-- A thread sleeps until another one unlocks, and takes the lock then. -/
def contended : List (Action Bool) :=
  [.lock false, .next false false, .lock true] ++ List.replicate 6 (.next true false) ++
    [.unlock false, .wakeSingle false (some true), .next true false, .next true false,
      .unlock true, .wakeSingle true none]

theorem run_correct_of_contended :
    Runs.Throughout step Correct ({} : State Bool) contended := by
  have reached : (Runs.run step ({} : State Bool) contended).isSome := by decide
  obtain ⟨last, run_eq⟩ := Option.isSome_iff_exists.mp reached
  exact (run_correct_iff run_eq).mpr (by decide)

/-- All weak exchanges of the spinning loop fail spuriously, and the next one takes the lock for
nobody; the thread falls asleep. -/
def spurious : List (Action Bool) :=
  .lock true :: List.replicate maxSpinCount (.next true true) ++ List.replicate 2 (.next true false)

theorem not_correct_of_spurious :
    ∃ last, Runs.run step ({} : State Bool) spurious = some last ∧
      last.futex = ⟨2#32, [true]⟩ ∧ ¬ Correct last := by
  have reached : (Runs.run step ({} : State Bool) spurious).map
      (fun last => (last.futex, last.places true, last.places false)) =
      some (⟨2#32, [true]⟩, .waited 0, .idle) := by decide
  obtain ⟨last, run_eq, same⟩ := Option.map_eq_some_iff.mp reached
  obtain ⟨futex, sleeps, idle⟩ : last.futex = ⟨2#32, [true]⟩ ∧ last.places true = .waited 0 ∧
      last.places false = .idle := by simpa using same
  refine ⟨last, run_eq, futex, fun correct => ?_⟩
  obtain ⟨thread, holds⟩ := correct.taken.mp (by rw [futex]; decide)
  cases thread with
  | false => exact absurd (idle.symm.trans holds) (by decide)
  | true => exact absurd (sleeps.symm.trans holds) (by decide)

end Voxen.Os.FutexLock
