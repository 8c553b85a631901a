import Voxen.Os.FutexRWLockRuns

/-!
# Wake-ups of the futex readers–writer lock

`run_watched` says when no sleeping thread is forgotten.  The last shared locks to leave each clear
the waiting bit; between them the lock may be taken, and the bit that is cleared then is the one of
threads that wait for the new holder.
-/

namespace Voxen.Os.FutexRWLock

open ThreadPlaces

variable {Thread : Type} {state : State Thread}

/-! ## The waiting bit -/

/-- The word tells that the lock is held. -/
def Held (word : BitVec 32) : Prop := exclusives word = 1 ∨ 0 < shares word

section Word

variable {word : BitVec 32}

theorem waiting_iff_toNat : Waiting word ↔ word.toNat / 2 ^ 30 % 2 = 1 := by
  rw [waiting_iff, BitVec.getLsbD, Nat.testBit_eq_decide_div_mod_eq, decide_eq_true_iff]

theorem waiting_add_one (fits : shares word + 1 < 2 ^ 30) (waiting : Waiting word) :
    Waiting (word + 1#32) := by
  have bound := word.isLt
  rw [waiting_iff_toNat] at waiting ⊢
  unfold shares at fits
  have next : (word + 1#32).toNat = word.toNat + 1 := by
    rw [BitVec.toNat_add, BitVec.toNat_ofNat]
    omega
  rw [next]
  omega

theorem waiting_of_sub_one (some_share : 0 < shares word) (waiting : Waiting (word - 1#32)) :
    Waiting word := by
  have bound := word.isLt
  rw [waiting_iff_toNat] at waiting ⊢
  unfold shares at some_share
  have next : (word - 1#32).toNat = word.toNat - 1 := by
    rw [BitVec.toNat_sub, BitVec.toNat_ofNat]
    omega
  rw [next] at waiting
  omega

theorem not_waiting_and_not : ¬ Waiting (word &&& ~~~waitingBit) := by
  have bit : (~~~waitingBit).getLsbD 30 = false := by decide
  rw [waiting_iff, BitVec.getLsbD_and, bit, Bool.and_false]
  exact Bool.false_ne_true

theorem eq_zero_of_not_waiting (unmarked : ¬ Waiting word) (free : ¬ Held word) : word = 0#32 := by
  have bound := word.isLt
  have le_one := exclusives_le_one word
  rw [waiting_iff_toNat] at unmarked
  unfold Held exclusives shares at *
  apply BitVec.eq_of_toNat_eq
  rw [BitVec.toNat_ofNat]
  omega

end Word

/-! ## What the lock should do -/

/-- About to wake threads up. -/
def Place.WillWake : Place → Prop
  | .clear | .wakeSingle | .wakeAll => True
  | _ => False

/-- Sleeping threads are not forgotten: if the lock has no holder, a thread is about to wake some
up, or the word is 0 and a thread that is awake is in the loop of `lock`, which takes the lock with
the waiting bit. -/
structure Watched (state : State Thread) : Prop where
  woken : state.futex.sleepers ≠ [] → (∀ thread, (state.places thread).Outside) →
    (∃ thread, (state.places thread).WillWake) ∨
      state.futex.word = 0#32 ∧ ∃ thread ∉ state.futex.sleepers, (state.places thread).InLock
  /-- When nobody holds the lock or is in one of its functions awake, nobody sleeps. -/
  settled : (∀ thread ∉ state.futex.sleepers, state.places thread = .idle) →
    state.futex.sleepers = []

/-- The step neither clears the waiting bit while a thread holds the lock exclusively, nor inserts
it in a word that is 0. -/
def KeepsWaiting (state : State Thread) : Action Thread → Prop
  | .nextOther thread _ => state.places thread = .clear →
      ¬ (state.futex.word &&& exclusiveBit ≠ 0#32 ∧ state.futex.word &&& waitingBit ≠ 0#32)
  | .nextLock thread false => state.places thread = .mark 0#32 → state.futex.word ≠ 0#32
  | _ => True

instance KeepsWaiting.decidable (state : State Thread) :
    (action : Action Thread) → Decidable (KeepsWaiting state action)
  | .nextOther _ _ => inferInstanceAs (Decidable (_ → _))
  | .nextLock _ false => inferInstanceAs (Decidable (_ → _))
  | .nextLock _ true | .lock _ | .tryLock _ | .unlock _ | .lockShared _ | .tryLockShared _
  | .unlockShared _ | .nextLockShared _ _ | .spuriousWake _ => isTrue trivial

/-! ## The invariant -/

/-- The lock is held exclusively, and its word tells that threads wait. -/
def Contended (word : BitVec 32) : Prop := exclusives word = 1 ∧ Waiting word

/-- Who looks after the threads that sleep. -/
structure Looked (state : State Thread) : Prop where
  sleeping : ∀ thread ∈ state.futex.sleepers, (state.places thread).InWait
  marked : ∀ thread, (state.places thread).Marked
  /-- A waiting bit without a holder is about to be cleared. -/
  cleared : Waiting state.futex.word → ¬ Held state.futex.word →
    ∃ thread, state.places thread = .clear
  /-- A thread sleeps in `lock_shared` until the exclusive lock is released. -/
  readers : ∀ thread ∈ state.futex.sleepers, state.places thread = .waitedShared →
    Contended state.futex.word ∨ ∃ thread, state.places thread = .wakeAll
  looked : state.futex.sleepers ≠ [] → (Waiting state.futex.word ∧ Held state.futex.word) ∨
    ∃ thread ∉ state.futex.sleepers,
      (state.places thread).WillWake ∨ (state.places thread).InLock

theorem Looked.initial : Looked ({} : State Thread) where
  sleeping := nofun
  marked _ := trivial
  cleared waiting := absurd waiting (by decide : ¬ Waiting 0#32)
  readers := nofun
  looked asleep := absurd rfl asleep

theorem Place.InWait.either {place : Place} (inWait : place.InWait) :
    place = .waited ∨ place = .waitedShared := by
  cases place with
  | waited => exact Or.inl rfl
  | waitedShared => exact Or.inr rfl
  | _ => exact inWait.elim

namespace Looked

variable (looked : Looked state)

include looked

theorem awake {thread : Thread} (elsewhere : ¬ (state.places thread).InWait) :
    thread ∉ state.futex.sleepers :=
  fun mem => elsewhere (looked.sleeping thread mem)

theorem watched (inv : Inv state) : Watched state := by
  have woken : state.futex.sleepers ≠ [] → (∀ thread, (state.places thread).Outside) →
      (∃ thread, (state.places thread).WillWake) ∨
        state.futex.word = 0#32 ∧
          ∃ thread ∉ state.futex.sleepers, (state.places thread).InLock := by
    intro asleep outside
    have none_exclusive : exclusives state.futex.word = 0 := by
      rw [← inv.exclusive]
      refine (Set.ncard_eq_zero inv.exclusive_finite).mpr ?_
      exact Set.eq_empty_of_forall_notMem fun thread there => (outside thread).ne_exclusive there
    have none_shared : shares state.futex.word = 0 := by
      rw [← inv.shared]
      refine (Set.ncard_eq_zero inv.shared_finite).mpr ?_
      exact Set.eq_empty_of_forall_notMem fun thread there => (outside thread).ne_shared there
    have free : ¬ Held state.futex.word := by
      unfold Held
      omega
    rcases looked.looked asleep with ⟨-, held⟩ | ⟨thread, awake, wakes | inLock⟩
    · exact absurd held free
    · exact Or.inl ⟨thread, wakes⟩
    · by_cases waiting : Waiting state.futex.word
      · obtain ⟨clearing, there⟩ := looked.cleared waiting free
        exact Or.inl ⟨clearing, there ▸ trivial⟩
      · exact Or.inr ⟨eq_zero_of_not_waiting waiting free, thread, awake, inLock⟩
  refine ⟨woken, fun idle => ?_⟩
  by_contra asleep
  have idle_or_waits : ∀ thread, state.places thread = .idle ∨ (state.places thread).InWait := by
    intro thread
    by_cases mem : thread ∈ state.futex.sleepers
    · exact Or.inr (looked.sleeping thread mem)
    · exact Or.inl (idle thread mem)
  have outside : ∀ thread, (state.places thread).Outside := fun thread =>
    (idle_or_waits thread).elim (fun there => there ▸ trivial) fun inWait =>
      inWait.either.elim (fun there => there ▸ trivial) fun there => there ▸ trivial
  rcases woken asleep outside with ⟨thread, wakes⟩ | ⟨-, thread, awake, inLock⟩
  · rcases idle_or_waits thread with there | inWait
    · exact (there ▸ wakes : Place.WillWake .idle)
    · rcases inWait.either with there | there
      · exact (there ▸ wakes : Place.WillWake .waited)
      · exact (there ▸ wakes : Place.WillWake .waitedShared)
  · rw [idle thread awake] at inLock
    exact inLock

end Looked

/-! ## One thread moves -/

section Moves

variable [DecidableEq Thread] {futex : Futex Thread} {thread : Thread} {place : Place}

theorem State.move_places_self : (state.move futex thread place).places thread = place :=
  Function.update_self _ _ _

theorem State.move_places_of_ne {other : Thread} (apart : other ≠ thread) :
    (state.move futex thread place).places other = state.places other :=
  Function.update_of_ne apart _ _

/-- Some other thread is still there after a thread has moved from elsewhere. -/
theorem still_there {there : Place} (elsewhere : state.places thread ≠ there)
    (found : ∃ other, state.places other = there) :
    ∃ other, (state.move futex thread place).places other = there := by
  obtain ⟨other, other_there⟩ := found
  have apart : other ≠ thread := by
    rintro rfl
    exact elsewhere other_there
  exact ⟨other, (State.move_places_of_ne apart).trans other_there⟩

namespace Looked

variable (looked : Looked state)

include looked

omit looked in
theorem marked_move (marked : ∀ other, (state.places other).Marked) (mine : place.Marked)
    (other : Thread) : ((state.move futex thread place).places other).Marked := by
  by_cases same : other = thread
  · rw [same, State.move_places_self]
    exact mine
  · rw [State.move_places_of_ne same]
    exact marked other

/-- A thread that is awake moves: what it did for the sleeping ones is done or left to others. -/
theorem moved (awake : thread ∉ state.futex.sleepers)
    (sleepers : futex.sleepers = state.futex.sleepers) (marked : place.Marked)
    (cleared : Waiting futex.word → ¬ Held futex.word → place = .clear ∨
      Waiting state.futex.word ∧ ¬ Held state.futex.word ∧ state.places thread ≠ .clear)
    (readers : Contended futex.word ∨ place = .wakeAll ∨
      ¬ Contended state.futex.word ∧ state.places thread ≠ .wakeAll)
    (watched : (Waiting futex.word ∧ Held futex.word) ∨ place.WillWake ∨ place.InLock ∨
      ¬ (Waiting state.futex.word ∧ Held state.futex.word) ∧
        ¬ (state.places thread).WillWake ∧ ¬ (state.places thread).InLock) :
    Looked (state.move futex thread place) where
  sleeping other mem := by
    have mem' : other ∈ state.futex.sleepers := sleepers ▸ mem
    have apart : other ≠ thread := fun same => awake (same ▸ mem')
    rw [State.move_places_of_ne apart]
    exact looked.sleeping other mem'
  marked := marked_move looked.marked marked
  cleared waiting free := by
    rcases cleared waiting free with rfl | ⟨waiting', free', elsewhere⟩
    · exact ⟨thread, State.move_places_self⟩
    · exact still_there elsewhere (looked.cleared waiting' free')
  readers other mem there := by
    have mem' : other ∈ state.futex.sleepers := sleepers ▸ mem
    have apart : other ≠ thread := fun same => awake (same ▸ mem')
    rw [State.move_places_of_ne apart] at there
    rcases readers with contended | rfl | ⟨alone, elsewhere⟩
    · exact Or.inl contended
    · exact Or.inr ⟨thread, State.move_places_self⟩
    · exact Or.inr (still_there elsewhere
        ((looked.readers other mem' there).resolve_left alone))
  looked asleep := by
    have awake' : thread ∉ (state.move futex thread place).futex.sleepers := sleepers.symm ▸ awake
    rcases watched with noted | wakes | inLock | ⟨unnoted, quiet⟩
    · exact Or.inl noted
    · refine Or.inr ⟨thread, awake', Or.inl ?_⟩
      rwa [State.move_places_self]
    · refine Or.inr ⟨thread, awake', Or.inr ?_⟩
      rwa [State.move_places_self]
    · obtain ⟨other, other_awake, looks⟩ := (looked.looked (sleepers ▸ asleep)).resolve_left unnoted
      have apart : other ≠ thread := by
        rintro rfl
        exact looks.elim quiet.1 quiet.2
      refine Or.inr ⟨other, sleepers.symm ▸ other_awake, ?_⟩
      rw [State.move_places_of_ne apart]
      exact looks

theorem slept (place' : Place)
    (there : state.places thread = .wait state.futex.word ∧ place' = .waited ∨
      state.places thread = .waitShared state.futex.word ∧ place' = .waitedShared) :
    Looked (state.move { state.futex with sleepers := thread :: state.futex.sleepers } thread
      place') := by
  have inWait : place'.InWait := by
    rcases there with ⟨-, rfl⟩ | ⟨-, rfl⟩
    · trivial
    · trivial
  have waiting : Waiting state.futex.word := by
    have marked := looked.marked thread
    rcases there with ⟨there, -⟩ | ⟨there, -⟩
    · rwa [there] at marked
    · rw [there] at marked
      exact marked.1
  have elsewhere : state.places thread ≠ .clear ∧ state.places thread ≠ .wakeAll := by
    rcases there with ⟨there, -⟩ | ⟨there, -⟩
    · rw [there]
      exact ⟨nofun, nofun⟩
    · rw [there]
      exact ⟨nofun, nofun⟩
  have awake : thread ∉ state.futex.sleepers := by
    refine looked.awake ?_
    rcases there with ⟨there, -⟩ | ⟨there, -⟩
    · rw [there]
      exact id
    · rw [there]
      exact id
  exact
    { sleeping := fun other mem => by
        by_cases same : other = thread
        · rw [same, State.move_places_self]
          exact inWait
        · rw [State.move_places_of_ne same]
          exact looked.sleeping other ((List.mem_cons.mp mem).resolve_left same)
      marked := marked_move looked.marked (by
        rcases there with ⟨-, rfl⟩ | ⟨-, rfl⟩
        · trivial
        · trivial)
      cleared := fun waiting free => still_there elsewhere.1 (looked.cleared waiting free)
      readers := fun other mem other_there => by
        by_cases same : other = thread
        · -- the word at which it falls asleep has both bits
          rw [same, State.move_places_self] at other_there
          have marked := looked.marked thread
          rcases there with ⟨-, waited⟩ | ⟨there, -⟩
          · rw [waited] at other_there
            cases other_there
          · rw [there] at marked
            exact Or.inl ⟨marked.2, marked.1⟩
        · rw [State.move_places_of_ne same] at other_there
          have mem' := (List.mem_cons.mp mem).resolve_left same
          exact (looked.readers other mem' other_there).imp_right (still_there elsewhere.2)
      looked := fun _ => by
        by_cases held : Held state.futex.word
        · exact Or.inl ⟨waiting, held⟩
        · obtain ⟨clearing, clearing_there⟩ := looked.cleared waiting held
          have apart : clearing ≠ thread := by
            rintro rfl
            exact elsewhere.1 clearing_there
          have clearing_awake : clearing ∉ state.futex.sleepers := by
            refine looked.awake ?_
            rw [clearing_there]
            exact id
          refine Or.inr ⟨clearing, fun mem => ?_, Or.inl ?_⟩
          · exact clearing_awake ((List.mem_cons.mp mem).resolve_left apart)
          · rw [State.move_places_of_ne apart, clearing_there]
            trivial }

/-- One of the sleeping threads wakes up: it is in the loop of `lock`, or it leaves the others to
the holder or to a thread that wakes them all. -/
theorem woken {sleeping : Thread} (mem : sleeping ∈ state.futex.sleepers) :
    (Waiting state.futex.word ∧ Held state.futex.word) ∨
      ∃ other ∉ (state.futex.wake sleeping).sleepers,
        state.places other = .wakeAll ∨ state.places other = .waited := by
  rcases (looked.sleeping sleeping mem).either with there | there
  · refine Or.inr ⟨sleeping, fun still => ?_, Or.inr there⟩
    exact ((Futex.mem_wake _).mp still).2 rfl
  · rcases looked.readers sleeping mem there with contended | ⟨other, wakes⟩
    · exact Or.inl ⟨contended.2, Or.inl contended.1⟩
    · refine Or.inr ⟨other, fun still => ?_, Or.inl wakes⟩
      refine looked.awake ?_ ((Futex.mem_wake _).mp still).1
      rw [wakes]
      exact id

theorem wakes {sleeping : Thread} (mem : sleeping ∈ state.futex.sleepers) :
    Looked { state with futex := state.futex.wake sleeping } where
  sleeping other still := looked.sleeping other ((Futex.mem_wake _).mp still).1
  marked := looked.marked
  cleared := looked.cleared
  readers other still := looked.readers other ((Futex.mem_wake _).mp still).1
  looked _ := by
    rcases looked.woken mem with noted | ⟨other, awake, there | there⟩
    · exact Or.inl noted
    · exact Or.inr ⟨other, awake, Or.inl (there ▸ trivial)⟩
    · exact Or.inr ⟨other, awake, Or.inr (there ▸ trivial)⟩

theorem wokeOne {sleeping : Thread} (there : state.places thread = .wakeSingle)
    (mem : sleeping ∈ state.futex.sleepers) :
    Looked (state.move (state.futex.wake sleeping) thread .idle) := by
  have after := looked.wakes mem
  have awake : thread ∉ (state.futex.wake sleeping).sleepers := by
    refine after.awake ?_
    rw [there]
    exact id
  have elsewhere : state.places thread ≠ .clear ∧ state.places thread ≠ .wakeAll := by
    rw [there]
    exact ⟨nofun, nofun⟩
  exact
    { sleeping := fun other still => by
        have apart : other ≠ thread := fun same => awake (same ▸ still)
        rw [State.move_places_of_ne apart]
        exact after.sleeping other still
      marked := marked_move looked.marked trivial
      cleared := fun waiting free => still_there elsewhere.1 (looked.cleared waiting free)
      readers := fun other still other_there => by
        have apart : other ≠ thread := fun same => awake (same ▸ still)
        rw [State.move_places_of_ne apart] at other_there
        exact (after.readers other still other_there).imp_right (still_there elsewhere.2)
      looked := fun _ => by
        rcases looked.woken mem with noted | ⟨other, other_awake, other_there⟩
        · exact Or.inl noted
        · have apart : other ≠ thread := by
            rintro rfl
            rw [there] at other_there
            exact other_there.elim nofun nofun
          refine Or.inr ⟨other, other_awake, ?_⟩
          rw [State.move_places_of_ne apart]
          rcases other_there with there | there
          · exact Or.inl (there ▸ trivial)
          · exact Or.inr (there ▸ trivial) }

theorem wokeAll (there : state.places thread = .wakeAll) :
    Looked (state.move state.futex.wakeAll thread .idle) where
  sleeping _ := nofun
  marked := marked_move looked.marked trivial
  cleared waiting free := by
    refine still_there ?_ (looked.cleared waiting free)
    rw [there]
    nofun
  readers _ := nofun
  looked asleep := absurd rfl asleep

end Looked

end Moves

/-! ## One step -/

theorem Place.Quiet.ne {place : Place} (quiet : place.Quiet) :
    place ≠ .clear ∧ place ≠ .wakeAll ∧ ¬ place.WillWake := by
  cases place with
  | clear | wakeSingle | wakeAll | exclusive | shared => exact quiet.elim
  | _ => exact ⟨nofun, nofun, id⟩

theorem KeepsWaiting.taken [DecidableEq Thread] {action : Action Thread} {thread : Thread}
    (keeps : KeepsWaiting state action) (unmarked : ¬ Waiting state.futex.word)
    (taken : action = .nextLock thread false ∧ state.places thread = .mark state.futex.word ∨
      exclusives state.futex.word = 1) : Held state.futex.word := by
  rcases taken with ⟨rfl, there⟩ | locked
  · by_contra free
    have zero := eq_zero_of_not_waiting unmarked free
    rw [zero] at there
    exact keeps there zero
  · exact Or.inl locked

/-- A step keeps the invariant unless it loses or invents the waiting bit. -/
theorem Stepped.looked [DecidableEq Thread] {action : Action Thread} {state' : State Thread}
    (stepped : Stepped state action state') (looked : Looked state) (inv : Inv state)
    (few : (threadsAt state'.places .shared).ncard < 2 ^ 30) (keeps : KeepsWaiting state action) :
    Looked state' := by
  cases stepped with
  | nothing => exact looked
  | stays thread place awake before after loops marked =>
    have awake' : thread ∉ state.futex.sleepers := awake.elim looked.awake id
    have quiet := before.ne
    refine looked.moved awake' rfl marked (fun waiting free => Or.inr ⟨waiting, free, quiet.1⟩)
      ?_ ?_
    · by_cases contended : Contended state.futex.word
      · exact Or.inl contended
      · exact Or.inr (Or.inr ⟨contended, quiet.2.1⟩)
    · by_cases noted : Waiting state.futex.word ∧ Held state.futex.word
      · exact Or.inl noted
      · by_cases inLock : (state.places thread).InLock
        · exact Or.inr (Or.inr (Or.inl (loops inLock)))
        · exact Or.inr (Or.inr (Or.inr ⟨noted, quiet.2.2, inLock⟩))
  | marks thread place awake before after marked unmarked taken =>
    have held := keeps.taken unmarked taken
    have held' : Held (state.futex.word ||| waitingBit) := by
      unfold Held
      rw [sameHolders_or.1, sameHolders_or.2]
      exact held
    have waiting := waiting_or state.futex.word
    refine looked.moved (looked.awake awake) rfl marked (fun _ free => absurd held' free) ?_
      (Or.inl ⟨waiting, held'⟩)
    exact Or.inr (Or.inr ⟨fun contended => unmarked contended.2, before.ne.2.1⟩)
  | sleeps thread place there => exact looked.slept place there
  | takesExclusive thread word awake before free bits =>
    have quiet := before.ne
    have unmarked : ¬ Waiting state.futex.word := by
      rw [free]
      decide
    have alone : ¬ Contended state.futex.word := fun contended => unmarked contended.2
    have held : Held word := by
      rcases bits with ⟨rfl, -⟩ | rfl
      · exact Or.inl (by decide)
      · exact Or.inl (by decide)
    refine looked.moved (looked.awake awake) rfl trivial (fun _ none => absurd held none)
      (Or.inr (Or.inr ⟨alone, quiet.2.1⟩)) ?_
    rcases bits with ⟨-, apart⟩ | rfl
    · exact Or.inr (Or.inr (Or.inr ⟨fun noted => unmarked noted.1, quiet.2.2, apart⟩))
    · exact Or.inl ⟨(by decide : Waiting (exclusiveBit ||| waitingBit)), held⟩
  | takesShared thread awake before apart not_exclusive =>
    have quiet := before.ne
    obtain ⟨-, count⟩ := ncard_enter inv.shared_finite before.outside.ne_shared
    have fits : shares state.futex.word + 1 < 2 ^ 30 := by
      rw [← inv.shared, ← count]
      exact few
    have held : Held (state.futex.word + 1#32) := by
      refine Or.inr ?_
      rw [(shares_add_one fits).2]
      exact Nat.succ_pos _
    refine looked.moved (looked.awake awake) rfl trivial (fun _ free => absurd held free)
      (Or.inr (Or.inr ⟨fun contended => ?_, quiet.2.1⟩)) ?_
    · rw [contended.1] at not_exclusive
      cases not_exclusive
    · by_cases noted : Waiting state.futex.word ∧ Held state.futex.word
      · exact Or.inl ⟨waiting_add_one fits noted.1, held⟩
      · exact Or.inr (Or.inr (Or.inr ⟨noted, quiet.2.2, apart⟩))
  | unlocks thread there =>
    have awake : thread ∉ state.futex.sleepers := looked.awake (there ▸ id)
    split
    next waiting =>
      exact looked.moved awake rfl trivial (fun bit => absurd bit (by decide : ¬ Waiting 0#32))
        (Or.inr (Or.inl rfl)) (Or.inr (Or.inl trivial))
    next unmarked =>
      refine looked.moved awake rfl trivial
        (fun bit => absurd bit (by decide : ¬ Waiting 0#32)) (Or.inr (Or.inr ⟨?_, ?_⟩))
        (Or.inr (Or.inr (Or.inr ⟨fun noted => unmarked noted.1, ?_⟩)))
      · exact fun contended => unmarked contended.2
      · rw [there]
        nofun
      · rw [there]
        exact ⟨id, id⟩
  | leaves thread there =>
    have awake : thread ∉ state.futex.sleepers := looked.awake (there ▸ id)
    have some_share : 0 < shares state.futex.word := by
      rw [← inv.shared]
      exact (ncard_pos inv.shared_finite).mpr ⟨thread, there⟩
    have alone : ¬ Contended state.futex.word := fun contended => by
      have not_exclusive := inv.alone.resolve_right (Nat.ne_of_gt some_share)
      rw [contended.1] at not_exclusive
      cases not_exclusive
    have elsewhere : state.places thread ≠ .wakeAll := by
      rw [there]
      nofun
    split
    next waiting =>
      exact looked.moved awake rfl trivial (fun _ _ => Or.inl rfl)
        (Or.inr (Or.inr ⟨alone, elsewhere⟩)) (Or.inr (Or.inl trivial))
    next unmarked =>
      refine looked.moved awake rfl trivial
        (fun bit => absurd (waiting_of_sub_one some_share bit) unmarked)
        (Or.inr (Or.inr ⟨alone, elsewhere⟩))
        (Or.inr (Or.inr (Or.inr ⟨fun noted => unmarked noted.1, ?_⟩)))
      rw [there]
      exact ⟨id, id⟩
  | clears thread woken isNext there =>
    have awake : thread ∉ state.futex.sleepers := looked.awake (there ▸ id)
    subst isNext
    refine looked.moved awake rfl trivial (fun bit => absurd bit not_waiting_and_not)
      (Or.inr (Or.inr ⟨fun contended => ?_, ?_⟩)) (Or.inr (Or.inl trivial))
    · refine keeps there ⟨fun none => ?_, contended.2⟩
      have one := contended.1
      rw [and_exclusiveBit_eq_zero.mp none] at one
      cases one
    · rw [there]
      nofun
  | wakesAll thread there => exact looked.wokeAll there
  | wakesNone thread there none =>
    have awake : thread ∉ state.futex.sleepers := none ▸ List.not_mem_nil
    refine
      { sleeping := fun other mem => absurd (none ▸ mem) List.not_mem_nil
        marked := Looked.marked_move looked.marked trivial
        cleared := fun waiting free => still_there ?_ (looked.cleared waiting free)
        readers := fun other mem => absurd (none ▸ mem) List.not_mem_nil
        looked := fun asleep => absurd none asleep }
    rw [there]
    nofun
  | wakesOne thread sleeping there mem => exact looked.wokeOne there mem
  | wakes sleeping mem => exact looked.wakes mem

/-! ## Runs -/

/-- Fewer than 2 ^ 30 threads share the lock at any time, and no step loses or invents the waiting
bit: no sleeping thread is forgotten in a state that the run reaches. -/
theorem run_watched [DecidableEq Thread] {actions : List (Action Thread)} {last : State Thread}
    (few : Runs.Throughout step
      (fun state => (threadsAt state.places .shared).ncard < 2 ^ 30) ({} : State Thread) actions)
    (keeps : Runs.StepsMeet step KeepsWaiting ({} : State Thread) actions)
    (reached : Runs.run step ({} : State Thread) actions = some last) : Watched last := by
  obtain ⟨inv, looked⟩ :=
    Runs.run_invariant (fun _ _ state' inv meets stepped =>
        (⟨(step_changes stepped).inv inv.1 (meets.1 state' stepped),
          (step_stepped stepped).looked inv.2 inv.1 (meets.1 state' stepped) meets.2⟩ :
          Inv state' ∧ Looked state'))
      ⟨Inv.initial, Looked.initial⟩ (few.after_steps.and keeps) reached
  exact looked.watched inv

/-- Two threads share the lock while a third one waits for it, and leave it one after the other. -/
def leaveOne : List (Action (Fin 5)) :=
  [.lockShared 0, .nextLockShared 0 false, .lockShared 1, .nextLockShared 1 false, .lock 2,
    .nextLock 2 false, .nextLock 2 false, .unlockShared 0, .nextOther 0 none,
    .nextOther 0 (some 2), .nextLock 2 false, .nextLock 2 false, .nextLock 2 false,
    .nextLock 2 false, .unlockShared 1, .nextOther 1 none]

theorem few_share (actions : List (Action (Fin 5))) :
    Runs.Throughout step (fun state => (threadsAt state.places .shared).ncard < 2 ^ 30)
      ({} : State (Fin 5)) actions := by
  refine Runs.throughout_of_forall (fun state => ?_) _ _
  have few := Set.ncard_le_card (threadsAt state.places .shared)
  rw [Nat.card_eq_fintype_card, Fintype.card_fin] at few
  omega

theorem run_watched_of_leaveOne :
    ∃ last, Runs.run step ({} : State (Fin 5)) leaveOne = some last ∧
      last.futex.sleepers = [2] ∧ Watched last := by
  have reached : (Runs.run step ({} : State (Fin 5)) leaveOne).map
      (fun last => last.futex.sleepers) = some [2] := by decide
  obtain ⟨last, run_eq, sleepers⟩ := Option.map_eq_some_iff.mp reached
  exact ⟨last, run_eq, sleepers, run_watched (few_share leaveOne) (by decide) run_eq⟩

/-- Both leave before either clears the waiting bit.  The second one clears it when the third
thread holds the lock and two others wait to share it, and wakes one of these, which shares the lock
and leaves. -/
def leaveBoth : List (Action (Fin 5)) :=
  [.lockShared 0, .nextLockShared 0 false, .lockShared 1, .nextLockShared 1 false, .lock 2,
    .nextLock 2 false, .nextLock 2 false, .unlockShared 0, .unlockShared 1, .nextOther 0 none,
    .nextOther 0 (some 2), .nextLock 2 false, .nextLock 2 false, .lockShared 3,
    .nextLockShared 3 false, .nextLockShared 3 false, .lockShared 4, .nextLockShared 4 false,
    .nextLockShared 4 false, .nextOther 1 none, .nextOther 1 (some 3), .unlock 2,
    .nextLockShared 3 false, .nextLockShared 3 false, .nextLockShared 3 false, .unlockShared 3]

/-- Only the other one is left, and it sleeps for ever. -/
theorem not_watched_of_leaveBoth :
    ∃ last, Runs.run step ({} : State (Fin 5)) leaveBoth = some last ∧
      last.futex = ⟨0#32, [4]⟩ ∧ (∀ thread, thread ≠ 4 → last.places thread = .idle) ∧
      ¬ Watched last := by
  have reached : (Runs.run step ({} : State (Fin 5)) leaveBoth).map
      (fun last => (last.futex, decide (∀ thread, thread ≠ 4 → last.places thread = .idle))) =
      some (⟨0#32, [4]⟩, true) := by decide
  obtain ⟨last, run_eq, same⟩ := Option.map_eq_some_iff.mp reached
  obtain ⟨futex, others⟩ : last.futex = ⟨0#32, [4]⟩ ∧
      ∀ thread, thread ≠ 4 → last.places thread = .idle := by
    rw [Prod.mk.injEq] at same
    exact ⟨same.1, of_decide_eq_true same.2⟩
  refine ⟨last, run_eq, futex, others, fun watched => ?_⟩
  have idle : ∀ thread ∉ last.futex.sleepers, last.places thread = .idle := fun thread awake =>
    others thread fun four => awake (by rw [futex, four]; exact List.mem_singleton_self _)
  have none := watched.settled idle
  rw [futex] at none
  cases none

end Voxen.Os.FutexRWLock
