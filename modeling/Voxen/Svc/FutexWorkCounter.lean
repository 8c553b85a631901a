import Voxen.Lib.Runs
import Voxen.Lib.FinSizes
import Voxen.Os.Futex
import Voxen.Svc.AsyncFileIoService

/-!
# Waiting on a work counter

Any number of threads add work to a counter, take it off, and wait for some.  Each step is one
atomic operation or one call of the kernel.
-/

namespace Voxen.Svc.FutexWorkCounter

open Os (Futex)

variable {Thread : Type}

/-- Where a thread is in the functions of the counter. -/
inductive Place where
  | idle
  /-- In `addWork` or `requestStop`, at the call of `wakeAll`. -/
  | wake
  /-- In `wait`, at a load of the counter. -/
  | load
  /-- At the call of `waitInfinite`, and in it. -/
  | futexWait
  | waited
  deriving DecidableEq

structure State (Thread : Type) where
  counter : Futex Thread := {}
  places : Thread → Place := fun _ => .idle

inductive Call where
  | addWork (amount : BitVec 32)
  | removeWork (amount : BitVec 32)
  | requestStop
  | wait

inductive Action (Thread : Type) where
  | call (thread : Thread) (call : Call)
  | next (thread : Thread)
  | spuriousWake (thread : Thread)

/-- The counter after the first step of a call, and where the thread is then. -/
def Call.begin_ (word : BitVec 32) : Call → BitVec 32 × Place
  | .addWork amount => (word + amount, if word = 0#32 then .wake else .idle)
  | .removeWork amount => (word - amount, .idle)
  | .requestStop => (word ||| stopBit, if word = 0#32 then .wake else .idle)
  | .wait => (word, .load)

def Action.removed : Action Thread → Nat
  | .call _ (.removeWork amount) => amount.toNat
  | _ => 0

/-- The work that is taken off has been added. -/
def TakesAdded (state : State Thread) (action : Action Thread) : Prop :=
  action.removed ≤ (unpackValue state.counter.word).1

instance TakesAdded.decidable (state : State Thread) (action : Action Thread) :
    Decidable (TakesAdded state action) :=
  inferInstanceAs (Decidable (_ ≤ _))

variable [DecidableEq Thread] {state state' : State Thread} {thread : Thread}

def State.move (state : State Thread) (counter : Futex Thread) (thread : Thread) (place : Place) :
    State Thread :=
  { counter, places := Function.update state.places thread place }

/-- A thread calls a function of the counter or takes the next step in it, or a sleeping one wakes
up spuriously. -/
def step (state : State Thread) : Action Thread → Option (State Thread)
  | .call thread call =>
    let (word, place) := call.begin_ state.counter.word
    if state.places thread = .idle then some (state.move (state.counter.set word) thread place)
    else none
  | .next thread =>
    match state.places thread with
    | .idle => none
    | .wake => some (state.move state.counter.wakeAll thread .idle)
    | .load =>
      some (state.move state.counter thread
        (if state.counter.word = 0#32 then .futexWait else .idle))
    | .futexWait => some (state.move (state.counter.waitInfinite thread 0#32) thread .waited)
    | .waited =>
      if thread ∈ state.counter.sleepers then none
      else some (state.move state.counter thread .load)
  | .spuriousWake thread =>
    if thread ∈ state.counter.sleepers then
      some { state with counter := state.counter.wake thread }
    else none

/-- When there is work or a stop is requested, and no thread is about to wake the others, nobody
sleeps. -/
def Awake (state : State Thread) : Prop :=
  state.counter.word ≠ 0#32 → (∀ thread, state.places thread ≠ .wake) →
    state.counter.sleepers = []

theorem Awake.move {counter : Futex Thread} {place : Place} (awake : Awake state)
    (elsewhere : state.places thread ≠ .wake)
    (kept : counter.word ≠ 0#32 → place ≠ .wake →
      state.counter.word ≠ 0#32 ∧ counter.sleepers = state.counter.sleepers) :
    Awake (state.move counter thread place) := by
  intro work others
  obtain ⟨before, same⟩ := kept work fun wakes => others thread (by simp [State.move, wakes])
  refine same.trans (awake before fun other wakes => others other ?_)
  have apart : other ≠ thread := by
    rintro rfl
    exact elsewhere wakes
  exact (Function.update_of_ne apart _ _).trans wakes

/-- A call that does not go on to wake the others found work, or left none. -/
theorem Awake.call (awake : Awake state) {call : Call} (idle : state.places thread = .idle)
    (takes : TakesAdded state (.call thread call)) :
    Awake (state.move (state.counter.set (call.begin_ state.counter.word).1) thread
      (call.begin_ state.counter.word).2) := by
  refine awake.move (by simp [idle]) fun work stays => ⟨fun zero => ?_, rfl⟩
  cases call with
  | addWork amount => exact stays (if_pos zero)
  | requestStop => exact stays (if_pos zero)
  | wait => exact work zero
  | removeWork amount =>
    rw [TakesAdded, zero] at takes
    have nothing : amount = 0#32 := BitVec.eq_of_toNat_eq (Nat.le_zero.mp takes)
    exact work (by simp [Futex.set, Call.begin_, zero, nothing])

theorem Awake.step {action : Action Thread} (awake : Awake state)
    (takes : TakesAdded state action) (stepped : step state action = some state') :
    Awake state' := by
  cases action with
  | call thread call =>
    obtain ⟨idle, rfl⟩ := Option.ite_none_right_eq_some.mp stepped |>.imp_right Option.some.inj
    exact awake.call idle takes
  | next thread =>
    cases place : state.places thread <;>
      simp only [FutexWorkCounter.step, place, Option.ite_none_left_eq_some, Option.some.injEq,
        reduceCtorEq] at stepped
    case wake =>
      subst stepped
      exact fun _ _ => rfl
    case load =>
      subst stepped
      exact awake.move (by simp [place]) fun work _ => ⟨work, rfl⟩
    case futexWait =>
      subst stepped
      refine awake.move (by simp [place]) fun work _ => ?_
      rw [Futex.waitInfinite_word] at work
      exact ⟨work, by rw [Futex.waitInfinite, if_neg work]⟩
    case waited =>
      obtain ⟨-, rfl⟩ := stepped
      exact awake.move (by simp [place]) fun work _ => ⟨work, rfl⟩
  | spuriousWake thread =>
    obtain ⟨-, rfl⟩ := Option.ite_none_right_eq_some.mp stepped |>.imp_right Option.some.inj
    intro work others
    simp [Futex.wake, awake work others]

/-- No thread sleeps on while there is work or a stop is requested. -/
theorem run_awake {actions : List (Action Thread)} {last : State Thread}
    (takes : Runs.StepsMeet step TakesAdded {} actions)
    (reached : Runs.run step {} actions = some last) : Awake last :=
  Runs.run_invariant (fun _ _ _ awake takes => awake.step takes) (fun _ _ => rfl) takes reached

/-- One thread sleeps and another one is about to, when a third adds work. -/
def addToTwo : List (Action (Fin 3)) :=
  [.call 0 .wait, .next 0, .next 0, .call 1 .wait, .next 1, .call 2 (.addWork 3), .next 1,
    .next 2, .call 2 (.removeWork 1)]

theorem run_awake_of_two : ∃ last, Runs.run step {} addToTwo = some last ∧ Awake last := by
  have reached : (Runs.run step ({} : State (Fin 3)) addToTwo).isSome := by decide
  obtain ⟨last, reached⟩ := Option.isSome_iff_exists.mp reached
  exact ⟨last, reached, run_awake (by decide) reached⟩

end Voxen.Svc.FutexWorkCounter
