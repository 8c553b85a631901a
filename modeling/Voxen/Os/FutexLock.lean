import Voxen.Lib.Runs
import Voxen.Os.Futex

/-!
# The futex lock

The word is 0 for a free lock, 1 for a taken one, and 2 for one that a thread may wait for.
Each step of a thread is one atomic operation or one call of the kernel.
-/

namespace Voxen.Os.FutexLock

variable {Thread : Type}

/-- `MAX_SPIN_COUNT`. -/
def maxSpinCount : Nat := 4

/-- Where a thread is in the functions of the lock, and what it has in local variables. -/
inductive Place where
  /-- In none of them, and without the lock. -/
  | idle
  /-- At the exchange of the spinning loop. -/
  | spin (spinCount : Nat)
  /-- At the beginning of the waiting loop. -/
  | mark (expected : BitVec 32)
  /-- At the call of `waitInfinite`. -/
  | wait
  /-- In that call, with the number of unlocks before it that took a 2 away. -/
  | waited (since : Nat)
  /-- At the exchange of the waiting loop's condition. -/
  | acquire
  /-- Between a successful `lock` or `try_lock` and `unlock`. -/
  | holding
  /-- In `unlock`, at the call of `wakeSingle`. -/
  | wake
  deriving DecidableEq

/-- The lock, its threads, and how many unlocks took a 2 away. -/
structure State (Thread : Type) where
  futex : Futex Thread := {}
  places : Thread → Place := fun _ => .idle
  contendedUnlocks : Nat := 0

section Step

variable [DecidableEq Thread]

/-- The thread moves on and leaves the word as given. -/
def State.move (state : State Thread) (futex : Futex Thread) (thread : Thread) (place : Place) :
    State Thread :=
  { state with futex, places := Function.update state.places thread place }

@[simp]
theorem State.move_places_self (state : State Thread) (futex : Futex Thread) (thread : Thread)
    (place : Place) : (state.move futex thread place).places thread = place :=
  Function.update_self _ _ _

theorem State.move_places_of_ne {state : State Thread} {futex : Futex Thread}
    {thread other : Thread} {place : Place} (apart : other ≠ thread) :
    (state.move futex thread place).places other = state.places other :=
  Function.update_of_ne apart _ _

/-- The next step of a thread in `lock`; `fails` is for a weak exchange. -/
def lockStep (state : State Thread) (thread : Thread) (fails : Bool) : Option (State Thread) :=
  match state.places thread with
  | .spin spinCount =>
    -- Optimistically assume lock is free
    match state.futex.compareExchangeWeak 0#32 1#32 fails with
    | .ok futex => some (state.move futex thread .holding)
    | .error expected =>
      if expected = 2#32 then some (state.move state.futex thread (.mark expected))
      else if spinCount + 1 < maxSpinCount then
        some (state.move state.futex thread (.spin (spinCount + 1)))
      else some (state.move state.futex thread (.mark expected))
  | .mark expected =>
    if expected = 2#32 then some (state.move state.futex thread .wait)
    else
      match state.futex.compareExchangeWeak expected 2#32 fails with
      | .ok futex => some (state.move futex thread .wait)
      | .error _ => some (state.move state.futex thread .acquire)
  | .wait =>
    some (state.move (state.futex.waitInfinite thread 2#32) thread
      (.waited state.contendedUnlocks))
  | .waited _ =>
    if thread ∈ state.futex.sleepers then none
    else some (state.move state.futex thread .acquire)
  | .acquire =>
    match state.futex.compareExchangeWeak 0#32 2#32 fails with
    | .ok futex => some (state.move futex thread .holding)
    | .error expected => some (state.move state.futex thread (.mark expected))
  | _ => none

inductive Action (Thread : Type) where
  | lock (thread : Thread)
  | tryLock (thread : Thread)
  | unlock (thread : Thread)
  | next (thread : Thread) (fails : Bool)
  | wakeSingle (thread : Thread) (woken : Option Thread)
  | spuriousWake (thread : Thread)

/-- A thread calls a function of the lock or takes the next step in it, or a sleeping one wakes
up spuriously. -/
def step (state : State Thread) : Action Thread → Option (State Thread)
  | .lock thread =>
    if state.places thread = .idle then some (state.move state.futex thread (.spin 0)) else none
  | .tryLock thread =>
    if state.places thread = .idle then
      match state.futex.compareExchangeStrong 0#32 1#32 with
      | .ok futex => some (state.move futex thread .holding)
      | .error _ => some state
    else none
  | .unlock thread =>
    if state.places thread = .holding then
      if state.futex.word = 2#32 then
        some { state.move (state.futex.set 0#32) thread .wake with
          contendedUnlocks := state.contendedUnlocks + 1 }
      else some (state.move (state.futex.set 0#32) thread .idle)
    else none
  | .next thread fails => lockStep state thread fails
  | .wakeSingle thread woken =>
    if state.places thread = .wake then
      (state.futex.wakeSingle woken).map fun futex => state.move futex thread .idle
    else none
  | .spuriousWake thread =>
    if thread ∈ state.futex.sleepers then
      some { state with futex := state.futex.wake thread }
    else none

end Step

end Voxen.Os.FutexLock
