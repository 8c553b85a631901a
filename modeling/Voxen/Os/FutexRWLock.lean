import Voxen.Lib.Runs
import Voxen.Os.Futex

/-!
# The futex readers–writer lock

The word holds a bit for an exclusive lock, a bit that tells that threads may wait, and below
them the number of shared locks.  Each step of a thread is one atomic operation or one call of
the kernel.
-/

namespace Voxen.Os.FutexRWLock

variable {Thread : Type}

/-- `RWLOCK_EXCLUSIVE_BIT`. -/
def exclusiveBit : BitVec 32 := 1#32 <<< 31

/-- `RWLOCK_WAITING_BIT`. -/
def waitingBit : BitVec 32 := 1#32 <<< 30

/-- Where a thread is in the functions of the lock, and what it has in local variables. -/
inductive Place where
  /-- In none of them, and without the lock. -/
  | idle
  /-- `lock`, at the beginning of the loop. -/
  | mark (expected : BitVec 32)
  /-- `lock`, at the call of `waitInfinite`. -/
  | wait (desired : BitVec 32)
  /-- `lock`, in that call. -/
  | waited
  /-- `lock`, at the exchange of the loop's condition. -/
  | acquire
  /-- Between a successful `lock` or `try_lock` and `unlock`. -/
  | exclusive
  /-- `unlock`, at the call of `wakeAll`. -/
  | wakeAll
  /-- `lock_shared`, at the load. -/
  | loadShared
  /-- `lock_shared`, at the condition of the inner loop. -/
  | joinShared (expected : BitVec 32)
  /-- `lock_shared`, at the call of `waitInfinite`. -/
  | waitShared (desired : BitVec 32)
  /-- `lock_shared`, in that call. -/
  | waitedShared
  /-- `try_lock_shared`, at the exchange, after the test of what was loaded. -/
  | tryShared (expected : BitVec 32) (tested : expected &&& exclusiveBit = 0#32)
  /-- Between a successful `lock_shared` or `try_lock_shared` and `unlock_shared`. -/
  | shared
  /-- `unlock_shared`, at `fetch_and`. -/
  | clear
  /-- `unlock_shared`, at the call of `wakeSingle`. -/
  | wakeSingle
  deriving DecidableEq

/-- The lock and its threads. -/
structure State (Thread : Type) where
  futex : Futex Thread := {}
  places : Thread → Place := fun _ => .idle

section Step

variable [DecidableEq Thread]

/-- The thread moves on and leaves the futex as given. -/
def State.move (state : State Thread) (futex : Futex Thread) (thread : Thread) (place : Place) :
    State Thread where
  futex := futex
  places := Function.update state.places thread place

/-- The next step of a thread in `lock`, after its first exchange; `fails` is for a weak
exchange. -/
def lockStep (state : State Thread) (thread : Thread) (fails : Bool) : Option (State Thread) :=
  match state.places thread with
  | .mark expected =>
    let desired := expected ||| waitingBit
    if expected = desired then some (state.move state.futex thread (.wait desired))
    else
      match state.futex.compareExchangeWeak expected desired fails with
      | .ok futex => some (state.move futex thread (.wait desired))
      | .error _ => some (state.move state.futex thread .acquire)
  | .wait desired => some (state.move (state.futex.waitInfinite thread desired) thread .waited)
  | .waited =>
    if thread ∈ state.futex.sleepers then none
    else some (state.move state.futex thread .acquire)
  | .acquire =>
    match state.futex.compareExchangeWeak 0#32 (exclusiveBit ||| waitingBit) fails with
    | .ok futex => some (state.move futex thread .exclusive)
    | .error expected => some (state.move state.futex thread (.mark expected))
  | _ => none

/-- The next step of a thread in `lock_shared`. -/
def lockSharedStep (state : State Thread) (thread : Thread) (fails : Bool) :
    Option (State Thread) :=
  match state.places thread with
  | .loadShared => some (state.move state.futex thread (.joinShared state.futex.word))
  | .joinShared expected =>
    if expected &&& exclusiveBit = 0#32 then
      match state.futex.compareExchangeWeak expected (expected + 1#32) fails with
      | .ok futex => some (state.move futex thread .shared)
      | .error expected => some (state.move state.futex thread (.joinShared expected))
    else
      -- There is an exclusive lock held
      let desired := expected ||| waitingBit
      if expected = desired then some (state.move state.futex thread (.waitShared desired))
      else
        match state.futex.compareExchangeWeak expected desired fails with
        | .ok futex => some (state.move futex thread (.waitShared desired))
        | .error _ => some (state.move state.futex thread .loadShared)
  | .waitShared desired =>
    some (state.move (state.futex.waitInfinite thread desired) thread .waitedShared)
  | .waitedShared =>
    if thread ∈ state.futex.sleepers then none
    else some (state.move state.futex thread .loadShared)
  | _ => none

/-- The next step of a thread in `try_lock_shared`, `unlock` or `unlock_shared`. -/
def otherStep (state : State Thread) (thread : Thread) (woken : Option Thread) :
    Option (State Thread) :=
  match state.places thread with
  | .tryShared expected _ =>
    match state.futex.compareExchangeStrong expected (expected + 1#32) with
    | .ok futex => some (state.move futex thread .shared)
    | .error _ => some (state.move state.futex thread .idle)
  | .wakeAll => some (state.move state.futex.wakeAll thread .idle)
  | .clear =>
    some (state.move (state.futex.set (state.futex.word &&& ~~~waitingBit)) thread .wakeSingle)
  | .wakeSingle =>
    (state.futex.wakeSingle woken).map fun futex => state.move futex thread .idle
  | _ => none

inductive Action (Thread : Type) where
  | lock (thread : Thread)
  | tryLock (thread : Thread)
  | unlock (thread : Thread)
  | lockShared (thread : Thread)
  | tryLockShared (thread : Thread)
  | unlockShared (thread : Thread)
  | nextLock (thread : Thread) (fails : Bool)
  | nextLockShared (thread : Thread) (fails : Bool)
  | nextOther (thread : Thread) (woken : Option Thread)
  | spuriousWake (thread : Thread)

/-- A thread calls a function of the lock, up to the first atomic operation, or takes the next
step in it, or a sleeping one wakes up spuriously. -/
def step (state : State Thread) : Action Thread → Option (State Thread)
  | .lock thread =>
    if state.places thread = .idle then
      match state.futex.compareExchangeStrong 0#32 exclusiveBit with
      | .ok futex => some (state.move futex thread .exclusive)
      | .error expected => some (state.move state.futex thread (.mark expected))
    else none
  | .tryLock thread =>
    if state.places thread = .idle then
      match state.futex.compareExchangeStrong 0#32 exclusiveBit with
      | .ok futex => some (state.move futex thread .exclusive)
      | .error _ => some state
    else none
  | .unlock thread =>
    if state.places thread = .exclusive then
      if state.futex.word &&& waitingBit = 0#32 then
        some (state.move (state.futex.set 0#32) thread .idle)
      else some (state.move (state.futex.set 0#32) thread .wakeAll)
    else none
  | .lockShared thread =>
    if state.places thread = .idle then
      some (state.move state.futex thread (.joinShared state.futex.word))
    else none
  | .tryLockShared thread =>
    if state.places thread = .idle then
      if tested : state.futex.word &&& exclusiveBit = 0#32 then
        some (state.move state.futex thread (.tryShared state.futex.word tested))
      else some state
    else none
  | .unlockShared thread =>
    if state.places thread = .shared then
      if state.futex.word &&& waitingBit = 0#32 then
        some (state.move (state.futex.set (state.futex.word - 1#32)) thread .idle)
      else some (state.move (state.futex.set (state.futex.word - 1#32)) thread .clear)
    else none
  | .nextLock thread fails => lockStep state thread fails
  | .nextLockShared thread fails => lockSharedStep state thread fails
  | .nextOther thread woken => otherStep state thread woken
  | .spuriousWake thread =>
    if thread ∈ state.futex.sleepers then
      some { state with futex := state.futex.wake thread }
    else none

end Step

end Voxen.Os.FutexRWLock
