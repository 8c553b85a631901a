import Mathlib.Data.BitVec
import Voxen.Lib.Runs

/-!
# One queue of the task queue set

A ring buffer of task pointers and a packed word with its indices and flags.  A
step of a thread is one atomic operation on the word or on a slot, a futex wait
or a wake.  `requestStopAll` treats every queue of the set like this one.
-/

namespace Voxen.Svc.TaskQueueSet

/-- The pointer to a task header. -/
abbrev Task := Nat

/-- `RING_BUFFER_SIZE`. -/
abbrev ringBufferSize : Nat := 1024

/-- `ProduceConsumeIndex`. -/
structure ProduceConsumeIndex where
  produce : BitVec 31 := 0#31
  waitFlag : Bool := false
  consume : BitVec 31 := 0#31
  stopFlag : Bool := false
  deriving DecidableEq

namespace ProduceConsumeIndex

/-- The first 32-bit word. -/
def word (index : ProduceConsumeIndex) : BitVec 31 × Bool := (index.produce, index.waitFlag)

/-- What the assertions of `pushTask`, `tryPopTask` and `popTaskOrWait` check.
The fields are promoted to wider types, so nothing wraps around here. -/
def assertedBounds (index : ProduceConsumeIndex) : Bool :=
  index.produce.toNat ≥ index.consume.toNat ∧
    index.produce.toNat ≤ index.consume.toNat + ringBufferSize

/-- `index.consume + RING_BUFFER_SIZE == index.produce` -/
def full (index : ProduceConsumeIndex) : Bool :=
  index.consume.toNat + ringBufferSize = index.produce.toNat

/-- `index.produce == index.consume` -/
def empty (index : ProduceConsumeIndex) : Bool := index.produce = index.consume

/-- The new value a push reserves with; the wait flag is reset. -/
def produced (index : ProduceConsumeIndex) : ProduceConsumeIndex :=
  { index with produce := index.produce + 1#31, waitFlag := false }

/-- The new value a pop reserves with. -/
def consumed (index : ProduceConsumeIndex) : ProduceConsumeIndex :=
  { index with consume := index.consume + 1#31, stopFlag := false }

/-- The new value that asks for a wake-up. -/
def waiting (index : ProduceConsumeIndex) : ProduceConsumeIndex :=
  { index with waitFlag := true, stopFlag := false }

end ProduceConsumeIndex

/-- Where a call is: which atomic operation comes next.  `number` counts the
reservations before this one and is not part of the code.  A pop that waits is
`popTaskOrWait`, another one is `tryPopTask`. -/
inductive Call where
  | idle
  | pushLoad (task : Task)
  | pushItem (task : Task) (index : ProduceConsumeIndex)
  | pushExchange (task : Task) (index : ProduceConsumeIndex)
  | pushStore (task : Task) (slot number : Nat) (needWake : Bool)
  | popLoad (waits : Bool)
  | popItem (waits : Bool) (index : ProduceConsumeIndex)
  | popExchange (waits : Bool) (index : ProduceConsumeIndex)
  | popTake (slot number : Nat)
  | waitExchange (index : ProduceConsumeIndex)
  | futexWait (word : BitVec 31 × Bool)
  | asleep (word : BitVec 31 × Bool)
  | stopLoad
  | stopExchange (index newIndex : ProduceConsumeIndex)
  | wake
  deriving DecidableEq

/-- A sleeping thread returns from its futex wait. -/
def Call.woken : Call → Call
  | .asleep _ => .popLoad true
  | call => call

/-- What the properties speak about: the index a stop request wrote, and how many
pushes and pops had been reserved by then. -/
structure Stop where
  written : ProduceConsumeIndex
  pushes : Nat
  pops : Nat
  deriving DecidableEq

/-- The queue and the calls of the threads.  The rest is history: the tasks in the
order their pushes were reserved, the number of reserved pops, the number and the
result of every pop that has returned a task, the slots that held a task when one
was stored there, and the stop requests. -/
structure State (Thread : Type) where
  currentIndex : ProduceConsumeIndex := {}
  items : Nat → Option Task := fun _ => none
  calls : Thread → Call := fun _ => .idle
  pushes : List Task := []
  pops : Nat := 0
  popped : List (Nat × Option Task) := []
  overwritten : List Nat := []
  stops : List Stop := []

inductive Action (Thread : Type) where
  | pushTask (thread : Thread) (task : Task)
  | tryPopTask (thread : Thread)
  | popTaskOrWait (thread : Thread)
  | requestStop (thread : Thread)
  | advance (thread : Thread) (spurious : Bool)

/-- The head of the loop in `pushTask`: a full buffer is looked at again. -/
def pushHead (task : Task) (index : ProduceConsumeIndex) : Call :=
  if index.full then .pushLoad task else .pushItem task index

/-- The head of the loop in `tryPopTask` and `popTaskOrWait`. -/
def popHead (waits : Bool) (index : ProduceConsumeIndex) : Call :=
  if index.stopFlag then .idle
  else if index.empty then (if waits then .waitExchange index else .idle)
  else .popItem waits index

namespace State

variable {Thread : Type} [DecidableEq Thread]

def setCall (state : State Thread) (thread : Thread) (call : Call) : State Thread :=
  { state with calls := Function.update state.calls thread call }

/-- `wakeAll`. -/
def wakeAll (state : State Thread) : State Thread :=
  { state with calls := fun thread => (state.calls thread).woken }

/-- The next step of the call of a thread.  `spurious` lets a weak exchange fail
without a reason and a sleeping thread wake up without one. -/
def advance (state : State Thread) (thread : Thread) (spurious : Bool) : Option (State Thread) :=
  match state.calls thread with
  | .idle => none
  | .pushLoad task => some (state.setCall thread (pushHead task state.currentIndex))
  | .pushItem task index =>
    if (state.items (index.produce.toNat % ringBufferSize)).isSome then
      some (state.setCall thread (.pushLoad task))
    else
      some (state.setCall thread (.pushExchange task index))
  | .pushExchange task index =>
    if state.currentIndex = index ∧ ¬ spurious then
      let call := .pushStore task (index.produce.toNat % ringBufferSize) state.pushes.length
        index.waitFlag
      some { state.setCall thread call with
        currentIndex := index.produced
        pushes := state.pushes ++ [task] }
    else
      some (state.setCall thread (pushHead task state.currentIndex))
  | .pushStore task slot _ needWake =>
    let overwritten :=
      if (state.items slot).isSome then slot :: state.overwritten else state.overwritten
    some { state.setCall thread (if needWake then .wake else .idle) with
      items := Function.update state.items slot (some task)
      overwritten := overwritten }
  | .popLoad waits => some (state.setCall thread (popHead waits state.currentIndex))
  | .popItem waits index =>
    if (state.items (index.consume.toNat % ringBufferSize)).isNone then
      some (state.setCall thread (.popLoad waits))
    else
      some (state.setCall thread (.popExchange waits index))
  | .popExchange waits index =>
    if state.currentIndex = index ∧ ¬ spurious then
      let call := .popTake (index.consume.toNat % ringBufferSize) state.pops
      some { state.setCall thread call with
        currentIndex := index.consumed
        pops := state.pops + 1 }
    else
      some (state.setCall thread (popHead waits state.currentIndex))
  | .popTake slot number =>
    some { state.setCall thread .idle with
      items := Function.update state.items slot none
      popped := (number, state.items slot) :: state.popped }
  | .waitExchange index =>
    if state.currentIndex = index ∧ ¬ spurious then
      -- the exchange succeeded, so `index` still is what it was before it
      some { state.setCall thread (.futexWait index.word) with currentIndex := index.waiting }
    else
      some (state.setCall thread (popHead true state.currentIndex))
  | .futexWait word =>
    if state.currentIndex.word = word then
      some (state.setCall thread (.asleep word))
    else
      some (state.setCall thread (.popLoad true))
  | .asleep _ => if spurious then some (state.setCall thread (.popLoad true)) else none
  | .stopLoad => some (state.setCall thread (.stopExchange state.currentIndex state.currentIndex))
  | .stopExchange index newIndex =>
    let newIndex := { newIndex with waitFlag := false, stopFlag := true }
    if state.currentIndex = index ∧ ¬ spurious then
      some { state.setCall thread (if index.waitFlag then .wake else .idle) with
        currentIndex := newIndex
        stops := ⟨newIndex, state.pushes.length, state.pops⟩ :: state.stops }
    else
      -- a failed exchange loads `index` anew and leaves `new_index` as it is
      some (state.setCall thread (.stopExchange state.currentIndex newIndex))
  | .wake => some (state.wakeAll.setCall thread .idle)

end State

variable {Thread : Type} [DecidableEq Thread]

/-- A thread begins a call or goes on with it. -/
def step (state : State Thread) : Action Thread → Option (State Thread)
  | .pushTask thread task =>
    if state.calls thread = .idle then some (state.setCall thread (.pushLoad task)) else none
  | .tryPopTask thread =>
    if state.calls thread = .idle then some (state.setCall thread (.popLoad false)) else none
  | .popTaskOrWait thread =>
    if state.calls thread = .idle then some (state.setCall thread (.popLoad true)) else none
  | .requestStop thread =>
    if state.calls thread = .idle then some (state.setCall thread .stopLoad) else none
  | .advance thread spurious => state.advance thread spurious

def run (actions : List (Action Thread)) : Option (State Thread) :=
  Runs.run step {} actions

end Voxen.Svc.TaskQueueSet
