import Mathlib.Algebra.Group.Nat.Defs
import Mathlib.Data.List.ReduceOption
import Voxen.Lib.Runs

/-!
# The slave threads of the task service

Every slave pops tasks from its own queue.  A task that can not be executed yet, or
a coroutine that is not done, goes to the local waiting queue of the slave, which is
drained from time to time.  A step of a slave ends where other threads can be seen
or user code runs.  A queue is the sequence of its tasks, and the tracker tells of a
counter that it is complete only if it was completed.
-/

namespace Voxen.Svc.TaskServiceSlave

open Function (update)

/-- A task, named by when it was enqueued. -/
abbrev Task := Nat

/-- What a slave sees of a coroutine; it is blocked on no counter if that is zero. -/
structure Coroutine where
  done : Bool
  blockedOnCounter : Nat
  deriving DecidableEq

/-- `ExecutableUnion`; a sync point has no functor, and a handle may be null. -/
inductive Executable where
  | none
  | function
  | coroutine (handle : Option Coroutine)
  deriving DecidableEq

/-- `TaskHeader`; `waitCounters` are the first `num_wait_counters` of its array. -/
structure TaskHeader where
  waitCounters : List Nat := []
  executable : Executable := .none
  taskCounter : Nat := 0
  deriving DecidableEq

/-! ## Wait counters -/

/-- `TRIM_THRESHOLD`. -/
def trimThreshold : Nat := 32

/-- `MAX_WAIT_COUNTERS`. -/
def maxWaitCounters : Nat := 2 ^ 31 - 1

/-- `std::swap(counters[i], counters[remaining - 1])`, after which one counter less
remains. -/
def swapRemove (counters : List Nat) (i : Nat) : List Nat :=
  match counters.getLast? with
  | none => []
  | some last => (counters.set i last).dropLast

/-- The body of the loop of `trimCompleteCounters` and what the tracker finds. -/
def checkCounter (completed counters : List Nat) (i : Nat) (found : Bool) :
    Option (List Nat × Nat) := do
  let counter ← counters[i]?
  if found then
    if counter ∈ completed then some (swapRemove counters i, i) else none
  else
    some (counters, i + 1)

/-- `trimCompleteCounters`. -/
def trimCompleteCounters (completed : List Nat) :
    List Bool → List Nat → Nat → Option (List Nat)
  | [], counters, i => if counters.length ≤ i then some counters else none
  | found :: answers, counters, i => do
      let (counters, i) ← checkCounter completed counters i found
      trimCompleteCounters completed answers counters i

/-- The wait counters that `createTaskHandle` writes to a task. -/
def createTaskHandle (completed : List Nat) (answers : List Bool) (waitCounters : List Nat) :
    Option (List Nat) := do
  let counters := waitCounters.filter fun counter => counter ≠ 0
  let counters ←
    if counters.length > trimThreshold then
      trimCompleteCounters completed answers counters 0
    else
      some counters
  if counters.length > maxWaitCounters then none else some counters

/-! ## Slaves -/

/-- Where the handle of the task at work is: in the variable of `threadFn`, or in the
local queue that is being drained. `polling` tells the drain of the inner loop. -/
inductive Slot where
  | taken
  | waiting (i remaining : Nat) (polling : Bool)
  deriving DecidableEq

/-- What is done with a task: its counters are trimmed, `tryExecuteAndResetTask`
begins, it looks for the counter that blocks the coroutine, the functor or the
coroutine runs, and it looks for continuations and resets the task. -/
inductive Work where
  | trim (j : Nat)
  | attempt
  | blocked
  | entered
  | finish
  deriving DecidableEq

inductive Phase where
  | popTaskOrWait
  | tryPopTask
  | drain (i remaining : Nat) (polling : Bool)
  | busy (task : Task) (slot : Slot) (work : Work)
  | ended
  deriving DecidableEq

/-- `SlaveState` and the local variables of `threadFn`. -/
structure Slave where
  phase : Phase := .popTaskOrWait
  localWaitingQueue : List (Option Task) := []
  executedIndependentTasks : Nat := 0
  deriving DecidableEq

namespace Slave

/-- How `threadFn` takes the next task after one. -/
def takeNext (slave : Slave) : Slave :=
  { slave with
    phase := if slave.localWaitingQueue = [] then .popTaskOrWait else .tryPopTask }

/-- `tryExecuteAndResetTask` returned false. -/
def notExecuted (slave : Slave) (task : Task) : Slot → Slave
  | .taken =>
    { slave with
      phase := .drain 0 0 false
      localWaitingQueue := slave.localWaitingQueue ++ [some task] }
  | .waiting i remaining polling =>
    let queue := slave.localWaitingQueue
    { slave with
      phase := .drain (i + 1) (remaining + 1) polling
      localWaitingQueue :=
        (queue.set i (queue.getD remaining none)).set remaining (queue.getD i none) }

/-- `tryExecuteAndResetTask` returned true. -/
def executed (slave : Slave) : Slot → Slave
  | .taken =>
    let count := slave.executedIndependentTasks + 1
    if slave.localWaitingQueue ≠ [] ∧ count > 50 then
      { slave with phase := .drain 0 0 false, executedIndependentTasks := 0 }
    else
      { slave with executedIndependentTasks := count }.takeNext
  | .waiting i remaining polling =>
    { slave with
      phase := .drain (i + 1) remaining polling
      localWaitingQueue := slave.localWaitingQueue.set i none }

/-- The end of `tryDrainLocalQueue`. -/
def drained (slave : Slave) (remaining : Nat) (polling : Bool) : Slave :=
  let slave := { slave with localWaitingQueue := slave.localWaitingQueue.take remaining }
  if polling then { slave with phase := .tryPopTask } else slave.takeNext

/-- `tryPopTask` returned null. -/
def notPopped (slave : Slave) : Slave :=
  { slave with
    phase := if slave.localWaitingQueue = [] then .popTaskOrWait else .drain 0 0 true }

end Slave

/-! ## Steps -/

/-- Who has a task. -/
inductive Place (Thread : Type) where
  | unborn
  | queued (queue : Thread)
  | held (thread : Thread)
  | finished
  deriving DecidableEq

/-- A functor is called or a coroutine is resumed: the counters that were completed
by then, and whether the coroutine was done. -/
structure Entry where
  task : Task
  completed : List Nat
  done : Bool
  deriving DecidableEq

/-- Every slave has a queue.  The last fields are the history the properties speak
about: the allocated counters, who has each task, the counters given to `addWait`
for it, the tasks enqueued to each queue before its stop flag was set, the tasks
each slave put in its local queue, and the entries, the last one first. -/
structure State (Thread : Type) where
  nextTask : Task := 0
  nextCounter : Nat := 64
  headers : Task → TaskHeader := fun _ => {}
  queues : Thread → List Task := fun _ => []
  stopFlags : Thread → Bool := fun _ => false
  slaves : Thread → Slave := fun _ => {}
  completed : List Nat := []
  allocated : List Nat := []
  place : Task → Place Thread := fun _ => .unborn
  given : Task → List Nat := fun _ => []
  accepted : Thread → List Task := fun _ => []
  put : Thread → List Task := fun _ => []
  entries : List Entry := []

/-- What can happen next.  `completeCounter` is the end of the last continuation of a
task; `leave` is the return of a functor, or what a coroutine is when it suspends. -/
inductive Action (Thread : Type) where
  | enqueueTask (queue : Thread) (executable : Executable) (waitCounters : List Nat)
      (answers : List Bool)
  | requestStop (queue : Thread)
  | completeCounter (counter : Nat)
  | pop (thread : Thread)
  | check (thread : Thread) (found : Bool)
  | advance (thread : Thread)
  | leave (thread : Thread) (coroutine : Coroutine)
  | finish (thread : Thread) (hasContinuations : Bool)

variable {Thread : Type} [DecidableEq Thread]

namespace State

def setSlave (state : State Thread) (thread : Thread) (slave : Slave) : State Thread :=
  { state with slaves := update state.slaves thread slave }

def setPhase (state : State Thread) (thread : Thread) (phase : Phase) : State Thread :=
  state.setSlave thread { state.slaves thread with phase := phase }

def setHeader (state : State Thread) (task : Task) (header : TaskHeader) : State Thread :=
  { state with headers := update state.headers task header }

/-- The slave has popped the first task of its queue. -/
def popped (state : State Thread) (thread : Thread) (task : Task) (rest : List Task) :
    State Thread :=
  { state.setPhase thread (.busy task .taken .attempt) with
    queues := update state.queues thread rest
    place := update state.place task (.held thread) }

/-- The functor is called, or the coroutine is resumed. -/
def enter (state : State Thread) (thread : Thread) (task : Task) (slot : Slot) (done : Bool) :
    State Thread :=
  { state.setPhase thread (.busy task slot .entered) with
    entries := ⟨task, state.completed, done⟩ :: state.entries }

/-- The task remains with the slave. -/
def notExecuted (state : State Thread) (thread : Thread) (task : Task) (slot : Slot) :
    State Thread :=
  let state' := state.setSlave thread ((state.slaves thread).notExecuted task slot)
  match slot with
  | .taken => { state' with put := update state.put thread (state.put thread ++ [task]) }
  | .waiting .. => state'

/-- The first half of `tryExecuteAndResetTask` and of `tryExecuteCoroutineTask`. -/
def attempt (state : State Thread) (thread : Thread) (task : Task) (slot : Slot) :
    State Thread :=
  let header := state.headers task
  if header.waitCounters.length > 0 then
    state.notExecuted thread task slot
  else
    match header.executable with
    | .none | .coroutine none => state.setPhase thread (.busy task slot .finish)
    | .function => state.enter thread task slot false
    | .coroutine (some coroutine) =>
      if coroutine.done then
        state.setPhase thread (.busy task slot .finish)
      else if coroutine.blockedOnCounter > 0 then
        state.setPhase thread (.busy task slot .blocked)
      else
        state.enter thread task slot coroutine.done

end State

/-- One step; `none` if it is not possible. -/
def step (state : State Thread) : Action Thread → Option (State Thread)
  | .enqueueTask queue executable waitCounters answers =>
    -- callers wait for zero and for counters they got from `getLastTaskCounter`
    if ∀ counter ∈ waitCounters, counter = 0 ∨ counter ∈ state.allocated then do
      let counters ← createTaskHandle state.completed answers waitCounters
      let task := state.nextTask
      let counter := state.nextCounter
      let accepted := if state.stopFlags queue then [] else [task]
      some {
        state.setHeader task
          { waitCounters := counters, executable := executable, taskCounter := counter } with
        nextTask := task + 1
        nextCounter := (counter + 1) % 2 ^ 64
        queues := update state.queues queue (state.queues queue ++ [task])
        allocated := counter :: state.allocated
        place := update state.place task (.queued queue)
        given := update state.given task waitCounters
        accepted := update state.accepted queue (state.accepted queue ++ accepted) }
    else none
  | .requestStop queue =>
    some { state with stopFlags := update state.stopFlags queue true }
  | .completeCounter counter =>
    if counter ∈ state.allocated then
      some { state with completed := counter :: state.completed }
    else none
  | .pop thread =>
    match (state.slaves thread).phase with
    | .popTaskOrWait =>
      if state.stopFlags thread then
        some (state.setPhase thread .ended)
      else
        match state.queues thread with
        | [] => none
        | task :: rest => some (state.popped thread task rest)
    | .tryPopTask =>
      if state.stopFlags thread then
        some (state.setSlave thread (state.slaves thread).notPopped)
      else
        match state.queues thread with
        | [] => some (state.setSlave thread (state.slaves thread).notPopped)
        | task :: rest => some (state.popped thread task rest)
    | _ => none
  | .check thread found =>
    match (state.slaves thread).phase with
    | .busy task slot (.trim j) => do
        let header := state.headers task
        let (counters, j) ← checkCounter state.completed header.waitCounters j found
        some ((state.setHeader task { header with waitCounters := counters }).setPhase thread
          (.busy task slot (.trim j)))
    | .busy task slot .blocked =>
      match (state.headers task).executable with
      | .coroutine (some coroutine) =>
        if found then
          let coroutine := { coroutine with blockedOnCounter := 0 }
          let header :=
            { state.headers task with executable := .coroutine (some coroutine) }
          some ((state.setHeader task header).enter thread task slot coroutine.done)
        else
          some (state.notExecuted thread task slot)
      | _ => none
    | _ => none
  | .advance thread =>
    match (state.slaves thread).phase with
    | .drain i remaining polling =>
      match (state.slaves thread).localWaitingQueue[i]? with
      | some (some task) =>
        some (state.setPhase thread (.busy task (.waiting i remaining polling) (.trim 0)))
      | some none => none
      | none =>
        some (state.setSlave thread ((state.slaves thread).drained remaining polling))
    | .busy task slot (.trim j) =>
      if (state.headers task).waitCounters.length ≤ j then
        some (state.setPhase thread (.busy task slot .attempt))
      else none
    | .busy task slot .attempt => some (state.attempt thread task slot)
    | _ => none
  | .leave thread coroutine =>
    match (state.slaves thread).phase with
    | .busy task slot .entered =>
      match (state.headers task).executable with
      | .coroutine _ =>
        let header := { state.headers task with executable := .coroutine (some coroutine) }
        let state := state.setHeader task header
        if coroutine.done then
          some (state.setPhase thread (.busy task slot .finish))
        else
          some (state.notExecuted thread task slot)
      | _ => some (state.setPhase thread (.busy task slot .finish))
    | _ => none
  | .finish thread hasContinuations =>
    match (state.slaves thread).phase with
    | .busy task slot .finish =>
      let counter := (state.headers task).taskCounter
      some {
        state.setSlave thread ((state.slaves thread).executed slot) with
        completed := if hasContinuations then state.completed else counter :: state.completed
        place := update state.place task .finished }
    | _ => none

def run (actions : List (Action Thread)) : Option (State Thread) :=
  Runs.run step {} actions

end Voxen.Svc.TaskServiceSlave
