import Voxen.Lib.Runs
import Voxen.Svc.TaskHeader

/-!
# Execution and completion of tasks

Slave threads take tasks from the queue, execute them and complete them; the last
continuation of a task to end completes the task.  A step of a thread is one
atomic operation on a shared object.  Touching a destroyed header is a fault.
-/

namespace Voxen.Svc.TaskService

/-- A task header, named by when it was allocated. -/
abbrev Task := Nat

inductive Executable where
  | none
  | function
  | coroutine
  deriving DecidableEq

/-- `TaskHeader`; `parent` is the pointer in `parent_handle`. -/
structure TaskHeader where
  atomicWord : BitVec 32 := 1
  numWaitCounters : Nat
  executable : Executable
  parent : Option Task := none
  taskCounter : Nat := 0
  deriving DecidableEq

/-- A `doCompleteAndUnref` call and what it does next: complete the parent, release
a parent that has more continuations, set the flag, release its own reference, or
complete the counter.  The calls for the parents are on top of it. -/
inductive Frame where
  | completeParent (task : Task)
  | releaseParent (task parent : Task)
  | setFinished (task : Task)
  | releaseSelf (task : Task)
  | completeCounter (task counter : Nat)
  deriving DecidableEq

/-- What a slave thread does.
* `attempt`: `tryExecuteAndResetTask` begins;
* `running`: the functor is called, and may have created a continuation that it
  has not enqueued yet;
* `resuming`: the coroutine is resumed;
* `check`, `reset`: the check for continuations comes next, or `task.reset()`;
* `completing`: the calls of `doCompleteAndUnref` on the stack. -/
inductive Phase where
  | idle
  | attempt (task : Task)
  | running (task : Task) (building : Option Task)
  | resuming (task : Task)
  | check (task : Task)
  | reset (task : Task)
  | completing (stack : List Frame)
  deriving DecidableEq

/-- The headers, the queue, the slave threads with their local waiting queues, and
the number of handles users have to each task.  The rest is the history the
properties speak about: the parent and the counter each task was given, the tasks
whose functor returned, that looked for continuations, whose completion was
counted off at their parent if they have one, that were marked finished, whose
header was destroyed, and the counters passed to `completeCounter`. -/
structure State (Thread : Type) where
  headers : Task → Option TaskHeader := fun _ => none
  nextTask : Task := 0
  nextCounter : Nat := 64
  queue : List Task := []
  phases : Thread → Phase := fun _ => .idle
  waiting : Thread → List Task := fun _ => []
  handles : Task → Nat := fun _ => 0
  faulted : Bool := false
  parentOf : Task → Option Task := fun _ => none
  counterOf : Task → Option Nat := fun _ => none
  returned : List Task := []
  checked : List Task := []
  signalled : List Task := []
  finished : List Task := []
  completedCounters : List Nat := []
  destroyed : List Task := []

/-- What can happen next.  Users create tasks outside of any task and use their
handles at any time; the tracker tells how many wait counters remain, and a
coroutine whether it is done. -/
inductive Action (Thread : Type) where
  | enqueueIndependent (numWaitCounters : Nat) (executable : Executable) (withHandle : Bool)
  | createContinuation (thread : Thread) (numWaitCounters : Nat) (executable : Executable)
  | enqueueContinuation (thread : Thread) (withHandle : Bool)
  | functorReturn (thread : Thread)
  | popTask (thread : Thread) (index : Nat)
  | drainLocal (thread : Thread) (index remaining : Nat)
  | resumeCoroutine (thread : Thread) (done : Bool)
  | advance (thread : Thread)
  | copyHandle (task : Task)
  | resetHandle (task : Task)
  | waitHandle (task : Task)

namespace State

variable {Thread : Type}

def fault (state : State Thread) : State Thread := { state with faulted := true }

/-- Use the header of a task. -/
def withHeader (state : State Thread) (task : Task) (use : TaskHeader → State Thread) :
    State Thread :=
  match state.headers task with
  | none => state.fault
  | some header => use header

def setHeader (state : State Thread) (task : Task) (header : TaskHeader) : State Thread :=
  { state with headers := Function.update state.headers task (some header) }

/-- Change the atomic word of a header. -/
def updateWord (state : State Thread) (task : Task) (update : BitVec 32 → BitVec 32) :
    State Thread :=
  state.withHeader task fun header =>
    state.setHeader task { header with atomicWord := update header.atomicWord }

/-- The destructor; a parent that is still to be completed fails an assertion. -/
def destroy (state : State Thread) (task : Task) (header : TaskHeader) : State Thread :=
  { state with
    headers := Function.update state.headers task none
    destroyed := task :: state.destroyed
    faulted := state.faulted || header.parent.isSome }

/-- `doReleaseRef`. -/
def releaseRef (state : State Thread) (task : Task) : State Thread :=
  state.withHeader task fun header =>
    if (header.atomicWord &&& refcountMask).toNat > 1 then
      state.setHeader task { header with atomicWord := header.atomicWord - 1#32 }
    else
      state.destroy task header

/-- Put a task whose header is ready into the queue, and give it a counter. -/
def pushTask (state : State Thread) (task : Task) (header : TaskHeader) (withHandle : Bool) :
    State Thread :=
  let word := if withHandle then header.atomicWord + 1#32 else header.atomicWord
  { state.setHeader task
      { header with atomicWord := word, taskCounter := state.nextCounter } with
    nextCounter := state.nextCounter + 1
    counterOf := Function.update state.counterOf task (some state.nextCounter)
    queue := state.queue ++ [task]
    handles := Function.update state.handles task (if withHandle then 1 else 0) }

variable [DecidableEq Thread]

def setPhase (state : State Thread) (thread : Thread) (phase : Phase) : State Thread :=
  { state with phases := Function.update state.phases thread phase }

/-- `local_waiting_queue.emplace_back(task)`. -/
def putWaiting (state : State Thread) (thread : Thread) (task : Task) : State Thread :=
  { state.setPhase thread .idle with
    waiting := Function.update state.waiting thread (state.waiting thread ++ [task]) }

/-- The next step of the calls of `doCompleteAndUnref` on the stack. -/
def completeStep (state : State Thread) (thread : Thread) (frame : Frame) (rest : List Frame) :
    State Thread :=
  let next := fun stack => Phase.completing (stack ++ rest)
  match frame with
  | .completeParent task =>
    state.withHeader task fun header =>
      let state := { state with signalled := task :: state.signalled }
      match header.parent with
      | none => state.setPhase thread (next [.setFinished task])
      | some parent =>
        state.withHeader parent fun parentHeader =>
          let state := state.setHeader parent
            { parentHeader with atomicWord := parentHeader.atomicWord - continuationAdd }
          if parentHeader.atomicWord &&& continuationCountMask = continuationAdd then
            state.setPhase thread (next [.completeParent parent, .setFinished task])
          else
            state.setPhase thread (next [.releaseParent task parent])
  | .releaseParent task parent =>
    (state.releaseRef parent).setPhase thread (next [.setFinished task])
  | .setFinished task =>
    state.withHeader task fun header =>
      let word := header.atomicWord ||| finishedBit
      let state := state.setHeader task { header with atomicWord := word, parent := none }
      let state := { state with finished := task :: state.finished }
      state.setPhase thread (next [.releaseSelf task])
  | .releaseSelf task =>
    state.withHeader task fun header =>
      (state.releaseRef task).setPhase thread (next [.completeCounter task header.taskCounter])
  | .completeCounter _ counter =>
    let state := { state with completedCounters := counter :: state.completedCounters }
    state.setPhase thread (if rest = [] then .idle else .completing rest)

/-- The next step of a thread that does not depend on anything outside. -/
def advance (state : State Thread) (thread : Thread) : Option (State Thread) :=
  match state.phases thread with
  | .attempt task =>
    some (state.withHeader task fun header =>
      if header.numWaitCounters > 0 then
        state.putWaiting thread task
      else
        match header.executable with
        | .coroutine => state.setPhase thread (.resuming task)
        | .function => state.setPhase thread (.running task none)
        | .none =>
          let state := { state with returned := task :: state.returned }
          state.setPhase thread (.check task))
  | .check task =>
    some (state.withHeader task fun header =>
      let state := { state with checked := task :: state.checked }
      if header.atomicWord &&& continuationCountMask = 0#32 then
        state.setPhase thread (.completing [.completeParent task])
      else
        state.setPhase thread (.reset task))
  | .reset task => some ((state.releaseRef task).setPhase thread .idle)
  | .completing (frame :: rest) => some (state.completeStep thread frame rest)
  | _ => none

end State

variable {Thread : Type} [DecidableEq Thread]

/-- One step; `none` if it is not possible, or after a fault. -/
def step (state : State Thread) (action : Action Thread) : Option (State Thread) :=
  if state.faulted then
    none
  else
    match action with
    | .enqueueIndependent numWaitCounters executable withHandle =>
      let task := state.nextTask
      let header := { numWaitCounters := numWaitCounters, executable := executable }
      some ({ state with nextTask := task + 1 }.pushTask task header withHandle)
    | .createContinuation thread numWaitCounters executable =>
      match state.phases thread with
      | .running parent none =>
        let task := state.nextTask
        let header := {
          numWaitCounters := numWaitCounters
          executable := executable
          parent := some parent }
        let state := { state with
          nextTask := task + 1
          parentOf := Function.update state.parentOf task (some parent) }
        let state := state.setHeader task header
        let state := state.updateWord parent fun word => word + continuationRefAdd
        some (state.setPhase thread (.running parent (some task)))
      | _ => none
    | .enqueueContinuation thread withHandle =>
      match state.phases thread with
      | .running parent (some task) =>
        some (state.withHeader task fun header =>
          (state.pushTask task header withHandle).setPhase thread (.running parent none))
      | _ => none
    | .functorReturn thread =>
      match state.phases thread with
      | .running task none =>
        let state := { state with returned := task :: state.returned }
        some (state.setPhase thread (.check task))
      | _ => none
    | .popTask thread index =>
      match state.phases thread, state.queue[index]? with
      | .idle, some task =>
        let state := { state with queue := state.queue.eraseIdx index }
        some (state.setPhase thread (.attempt task))
      | _, _ => none
    | .drainLocal thread index remaining =>
      match state.phases thread, (state.waiting thread)[index]? with
      | .idle, some task =>
        some (state.withHeader task fun header =>
          let state := state.setHeader task
            { header with numWaitCounters := min remaining header.numWaitCounters }
          let waiting := (state.waiting thread).eraseIdx index
          let state := { state with
            waiting := Function.update state.waiting thread waiting }
          state.setPhase thread (.attempt task))
      | _, _ => none
    | .resumeCoroutine thread done =>
      match state.phases thread with
      | .resuming task =>
        if done then
          let state := { state with returned := task :: state.returned }
          some (state.setPhase thread (.check task))
        else
          some (state.putWaiting thread task)
      | _ => none
    | .advance thread => state.advance thread
    | .copyHandle task =>
      if 0 < state.handles task then
        let handles := Function.update state.handles task (state.handles task + 1)
        some ({ state with handles := handles }.updateWord task fun word => word + 1#32)
      else none
    | .resetHandle task =>
      if 0 < state.handles task then
        let handles := Function.update state.handles task (state.handles task - 1)
        some ({ state with handles := handles }.releaseRef task)
      else none
    | .waitHandle task =>
      if 0 < state.handles task then
        some (state.updateWord task fun word => word ||| futexWaitingBit)
      else none

def run (actions : List (Action Thread)) : Option (State Thread) :=
  Runs.run step {} actions

end Voxen.Svc.TaskService
