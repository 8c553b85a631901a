import Voxen.Lib.Runs

/-!
# The thread pool for file access

`FileIoThreadPool`: each worker thread has a queue of tasks, two mutexes, a condition
variable and a flag that makes it exit.  A step takes or gives back a mutex, waits, notifies
or is what one thread does between two of these.  One thread uses the pool.
-/

namespace Voxen.FileIoThreadPool

/-- Who has locked a mutex: the worker's own thread or the one that uses the pool. -/
inductive Holder where
  | worker
  | user
  deriving DecidableEq

/-- What `workerFunction` does next. -/
inductive WorkerStep where
  | lockStateFirst
  | readLiveForever
  | lockSemaphore
  | testExit
  | lockState
  | testQueue
  | runTask (task : Nat)
  | lockStateAgain
  | clearHasTask
  | beginWait
  | waiting
  | relock
  | relockTimedOut
  | setExit
  | finished
  deriving DecidableEq

/-- `ReportableWorker` with its state, and its thread. -/
structure Worker where
  semaphoreMutex : Option Holder := none
  isExit : Bool := false
  stateMutex : Option Holder := none
  hasTask : Bool := false
  liveForever : Bool := false
  tasksQueue : List Nat := []
  next : WorkerStep := .finished
  isEternalThread : Bool := false
  joined : Bool := false
  deleted : Bool := false

namespace Worker

/-- The next step of `workerFunction`, and the task it executes. -/
def advance (worker : Worker) : Option (Worker × Option Nat) :=
  match worker.next with
  | .lockStateFirst =>
    if worker.stateMutex = none then
      some ({ worker with stateMutex := some .worker, next := .readLiveForever }, none)
    else none
  | .readLiveForever =>
    some ({ worker with
      isEternalThread := worker.liveForever, stateMutex := none, next := .lockSemaphore }, none)
  | .lockSemaphore =>
    if worker.semaphoreMutex = none then
      some ({ worker with semaphoreMutex := some .worker, next := .testExit }, none)
    else none
  | .testExit =>
    if worker.isExit then
      some ({ worker with semaphoreMutex := none, next := .finished }, none)
    else some ({ worker with next := .lockState }, none)
  | .lockState =>
    if worker.stateMutex = none then
      some ({ worker with stateMutex := some .worker, next := .testQueue }, none)
    else none
  | .testQueue =>
    match worker.tasksQueue with
    | task :: rest =>
      some ({ worker with
        tasksQueue := rest, stateMutex := none, next := .runTask task }, none)
    | [] => some ({ worker with stateMutex := none, next := .beginWait }, none)
  | .runTask task => some ({ worker with next := .lockStateAgain }, some task)
  | .lockStateAgain =>
    if worker.stateMutex = none then
      some ({ worker with stateMutex := some .worker, next := .clearHasTask }, none)
    else none
  | .clearHasTask =>
    some ({ worker with hasTask := false, stateMutex := none, next := .beginWait }, none)
  | .beginWait => some ({ worker with semaphoreMutex := none, next := .waiting }, none)
  | .waiting => none
  | .relock =>
    if worker.semaphoreMutex = none then
      some ({ worker with semaphoreMutex := some .worker, next := .testExit }, none)
    else none
  | .relockTimedOut =>
    if worker.semaphoreMutex = none then
      some ({ worker with semaphoreMutex := some .worker, next := .setExit }, none)
    else none
  | .setExit => some ({ worker with isExit := true, next := .testExit }, none)
  | .finished => none

/-- `semaphore.notify_one()`: only a thread that waits is woken. -/
def notifyOne (worker : Worker) : Worker :=
  if worker.next = .waiting then { worker with next := .relock } else worker

/-- A wait ends by itself: the time of `wait_for` is over. -/
def timeOut (worker : Worker) : Option Worker :=
  if worker.next = .waiting ∧ worker.isEternalThread = false then
    some { worker with next := .relockTimedOut }
  else none

/-- A wait ends for no reason. -/
def wakeUp (worker : Worker) : Option Worker :=
  if worker.next = .waiting then some { worker with next := .relock } else none

/-- `make_worker` and `run_worker`, with the tasks that are pushed between them. -/
def started (liveForever hasTask : Bool) (tasks : List Nat) : Worker :=
  { hasTask, liveForever, tasksQueue := tasks, next := .lockStateFirst }

end Worker

/-- What the thread that uses the pool does next. -/
inductive UserStep where
  | outside
  | cleanUp (task index : Nat)
  | findWorker (task index : Nat)
  | testHasTask (task index worker : Nat)
  | notify (worker : Nat)
  | exitLock (index : Nat)
  | exitStore (index worker : Nat)
  | exitNotify (index worker : Nat)
  | join (index : Nat)
  | deleteAll
  | destroyed
  | terminated
  deriving DecidableEq

/-- The pool.  Beside it: the number of workers made and of tasks passed to `enqueueTask`,
and the tasks that were executed. -/
structure State where
  workers : Nat → Worker
  threads : List Nat
  user : UserStep := .outside
  created : Nat
  passed : Nat := 0
  executed : List Nat := []

/-- The pool as its constructor leaves it, with the two threads just started. -/
def initial : State where
  workers := fun worker => if worker < 2 then .started true false [] else {}
  threads := [0, 1]
  created := 2

inductive Action where
  | enqueueTask
  | destroy
  | user
  | worker (worker : Nat)
  | timeOut (worker : Nat)
  | wakeUp (worker : Nat)
  deriving DecidableEq

namespace State

def setWorker (state : State) (index : Nat) (worker : Worker) : State :=
  { state with workers := Function.update state.workers index worker }

/-- `delete`: the destructor of a thread that was not joined terminates the program. -/
def deleteWorker (state : State) (index : Nat) (threads : List Nat) (after : UserStep) : State :=
  { state.setWorker index { state.workers index with deleted := true } with
    threads
    user := if (state.workers index).joined then after else .terminated }

/-- The next step of the thread that uses the pool. -/
def advanceUser (state : State) : Option State :=
  match state.user with
  | .outside => none
  | .cleanUp task index =>
    match state.threads[index]? with
    | none => some { state with user := .findWorker task 0 }
    | some worker =>
      if (state.workers worker).isExit then
        some (state.deleteWorker worker (state.threads.eraseIdx index) (.cleanUp task index))
      else some { state with user := .cleanUp task (index + 1) }
  | .findWorker task index =>
    match state.threads[index]? with
    | none =>
      -- no free threads, so construct new for the task
      some { state.setWorker state.created
          (.started (decide (state.threads.length < 2)) true [task]) with
        threads := state.threads ++ [state.created]
        created := state.created + 1
        user := .outside }
    | some worker =>
      if (state.workers worker).stateMutex = none then
        some { state.setWorker worker
            { state.workers worker with stateMutex := some .user } with
          user := .testHasTask task index worker }
      else none
  | .testHasTask task index worker =>
    if (state.workers worker).hasTask then
      some { state.setWorker worker { state.workers worker with stateMutex := none } with
        user := .findWorker task (index + 1) }
    else
      some { state.setWorker worker { state.workers worker with
          tasksQueue := (state.workers worker).tasksQueue ++ [task]
          hasTask := true
          stateMutex := none } with
        user := .notify worker }
  | .notify worker =>
    some { state.setWorker worker (state.workers worker).notifyOne with user := .outside }
  | .exitLock index =>
    match state.threads[index]? with
    | none => some { state with user := .join 0 }
    | some worker =>
      if (state.workers worker).semaphoreMutex = none then
        some { state.setWorker worker
            { state.workers worker with semaphoreMutex := some .user } with
          user := .exitStore index worker }
      else none
  | .exitStore index worker =>
    some { state.setWorker worker { state.workers worker with isExit := true } with
      user := .exitNotify index worker }
  | .exitNotify index worker =>
    some { state.setWorker worker
        { (state.workers worker).notifyOne with semaphoreMutex := none } with
      user := .exitLock (index + 1) }
  | .join index =>
    match state.threads[index]? with
    | none => some { state with user := .deleteAll }
    | some worker =>
      if (state.workers worker).next = .finished then
        some { state.setWorker worker { state.workers worker with joined := true } with
          user := .join (index + 1) }
      else none
  | .deleteAll =>
    match state.threads.getLast? with
    | none => some { state with user := .destroyed }
    | some worker => some (state.deleteWorker worker state.threads.dropLast .deleteAll)
  | .destroyed => none
  | .terminated => none

/-- A worker's thread goes on. -/
def advanceWorker (state : State) (index : Nat) : Option State :=
  if state.user = .terminated then none
  else (state.workers index).advance.map fun (worker, done) =>
    { state.setWorker index worker with executed := state.executed ++ done.toList }

/-- The wait of a worker ends without a notification. -/
def endWait (state : State) (index : Nat) (ended : Option Worker) : Option State :=
  if state.user = .terminated then none else ended.map (state.setWorker index)

end State

def step (state : State) : Action → Option State
  | .enqueueTask =>
    if state.user = .outside then
      some { state with user := .cleanUp state.passed 0, passed := state.passed + 1 }
    else none
  | .destroy =>
    if state.user = .outside then some { state with user := .exitLock 0 } else none
  | .user => state.advanceUser
  | .worker index => state.advanceWorker index
  | .timeOut index => state.endWait index (state.workers index).timeOut
  | .wakeUp index => state.endWait index (state.workers index).wakeUp

/-- The worker's wait has timed out, or it was told to exit. -/
def Worker.Retiring (worker : Worker) : Prop :=
  worker.isExit = true ∨ worker.next = .relockTimedOut ∨ worker.next = .setExit

instance (worker : Worker) : Decidable worker.Retiring :=
  inferInstanceAs (Decidable (_ ∨ _ ∨ _))

/-- A worker that has told it exits is not met by the clean-up, no task is handed to a worker
that retires, none is notified of a task between its look at the queue and its wait, and
neither does a wait time out nor is a worker told to exit with a task in the queue. -/
def StepSafe (state : State) : Action → Prop
  | .user =>
    match state.user with
    | .cleanUp _ index => ∀ worker ∈ state.threads[index]?, (state.workers worker).isExit = false
    | .testHasTask _ _ worker =>
      (state.workers worker).hasTask = true ∨ ¬ (state.workers worker).Retiring
    | .notify worker =>
      (state.workers worker).tasksQueue = [] ∨ (state.workers worker).next ≠ .beginWait
    | .exitLock index => ∀ worker ∈ state.threads[index]?, (state.workers worker).tasksQueue = []
    | _ => True
  | .timeOut index => (state.workers index).tasksQueue = []
  | _ => True

instance (state : State) (action : Action) : Decidable (StepSafe state action) := by
  unfold StepSafe
  split
  · split <;> infer_instance
  · infer_instance
  · infer_instance

/-- The worker that a step of the user is about. -/
def UserStep.about : UserStep → Option Nat
  | .testHasTask _ _ worker => some worker
  | .notify worker => some worker
  | .exitStore _ worker => some worker
  | .exitNotify _ worker => some worker
  | _ => none

/-- The task that a call has got and not handed over yet. -/
def UserStep.inHand : UserStep → Option Nat
  | .cleanUp task _ => some task
  | .findWorker task _ => some task
  | .testHasTask task _ _ => some task
  | _ => none

namespace State

/-- The worker's thread can go on, or the user's thread can, which has locked a mutex of the
worker or is going to notify it. -/
def GoesOn (state : State) (index : Nat) : Prop :=
  (step state (.worker index)).isSome ∨
    state.user.about = some index ∧ StepSafe state .user ∧ (step state .user).isSome

/-- Whatever happens, a worker executes the task before it has taken a number of steps, and
is never stuck before it has. -/
def Certain (state : State) (task : Nat) : Prop :=
  ∃ index bound, ∀ actions state', Runs.StepsMeet step StepSafe state actions →
    Runs.run step state actions = some state' →
    task ∈ state'.executed ∨
      actions.count (.worker index) < bound ∧ state'.GoesOn index

/-- The call that has got a task goes on, or the worker does whose mutex it waits for. -/
def CallGoesOn (state : State) : Prop :=
  (step state .user).isSome ∨
    ∃ index, (state.workers index).stateMutex = some .worker ∧ (step state (.worker index)).isSome

/-- Every task was executed once, or it is certain to be; and only workers that have nothing
left to do and whose threads were joined are deleted. -/
structure Correct (state : State) : Prop where
  once : ∀ task < state.passed, state.executed.count task ≤ 1
  served : ∀ task < state.passed, task ∈ state.executed ∨
    state.user.inHand = some task ∧ state.CallGoesOn ∨ state.Certain task
  deleted : ∀ index, (state.workers index).deleted = true →
    (state.workers index).joined = true ∧ (state.workers index).tasksQueue = []

end State

end Voxen.FileIoThreadPool
