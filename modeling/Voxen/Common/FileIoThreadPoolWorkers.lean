import Voxen.Common.FileIoThreadPool

/-!
# Workers of the thread pool

Which mutexes a worker's thread has locked at each of its steps, where a task that was taken
or queued may be found, and that the steps of the worker and of the user's thread keep this.
-/

namespace Voxen.FileIoThreadPool

namespace WorkerStep

/-- The worker has locked its state mutex. -/
def LocksState : WorkerStep → Prop
  | .readLiveForever | .testQueue | .clearHasTask => True
  | _ => False

/-- The worker has locked its semaphore mutex. -/
def LocksSemaphore : WorkerStep → Prop
  | .testExit | .lockState | .testQueue | .runTask _ | .lockStateAgain | .clearHasTask
  | .beginWait | .setExit => True
  | _ => False

/-- A task was taken from the queue, and `has_task` is not reset yet. -/
def Busy : WorkerStep → Prop
  | .runTask _ | .lockStateAgain | .clearHasTask => True
  | _ => False

/-- The worker will look at its queue before it waits. -/
def Awake : WorkerStep → Prop
  | .lockStateFirst | .readLiveForever | .lockSemaphore | .testExit | .lockState | .testQueue
  | .relock => True
  | _ => False

/-- At most so many steps are left until a task of the queue is executed. -/
def distance : WorkerStep → Nat
  | .lockStateFirst | .beginWait => 7
  | .readLiveForever | .waiting => 6
  | .lockSemaphore | .relock => 5
  | .testExit => 4
  | .lockState => 3
  | .testQueue => 2
  | .runTask _ => 1
  | .lockStateAgain | .clearHasTask | .relockTimedOut | .setExit | .finished => 0

end WorkerStep

theorem Worker.advance_keeps {worker worker' : Worker} {done : Option Nat}
    (advanced : worker.advance = some (worker', done)) :
    (worker.isExit = true → worker'.isExit = true) ∧ worker'.joined = worker.joined ∧
      worker'.deleted = worker.deleted ∧ (worker'.next = .finished → worker'.isExit = true) := by
  unfold Worker.advance at advanced
  split at advanced
  all_goals try split at advanced
  all_goals cases advanced
  all_goals simp_all

theorem Worker.timeOut_some {worker worker' : Worker} (ended : worker.timeOut = some worker') :
    worker.next = .waiting ∧ worker' = { worker with next := .relockTimedOut } := by
  unfold Worker.timeOut at ended
  split at ended
  · rename_i waits
    exact ⟨waits.1, (Option.some.inj ended).symm⟩
  · cases ended

theorem Worker.wakeUp_some {worker worker' : Worker} (ended : worker.wakeUp = some worker') :
    worker.next = .waiting ∧ worker' = { worker with next := .relock } := by
  unfold Worker.wakeUp at ended
  split at ended
  · rename_i waits
    exact ⟨waits, (Option.some.inj ended).symm⟩
  · cases ended

/-- What holds of a worker between any two steps. -/
structure WorkerInv (user : UserStep) (index : Nat) (worker : Worker) : Prop where
  stateWorker : worker.stateMutex = some .worker → worker.next.LocksState
  stateUser : worker.stateMutex = some .user →
    ∃ task place, user = .testHasTask task place index
  semaphoreWorker : worker.semaphoreMutex = some .worker → worker.next.LocksSemaphore
  semaphoreUser : worker.semaphoreMutex = some .user →
    ∃ place, user = .exitStore place index ∨ user = .exitNotify place index
  busy : worker.next.Busy → worker.hasTask = true ∧ worker.tasksQueue = []
  queued : worker.tasksQueue ≠ [] → worker.hasTask = true ∧ worker.tasksQueue.length = 1 ∧
    worker.isExit = false ∧
    (worker.next.Awake ∨
      (worker.next = .beginWait ∨ worker.next = .waiting) ∧ user = .notify index)
  leaving : ∀ place, user = .exitStore place index → worker.tasksQueue = []

namespace WorkerInv

variable {user user' : UserStep} {index : Nat} {worker worker' : Worker}

theorem advance {done : Option Nat} (inv : WorkerInv user index worker)
    (advanced : worker.advance = some (worker', done)) : WorkerInv user index worker' := by
  have stateWorker := inv.stateWorker
  have semaphoreWorker := inv.semaphoreWorker
  have busy := inv.busy
  have queued := inv.queued
  unfold Worker.advance at advanced
  split at advanced <;> rename_i step
  all_goals rw [step] at stateWorker semaphoreWorker busy queued
  all_goals try split at advanced
  all_goals cases advanced
  all_goals constructor
  all_goals simp_all [WorkerStep.LocksState, WorkerStep.LocksSemaphore, WorkerStep.Busy,
    WorkerStep.Awake, inv.stateUser, inv.semaphoreUser, inv.leaving]

theorem elsewhere (inv : WorkerInv user index worker) (before : user.about ≠ some index)
    (after : user'.about ≠ some index) : WorkerInv user' index worker where
  stateWorker := inv.stateWorker
  stateUser locked := by
    obtain ⟨task, place, rfl⟩ := inv.stateUser locked
    exact absurd rfl before
  semaphoreWorker := inv.semaphoreWorker
  semaphoreUser locked := by
    obtain ⟨place, rfl | rfl⟩ := inv.semaphoreUser locked <;> exact absurd rfl before
  busy := inv.busy
  queued queue := by
    obtain ⟨hasTask, single, running, looks⟩ := inv.queued queue
    refine ⟨hasTask, single, running, looks.imp_right ?_⟩
    rintro ⟨-, rfl⟩
    exact absurd rfl before
  leaving place same := by
    subst same
    exact absurd rfl after

theorem queue_of_exit (inv : WorkerInv user index worker) (exits : worker.isExit = true) :
    worker.tasksQueue = [] := by
  apply Classical.byContradiction
  intro queue
  rw [(inv.queued queue).2.2.1] at exits
  cases exits

theorem queue_of_free (inv : WorkerInv user index worker) (free : worker.hasTask = false) :
    worker.tasksQueue = [] := by
  apply Classical.byContradiction
  intro queue
  rw [(inv.queued queue).1] at free
  cases free

variable {place task : Nat}

theorem lockState (inv : WorkerInv (.findWorker task place) index worker) :
    WorkerInv (.testHasTask task place index) index
      { worker with stateMutex := some .user } :=
  { inv with
    stateWorker := nofun
    stateUser := fun _ => ⟨task, place, rfl⟩
    semaphoreUser := fun locked => by
      obtain ⟨_, same | same⟩ := inv.semaphoreUser locked <;> cases same
    queued := fun queue => by
      obtain ⟨hasTask, single, running, looks⟩ := inv.queued queue
      exact ⟨hasTask, single, running, looks.imp_right fun waits => by cases waits.2⟩
    leaving := nofun }

theorem keepsTask {place' : Nat} (inv : WorkerInv (.testHasTask task place index) index worker) :
    WorkerInv (.findWorker task place') index { worker with stateMutex := none } :=
  { inv with
    stateWorker := nofun
    stateUser := nofun
    semaphoreUser := fun locked => by
      obtain ⟨_, same | same⟩ := inv.semaphoreUser locked <;> cases same
    queued := fun queue => by
      obtain ⟨hasTask, single, running, looks⟩ := inv.queued queue
      exact ⟨hasTask, single, running, looks.imp_right fun waits => by cases waits.2⟩
    leaving := nofun }

theorem handOver (inv : WorkerInv (.testHasTask task place index) index worker)
    (ended : worker.next = .finished → worker.isExit = true) (free : worker.hasTask = false)
    (stays : ¬ worker.Retiring) :
    WorkerInv (.notify index) index
      { worker with
        tasksQueue := worker.tasksQueue ++ [task]
        hasTask := true
        stateMutex := none } where
  stateWorker := nofun
  stateUser := nofun
  semaphoreWorker := inv.semaphoreWorker
  semaphoreUser locked := by
    obtain ⟨_, same | same⟩ := inv.semaphoreUser locked <;> cases same
  busy busy := by
    have hasTask := (inv.busy busy).1
    rw [free] at hasTask
    cases hasTask
  queued _ := by
    have running : worker.isExit = false := by
      cases exits : worker.isExit with
      | false => rfl
      | true => exact absurd (.inl exits) stays
    refine ⟨rfl, by rw [inv.queue_of_free free]; rfl, running, ?_⟩
    have idle := mt inv.busy
    change worker.next.Awake ∨ _
    cases next : worker.next with
    | relockTimedOut => exact absurd (.inr (.inl next)) stays
    | setExit => exact absurd (.inr (.inr next)) stays
    | finished =>
      rw [ended next] at running
      cases running
    | runTask => simp [free, next, WorkerStep.Busy] at idle
    | lockStateAgain => simp [free, next, WorkerStep.Busy] at idle
    | clearHasTask => simp [free, next, WorkerStep.Busy] at idle
    | beginWait => exact .inr ⟨.inl rfl, rfl⟩
    | waiting => exact .inr ⟨.inr rfl, rfl⟩
    | _ => exact .inl trivial
  leaving := nofun

theorem notifyOne_next (worker : Worker) :
    worker.notifyOne.next = (if worker.next = .waiting then .relock else worker.next) := by
  unfold Worker.notifyOne
  split <;> rfl

theorem notifyOne_eq (worker : Worker) :
    worker.notifyOne = { worker with next := worker.notifyOne.next } := by
  unfold Worker.notifyOne
  split <;> rfl

theorem notifyOne_locks (worker : Worker) :
    (worker.next.LocksState → worker.notifyOne.next.LocksState) ∧
      (worker.next.LocksSemaphore → worker.notifyOne.next.LocksSemaphore) ∧
      (worker.notifyOne.next.Busy → worker.next.Busy) := by
  rw [notifyOne_next]
  by_cases waits : worker.next = .waiting
  · rw [if_pos waits, waits]
    exact ⟨id, id, id⟩
  · rw [if_neg waits]
    exact ⟨id, id, id⟩

theorem notify (inv : WorkerInv (.notify index) index worker)
    (looks : worker.tasksQueue = [] ∨ worker.next ≠ .beginWait) :
    WorkerInv .outside index worker.notifyOne := by
  rw [notifyOne_eq]
  have locks := notifyOne_locks worker
  exact {
    stateWorker := fun locked => locks.1 (inv.stateWorker locked)
    stateUser := fun locked => by
      obtain ⟨_, _, same⟩ := inv.stateUser locked
      cases same
    semaphoreWorker := fun locked => locks.2.1 (inv.semaphoreWorker locked)
    semaphoreUser := fun locked => by
      obtain ⟨_, same | same⟩ := inv.semaphoreUser locked <;> cases same
    busy := fun busy => inv.busy (locks.2.2 busy)
    queued := fun queue => by
      obtain ⟨hasTask, single, running, awake | ⟨begins | waits, -⟩⟩ := inv.queued queue
      · refine ⟨hasTask, single, running, .inl ?_⟩
        change worker.notifyOne.next.Awake
        rw [notifyOne_next]
        split
        · trivial
        · exact awake
      · exact absurd begins (looks.resolve_left queue)
      · refine ⟨hasTask, single, running, .inl ?_⟩
        change worker.notifyOne.next.Awake
        rw [notifyOne_next, if_pos waits]
        trivial
    leaving := nofun }

theorem exitLock (inv : WorkerInv (.exitLock place) index worker) (idle : worker.tasksQueue = []) :
    WorkerInv (.exitStore place index) index { worker with semaphoreMutex := some .user } :=
  { inv with
    stateUser := fun locked => by
      obtain ⟨_, _, same⟩ := inv.stateUser locked
      cases same
    semaphoreWorker := nofun
    semaphoreUser := fun _ => ⟨place, .inl rfl⟩
    queued := fun queue => absurd idle queue
    leaving := fun _ _ => idle }

theorem exitStore (inv : WorkerInv (.exitStore place index) index worker) :
    WorkerInv (.exitNotify place index) index { worker with isExit := true } :=
  { inv with
    stateUser := fun locked => by
      obtain ⟨_, _, same⟩ := inv.stateUser locked
      cases same
    semaphoreUser := fun _ => ⟨place, .inr rfl⟩
    queued := fun queue => absurd (inv.leaving place rfl) queue
    leaving := nofun }

theorem exitNotify {place' : Nat} (inv : WorkerInv (.exitNotify place index) index worker)
    (exits : worker.isExit = true) :
    WorkerInv (.exitLock place') index { worker.notifyOne with semaphoreMutex := none } := by
  rw [notifyOne_eq]
  have locks := notifyOne_locks worker
  exact {
    stateWorker := fun locked => locks.1 (inv.stateWorker locked)
    stateUser := fun locked => by
      obtain ⟨_, _, same⟩ := inv.stateUser locked
      cases same
    semaphoreWorker := nofun
    semaphoreUser := nofun
    busy := fun busy => inv.busy (locks.2.2 busy)
    queued := fun queue => absurd (inv.queue_of_exit exits) queue
    leaving := nofun }

theorem timeOut (inv : WorkerInv user index worker) (idle : worker.tasksQueue = [])
    (waits : worker.next = .waiting) :
    WorkerInv user index { worker with next := .relockTimedOut } :=
  { inv with
    stateWorker := fun locked => by
      have locks := inv.stateWorker locked
      rw [waits] at locks
      exact locks
    semaphoreWorker := fun locked => by
      have locks := inv.semaphoreWorker locked
      rw [waits] at locks
      exact locks
    busy := nofun
    queued := fun queue => absurd idle queue }

theorem wakeUp (inv : WorkerInv user index worker) (waits : worker.next = .waiting) :
    WorkerInv user index { worker with next := .relock } :=
  { inv with
    stateWorker := fun locked => by
      have locks := inv.stateWorker locked
      rw [waits] at locks
      exact locks
    semaphoreWorker := fun locked => by
      have locks := inv.semaphoreWorker locked
      rw [waits] at locks
      exact locks
    busy := nofun
    queued := fun queue => by
      obtain ⟨hasTask, single, running, -⟩ := inv.queued queue
      exact ⟨hasTask, single, running, .inl trivial⟩ }

theorem started (liveForever : Bool) (task : Nat) :
    WorkerInv .outside index (.started liveForever true [task]) where
  stateWorker := nofun
  stateUser := nofun
  semaphoreWorker := nofun
  semaphoreUser := nofun
  busy := nofun
  queued _ := ⟨rfl, rfl, rfl, .inl trivial⟩
  leaving := nofun

end WorkerInv

end Voxen.FileIoThreadPool
