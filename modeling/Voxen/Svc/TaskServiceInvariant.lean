import Voxen.Svc.TaskServiceReferences

/-!
# The invariant of the task service

The stages of the tasks, the slave that is about to reset each, the headers, what the
threads do and the histories fit together.
-/

namespace Voxen.Svc.TaskService

open Function (update update_of_ne update_self)

variable {Thread : Type}

/-- What a frame on the stack knows of its task. -/
def Frame.Ok (state : State Thread) : Frame → Prop
  | .releaseParent task parent => state.parentOf task = some parent
  | .completeCounter task counter => state.counterOf task = some counter
  | _ => True

/-- The queue and the threads. -/
structure Sched (state : State Thread) (stage : Task → Stage Thread)
    (pending : Task → Option Thread) : Prop where
  agree : Agree state.claims stage
  distinct : state.queue.Nodup
  queued : ∀ task, task ∈ state.queue ↔ stage task = .queued
  pending : ∀ thread task, state.phases thread = .reset task ↔ pending task = some thread
  frames : ∀ thread stack, state.phases thread = .completing stack →
    stack ≠ [] ∧ ∀ frame ∈ stack, frame.Ok state

/-- The histories. -/
structure Logs (state : State Thread) (stage : Task → Stage Thread) : Prop where
  returned : LogsFrom state.returned 5 stage
  checked : LogsFrom state.checked 6 stage
  signalled : LogsFrom state.signalled 8 stage
  finished : LogsFrom state.finished 10 stage
  distinct : state.completedCounters.Nodup
  completed : ∀ task counter, state.counterOf task = some counter →
    (counter ∈ state.completedCounters ↔ (stage task).rank = 12)
  known : ∀ counter ∈ state.completedCounters, ∃ task, state.counterOf task = some counter
  counted : ∀ task, (state.counterOf task).isSome = true ↔ 2 ≤ (stage task).rank
  below : ∀ task counter, state.counterOf task = some counter → counter < state.nextCounter
  injective : ∀ task other counter, state.counterOf task = some counter →
    state.counterOf other = some counter → task = other

structure Inv (state : State Thread) (stage : Task → Stage Thread)
    (pending : Task → Option Thread) : Prop where
  tree : Tree state stage pending
  heads : Heads state (state.view stage pending)
  sched : Sched state stage pending
  logs : Logs state stage

/-! ## Parts that a step leaves alone -/

section Keep

variable {state state' : State Thread} {stage : Task → Stage Thread}
  {pending : Task → Option Thread}

theorem Tree.keep (tree : Tree state stage pending) (nextTask : state'.nextTask = state.nextTask)
    (parentOf : state'.parentOf = state.parentOf)
    (handles : ∀ task, (stage task).rank ≤ 1 → state'.handles task = state.handles task) :
    Tree state' stage pending := by
  refine ⟨?_, ?_, ?_, ?_, fun task early => ?_, tree.late⟩
  · rw [nextTask]
    exact tree.born
  · rw [parentOf, nextTask]
    exact tree.parents
  · rw [parentOf, nextTask]
    exact tree.awaits
  · rw [parentOf, nextTask]
    exact tree.closed
  · rw [handles task early]
    exact tree.fresh task early

theorem Sched.keep (sched : Sched state stage pending) (phases : state'.phases = state.phases)
    (waiting : state'.waiting = state.waiting) (queue : state'.queue = state.queue)
    (parentOf : ∀ task parent, state.parentOf task = some parent →
      state'.parentOf task = some parent)
    (counterOf : ∀ task counter, state.counterOf task = some counter →
      state'.counterOf task = some counter) : Sched state' stage pending := by
  have claims : state'.claims = state.claims := by
    funext thread
    simp only [State.claims, phases, waiting]
  refine ⟨?_, ?_, ?_, ?_, ?_⟩
  · rw [claims]
    exact sched.agree
  · rw [queue]
    exact sched.distinct
  · rw [queue]
    exact sched.queued
  · rw [phases]
    exact sched.pending
  · rw [phases]
    intro thread stack completing
    obtain ⟨some, ok⟩ := sched.frames thread stack completing
    refine ⟨some, fun frame mem => ?_⟩
    have frameOk := ok frame mem
    cases frame with
    | releaseParent task parent => exact parentOf task parent frameOk
    | completeCounter task counter => exact counterOf task counter frameOk
    | completeParent task => trivial
    | setFinished task => trivial
    | releaseSelf task => trivial

theorem Logs.keep (logs : Logs state stage) (returned : state'.returned = state.returned)
    (checked : state'.checked = state.checked) (signalled : state'.signalled = state.signalled)
    (finished : state'.finished = state.finished)
    (completed : state'.completedCounters = state.completedCounters)
    (counterOf : state'.counterOf = state.counterOf)
    (nextCounter : state'.nextCounter = state.nextCounter) : Logs state' stage := by
  refine ⟨?_, ?_, ?_, ?_, ?_, ?_, ?_, ?_, ?_, ?_⟩
  · rw [returned]
    exact logs.returned
  · rw [checked]
    exact logs.checked
  · rw [signalled]
    exact logs.signalled
  · rw [finished]
    exact logs.finished
  · rw [completed]
    exact logs.distinct
  · rw [completed, counterOf]
    exact logs.completed
  · rw [completed, counterOf]
    exact logs.known
  · rw [counterOf]
    exact logs.counted
  · rw [counterOf, nextCounter]
    exact logs.below
  · rw [counterOf]
    exact logs.injective

end Keep

/-! ## Stage changes -/

section Stage

variable {state state' : State Thread} {stage : Task → Stage Thread}
  {pending : Task → Option Thread} {task : Task} {next : Stage Thread}

/-- The counters and their completion, after a stage change below the last stage. -/
theorem Logs.advance (logs : Logs state stage)
    (returned : LogsFrom state'.returned 5 (update stage task next))
    (checked : LogsFrom state'.checked 6 (update stage task next))
    (signalled : LogsFrom state'.signalled 8 (update stage task next))
    (finished : LogsFrom state'.finished 10 (update stage task next))
    (completed : state'.completedCounters = state.completedCounters)
    (counterOf : state'.counterOf = state.counterOf)
    (nextCounter : state'.nextCounter = state.nextCounter)
    (counted : 2 ≤ (stage task).rank ∧ (stage task).rank < 12)
    (later : 2 ≤ next.rank ∧ next.rank < 12) :
    Logs state' (update stage task next) := by
  refine
    { returned, checked, signalled, finished
      distinct := ?_
      completed := fun other counter has => ?_
      known := ?_
      counted := fun other => ?_
      below := ?_
      injective := ?_ }
  · rw [completed]
    exact logs.distinct
  · rw [counterOf] at has
    rw [completed, logs.completed other counter has]
    by_cases same : other = task
    · rw [same, update_self]
      omega
    · rw [update_of_ne same]
  · rw [completed, counterOf]
    exact logs.known
  · rw [counterOf, logs.counted]
    by_cases same : other = task
    · rw [same, update_self]
      omega
    · rw [update_of_ne same]
  · rw [counterOf, nextCounter]
    exact logs.below
  · rw [counterOf]
    exact logs.injective

variable [DecidableEq Thread] {thread : Thread} {phase : Phase}

theorem claims_self : (state.setPhase thread phase).claims thread =
    phase.claims thread ++ (state.waiting thread).map fun task => (task, Stage.held thread) := by
  simp [State.claims, State.setPhase]

theorem claims_other {other : Thread} (differs : other ≠ thread) :
    (state.setPhase thread phase).claims other = state.claims other := by
  simp [State.claims, State.setPhase, update_of_ne differs]

theorem Sched.setPhase (sched : Sched state stage pending) (phase : Phase) (task : Task)
    (next : Stage Thread) (before after rest : List (Task × Stage Thread))
    (old : ((state.phases thread).claims thread).Perm (before ++ rest))
    (new : (phase.claims thread).Perm (after ++ rest))
    (had : before = [] ∧ (stage task).thread = none ∨ before = [(task, stage task)])
    (has : after = [] ∧ next.thread = none ∨
      after = [(task, next)] ∧ next.thread = some thread)
    (notQueued : stage task ≠ .queued) (notQueued' : next ≠ .queued)
    (noReset : ∀ other, state.phases thread ≠ .reset other)
    (noReset' : ∀ other, phase ≠ .reset other)
    (frames : ∀ stack, phase = .completing stack → stack ≠ [] ∧ ∀ frame ∈ stack, frame.Ok state) :
    Sched (state.setPhase thread phase) (update stage task next) pending := by
  refine ⟨?_, sched.distinct, fun other => ?_, fun other task' => ?_, fun other stack => ?_⟩
  · refine @Agree.step _ _ _ _ sched.agree thread task next before after
      (rest ++ (state.waiting thread).map fun task => (task, Stage.held thread))
      (fun other differs => claims_other differs) ?_ ?_ had has
    · rw [← List.append_assoc]
      exact old.append_right _
    · rw [claims_self, ← List.append_assoc]
      exact new.append_right _
  · by_cases same : other = task
    · rw [same, update_self]
      refine iff_of_false (fun mem => notQueued ?_) notQueued'
      exact (sched.queued task).mp mem
    · rw [update_of_ne same]
      exact sched.queued other
  · by_cases same : other = thread
    · rw [same]
      simp only [State.setPhase, update_self]
      refine iff_of_false (noReset' task') fun waits => ?_
      exact noReset task' ((sched.pending thread task').mpr waits)
    · simp only [State.setPhase, update_of_ne same]
      exact sched.pending other task'
  · by_cases same : other = thread
    · rw [same]
      simp only [State.setPhase, update_self]
      exact frames stack
    · simp only [State.setPhase, update_of_ne same]
      exact sched.frames other stack

end Stage

end Voxen.Svc.TaskService
