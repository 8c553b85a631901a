import Voxen.Svc.TaskServiceSlavePlaces
import Voxen.Lib.FinSizes

/-!
# Runs of the slave threads

A slave ends when it finds its stop flag set, whatever its queue holds.  If the flag
is set only when the queue is empty, a slave that ends has called every functor that
was enqueued to it.
-/

namespace Voxen.Svc.TaskServiceSlave

variable {Thread : Type} [DecidableEq Thread]

/-- The invariant, and what a stop leaves behind. -/
structure Safe (state : State Thread) : Prop where
  inv : Inv state
  stopped : ∀ queue, state.stopFlags queue = true → ∀ task ∈ state.accepted queue,
    task ∉ state.queues queue
  ended : ∀ thread, (state.slaves thread).phase = .ended → state.stopFlags thread = true

/-- A queue is empty when its stop flag is set. -/
def StopSafe (state : State Thread) : Action Thread → Prop
  | .requestStop queue => state.queues queue = []
  | _ => True

/-- The slave has called what it had to: it has ended, or it waits for a task. -/
def State.Quiet (state : State Thread) (thread : Thread) : Prop :=
  (state.slaves thread).phase = .ended ∨
    (state.slaves thread).phase = .popTaskOrWait ∧ state.queues thread = []

/-- * Tasks are entered when all counters given for them had been completed, and
  coroutines while they are not done.
* The functor of a task is called at most once; it was called if the task is
  finished, and all tasks enqueued to a slave are when it has nothing left to do.
* The local queue holds the tasks that were put there and are not finished, in order
  and without repetition. -/
structure State.Correct (state : State Thread) : Prop where
  entries : ∀ entry ∈ state.entries, entry.Correct state.given
  atMostOnce : ∀ task, (state.headers task).executable = .function → state.entered task ≤ 1
  finishedOnce : ∀ task, (state.headers task).executable = .function →
    state.place task = .finished → state.entered task = 1
  calledOnce : ∀ thread, state.Quiet thread → ∀ task ∈ state.accepted thread,
    (state.headers task).executable = .function → state.entered task = 1
  distinct : ∀ thread, (state.put thread).Nodup
  inOrder : ∀ thread, (state.slaves thread).waiting =
    (state.put thread).filter fun task => state.place task ≠ .finished

theorem initial_safe : Safe ({} : State Thread) where
  inv := initial_inv
  stopped := by simp
  ended := by simp

namespace Safe

variable {state state' : State Thread} {thread : Thread} {task : Task} {slot : Slot} {work : Work}

/-- The tasks a slave that has nothing left to do was given are finished. -/
theorem finished (safe : Safe state) (quiet : state.Quiet thread)
    (accepted : task ∈ state.accepted thread) : state.place task = .finished := by
  have layout := safe.inv.layout thread
  have nothing : (state.slaves thread).tasks = [] ∧ task ∉ state.queues thread := by
    rcases quiet with ended | ⟨waits, empty⟩
    · simp only [Slave.Layout, ended] at layout
      refine ⟨?_, safe.stopped thread (safe.ended thread ended) task accepted⟩
      simp [Slave.tasks, Slave.waiting, Slave.taken, ended, layout]
    · simp only [Slave.Layout, waits] at layout
      refine ⟨?_, by simp [empty]⟩
      simp [Slave.tasks, Slave.waiting, Slave.taken, waits, layout]
  rcases safe.inv.accepted thread task accepted with queued | held | finished
  · exact absurd ((safe.inv.queued thread task).mpr queued) nothing.2
  · rw [← safe.inv.held, nothing.1] at held
    cases held
  · exact finished

theorem correct (safe : Safe state) : state.Correct where
  entries := fun entry mem => (safe.inv.entries entry mem).1
  atMostOnce := by
    intro task isFunction
    rw [safe.inv.calls task isFunction, State.due]
    split
    · exact Nat.le_refl 1
    · exact Bool.toNat_le _
    · exact Nat.zero_le 1
  finishedOnce := by
    intro task isFunction finished
    rw [safe.inv.calls task isFunction, State.due, finished]
  calledOnce := by
    intro thread quiet task accepted isFunction
    rw [safe.inv.calls task isFunction, State.due, safe.finished quiet accepted]
  distinct := safe.inv.putDistinct
  inOrder := fun thread => (safe.inv.waits thread).symm

theorem keep (safe : Safe state) (inv : Inv state') (queues : state'.queues = state.queues)
    (stopFlags : state'.stopFlags = state.stopFlags) (accepted : state'.accepted = state.accepted)
    {slave : Slave} (slaves : state'.slaves = Function.update state.slaves thread slave)
    (alive : slave.phase ≠ .ended) : Safe state' where
  inv := inv
  stopped := by
    rw [queues, stopFlags, accepted]
    exact safe.stopped
  ended := by
    intro other
    rw [slaves, stopFlags]
    by_cases same : other = thread
    · rw [same, Function.update_self]
      exact fun ended => absurd ended alive
    · rw [Function.update_of_ne same]
      exact safe.ended other

theorem goOn (safe : Safe state) (next : Work)
    (phase : (state.slaves thread).phase = .busy task slot work)
    (ready : next = .blocked → (state.headers task).Ready)
    (runs : (state.headers task).executable = .function →
      (Phase.busy task slot next).runs task = (Phase.busy task slot work).runs task) :
    Safe (state.setPhase thread (.busy task slot next)) := by
  refine safe.keep (safe.inv.quiet ?_ rfl ?_ ?_ ?_) rfl rfl rfl rfl Phase.noConfusion
  · have layout := safe.inv.layout thread
    cases slot with
    | taken =>
      simp only [Slave.Layout, phase] at layout ⊢
      exact layout
    | waiting i remaining polling =>
      simp only [Slave.Layout, phase] at layout ⊢
      exact layout
  · cases slot <;> simp [Slave.taken, phase]
  · rintro other slot' blocked
    cases blocked
    exact ready rfl
  · intro other isFunction
    by_cases same : task = other
    · subst same
      rw [phase]
      exact runs isFunction
    · rw [phase]
      cases work <;> cases next <;> simp [Phase.runs, same]

theorem notExecuted (safe : Safe state)
    (phase : (state.slaves thread).phase = .busy task slot work)
    (runs : ∀ other, (state.headers other).executable = .function →
      (state.slaves thread).phase.runs other = false) :
    Safe (state.notExecuted thread task slot) := by
  have inv := safe.inv.notExecuted phase runs
  cases slot with
  | taken => exact safe.keep inv rfl rfl rfl rfl Phase.noConfusion
  | waiting i remaining polling => exact safe.keep inv rfl rfl rfl rfl Phase.noConfusion

theorem enter (safe : Safe state) {done : Bool}
    (phase : (state.slaves thread).phase = .busy task slot work)
    (free : (state.headers task).waitCounters = []) (notDone : done = false)
    (before : (state.slaves thread).phase.runs task = false) :
    Safe (state.enter thread task slot done) :=
  safe.keep (safe.inv.enter phase free notDone before) rfl rfl rfl rfl Phase.noConfusion

theorem setHeader (safe : Safe state) (task : Task) (header : TaskHeader)
    (waits : header.Waits state.completed (state.given task))
    (function : header.executable = .function → (state.headers task).executable = .function)
    (ready : (∃ thread slot, (state.slaves thread).phase = .busy task slot .blocked) →
      header.Ready) :
    Safe (state.setHeader task header) where
  inv := safe.inv.setHeader waits function ready
  stopped := safe.stopped
  ended := safe.ended

theorem attempt (safe : Safe state)
    (phase : (state.slaves thread).phase = .busy task slot .attempt) :
    Safe (state.attempt thread task slot) := by
  have idle : ∀ other, (state.slaves thread).phase.runs other = false := by
    rw [phase]
    exact fun _ => rfl
  unfold State.attempt
  simp only
  split
  case isTrue => exact safe.notExecuted phase fun other _ => idle other
  case isFalse none =>
    have free : (state.headers task).waitCounters = [] :=
      List.length_eq_zero_iff.mp (Nat.eq_zero_of_not_pos none)
    cases kind : (state.headers task).executable with
    | none =>
      exact safe.goOn .finish phase (fun same => by cases same) fun isFunction => by
        rw [kind] at isFunction
        cases isFunction
    | function => exact safe.enter phase free rfl (idle task)
    | coroutine handle =>
      have other : (state.headers task).executable ≠ .function := by simp [kind]
      cases handle with
      | none =>
        exact safe.goOn .finish phase (fun same => by cases same) fun isFunction =>
          absurd isFunction other
      | some coroutine =>
        simp only
        split
        case isTrue =>
          exact safe.goOn .finish phase (fun same => by cases same) fun isFunction =>
            absurd isFunction other
        case isFalse notDone =>
          split
          · refine safe.goOn .blocked phase (fun _ => ⟨free, ?_⟩) fun _ => rfl
            intro coroutine' same
            rw [kind] at same
            cases same
            simpa using notDone
          · exact safe.enter phase free (by simpa using notDone) (idle task)

theorem popped (safe : Safe state) {rest : List Task} (queue : state.queues thread = task :: rest)
    (taken : (state.slaves thread).taken = [])
    (idle : ∀ other, (state.slaves thread).phase.runs other = false)
    (whole : ∃ kept, (state.slaves thread).localWaitingQueue = List.map some kept) :
    Safe (state.popped thread task rest) where
  inv := safe.inv.popped queue taken idle whole
  stopped := by
    intro other flag task' accepted mem
    refine safe.stopped other flag task' accepted ?_
    by_cases same : other = thread
    · rw [same, queue]
      rw [same] at mem
      exact List.mem_cons_of_mem _ (by simpa [State.popped] using mem)
    · simpa [State.popped, Function.update_of_ne same] using mem
  ended := by
    intro other
    by_cases same : other = thread
    · rw [same]
      simp [State.popped, State.setPhase, State.setSlave]
    · simp only [State.popped, State.setPhase, State.setSlave, Function.update_of_ne same]
      exact safe.ended other

end Safe

/-! ## Steps -/

section Steps

variable {state state' : State Thread} {thread : Thread}

theorem pop_safe (safe : Safe state) (stepped : step state (.pop thread) = some state') :
    Safe state' := by
  have layout := safe.inv.layout thread
  simp only [step] at stepped
  cases phase : (state.slaves thread).phase with
  | popTaskOrWait =>
    have taken : (state.slaves thread).taken = [] := by simp [Slave.taken, phase]
    have idle : ∀ other, (state.slaves thread).phase.runs other = false := by
      rw [phase]
      exact fun _ => rfl
    simp only [Slave.Layout, phase] at layout
    simp only [phase] at stepped
    split at stepped
    case isTrue flag =>
      cases stepped
      have inv : Inv (state.setPhase thread .ended) :=
        safe.inv.quiet layout rfl taken.symm (fun _ _ blocked => by cases blocked)
          fun other _ => (idle other).symm
      refine ⟨inv, safe.stopped, fun other ended => ?_⟩
      by_cases same : other = thread
      · rw [same]
        exact flag
      · refine safe.ended other ?_
        simpa [State.setPhase, State.setSlave, Function.update_of_ne same] using ended
    case isFalse =>
      cases queue : state.queues thread with
      | nil =>
        rw [queue] at stepped
        cases stepped
      | cons task rest =>
        rw [queue] at stepped
        cases stepped
        exact safe.popped queue taken idle ⟨[], layout⟩
  | tryPopTask =>
    have taken : (state.slaves thread).taken = [] := by simp [Slave.taken, phase]
    have idle : ∀ other, (state.slaves thread).phase.runs other = false := by
      rw [phase]
      exact fun _ => rfl
    have null : Safe (state.setSlave thread (state.slaves thread).notPopped) := by
      obtain ⟨layout', waiting', taken'⟩ := Slave.notPopped_spec phase layout
      have free := (state.slaves thread).notPopped_free
      exact safe.keep (safe.inv.quiet layout' waiting' (taken'.trans taken.symm)
        (fun _ _ blocked => absurd blocked free.not_busy)
        fun other _ => (free.runs other).trans (idle other).symm) rfl rfl rfl rfl free.alive
    simp only [Slave.Layout, phase] at layout
    simp only [phase] at stepped
    split at stepped
    case isTrue =>
      cases stepped
      exact null
    case isFalse =>
      cases queue : state.queues thread with
      | nil =>
        rw [queue] at stepped
        cases stepped
        exact null
      | cons task rest =>
        rw [queue] at stepped
        cases stepped
        exact safe.popped queue taken idle layout
  | drain i remaining polling => simp [phase] at stepped
  | busy task slot work => simp [phase] at stepped
  | ended => simp [phase] at stepped

theorem not_blocked (inv : Inv state) {task : Task} {slot : Slot} {work : Work}
    (phase : (state.slaves thread).phase = .busy task slot work) (other : work ≠ .blocked) :
    ¬ ∃ thread slot, (state.slaves thread).phase = .busy task slot .blocked := by
  rintro ⟨thread', slot', blocked⟩
  have same := (inv.busy phase).symm.trans (inv.busy blocked)
  cases same
  rw [phase] at blocked
  cases blocked
  exact other rfl

theorem check_safe (safe : Safe state) {found : Bool}
    (stepped : step state (.check thread found) = some state') : Safe state' := by
  simp only [step] at stepped
  cases phase : (state.slaves thread).phase with
  | busy task slot work =>
    cases work with
    | trim j =>
      simp only [phase] at stepped
      cases checked :
          checkCounter state.completed (state.headers task).waitCounters j found with
      | none =>
        rw [checked] at stepped
        cases stepped
      | some result =>
        obtain ⟨counters, j'⟩ := result
        rw [checked] at stepped
        cases stepped
        have set := safe.setHeader task
          { state.headers task with waitCounters := counters }
          (fun counter given => ?_) (fun same => same)
          (fun blocked => absurd blocked (not_blocked safe.inv phase Work.noConfusion))
        · exact set.goOn (.trim j') phase (fun same => by cases same) fun _ => rfl
        · rcases safe.inv.counters task counter given with zero | done | waits
          · exact Or.inl zero
          · exact Or.inr (Or.inl done)
          · exact Or.inr (checkCounter_spec checked waits).symm
    | blocked =>
      have idle : ∀ other, (state.slaves thread).phase.runs other = false := by
        rw [phase]
        exact fun _ => rfl
      obtain ⟨free, notDone⟩ := safe.inv.ready thread task slot phase
      simp only [phase] at stepped
      cases kind : (state.headers task).executable with
      | none => simp [kind] at stepped
      | function => simp [kind] at stepped
      | coroutine handle =>
        cases handle with
        | none => simp [kind] at stepped
        | some coroutine =>
          simp only [kind] at stepped
          cases found with
          | false =>
            cases stepped
            exact safe.notExecuted phase fun other _ => idle other
          | true =>
            cases stepped
            have awake := notDone coroutine kind
            have set := safe.setHeader task
              { state.headers task with
                executable := .coroutine (some ⟨coroutine.done, 0⟩) }
              (safe.inv.counters task) (fun same => by cases same) (fun _ => ⟨free, by
                rintro coroutine' same
                cases same
                exact awake⟩)
            refine set.enter phase ?_ awake (idle task)
            simpa [State.setHeader] using free
    | attempt => simp [phase] at stepped
    | entered => simp [phase] at stepped
    | finish => simp [phase] at stepped
  | popTaskOrWait => simp [phase] at stepped
  | tryPopTask => simp [phase] at stepped
  | drain i remaining polling => simp [phase] at stepped
  | ended => simp [phase] at stepped

theorem advance_safe (safe : Safe state) (stepped : step state (.advance thread) = some state') :
    Safe state' := by
  have layout := safe.inv.layout thread
  simp only [step] at stepped
  cases phase : (state.slaves thread).phase with
  | drain i remaining polling =>
    have taken : (state.slaves thread).taken = [] := by simp [Slave.taken, phase]
    have idle : ∀ other, (state.slaves thread).phase.runs other = false := by
      rw [phase]
      exact fun _ => rfl
    simp only [phase] at stepped
    cases next : (state.slaves thread).localWaitingQueue[i]? with
    | none =>
      rw [next] at stepped
      cases stepped
      obtain ⟨layout', waiting', taken'⟩ := Slave.drained_spec phase layout next
      have free := (state.slaves thread).drained_free remaining polling
      exact safe.keep (safe.inv.quiet layout' waiting' (taken'.trans taken.symm)
        (fun _ _ blocked => absurd blocked free.not_busy)
        fun other _ => (free.runs other).trans (idle other).symm) rfl rfl rfl rfl free.alive
    | some element =>
      rw [next] at stepped
      cases element with
      | none => cases stepped
      | some task =>
        cases stepped
        have inv := safe.inv.quiet (Slave.begun_spec phase layout next) rfl taken.symm
          (fun _ _ blocked => by cases blocked) fun other _ => (idle other).symm
        exact safe.keep inv rfl rfl rfl rfl Phase.noConfusion
  | busy task slot work =>
    cases work with
    | trim j =>
      simp only [phase] at stepped
      split at stepped
      · cases stepped
        exact safe.goOn .attempt phase (fun same => by cases same) fun _ => rfl
      · cases stepped
    | attempt =>
      simp only [phase] at stepped
      cases stepped
      exact safe.attempt phase
    | blocked => simp [phase] at stepped
    | entered => simp [phase] at stepped
    | finish => simp [phase] at stepped
  | popTaskOrWait => simp [phase] at stepped
  | tryPopTask => simp [phase] at stepped
  | ended => simp [phase] at stepped

theorem leave_safe (safe : Safe state) {coroutine : Coroutine}
    (stepped : step state (.leave thread coroutine) = some state') : Safe state' := by
  simp only [step] at stepped
  cases phase : (state.slaves thread).phase with
  | busy task slot work =>
    cases work with
    | entered =>
      simp only [phase] at stepped
      cases kind : (state.headers task).executable with
      | coroutine handle =>
        simp only [kind] at stepped
        have set := safe.setHeader task
          { state.headers task with executable := .coroutine (some coroutine) }
          (safe.inv.counters task) (fun same => by cases same)
          (fun blocked => absurd blocked (not_blocked safe.inv phase Work.noConfusion))
        split at stepped
        · cases stepped
          exact set.goOn .finish phase (fun same => by cases same) fun _ => rfl
        · cases stepped
          refine set.notExecuted phase fun other isFunction => ?_
          have differs : task ≠ other := by
            rintro rfl
            simp [State.setHeader] at isFunction
          have same : ((state.setHeader task { state.headers task with
              executable := .coroutine (some coroutine) }).slaves thread).phase =
              .busy task slot .entered := phase
          rw [same]
          simp [Phase.runs, differs]
      | none =>
        simp only [kind] at stepped
        cases stepped
        exact safe.goOn .finish phase (fun same => by cases same) fun _ => rfl
      | function =>
        simp only [kind] at stepped
        cases stepped
        exact safe.goOn .finish phase (fun same => by cases same) fun _ => rfl
    | trim j => simp [phase] at stepped
    | attempt => simp [phase] at stepped
    | blocked => simp [phase] at stepped
    | finish => simp [phase] at stepped
  | popTaskOrWait => simp [phase] at stepped
  | tryPopTask => simp [phase] at stepped
  | drain i remaining polling => simp [phase] at stepped
  | ended => simp [phase] at stepped

theorem finish_safe (safe : Safe state) {hasContinuations : Bool}
    (stepped : step state (.finish thread hasContinuations) = some state') : Safe state' := by
  simp only [step] at stepped
  cases phase : (state.slaves thread).phase with
  | busy task slot work =>
    cases work with
    | finish =>
      simp only [phase] at stepped
      cases stepped
      refine safe.keep (safe.inv.finish phase ?_) rfl rfl rfl rfl
        ((state.slaves thread).executed_free slot).alive
      cases hasContinuations with
      | true => exact List.Subset.refl _
      | false => exact List.subset_cons_self ..
    | trim j => simp [phase] at stepped
    | attempt => simp [phase] at stepped
    | blocked => simp [phase] at stepped
    | entered => simp [phase] at stepped
  | popTaskOrWait => simp [phase] at stepped
  | tryPopTask => simp [phase] at stepped
  | drain i remaining polling => simp [phase] at stepped
  | ended => simp [phase] at stepped

theorem enqueueTask_safe (safe : Safe state) {queue : Thread} {executable : Executable}
    {waitCounters : List Nat} {answers : List Bool}
    (stepped : step state (.enqueueTask queue executable waitCounters answers) = some state') :
    Safe state' := by
  simp only [step] at stepped
  split at stepped
  case isFalse => cases stepped
  case isTrue =>
    cases created : createTaskHandle state.completed answers waitCounters with
    | none =>
      rw [created] at stepped
      cases stepped
    | some counters =>
      rw [created] at stepped
      cases stepped
      have fresh := safe.inv.unborn state.nextTask (Nat.le_refl _)
      refine ⟨safe.inv.enqueue (fun counter given => createTaskHandle_spec created given)
        fun task mem => ?_, ?_, safe.ended⟩
      · split at mem
        · cases mem
        · exact List.mem_singleton.mp mem
      · intro other flag task accepted mem
        have flag : state.stopFlags other = true := flag
        have old : task ∈ state.accepted other := by
          by_cases same : other = queue
          · rw [same] at flag
            simpa [flag, same] using accepted
          · simpa [Function.update_of_ne same] using accepted
        have queued : task ∈ state.queues other := by
          by_cases same : other = queue
          · simp only [same, Function.update_self] at mem
            rcases List.mem_append.mp mem with before | new
            · rw [same]
              exact before
            · rw [List.mem_singleton.mp new] at old
              rcases safe.inv.accepted other state.nextTask old with queued | held | finished
              · rw [fresh] at queued
                cases queued
              · rw [fresh] at held
                cases held
              · rw [fresh] at finished
                cases finished
          · simpa [Function.update_of_ne same] using mem
        exact safe.stopped other flag task old queued

/-- What every step keeps, if a stop flag is set only when the queue is empty. -/
theorem step_safe (state : State Thread) (action : Action Thread) (state' : State Thread)
    (safe : Safe state) (condition : StopSafe state action)
    (stepped : step state action = some state') : Safe state' := by
  cases action with
  | enqueueTask queue executable waitCounters answers => exact enqueueTask_safe safe stepped
  | requestStop queue =>
    cases stepped
    refine ⟨⟨safe.inv.unborn, safe.inv.queued, safe.inv.queueDistinct, safe.inv.held,
      safe.inv.distinct, safe.inv.layout, safe.inv.waits, safe.inv.putDistinct,
      safe.inv.putPlace, safe.inv.accepted, safe.inv.counters, safe.inv.ready,
      safe.inv.entries, safe.inv.calls⟩, ?_, ?_⟩
    · intro other flag task accepted
      by_cases same : other = queue
      · have empty : state.queues queue = [] := condition
        simp [same, empty]
      · refine safe.stopped other ?_ task accepted
        simpa [Function.update_of_ne same] using flag
    · intro thread ended
      by_cases same : thread = queue
      · simp [same]
      · simpa [Function.update_of_ne same] using safe.ended thread ended
  | completeCounter counter =>
    simp only [step] at stepped
    split at stepped
    · cases stepped
      refine ⟨⟨safe.inv.unborn, safe.inv.queued, safe.inv.queueDistinct, safe.inv.held,
        safe.inv.distinct, safe.inv.layout, safe.inv.waits, safe.inv.putDistinct,
        safe.inv.putPlace, safe.inv.accepted, ?_, safe.inv.ready,
        safe.inv.entries, safe.inv.calls⟩, safe.stopped, safe.ended⟩
      intro task other given
      rcases safe.inv.counters task other given with zero | done | waits
      · exact Or.inl zero
      · exact Or.inr (Or.inl (List.mem_cons_of_mem _ done))
      · exact Or.inr (Or.inr waits)
    · cases stepped
  | pop thread => exact pop_safe safe stepped
  | check thread found => exact check_safe safe stepped
  | advance thread => exact advance_safe safe stepped
  | leave thread coroutine => exact leave_safe safe stepped
  | finish thread hasContinuations => exact finish_safe safe stepped

/-- In every interleaving in which stop flags are set only on empty queues, tasks are
entered after everything they wait for, functors are called once, and the local
queues lose and reorder nothing. -/
theorem run_slaves_correct {actions : List (Action Thread)} {state : State Thread}
    (safe : Runs.StepsMeet step StopSafe {} actions) (reached : run actions = some state) :
    state.Correct :=
  (Runs.run_invariant step_safe initial_safe safe reached).correct

end Steps

/-! ## Runs of one slave -/

instance (state : State (Fin 1)) (action : Action (Fin 1)) : Decidable (StopSafe state action) :=
  match action with
  | .requestStop queue => inferInstanceAs (Decidable (state.queues queue = []))
  | .enqueueTask .. => isTrue trivial
  | .completeCounter _ => isTrue trivial
  | .pop _ => isTrue trivial
  | .check .. => isTrue trivial
  | .advance _ => isTrue trivial
  | .leave .. => isTrue trivial
  | .finish .. => isTrue trivial

/-- A task that waits for another one is popped first, then the other one; the slave
is stopped when both are done. -/
def drainedActions : List (Action (Fin 1)) :=
  [.enqueueTask 0 .function [] [], .enqueueTask 0 .function [64] [], .pop 0, .advance 0,
    .leave 0 ⟨true, 0⟩, .finish 0 true, .pop 0, .advance 0, .advance 0, .check 0 false,
    .advance 0, .advance 0, .advance 0, .completeCounter 64, .pop 0, .advance 0, .check 0 true,
    .advance 0, .advance 0, .leave 0 ⟨true, 0⟩, .finish 0 false, .advance 0, .pop 0,
    .requestStop 0, .pop 0]

theorem drainedActions_correct :
    ∃ state, run drainedActions = some state ∧ state.Correct := by
  have runs : (run drainedActions).isSome = true := by decide +kernel
  obtain ⟨state, reached⟩ := Option.isSome_iff_exists.mp runs
  exact ⟨state, reached, run_slaves_correct (by decide +kernel) reached⟩

/-- The slave is stopped before it has popped the task. -/
def stoppedActions : List (Action (Fin 1)) :=
  [.enqueueTask 0 .function [] [], .requestStop 0, .pop 0]

/-- The functor of the task is never called. -/
theorem stoppedActions_abandon :
    ∃ state, run stoppedActions = some state ∧ (state.slaves 0).phase = .ended ∧
      0 ∈ state.accepted 0 ∧ (state.headers 0).executable = .function ∧ state.entered 0 = 0 ∧
      ¬ state.Correct := by
  have runs : (run stoppedActions).isSome = true := by decide +kernel
  obtain ⟨state, reached⟩ := Option.isSome_iff_exists.mp runs
  have ended : (run stoppedActions).map (fun state => ((state.slaves 0).phase, state.accepted 0,
      (state.headers 0).executable, state.entered 0)) =
        some (.ended, [0], .function, 0) := by decide +kernel
  rw [reached, Option.map_some, Option.some.injEq] at ended
  simp only [Prod.mk.injEq] at ended
  obtain ⟨phase, accepted, kind, none⟩ := ended
  have mem : 0 ∈ state.accepted 0 := by simp [accepted]
  refine ⟨state, reached, phase, mem, kind, none, fun correct => ?_⟩
  have once := correct.calledOnce 0 (Or.inl phase) 0 mem kind
  rw [none] at once
  cases once

end Voxen.Svc.TaskServiceSlave
