import Voxen.Svc.TaskServiceEnqueue

/-!
# Runs of the task service

A continuation that ends before its parent has looked for continuations completes the
parent, which then completes itself a second time.  As long as the last continuation
of every task ends after that check, tasks are completed once and in order.
-/

namespace Voxen.Svc.TaskService

variable {Thread : Type}

/-- The counts in the atomic words do not overflow, and the last continuation of a task
is counted off only after the check for continuations. -/
def StepSafe (state : State Thread) : Action Thread → Prop
  | .createContinuation thread _ _ =>
    match state.phases thread with
    | .running parent none => ∀ header ∈ state.headers parent,
        header.atomicWord &&& refcountMask ≠ refcountMask ∧
          header.atomicWord &&& continuationCountMask ≠ continuationCountMask
    | _ => True
  | .copyHandle task => ∀ header ∈ state.headers task,
      header.atomicWord &&& refcountMask ≠ refcountMask
  | .advance thread =>
    match state.phases thread with
    | .completing (.completeParent task :: _) =>
      ∀ header ∈ state.headers task, ∀ parent ∈ header.parent,
        ∀ parentHeader ∈ state.headers parent,
          parentHeader.atomicWord &&& continuationCountMask = continuationAdd →
            parent ∈ state.checked
    | _ => True
  | _ => True

/-- One task is a continuation of the other, or of a continuation of it, and so on. -/
def State.Continues (state : State Thread) : Task → Task → Prop :=
  Relation.TransGen fun child parent => state.parentOf child = some parent

/-- * No header is used after it was destroyed.
* Tasks are marked finished once, counters are completed once, and headers are
  destroyed once.
* A task is marked finished after its functor returned and its continuations,
  recursively, have returned and were counted off; its counter is completed after it
  was marked finished.
* A header is destroyed after that, and when no handles are left and all continuations
  were counted off.
* When there is nothing left to do, all of this has happened to every task. -/
structure State.Correct (state : State Thread) : Prop where
  unfaulted : state.faulted = false
  finishedOnce : state.finished.Nodup
  completedOnce : state.completedCounters.Nodup
  destroyedOnce : state.destroyed.Nodup
  finished : ∀ task ∈ state.finished, task ∈ state.returned ∧
    ∀ other, state.Continues other task → other ∈ state.returned ∧ other ∈ state.signalled
  completed : ∀ task counter, state.counterOf task = some counter →
    counter ∈ state.completedCounters → task ∈ state.finished
  destroyed : ∀ task ∈ state.destroyed, task ∈ state.finished ∧ state.handles task = 0 ∧
    ∀ child, state.parentOf child = some task → child ∈ state.signalled
  settled : (∀ thread, state.phases thread = .idle ∧ state.waiting thread = []) →
    state.queue = [] → ∀ task, task < state.nextTask → task ∈ state.finished ∧
      (∃ counter, state.counterOf task = some counter ∧ counter ∈ state.completedCounters) ∧
      (state.handles task = 0 → task ∈ state.destroyed)

/-- There are stages and pending resets that fit. -/
def Invariant (state : State Thread) : Prop := ∃ stage pending, Inv state stage pending

theorem initial_invariant : Invariant ({} : State Thread) := by
  refine ⟨fun _ => .unborn, fun _ => none, ⟨?_, ?_, ?_, ?_, ?_, ?_⟩, ⟨?_, ?_, ?_, rfl⟩,
    ⟨⟨?_, ?_, ?_, ?_⟩, ?_, ?_, ?_, ?_⟩, ⟨?_, ?_, ?_, ?_, ?_, ?_, ?_, ?_, ?_, ?_⟩⟩ <;>
    simp [Stage.rank, State.claims, Phase.claims, LogsFrom, Holds, State.view, Stage.own, live,
      countTasks, Stage.thread]

namespace Inv

variable {state : State Thread} {stage : Task → Stage Thread} {pending : Task → Option Thread}
  {task other : Task}

theorem counted_off (inv : Inv state stage pending) (closed : 7 ≤ (stage task).rank)
    (isParent : state.parentOf other = some task) : 8 ≤ (stage other).rank :=
  live_eq_zero.mp (inv.tree.closed task closed) other (inv.tree.parents other task isParent).2.1
    isParent

theorem continues_counted_off (inv : Inv state stage pending) (closed : 7 ≤ (stage task).rank)
    (continues : state.Continues other task) : 8 ≤ (stage other).rank := by
  induction continues using Relation.TransGen.head_induction_on with
  | single isParent => exact inv.counted_off closed isParent
  | head isParent _ ih => exact inv.counted_off (by omega) isParent

/-- Once nothing is left to do, no task waits: it would wait for a later one. -/
theorem settled_stage (inv : Inv state stage pending)
    (idle : ∀ thread, state.phases thread = .idle ∧ state.waiting thread = [])
    (empty : state.queue = []) (born : task < state.nextTask) : stage task = .completed := by
  have free : ∀ task, (stage task).thread = none := by
    intro task
    cases owner : (stage task).thread with
    | none => rfl
    | some thread =>
      have owned := inv.sched.agree.owned task thread owner
      rw [State.claims, (idle thread).1, (idle thread).2] at owned
      cases owned
  have notQueued : stage task ≠ .queued := by
    intro queued
    have mem := (inv.sched.queued task).mpr queued
    rw [empty] at mem
    cases mem
  have notUnborn : (stage task).rank ≠ 0 := by
    intro zero
    exact Nat.not_le.mpr born ((inv.tree.born task).mp zero)
  have thread := free task
  generalize left : state.nextTask - task = distance
  induction distance using Nat.strongRecOn generalizing task with
  | ind distance ih =>
    cases stageOf : stage task with
    | completed => rfl
    | unborn => exact absurd (by rw [stageOf]; rfl) notUnborn
    | queued => exact absurd stageOf notQueued
    | awaiting =>
      exfalso
      obtain ⟨child, inside, isParent, early⟩ := live_pos.mp (inv.tree.awaits task stageOf)
      have earlier := (inv.tree.parents child task isParent).1
      have childStage : stage child = .completed := by
        refine ih (state.nextTask - child) ?_ inside ?_ ?_ (free child) rfl
        · have less : task < child := earlier
          have bound : child < state.nextTask := inside
          rw [← left]
          exact Nat.sub_lt_sub_left (Nat.lt_trans less bound) less
        · intro queued
          have mem := (inv.sched.queued child).mpr queued
          rw [empty] at mem
          cases mem
        · intro zero
          exact Nat.not_le.mpr inside ((inv.tree.born child).mp zero)
      rw [childStage] at early
      simp [Stage.rank] at early
    | building => rw [stageOf] at thread; cases thread
    | held => rw [stageOf] at thread; cases thread
    | running => rw [stageOf] at thread; cases thread
    | returned => rw [stageOf] at thread; cases thread
    | completingParent => rw [stageOf] at thread; cases thread
    | releasingParent => rw [stageOf] at thread; cases thread
    | finishing => rw [stageOf] at thread; cases thread
    | releasing => rw [stageOf] at thread; cases thread
    | completing => rw [stageOf] at thread; cases thread

theorem correct (inv : Inv state stage pending) : state.Correct where
  unfaulted := inv.heads.unfaulted
  finishedOnce := inv.logs.finished.1
  completedOnce := inv.logs.distinct
  destroyedOnce := inv.heads.distinct
  finished := by
    intro task mem
    have rank := (inv.logs.finished.2 task).mp mem
    refine ⟨(inv.logs.returned.2 task).mpr (by omega), fun other continues => ?_⟩
    have late := inv.continues_counted_off (by omega) continues
    exact ⟨(inv.logs.returned.2 other).mpr (by omega), (inv.logs.signalled.2 other).mpr late⟩
  completed := by
    intro task counter has mem
    have rank := (inv.logs.completed task counter has).mp mem
    exact (inv.logs.finished.2 task).mpr (by omega)
  destroyed := by
    intro task mem
    obtain ⟨born, gone⟩ := (inv.heads.destroyed task).mp mem
    have holds := inv.heads.holds task
    rw [gone] at holds
    simp only [Holds, State.view] at holds
    have notUnborn : (stage task).rank ≠ 0 := fun zero =>
      Nat.not_le.mpr born ((inv.tree.born task).mp zero)
    have late := inv.tree.ended task notUnborn (by omega) (by omega)
    refine ⟨(inv.logs.finished.2 task).mpr (by omega), by omega, fun child isParent => ?_⟩
    exact (inv.logs.signalled.2 child).mpr (inv.counted_off (by omega) isParent)
  settled := by
    intro idle empty task born
    have completed := inv.settled_stage idle empty born
    have rank : (stage task).rank = 12 := by
      rw [completed]
      rfl
    obtain ⟨counter, has⟩ := Option.isSome_iff_exists.mp ((inv.logs.counted task).mpr (by omega))
    refine ⟨(inv.logs.finished.2 task).mpr (by omega),
      ⟨counter, has, (inv.logs.completed task counter has).mpr rank⟩, fun noHandle => ?_⟩
    have noReset : pending task = none := by
      by_contra waits
      obtain ⟨thread, isThread⟩ := Option.ne_none_iff_exists'.mp waits
      have reset := (inv.sched.pending thread task).mpr isThread
      rw [(idle thread).1] at reset
      cases reset
    have released : live state.parentOf stage state.nextTask 8 task = 0 := by
      refine live_eq_zero.mpr fun child inside _ => ?_
      rw [inv.settled_stage idle empty inside]
      simp [Stage.rank]
    have holds := inv.heads.holds task
    have refs : (state.view stage pending task).refs = 0 := by
      simp only [State.view, noHandle, noReset, released, completed]
      rfl
    refine (inv.heads.destroyed task).mpr ⟨born, ?_⟩
    cases found : state.headers task with
    | none => rfl
    | some header =>
      rw [found] at holds
      exact absurd refs (Nat.ne_of_gt holds.1)

end Inv

/-! ## Steps -/

section Steps

variable [DecidableEq Thread] {state state' : State Thread} {stage : Task → Stage Thread}
  {pending : Task → Option Thread} {thread : Thread}

theorem Inv.putWaiting (inv : Inv state stage pending) {task : Task}
    (claims : (state.phases thread).claims thread = [(task, .held thread)]) :
    Inv (state.putWaiting thread task) stage pending := by
  have noReset : ∀ other, state.phases thread ≠ .reset other := by
    intro other reset
    rw [reset] at claims
    cases claims
  refine inv.permuted thread .idle (state.waiting thread ++ [task]) ?_ noReset (by simp) (by simp)
  rw [State.claims, claims, List.map_append]
  exact List.perm_append_singleton _ _

theorem completeStep_invariant (inv : Inv state stage pending) {frame : Frame}
    {rest : List Frame} (at_phase : state.phases thread = .completing (frame :: rest))
    (safe : StepSafe state (.advance thread)) :
    Invariant (state.completeStep thread frame rest) := by
  cases frame with
  | completeParent task =>
    have held : stage task = .completingParent thread :=
      inv.stage_eq (by rw [at_phase]; exact List.mem_cons_self)
    obtain ⟨header, found, -, -, -, parentIs, -⟩ :=
      inv.header task (by simp [held, Stage.own, Stage.rank])
    have parent_eq : header.parent = state.parentOf task := by
      rw [parentIs]
      simp [State.view, held, Stage.rank]
    simp only [State.completeStep, State.withHeader, found]
    cases isParent : header.parent with
    | none => exact ⟨_, _, inv.signalRoot at_phase (parent_eq.symm.trans isParent)⟩
    | some parent =>
      have isParent' := parent_eq.symm.trans isParent
      obtain ⟨parentHeader, foundParent, -⟩ :=
        inv.parent_header isParent' (by simp [held, Stage.rank])
      simp only [foundParent]
      split
      case isTrue last =>
        simp only [StepSafe, at_phase] at safe
        have checked := safe header found parent isParent parentHeader foundParent last
        have late := (inv.logs.checked.2 parent).mp checked
        have early : (stage parent).rank < 7 := by
          refine Nat.lt_of_not_le fun closed => ?_
          have signalled := inv.counted_off closed isParent'
          simp [held, Stage.rank] at signalled
        exact ⟨_, _, inv.signalLast at_phase isParent' foundParent last
          (Stage.eq_awaiting (by omega))⟩
      case isFalse more => exact ⟨_, _, inv.signalMore at_phase isParent' foundParent more⟩
  | releaseParent task parent => exact ⟨_, _, inv.releaseParent at_phase⟩
  | setFinished task =>
    have held : stage task = .finishing thread :=
      inv.stage_eq (by rw [at_phase]; exact List.mem_cons_self)
    obtain ⟨header, found, -⟩ := inv.header task (by simp [held, Stage.own, Stage.rank])
    simp only [State.completeStep, State.withHeader, found]
    exact ⟨_, _, inv.setFinished at_phase found⟩
  | releaseSelf task =>
    have held : stage task = .releasing thread :=
      inv.stage_eq (by rw [at_phase]; exact List.mem_cons_self)
    obtain ⟨header, found, -⟩ := inv.header task (by simp [held, Stage.own, Stage.rank])
    simp only [State.completeStep, State.withHeader, found]
    exact ⟨_, _, inv.releaseSelf at_phase found⟩
  | completeCounter task counter => exact ⟨_, _, inv.completeCounter at_phase⟩

theorem advance_invariant (inv : Inv state stage pending)
    (safe : StepSafe state (.advance thread)) (stepped : state.advance thread = some state') :
    Invariant state' := by
  unfold State.advance at stepped
  cases at_phase : state.phases thread with
  | attempt task =>
    rw [at_phase] at stepped
    cases stepped
    have held : stage task = .held thread :=
      inv.stage_eq (by rw [at_phase]; exact List.mem_singleton_self _)
    have claims : (state.phases thread).claims thread = [(task, .held thread)] := by
      rw [at_phase]
      rfl
    obtain ⟨header, found, -⟩ := inv.header task (by simp [held, Stage.own, Stage.rank])
    simp only [State.withHeader, found]
    split
    · exact ⟨_, _, inv.putWaiting claims⟩
    · cases header.executable with
      | none =>
        exact ⟨_, _, inv.returns (claims.trans (by rw [held])) (by simp [held, Stage.rank])⟩
      | function => exact ⟨_, _, inv.running at_phase⟩
      | coroutine =>
        have moved := inv.permuted thread (.resuming task) (state.waiting thread)
          (by rw [State.claims, claims]; exact List.Perm.refl _) (by simp [at_phase]) (by simp)
          (by simp)
        rw [Function.update_eq_self] at moved
        exact ⟨_, _, moved⟩
  | check task =>
    rw [at_phase] at stepped
    cases stepped
    have held : stage task = .returned thread :=
      inv.stage_eq (by rw [at_phase]; exact List.mem_singleton_self _)
    obtain ⟨header, found, ⟨waiting, word⟩, refsFit, continuationsFit, -, -⟩ :=
      inv.header task (by simp [held, Stage.own, Stage.rank])
    have none := @wordOf_continuations_eq_zero (state.view stage pending task).refs
      (state.view stage pending task).continuations waiting
      (state.view stage pending task).finished refsFit continuationsFit
    rw [← word] at none
    simp only [State.withHeader, found]
    split
    case isTrue zero => exact ⟨_, _, inv.complete at_phase (none.mp zero)⟩
    case isFalse some =>
      exact ⟨_, _, inv.await at_phase (Nat.pos_of_ne_zero fun zero => some (none.mpr zero))⟩
  | reset task =>
    rw [at_phase] at stepped
    cases stepped
    exact ⟨_, _, inv.reset at_phase⟩
  | completing stack =>
    rw [at_phase] at stepped
    cases stack with
    | nil => cases stepped
    | cons frame rest =>
      cases stepped
      exact completeStep_invariant inv at_phase safe
  | idle => rw [at_phase] at stepped; cases stepped
  | running task building => rw [at_phase] at stepped; cases stepped
  | resuming task => rw [at_phase] at stepped; cases stepped

omit [DecidableEq Thread] in
theorem Inv.stage_running (inv : Inv state stage pending) {task : Task}
    (at_phase : state.phases thread = .running task none) : stage task = .running thread :=
  inv.stage_eq (by rw [at_phase]; exact List.mem_singleton_self _)

omit [DecidableEq Thread] in
theorem Inv.handle_header (inv : Inv state stage pending) {task : Task}
    (has : 0 < state.handles task) : ∃ header, state.headers task = some header ∧
      header.Shows (state.view stage pending task) := by
  refine inv.heads.header ?_
  simp only [State.view]
  omega

theorem Inv.stepCreateContinuation (inv : Inv state stage pending) {parent : Task}
    (numWaitCounters : Nat) (executable : Executable)
    (at_phase : state.phases thread = .running parent none)
    (safe : StepSafe state (.createContinuation thread numWaitCounters executable))
    (stepped : step state (.createContinuation thread numWaitCounters executable) = some state') :
    Invariant state' := by
  have held := inv.stage_running at_phase
  obtain ⟨header, found, -⟩ := inv.header parent (by simp [held, Stage.own, Stage.rank])
  have differs : parent ≠ state.nextTask :=
    Nat.ne_of_lt (inv.born (by simp [held, Stage.rank]))
  simp only [StepSafe, at_phase] at safe
  obtain ⟨refsFit, continuationsFit⟩ := safe header found
  have created := inv.createContinuation numWaitCounters executable at_phase found
    refsFit continuationsFit
  have unfaulted : ¬ state.faulted = true := by simp [inv.heads.unfaulted]
  simp only [step, if_neg unfaulted, at_phase] at stepped
  cases stepped
  refine ⟨Function.update stage state.nextTask (.building thread), pending, ?_⟩
  simp only [State.updateWord, State.withHeader, State.setHeader,
    Function.update_of_ne differs, found] at created ⊢
  exact created

/-- A task of the local queue is tried again, with the counters it still waits for. -/
theorem Inv.drainLocal (inv : Inv state stage pending) {task : Task} {index : Nat}
    (remaining : Nat) (at_phase : state.phases thread = .idle)
    (found : (state.waiting thread)[index]? = some task) :
    ∃ header, state.headers task = some header ∧
      Inv { (state.setHeader task { header with
          numWaitCounters := min remaining header.numWaitCounters }).setPhase thread
            (.attempt task) with
        waiting := Function.update state.waiting thread ((state.waiting thread).eraseIdx index) }
        stage pending := by
  obtain ⟨inside, rfl⟩ := List.getElem?_eq_some_iff.mp found
  have held : stage (state.waiting thread)[index] = .held thread := by
    refine inv.sched.agree.claimed thread _ _ (List.mem_append_right _ ?_)
    exact List.mem_map.mpr ⟨_, List.getElem_mem inside, rfl⟩
  obtain ⟨header, foundHeader, -⟩ :=
    inv.header (state.waiting thread)[index] (by simp [held, Stage.own, Stage.rank])
  have trimmed := inv.setHeader
    { header with numWaitCounters := min remaining header.numWaitCounters } foundHeader
    (fun shows_ => shows_)
  have perm := (List.getElem_cons_eraseIdx_perm inside).map
    fun task => (task, Stage.held thread)
  have claims : (state.setHeader (state.waiting thread)[index] { header with
      numWaitCounters := min remaining header.numWaitCounters }).claims thread =
        (state.waiting thread).map fun task => (task, Stage.held thread) := by
    simp [State.claims, State.setHeader, at_phase, Phase.claims]
  exact ⟨header, foundHeader, trimmed.permuted thread (.attempt (state.waiting thread)[index])
    ((state.waiting thread).eraseIdx index) (claims ▸ perm)
    (by simp [State.setHeader, at_phase]) (by simp) (by simp)⟩

theorem step_invariant (state : State Thread) (action : Action Thread) (state' : State Thread)
    (invariant : Invariant state) (safe : StepSafe state action)
    (stepped : step state action = some state') : Invariant state' := by
  obtain ⟨stage, pending, inv⟩ := invariant
  have unfaulted : ¬ state.faulted = true := by simp [inv.heads.unfaulted]
  have created := stepped
  simp only [step] at stepped
  rw [if_neg unfaulted] at stepped
  cases action with
  | enqueueIndependent numWaitCounters executable withHandle =>
    cases stepped
    exact ⟨_, _, inv.enqueueIndependent numWaitCounters executable withHandle⟩
  | createContinuation thread numWaitCounters executable =>
    simp only at stepped
    split at stepped
    case h_1 parent at_phase =>
      exact inv.stepCreateContinuation numWaitCounters executable at_phase safe created
    case h_2 => cases stepped
  | enqueueContinuation thread withHandle =>
    simp only at stepped
    split at stepped
    case h_1 parent task at_phase =>
      cases stepped
      have held : stage task = .building thread :=
        inv.stage_eq (by rw [at_phase]; exact List.mem_cons_self)
      obtain ⟨header, found, -⟩ := inv.header task (by simp [held, Stage.own, Stage.rank])
      simp only [State.withHeader, found]
      exact ⟨_, _, inv.enqueueContinuation withHandle at_phase found⟩
    case h_2 => cases stepped
  | functorReturn thread =>
    simp only at stepped
    split at stepped
    case h_1 task at_phase =>
      cases stepped
      have held := inv.stage_running at_phase
      exact ⟨_, _, inv.returns (by rw [at_phase, held]; rfl) (by simp [held, Stage.rank])⟩
    case h_2 => cases stepped
  | popTask thread index =>
    simp only at stepped
    split at stepped
    case h_1 task at_phase found =>
      cases stepped
      exact ⟨_, _, inv.popTask at_phase found⟩
    case h_2 => cases stepped
  | drainLocal thread index remaining =>
    simp only at stepped
    split at stepped
    case h_1 task at_phase found =>
      cases stepped
      obtain ⟨header, foundHeader, drained⟩ := inv.drainLocal remaining at_phase found
      simp only [State.withHeader, foundHeader]
      exact ⟨_, _, drained⟩
    case h_2 => cases stepped
  | resumeCoroutine thread done =>
    simp only at stepped
    split at stepped
    case h_1 task at_phase =>
      have held : stage task = .held thread :=
        inv.stage_eq (by rw [at_phase]; exact List.mem_singleton_self _)
      split at stepped
      · cases stepped
        exact ⟨_, _, inv.returns (by rw [at_phase, held]; rfl) (by simp [held, Stage.rank])⟩
      · cases stepped
        exact ⟨_, _, inv.putWaiting (by rw [at_phase]; rfl)⟩
    case h_2 => cases stepped
  | advance thread => exact advance_invariant inv safe stepped
  | copyHandle task =>
    simp only at stepped
    split at stepped
    case isTrue has =>
      cases stepped
      obtain ⟨header, found, -⟩ := inv.handle_header has
      simp only [State.updateWord, State.withHeader, found]
      exact ⟨_, _, inv.copyHandle has found (safe header found)⟩
    case isFalse => cases stepped
  | resetHandle task =>
    simp only at stepped
    split at stepped
    case isTrue has =>
      cases stepped
      exact ⟨_, _, inv.resetHandle has⟩
    case isFalse => cases stepped
  | waitHandle task =>
    simp only at stepped
    split at stepped
    case isTrue has =>
      cases stepped
      obtain ⟨header, found, -⟩ := inv.handle_header has
      simp only [State.updateWord, State.withHeader, found]
      refine ⟨_, _, inv.setHeader _ found fun shows_ => ?_⟩
      obtain ⟨⟨waiting, word⟩, refsFit, continuationsFit, rest⟩ := shows_
      refine ⟨⟨true, ?_⟩, refsFit, continuationsFit, rest⟩
      rw [word, wordOf_or_waiting refsFit continuationsFit]
    case isFalse => cases stepped

/-- In every interleaving in which the last continuation of a task is counted off after
the task has looked for continuations, and the counts do not overflow, every task is
completed once, in order, and its header destroyed once. -/
theorem run_tasks_complete {actions : List (Action Thread)} {state : State Thread}
    (safe : Runs.StepsMeet step StepSafe {} actions) (reached : run actions = some state) :
    state.Correct := by
  obtain ⟨stage, pending, inv⟩ :=
    Runs.run_invariant step_invariant initial_invariant safe reached
  exact inv.correct

end Steps

/-! ## Runs of two slaves -/

instance (state : State (Fin 2)) (action : Action (Fin 2)) : Decidable (StepSafe state action) := by
  unfold StepSafe
  split
  · split <;> infer_instance
  · infer_instance
  · split <;> infer_instance
  · infer_instance

/-- A function enqueues a continuation and returns; another slave executes the
continuation after that, and completes both. -/
def deferredActions : List (Action (Fin 2)) :=
  [.enqueueIndependent 0 .function false, .popTask 0 0, .advance 0,
    .createContinuation 0 0 .function, .enqueueContinuation 0 false, .functorReturn 0,
    .advance 0, .advance 0, .popTask 1 0, .advance 1, .functorReturn 1] ++
  List.replicate 9 (.advance 1)

theorem deferredActions_correct :
    ∃ state, run deferredActions = some state ∧ state.Correct := by
  have runs : (run deferredActions).isSome = true := by decide +kernel
  obtain ⟨state, reached⟩ := Option.isSome_iff_exists.mp runs
  exact ⟨state, reached, run_tasks_complete (by decide +kernel) reached⟩

/-- The other slave executes the continuation while the function still runs. -/
def earlyActions : List (Action (Fin 2)) :=
  [.enqueueIndependent 0 .function false, .popTask 0 0, .advance 0,
    .createContinuation 0 0 .function, .enqueueContinuation 0 false, .popTask 1 0, .advance 1,
    .functorReturn 1] ++ List.replicate 9 (.advance 1) ++ [.functorReturn 0] ++
  List.replicate 5 (.advance 0)

/-- The counter of the function is completed before it returns, and once more after. -/
theorem earlyActions_complete_twice :
    ∃ state, run earlyActions = some state ∧ state.completedCounters = [64, 65, 64] ∧
      ¬ state.Correct := by
  have completed : (run earlyActions).map State.completedCounters = some [64, 65, 64] := by
    decide +kernel
  obtain ⟨state, reached, twice⟩ := Option.map_eq_some_iff.mp completed
  refine ⟨state, reached, twice, fun correct => ?_⟩
  have once := correct.completedOnce
  rw [twice] at once
  revert once
  decide

end Voxen.Svc.TaskService
