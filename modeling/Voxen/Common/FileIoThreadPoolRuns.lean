import Mathlib.Data.List.Nodup
import Voxen.Common.FileIoThreadPoolInvariant

/-!
# Runs of the thread pool

A task that was handed to a worker is executed, once, as long as no step falls in one of the
gaps between the worker's look at its queue, its wait and its exit.
-/

namespace Voxen.FileIoThreadPool

open Function (update update_of_ne update_self)

/-- The worker has the task in its queue or is about to execute it. -/
def Worker.Holds (worker : Worker) (task : Nat) : Prop :=
  task ∈ worker.tasksQueue ∨ worker.next = .runTask task

/-- Nothing has happened to the worker but that it may have been woken. -/
structure Worker.Alike (worker worker' : Worker) : Prop where
  queue : worker'.tasksQueue = worker.tasksQueue
  next : worker'.next = worker.next ∨ worker.next = .waiting ∧ worker'.next = .relock

namespace Worker

variable {worker worker' : Worker}

theorem Alike.refl (worker : Worker) : worker.Alike worker := ⟨rfl, .inl rfl⟩

theorem Alike.holds (alike : worker.Alike worker') (task : Nat) :
    worker'.Holds task ↔ worker.Holds task := by
  unfold Holds
  rw [alike.queue]
  rcases alike.next with same | ⟨waits, woken⟩
  · rw [same]
  · rw [waits, woken]
    exact or_congr_right ⟨nofun, nofun⟩

theorem Alike.distance_le (alike : worker.Alike worker') :
    worker'.next.distance ≤ worker.next.distance := by
  rcases alike.next with same | ⟨waits, woken⟩
  · exact Nat.le_of_eq (by rw [same])
  · rw [waits, woken]
    decide

theorem notifyOne_alike (worker : Worker) : worker.Alike worker.notifyOne := by
  unfold notifyOne
  split
  · rename_i waits
    exact ⟨rfl, .inr ⟨waits, rfl⟩⟩
  · exact .refl worker

theorem advance_some {task : Nat} (advanced : worker.advance = some (worker', some task)) :
    worker.next = .runTask task ∧ worker'.tasksQueue = worker.tasksQueue ∧
      worker'.next = .lockStateAgain := by
  unfold advance at advanced
  split at advanced
  all_goals try split at advanced
  all_goals cases advanced
  exact ⟨‹_›, rfl, rfl⟩

theorem advance_none (advanced : worker.advance = some (worker', none)) (task : Nat) :
    worker'.Holds task ↔ worker.Holds task := by
  unfold advance at advanced
  unfold Holds
  split at advanced
  all_goals try split at advanced
  all_goals cases advanced
  all_goals grind

/-- A worker that has a task comes nearer to its execution with every step of its own. -/
theorem advance_distance {user : UserStep} {index task : Nat} {done : Option Nat}
    (inv : WorkerInv user index worker) (holds : worker.Holds task)
    (advanced : worker.advance = some (worker', done)) :
    done = some task ∨ worker'.next.distance + 1 ≤ worker.next.distance := by
  have queued : worker.next ≠ .runTask task → worker.tasksQueue ≠ [] := by
    intro other none
    rcases holds with mem | runs
    · rw [none] at mem
      cases mem
    · exact other runs
  have looks := fun other => inv.queued (queued other)
  unfold advance at advanced
  split at advanced <;> rename_i step
  all_goals rw [step] at queued looks
  all_goals try split at advanced
  all_goals cases advanced
  all_goals simp_all [WorkerStep.distance, WorkerStep.Awake]

end Worker

/-- What a step means for the tasks. -/
inductive Effect (state state' : State) : Prop
  | quiet (alike : ∀ index, (state.workers index).Alike (state'.workers index))
      (passed : state'.passed = state.passed) (executed : state'.executed = state.executed)
      (inHand : state'.user.inHand = state.user.inHand)
  | call (workers : state'.workers = state.workers) (passed : state'.passed = state.passed + 1)
      (executed : state'.executed = state.executed) (before : state.user.inHand = none)
      (after : state'.user.inHand = some state.passed)
  | handOver (index task : Nat)
      (others : ∀ other, other ≠ index → state'.workers other = state.workers other)
      (holds : ∀ held, (state'.workers index).Holds held ↔
        (state.workers index).Holds held ∨ held = task)
      (next : index < state.created → (state'.workers index).next = (state.workers index).next)
      (passed : state'.passed = state.passed) (executed : state'.executed = state.executed)
      (before : state.user.inHand = some task) (after : state'.user.inHand = none)
  | own (index : Nat) (worker' : Worker) (done : Option Nat)
      (advanced : (state.workers index).advance = some (worker', done))
      (workers : state'.workers = update state.workers index worker')
      (passed : state'.passed = state.passed)
      (executed : state'.executed = state.executed ++ done.toList)
      (user : state'.user = state.user)
  | timeOut (index : Nat) (idle : ∀ task, ¬ (state.workers index).Holds task)
      (idle' : ∀ task, ¬ (state'.workers index).Holds task)
      (others : ∀ other, other ≠ index → state'.workers other = state.workers other)
      (passed : state'.passed = state.passed) (executed : state'.executed = state.executed)
      (user : state'.user = state.user)

section Effects

variable {state state' : State} {index : Nat}

theorem Effect.update {worker' : Worker}
    (workers : state'.workers = update state.workers index worker')
    (alike : (state.workers index).Alike worker')
    (passed : state'.passed = state.passed) (executed : state'.executed = state.executed)
    (inHand : state'.user.inHand = state.user.inHand) : Effect state state' := by
  refine .quiet (fun other => ?_) passed executed inHand
  rw [workers]
  by_cases same : other = index
  · subst same
    rw [update_self]
    exact alike
  · rw [update_of_ne same]
    exact .refl _

theorem Effect.unchanged (workers : state'.workers = state.workers)
    (passed : state'.passed = state.passed) (executed : state'.executed = state.executed)
    (inHand : state'.user.inHand = state.user.inHand) : Effect state state' :=
  .quiet (fun other => by rw [workers]; exact .refl _) passed executed inHand

theorem advanceUser_effect (inv : Inv state) (safe : StepSafe state .user)
    (advanced : state.advanceUser = some state') : Effect state state' := by
  unfold State.advanceUser at advanced
  unfold StepSafe at safe
  cases step : state.user with
  | outside => simp [step] at advanced
  | cleanUp task place =>
    simp only [step] at advanced safe
    cases found : state.threads[place]? with
    | none =>
      simp only [found, Option.some.injEq] at advanced
      subst advanced
      exact .unchanged rfl rfl rfl (by rw [step]; rfl)
    | some worker =>
      simp only [found] at advanced
      rw [if_neg (by rw [safe worker found]; nofun)] at advanced
      cases advanced
      exact .unchanged rfl rfl rfl (by rw [step]; rfl)
  | findWorker task place =>
    simp only [step] at advanced
    cases found : state.threads[place]? with
    | none =>
      simp only [found, Option.some.injEq] at advanced
      subst advanced
      refine .handOver state.created task (fun other apart => update_of_ne apart _ _)
        (fun held => ?_) (fun less => absurd less (Nat.lt_irrefl _)) rfl rfl
        (by rw [step]; rfl) rfl
      change (update state.workers state.created _ state.created).Holds held ↔ _
      rw [update_self, inv.unborn _ (Nat.le_refl _)]
      simp [Worker.Holds, Worker.started]
    | some worker =>
      simp only [found] at advanced
      split at advanced
      · cases advanced
        exact .update rfl ⟨rfl, .inl rfl⟩ rfl rfl (by rw [step]; rfl)
      · cases advanced
  | testHasTask task place worker =>
    simp only [step] at advanced
    split at advanced
    · cases advanced
      exact .update rfl ⟨rfl, .inl rfl⟩ rfl rfl (by rw [step]; rfl)
    · cases advanced
      refine .handOver worker task (fun other apart => update_of_ne apart _ _)
        (fun held => ?_) (fun _ => ?_) rfl rfl (by rw [step]; rfl) rfl
      · change (update state.workers worker _ worker).Holds held ↔ _
        rw [update_self]
        simp only [Worker.Holds, List.mem_append, List.mem_singleton, or_right_comm]
      · change (update state.workers worker _ worker).next = _
        rw [update_self]
  | notify worker =>
    simp only [step, Option.some.injEq] at advanced
    subst advanced
    exact .update rfl (Worker.notifyOne_alike _) rfl rfl (by rw [step]; rfl)
  | exitLock place =>
    simp only [step] at advanced
    cases found : state.threads[place]? with
    | none =>
      simp only [found, Option.some.injEq] at advanced
      subst advanced
      exact .unchanged rfl rfl rfl (by rw [step]; rfl)
    | some worker =>
      simp only [found] at advanced
      split at advanced
      · cases advanced
        exact .update rfl ⟨rfl, .inl rfl⟩ rfl rfl (by rw [step]; rfl)
      · cases advanced
  | exitStore place worker =>
    simp only [step, Option.some.injEq] at advanced
    subst advanced
    exact .update rfl ⟨rfl, .inl rfl⟩ rfl rfl (by rw [step]; rfl)
  | exitNotify place worker =>
    simp only [step, Option.some.injEq] at advanced
    subst advanced
    have alike := Worker.notifyOne_alike (state.workers worker)
    exact .update rfl ⟨alike.queue, alike.next⟩ rfl rfl (by rw [step]; rfl)
  | join place =>
    simp only [step] at advanced
    cases found : state.threads[place]? with
    | none =>
      simp only [found, Option.some.injEq] at advanced
      subst advanced
      exact .unchanged rfl rfl rfl (by rw [step]; rfl)
    | some worker =>
      simp only [found] at advanced
      split at advanced
      · cases advanced
        exact .update rfl ⟨rfl, .inl rfl⟩ rfl rfl (by rw [step]; rfl)
      · cases advanced
  | deleteAll =>
    simp only [step] at advanced
    cases last : state.threads.getLast? with
    | none =>
      simp only [last, Option.some.injEq] at advanced
      subst advanced
      exact .unchanged rfl rfl rfl (by rw [step]; rfl)
    | some worker =>
      simp only [last, Option.some.injEq] at advanced
      subst advanced
      refine .update rfl ⟨rfl, .inl rfl⟩ rfl rfl ?_
      change (if (state.workers worker).joined then UserStep.deleteAll
        else .terminated).inHand = _
      rw [step]
      split <;> rfl
  | destroyed => simp [step] at advanced
  | terminated => simp [step] at advanced

theorem step_effect (inv : Inv state) {action : Action} (safe : StepSafe state action)
    (stepped : step state action = some state') : Effect state state' := by
  cases action with
  | enqueueTask =>
    unfold step at stepped
    dsimp only at stepped
    split at stepped
    · rename_i outside
      cases stepped
      exact .call rfl rfl rfl (by rw [outside]; rfl) rfl
    · cases stepped
  | destroy =>
    unfold step at stepped
    dsimp only at stepped
    split at stepped
    · rename_i outside
      cases stepped
      exact .unchanged rfl rfl rfl (by rw [outside]; rfl)
    · cases stepped
  | user => exact advanceUser_effect inv safe stepped
  | worker index =>
    change state.advanceWorker index = some state' at stepped
    unfold State.advanceWorker at stepped
    rw [if_neg inv.alive, Option.map_eq_some_iff] at stepped
    obtain ⟨⟨worker', done⟩, advanced, rfl⟩ := stepped
    exact .own index worker' done advanced rfl rfl rfl rfl
  | timeOut index =>
    change state.endWait index (state.workers index).timeOut = some state' at stepped
    unfold State.endWait at stepped
    rw [if_neg inv.alive, Option.map_eq_some_iff] at stepped
    obtain ⟨worker', ended, rfl⟩ := stepped
    obtain ⟨waits, rfl⟩ := Worker.timeOut_some ended
    change (state.workers index).tasksQueue = [] at safe
    refine .timeOut index (fun task => ?_) (fun task => ?_)
      (fun other apart => update_of_ne apart _ _) rfl rfl rfl
    · simp [Worker.Holds, safe, waits]
    · change ¬ (update state.workers index _ index).Holds task
      rw [update_self]
      simp [Worker.Holds, safe]
  | wakeUp index =>
    change state.endWait index (state.workers index).wakeUp = some state' at stepped
    unfold State.endWait at stepped
    rw [if_neg inv.alive, Option.map_eq_some_iff] at stepped
    obtain ⟨worker', ended, rfl⟩ := stepped
    obtain ⟨waits, rfl⟩ := Worker.wakeUp_some ended
    exact .update rfl ⟨rfl, .inr ⟨waits, rfl⟩⟩ rfl rfl rfl

end Effects

/-- Every task that was passed is in one place. -/
structure TasksInv (state : State) : Prop where
  known : ∀ task ∈ state.executed, task < state.passed
  once : state.executed.Nodup
  inHand : ∀ task, state.user.inHand = some task → task < state.passed ∧ task ∉ state.executed
  held : ∀ index task, (state.workers index).Holds task →
    task < state.passed ∧ task ∉ state.executed ∧ state.user.inHand ≠ some task
  unique : ∀ index other task, (state.workers index).Holds task →
    (state.workers other).Holds task → index = other
  placed : ∀ task < state.passed, task ∈ state.executed ∨ state.user.inHand = some task ∨
    ∃ index, (state.workers index).Holds task

namespace TasksInv

variable {state state' : State}

theorem start : TasksInv initial := by
  have none : ∀ index task, ¬ (initial.workers index).Holds task := by
    intro index task
    change ¬ (if index < 2 then Worker.started true false [] else {}).Holds task
    split <;> simp [Worker.Holds, Worker.started]
  exact ⟨nofun, List.nodup_nil, nofun, fun index task holds => absurd holds (none index task),
    fun index _ task holds => absurd holds (none index task),
    fun task less => absurd less (Nat.not_lt_zero _)⟩

theorem congr (inv : TasksInv state)
    (holds : ∀ index task, (state'.workers index).Holds task ↔ (state.workers index).Holds task)
    (passed : state'.passed = state.passed) (executed : state'.executed = state.executed)
    (hand : state'.user.inHand = state.user.inHand) : TasksInv state' where
  known := by rw [passed, executed]; exact inv.known
  once := by rw [executed]; exact inv.once
  inHand := by rw [passed, executed, hand]; exact inv.inHand
  held index task := by rw [passed, executed, hand, holds]; exact inv.held index task
  unique index other task := by rw [holds, holds]; exact inv.unique index other task
  placed := by simp only [passed, executed, hand, holds]; exact inv.placed

theorem call (inv : TasksInv state) (workers : state'.workers = state.workers)
    (passed : state'.passed = state.passed + 1) (executed : state'.executed = state.executed)
    (before : state.user.inHand = none) (after : state'.user.inHand = some state.passed) :
    TasksInv state' where
  known task mem := by
    rw [executed] at mem
    rw [passed]
    exact Nat.lt_succ_of_lt (inv.known task mem)
  once := by rw [executed]; exact inv.once
  inHand task hand := by
    cases after.symm.trans hand
    rw [passed, executed]
    exact ⟨Nat.lt_succ_self _, fun mem => Nat.lt_irrefl _ (inv.known _ mem)⟩
  held index task holds := by
    rw [workers] at holds
    obtain ⟨less, not, -⟩ := inv.held index task holds
    rw [passed, executed, after]
    exact ⟨Nat.lt_succ_of_lt less, not, fun same => by
      cases same
      exact Nat.lt_irrefl _ less⟩
  unique index other task := by rw [workers]; exact inv.unique index other task
  placed task less := by
    rw [passed] at less
    rw [executed, after, workers]
    rcases Nat.lt_succ_iff_lt_or_eq.mp less with earlier | rfl
    · rcases inv.placed task earlier with done | hand | held
      · exact .inl done
      · rw [before] at hand
        cases hand
      · exact .inr (.inr held)
    · exact .inr (.inl rfl)

theorem handOver (inv : TasksInv state) {index task : Nat}
    (others : ∀ other, other ≠ index → state'.workers other = state.workers other)
    (holds : ∀ held, (state'.workers index).Holds held ↔
      (state.workers index).Holds held ∨ held = task)
    (passed : state'.passed = state.passed) (executed : state'.executed = state.executed)
    (before : state.user.inHand = some task) (after : state'.user.inHand = none) :
    TasksInv state' := by
  have handed := inv.inHand task before
  have back : ∀ other held, (state'.workers other).Holds held →
      (state.workers other).Holds held ∧ held ≠ task ∨ other = index ∧ held = task := by
    intro other held holds'
    have kept : (state.workers other).Holds held → held ≠ task := by
      rintro old rfl
      exact (inv.held other held old).2.2 before
    by_cases same : other = index
    · subst same
      rcases (holds held).mp holds' with old | new
      · exact .inl ⟨old, kept old⟩
      · exact .inr ⟨rfl, new⟩
    · rw [others other same] at holds'
      exact .inl ⟨holds', kept holds'⟩
  refine ⟨?_, ?_, ?_, ?_, ?_, ?_⟩
  · rw [passed, executed]
    exact inv.known
  · rw [executed]
    exact inv.once
  · rw [after]
    nofun
  · intro other held holds'
    rw [passed, executed, after]
    rcases back other held holds' with ⟨old, -⟩ | ⟨-, rfl⟩
    · exact ⟨(inv.held other held old).1, (inv.held other held old).2.1, nofun⟩
    · exact ⟨handed.1, handed.2, nofun⟩
  · intro first second held one two
    rcases back first held one with ⟨old, apart⟩ | ⟨rfl, rfl⟩ <;>
      rcases back second held two with ⟨old', apart'⟩ | ⟨rfl, same⟩
    · exact inv.unique first second held old old'
    · exact absurd same apart
    · exact absurd rfl apart'
    · rfl
  · intro other less
    rw [passed] at less
    rw [executed]
    rcases inv.placed other less with done | hand | ⟨place, held⟩
    · exact .inl done
    · cases before.symm.trans hand
      exact .inr (.inr ⟨index, (holds task).mpr (.inr rfl)⟩)
    · refine .inr (.inr ⟨place, ?_⟩)
      by_cases same : place = index
      · subst same
        exact (holds other).mpr (.inl held)
      · rw [others place same]
        exact held

theorem execute (inv : TasksInv state) {index task : Nat}
    (others : ∀ other, other ≠ index → state'.workers other = state.workers other)
    (held : ∀ other, (state.workers index).Holds other ↔ other = task)
    (free : ∀ other, ¬ (state'.workers index).Holds other)
    (passed : state'.passed = state.passed)
    (executed : state'.executed = state.executed ++ [task])
    (hand : state'.user.inHand = state.user.inHand) : TasksInv state' := by
  obtain ⟨less, fresh, notInHand⟩ := inv.held index task ((held task).mpr rfl)
  have back : ∀ other held', (state'.workers other).Holds held' →
      (state.workers other).Holds held' ∧ held' ≠ task := by
    intro other held' holds'
    have apart : other ≠ index := by
      rintro rfl
      exact free held' holds'
    rw [others other apart] at holds'
    refine ⟨holds', ?_⟩
    rintro rfl
    exact apart (inv.unique other index held' holds' ((held held').mpr rfl))
  have spare : ∀ other, other ∉ state.executed → other ≠ task →
      other ∉ state.executed ++ [task] := by
    intro other old apart mem
    rcases List.mem_append.mp mem with before | last
    · exact old before
    · exact apart (List.mem_singleton.mp last)
  refine ⟨?_, ?_, ?_, ?_, ?_, ?_⟩
  · intro other mem
    rw [executed] at mem
    rw [passed]
    rcases List.mem_append.mp mem with before | last
    · exact inv.known other before
    · rw [List.mem_singleton.mp last]
      exact less
  · rw [executed, List.nodup_append]
    refine ⟨inv.once, List.nodup_singleton _, ?_⟩
    intro first before second last same
    rw [List.mem_singleton] at last
    subst last
    subst same
    exact fresh before
  · intro other inHand
    rw [hand] at inHand
    obtain ⟨less', fresh'⟩ := inv.inHand other inHand
    rw [passed, executed]
    refine ⟨less', spare other fresh' ?_⟩
    rintro rfl
    exact notInHand inHand
  · intro other held' holds'
    obtain ⟨old, apart⟩ := back other held' holds'
    obtain ⟨less', fresh', hand'⟩ := inv.held other held' old
    rw [passed, executed, hand]
    exact ⟨less', spare held' fresh' apart, hand'⟩
  · intro first second held' one two
    exact inv.unique first second held' (back first held' one).1 (back second held' two).1
  · intro other less'
    rw [passed] at less'
    rw [executed, hand]
    rcases inv.placed other less' with done | inHand | ⟨place, holds⟩
    · exact .inl (List.mem_append_left _ done)
    · exact .inr (.inl inHand)
    · by_cases same : place = index
      · subst same
        rw [(held other).mp holds]
        exact .inl (List.mem_append_right _ List.mem_cons_self)
      · refine .inr (.inr ⟨place, ?_⟩)
        rw [others place same]
        exact holds

theorem step (inv : TasksInv state) (workers : ∀ index, ∀ task,
      (state.workers index).next = .runTask task → (state.workers index).tasksQueue = [])
    (effect : Effect state state') : TasksInv state' := by
  cases effect with
  | quiet alike passed executed inHand =>
    exact inv.congr (fun index task => (alike index).holds task) passed executed inHand
  | call workers passed executed before after =>
    exact inv.call workers passed executed before after
  | handOver index task others holds next passed executed before after =>
    exact inv.handOver others holds passed executed before after
  | own index worker' done advanced updated passed executed user =>
    have others : ∀ other, other ≠ index → state'.workers other = state.workers other := by
      intro other apart
      rw [updated]
      exact update_of_ne apart _ _
    have self : state'.workers index = worker' := by
      rw [updated]
      exact update_self _ _ _
    cases done with
    | none =>
      refine inv.congr (fun other task => ?_) passed
        (executed.trans (List.append_nil _)) (by rw [user])
      by_cases same : other = index
      · subst same
        rw [self]
        exact Worker.advance_none advanced task
      · rw [others other same]
    | some task =>
      obtain ⟨runs, queue, next⟩ := Worker.advance_some advanced
      have empty := workers index task runs
      refine inv.execute others (fun other => ?_) (fun other => ?_) passed executed
        (by rw [user])
      · rw [Worker.Holds, empty, runs]
        simp [eq_comm]
      · rw [self, Worker.Holds, queue, empty, next]
        simp
  | timeOut index idle idle' others passed executed user =>
    refine inv.congr (fun other task => ?_) passed executed (by rw [user])
    by_cases same : other = index
    · subst same
      exact iff_of_false (idle' task) (idle task)
    · rw [others other same]

end TasksInv

section Progress

variable {state state' : State} {index task : Nat}

theorem Inv.known_of_holds (inv : Inv state) (holds : (state.workers index).Holds task) :
    index < state.created := by
  apply Classical.byContradiction
  intro unknown
  rw [inv.unborn index (Nat.not_lt.mp unknown)] at holds
  rcases holds with mem | runs
  · cases mem
  · cases runs

theorem Inv.queue_of_runs (inv : Inv state) (runs : (state.workers index).next = .runTask task) :
    (state.workers index).tasksQueue = [] := by
  have known := inv.known_of_holds (.inr runs)
  exact ((inv.worker index known).busy (by rw [runs]; trivial)).2

theorem own_progress (inv : Inv state) (holds : (state.workers index).Holds task)
    {worker' : Worker} {done : Option Nat}
    (advanced : (state.workers index).advance = some (worker', done)) :
    done = some task ∨
      worker'.Holds task ∧ worker'.next.distance + 1 ≤ (state.workers index).next.distance := by
  have known := inv.known_of_holds holds
  cases done with
  | none =>
    rcases Worker.advance_distance (inv.worker index known) holds advanced with no | nearer
    · cases no
    · exact .inr ⟨(Worker.advance_none advanced task).mpr holds, nearer⟩
  | some other =>
    obtain ⟨runs, -, -⟩ := Worker.advance_some advanced
    rw [Worker.Holds, inv.queue_of_runs runs, runs] at holds
    simp at holds
    exact .inl (congrArg some holds)

/-- A task is not lost, and its worker does not get further away from it. -/
theorem effect_progress (inv : Inv state) (holds : (state.workers index).Holds task)
    (effect : Effect state state') :
    task ∈ state'.executed ∨ (state'.workers index).Holds task ∧
      (state'.workers index).next.distance ≤ (state.workers index).next.distance := by
  cases effect with
  | quiet alike passed executed inHand =>
    exact .inr ⟨((alike index).holds task).mpr holds, (alike index).distance_le⟩
  | call workers passed executed before after =>
    rw [workers]
    exact .inr ⟨holds, Nat.le_refl _⟩
  | handOver other handed others holds' next passed executed before after =>
    by_cases same : index = other
    · subst same
      rw [next (inv.known_of_holds holds)]
      exact .inr ⟨(holds' task).mpr (.inl holds), Nat.le_refl _⟩
    · rw [others index same]
      exact .inr ⟨holds, Nat.le_refl _⟩
  | own other worker' done advanced updated passed executed user =>
    rw [updated, executed]
    by_cases same : index = other
    · subst same
      rw [update_self]
      rcases own_progress inv holds advanced with rfl | ⟨holds', nearer⟩
      · exact .inl (List.mem_append_right _ (List.mem_singleton_self _))
      · exact .inr ⟨holds', Nat.le_of_succ_le nearer⟩
    · rw [update_of_ne same]
      exact .inr ⟨holds, Nat.le_refl _⟩
  | timeOut other idle idle' others passed executed user =>
    have apart : index ≠ other := by
      rintro rfl
      exact idle task holds
    rw [others index apart]
    exact .inr ⟨holds, Nat.le_refl _⟩

theorem worker_progress (inv : Inv state) (holds : (state.workers index).Holds task)
    (stepped : step state (.worker index) = some state') :
    task ∈ state'.executed ∨ (state'.workers index).Holds task ∧
      (state'.workers index).next.distance + 1 ≤ (state.workers index).next.distance := by
  change state.advanceWorker index = some state' at stepped
  unfold State.advanceWorker at stepped
  rw [if_neg inv.alive, Option.map_eq_some_iff] at stepped
  obtain ⟨⟨worker', done⟩, advanced, rfl⟩ := stepped
  change task ∈ state.executed ++ done.toList ∨
    (update state.workers index worker' index).Holds task ∧
      (update state.workers index worker' index).next.distance + 1 ≤ _
  rw [update_self]
  rcases own_progress inv holds advanced with rfl | nearer
  · exact .inl (List.mem_append_right _ (List.mem_singleton_self _))
  · exact .inr nearer

theorem Effect.executed (effect : Effect state state') (done : task ∈ state.executed) :
    task ∈ state'.executed := by
  cases effect with
  | quiet _ _ executed _ => rwa [executed]
  | call _ _ executed _ _ => rwa [executed]
  | handOver _ _ _ _ _ _ executed _ _ => rwa [executed]
  | own _ _ _ _ _ _ executed _ =>
    rw [executed]
    exact List.mem_append_left _ done
  | timeOut _ _ _ _ _ executed _ => rwa [executed]

theorem run_executed {actions : List Action} (inv : Inv state) (done : task ∈ state.executed)
    (safe : Runs.StepsMeet step StepSafe state actions)
    (run : Runs.run step state actions = some state') : task ∈ state'.executed := by
  have kept : ∀ before action after, Inv before ∧ task ∈ before.executed →
      StepSafe before action → step before action = some after →
      Inv after ∧ task ∈ after.executed :=
    fun before action after both meets next =>
      ⟨both.1.step meets next, (step_effect both.1 meets next).executed both.2⟩
  exact (Runs.run_invariant kept ⟨inv, done⟩ safe run).2

/-- Run lemma: the steps of the worker use up the distance to the task's execution. -/
theorem run_progress {actions : List Action} (inv : Inv state)
    (holds : (state.workers index).Holds task)
    (safe : Runs.StepsMeet step StepSafe state actions)
    (run : Runs.run step state actions = some state') :
    task ∈ state'.executed ∨ Inv state' ∧ (state'.workers index).Holds task ∧
      actions.count (.worker index) + (state'.workers index).next.distance ≤
        (state.workers index).next.distance := by
  induction actions generalizing state with
  | nil =>
    cases run
    exact .inr ⟨inv, holds, by simp⟩
  | cons action actions ih =>
    obtain ⟨meets, rest⟩ := safe
    rw [Runs.run_cons] at run
    cases next : step state action with
    | none =>
      rw [next] at run
      cases run
    | some middle =>
      rw [next] at run rest
      have inv' := inv.step meets next
      rw [List.count_cons]
      by_cases own : action = .worker index
      · subst own
        rw [if_pos (beq_self_eq_true _)]
        rcases worker_progress inv holds next with done | ⟨holds', nearer⟩
        · exact .inl (run_executed inv' done rest run)
        · refine (ih inv' holds' rest run).imp_right fun ⟨last, holds, less⟩ => ?_
          exact ⟨last, holds, by omega⟩
      · rw [if_neg (by rwa [beq_iff_eq])]
        rcases effect_progress inv holds (step_effect inv meets next) with
          done | ⟨holds', near⟩
        · exact .inl (run_executed inv' done rest run)
        · refine (ih inv' holds' rest run).imp_right fun ⟨last, holds, less⟩ => ?_
          exact ⟨last, holds, by omega⟩

theorem advanceWorker_isSome (inv : Inv state)
    (advances : (state.workers index).advance.isSome = true) :
    (step state (.worker index)).isSome = true := by
  change (state.advanceWorker index).isSome = true
  unfold State.advanceWorker
  rw [if_neg inv.alive, Option.isSome_map]
  exact advances

theorem Worker.advance_isSome (worker : Worker) :
    worker.advance.isSome = true ∨
      worker.stateMutex ≠ none ∧ ¬ worker.next.LocksState ∧ worker.next ≠ .waiting ∨
      worker.semaphoreMutex ≠ none ∧ ¬ worker.next.LocksSemaphore ∧ worker.next ≠ .waiting ∨
      worker.next = .waiting ∨ worker.next = .finished := by
  unfold Worker.advance
  split <;> rename_i next
  all_goals rw [next]
  all_goals try split
  all_goals simp_all [WorkerStep.LocksState, WorkerStep.LocksSemaphore]

theorem goesOn (inv : Inv state) (holds : (state.workers index).Holds task) :
    state.GoesOn index := by
  have known := inv.known_of_holds holds
  have worker := inv.worker index known
  have hasTask : (state.workers index).hasTask = true := by
    rcases holds with mem | runs
    · exact (worker.queued (List.ne_nil_of_mem mem)).1
    · exact (worker.busy (by rw [runs]; trivial)).1
  have queued : (state.workers index).next = .waiting ∨ (state.workers index).next = .finished →
      (state.workers index).tasksQueue ≠ [] := by
    rintro stops empty
    rw [Worker.Holds, empty] at holds
    rcases holds with mem | runs
    · cases mem
    · rw [runs] at stops
      rcases stops with no | no <;> cases no
  rcases (state.workers index).advance_isSome with
    advances | ⟨locked, free, -⟩ | ⟨locked, free, -⟩ | waits | ended
  · exact .inl (advanceWorker_isSome inv advances)
  · cases holder : (state.workers index).stateMutex with
    | none => exact absurd holder locked
    | some holder' =>
      cases holder' with
      | worker => exact absurd (worker.stateWorker holder) free
      | user =>
        obtain ⟨other, place, user⟩ := worker.stateUser holder
        refine .inr ⟨by rw [user]; rfl, ?_, ?_⟩
        · simp only [StepSafe, user]
          exact .inl hasTask
        · change state.advanceUser.isSome = true
          simp [State.advanceUser, user, hasTask]
  · cases holder : (state.workers index).semaphoreMutex with
    | none => exact absurd holder locked
    | some holder' =>
      cases holder' with
      | worker => exact absurd (worker.semaphoreWorker holder) free
      | user =>
        have empty : (state.workers index).tasksQueue = [] := by
          obtain ⟨place, user | user⟩ := worker.semaphoreUser holder
          · exact worker.leaving place user
          · have placed := inv.placed
            rw [user] at placed
            cases placed
            exact worker.queue_of_exit (inv.told index (by
              rw [user]
              exact Nat.lt_succ_self _))
        rw [Worker.Holds, empty] at holds
        rcases holds with mem | runs
        · cases mem
        · rw [runs] at free
          exact absurd trivial free
  · obtain ⟨-, -, -, awake | ⟨-, user⟩⟩ := worker.queued (queued (.inl waits))
    · rw [waits] at awake
      exact awake.elim
    · refine .inr ⟨by rw [user]; rfl, ?_, ?_⟩
      · simp only [StepSafe, user]
        exact .inr (by rw [waits]; intro same; cases same)
      · change state.advanceUser.isSome = true
        simp [State.advanceUser, user]
  · obtain ⟨-, -, -, awake | ⟨begins | waits, -⟩⟩ := worker.queued (queued (.inr ended))
    · rw [ended] at awake
      exact awake.elim
    · rw [ended] at begins
      cases begins
    · rw [ended] at waits
      cases waits

theorem certain (inv : Inv state) (holds : (state.workers index).Holds task) :
    state.Certain task := by
  refine ⟨index, (state.workers index).next.distance + 1, fun actions state' safe run => ?_⟩
  refine (run_progress inv holds safe run).imp_right fun ⟨inv', holds', less⟩ => ?_
  exact ⟨by omega, goesOn inv' holds'⟩

theorem callGoesOn (inv : Inv state) (hand : state.user.inHand = some task) :
    state.CallGoesOn := by
  cases user : state.user with
  | cleanUp own place =>
    refine .inl ?_
    change state.advanceUser.isSome = true
    unfold State.advanceUser
    simp only [user]
    split
    · rfl
    · split <;> rfl
  | findWorker own place =>
    cases found : state.threads[place]? with
    | none =>
      refine .inl ?_
      change state.advanceUser.isSome = true
      simp [State.advanceUser, user, found]
    | some index =>
      cases holder : (state.workers index).stateMutex with
      | none =>
        refine .inl ?_
        change state.advanceUser.isSome = true
        simp [State.advanceUser, user, found, holder]
      | some holder' =>
        have worker := inv.worker index (inv.thread_eq found).2
        cases holder' with
        | user =>
          obtain ⟨_, _, other⟩ := worker.stateUser holder
          rw [user] at other
          cases other
        | worker =>
          refine .inr ⟨index, holder, advanceWorker_isSome inv ?_⟩
          have locks := worker.stateWorker holder
          unfold WorkerStep.LocksState at locks
          unfold Worker.advance
          split at locks <;> rename_i next
          · rw [next]
            rfl
          · rw [next]
            dsimp only
            split <;> rfl
          · rw [next]
            rfl
          · exact locks.elim
  | testHasTask own place index =>
    refine .inl ?_
    change state.advanceUser.isSome = true
    unfold State.advanceUser
    simp only [user]
    split <;> rfl
  | _ =>
    rw [user] at hand
    cases hand

theorem correct (inv : Inv state) (tasks : TasksInv state) : state.Correct where
  once task _ := List.nodup_iff_count_le_one.mp tasks.once task
  served task less := by
    rcases tasks.placed task less with done | hand | ⟨index, holds⟩
    · exact .inl done
    · exact .inr (.inl ⟨hand, callGoesOn inv hand⟩)
    · exact .inr (.inr (certain inv holds))
  deleted index gone := by
    obtain ⟨joined, exits⟩ := inv.deleted index gone
    refine ⟨joined, ?_⟩
    by_cases known : index < state.created
    · exact (inv.worker index known).queue_of_exit exits
    · rw [inv.unborn index (Nat.not_lt.mp known)]

end Progress

/-- In runs with safe steps only, no task is lost or executed twice. -/
theorem run_tasks_certain {actions : List Action} {state : State}
    (safe : Runs.StepsMeet step StepSafe initial actions)
    (run : Runs.run step initial actions = some state) : state.Correct := by
  have kept : ∀ before action after, Inv before ∧ TasksInv before →
      StepSafe before action → step before action = some after →
      Inv after ∧ TasksInv after :=
    fun before action after both meets next =>
      ⟨both.1.step meets next, both.2.step (fun _ _ runs => both.1.queue_of_runs runs)
        (step_effect both.1 meets next)⟩
  obtain ⟨inv, tasks⟩ := Runs.run_invariant kept ⟨.start, .start⟩ safe run
  exact correct inv tasks

section Runs

/-- Both workers start and wait, a task is passed and executed, and the pool is destroyed. -/
def wholeLife : List Action :=
  List.replicate 7 (.worker 0) ++ List.replicate 7 (.worker 1) ++
    .enqueueTask :: List.replicate 6 .user ++ List.replicate 8 (.worker 0) ++
    .destroy :: List.replicate 7 .user ++ List.replicate 2 (.worker 0) ++
    List.replicate 2 (.worker 1) ++ List.replicate 6 .user

theorem wholeLife_certain : ∃ state, Runs.run step initial wholeLife = some state ∧
    state.user = .destroyed ∧ state.executed = [0] ∧ state.Correct := by
  have safe : Runs.StepsMeet step StepSafe initial wholeLife := by decide
  exact ⟨_, rfl, rfl, rfl, run_tasks_certain safe rfl⟩

/-- A worker finds its queue empty, a task is pushed and notified of, and the worker waits. -/
def missedNotification : List Action :=
  List.replicate 6 (.worker 0) ++ List.replicate 7 (.worker 1) ++
    .enqueueTask :: List.replicate 6 .user ++ [.worker 0]

/-- Both threads wait then, the call has returned, and the task stays in the queue. -/
theorem missedNotification_uncertain : ∃ state,
    Runs.run step initial missedNotification = some state ∧ ¬ state.Correct := by
  refine ⟨_, rfl, fun correct => ?_⟩
  rcases correct.served 0 (by decide) with done | hand | ⟨index, bound, certain⟩
  · exact absurd done (by decide)
  · exact absurd hand.1 (by decide)
  · rcases certain [] _ trivial rfl with done | ⟨-, goes | ⟨about, -⟩⟩
    · exact absurd done (by decide)
    · rcases index with - | - | index
      · exact absurd goes (by decide)
      · exact absurd goes (by decide)
      · exact absurd goes Bool.false_ne_true
    · cases about

end Runs

end Voxen.FileIoThreadPool
