import Voxen.Svc.TaskServiceSlaveQueue

/-!
# Where the tasks are

Every task is in one place: in the queue it was enqueued to, with the slave of that
queue, or finished.  A functor is called while a slave has its task, so it is called
once.
-/

namespace Voxen.Svc.TaskServiceSlave

open Function (update update_of_ne update_self update_eq_self)

/-- The functor or the coroutine of the task was entered, and the task has not been
put back since. -/
def Phase.runs (task : Task) : Phase → Bool
  | .busy other _ .entered | .busy other _ .finish => other = task
  | _ => false

theorem Slave.Free.runs {slave : Slave} (free : slave.Free) (task : Task) :
    slave.phase.runs task = false := by
  cases phase : slave.phase with
  | busy other slot work => exact absurd phase free.not_busy
  | popTaskOrWait => rfl
  | tryPopTask => rfl
  | drain i remaining polling => rfl
  | ended => rfl

/-- The counters that were not completed when the task was enqueued are still in its
header, unless they have been completed since. -/
def TaskHeader.Waits (header : TaskHeader) (completed given : List Nat) : Prop :=
  ∀ counter ∈ given, counter = 0 ∨ counter ∈ completed ∨ counter ∈ header.waitCounters

/-- The coroutine can be resumed if it is not blocked. -/
def TaskHeader.Ready (header : TaskHeader) : Prop :=
  header.waitCounters = [] ∧
    ∀ coroutine, header.executable = .coroutine (some coroutine) → coroutine.done = false

/-- The counters that were given for the task had been completed, and the coroutine
was not done. -/
def Entry.Correct (entry : Entry) (given : Task → List Nat) : Prop :=
  (∀ counter ∈ given entry.task, counter = 0 ∨ counter ∈ entry.completed) ∧ entry.done = false

variable {Thread : Type} [DecidableEq Thread]

namespace State

/-- How often the task was entered. -/
def entered (state : State Thread) (task : Task) : Nat :=
  (state.entries.map Entry.task).count task

/-- How often the functor of the task should have been called by now. -/
def due (state : State Thread) (task : Task) : Nat :=
  match state.place task with
  | .finished => 1
  | .held thread => ((state.slaves thread).phase.runs task).toNat
  | _ => 0

end State

structure Inv (state : State Thread) : Prop where
  unborn : ∀ task, state.nextTask ≤ task → state.place task = .unborn
  queued : ∀ queue task, task ∈ state.queues queue ↔ state.place task = .queued queue
  queueDistinct : ∀ queue, (state.queues queue).Nodup
  held : ∀ thread task, task ∈ (state.slaves thread).tasks ↔ state.place task = .held thread
  distinct : ∀ thread, (state.slaves thread).tasks.Nodup
  layout : ∀ thread, (state.slaves thread).Layout
  waits : ∀ thread, (state.put thread).filter (fun task => state.place task ≠ .finished) =
    (state.slaves thread).waiting
  putDistinct : ∀ thread, (state.put thread).Nodup
  putPlace : ∀ thread, ∀ task ∈ state.put thread,
    state.place task = .held thread ∨ state.place task = .finished
  accepted : ∀ queue, ∀ task ∈ state.accepted queue, state.place task = .queued queue ∨
    state.place task = .held queue ∨ state.place task = .finished
  counters : ∀ task, (state.headers task).Waits state.completed (state.given task)
  ready : ∀ thread task slot, (state.slaves thread).phase = .busy task slot .blocked →
    (state.headers task).Ready
  entries : ∀ entry ∈ state.entries, entry.Correct state.given ∧ state.place entry.task ≠ .unborn
  calls : ∀ task, (state.headers task).executable = .function → state.entered task = state.due task

theorem initial_inv : Inv ({} : State Thread) where
  unborn := fun _ _ => rfl
  queued := by simp
  queueDistinct := fun _ => List.nodup_nil
  held := by simp [Slave.tasks, Slave.waiting, Slave.taken]
  distinct := fun _ => List.nodup_nil
  layout := fun _ => rfl
  waits := fun _ => rfl
  putDistinct := fun _ => List.nodup_nil
  putPlace := by simp
  accepted := by simp
  counters := by simp [TaskHeader.Waits]
  ready := by simp
  entries := by simp
  calls := by simp

namespace Inv

variable {state : State Thread} {thread : Thread} {slave : Slave} {task : Task} {slot : Slot}
  {work : Work}

theorem busy (inv : Inv state) (phase : (state.slaves thread).phase = .busy task slot work) :
    state.place task = .held thread :=
  (inv.held thread task).mp
    ((state.slaves thread).executed_spec phase (inv.layout thread) (inv.distinct thread)).2.2.2

/-- A slave does something that changes neither its tasks nor those of others. -/
theorem move (inv : Inv state) (slave : Slave) (put : List Task) (entries : List Entry)
    (layout : slave.Layout)
    (tasks : slave.tasks = (state.slaves thread).tasks)
    (waits : put.filter (fun task => state.place task ≠ .finished) = slave.waiting)
    (putDistinct : put.Nodup)
    (putPlace : ∀ task ∈ put, state.place task = .held thread ∨ state.place task = .finished)
    (ready : ∀ task slot, slave.phase = .busy task slot .blocked → (state.headers task).Ready)
    (entered : ∀ entry ∈ entries, entry.Correct state.given ∧ state.place entry.task ≠ .unborn)
    (calls : ∀ task, (state.headers task).executable = .function →
      (entries.map Entry.task).count task = (state.setSlave thread slave).due task) :
    Inv { state.setSlave thread slave with
      put := update state.put thread put, entries := entries } where
  unborn := inv.unborn
  queued := inv.queued
  queueDistinct := inv.queueDistinct
  held := by
    intro other task
    by_cases same : other = thread
    · subst same
      simp only [State.setSlave, update_self, tasks]
      exact inv.held other task
    · simp only [State.setSlave, update_of_ne same]
      exact inv.held other task
  distinct := by
    intro other
    by_cases same : other = thread
    · subst same
      simp only [State.setSlave, update_self, tasks]
      exact inv.distinct other
    · simp only [State.setSlave, update_of_ne same]
      exact inv.distinct other
  layout := by
    intro other
    by_cases same : other = thread
    · subst same
      simpa only [State.setSlave, update_self] using layout
    · simp only [State.setSlave, update_of_ne same]
      exact inv.layout other
  waits := by
    intro other
    by_cases same : other = thread
    · subst same
      simp only [State.setSlave, update_self]
      exact waits
    · simp only [State.setSlave, update_of_ne same]
      exact inv.waits other
  putDistinct := by
    intro other
    by_cases same : other = thread
    · subst same
      simpa only [update_self] using putDistinct
    · simp only [update_of_ne same]
      exact inv.putDistinct other
  putPlace := by
    intro other
    by_cases same : other = thread
    · subst same
      simp only [update_self]
      exact putPlace
    · simp only [update_of_ne same]
      exact inv.putPlace other
  accepted := inv.accepted
  counters := inv.counters
  ready := by
    intro other task slot
    by_cases same : other = thread
    · subst same
      simpa only [State.setSlave, update_self] using ready task slot
    · simp only [State.setSlave, update_of_ne same]
      exact inv.ready other task slot
  entries := entered
  calls := calls

theorem due_setSlave
    (runs : state.place task = .held thread →
      slave.phase.runs task = (state.slaves thread).phase.runs task) :
    (state.setSlave thread slave).due task = state.due task := by
  simp only [State.due, State.setSlave]
  cases place : state.place task with
  | held other =>
    by_cases same : other = thread
    · subst same
      simp only [update_self, runs place]
    · simp only [update_of_ne same]
  | unborn => rfl
  | queued queue => rfl
  | finished => rfl

theorem quiet (inv : Inv state) (layout : slave.Layout)
    (waiting : slave.waiting = (state.slaves thread).waiting)
    (taken : slave.taken = (state.slaves thread).taken)
    (ready : ∀ task slot, slave.phase = .busy task slot .blocked → (state.headers task).Ready)
    (runs : ∀ task, (state.headers task).executable = .function →
      slave.phase.runs task = (state.slaves thread).phase.runs task) :
    Inv (state.setSlave thread slave) := by
  have moved := inv.move slave (state.put thread) state.entries layout
    (by rw [Slave.tasks, waiting, taken, Slave.tasks])
    ((inv.waits thread).trans waiting.symm) (inv.putDistinct thread) (inv.putPlace thread) ready
    inv.entries fun task isFunction =>
      (inv.calls task isFunction).trans (due_setSlave fun _ => runs task isFunction).symm
  rwa [update_eq_self] at moved

theorem setHeader (inv : Inv state) {header : TaskHeader}
    (waits : header.Waits state.completed (state.given task))
    (function : header.executable = .function → (state.headers task).executable = .function)
    (ready : (∃ thread slot, (state.slaves thread).phase = .busy task slot .blocked) →
      header.Ready) :
    Inv (state.setHeader task header) where
  unborn := inv.unborn
  queued := inv.queued
  queueDistinct := inv.queueDistinct
  held := inv.held
  distinct := inv.distinct
  layout := inv.layout
  waits := inv.waits
  putDistinct := inv.putDistinct
  putPlace := inv.putPlace
  accepted := inv.accepted
  counters := by
    intro other
    by_cases same : other = task
    · subst same
      simpa only [State.setHeader, update_self] using waits
    · simp only [State.setHeader, update_of_ne same]
      exact inv.counters other
  ready := by
    intro thread other slot phase
    by_cases same : other = task
    · subst same
      simpa only [State.setHeader, update_self] using ready ⟨thread, slot, phase⟩
    · simp only [State.setHeader, update_of_ne same]
      exact inv.ready thread other slot phase
  entries := inv.entries
  calls := by
    intro other
    by_cases same : other = task
    · subst same
      simp only [State.setHeader, update_self]
      exact fun isFunction => inv.calls other (function isFunction)
    · simp only [State.setHeader, update_of_ne same]
      exact inv.calls other

theorem notExecuted (inv : Inv state)
    (phase : (state.slaves thread).phase = .busy task slot work)
    (runs : ∀ other, (state.headers other).executable = .function →
      (state.slaves thread).phase.runs other = false) :
    Inv (state.notExecuted thread task slot) := by
  obtain ⟨layout, waiting, taken⟩ := Slave.notExecuted_spec phase (inv.layout thread)
  have free := (state.slaves thread).notExecuted_free task slot
  have notBlocked : ∀ other slot', ((state.slaves thread).notExecuted task slot).phase =
      .busy other slot' .blocked → (state.headers other).Ready :=
    fun _ _ blocked => absurd blocked free.not_busy
  cases slot with
  | taken =>
    have alone : (state.slaves thread).taken = [task] := by simp [Slave.taken, phase]
    have place := inv.busy phase
    have distinct := inv.distinct thread
    rw [Slave.tasks, alone] at distinct
    have absent : task ∉ (state.slaves thread).waiting := fun mem =>
      (List.nodup_append.mp distinct).2.2 task mem task (List.mem_singleton_self task) rfl
    have new : task ∉ state.put thread := fun mem => absent <| by
      rw [← inv.waits thread]
      exact List.mem_filter.mpr ⟨mem, by simp [place]⟩
    have moved := inv.move ((state.slaves thread).notExecuted task .taken)
      (state.put thread ++ [task]) state.entries layout
      (by rw [Slave.tasks, waiting, taken, List.append_nil, Slave.tasks])
      (by
        rw [List.filter_append, inv.waits thread, waiting, alone]
        congr 1
        simp [place])
      (by
        rw [List.nodup_append]
        refine ⟨inv.putDistinct thread, by simp, ?_⟩
        rintro other mem _ same rfl
        rw [List.mem_singleton.mp same] at mem
        exact new mem)
      (by
        intro other mem
        rcases List.mem_append.mp mem with old | same
        · exact inv.putPlace thread other old
        · rw [List.mem_singleton.mp same]
          exact Or.inl place)
      notBlocked inv.entries fun other isFunction =>
        (inv.calls other isFunction).trans (due_setSlave fun _ =>
          (free.runs other).trans (runs other isFunction).symm).symm
    exact moved
  | waiting i remaining polling =>
    have none : (state.slaves thread).taken = [] := by simp [Slave.taken, phase]
    rw [none, List.append_nil] at waiting
    exact inv.quiet layout waiting (taken.trans none.symm) notBlocked fun other isFunction =>
      (free.runs other).trans (runs other isFunction).symm

theorem enter (inv : Inv state) {done : Bool}
    (phase : (state.slaves thread).phase = .busy task slot work)
    (free : (state.headers task).waitCounters = []) (notDone : done = false)
    (before : (state.slaves thread).phase.runs task = false) :
    Inv (state.enter thread task slot done) := by
  have place := inv.busy phase
  have others : ∀ other, other ≠ task → (state.slaves thread).phase.runs other = false := by
    intro other differs
    rw [phase]
    cases work <;> simp [Phase.runs, Ne.symm differs]
  have counted := inv.calls task
  rw [State.due, place] at counted
  simp only [before, Bool.toNat_false] at counted
  have moved := inv.move { state.slaves thread with phase := .busy task slot .entered }
    (state.put thread) (⟨task, state.completed, done⟩ :: state.entries)
    (by
      have layout := inv.layout thread
      cases slot with
      | taken =>
        simp only [Slave.Layout, phase] at layout ⊢
        exact layout
      | waiting i remaining polling =>
        simp only [Slave.Layout, phase] at layout ⊢
        exact layout)
    (by cases slot <;> simp [Slave.tasks, Slave.waiting, Slave.taken, phase])
    (inv.waits thread) (inv.putDistinct thread) (inv.putPlace thread)
    (by
      rintro other slot' blocked
      cases blocked)
    (by
      intro entry mem
      rcases List.mem_cons.mp mem with rfl | old
      · refine ⟨⟨fun counter given => ?_, notDone⟩, by simp [place]⟩
        rcases inv.counters task counter given with zero | completed | waits
        · exact Or.inl zero
        · exact Or.inr completed
        · rw [free] at waits
          cases waits
      · exact inv.entries entry old)
    (by
      intro other isFunction
      by_cases same : other = task
      · subst same
        have none := counted isFunction
        rw [State.entered] at none
        simp [State.due, State.setSlave, place, Phase.runs, none]
      · have same' := inv.calls other isFunction
        rw [due_setSlave fun _ => ?_]
        · rw [← same', State.entered, List.map_cons, List.count_cons_of_ne (Ne.symm same)]
        · rw [others other same]
          simp [Phase.runs, Ne.symm same])
  rw [update_eq_self] at moved
  exact moved

theorem popped (inv : Inv state) {rest : List Task} (queue : state.queues thread = task :: rest)
    (taken : (state.slaves thread).taken = [])
    (idle : ∀ other, (state.slaves thread).phase.runs other = false)
    (whole : ∃ kept, (state.slaves thread).localWaitingQueue = List.map some kept) :
    Inv (state.popped thread task rest) := by
  have place : state.place task = .queued thread := by
    rw [← inv.queued, queue]
    exact List.mem_cons_self
  have distinct := inv.queueDistinct thread
  rw [queue, List.nodup_cons] at distinct
  have notPut : ∀ other, task ∉ state.put other := by
    intro other mem
    rcases inv.putPlace other task mem with held | finished
    · rw [place] at held
      cases held
    · rw [place] at finished
      cases finished
  have tasks : ((state.popped thread task rest).slaves thread).tasks =
      (state.slaves thread).tasks ++ [task] := by
    simp [State.popped, State.setPhase, State.setSlave, Slave.tasks, taken]
    rfl
  have others : ∀ other, other ≠ thread →
      (state.popped thread task rest).slaves other = state.slaves other := by
    intro other differs
    simp [State.popped, State.setPhase, State.setSlave, update_of_ne differs]
  have places : ∀ other, other ≠ task →
      (state.popped thread task rest).place other = state.place other := by
    intro other differs
    simp [State.popped, update_of_ne differs]
  have placed : (state.popped thread task rest).place task = .held thread := by
    simp [State.popped]
  refine
    { inv with
      unborn := ?_
      queued := ?_
      queueDistinct := ?_
      held := ?_
      distinct := ?_
      layout := ?_
      waits := ?_
      putPlace := ?_
      accepted := ?_
      ready := ?_
      entries := ?_
      calls := ?_ }
  · intro other later
    have differs : other ≠ task := by
      rintro rfl
      rw [inv.unborn other later] at place
      cases place
    rw [places other differs]
    exact inv.unborn other later
  · intro other task'
    have mine : (state.popped thread task rest).queues thread = rest := by
      simp [State.popped]
    by_cases same : task' = task
    · subst same
      rw [placed]
      refine iff_of_false (fun mem => ?_) (by simp)
      by_cases here : other = thread
      · rw [here, mine] at mem
        exact distinct.1 mem
      · simp only [State.popped, update_of_ne here] at mem
        rw [inv.queued, place] at mem
        exact here (Place.queued.inj mem).symm
    · rw [places task' same, ← inv.queued]
      by_cases here : other = thread
      · rw [here, mine, queue]
        simp [same]
      · simp only [State.popped, update_of_ne here]
  · intro other
    by_cases here : other = thread
    · rw [here]
      simpa [State.popped] using distinct.2
    · simp only [State.popped, update_of_ne here]
      exact inv.queueDistinct other
  · intro other task'
    by_cases same : task' = task
    · subst same
      rw [placed]
      by_cases here : other = thread
      · rw [here, tasks]
        simp
      · rw [others other here, inv.held, place]
        simp [Ne.symm here]
    · rw [places task' same, ← inv.held]
      by_cases here : other = thread
      · rw [here, tasks]
        simp [same]
      · rw [others other here]
  · intro other
    by_cases here : other = thread
    · rw [here, tasks, List.nodup_append]
      refine ⟨inv.distinct thread, by simp, ?_⟩
      rintro task' mem _ same rfl
      rw [List.mem_singleton.mp same, inv.held, place] at mem
      cases mem
    · rw [others other here]
      exact inv.distinct other
  · intro other
    by_cases here : other = thread
    · rw [here]
      simpa [State.popped, State.setPhase, State.setSlave, Slave.Layout] using whole
    · rw [others other here]
      exact inv.layout other
  · intro other
    have same : (state.popped thread task rest).put other = state.put other := rfl
    rw [same, List.filter_congr fun task' mem => ?_, inv.waits other]
    · by_cases here : other = thread
      · rw [here]
        simp [State.popped, State.setPhase, State.setSlave, Slave.waiting]
      · rw [others other here]
    · rw [places task' fun equal => notPut other (equal ▸ mem)]
  · intro other task' mem
    rw [places task' fun equal => notPut other (equal ▸ mem)]
    exact inv.putPlace other task' mem
  · intro other task' mem
    by_cases same : task' = task
    · subst same
      rcases inv.accepted other task' mem with queued | held | finished
      · rw [place] at queued
        rw [placed, Place.queued.inj queued]
        exact Or.inr (Or.inl rfl)
      · rw [place] at held
        cases held
      · rw [place] at finished
        cases finished
    · rw [places task' same]
      exact inv.accepted other task' mem
  · intro other task' slot blocked
    by_cases here : other = thread
    · rw [here] at blocked
      simp [State.popped, State.setPhase, State.setSlave] at blocked
    · rw [others other here] at blocked
      exact inv.ready other task' slot blocked
  · intro entry mem
    obtain ⟨correct, born⟩ := inv.entries entry mem
    refine ⟨correct, ?_⟩
    by_cases same : entry.task = task
    · rw [same, placed]
      simp
    · rwa [places entry.task same]
  · intro task' isFunction
    have counted : state.entered task' = state.due task' := inv.calls task' isFunction
    refine (show (state.popped thread task rest).entered task' = _ from counted).trans ?_
    by_cases same : task' = task
    · subst same
      simp only [State.due, place, placed]
      simp [State.popped, State.setPhase, State.setSlave, Phase.runs]
    · have moved : (state.setPhase thread (.busy task .taken .attempt)).due task' =
          state.due task' :=
        due_setSlave fun _ => (idle task').symm
      rw [← moved]
      simp only [State.due, places task' same]
      rfl

theorem finish (inv : Inv state) {completed : List Nat}
    (phase : (state.slaves thread).phase = .busy task slot .finish)
    (more : state.completed ⊆ completed) :
    Inv { state.setSlave thread ((state.slaves thread).executed slot) with
      completed := completed, place := update state.place task .finished } := by
  obtain ⟨layout, taken, waiting, -⟩ :=
    Slave.executed_spec phase (inv.layout thread) (inv.distinct thread)
  have place := inv.busy phase
  have free := (state.slaves thread).executed_free slot
  obtain ⟨other, isOther⟩ : ∃ state' : State Thread, state' =
      { state.setSlave thread ((state.slaves thread).executed slot) with
        completed := completed, place := update state.place task .finished } := ⟨_, rfl⟩
  rw [← isOther]
  have mine : other.slaves thread = (state.slaves thread).executed slot := by
    simp [isOther, State.setSlave]
  have others : ∀ thread', thread' ≠ thread → other.slaves thread' = state.slaves thread' := by
    intro thread' differs
    simp [isOther, State.setSlave, update_of_ne differs]
  have placed : other.place task = .finished := by
    simp [isOther]
  have places : ∀ task', task' ≠ task → other.place task' = state.place task' := by
    intro task' differs
    simp [isOther, update_of_ne differs]
  have sameQueues : other.queues = state.queues := by rw [isOther]; rfl
  have samePut : other.put = state.put := by rw [isOther]; rfl
  refine ⟨?_, ?_, ?_, ?_, ?_, ?_, ?_, ?_, ?_, ?_, ?_, ?_, ?_, ?_⟩
  · intro task' later
    have born : state.nextTask ≤ task' := by rwa [isOther] at later
    rw [places task' fun equal => ?_]
    · exact inv.unborn task' born
    · rw [equal] at born
      rw [inv.unborn task born] at place
      cases place
  · intro queue task'
    rw [sameQueues, inv.queued]
    by_cases same : task' = task
    · rw [same, place, placed]
      simp
    · rw [places task' same]
  · rw [sameQueues]
    exact inv.queueDistinct
  · intro thread' task'
    by_cases here : thread' = thread
    · rw [here, mine, Slave.tasks, taken, List.append_nil, waiting]
      by_cases same : task' = task
      · rw [same, placed]
        simp
      · rw [places task' same, ← inv.held, List.mem_filter, Slave.tasks]
        have notTaken : task' ∉ (state.slaves thread).taken := by
          cases slot <;> simp [Slave.taken, phase, same]
        simp [same, notTaken]
    · rw [others thread' here, inv.held]
      by_cases same : task' = task
      · rw [same, placed, place]
        simp [Ne.symm here]
      · rw [places task' same]
  · intro thread'
    by_cases here : thread' = thread
    · rw [here, mine, Slave.tasks, taken, List.append_nil, waiting]
      exact ((List.nodup_append.mp (inv.distinct thread)).1).filter _
    · rw [others thread' here]
      exact inv.distinct thread'
  · intro thread'
    by_cases here : thread' = thread
    · rw [here, mine]
      exact layout
    · rw [others thread' here]
      exact inv.layout thread'
  · intro thread'
    rw [samePut]
    by_cases here : thread' = thread
    · rw [here, mine, waiting, ← inv.waits thread, List.filter_filter]
      refine List.filter_congr fun task' _ => ?_
      by_cases same : task' = task
      · simp [same, placed]
      · simp [same, places task' same]
    · rw [others thread' here, ← inv.waits thread']
      refine List.filter_congr fun task' mem => ?_
      by_cases same : task' = task
      · rw [same] at mem
        rcases inv.putPlace thread' task mem with held | finished
        · rw [place] at held
          exact absurd (Place.held.inj held).symm here
        · rw [place] at finished
          cases finished
      · rw [places task' same]
  · rw [samePut]
    exact inv.putDistinct
  · intro thread' task' mem
    rw [samePut] at mem
    by_cases same : task' = task
    · rw [same]
      exact Or.inr placed
    · rw [places task' same]
      exact inv.putPlace thread' task' mem
  · intro queue task' mem
    by_cases same : task' = task
    · rw [same]
      exact Or.inr (Or.inr placed)
    · rw [places task' same]
      exact inv.accepted queue task' (by rwa [isOther] at mem)
  · intro task' counter given
    rw [isOther] at given ⊢
    rcases inv.counters task' counter given with zero | done | waits
    · exact Or.inl zero
    · exact Or.inr (Or.inl (more done))
    · exact Or.inr (Or.inr waits)
  · intro thread' task' slot' blocked
    have sameHeaders : other.headers = state.headers := by rw [isOther]; rfl
    rw [sameHeaders]
    by_cases here : thread' = thread
    · rw [here, mine] at blocked
      exact absurd blocked free.not_busy
    · rw [others thread' here] at blocked
      exact inv.ready thread' task' slot' blocked
  · intro entry mem
    have given : other.given = state.given := by rw [isOther]; rfl
    obtain ⟨correct, born⟩ := inv.entries entry (by rwa [isOther] at mem)
    rw [given]
    refine ⟨correct, ?_⟩
    by_cases same : entry.task = task
    · rw [same, placed]
      simp
    · rwa [places entry.task same]
  · intro task' isFunction
    have counted : other.entered task' = state.due task' := by
      have before := inv.calls task' (by rwa [isOther] at isFunction)
      rw [isOther]
      exact before
    rw [counted]
    by_cases same : task' = task
    · rw [same]
      simp [State.due, place, placed, phase, Phase.runs]
    · simp only [State.due, places task' same]
      cases at_task : state.place task' with
      | held thread' =>
        by_cases here : thread' = thread
        · rw [here]
          simp only [mine, free.runs]
          simp [phase, Phase.runs, Ne.symm same]
        · simp only [others thread' here]
      | unborn => rfl
      | queued queue => rfl
      | finished => rfl

theorem enqueue (inv : Inv state) {queue : Thread} {header : TaskHeader} {given accepted : List Nat}
    {nextCounter : Nat} {allocated : List Nat} (waits : header.Waits state.completed given)
    (only : ∀ task ∈ accepted, task = state.nextTask) :
    Inv { state.setHeader state.nextTask header with
      nextTask := state.nextTask + 1
      nextCounter := nextCounter
      queues := update state.queues queue (state.queues queue ++ [state.nextTask])
      allocated := allocated
      place := update state.place state.nextTask (.queued queue)
      given := update state.given state.nextTask given
      accepted := update state.accepted queue (state.accepted queue ++ accepted) } := by
  have fresh : state.place state.nextTask = .unborn := inv.unborn _ (Nat.le_refl _)
  have places : ∀ task, state.place task ≠ .unborn →
      update state.place state.nextTask (.queued queue) task = state.place task :=
    fun task born => update_of_ne (fun same => born (by rw [same]; exact fresh)) _ _
  have notHeld : ∀ thread, state.nextTask ∉ (state.slaves thread).tasks := by
    intro thread mem
    rw [inv.held, fresh] at mem
    cases mem
  have notQueued : ∀ other, state.nextTask ∉ state.queues other := by
    intro other mem
    rw [inv.queued, fresh] at mem
    cases mem
  have putBorn : ∀ thread, ∀ task ∈ state.put thread, state.place task ≠ .unborn := by
    intro thread task mem
    rcases inv.putPlace thread task mem with held | finished
    · simp [held]
    · simp [finished]
  refine
    { inv with
      unborn := ?_
      queued := ?_
      queueDistinct := ?_
      held := ?_
      waits := ?_
      putPlace := ?_
      accepted := ?_
      counters := ?_
      ready := ?_
      entries := ?_
      calls := ?_ }
  · intro task later
    have later : state.nextTask + 1 ≤ task := later
    have differs : task ≠ state.nextTask := Nat.ne_of_gt later
    simp only [update_of_ne differs]
    exact inv.unborn task (Nat.le_of_succ_le later)
  · intro other task
    simp only
    by_cases same : task = state.nextTask
    · rw [same, update_self]
      by_cases here : other = queue
      · rw [here]
        simp
      · rw [update_of_ne here]
        simp [notQueued other, Ne.symm here]
    · rw [update_of_ne same, ← inv.queued]
      by_cases here : other = queue
      · rw [here]
        simp [same]
      · rw [update_of_ne here]
  · intro other
    simp only
    by_cases here : other = queue
    · rw [here, update_self, List.nodup_append]
      refine ⟨inv.queueDistinct queue, by simp, ?_⟩
      rintro task mem _ same rfl
      rw [List.mem_singleton.mp same] at mem
      exact notQueued queue mem
    · rw [update_of_ne here]
      exact inv.queueDistinct other
  · intro thread task
    simp only
    by_cases same : task = state.nextTask
    · rw [same, update_self]
      exact iff_of_false (notHeld thread) (by simp)
    · rw [update_of_ne same]
      exact inv.held thread task
  · intro thread
    refine (List.filter_congr fun task mem => ?_).trans (inv.waits thread)
    simp only [places task (putBorn thread task mem)]
  · intro thread task mem
    simp only [places task (putBorn thread task mem)]
    exact inv.putPlace thread task mem
  · intro other task mem
    have old : task ∈ state.accepted other → update state.place state.nextTask
        (Place.queued queue) task = state.place task := by
      intro mem
      refine places task ?_
      rcases inv.accepted other task mem with queued | held | finished
      · simp [queued]
      · simp [held]
      · simp [finished]
    simp only at mem ⊢
    by_cases here : other = queue
    · rw [here, update_self] at mem
      rcases List.mem_append.mp mem with before | new
      · rw [old (here ▸ before)]
        exact inv.accepted other task (here ▸ before)
      · rw [only task new, update_self, here]
        exact Or.inl rfl
    · rw [update_of_ne here] at mem
      rw [old mem]
      exact inv.accepted other task mem
  · intro task
    simp only [State.setHeader]
    by_cases same : task = state.nextTask
    · rw [same, update_self, update_self]
      exact waits
    · rw [update_of_ne same, update_of_ne same]
      exact inv.counters task
  · intro thread task slot blocked
    have differs : task ≠ state.nextTask := by
      rintro rfl
      have place := inv.busy blocked
      rw [fresh] at place
      cases place
    simp only [State.setHeader, update_of_ne differs]
    exact inv.ready thread task slot blocked
  · intro entry mem
    obtain ⟨correct, born⟩ := inv.entries entry mem
    have differs : entry.task ≠ state.nextTask := fun same => born (same ▸ fresh)
    simp only [places entry.task born]
    refine ⟨⟨?_, correct.2⟩, born⟩
    rw [update_of_ne differs]
    exact correct.1
  · intro task isFunction
    by_cases same : task = state.nextTask
    · have none : state.entered task = 0 := by
        rw [State.entered, List.count_eq_zero, same]
        intro mem
        obtain ⟨entry, inside, isTask⟩ := List.mem_map.mp mem
        exact (inv.entries entry inside).2 (isTask ▸ fresh)
      refine (show _ = state.entered task from rfl).trans (none.trans ?_)
      simp [State.due, same]
    · simp only [State.setHeader, update_of_ne same] at isFunction
      refine (show _ = state.entered task from rfl).trans ((inv.calls task isFunction).trans ?_)
      simp [State.due, update_of_ne same, State.setHeader]

end Inv

end Voxen.Svc.TaskServiceSlave
