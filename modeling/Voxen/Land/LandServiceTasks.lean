import Voxen.Land.LandService

/-!
# The tasks of the land service

What each task reads and writes, and in which order the wait counters put the tasks. `Inv` says
that the counter in a record is the one of the last task that writes the object in the record; it
is kept by every enqueued task, whose dependencies come from records.
-/

namespace Voxen.Land.LandService

/-- What tasks share. -/
inductive Object where
  | chunk (ptr : ChunkPtr)
  | pseudoData (ptr : PseudoDataPtr)

/-- The objects that the constructor fills. -/
def Object.IsDummy : Object → Prop
  | .chunk ptr => ptr = dummyAboveLimitChunk ∨ ptr = dummyBelowLimitChunk
  | .pseudoData ptr => ptr = dummyPseudoData

namespace Job

/-- The object the task writes. -/
def writes : Job → Option Object
  | .generateChunk _ ptr => some (.chunk ptr)
  | .editBlock _ chunk _ _ => chunk.map .chunk
  | .aggregateChunks _ _ out => some (.pseudoData out)
  | .aggregateFiner _ _ out => some (.pseudoData out)
  | .generatePseudoChunk _ ptr => some (.pseudoData ptr)
  | _ => none

/-- The object the task fills first. -/
def fills : Job → Option Object
  | .editBlock _ _ _ _ => none
  | job => job.writes

/-- The objects the task reads. -/
def reads : Job → List Object
  | .editBlock _ chunk _ _ => chunk.toList.map .chunk
  | .aggregateChunks _ ref _ => (ref.filterMap id).map .chunk
  | .aggregateFiner _ ref _ => (ref.filterMap id).map .pseudoData
  | .chunkSurface _ ref => (ref.filterMap id).map .chunk
  | .pseudoChunkSurface _ ref => (ref.filterMap id).map .pseudoData
  | _ => []

/-- The task is one that makes or edits a chunk, or the generator's. -/
def MakesChunk : Job → Prop
  | .generateGlobalMap => True
  | .generateChunk _ _ => True
  | .editBlock _ _ _ _ => True
  | _ => False

/-- The task does not edit a block. -/
def NoEdit : Job → Prop
  | .editBlock _ _ _ _ => False
  | _ => True

theorem writes_of_fills {job : Job} {object : Object} (fills : job.fills = some object) :
    job.writes = some object := by
  cases job <;> first | exact fills | cases fills

end Job

/-! ## The order of tasks -/

/-- A task waits for the counter of another. -/
def WaitsFor (tasks : List Task) (counter counter' : Nat) : Prop :=
  ∃ task ∈ tasks, task.counter = counter' ∧ counter ∈ task.waitCounters

/-- A chain of wait counters leads from one task to another. -/
def Before (tasks : List Task) : Nat → Nat → Prop := Relation.TransGen (WaitsFor tasks)

/-- The counter is that of a task, or a chain leads to it. -/
def UpTo (tasks : List Task) : Nat → Nat → Prop := Relation.ReflTransGen (WaitsFor tasks)

section Order

variable {tasks : List Task} {task : Task} {counter counter' : Nat}

theorem WaitsFor.cons (waits : WaitsFor tasks counter counter') :
    WaitsFor (task :: tasks) counter counter' := by
  obtain ⟨other, mem, same, wait⟩ := waits
  exact ⟨other, List.mem_cons_of_mem _ mem, same, wait⟩

theorem Before.cons (before : Before tasks counter counter') :
    Before (task :: tasks) counter counter' :=
  Relation.TransGen.mono (fun _ _ => WaitsFor.cons) _ _ before

theorem UpTo.cons (upTo : UpTo tasks counter counter') :
    UpTo (task :: tasks) counter counter' :=
  Relation.ReflTransGen.mono (fun _ _ => WaitsFor.cons) _ _ upTo

theorem UpTo.before (task : Task) (upTo : UpTo tasks counter counter')
    (wait : counter' ∈ task.waitCounters) :
    Before (task :: tasks) counter task.counter :=
  Relation.TransGen.tail' upTo.cons ⟨task, List.mem_cons_self, rfl, wait⟩

end Order

/-- The counter is the one of the last task that writes the object, and a task before it or itself
fills it. -/
structure IsLast (tasks : List Task) (object : Object) (counter : Nat) : Prop where
  written : ∃ task ∈ tasks, task.counter = counter ∧ task.job.writes = some object
  filled : ∃ task ∈ tasks, task.job.fills = some object ∧ UpTo tasks task.counter counter
  last : ∀ task ∈ tasks, task.job.writes = some object → UpTo tasks task.counter counter

theorem IsLast.cons {tasks : List Task} {task : Task} {object : Object} {counter : Nat}
    (isLast : IsLast tasks object counter) (other : task.job.writes ≠ some object) :
    IsLast (task :: tasks) object counter where
  written := by
    obtain ⟨writer, mem, writes⟩ := isLast.written
    exact ⟨writer, List.mem_cons_of_mem _ mem, writes⟩
  filled := by
    obtain ⟨filler, mem, fills, upTo⟩ := isLast.filled
    exact ⟨filler, List.mem_cons_of_mem _ mem, fills, upTo.cons⟩
  last writer mem writes := by
    rcases List.mem_cons.mp mem with rfl | mem
    · exact absurd writes other
    · exact (isLast.last writer mem writes).cons

/-! ## The invariant -/

/-- The address was given out. -/
def Service.InUse (service : Service) : Object → Prop
  | .chunk ptr => ptr < service.nextChunk
  | .pseudoData ptr => ptr < service.nextPseudoData

/-- How many tasks for a key have not reported back. -/
def outstanding (tasks : List Task) (reported : List Nat) (key : ChunkKey) : Nat :=
  tasks.countP fun task => task.job.key = some key ∧ task.counter ∉ reported

theorem outstanding_report {tasks : List Task} {reported : List Nat} {task : Task}
    (sorted : tasks.Pairwise fun task task' => task'.counter < task.counter) (mem : task ∈ tasks)
    (unreported : task.counter ∉ reported) (key : ChunkKey) :
    outstanding tasks reported key = outstanding tasks (task.counter :: reported) key +
      if task.job.key = some key then 1 else 0 := by
  induction tasks with
  | nil => cases mem
  | cons head tasks ih =>
    obtain ⟨below, sorted⟩ := List.pairwise_cons.mp sorted
    simp only [outstanding, List.countP_cons, List.mem_cons, not_or, decide_eq_true_eq] at ih ⊢
    rcases List.mem_cons.mp mem with rfl | mem
    · have others : tasks.countP (fun other => other.job.key = some key ∧
          other.counter ∉ reported) = tasks.countP fun other => other.job.key = some key ∧
            other.counter ≠ task.counter ∧ other.counter ∉ reported :=
        List.countP_congr fun other mem => by
          have differ := Nat.ne_of_lt (below other mem)
          simp [differ]
      rw [others]
      simp only [unreported, not_false_eq_true, and_true, ne_eq, not_true, and_false, if_false,
        Nat.add_zero]
    · have differ := Nat.ne_of_gt (below task mem)
      rw [ih sorted mem]
      simp only [differ, not_false_eq_true, true_and]
      omega

/-- What holds of the records and tasks of the service when the tasks with these counters have
reported back. -/
structure Inv (reported : List Nat) (service : Service) : Prop where
  sorted : service.tasks.Pairwise fun task task' => task'.counter < task.counter
  counter_pos : ∀ task ∈ service.tasks, 0 < task.counter
  counter_le : ∀ task ∈ service.tasks, task.counter ≤ service.lastCounter
  reported_le : ∀ counter ∈ reported, counter ≤ service.lastCounter
  wait_lt : ∀ task ∈ service.tasks, ∀ wait ∈ task.waitCounters, wait < task.counter
  inUse : ∀ task ∈ service.tasks, ∀ object,
    task.job.writes = some object ∨ object ∈ task.job.reads → service.InUse object
  /-- The dummies have addresses of their own. -/
  dummies : ∀ object : Object, object.IsDummy → service.InUse object
  unwritten : ∀ task ∈ service.tasks, ∀ object, task.job.writes = some object → ¬ object.IsDummy
  mapCounter_le : service.globalMapGenTaskCounter ≤ service.lastCounter
  mapJob : ∀ task ∈ service.tasks, task.counter = service.globalMapGenTaskCounter →
    task.job.MakesChunk
  chunkCounter_le : ∀ key, (service.record key).chunkGenTaskCounter ≤ service.lastCounter
  dataCounter_le : ∀ key, (service.record key).pseudoDataGenTaskCounter ≤ service.lastCounter
  surfaceCounter_le : ∀ key,
    (service.record key).pseudoSurfaceGenTaskCounter ≤ service.lastCounter
  /-- Tasks that make chunks wait for such tasks only. -/
  chunkWaits : ∀ task ∈ service.tasks, task.job.MakesChunk → ∀ other ∈ service.tasks,
    other.counter ∈ task.waitCounters → other.job.MakesChunk
  chunkJob : ∀ key, ∀ task ∈ service.tasks,
    task.counter = (service.record key).chunkGenTaskCounter → task.job.MakesChunk
  chunk : ∀ key ptr, (service.record key).latestChunkPtr = some ptr →
    IsLast service.tasks (.chunk ptr) (service.record key).chunkGenTaskCounter ∧
      ∀ task ∈ service.tasks, task.job.writes = some (.chunk ptr) → task.job.key = some key
  data : ∀ key ptr, (service.record key).latestPseudoDataPtr = some ptr →
    IsLast service.tasks (.pseudoData ptr) (service.record key).pseudoDataGenTaskCounter
  noData : ∀ key, (service.record key).latestPseudoDataPtr = none →
    (service.record key).pseudoDataGenTaskCounter = 0
  /-- One task fills an object. -/
  fillers : ∀ task ∈ service.tasks, ∀ other ∈ service.tasks, ∀ object,
    task.job.fills = some object → other.job.fills = some object → task = other
  /-- Tasks that write one object come one after another. -/
  writers : ∀ task ∈ service.tasks, ∀ other ∈ service.tasks, ∀ object,
    task.job.writes = some object → other.job.writes = some object →
    task.counter < other.counter → Before service.tasks task.counter other.counter
  /-- A task comes after the tasks that have filled and written what it reads. -/
  readers : ∀ task ∈ service.tasks, ∀ object ∈ task.job.reads, ¬ object.IsDummy →
    (∃ filler ∈ service.tasks, filler.job.fills = some object ∧
      Before service.tasks filler.counter task.counter) ∧
    ∀ writer ∈ service.tasks, writer.job.writes = some object → writer.counter < task.counter →
      Before service.tasks writer.counter task.counter
  counts : ∀ key, (service.record key).pendingTaskCount =
    BitVec.ofNat 8 (outstanding service.tasks reported key)

theorem Inv.eq_of_counter {reported : List Nat} {service : Service} (inv : Inv reported service)
    {task other : Task} (mem : task ∈ service.tasks) (mem' : other ∈ service.tasks)
    (same : task.counter = other.counter) : task = other := by
  have distinct : service.tasks.Pairwise fun task task' => task.counter ≠ task'.counter :=
    inv.sorted.imp fun lt => Nat.ne_of_gt lt
  have : Std.Symm fun task task' : Task => task.counter ≠ task'.counter := ⟨fun _ _ => Ne.symm⟩
  by_contra differ
  exact distinct.forall mem mem' differ same

/-! ## An enqueued task -/

/-- What the service does when it enqueues a task: the records that it changes and where the
dependencies of the task come from. -/
structure Enqueues (service service' : Service) (waits : List Nat) (job : Job) : Prop where
  tasks : service'.tasks = ⟨service.lastCounter + 1, waits.filter (· ≠ 0), job⟩ :: service.tasks
  lastCounter : service'.lastCounter = service.lastCounter + 1
  inUse : ∀ object, service.InUse object → service'.InUse object
  map : service'.globalMapGenTaskCounter = service.globalMapGenTaskCounter ∨
    service'.globalMapGenTaskCounter = service.lastCounter + 1 ∧ job.MakesChunk
  waits_le : ∀ wait ∈ waits, wait ≤ service.lastCounter
  chunkWaits : job.MakesChunk → ∀ wait ∈ waits, wait ≠ 0 → ∀ other ∈ service.tasks,
    other.counter = wait → other.job.MakesChunk
  reads : ∀ object ∈ job.reads, service'.InUse object ∧
    (object.IsDummy ∨ ∃ wait ∈ waits, wait ≠ 0 ∧ IsLast service.tasks object wait)
  table : service'.chunkTable = service.chunkTable
  surfaceTable : service'.pseudoChunkSurfaceTable = service.pseudoChunkSurfaceTable
  writes : ∀ object, job.writes = some object → service'.InUse object ∧ ¬ object.IsDummy ∧
    (¬ service.InUse object ∧ job.fills = some object ∨
      job.fills = none ∧ ∃ wait ∈ waits, wait ≠ 0 ∧ IsLast service.tasks object wait)
  chunkCounter : ∀ key,
    (service'.record key).chunkGenTaskCounter = (service.record key).chunkGenTaskCounter ∨
      (service'.record key).chunkGenTaskCounter = service.lastCounter + 1 ∧ job.MakesChunk
  dataCounter : ∀ key,
    (service'.record key).pseudoDataGenTaskCounter ≤ service.lastCounter + 1
  surfaceCounter : ∀ key,
    (service'.record key).pseudoSurfaceGenTaskCounter ≤ service.lastCounter + 1
  chunk : ∀ key ptr, (service'.record key).latestChunkPtr = some ptr →
    (service.record key).latestChunkPtr = some ptr ∧
        (service'.record key).chunkGenTaskCounter = (service.record key).chunkGenTaskCounter ∧
        job.writes ≠ some (.chunk ptr) ∨
      job.writes = some (.chunk ptr) ∧
        (service'.record key).chunkGenTaskCounter = service.lastCounter + 1 ∧
        job.key = some key ∧
        ∀ task ∈ service.tasks, task.job.writes = some (.chunk ptr) → task.job.key = some key
  data : ∀ key ptr, (service'.record key).latestPseudoDataPtr = some ptr →
    (service.record key).latestPseudoDataPtr = some ptr ∧
        (service'.record key).pseudoDataGenTaskCounter =
          (service.record key).pseudoDataGenTaskCounter ∧
        job.writes ≠ some (.pseudoData ptr) ∨
      job.writes = some (.pseudoData ptr) ∧
        (service'.record key).pseudoDataGenTaskCounter = service.lastCounter + 1
  noData : ∀ key, (service'.record key).latestPseudoDataPtr = none →
    (service'.record key).pseudoDataGenTaskCounter = 0
  count : ∀ key, (service'.record key).pendingTaskCount =
    (service.record key).pendingTaskCount + if job.key = some key then 1 else 0

namespace Enqueues

variable {service service' : Service} {waits : List Nat} {job : Job} {reported : List Nat}

/-- The task that is enqueued. -/
abbrev task (service : Service) (waits : List Nat) (job : Job) : Task :=
  ⟨service.lastCounter + 1, waits.filter (· ≠ 0), job⟩

theorem mem_waits (service : Service) (job : Job) {wait : Nat} (mem : wait ∈ waits)
    (used : wait ≠ 0) : wait ∈ (task service waits job).waitCounters :=
  List.mem_filter.mpr ⟨mem, decide_eq_true used⟩

theorem isLast (enqueues : Enqueues service service' waits job) (inv : Inv reported service)
    {object : Object} (writes : job.writes = some object) :
    IsLast service'.tasks object (service.lastCounter + 1) := by
  rw [enqueues.tasks]
  have self : task service waits job ∈ task service waits job :: service.tasks :=
    List.mem_cons_self
  rcases (enqueues.writes object writes).2.2 with ⟨fresh, fills⟩ | ⟨-, wait, mem, used, isLast⟩
  · refine ⟨⟨_, self, rfl, writes⟩, ⟨_, self, fills, .refl⟩, fun writer mem' writes' => ?_⟩
    rcases List.mem_cons.mp mem' with rfl | mem'
    · exact .refl
    · exact absurd (inv.inUse writer mem' object (Or.inl writes')) fresh
  · have wait' := mem_waits service job mem used
    refine ⟨⟨_, self, rfl, writes⟩, ?_, fun writer mem' writes' => ?_⟩
    · obtain ⟨filler, mem', fills, upTo⟩ := isLast.filled
      exact ⟨filler, List.mem_cons_of_mem _ mem', fills,
        (UpTo.before (task service waits job) upTo wait').to_reflTransGen⟩
    · rcases List.mem_cons.mp mem' with rfl | mem'
      · exact .refl
      · exact (UpTo.before (task service waits job) (isLast.last writer mem' writes')
          wait').to_reflTransGen

/-- The last task of an object in use stays the last one, unless the new task writes it. -/
theorem keeps_isLast (enqueues : Enqueues service service' waits job) {object : Object}
    {counter : Nat} (isLast : IsLast service.tasks object counter)
    (other : job.writes ≠ some object) : IsLast service'.tasks object counter := by
  rw [enqueues.tasks]
  exact isLast.cons other

theorem outstanding_eq (enqueues : Enqueues service service' waits job)
    (inv : Inv reported service) (key : ChunkKey) :
    outstanding service'.tasks reported key =
      outstanding service.tasks reported key + if job.key = some key then 1 else 0 := by
  have unreported : service.lastCounter + 1 ∉ reported := fun mem =>
    absurd (inv.reported_le _ mem) (Nat.not_succ_le_self _)
  rw [enqueues.tasks, outstanding, outstanding, List.countP_cons]
  simp only [unreported, not_false_eq_true, and_true, decide_eq_true_eq]

/-- The new task comes after the tasks that have filled and written what it reads. -/
theorem after_read (enqueues : Enqueues service service' waits job) {object : Object}
    (mem : object ∈ job.reads) (real : ¬ object.IsDummy) :
    (∃ filler ∈ service'.tasks, filler.job.fills = some object ∧
      Before service'.tasks filler.counter (service.lastCounter + 1)) ∧
    ∀ writer ∈ service'.tasks, writer.job.writes = some object →
      writer.counter < service.lastCounter + 1 →
      Before service'.tasks writer.counter (service.lastCounter + 1) := by
  obtain ⟨wait, mem', used, isLast⟩ := ((enqueues.reads object mem).2).resolve_left real
  have wait' := mem_waits service job mem' used
  rw [enqueues.tasks]
  constructor
  · obtain ⟨filler, mem'', fills, upTo⟩ := isLast.filled
    exact ⟨filler, List.mem_cons_of_mem _ mem'', fills,
      UpTo.before (task service waits job) upTo wait'⟩
  · intro writer mem'' writes lt
    rcases List.mem_cons.mp mem'' with rfl | mem''
    · exact absurd lt (Nat.lt_irrefl _)
    · exact UpTo.before (task service waits job) (isLast.last writer mem'' writes) wait'

theorem keeps_inv (enqueues : Enqueues service service' waits job) (inv : Inv reported service) :
    Inv reported service' := by
  have le := Nat.le_succ service.lastCounter
  have below : ∀ other ∈ service.tasks, other.counter < service.lastCounter + 1 :=
    fun other mem => Nat.lt_succ_of_le (inv.counter_le other mem)
  have cases : ∀ other ∈ service'.tasks, other = task service waits job ∨ other ∈ service.tasks :=
    fun other mem => List.mem_cons.mp (enqueues.tasks ▸ mem)
  have old : ∀ other ∈ service.tasks, other ∈ service'.tasks := fun other mem =>
    enqueues.tasks ▸ List.mem_cons_of_mem _ mem
  have before : ∀ {counter counter' : Nat}, Before service.tasks counter counter' →
      Before service'.tasks counter counter' := fun before => enqueues.tasks ▸ before.cons
  exact {
    sorted := by
      rw [enqueues.tasks]
      exact List.pairwise_cons.mpr ⟨below, inv.sorted⟩
    counter_pos := by
      intro other mem
      rcases cases other mem with rfl | mem
      · exact Nat.succ_pos _
      · exact inv.counter_pos other mem
    counter_le := by
      rw [enqueues.lastCounter]
      intro other mem
      rcases cases other mem with rfl | mem
      · exact Nat.le_refl _
      · exact Nat.le_of_lt (below other mem)
    reported_le := fun counter mem => by
      rw [enqueues.lastCounter]
      exact (inv.reported_le counter mem).trans le
    wait_lt := by
      intro other mem wait waits
      rcases cases other mem with rfl | mem
      · exact Nat.lt_succ_of_le (enqueues.waits_le wait (List.mem_of_mem_filter waits))
      · exact inv.wait_lt other mem wait waits
    inUse := by
      intro other mem object uses
      rcases cases other mem with rfl | mem
      · rcases uses with writes | reads
        · exact (enqueues.writes object writes).1
        · exact (enqueues.reads object reads).1
      · exact enqueues.inUse object (inv.inUse other mem object uses)
    dummies := fun object dummy => enqueues.inUse object (inv.dummies object dummy)
    unwritten := by
      intro other mem object writes
      rcases cases other mem with rfl | mem
      · exact (enqueues.writes object writes).2.1
      · exact inv.unwritten other mem object writes
    mapCounter_le := by
      rw [enqueues.lastCounter]
      rcases enqueues.map with same | ⟨new, -⟩
      · exact same ▸ inv.mapCounter_le.trans le
      · exact new.le
    mapJob := by
      intro other mem same
      rcases enqueues.map with kept | ⟨new, makes⟩
      · rw [kept] at same
        rcases cases other mem with rfl | mem
        · exact absurd (same ▸ inv.mapCounter_le) (Nat.not_succ_le_self _)
        · exact inv.mapJob other mem same
      · rcases cases other mem with rfl | mem
        · exact makes
        · exact absurd (same.trans new) (Nat.ne_of_lt (below other mem))
    chunkCounter_le := by
      intro key
      rw [enqueues.lastCounter]
      rcases enqueues.chunkCounter key with same | ⟨new, -⟩
      · exact same ▸ (inv.chunkCounter_le key).trans le
      · exact new.le
    dataCounter_le := fun key => by
      rw [enqueues.lastCounter]
      exact enqueues.dataCounter key
    surfaceCounter_le := fun key => by
      rw [enqueues.lastCounter]
      exact enqueues.surfaceCounter key
    chunkWaits := by
      intro other mem makes third mem' waits
      rcases cases other mem with rfl | mem
      · have wait := List.mem_filter.mp waits
        rcases cases third mem' with rfl | mem'
        · exact makes
        · exact enqueues.chunkWaits makes third.counter wait.1 (of_decide_eq_true wait.2) third mem'
            rfl
      · rcases cases third mem' with rfl | mem'
        · exact absurd ((inv.wait_lt other mem _ waits).trans (below other mem))
            (Nat.lt_irrefl _)
        · exact inv.chunkWaits other mem makes third mem' waits
    chunkJob := by
      intro key other mem same
      rcases enqueues.chunkCounter key with kept | ⟨new, makes⟩
      · rw [kept] at same
        rcases cases other mem with rfl | mem
        · exact absurd (same ▸ inv.chunkCounter_le key) (Nat.not_succ_le_self _)
        · exact inv.chunkJob key other mem same
      · rcases cases other mem with rfl | mem
        · exact makes
        · exact absurd (same.trans new) (Nat.ne_of_lt (below other mem))
    chunk := by
      intro key ptr latest
      rcases enqueues.chunk key ptr latest with
        ⟨kept, counter, other⟩ | ⟨writes, counter, mine, all⟩
      · obtain ⟨isLast, owner⟩ := inv.chunk key ptr kept
        refine ⟨counter ▸ enqueues.keeps_isLast isLast other, fun writer mem writes => ?_⟩
        rcases cases writer mem with rfl | mem
        · exact absurd writes other
        · exact owner writer mem writes
      · refine ⟨counter ▸ enqueues.isLast inv writes, fun writer mem writes' => ?_⟩
        rcases cases writer mem with rfl | mem
        · exact mine
        · exact all writer mem writes'
    data := by
      intro key ptr latest
      rcases enqueues.data key ptr latest with ⟨kept, counter, other⟩ | ⟨writes, counter⟩
      · exact counter ▸ enqueues.keeps_isLast (inv.data key ptr kept) other
      · exact counter ▸ enqueues.isLast inv writes
    noData := enqueues.noData
    fillers := by
      -- an object that a new task fills was not in use
      have new : ∀ other ∈ service.tasks, ∀ object, job.fills = some object →
          other.job.fills ≠ some object := by
        intro other mem object fills fills'
        have used := inv.inUse other mem object (Or.inl (Job.writes_of_fills fills'))
        rcases (enqueues.writes object (Job.writes_of_fills fills)).2.2 with ⟨fresh, -⟩ | ⟨none, -⟩
        · exact fresh used
        · rw [none] at fills
          cases fills
      intro first mem second mem' object fills fills'
      rcases cases first mem with rfl | mem
      · rcases cases second mem' with rfl | mem'
        · rfl
        · exact absurd fills' (new second mem' object fills)
      · rcases cases second mem' with rfl | mem'
        · exact absurd fills (new first mem object fills')
        · exact inv.fillers first mem second mem' object fills fills'
    writers := by
      intro first mem second mem' object writes writes' lt
      rcases cases first mem with rfl | mem
      · rcases cases second mem' with rfl | mem'
        · exact absurd lt (Nat.lt_irrefl _)
        · exact absurd (lt.trans (below second mem')) (Nat.lt_irrefl _)
      · rcases cases second mem' with rfl | mem'
        · have upTo := (enqueues.isLast inv writes').last first (old first mem) writes
          exact (Relation.reflTransGen_iff_eq_or_transGen.mp upTo).resolve_left fun same =>
            Nat.ne_of_gt lt same
        · exact before (inv.writers first mem second mem' object writes writes' lt)
    readers := by
      intro reader mem object reads real
      rcases cases reader mem with rfl | mem
      · exact enqueues.after_read reads real
      · obtain ⟨⟨filler, mem', fills, first⟩, all⟩ := inv.readers reader mem object reads real
        refine ⟨⟨filler, old filler mem', fills, before first⟩, fun writer mem'' writes lt => ?_⟩
        rcases cases writer mem'' with rfl | mem''
        · exact absurd (lt.trans (below reader mem)) (Nat.lt_irrefl _)
        · exact before (all writer mem'' writes lt)
    counts := by
      intro key
      rw [enqueues.count key, inv.counts key, enqueues.outstanding_eq inv key]
      split
      · exact (BitVec.ofNat_add _ _).symm
      · exact BitVec.add_zero _ }

end Enqueues

/-! ## Records without their flags -/

/-- What the invariant is about in a record. -/
def ChunkMetastate.core (m : ChunkMetastate) : ChunkMetastate :=
  { m with
    lastReferencedTick := -1
    chunkDataInvalidated := true
    pseudoDataInvalidated := true
    pseudoSurfaceInvalidated := true
    isVirgin := true }

/-- The service has enqueued nothing, and its records differ in ticks and flags at most. -/
structure SameCore (service service' : Service) : Prop where
  tasks : service'.tasks = service.tasks
  lastCounter : service'.lastCounter = service.lastCounter
  nextChunk : service'.nextChunk = service.nextChunk
  nextPseudoData : service'.nextPseudoData = service.nextPseudoData
  map : service'.globalMapGenTaskCounter = service.globalMapGenTaskCounter
  table : service'.chunkTable = service.chunkTable
  surfaceTable : service'.pseudoChunkSurfaceTable = service.pseudoChunkSurfaceTable
  core : ∀ key, (service'.record key).core = (service.record key).core

namespace SameCore

variable {service service' : Service} (same : SameCore service service')

include same

theorem chunkGenTaskCounter (key : ChunkKey) :
    (service'.record key).chunkGenTaskCounter = (service.record key).chunkGenTaskCounter :=
  congrArg (·.chunkGenTaskCounter) (same.core key)

theorem pseudoDataGenTaskCounter (key : ChunkKey) :
    (service'.record key).pseudoDataGenTaskCounter =
      (service.record key).pseudoDataGenTaskCounter :=
  congrArg (·.pseudoDataGenTaskCounter) (same.core key)

theorem pseudoSurfaceGenTaskCounter (key : ChunkKey) :
    (service'.record key).pseudoSurfaceGenTaskCounter =
      (service.record key).pseudoSurfaceGenTaskCounter :=
  congrArg (·.pseudoSurfaceGenTaskCounter) (same.core key)

theorem latestChunkPtr (key : ChunkKey) :
    (service'.record key).latestChunkPtr = (service.record key).latestChunkPtr :=
  congrArg (·.latestChunkPtr) (same.core key)

theorem latestPseudoDataPtr (key : ChunkKey) :
    (service'.record key).latestPseudoDataPtr = (service.record key).latestPseudoDataPtr :=
  congrArg (·.latestPseudoDataPtr) (same.core key)

theorem pendingTaskCount (key : ChunkKey) :
    (service'.record key).pendingTaskCount = (service.record key).pendingTaskCount :=
  congrArg (·.pendingTaskCount) (same.core key)

theorem inUse (object : Object) : service'.InUse object ↔ service.InUse object := by
  cases object with
  | chunk ptr => exact iff_of_eq (congrArg (ptr < ·) same.nextChunk)
  | pseudoData ptr => exact iff_of_eq (congrArg (ptr < ·) same.nextPseudoData)

theorem keeps_inv {reported : List Nat} (inv : Inv reported service) : Inv reported service' where
  sorted := same.tasks ▸ inv.sorted
  counter_pos := same.tasks ▸ inv.counter_pos
  counter_le := by
    rw [same.tasks, same.lastCounter]
    exact inv.counter_le
  reported_le := same.lastCounter ▸ inv.reported_le
  wait_lt := same.tasks ▸ inv.wait_lt
  inUse task mem object uses :=
    (same.inUse object).mpr (inv.inUse task (same.tasks ▸ mem) object uses)
  dummies object dummy := (same.inUse object).mpr (inv.dummies object dummy)
  unwritten := same.tasks ▸ inv.unwritten
  mapCounter_le := by
    rw [same.map, same.lastCounter]
    exact inv.mapCounter_le
  mapJob := by
    rw [same.tasks, same.map]
    exact inv.mapJob
  chunkCounter_le key := by
    rw [same.chunkGenTaskCounter, same.lastCounter]
    exact inv.chunkCounter_le key
  dataCounter_le key := by
    rw [same.pseudoDataGenTaskCounter, same.lastCounter]
    exact inv.dataCounter_le key
  surfaceCounter_le key := by
    rw [same.pseudoSurfaceGenTaskCounter, same.lastCounter]
    exact inv.surfaceCounter_le key
  chunkWaits := same.tasks ▸ inv.chunkWaits
  chunkJob key := by
    rw [same.tasks, same.chunkGenTaskCounter]
    exact inv.chunkJob key
  chunk key ptr := by
    rw [same.tasks, same.chunkGenTaskCounter, same.latestChunkPtr]
    exact inv.chunk key ptr
  data key ptr := by
    rw [same.tasks, same.pseudoDataGenTaskCounter, same.latestPseudoDataPtr]
    exact inv.data key ptr
  noData key := by
    rw [same.pseudoDataGenTaskCounter, same.latestPseudoDataPtr]
    exact inv.noData key
  fillers := same.tasks ▸ inv.fillers
  writers := same.tasks ▸ inv.writers
  readers := same.tasks ▸ inv.readers
  counts key := by
    rw [same.pendingTaskCount, same.tasks]
    exact inv.counts key

end SameCore

end Voxen.Land.LandService
