import Voxen.Land.LandServiceTasks

/-!
# What the enqueuing functions keep

Every function that enqueues tasks keeps the invariant, and leaves the last task of each object
that is already in use. The dependencies it collects are then the last tasks of their objects.
-/

namespace Voxen.Land.LandService

namespace Service

@[simp]
theorem record_modifyRecord (service : Service) (key key' : ChunkKey)
    (f : ChunkMetastate → ChunkMetastate) :
    (service.modifyRecord key f).record key' =
      if key' = key then f (service.record key) else service.record key' := by
  unfold modifyRecord record
  by_cases same : key' = key
  · rw [if_pos same, same]
    simp only [Function.update_self, Option.getD_some]
  · rw [if_neg same]
    simp only [Function.update_of_ne same]

@[simp]
theorem record_enqueueTask (service : Service) (waits : List Nat) (job : Job) (key : ChunkKey) :
    (service.enqueueTask waits job).record key = service.record key := rfl

end Service

/-- Some tasks were enqueued that edit nothing. -/
structure Kept (reported : List Nat) (service service' : Service) : Prop where
  inv : Inv reported service'
  counter_le : service.lastCounter ≤ service'.lastCounter
  tasks : service.tasks ⊆ service'.tasks
  inUse : ∀ object, service.InUse object → service'.InUse object
  fresh : ∀ task ∈ service'.tasks, task ∈ service.tasks ∨
    service.lastCounter < task.counter ∧ task.job.NoEdit
  /-- Entries of the tables are erased at most. -/
  table : ∀ key value, service'.chunkTable key = some value → service.chunkTable key = some value
  surfaceTable : ∀ key value, service'.pseudoChunkSurfaceTable key = some value →
    service.pseudoChunkSurfaceTable key = some value
  isLast : ∀ object counter, IsLast service.tasks object counter →
    IsLast service'.tasks object counter

section Kept

variable {reported : List Nat} {service service' service'' : Service}

theorem Kept.refl (inv : Inv reported service) : Kept reported service service :=
  ⟨inv, Nat.le_refl _, List.Subset.refl _, fun _ => id, fun _ => Or.inl, fun _ _ => id,
    fun _ _ => id, fun _ _ => id⟩

theorem Kept.trans (first : Kept reported service service')
    (second : Kept reported service' service'') : Kept reported service service'' where
  inv := second.inv
  counter_le := first.counter_le.trans second.counter_le
  tasks := List.Subset.trans first.tasks second.tasks
  inUse object := second.inUse object ∘ first.inUse object
  fresh task mem := by
    rcases second.fresh task mem with mem | fresh
    · exact first.fresh task mem
    · exact Or.inr ⟨first.counter_le.trans_lt fresh.1, fresh.2⟩
  table key value := first.table key value ∘ second.table key value
  surfaceTable key value := first.surfaceTable key value ∘ second.surfaceTable key value
  isLast object counter := second.isLast object counter ∘ first.isLast object counter

theorem SameCore.kept (same : SameCore service service') (inv : Inv reported service) :
    Kept reported service service' where
  inv := same.keeps_inv inv
  counter_le := same.lastCounter.ge
  tasks := same.tasks ▸ List.Subset.refl _
  inUse object := (same.inUse object).mpr
  fresh _ mem := Or.inl (same.tasks ▸ mem)
  table _ _ := same.table ▸ id
  surfaceTable _ _ := same.surfaceTable ▸ id
  isLast _ _ isLast := same.tasks ▸ isLast

theorem Enqueues.kept {waits : List Nat} {job : Job}
    (enqueues : Enqueues service service' waits job) (inv : Inv reported service)
    (noEdit : job.NoEdit) (fresh : ∀ object, job.writes = some object → ¬ service.InUse object) :
    Kept reported service service' where
  inv := enqueues.keeps_inv inv
  counter_le := enqueues.lastCounter ▸ Nat.le_succ _
  tasks := enqueues.tasks ▸ List.subset_cons_self _ _
  inUse := enqueues.inUse
  fresh task mem := by
    rw [enqueues.tasks] at mem
    rcases List.mem_cons.mp mem with rfl | mem
    · exact Or.inr ⟨Nat.lt_succ_self _, noEdit⟩
    · exact Or.inl mem
  table _ _ := enqueues.table ▸ id
  surfaceTable _ _ := enqueues.surfaceTable ▸ id
  isLast object counter isLast := by
    refine enqueues.keeps_isLast isLast fun writes => ?_
    obtain ⟨task, mem, -, written⟩ := isLast.written
    exact fresh object writes (inv.inUse task mem object (Or.inl written))

end Kept

/-! ## Records -/

section Records

variable {reported : List Nat} {service : Service} (key : ChunkKey)

theorem modifyRecord_sameCore {f : ChunkMetastate → ChunkMetastate}
    (flags : ∀ m, (f m).core = m.core) : SameCore service (service.modifyRecord key f) where
  tasks := rfl
  lastCounter := rfl
  nextChunk := rfl
  nextPseudoData := rfl
  map := rfl
  table := rfl
  surfaceTable := rfl
  core other := by
    rw [Service.record_modifyRecord]
    split
    · rename_i same
      rw [flags, same]
    · rfl

theorem getMetastate_sameCore : SameCore service (service.getMetastate key) := by
  unfold Service.getMetastate
  split
  · exact modifyRecord_sameCore key fun _ => rfl
  · let listed : Service := { service with
      keysLruCheckOrder :=
        service.keysLruCheckOrder.addKey key (service.tickId + staleChunkAgeThreshold) }
    have same : SameCore listed
        (listed.modifyRecord key fun m => { m with lastReferencedTick := service.tickId }) :=
      modifyRecord_sameCore key fun _ => rfl
    exact ⟨same.tasks, same.lastCounter, same.nextChunk, same.nextPseudoData, same.map, same.table,
      same.surfaceTable, same.core⟩

end Records

/-! ## Single tasks -/

section Tasks

variable {reported : List Nat}

theorem Inv.latest_inUse {service : Service} (inv : Inv reported service) (key : ChunkKey) :
    (∀ ptr, (service.record key).latestChunkPtr = some ptr → service.InUse (.chunk ptr)) ∧
      ∀ ptr, (service.record key).latestPseudoDataPtr = some ptr →
        service.InUse (.pseudoData ptr) := by
  constructor
  · intro ptr latest
    obtain ⟨task, mem, -, writes⟩ := (inv.chunk key ptr latest).1.written
    exact inv.inUse task mem _ (Or.inl writes)
  · intro ptr latest
    obtain ⟨task, mem, -, writes⟩ := (inv.data key ptr latest).written
    exact inv.inUse task mem _ (Or.inl writes)

/-- A task enqueued for a key, whose record it changes to another one. -/
structure EnqueuesFor (service service' : Service) (waits : List Nat) (job : Job) (ck : ChunkKey)
    (m' : ChunkMetastate) : Prop where
  record : ∀ key, service'.record key = if key = ck then m' else service.record key
  tasks : service'.tasks = ⟨service.lastCounter + 1, waits.filter (· ≠ 0), job⟩ :: service.tasks
  lastCounter : service'.lastCounter = service.lastCounter + 1
  inUse : ∀ object, service.InUse object → service'.InUse object
  map : service'.globalMapGenTaskCounter = service.globalMapGenTaskCounter
  key : job.key = some ck
  waits_le : ∀ wait ∈ waits, wait ≤ service.lastCounter
  chunkWaits : job.MakesChunk → ∀ wait ∈ waits, wait ≠ 0 → ∀ other ∈ service.tasks,
    other.counter = wait → other.job.MakesChunk
  reads : ∀ object ∈ job.reads, service'.InUse object ∧
    (object.IsDummy ∨ ∃ wait ∈ waits, wait ≠ 0 ∧ IsLast service.tasks object wait)
  table : service'.chunkTable = service.chunkTable
  surfaceTable : service'.pseudoChunkSurfaceTable = service.pseudoChunkSurfaceTable
  writes : ∀ object, job.writes = some object → service'.InUse object ∧ ¬ object.IsDummy ∧
    (¬ service.InUse object ∧ job.fills = some object ∨
      job.fills = none ∧ ∃ wait ∈ waits, wait ≠ 0 ∧ IsLast service.tasks object wait)
  chunkCounter : m'.chunkGenTaskCounter = (service.record ck).chunkGenTaskCounter ∨
    m'.chunkGenTaskCounter = service.lastCounter + 1 ∧ job.MakesChunk
  dataCounter : m'.pseudoDataGenTaskCounter ≤ service.lastCounter + 1
  surfaceCounter : m'.pseudoSurfaceGenTaskCounter ≤ service.lastCounter + 1
  chunk : ∀ ptr, m'.latestChunkPtr = some ptr →
    (service.record ck).latestChunkPtr = some ptr ∧
        m'.chunkGenTaskCounter = (service.record ck).chunkGenTaskCounter ∧
        job.writes ≠ some (.chunk ptr) ∨
      job.writes = some (.chunk ptr) ∧ m'.chunkGenTaskCounter = service.lastCounter + 1 ∧
        ∀ task ∈ service.tasks, task.job.writes = some (.chunk ptr) → task.job.key = some ck
  data : ∀ ptr, m'.latestPseudoDataPtr = some ptr →
    (service.record ck).latestPseudoDataPtr = some ptr ∧
        m'.pseudoDataGenTaskCounter = (service.record ck).pseudoDataGenTaskCounter ∧
        job.writes ≠ some (.pseudoData ptr) ∨
      job.writes = some (.pseudoData ptr) ∧
        m'.pseudoDataGenTaskCounter = service.lastCounter + 1
  noData : m'.latestPseudoDataPtr = none → m'.pseudoDataGenTaskCounter = 0
  /-- The objects in other records are left. -/
  others : ∀ key, key ≠ ck →
    (∀ ptr, (service.record key).latestChunkPtr = some ptr → job.writes ≠ some (.chunk ptr)) ∧
      ∀ ptr, (service.record key).latestPseudoDataPtr = some ptr →
        job.writes ≠ some (.pseudoData ptr)
  count : m'.pendingTaskCount = (service.record ck).pendingTaskCount + 1

theorem EnqueuesFor.enqueues {service service' : Service} {waits : List Nat} {job : Job}
    (ck : ChunkKey) (m' : ChunkMetastate)
    (enqueues : EnqueuesFor service service' waits job ck m') (inv : Inv reported service) :
    Enqueues service service' waits job := by
  have mine : service'.record ck = m' := by rw [enqueues.record, if_pos rfl]
  have other : ∀ key, key ≠ ck → service'.record key = service.record key := fun key differ => by
    rw [enqueues.record, if_neg differ]
  have le := Nat.le_succ service.lastCounter
  exact {
    tasks := enqueues.tasks
    lastCounter := enqueues.lastCounter
    inUse := enqueues.inUse
    map := Or.inl enqueues.map
    waits_le := enqueues.waits_le
    chunkWaits := enqueues.chunkWaits
    reads := enqueues.reads
    table := enqueues.table
    surfaceTable := enqueues.surfaceTable
    writes := enqueues.writes
    chunkCounter := fun key => by
      by_cases same : key = ck
      · rw [same, mine]
        exact enqueues.chunkCounter
      · exact Or.inl (congrArg _ (other key same))
    dataCounter := fun key => by
      by_cases same : key = ck
      · rw [same, mine]
        exact enqueues.dataCounter
      · rw [other key same]
        exact (inv.dataCounter_le key).trans le
    surfaceCounter := fun key => by
      by_cases same : key = ck
      · rw [same, mine]
        exact enqueues.surfaceCounter
      · rw [other key same]
        exact (inv.surfaceCounter_le key).trans le
    chunk := fun key ptr latest => by
      by_cases same : key = ck
      · rw [same, mine] at latest ⊢
        rcases enqueues.chunk ptr latest with kept | ⟨writes, counter, all⟩
        · exact Or.inl kept
        · exact Or.inr ⟨writes, counter, enqueues.key, all⟩
      · rw [other key same] at latest ⊢
        exact Or.inl ⟨latest, rfl, (enqueues.others key same).1 ptr latest⟩
    data := fun key ptr latest => by
      by_cases same : key = ck
      · rw [same, mine] at latest ⊢
        exact enqueues.data ptr latest
      · rw [other key same] at latest ⊢
        exact Or.inl ⟨latest, rfl, (enqueues.others key same).2 ptr latest⟩
    noData := fun key none => by
      by_cases same : key = ck
      · rw [same, mine] at none ⊢
        exact enqueues.noData none
      · rw [other key same] at none ⊢
        exact inv.noData key none
    count := fun key => by
      rw [enqueues.key]
      by_cases same : key = ck
      · rw [same, mine, if_pos rfl]
        exact enqueues.count
      · rw [other key same, if_neg fun key_eq => same (Option.some.inj key_eq).symm]
        exact (BitVec.add_zero _).symm }

variable (service : Service)

theorem enqueueMap_kept (inv : Inv reported service) :
    Kept reported service
      { service.enqueueTask [0] .generateGlobalMap with
        globalMapGenTaskCounter := service.lastCounter + 1 } := by
  have le := Nat.le_succ service.lastCounter
  refine Enqueues.kept (?_ : Enqueues _ _ [0] .generateGlobalMap) inv trivial nofun
  exact {
    tasks := rfl
    lastCounter := rfl
    inUse := fun _ used => used
    map := Or.inr ⟨rfl, trivial⟩
    table := rfl
    surfaceTable := rfl
    waits_le := fun wait mem => List.mem_singleton.mp mem ▸ Nat.zero_le _
    chunkWaits := fun _ wait mem used => absurd (List.mem_singleton.mp mem) used
    reads := nofun
    writes := nofun
    chunkCounter := fun _ => Or.inl rfl
    dataCounter := fun key => (inv.dataCounter_le key).trans le
    surfaceCounter := fun key => (inv.surfaceCounter_le key).trans le
    chunk := fun key ptr latest => Or.inl ⟨latest, rfl, nofun⟩
    data := fun key ptr latest => Or.inl ⟨latest, rfl, nofun⟩
    noData := inv.noData
    count := fun key => (BitVec.add_zero _).symm }

variable (ck : ChunkKey) {waits : List Nat}

/-- Store a new chunk in a record and enqueue the task that generates it. -/
def Service.generateChunk (service : Service) (ck : ChunkKey) (waits : List Nat) : Service :=
  let ptr := service.nextChunk
  let service := { service with nextChunk := ptr + 1 }
  let service := service.modifyRecord ck fun m => { m with latestChunkPtr := some ptr }
  let service := service.enqueueTask waits (.generateChunk ck ptr)
  service.modifyRecord ck fun m => { m with
    pendingTaskCount := m.pendingTaskCount + 1
    chunkGenTaskCounter := service.lastCounter }

theorem generateChunk_enqueues (inv : Inv reported service)
    (waitsLe : ∀ wait ∈ waits, wait ≤ service.lastCounter)
    (chunkWaits : ∀ wait ∈ waits, wait ≠ 0 → ∀ other ∈ service.tasks, other.counter = wait →
      other.job.MakesChunk) :
    Enqueues service (service.generateChunk ck waits) waits
      (.generateChunk ck service.nextChunk) := by
  have le := Nat.le_succ service.lastCounter
  refine EnqueuesFor.enqueues ck { service.record ck with
    latestChunkPtr := some service.nextChunk
    pendingTaskCount := (service.record ck).pendingTaskCount + 1
    chunkGenTaskCounter := service.lastCounter + 1 } ?_ inv
  exact {
    record := fun key => by
      simp only [Service.generateChunk, Service.record_modifyRecord, Service.record_enqueueTask,
        if_true]
      split
      · rfl
      · rfl
    tasks := rfl
    lastCounter := rfl
    inUse := fun object used => by
      cases object with
      | chunk ptr => exact Nat.lt_succ_of_lt used
      | pseudoData ptr => exact used
    map := rfl
    table := rfl
    surfaceTable := rfl
    key := rfl
    waits_le := waitsLe
    chunkWaits := fun _ => chunkWaits
    reads := nofun
    writes := by
      rintro object ⟨⟩
      refine ⟨Nat.lt_succ_self _, fun dummy => ?_, Or.inl ⟨Nat.lt_irrefl _, rfl⟩⟩
      exact Nat.lt_irrefl _ (inv.dummies _ dummy)
    chunkCounter := Or.inr ⟨rfl, trivial⟩
    dataCounter := (inv.dataCounter_le ck).trans le
    surfaceCounter := (inv.surfaceCounter_le ck).trans le
    chunk := by
      rintro ptr ⟨⟩
      refine Or.inr ⟨rfl, rfl, fun task mem writes => ?_⟩
      exact absurd (inv.inUse task mem _ (Or.inl writes)) (Nat.lt_irrefl _)
    data := fun ptr latest => Or.inl ⟨latest, rfl, nofun⟩
    noData := inv.noData ck
    others := fun key _ => by
      refine ⟨?_, fun ptr _ => nofun⟩
      rintro ptr latest ⟨⟩
      exact Nat.lt_irrefl _ ((inv.latest_inUse key).1 _ latest)
    count := rfl }

theorem enqueuePseudoData_enqueues (job : PseudoDataPtr → Job) (inv : Inv reported service)
    (key : ∀ ptr, (job ptr).key = some ck)
    (fills : ∀ ptr, (job ptr).fills = some (.pseudoData ptr))
    (waitsLe : ∀ wait ∈ waits, wait ≤ service.lastCounter)
    (makes : ∀ ptr, ¬ (job ptr).MakesChunk)
    (reads : ∀ ptr, ∀ object ∈ (job ptr).reads, service.InUse object ∧
      (object.IsDummy ∨ ∃ wait ∈ waits, wait ≠ 0 ∧ IsLast service.tasks object wait)) :
    Enqueues service (service.enqueuePseudoData ck waits job) waits
      (job service.nextPseudoData) := by
  have le := Nat.le_succ service.lastCounter
  have writes := Job.writes_of_fills (fills service.nextPseudoData)
  have inUse : ∀ object, service.InUse object →
      (service.enqueuePseudoData ck waits job).InUse object := fun object used => by
    cases object with
    | chunk ptr => exact used
    | pseudoData ptr => exact Nat.lt_succ_of_lt used
  refine EnqueuesFor.enqueues ck { service.record ck with
    latestPseudoDataPtr := some service.nextPseudoData
    pendingTaskCount := (service.record ck).pendingTaskCount + 1
    pseudoDataGenTaskCounter := service.lastCounter + 1 } ?_ inv
  exact {
    record := fun key => by
      simp only [Service.enqueuePseudoData, Service.record_modifyRecord,
        Service.record_enqueueTask, if_true]
      split
      · rfl
      · rfl
    tasks := rfl
    lastCounter := rfl
    inUse := inUse
    map := rfl
    table := rfl
    surfaceTable := rfl
    key := key _
    waits_le := waitsLe
    chunkWaits := fun made => absurd made (makes _)
    reads := fun object mem => by
      obtain ⟨used, last⟩ := reads _ object mem
      exact ⟨inUse object used, last⟩
    writes := by
      intro object writes'
      rw [writes] at writes'
      cases writes'
      refine ⟨Nat.lt_succ_self _, fun dummy => ?_, Or.inl ⟨Nat.lt_irrefl _, fills _⟩⟩
      exact Nat.lt_irrefl _ (inv.dummies _ dummy)
    chunkCounter := Or.inl rfl
    dataCounter := Nat.le_refl _
    surfaceCounter := (inv.surfaceCounter_le ck).trans le
    chunk := fun ptr latest => Or.inl ⟨latest, rfl, by rw [writes]; exact nofun⟩
    data := by
      rintro ptr ⟨⟩
      exact Or.inr ⟨writes, rfl⟩
    noData := nofun
    others := fun key _ => by
      rw [writes]
      refine ⟨fun ptr _ => nofun, ?_⟩
      rintro ptr latest ⟨⟩
      exact Nat.lt_irrefl _ ((inv.latest_inUse key).2 _ latest)
    count := rfl }

theorem enqueuePseudoSurface_enqueues {job : Job} (inv : Inv reported service)
    (key : job.key = some ck) (writes : job.writes = none) (makes : ¬ job.MakesChunk)
    (waitsLe : ∀ wait ∈ waits, wait ≤ service.lastCounter)
    (reads : ∀ object ∈ job.reads, service.InUse object ∧
      (object.IsDummy ∨ ∃ wait ∈ waits, wait ≠ 0 ∧ IsLast service.tasks object wait)) :
    Enqueues service (service.enqueuePseudoSurface ck waits job) waits job := by
  have le := Nat.le_succ service.lastCounter
  refine EnqueuesFor.enqueues ck { service.record ck with
    pendingTaskCount := (service.record ck).pendingTaskCount + 1
    pseudoSurfaceGenTaskCounter := service.lastCounter + 1 } ?_ inv
  exact {
    record := fun key => by
      simp only [Service.enqueuePseudoSurface, Service.record_modifyRecord,
        Service.record_enqueueTask]
      split
      · rfl
      · rfl
    tasks := rfl
    lastCounter := rfl
    inUse := fun _ used => used
    map := rfl
    table := rfl
    surfaceTable := rfl
    key := key
    waits_le := waitsLe
    chunkWaits := fun made => absurd made makes
    reads := reads
    writes := by
      rw [writes]
      exact nofun
    chunkCounter := Or.inl rfl
    dataCounter := (inv.dataCounter_le ck).trans le
    surfaceCounter := Nat.le_refl _
    chunk := fun ptr latest => Or.inl ⟨latest, rfl, by rw [writes]; exact nofun⟩
    data := fun ptr latest => Or.inl ⟨latest, rfl, by rw [writes]; exact nofun⟩
    noData := inv.noData ck
    others := fun key _ => by
      rw [writes]
      exact ⟨fun ptr _ => nofun, fun ptr _ => nofun⟩
    count := rfl }

end Tasks

/-! ## Chunks -/

section Chunks

variable {reported : List Nat} {service : Service}

/-- What a task waits for after a preparation by a builder that waits for nothing. -/
structure Prepared (reported : List Nat) (service : Service)
    (prepared : Service × List Nat × Nat) : Prop where
  kept : Kept reported service prepared.1
  le : ∀ wait ∈ prepared.2.1 ++ [prepared.2.2], wait ≤ prepared.1.lastCounter
  makes : ∀ wait ∈ prepared.2.1 ++ [prepared.2.2], wait ≠ 0 →
    ∀ other ∈ prepared.1.tasks, other.counter = wait → other.job.MakesChunk

theorem prepareKeyGeneration_prepared (inv : Inv reported service) :
    Prepared reported service (service.prepareKeyGeneration [0]) := by
  unfold Service.prepareKeyGeneration
  split
  · refine ⟨Kept.refl inv, fun wait mem => ?_, fun wait mem used => ?_⟩
    · rcases List.mem_pair.mp mem with rfl | rfl
      · exact Nat.zero_le _
      · exact inv.mapCounter_le
    · rcases List.mem_pair.mp mem with rfl | rfl
      · exact absurd rfl used
      · exact inv.mapJob
  · have kept := enqueueMap_kept service inv
    refine ⟨kept, fun wait mem => (List.mem_singleton.mp mem).le,
      fun wait mem _ other mem' same => ?_⟩
    exact kept.inv.mapJob other mem' (same.trans (List.mem_singleton.mp mem))

theorem enqueueChunkDataGen_eq (service : Service) (ck : ChunkKey) :
    service.enqueueChunkDataGen ck =
      if !(service.record ck).chunkDataInvalidated then service
      else
        let flagged := service.modifyRecord ck fun m => { m with chunkDataInvalidated := false }
        if (service.record ck).chunkGenTaskCounter > 0 then flagged
        else
          let prepared := flagged.prepareKeyGeneration [(service.record ck).chunkGenTaskCounter]
          prepared.1.generateChunk ck (prepared.2.1 ++ [prepared.2.2]) := by
  unfold Service.enqueueChunkDataGen
  by_cases kept : (!(service.record ck).chunkDataInvalidated) = true
  · simp only [kept, if_true]
  · by_cases done : (service.record ck).chunkGenTaskCounter > 0
    · simp only [kept, done, if_true]
    · simp only [kept, done, if_false]
      unfold Service.prepareKeyGeneration
      by_cases mapped : service.globalMapGenTaskCounter > 0
      · simp only [Service.modifyRecord, mapped, if_true]
        rfl
      · simp only [Service.modifyRecord, mapped, if_false]
        rfl

theorem enqueueChunkDataGen_kept (inv : Inv reported service) (ck : ChunkKey) :
    Kept reported service (service.enqueueChunkDataGen ck) := by
  rw [enqueueChunkDataGen_eq]
  split
  · exact Kept.refl inv
  · have flagged := (modifyRecord_sameCore ck
      (f := fun m => { m with chunkDataInvalidated := false }) fun _ => rfl).kept inv
    dsimp only
    split
    · exact flagged
    · rename_i zero
      rw [Nat.eq_zero_of_not_pos zero]
      have prepared := prepareKeyGeneration_prepared flagged.inv
      have enqueues := generateChunk_enqueues _ ck prepared.kept.inv prepared.le
        prepared.makes
      refine flagged.trans (prepared.kept.trans (enqueues.kept prepared.kept.inv trivial ?_))
      rintro object ⟨⟩
      exact Nat.lt_irrefl _

end Chunks

/-! ## Dependencies -/

section Dependencies

variable {reported : List Nat} {start : Service} {collected : Collected}

/-- Every collected dependency is a dummy or comes with the last task of its object. -/
structure Depends (reported : List Nat) (start : Service) (object : Nat → Object)
    (collected : Collected) : Prop where
  kept : Kept reported start collected.service
  le : ∀ wait ∈ collected.waitCounters, wait ≤ collected.service.lastCounter
  isLast : ∀ ptr, some ptr ∈ collected.dependencies → (object ptr).IsDummy ∨
    ∃ wait ∈ collected.waitCounters, IsLast collected.service.tasks (object ptr) wait

variable {object : Nat → Object}

theorem Depends.append (depends : Depends reported start object collected) {service : Service}
    (kept : Kept reported collected.service service) {dependency : Option Nat} {wait : Nat}
    (outdated : Bool) (le : wait ≤ service.lastCounter) (isLast : ∀ ptr, dependency = some ptr →
      (object ptr).IsDummy ∨ IsLast service.tasks (object ptr) wait) :
    Depends reported start object
      { service := service
        dependencies := collected.dependencies ++ [dependency]
        waitCounters := collected.waitCounters ++ [wait]
        outdated := outdated } where
  kept := depends.kept.trans kept
  le wait' mem := by
    rcases List.mem_append.mp mem with mem | mem
    · exact (depends.le wait' mem).trans kept.counter_le
    · exact List.mem_singleton.mp mem ▸ le
  isLast ptr mem := by
    rcases List.mem_append.mp mem with mem | mem
    · refine (depends.isLast ptr mem).imp_right ?_
      rintro ⟨wait', mem', last⟩
      exact ⟨wait', List.mem_append_left _ mem', kept.isLast _ _ last⟩
    · refine (isLast ptr (List.mem_singleton.mp mem).symm).imp_right fun last => ?_
      exact ⟨wait, List.mem_append_right _ (List.mem_singleton_self wait), last⟩

theorem Depends.dummy (depends : Depends reported start object collected) {ptr : Nat}
    (dummy : (object ptr).IsDummy) :
    Depends reported start object
      { collected with
        dependencies := collected.dependencies ++ [some ptr]
        waitCounters := collected.waitCounters ++ [0] } := by
  refine depends.append (Kept.refl depends.kept.inv) _ (Nat.zero_le _) ?_
  rintro _ ⟨⟩
  exact Or.inl dummy

theorem collectChunk_depends (depends : Depends reported start .chunk collected) (counter : Nat)
    (dk : ChunkKey) : Depends reported start .chunk (collectChunk counter collected dk) := by
  unfold collectChunk
  split
  · exact depends.dummy (Or.inl rfl)
  · split
    · exact depends.dummy (Or.inr rfl)
    · have got := (getMetastate_sameCore dk).kept depends.kept.inv
      have kept := got.trans (enqueueChunkDataGen_kept got.inv dk)
      refine depends.append kept _ (kept.inv.chunkCounter_le dk) fun ptr latest => Or.inr ?_
      exact (kept.inv.chunk dk ptr latest).1

theorem collectPseudoData_depends {enqueue : Service → ChunkKey → Service}
    (enqueueKept : ∀ {service : Service} (dk : ChunkKey), Inv reported service →
      Kept reported service (enqueue service dk))
    (depends : Depends reported start .pseudoData collected) (counter : Nat) (dk : ChunkKey) :
    Depends reported start .pseudoData (collectPseudoData enqueue counter collected dk) := by
  unfold collectPseudoData
  split
  · exact depends.dummy rfl
  · have got := (getMetastate_sameCore dk).kept depends.kept.inv
    have kept := got.trans (enqueueKept dk got.inv)
    exact depends.append kept _ (kept.inv.dataCounter_le dk) fun ptr latest =>
      Or.inr (kept.inv.data dk ptr latest)

theorem foldl_depends {collect : Collected → ChunkKey → Collected}
    (step : ∀ {collected : Collected} (dk : ChunkKey), Depends reported start object collected →
      Depends reported start object (collect collected dk)) (keys : List ChunkKey)
    (depends : Depends reported start object collected) :
    Depends reported start object (keys.foldl collect collected) := by
  induction keys generalizing collected with
  | nil => exact depends
  | cons dk keys ih => exact ih (step dk depends)

theorem Depends.nothing {service : Service} (kept : Kept reported start service) :
    Depends reported start object { service := service } :=
  ⟨kept, nofun, nofun⟩

/-- A task that waits for the counters collected may read the objects collected. -/
theorem Depends.reads (depends : Depends reported start object collected) (counter : Nat) :
    ∀ read ∈ (collected.dependencies.filterMap id).map object, collected.service.InUse read ∧
      (read.IsDummy ∨ ∃ wait ∈ counter :: collected.waitCounters, wait ≠ 0 ∧
        IsLast collected.service.tasks read wait) := by
  intro read mem
  obtain ⟨ptr, collectedPtr, rfl⟩ := List.mem_map.mp mem
  obtain ⟨_, mem, rfl⟩ := List.mem_filterMap.mp collectedPtr
  have inv := depends.kept.inv
  rcases depends.isLast ptr mem with dummy | ⟨wait, mem', last⟩
  · exact ⟨inv.dummies _ dummy, Or.inl dummy⟩
  · obtain ⟨task, mem'', same, writes⟩ := last.written
    refine ⟨inv.inUse task mem'' _ (Or.inl writes), Or.inr ⟨wait, ?_, ?_, last⟩⟩
    · exact List.mem_cons_of_mem _ mem'
    · exact same ▸ Nat.ne_of_gt (inv.counter_pos task mem'')

theorem Depends.waits_le (depends : Depends reported start object collected) {counter : Nat}
    (le : counter ≤ start.lastCounter) :
    ∀ wait ∈ counter :: collected.waitCounters, wait ≤ collected.service.lastCounter := by
  intro wait mem
  rcases List.mem_cons.mp mem with rfl | mem
  · exact le.trans depends.kept.counter_le
  · exact depends.le wait mem

end Dependencies

/-! ## Pseudo-chunk data and surfaces -/

section Enqueue

variable {reported : List Nat} {service : Service}

theorem enqueueVirgin_kept (inv : Inv reported service) (ck : ChunkKey) :
    Kept reported service (service.enqueueVirgin ck) := by
  unfold Service.enqueueVirgin
  dsimp only
  split
  · exact Kept.refl inv
  · rename_i missing
    rw [inv.noData ck (Option.not_isSome_iff_eq_none.mp missing)]
    have prepared := prepareKeyGeneration_prepared inv
    have enqueues := enqueuePseudoData_enqueues _ ck (.generatePseudoChunk ck)
      prepared.kept.inv (fun _ => rfl) (fun _ => rfl) prepared.le (fun _ => id) (fun _ => nofun)
    refine prepared.kept.trans (enqueues.kept prepared.kept.inv trivial ?_)
    rintro object ⟨⟩
    exact Nat.lt_irrefl _

theorem Depends.enqueuePseudoData {object : Nat → Object} {collected : Collected}
    (depends : Depends reported service object collected) {counter : Nat}
    (le : counter ≤ service.lastCounter) {ck : ChunkKey} {job : PseudoDataPtr → Job}
    (key : ∀ ptr, (job ptr).key = some ck)
    (fills : ∀ ptr, (job ptr).fills = some (.pseudoData ptr))
    (makes : ∀ ptr, ¬ (job ptr).MakesChunk) (noEdit : ∀ ptr, (job ptr).NoEdit)
    (reads : ∀ ptr, (job ptr).reads = (collected.dependencies.filterMap id).map object) :
    Kept reported service (if !collected.outdated then collected.service
      else collected.service.enqueuePseudoData ck (counter :: collected.waitCounters) job) := by
  split
  · exact depends.kept
  · have enqueues := enqueuePseudoData_enqueues _ ck job depends.kept.inv key fills
      (depends.waits_le le)
      makes fun ptr => reads ptr ▸ depends.reads counter
    refine depends.kept.trans (enqueues.kept depends.kept.inv (noEdit _) fun written writes => ?_)
    rw [Job.writes_of_fills (fills _)] at writes
    cases writes
    exact Nat.lt_irrefl _

theorem enqueuePseudoDataGenAt_kept (scaleLog2 : Nat) (inv : Inv reported service)
    (ck : ChunkKey) : Kept reported service (service.enqueuePseudoDataGenAt scaleLog2 ck) := by
  induction scaleLog2 generalizing service ck with
  | zero =>
    rw [Service.enqueuePseudoDataGenAt]
    dsimp only
    split
    · exact Kept.refl inv
    · exact (modifyRecord_sameCore ck
        (f := fun m => { m with pseudoDataInvalidated := false }) fun _ => rfl).kept inv
  | succ scaleLog2 ih =>
    have flagged := (modifyRecord_sameCore ck
      (f := fun m => { m with pseudoDataInvalidated := false }) fun _ => rfl).kept inv
    have le := inv.dataCounter_le ck
    cases scaleLog2 with
    | zero =>
      rw [Service.enqueuePseudoDataGenAt]
      dsimp only
      split
      · exact Kept.refl inv
      · exact (foldl_depends (fun dk depends => collectChunk_depends depends _ dk) _
          (Depends.nothing flagged)).enqueuePseudoData le (fun _ => rfl) (fun _ => rfl)
          (fun _ => id) (fun _ => trivial) fun _ => rfl
    | succ finer =>
      rw [Service.enqueuePseudoDataGenAt]
      dsimp only
      split
      · exact Kept.refl inv
      · split
        · exact flagged.trans (enqueueVirgin_kept flagged.inv ck)
        · exact (foldl_depends (fun dk depends =>
            collectPseudoData_depends (fun dk inv => ih inv dk) depends _ dk) _
            (Depends.nothing flagged)).enqueuePseudoData le (fun _ => rfl) (fun _ => rfl)
            (fun _ => id) (fun _ => trivial) fun _ => rfl

theorem enqueuePseudoDataGen_kept (inv : Inv reported service) (ck : ChunkKey) :
    Kept reported service (service.enqueuePseudoDataGen ck) :=
  enqueuePseudoDataGenAt_kept _ inv ck

theorem Depends.enqueuePseudoSurface {object : Nat → Object} {collected : Collected}
    (depends : Depends reported service object collected) {counter : Nat}
    (le : counter ≤ service.lastCounter) {ck : ChunkKey} {job : Job} (key : job.key = some ck)
    (writes : job.writes = none) (makes : ¬ job.MakesChunk) (noEdit : job.NoEdit)
    (reads : job.reads = (collected.dependencies.filterMap id).map object) :
    Kept reported service (if !collected.outdated then collected.service
      else collected.service.enqueuePseudoSurface ck (counter :: collected.waitCounters) job) := by
  split
  · exact depends.kept
  · have enqueues := enqueuePseudoSurface_enqueues _ ck depends.kept.inv key writes makes
      (depends.waits_le le) (reads ▸ depends.reads counter)
    refine depends.kept.trans (enqueues.kept depends.kept.inv noEdit ?_)
    rw [writes]
    exact nofun

theorem enqueuePseudoSurfaceGen_kept (inv : Inv reported service) (ck : ChunkKey) :
    Kept reported service (service.enqueuePseudoSurfaceGen ck) := by
  have flagged := (modifyRecord_sameCore ck
    (f := fun m => { m with pseudoSurfaceInvalidated := false }) fun _ => rfl).kept inv
  have le := inv.surfaceCounter_le ck
  unfold Service.enqueuePseudoSurfaceGen
  dsimp only
  split
  · exact Kept.refl inv
  · split
    · have made := flagged.trans (enqueueChunkDataGen_kept flagged.inv ck)
      have first := fun outdated => (Depends.nothing flagged).append
        (enqueueChunkDataGen_kept flagged.inv ck) outdated (made.inv.chunkCounter_le ck)
        fun ptr latest => Or.inr (made.inv.chunk ck ptr latest).1
      exact (foldl_depends (fun dk depends => collectChunk_depends depends _ dk) _
        (first _)).enqueuePseudoSurface le rfl rfl id trivial rfl
    · have made := flagged.trans (enqueuePseudoDataGen_kept flagged.inv ck)
      have first := fun outdated => (Depends.nothing flagged).append
        (enqueuePseudoDataGen_kept flagged.inv ck) outdated (made.inv.dataCounter_le ck)
        fun ptr latest => Or.inr (made.inv.data ck ptr latest)
      exact (foldl_depends (fun dk depends => collectPseudoData_depends
        (fun dk inv => enqueuePseudoDataGen_kept inv dk) depends _ dk) _
        (first _)).enqueuePseudoSurface le rfl rfl id trivial rfl

theorem tickChunkKey_kept (inv : Inv reported service) (ck : ChunkKey) :
    Kept reported service (service.tickChunkKey ck) := by
  have got := (getMetastate_sameCore ck).kept inv
  unfold Service.tickChunkKey
  dsimp only
  split
  · have made := got.trans (enqueueChunkDataGen_kept got.inv ck)
    exact made.trans (enqueuePseudoSurfaceGen_kept made.inv ck)
  · exact got.trans (enqueuePseudoSurfaceGen_kept got.inv ck)

end Enqueue

end Voxen.Land.LandService
