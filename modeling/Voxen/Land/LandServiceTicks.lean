import Voxen.Land.LandServiceEnqueue

/-!
# What the handlers and ticks of the land service keep

The handlers of messages and the parts of a tick keep the invariant, reports of tasks included.
-/

namespace Voxen.Land.LandService

/-! ## Messages -/

section Messages

variable {reported : List Nat} {service : Service}

theorem editBlock_enqueues (inv : Inv reported service) (ck : ChunkKey) (position : UVec3)
    (blockId : BitVec 16) :
    let m := service.record ck
    let enqueued := service.enqueueTask [m.chunkGenTaskCounter]
      (.editBlock ck m.latestChunkPtr position blockId)
    Enqueues service
      (enqueued.modifyRecord ck fun m => { m with
        pendingTaskCount := m.pendingTaskCount + 1
        chunkGenTaskCounter := enqueued.lastCounter
        pseudoSurfaceInvalidated := true })
      [m.chunkGenTaskCounter] (.editBlock ck m.latestChunkPtr position blockId) := by
  intro m enqueued
  have le := Nat.le_succ service.lastCounter
  have used : ∀ ptr, m.latestChunkPtr = some ptr → m.chunkGenTaskCounter ≠ 0 := by
    intro ptr latest
    obtain ⟨task, mem, same, -⟩ := (inv.chunk ck ptr latest).1.written
    exact same ▸ Nat.ne_of_gt (inv.counter_pos task mem)
  have writes : ∀ object,
      (Job.editBlock ck m.latestChunkPtr position blockId).writes = some object →
      ∃ ptr, m.latestChunkPtr = some ptr ∧ object = .chunk ptr := by
    intro object writes
    obtain ⟨ptr, latest, rfl⟩ := Option.map_eq_some_iff.mp writes
    exact ⟨ptr, latest, rfl⟩
  refine EnqueuesFor.enqueues ck { m with
    pendingTaskCount := m.pendingTaskCount + 1
    chunkGenTaskCounter := service.lastCounter + 1
    pseudoSurfaceInvalidated := true } ?_ inv
  exact {
    record := fun key => Service.record_modifyRecord _ _ _ _
    tasks := rfl
    lastCounter := rfl
    inUse := fun _ used => used
    map := rfl
    table := rfl
    surfaceTable := rfl
    key := rfl
    waits_le := fun wait mem => List.mem_singleton.mp mem ▸ inv.chunkCounter_le ck
    chunkWaits := fun _ wait mem _ other mem' same =>
      inv.chunkJob ck other mem' (same.trans (List.mem_singleton.mp mem))
    reads := fun object mem => by
      obtain ⟨ptr, listed, rfl⟩ := List.mem_map.mp mem
      have latest : m.latestChunkPtr = some ptr := Option.mem_toList.mp listed
      exact ⟨(inv.latest_inUse ck).1 ptr latest, Or.inr ⟨_, List.mem_singleton_self _,
        used ptr latest, (inv.chunk ck ptr latest).1⟩⟩
    writes := fun object written => by
      obtain ⟨ptr, latest, rfl⟩ := writes object written
      have isLast := (inv.chunk ck ptr latest).1
      obtain ⟨task, mem, -, writes'⟩ := isLast.written
      exact ⟨(inv.latest_inUse ck).1 ptr latest, inv.unwritten task mem _ writes',
        Or.inr ⟨rfl, _, List.mem_singleton_self _, used ptr latest, isLast⟩⟩
    chunkCounter := Or.inr ⟨rfl, trivial⟩
    dataCounter := (inv.dataCounter_le ck).trans le
    surfaceCounter := (inv.surfaceCounter_le ck).trans le
    chunk := fun ptr latest => Or.inr ⟨congrArg (Option.map Object.chunk) latest, rfl,
      (inv.chunk ck ptr latest).2⟩
    data := fun ptr latest => Or.inl ⟨latest, rfl, fun written => by
      obtain ⟨_, -, same⟩ := writes _ written
      cases same⟩
    noData := inv.noData ck
    others := fun key differ => by
      refine ⟨fun ptr latest written => ?_, fun ptr _ written => ?_⟩
      · obtain ⟨_, mine, ⟨⟩⟩ := writes _ written
        obtain ⟨task, mem, -, writes'⟩ := (inv.chunk ck ptr mine).1.written
        have owner := (inv.chunk ck ptr mine).2 task mem writes'
        have owner' := (inv.chunk key ptr latest).2 task mem writes'
        exact differ (Option.some.inj (owner'.symm.trans owner))
      · obtain ⟨_, -, same⟩ := writes _ written
        cases same
    count := rfl }

theorem generated_kept (inv : Inv reported service) (ck : ChunkKey) :
    Kept reported service ((service.getMetastate ck).enqueueChunkDataGen ck) :=
  have got := (getMetastate_sameCore ck).kept inv
  got.trans (enqueueChunkDataGen_kept got.inv ck)

theorem handleBlockEditMessage_inv (inv : Inv reported service) (position : IVec3)
    (newId : BitVec 16) :
    Inv reported (service.handleBlockEditMessage position newId) ∧
      service.tasks ⊆ (service.handleBlockEditMessage position newId).tasks := by
  have made := generated_kept inv (Service.editedBlock position).1
  have edited := (editBlock_enqueues made.inv (Service.editedBlock position).1
    (Service.editedBlock position).2 newId).keeps_inv made.inv
  have surface := enqueuePseudoSurfaceGen_kept edited (Service.editedBlock position).1
  exact ⟨surface.inv,
    List.Subset.trans (List.Subset.trans made.tasks (List.subset_cons_self _ _)) surface.tasks⟩

theorem handleBlockEditMessage_tables (inv : Inv reported service) (position : IVec3)
    (newId : BitVec 16) :
    (∀ key value, (service.handleBlockEditMessage position newId).chunkTable key = some value →
      service.chunkTable key = some value) ∧
    ∀ key value,
      (service.handleBlockEditMessage position newId).pseudoChunkSurfaceTable key = some value →
      service.pseudoChunkSurfaceTable key = some value := by
  have made := generated_kept inv (Service.editedBlock position).1
  have edited := (editBlock_enqueues made.inv (Service.editedBlock position).1
    (Service.editedBlock position).2 newId).keeps_inv made.inv
  have surface := enqueuePseudoSurfaceGen_kept edited (Service.editedBlock position).1
  exact ⟨fun key value found => made.table key value (surface.table key value found),
    fun key value found => made.surfaceTable key value (surface.surfaceTable key value found)⟩

theorem report_inv (inv : Inv reported service) {task : Task} (mem : task ∈ service.tasks)
    (unreported : task.counter ∉ reported) {key : ChunkKey} (forKey : task.job.key = some key)
    {f : ChunkMetastate → ChunkMetastate}
    (less : ∀ m, (f m).core = { m.core with pendingTaskCount := m.pendingTaskCount - 1 }) :
    Inv (task.counter :: reported) (service.modifyRecord key f) := by
  have record : ∀ other, ((service.modifyRecord key f).record other).core =
      { (service.record other).core with
        pendingTaskCount := (service.record other).pendingTaskCount -
          if task.job.key = some other then 1 else 0 } := by
    intro other
    rw [Service.record_modifyRecord, forKey]
    by_cases same : other = key
    · rw [if_pos same, if_pos (congrArg some same.symm), less, same]
    · rw [if_neg same, if_neg fun eq => same (Option.some.inj eq).symm]
      exact congrArg (fun count => { (service.record other).core with pendingTaskCount := count })
        (BitVec.sub_zero _).symm
  have chunkCounter := fun other => congrArg (·.chunkGenTaskCounter) (record other)
  have dataCounter := fun other => congrArg (·.pseudoDataGenTaskCounter) (record other)
  have surfaceCounter := fun other => congrArg (·.pseudoSurfaceGenTaskCounter) (record other)
  have chunk := fun other => congrArg (·.latestChunkPtr) (record other)
  have data := fun other => congrArg (·.latestPseudoDataPtr) (record other)
  have count := fun other => congrArg (·.pendingTaskCount) (record other)
  dsimp only [ChunkMetastate.core] at chunkCounter dataCounter surfaceCounter chunk data count
  exact {
    sorted := inv.sorted
    counter_pos := inv.counter_pos
    counter_le := inv.counter_le
    reported_le := fun counter mem' => by
      rcases List.mem_cons.mp mem' with rfl | mem'
      · exact inv.counter_le task mem
      · exact inv.reported_le counter mem'
    wait_lt := inv.wait_lt
    inUse := inv.inUse
    dummies := inv.dummies
    unwritten := inv.unwritten
    mapCounter_le := inv.mapCounter_le
    mapJob := inv.mapJob
    chunkCounter_le := fun other => (chunkCounter other).le.trans (inv.chunkCounter_le other)
    dataCounter_le := fun other => (dataCounter other).le.trans (inv.dataCounter_le other)
    surfaceCounter_le := fun other => (surfaceCounter other).le.trans (inv.surfaceCounter_le other)
    chunkWaits := inv.chunkWaits
    chunkJob := fun other third mem' same =>
      inv.chunkJob other third mem' (same.trans (chunkCounter other))
    chunk := fun other ptr latest => by
      rw [chunkCounter]
      exact inv.chunk other ptr ((chunk other).symm.trans latest)
    data := fun other ptr latest => by
      rw [dataCounter]
      exact inv.data other ptr ((data other).symm.trans latest)
    noData := fun other none => by
      rw [dataCounter]
      exact inv.noData other ((data other).symm.trans none)
    fillers := inv.fillers
    writers := inv.writers
    readers := inv.readers
    counts := fun other => by
      rw [count, inv.counts other, outstanding_report inv.sorted mem unreported other]
      change _ = BitVec.ofNat 8 (outstanding service.tasks (task.counter :: reported) other)
      split
      · rw [BitVec.ofNat_add]
        exact BitVec.add_sub_cancel _ _
      · exact BitVec.sub_zero _ }

theorem Inv.of_fields {service' : Service} (inv : Inv reported service)
    (metastate : service'.metastate = service.metastate) (tasks : service'.tasks = service.tasks)
    (lastCounter : service'.lastCounter = service.lastCounter)
    (nextChunk : service'.nextChunk = service.nextChunk)
    (nextPseudoData : service'.nextPseudoData = service.nextPseudoData)
    (map : service'.globalMapGenTaskCounter = service.globalMapGenTaskCounter) :
    Inv reported service' := by
  have same : SameCore service { service' with
      chunkTable := service.chunkTable
      pseudoChunkSurfaceTable := service.pseudoChunkSurfaceTable } :=
    ⟨tasks, lastCounter, nextChunk, nextPseudoData, map, rfl, rfl, fun key =>
      congrArg (fun m : Option ChunkMetastate => (m.getD {}).core) (congrFun metastate key)⟩
  exact { same.keeps_inv inv with }

theorem Kept.of_fields {service' service'' : Service} (kept : Kept reported service service')
    (metastate : service''.metastate = service'.metastate)
    (tasks : service''.tasks = service'.tasks)
    (lastCounter : service''.lastCounter = service'.lastCounter)
    (nextChunk : service''.nextChunk = service'.nextChunk)
    (nextPseudoData : service''.nextPseudoData = service'.nextPseudoData)
    (map : service''.globalMapGenTaskCounter = service'.globalMapGenTaskCounter)
    (table : service''.chunkTable = service'.chunkTable)
    (surfaceTable : service''.pseudoChunkSurfaceTable = service'.pseudoChunkSurfaceTable) :
    Kept reported service service'' where
  inv := kept.inv.of_fields metastate tasks lastCounter nextChunk nextPseudoData map
  counter_le := lastCounter ▸ kept.counter_le
  tasks := tasks ▸ kept.tasks
  inUse object used := by
    have used' := kept.inUse object used
    cases object with
    | chunk ptr => exact Nat.lt_of_lt_of_eq used' nextChunk.symm
    | pseudoData ptr => exact Nat.lt_of_lt_of_eq used' nextPseudoData.symm
  fresh := tasks ▸ kept.fresh
  table := table ▸ kept.table
  surfaceTable := surfaceTable ▸ kept.surfaceTable
  isLast object counter isLast := tasks ▸ kept.isLast object counter isLast

end Messages

/-! ## Ticks -/

section Ticks

variable {reported : List Nat} {service : Service}

theorem beginTick_kept (inv : Inv reported service) (tickId : Int) :
    Kept reported service { service with tickId := tickId } :=
  (Kept.refl inv).of_fields rfl rfl rfl rfl rfl rfl rfl rfl

theorem modifyRecords_kept (inv : Inv reported service) (keys : List ChunkKey)
    {f : ChunkMetastate → ChunkMetastate} (flags : ∀ m, (f m).core = m.core) :
    Kept reported service (service.modifyRecords keys f) := by
  unfold Service.modifyRecords
  induction keys generalizing service with
  | nil => exact Kept.refl inv
  | cons key keys ih =>
    rw [List.foldl_cons]
    split
    · have changed := (modifyRecord_sameCore key flags).kept inv
      exact changed.trans (ih changed.inv)
    · exact ih inv

theorem processInvalidations_kept (inv : Inv reported service) :
    Kept reported service service.processInvalidations := by
  have data := modifyRecords_kept inv service.thisTickPseudoDataInvalidations
    (f := fun m => { m with pseudoDataInvalidated := true, isVirgin := false }) fun _ => rfl
  have surfaces := fun keys => modifyRecords_kept data.inv keys
    (f := fun m => { m with pseudoSurfaceInvalidated := true }) fun _ => rfl
  exact (data.trans (surfaces _)).of_fields rfl rfl rfl rfl rfl rfl rfl rfl

theorem refillKeysToUpdate_kept (inv : Inv reported service) {fuel : Nat} {service' : Service}
    (refilled : service.refillKeysToUpdate fuel = some service') :
    Kept reported service service' := by
  unfold Service.refillKeysToUpdate at refilled
  split at refilled
  · obtain ⟨keys, -, rfl⟩ := Option.map_eq_some_iff.mp refilled
    exact (Kept.refl inv).of_fields rfl rfl rfl rfl rfl rfl rfl rfl
  · cases refilled
    exact Kept.refl inv

theorem tickLastKey_kept (inv : Inv reported service) :
    Kept reported service service.tickLastKey := by
  unfold Service.tickLastKey
  split
  · exact Kept.refl inv
  · exact (tickChunkKey_kept inv _).of_fields rfl rfl rfl rfl rfl rfl rfl rfl

theorem erase_inv {service' : Service} (inv : Inv reported service) (key : ChunkKey)
    (idle : (service.record key).pendingTaskCount = 0)
    (record : ∀ other, service'.record other = if other = key then {} else service.record other)
    (tasks : service'.tasks = service.tasks)
    (lastCounter : service'.lastCounter = service.lastCounter)
    (nextChunk : service'.nextChunk = service.nextChunk)
    (nextPseudoData : service'.nextPseudoData = service.nextPseudoData)
    (map : service'.globalMapGenTaskCounter = service.globalMapGenTaskCounter) :
    Inv reported service' := by
  -- first only the tasks and counters, with the old records
  have kept : Inv reported { service' with metastate := service.metastate } :=
    inv.of_fields rfl tasks lastCounter nextChunk nextPseudoData map
  have erased : service'.record key = {} := by rw [record, if_pos rfl]
  have other : ∀ {other}, other ≠ key → service'.record other =
      Service.record { service' with metastate := service.metastate } other := by
    intro other differ
    rw [record, if_neg differ]
    rfl
  exact {
    sorted := kept.sorted
    counter_pos := kept.counter_pos
    counter_le := kept.counter_le
    reported_le := kept.reported_le
    wait_lt := kept.wait_lt
    inUse := kept.inUse
    dummies := kept.dummies
    unwritten := kept.unwritten
    mapCounter_le := kept.mapCounter_le
    mapJob := kept.mapJob
    chunkCounter_le := fun third => by
      by_cases same : third = key
      · rw [same, erased]
        exact Nat.zero_le _
      · rw [other same]
        exact kept.chunkCounter_le third
    dataCounter_le := fun third => by
      by_cases same : third = key
      · rw [same, erased]
        exact Nat.zero_le _
      · rw [other same]
        exact kept.dataCounter_le third
    surfaceCounter_le := fun third => by
      by_cases same : third = key
      · rw [same, erased]
        exact Nat.zero_le _
      · rw [other same]
        exact kept.surfaceCounter_le third
    chunkWaits := kept.chunkWaits
    chunkJob := fun third task mem counter => by
      by_cases same : third = key
      · rw [same, erased] at counter
        exact absurd counter (Nat.ne_of_gt (kept.counter_pos task mem))
      · rw [other same] at counter
        exact kept.chunkJob third task mem counter
    chunk := fun third ptr latest => by
      by_cases same : third = key
      · rw [same, erased] at latest
        cases latest
      · rw [other same] at latest ⊢
        exact kept.chunk third ptr latest
    data := fun third ptr latest => by
      by_cases same : third = key
      · rw [same, erased] at latest
        cases latest
      · rw [other same] at latest ⊢
        exact kept.data third ptr latest
    noData := fun third none => by
      by_cases same : third = key
      · rw [same, erased]
      · rw [other same] at none ⊢
        exact kept.noData third none
    fillers := kept.fillers
    writers := kept.writers
    readers := kept.readers
    counts := fun third => by
      by_cases same : third = key
      · rw [same, erased, tasks]
        exact idle.symm.trans (inv.counts key)
      · rw [other same]
        exact kept.counts third }

theorem erased_entry {α : Type} {table : ChunkKey → Option α} {key other : ChunkKey} {value : α}
    (found : Function.update table key none other = some value) : table other = some value := by
  by_cases same : other = key
  · rw [same, Function.update_self] at found
    cases found
  · rwa [Function.update_of_ne same] at found

theorem cleanUp_kept (inv : Inv reported service) (key : ChunkKey) :
    Kept reported service (service.cleanUp key).1 := by
  unfold Service.cleanUp
  split
  · exact Kept.refl inv
  · rename_i m found
    split
    · exact Kept.refl inv
    · split
      · exact Kept.refl inv
      · rename_i idle
        refine ⟨erase_inv inv key ?_ (fun other => ?_) rfl rfl rfl rfl rfl, Nat.le_refl _,
          List.Subset.refl _, fun object used => ?_, fun _ => Or.inl, fun other value => ?_,
          fun other value => ?_, fun _ _ => id⟩
        · rw [Service.record, found, Option.getD_some]
          exact BitVec.le_zero_iff.mp (BitVec.not_lt.mp idle)
        · unfold Service.record
          by_cases same : other = key
          · rw [if_pos same, same]
            simp only [Function.update_self, Option.getD_none]
          · rw [if_neg same]
            simp only [Function.update_of_ne same]
        · cases object with
          | chunk ptr => exact used
          | pseudoData ptr => exact used
        · exact erased_entry
        · exact erased_entry

theorem visitOldest_kept (inv : Inv reported service) :
    Kept reported service service.visitOldest := by
  have step : ∀ (other : Service) (key : ChunkKey), Kept reported service other →
      Kept reported service (other.cleanUp key).1 :=
    fun _ key kept => kept.trans (cleanUp_kept kept.inv key)
  have visited := LruVisitOrdering.visitOldest_invariant step service.tickId 1000
    service.keysLruCheckOrder (Kept.refl inv)
  exact visited.of_fields rfl rfl rfl rfl rfl rfl rfl rfl

theorem skipCounter_kept (inv : Inv reported service) :
    Kept reported service { service with lastCounter := service.lastCounter + 1 } where
  inv := { inv with
    counter_le := fun task mem => Nat.le_succ_of_le (inv.counter_le task mem)
    reported_le := fun counter mem => Nat.le_succ_of_le (inv.reported_le counter mem)
    mapCounter_le := Nat.le_succ_of_le inv.mapCounter_le
    chunkCounter_le := fun key => Nat.le_succ_of_le (inv.chunkCounter_le key)
    dataCounter_le := fun key => Nat.le_succ_of_le (inv.dataCounter_le key)
    surfaceCounter_le := fun key => Nat.le_succ_of_le (inv.surfaceCounter_le key) }
  counter_le := Nat.le_succ _
  tasks := List.Subset.refl _
  inUse object used := by
    cases object with
    | chunk ptr => exact used
    | pseudoData ptr => exact used
  fresh _ := Or.inl
  table _ _ := id
  surfaceTable _ _ := id
  isLast _ _ := id

theorem new_inv : Inv [] ({} : Service) where
  sorted := List.Pairwise.nil
  counter_pos := nofun
  counter_le := nofun
  reported_le := nofun
  wait_lt := nofun
  inUse := nofun
  dummies object dummy := by
    cases object with
    | chunk ptr =>
      rcases dummy with rfl | rfl
      · exact (by decide : dummyAboveLimitChunk < 2)
      · exact (by decide : dummyBelowLimitChunk < 2)
    | pseudoData ptr =>
      cases dummy
      exact (by decide : dummyPseudoData < 1)
  unwritten := nofun
  mapCounter_le := Nat.zero_le _
  mapJob := nofun
  chunkCounter_le _ := Nat.zero_le _
  dataCounter_le _ := Nat.zero_le _
  surfaceCounter_le _ := Nat.zero_le _
  chunkWaits := nofun
  chunkJob _ := nofun
  chunk _ _ := nofun
  data _ _ := nofun
  noData _ _ := rfl
  fillers := nofun
  writers := nofun
  readers := nofun
  counts _ := rfl

end Ticks

end Voxen.Land.LandService
