import Voxen.Land.ChunkTicketKeys
import Voxen.Land.PseudoChunkLod0
import Voxen.Land.PseudoChunkSurface
import Voxen.Util.LruVisitOrdering

/-!
# The land service

`LandServiceImpl` keeps a record for every chunk key that a ticket or a neighbour refers to, and
enqueues the tasks that generate its chunk, its pseudo-chunk data and its surface, or edit a block
of it. A task waits for the counters of the tasks it depends on.
-/

namespace Voxen.Land

/-- `operator<`. -/
instance : LE ChunkKey := ⟨fun key key' => key.packed ≤ key'.packed⟩

instance : DecidableLE ChunkKey := fun key key' =>
  inferInstanceAs (Decidable (key.packed ≤ key'.packed))

/-- `ChunkKey(key.base() + offset, scaleLog2)`. -/
def ChunkKey.away (key : ChunkKey) (offset : Int × Int × Int) (scaleLog2 : Nat) : ChunkKey :=
  ofBase
    { x := key.base.x + BitVec.ofInt 32 offset.1
      y := key.base.y + BitVec.ofInt 32 offset.2.1
      z := key.base.z + BitVec.ofInt 32 offset.2.2 } scaleLog2

namespace LandService

open ChunkTickets (takeSlot)

/-- Address of a `Chunk`. -/
abbrev ChunkPtr := Nat

/-- Address of a `PseudoChunkData`. -/
abbrev PseudoDataPtr := Nat

/-- Address of a `PseudoChunkSurface`. -/
abbrev PseudoSurfacePtr := Nat

/-- `m_dummy_above_limit_chunk`. -/
def dummyAboveLimitChunk : ChunkPtr := 0

/-- `m_dummy_below_limit_chunk`. -/
def dummyBelowLimitChunk : ChunkPtr := 1

/-- `m_dummy_pseudo_data_ptr`. -/
def dummyPseudoData : PseudoDataPtr := 0

/-- `STALE_CHUNK_AGE_THRESHOLD`. -/
abbrev staleChunkAgeThreshold : Int := 750

/-- `KEYS_PER_TICK`. -/
abbrev keysPerTick : Nat := 500

structure ChunkMetastate where
  lastReferencedTick : Int := -1
  pendingTaskCount : BitVec 8 := 0
  chunkDataInvalidated : Bool := true
  pseudoDataInvalidated : Bool := true
  pseudoSurfaceInvalidated : Bool := true
  isVirgin : Bool := true
  chunkGenTaskCounter : Nat := 0
  pseudoDataGenTaskCounter : Nat := 0
  pseudoSurfaceGenTaskCounter : Nat := 0
  latestChunkPtr : Option ChunkPtr := none
  latestPseudoDataPtr : Option PseudoDataPtr := none

/-- The functor of a task with what it captures. -/
inductive Job where
  /-- The one of `GeneratorGlobalMap::enqueueGenerate`. -/
  | generateGlobalMap
  | generateChunk (key : ChunkKey) (ptr : ChunkPtr)
  | editBlock (key : ChunkKey) (chunk : Option ChunkPtr) (position : UVec3) (blockId : BitVec 16)
  /-- `aggregatePseudoChunkData` from 27 chunks. -/
  | aggregateChunks (key : ChunkKey) (ref : List (Option ChunkPtr)) (out : PseudoDataPtr)
  /-- `aggregatePseudoChunkData` from 8 finer pseudo-chunks. -/
  | aggregateFiner (key : ChunkKey) (ref : List (Option PseudoDataPtr)) (out : PseudoDataPtr)
  | generatePseudoChunk (key : ChunkKey) (ptr : PseudoDataPtr)
  /-- `generatePseudoChunkSurface` from a chunk and its 6 neighbours. -/
  | chunkSurface (key : ChunkKey) (ref : List (Option ChunkPtr))
  /-- `generatePseudoChunkSurface` from a pseudo-chunk and its 18 neighbours. -/
  | pseudoChunkSurface (key : ChunkKey) (ref : List (Option PseudoDataPtr))

/-- The key the task is enqueued for. -/
def Job.key : Job → Option ChunkKey
  | .generateGlobalMap => none
  | .generateChunk key _ => some key
  | .editBlock key _ _ _ => some key
  | .aggregateChunks key _ _ => some key
  | .aggregateFiner key _ _ => some key
  | .generatePseudoChunk key _ => some key
  | .chunkSurface key _ => some key
  | .pseudoChunkSurface key _ => some key

/-- An enqueued task. -/
structure Task where
  counter : Nat
  waitCounters : List Nat
  job : Job

/-- The service, with the tasks it has enqueued and the counters and addresses in use. -/
structure Service where
  chunkTickets : List TicketState := []
  metastate : ChunkKey → Option ChunkMetastate := fun _ => none
  thisTickPseudoDataInvalidations : List ChunkKey := []
  thisTickPseudoSurfaceInvalidations : List ChunkKey := []
  keysLruCheckOrder : LruVisitOrdering ChunkKey := []
  keysToUpdate : List ChunkKey := []
  tickId : Int := 0
  /-- `m_land_state.chunk_table`; a value can be a null pointer. -/
  chunkTable : ChunkKey → Option (Option ChunkPtr) := fun _ => none
  /-- `m_land_state.pseudo_chunk_surface_table`. -/
  pseudoChunkSurfaceTable : ChunkKey → Option (Option PseudoSurfacePtr) := fun _ => none
  /-- `m_generator.m_global_map_gen_task_counter`. -/
  globalMapGenTaskCounter : Nat := 0
  /-- All tasks enqueued so far, the last one first. -/
  tasks : List Task := []
  /-- The last counter that the task service gave out. -/
  lastCounter : Nat := 63
  nextChunk : ChunkPtr := 2
  nextPseudoData : PseudoDataPtr := 1

namespace Service

/-! ## Records and tasks -/

/-- The record of a key, as new if there is none. -/
def record (service : Service) (key : ChunkKey) : ChunkMetastate :=
  (service.metastate key).getD {}

def modifyRecord (service : Service) (key : ChunkKey) (f : ChunkMetastate → ChunkMetastate) :
    Service :=
  { service with
    metastate := Function.update service.metastate key (some (f (service.record key))) }

/-- What `getMetastate(key)` and the start of `tickChunkKey(key)` do. -/
def getMetastate (service : Service) (key : ChunkKey) : Service :=
  let service :=
    if (service.metastate key).isSome then service
    else { service with
      keysLruCheckOrder :=
        service.keysLruCheckOrder.addKey key (service.tickId + staleChunkAgeThreshold) }
  service.modifyRecord key fun m => { m with lastReferencedTick := service.tickId }

/-- `TaskBuilder::enqueueTask`; its counter is then `lastCounter`. Zero counters are left out,
and there are never so many that completed ones are. -/
def enqueueTask (service : Service) (waitCounters : List Nat) (job : Job) : Service :=
  { service with
    tasks := ⟨service.lastCounter + 1, waitCounters.filter (· ≠ 0), job⟩ :: service.tasks
    lastCounter := service.lastCounter + 1 }

/-- `Generator::prepareKeyGeneration(key, bld)`: the service, what the builder waits for
afterwards, and the counter it returns. -/
def prepareKeyGeneration (service : Service) (waitCounters : List Nat) :
    Service × List Nat × Nat :=
  if service.globalMapGenTaskCounter > 0 then
    (service, waitCounters, service.globalMapGenTaskCounter)
  else
    let service := service.enqueueTask waitCounters .generateGlobalMap
    let service := { service with globalMapGenTaskCounter := service.lastCounter }
    (service, [], service.lastCounter)

/-! ## Chunks -/

/-- `enqueueChunkDataGen(ck, m)`. -/
def enqueueChunkDataGen (service : Service) (ck : ChunkKey) : Service :=
  let m := service.record ck
  if !m.chunkDataInvalidated then service
  else
    let service := service.modifyRecord ck fun m => { m with chunkDataInvalidated := false }
    if m.chunkGenTaskCounter > 0 then service
    else
      let ptr := service.nextChunk
      let service := { service with nextChunk := ptr + 1 }
      let service := service.modifyRecord ck fun m => { m with latestChunkPtr := some ptr }
      let (service, waitCounters, prepared) :=
        service.prepareKeyGeneration [m.chunkGenTaskCounter]
      let service := service.enqueueTask (waitCounters ++ [prepared]) (.generateChunk ck ptr)
      service.modifyRecord ck fun m => { m with
        pendingTaskCount := m.pendingTaskCount + 1
        chunkGenTaskCounter := service.lastCounter }

end Service

/-- The locals of the functions that collect the dependencies of a task. -/
structure Collected where
  service : Service
  dependencies : List (Option Nat) := []
  waitCounters : List Nat := []
  outdated : Bool := false

/-- `collect_dependency(dk, index)` for a chunk, in the function that made the last task with
counter `counter` of this kind. -/
def collectChunk (counter : Nat) (collected : Collected) (dk : ChunkKey) : Collected :=
  if dk.y.toInt > Consts.maxWorldYChunk then
    { collected with
      dependencies := collected.dependencies ++ [some dummyAboveLimitChunk]
      waitCounters := collected.waitCounters ++ [0] }
  else if dk.y.toInt < Consts.minWorldYChunk then
    { collected with
      dependencies := collected.dependencies ++ [some dummyBelowLimitChunk]
      waitCounters := collected.waitCounters ++ [0] }
  else
    let service := (collected.service.getMetastate dk).enqueueChunkDataGen dk
    let mm := service.record dk
    { service := service
      dependencies := collected.dependencies ++ [mm.latestChunkPtr]
      waitCounters := collected.waitCounters ++ [mm.chunkGenTaskCounter]
      outdated := collected.outdated || decide (counter ≤ mm.chunkGenTaskCounter) }

/-- `collect_dependency(dk, index)` for pseudo-chunk data. -/
def collectPseudoData (enqueuePseudoDataGen : Service → ChunkKey → Service) (counter : Nat)
    (collected : Collected) (dk : ChunkKey) : Collected :=
  if dk.y.toInt < Consts.minWorldYChunk ∨ dk.y.toInt > Consts.maxWorldYChunk then
    { collected with
      dependencies := collected.dependencies ++ [some dummyPseudoData]
      waitCounters := collected.waitCounters ++ [0] }
  else
    let service := enqueuePseudoDataGen (collected.service.getMetastate dk) dk
    let mm := service.record dk
    { service := service
      dependencies := collected.dependencies ++ [mm.latestPseudoDataPtr]
      waitCounters := collected.waitCounters ++ [mm.pseudoDataGenTaskCounter]
      outdated := collected.outdated || decide (counter ≤ mm.pseudoDataGenTaskCounter) }

/-! ## Pseudo-chunk data -/

/-- The 27 chunks below a pseudo-chunk of LOD 1. -/
def chunkDependencies (ck : ChunkKey) : List ChunkKey :=
  PseudoChunkData.dependencyOffsets.map fun offset => ck.away (offset.x, offset.y, offset.z) 0

/-- The 8 children of a pseudo-chunk of a larger LOD. -/
def childDependencies (ck : ChunkKey) : List ChunkKey :=
  let S := ck.scaleLog2.toNat - 1
  let K : Int := ck.scaleMultiplier / 2
  [(0, 0, 0), (0, 0, K), (K, 0, 0), (K, 0, K), (0, K, 0), (0, K, K), (K, K, 0), (K, K, K)].map
    (ck.away · S)

namespace Service

/-- The end of `enqueuePseudoDataGen`: a task that fills new pseudo-chunk data. -/
def enqueuePseudoData (service : Service) (ck : ChunkKey) (waitCounters : List Nat)
    (job : PseudoDataPtr → Job) : Service :=
  let ptr := service.nextPseudoData
  let service := { service with nextPseudoData := ptr + 1 }
  let service := service.modifyRecord ck fun m => { m with latestPseudoDataPtr := some ptr }
  let service := service.enqueueTask waitCounters (job ptr)
  service.modifyRecord ck fun m => { m with
    pendingTaskCount := m.pendingTaskCount + 1
    pseudoDataGenTaskCounter := service.lastCounter }

/-- `enqueuePseudoDataGen(ck, m)` for a virgin chunk that can be generated. -/
def enqueueVirgin (service : Service) (ck : ChunkKey) : Service :=
  let m := service.record ck
  if m.latestPseudoDataPtr.isSome then service
  else
    let (service, waitCounters, prepared) :=
      service.prepareKeyGeneration [m.pseudoDataGenTaskCounter]
    service.enqueuePseudoData ck (waitCounters ++ [prepared]) (.generatePseudoChunk ck)

/-- `enqueuePseudoDataGen(ck, m)`, on the scale of the key. -/
def enqueuePseudoDataGenAt : Nat → Service → ChunkKey → Service
  | scaleLog2, service, ck =>
    let m := service.record ck
    if !m.pseudoDataInvalidated then service
    else
      let service := service.modifyRecord ck fun m => { m with pseudoDataInvalidated := false }
      let counter := m.pseudoDataGenTaskCounter
      match scaleLog2 with
      | 0 => service
      | 1 =>
        let collected := (chunkDependencies ck).foldl (collectChunk counter)
          { service := service }
        if !collected.outdated then collected.service
        else collected.service.enqueuePseudoData ck (counter :: collected.waitCounters)
          (.aggregateChunks ck collected.dependencies)
      | finer + 2 =>
        if finer + 2 ≤ Consts.maxGeneratableLod ∧ m.isVirgin then service.enqueueVirgin ck
        else
          let collected := (childDependencies ck).foldl
            (collectPseudoData (enqueuePseudoDataGenAt (finer + 1)) counter)
            { service := service }
          if !collected.outdated then collected.service
          else collected.service.enqueuePseudoData ck (counter :: collected.waitCounters)
            (.aggregateFiner ck collected.dependencies)

def enqueuePseudoDataGen (service : Service) (ck : ChunkKey) : Service :=
  service.enqueuePseudoDataGenAt ck.scaleLog2.toNat ck

end Service

/-! ## Surfaces -/

/-- The 6 neighbours of a chunk. -/
def adjacentOffsets : List (Int × Int × Int) :=
  [(1, 0, 0), (-1, 0, 0), (0, 1, 0), (0, -1, 0), (0, 0, 1), (0, 0, -1)]

/-- The 18 neighbours of a pseudo-chunk, in the order in which they are collected. -/
def pseudoAdjacentOffsets : List (Int × Int × Int) :=
  adjacentOffsets ++
    [(0, -1, -1), (0, -1, 1), (0, 1, -1), (0, 1, 1),
      (-1, 0, -1), (-1, 0, 1), (1, 0, -1), (1, 0, 1),
      (-1, -1, 0), (1, -1, 0), (-1, 1, 0), (1, 1, 0)]

namespace Service

/-- The end of `enqueuePseudoSurfaceGen`. -/
def enqueuePseudoSurface (service : Service) (ck : ChunkKey) (waitCounters : List Nat)
    (job : Job) : Service :=
  let service := service.enqueueTask waitCounters job
  service.modifyRecord ck fun m => { m with
    pendingTaskCount := m.pendingTaskCount + 1
    pseudoSurfaceGenTaskCounter := service.lastCounter }

/-- `enqueuePseudoSurfaceGen(ck, m)`. -/
def enqueuePseudoSurfaceGen (service : Service) (ck : ChunkKey) : Service :=
  let m := service.record ck
  if !m.pseudoSurfaceInvalidated then service
  else
    let service := service.modifyRecord ck fun m => { m with pseudoSurfaceInvalidated := false }
    let counter := m.pseudoSurfaceGenTaskCounter
    if ck.scaleLog2 = 0 then
      let service := service.enqueueChunkDataGen ck
      let m := service.record ck
      let collected := (adjacentOffsets.map (ck.away · 0)).foldl (collectChunk counter)
        { service := service
          dependencies := [m.latestChunkPtr]
          waitCounters := [m.chunkGenTaskCounter]
          outdated := m.chunkGenTaskCounter ≥ counter }
      if !collected.outdated then collected.service
      else collected.service.enqueuePseudoSurface ck (counter :: collected.waitCounters)
        (.chunkSurface ck collected.dependencies)
    else
      let service := service.enqueuePseudoDataGen ck
      let m := service.record ck
      let collected := (pseudoAdjacentOffsets.map ck.shifted).foldl
        (collectPseudoData enqueuePseudoDataGen counter)
        { service := service
          dependencies := [m.latestPseudoDataPtr]
          waitCounters := [m.pseudoDataGenTaskCounter]
          outdated := m.pseudoDataGenTaskCounter ≥ counter }
      if !collected.outdated then collected.service
      else collected.service.enqueuePseudoSurface ck (counter :: collected.waitCounters)
        (.pseudoChunkSurface ck collected.dependencies)

/-- `tickChunkKey(ck, tick_id)`. -/
def tickChunkKey (service : Service) (ck : ChunkKey) : Service :=
  let service := service.getMetastate ck
  let service := if ck.scaleLog2 = 0 then service.enqueueChunkDataGen ck else service
  service.enqueuePseudoSurfaceGen ck

/-! ## Messages -/

/-- `handleChunkTicketRequest(msg)`, but for the ticket it returns. -/
def handleChunkTicketRequest (service : Service) (area : ChunkTicketArea) : Service :=
  if !validateChunkTicketArea area then service
  else { service with chunkTickets := (takeSlot service.chunkTickets area).2 }

/-- `handleChunkTicketAdjust(msg)`; there is no result when its assertion fails. -/
def handleChunkTicketAdjust (service : Service) (ticketId : Nat) (newArea : ChunkTicketArea) :
    Option Service :=
  if !validateChunkTicketArea newArea then some service
  else if ticketId < service.chunkTickets.length then
    some { service with
      chunkTickets := service.chunkTickets.modify ticketId fun slot =>
        { slot with area := newArea } }
  else none

/-- `handleChunkTicketRemove(msg)`; there is no result when its assertion fails. -/
def handleChunkTicketRemove (service : Service) (ticketId : Nat) : Option Service :=
  if ticketId < service.chunkTickets.length then
    some { service with
      chunkTickets := service.chunkTickets.modify ticketId fun slot =>
        { slot with valid := false } }
  else none

/-- The key of the chunk that holds a block, and the position of the block in the chunk. -/
def editedBlock (position : IVec3) : ChunkKey × UVec3 :=
  let lowest : IVec3 := ⟨position.x &&& ~~~31#32, position.y &&& ~~~31#32, position.z &&& ~~~31#32⟩
  (ChunkKey.ofBase ⟨lowest.x.sdiv 32, lowest.y.sdiv 32, lowest.z.sdiv 32⟩ 0,
    ⟨(position.x - lowest.x).toNat, (position.y - lowest.y).toNat, (position.z - lowest.z).toNat⟩)

/-- `handleBlockEditMessage(msg)`. -/
def handleBlockEditMessage (service : Service) (position : IVec3) (newId : BitVec 16) : Service :=
  let (chunkKey, editPosition) := editedBlock position
  let service := (service.getMetastate chunkKey).enqueueChunkDataGen chunkKey
  let m := service.record chunkKey
  let service := service.enqueueTask [m.chunkGenTaskCounter]
    (.editBlock chunkKey m.latestChunkPtr editPosition newId)
  let service := service.modifyRecord chunkKey fun m => { m with
    pendingTaskCount := m.pendingTaskCount + 1
    chunkGenTaskCounter := service.lastCounter
    pseudoSurfaceInvalidated := true }
  service.enqueuePseudoSurfaceGen chunkKey

/-- `handleChunkLoadCompletion(msg)`. -/
def handleChunkLoadCompletion (service : Service) (key : ChunkKey) (valuePtr : Option ChunkPtr) :
    Service :=
  let service := service.modifyRecord key fun m => { m with
    pendingTaskCount := m.pendingTaskCount - 1
    pseudoSurfaceInvalidated := true }
  { service with
    chunkTable := Function.update service.chunkTable key (some valuePtr)
    thisTickPseudoSurfaceInvalidations := service.thisTickPseudoSurfaceInvalidations ++
      adjacentOffsets.map (key.away · 0)
    thisTickPseudoDataInvalidations := service.thisTickPseudoDataInvalidations ++
      key.parentLodKey ::
        [(0, 0, -1), (-1, 0, 0), (-1, 0, -1), (0, -1, 0), (0, -1, -1), (-1, -1, 0),
          (-1, -1, -1)].map fun offset => (key.away offset 0).parentLodKey }

/-- `handlePseudoDataGenCompletion(msg)`. -/
def handlePseudoDataGenCompletion (service : Service) (key : ChunkKey) : Service :=
  let service := service.modifyRecord key fun m => { m with
    pendingTaskCount := m.pendingTaskCount - 1
    pseudoSurfaceInvalidated := true }
  { service with
    thisTickPseudoSurfaceInvalidations := service.thisTickPseudoSurfaceInvalidations ++
      (adjacentOffsets ++
        [(1, 0, 1), (1, 0, -1), (-1, 0, 1), (-1, 0, -1),
          (0, 1, 1), (0, 1, -1), (0, -1, 1), (0, -1, -1),
          (1, 1, 0), (1, -1, 0), (-1, 1, 0), (-1, -1, 0)]).map key.shifted
    thisTickPseudoDataInvalidations := service.thisTickPseudoDataInvalidations ++
      [key.parentLodKey] }

/-- `handlePseudoSurfaceGenCompletion(msg)`. -/
def handlePseudoSurfaceGenCompletion (service : Service) (key : ChunkKey)
    (valuePtr : Option PseudoSurfacePtr) : Service :=
  let service := service.modifyRecord key fun m => { m with
    pendingTaskCount := m.pendingTaskCount - 1 }
  { service with
    pseudoChunkSurfaceTable := Function.update service.pseudoChunkSurfaceTable key (some valuePtr) }

/-! ## Ticks -/

/-- Change the records of the keys that have one. -/
def modifyRecords (service : Service) (keys : List ChunkKey)
    (f : ChunkMetastate → ChunkMetastate) : Service :=
  keys.foldl (fun service key =>
    if (service.metastate key).isSome then service.modifyRecord key f else service) service

/-- The data invalidations of `doTick`. -/
def processInvalidations (service : Service) : Service :=
  let service := service.modifyRecords service.thisTickPseudoDataInvalidations fun m =>
    { m with pseudoDataInvalidated := true, isVirgin := false }
  let service := service.modifyRecords service.thisTickPseudoSurfaceInvalidations fun m =>
    { m with pseudoSurfaceInvalidated := true }
  { service with
    thisTickPseudoDataInvalidations := []
    thisTickPseudoSurfaceInvalidations := [] }

/-- The new list of keys, if none are left to update; nothing if the fuel ends before the walk
over a ticket. -/
def refillKeysToUpdate (fuel : Nat) (service : Service) : Option Service :=
  if service.keysToUpdate.isEmpty then
    (collectKeys fuel service.chunkTickets).map fun keys => { service with keysToUpdate := keys }
  else some service

/-- One round of the loop over the keys to update, which takes them from the back. -/
def tickLastKey (service : Service) : Service :=
  match service.keysToUpdate.getLast? with
  | none => service
  | some ck => { service.tickChunkKey ck with keysToUpdate := service.keysToUpdate.dropLast }

/-- The callback that cleans up a key, with the tick of its next visit. -/
def cleanUp (service : Service) (key : ChunkKey) : Service × Option Int :=
  match service.metastate key with
  | none => (service, some (-1))
  | some m =>
    if m.lastReferencedTick + staleChunkAgeThreshold > service.tickId then
      (service, some (m.lastReferencedTick + staleChunkAgeThreshold))
    else if m.pendingTaskCount > 0 then (service, some (service.tickId + 1))
    else
      ({ service with
        chunkTable := Function.update service.chunkTable key none
        pseudoChunkSurfaceTable := Function.update service.pseudoChunkSurfaceTable key none
        metastate := Function.update service.metastate key none }, some (-1))

/-- The visit of the oldest keys at the end of `doTick`. -/
def visitOldest (service : Service) : Service :=
  let (queue, service, _) := LruVisitOrdering.visitOldest cleanUp service.tickId 1000
    service.keysLruCheckOrder service
  { service with keysLruCheckOrder := queue }

end Service

end LandService

end Voxen.Land
