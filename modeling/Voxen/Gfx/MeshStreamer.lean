import Voxen.Gfx.FrameTickId
import Voxen.Lib.BumpRegion
import Voxen.Lib.Runs
import Voxen.Util.LruVisitOrdering

/-!
# Mesh streamer

Meshes live in large pools, elements of one size to a pool.  Ranges are cut from a pool one
behind the other and never go back one by one: a pool only counts what was allocated and
what was freed, and is reset when both are the same and no frame in flight reads it.
Uploads and moves to another pool are transfers that end some ticks later.

Calls of Vulkan and of the DMA system may throw; `throws` tells which of them do.
-/

namespace Voxen.Gfx

namespace MeshStreamer

open BumpRegion

/-- `MAX_MESH_SUBSTREAMS`. -/
abbrev maxMeshSubstreams : Nat := 4

/-- `MAX_ELEMENT_SIZE`. -/
def maxElementSize : Nat := 1024

/-- `POOL_SIZE_BYTES`. -/
def poolSizeBytes : Nat := 16 * 1024 * 1024

/-- `STALE_KEY_AGE_THRESHOLD`. -/
def staleKeyAgeThreshold : Int := 200

/-- `STALE_POOL_AGE_THRESHOLD`. -/
def stalePoolAgeThreshold : Int := 500

/-- `KEY_CLEANUP_STEPS_PER_TICK`. -/
def keyCleanupStepsPerTick : Nat := 32

/-- `UID`: its two words as one number, which `<=>` orders the same way. -/
abbrev UID := Nat

/-- `MeshStreamer::Allocation` that is valid; the pool is named by its handle. -/
structure Allocation where
  pool : Nat
  rangeBegin : Nat
  rangeEnd : Nat
deriving DecidableEq

/-- `Allocation::sizeElements()`. -/
def Allocation.sizeElements (allocation : Allocation) : Nat :=
  allocation.rangeEnd - allocation.rangeBegin

def Allocation.range (allocation : Allocation) : Range where
  first := allocation.rangeBegin
  last := allocation.rangeEnd

/-- One allocation for each substream; `none` is one that is not valid. -/
abbrev Substreams := List (Option Allocation)

/-- `MeshStreamer::MeshSubstreamAdd`, without the data that is only handed on. -/
structure MeshSubstreamAdd where
  numElements : Nat := 0
  elementSize : Nat := 0
deriving DecidableEq

/-- `MeshStreamer::MeshAdd`. -/
structure MeshAdd where
  version : Int
  substreams : Vector MeshSubstreamAdd maxMeshSubstreams

/-- `MeshStreamer::MeshSubstreamInfo`; the handle stands for the address as well. -/
structure MeshSubstreamInfo where
  vkBuffer : Nat
  firstElement : Nat
  numElements : Nat
  elementSize : Nat
deriving DecidableEq

/-- `MeshStreamer::MeshInfo`. -/
structure MeshInfo where
  readyVersion : Int := -1
  pendingVersion : Int := -1
  substreams : List (Option MeshSubstreamInfo) := List.replicate maxMeshSubstreams none
deriving DecidableEq

/-- `MeshStreamer::KeyInfo`; a transfer is named by the number it was started as. -/
structure KeyInfo where
  lastAccessTick : FrameTickId := FrameTickId.invalid
  readyVersion : Int := -1
  readySubstreamAllocations : Substreams := List.replicate maxMeshSubstreams none
  pendingTransfer : Option Nat := none

/-- `MeshStreamer::Transfer`. -/
structure Transfer where
  number : Nat
  key : UID
  startedTick : FrameTickId
  version : Int
  substreamAllocations : Substreams

/-- `MeshStreamer::Pool`; the handle stands for its memory as well.  `usedIn` is only recorded:
the ticks with a command or an answer that names the pool. -/
structure Pool where
  vkHandle : Nat
  lastAllocationTick : FrameTickId
  lastAccessTick : FrameTickId
  allocatedElements : Nat := 0
  freedElements : Nat := 0
  elementSize : Nat := 0
  isExhausted : Bool := false
  needsDefragmentation : Bool := false
  usedIn : List FrameTickId := []

/-- A pool that is reset, given another element size or destroyed: the ranges that are held in
it at that moment, the ticks that used it, and the latest tick known to be complete. -/
structure Turnover where
  live : List Range
  usedIn : List FrameTickId
  completed : FrameTickId

/-- The current tick, the latest tick known to be complete, and all allocations that are held.
Only the first is a member of the streamer. -/
structure Moment where
  tick : FrameTickId
  completed : FrameTickId
  held : List Allocation

/-- The ranges held in one pool. -/
def liveRanges (held : List Allocation) (vkHandle : Nat) : List Range :=
  (held.filter fun allocation => allocation.pool = vkHandle).map Allocation.range

def Moment.turnover (now : Moment) (pool : Pool) : Turnover where
  live := liveRanges now.held pool.vkHandle
  usedIn := pool.usedIn
  completed := now.completed

/-- The moment when the allocations of a transfer that is being built are held, too. -/
def Moment.holding (now : Moment) (done : Substreams) : Moment :=
  { now with held := done.reduceOption ++ now.held }

/-- `m_pools`, with the handle of the next pool and the number of calls made that can throw.
Turnovers and divisors are only recorded. -/
structure Memory where
  pools : List Pool := []
  nextHandle : Nat := 0
  calls : Nat := 0
  turnovers : List Turnover := []
  divisors : List Nat := []

/-! ## Allocation -/

/-- `allocate` at a pool that serves this element size. -/
def Pool.cut (tick : FrameTickId) (numElements elementSize : Nat) (pool : Pool) :
    Pool × Option Allocation :=
  if (pool.allocatedElements + numElements) % 2 ^ 32 * elementSize % 2 ^ 32 ≤ poolSizeBytes then
    ({ pool with
        lastAllocationTick := tick
        lastAccessTick := tick
        allocatedElements := (pool.allocatedElements + numElements) % 2 ^ 32 },
      some {
        pool := pool.vkHandle
        rangeBegin := pool.allocatedElements
        rangeEnd := (pool.allocatedElements + numElements) % 2 ^ 32 })
  else ({ pool with isExhausted := true }, none)

/-- The body of the loop of `allocate`. -/
def Pool.serve (now : Moment) (numElements elementSize : Nat) (pool : Pool) :
    Pool × List Turnover × Option Allocation :=
  if pool.needsDefragmentation then (pool, [], none)
  else if pool.elementSize = 0 then
    -- the element size is a field of 16 bits
    let cut := Pool.cut now.tick numElements elementSize
      { pool with elementSize := elementSize % 2 ^ 16 }
    (cut.1, [now.turnover pool], cut.2)
  else if pool.elementSize ≠ elementSize then (pool, [], none)
  else
    let cut := pool.cut now.tick numElements elementSize
    (cut.1, [], cut.2)

/-- The loop of `allocate`. -/
def searchPools (now : Moment) (numElements elementSize : Nat) :
    List Pool → List Pool × List Turnover × Option Allocation
  | [] => ([], [], none)
  | pool :: rest =>
    match pool.serve now numElements elementSize with
    | (pool, turnovers, some allocation) => (pool :: rest, turnovers, some allocation)
    | (pool, turnovers, none) =>
      let searched := searchPools now numElements elementSize rest
      (pool :: searched.1, turnovers ++ searched.2.1, searched.2.2)

/-- `allocate(num_elements, element_size)`; no allocation when the creation of a pool throws. -/
def Memory.allocate (throws : Nat → Bool) (now : Moment) (numElements elementSize : Nat)
    (memory : Memory) : Memory × Option Allocation :=
  let searched := searchPools now numElements elementSize memory.pools
  let memory := { memory with
    pools := searched.1
    turnovers := memory.turnovers ++ searched.2.1 }
  match searched.2.2 with
  | some allocation => (memory, some allocation)
  | none =>
    if throws memory.calls then ({ memory with calls := memory.calls + 1 }, none)
    else
      ({ memory with
          pools := memory.pools ++ [{
            vkHandle := memory.nextHandle
            lastAllocationTick := now.tick
            lastAccessTick := now.tick
            allocatedElements := numElements
            elementSize := elementSize % 2 ^ 16 }]
          nextHandle := memory.nextHandle + 1
          calls := memory.calls + 1 },
        some { pool := memory.nextHandle, rangeBegin := 0, rangeEnd := numElements })

/-- What is done to the pool an allocation or an answer points to. -/
def atPool (vkHandle : Nat) (change : Pool → Pool) (pools : List Pool) : List Pool :=
  pools.map fun pool => if pool.vkHandle = vkHandle then change pool else pool

/-- `deallocate(alloc)`; its caller has no allocation there afterwards. -/
def deallocate (pools : List Pool) : Option Allocation → List Pool
  | none => pools
  | some allocation => atPool allocation.pool (fun pool =>
    { pool with
      freedElements := (pool.freedElements + allocation.sizeElements) % 2 ^ 32 }) pools

/-- `deallocate(allocs)`. -/
def Memory.deallocate (memory : Memory) (allocs : Substreams) : Memory :=
  { memory with pools := allocs.foldl MeshStreamer.deallocate memory.pools }

/-- The pool is accessed by the GPU in this tick. -/
def Memory.access (memory : Memory) (tick : FrameTickId) (vkHandle : Nat) : Memory :=
  { memory with
    pools := atPool vkHandle (fun pool => { pool with lastAccessTick := tick }) memory.pools }

/-- Record that a command or an answer of this tick names the pool. -/
def Memory.use (memory : Memory) (tick : FrameTickId) (vkHandle : Nat) : Memory :=
  { memory with
    pools := atPool vkHandle (fun pool => { pool with usedIn := tick :: pool.usedIn })
      memory.pools }

/-- The field `element_size` of a pool. -/
def elementSizeOf (pools : List Pool) (vkHandle : Nat) : Nat :=
  ((pools.find? fun pool => pool.vkHandle = vkHandle).map Pool.elementSize).getD 0

/-- The field `needs_defragmentation` of a pool. -/
def needsDefragmentation (pools : List Pool) (vkHandle : Nat) : Bool :=
  ((pools.find? fun pool => pool.vkHandle = vkHandle).map Pool.needsDefragmentation).getD false

/-! ## Transfers -/

/-- One substream of a transfer: an allocation, and the DMA command that fills it, from `source`
if that is a pool.  When one of them throws, what the transfer has got is given back. -/
def Memory.transferSubstream (throws : Nat → Bool) (now : Moment) (done : Substreams)
    (source : Option Nat) (numElements elementSize : Nat) (memory : Memory) :
    Memory × Option Substreams :=
  match memory.allocate throws (now.holding done) numElements elementSize with
  | (memory, none) => (memory.deallocate done, none)
  | (memory, some allocation) =>
    let memory := (source.toList ++ [allocation.pool]).foldl
      (fun memory vkHandle => memory.use now.tick vkHandle) memory
    let threw := throws memory.calls
    let memory := { memory with calls := memory.calls + 1 }
    if threw then (memory.deallocate (done ++ [some allocation]), none)
    else (memory, some (done ++ [some allocation]))

/-- The loop of `transferUpload`. -/
def Memory.uploadSubstreams (throws : Nat → Bool) (now : Moment) :
    List MeshSubstreamAdd → Substreams → Memory → Memory × Option Substreams
  | [], done, memory => (memory, some done)
  | substream :: rest, done, memory =>
    if substream.numElements = 0 then
      memory.uploadSubstreams throws now rest (done ++ [none])
    else
      match memory.transferSubstream throws now done none substream.numElements
        substream.elementSize with
      | (memory, none) => (memory, none)
      | (memory, some done) => memory.uploadSubstreams throws now rest done

/-- The loop of `transferDefragment`. -/
def Memory.copySubstreams (throws : Nat → Bool) (now : Moment) :
    Substreams → Substreams → Memory → Memory × Option Substreams
  | [], done, memory => (memory, some done)
  | none :: rest, done, memory => memory.copySubstreams throws now rest (done ++ [none])
  | some source :: rest, done, memory =>
    -- the source pool must not get freed in the middle of the transfer
    let memory := memory.access now.tick source.pool
    match memory.transferSubstream throws now done (some source.pool) source.sizeElements
      (elementSizeOf memory.pools source.pool) with
    | (memory, none) => (memory, none)
    | (memory, some done) => memory.copySubstreams throws now rest done

/-! ## The streamer -/

/-- The entry of a key in a map. -/
def lookup (map : List (UID × KeyInfo)) (key : UID) : Option KeyInfo :=
  (map.find? fun entry => entry.1 = key).map Prod.snd

def erase (map : List (UID × KeyInfo)) (key : UID) : List (UID × KeyInfo) :=
  map.eraseP fun entry => entry.1 = key

def assign (map : List (UID × KeyInfo)) (key : UID) (info : KeyInfo) : List (UID × KeyInfo) :=
  (key, info) :: erase map key

/-- The members of the streamer.  `nextTransfer` numbers the transfers; `completed` is only
recorded. -/
structure State where
  currentTickId : FrameTickId := FrameTickId.invalid
  keyInfoMap : List (UID × KeyInfo) := []
  memory : Memory := {}
  transfers : List Transfer := []
  lruVisitOrder : LruVisitOrdering UID := []
  nextTransfer : Nat := 0
  completed : FrameTickId := FrameTickId.invalid

/-- The allocations of the keys. -/
def readyAllocations (map : List (UID × KeyInfo)) : List Allocation :=
  map.flatMap fun entry => entry.2.readySubstreamAllocations.reduceOption

/-- The allocations of the transfers. -/
def pendingAllocations (transfers : List Transfer) : List Allocation :=
  transfers.flatMap fun transfer => transfer.substreamAllocations.reduceOption

def State.held (state : State) : List Allocation :=
  readyAllocations state.keyInfoMap ++ pendingAllocations state.transfers

def State.now (state : State) : Moment where
  tick := state.currentTickId
  completed := state.completed
  held := state.held

/-- The end of `transferUpload` and `transferDefragment`; without allocations the transfer is
taken out again. -/
def State.startTransfer (state : State) (key : UID) (version : Int)
    (built : Memory × Option Substreams) : State × Option Nat :=
  let state := { state with memory := built.1, nextTransfer := state.nextTransfer + 1 }
  match built.2 with
  | none => (state, none)
  | some allocations =>
    ({ state with
        transfers := state.transfers ++ [{
          number := state.nextTransfer
          key := key
          startedTick := state.currentTickId
          version := version
          substreamAllocations := allocations }] },
      some state.nextTransfer)

/-- `transferUpload(key, mesh_add)`. -/
def State.transferUpload (throws : Nat → Bool) (state : State) (key : UID) (meshAdd : MeshAdd) :
    State × Option Nat :=
  state.startTransfer key meshAdd.version
    (state.memory.uploadSubstreams throws state.now meshAdd.substreams.toList [])

/-- `transferDefragment(key, info)`. -/
def State.transferDefragment (throws : Nat → Bool) (state : State) (key : UID) (info : KeyInfo) :
    State × Option Nat :=
  state.startTransfer key info.readyVersion
    (state.memory.copySubstreams throws state.now info.readySubstreamAllocations [])

/-- `addMesh(key, mesh_add)`, without its assertions. -/
def State.addMesh (throws : Nat → Bool) (state : State) (key : UID) (meshAdd : MeshAdd) : State :=
  let info := (lookup state.keyInfoMap key).getD {}
  let lruVisitOrder :=
    if info.lastAccessTick < 0 then
      state.lruVisitOrder.addKey key (state.currentTickId + staleKeyAgeThreshold)
    else state.lruVisitOrder
  let info := { info with lastAccessTick := state.currentTickId }
  let state := { state with
    lruVisitOrder := lruVisitOrder
    keyInfoMap := assign state.keyInfoMap key info }
  match state.transferUpload throws key meshAdd with
  | (state, none) => state
  | (state, some transfer) =>
    { state with
      keyInfoMap := assign state.keyInfoMap key { info with pendingTransfer := some transfer } }

/-- What `queryMesh` answers about a substream. -/
def MeshSubstreamInfo.ofAllocation (pools : List Pool) (allocation : Allocation) :
    MeshSubstreamInfo where
  vkBuffer := allocation.pool
  firstElement := allocation.rangeBegin
  numElements := allocation.sizeElements
  elementSize := elementSizeOf pools allocation.pool

/-- `queryMesh(key, mesh_info)`; no answer if the key is not known. -/
def State.queryMesh (state : State) (key : UID) : State × Option MeshInfo :=
  match lookup state.keyInfoMap key with
  | none => (state, none)
  | some info =>
    let state := { state with
      keyInfoMap :=
        assign state.keyInfoMap key { info with lastAccessTick := state.currentTickId } }
    let ready := decide (0 ≤ info.readyVersion)
    let memory :=
      if ready then
        info.readySubstreamAllocations.reduceOption.foldl (fun memory allocation =>
          (memory.access state.currentTickId allocation.pool).use state.currentTickId
            allocation.pool) state.memory
      else state.memory
    let pending := info.pendingTransfer.bind fun number =>
      state.transfers.find? fun transfer => transfer.number = number
    ({ state with memory := memory },
      some {
        readyVersion := if ready then info.readyVersion else -1
        pendingVersion := (pending.map Transfer.version).getD (-1)
        substreams :=
          if ready then
            info.readySubstreamAllocations.map fun allocation =>
              allocation.map (MeshSubstreamInfo.ofAllocation memory.pools)
          else List.replicate maxMeshSubstreams none })

/-! ## Frame ticks -/

/-- The transfer at the front is complete. -/
def State.completeTransfer (state : State) (transfer : Transfer) : State :=
  match lookup state.keyInfoMap transfer.key with
  | some info =>
    { state with
      memory := state.memory.deallocate info.readySubstreamAllocations
      keyInfoMap := assign state.keyInfoMap transfer.key { info with
        readyVersion := transfer.version
        readySubstreamAllocations := transfer.substreamAllocations
        -- another transfer may have been enqueued after this one
        pendingTransfer :=
          if info.pendingTransfer = some transfer.number then none else info.pendingTransfer }
      transfers := state.transfers.tail }
  | none =>
    { state with
      memory := state.memory.deallocate transfer.substreamAllocations
      transfers := state.transfers.tail }

/-- First loop of `onFrameTickBegin`, over `m_transfers`. -/
def State.completeTransfers (completedTick : FrameTickId) : List Transfer → State → State
  | [], state => state
  | transfer :: rest, state =>
    if completedTick < transfer.startedTick then state
    else State.completeTransfers completedTick rest (state.completeTransfer transfer)

/-- The callback of `visitOldest` in `onFrameTickBegin`. -/
def State.visitKey (throws : Nat → Bool) (completedTick : FrameTickId) (state : State)
    (key : UID) : State × Option FrameTickId :=
  match lookup state.keyInfoMap key with
  | none => (state, some FrameTickId.invalid)
  | some info =>
    if info.lastAccessTick + staleKeyAgeThreshold ≤ completedTick then
      ({ state with
          memory := state.memory.deallocate info.readySubstreamAllocations
          keyInfoMap := erase state.keyInfoMap key },
        some FrameTickId.invalid)
    else if 0 ≤ info.readyVersion ∧ info.pendingTransfer = none ∧
        ∃ allocation ∈ info.readySubstreamAllocations.reduceOption,
          needsDefragmentation state.memory.pools allocation.pool = true then
      match state.transferDefragment throws key info with
      | (state, none) => (state, none)
      | (state, some transfer) =>
        ({ state with
            keyInfoMap := assign state.keyInfoMap key
              { info with pendingTransfer := some transfer } },
          some (info.lastAccessTick + staleKeyAgeThreshold))
    else (state, some (info.lastAccessTick + staleKeyAgeThreshold))

/-- Everything in the pool is freed and no longer accessed. -/
def Pool.unused (completedTick : FrameTickId) (pool : Pool) : Bool :=
  decide (0 < pool.allocatedElements) && decide (pool.allocatedElements = pool.freedElements) &&
    decide (pool.lastAccessTick ≤ completedTick)

/-- Reset an unused pool. -/
def Pool.reset (completedTick : FrameTickId) (pool : Pool) : Pool :=
  if pool.unused completedTick then
    { pool with
      allocatedElements := 0
      freedElements := 0
      isExhausted := false
      needsDefragmentation := false
      elementSize := 0 }
  else pool

/-- Flag a pool that wastes too much space.  Both numbers fit the mantissa of a `float`, so that
`free_ratio` is above a quarter just when four times the free space is more than all of it. -/
def Pool.flag (pool : Pool) : Pool :=
  if pool.isExhausted then
    let totalSpace := poolSizeBytes / pool.elementSize
    let freeSpace :=
      (totalSpace + (2 ^ 32 - pool.allocatedElements) + pool.freedElements) % 2 ^ 32
    if totalSpace < 4 * freeSpace then { pool with needsDefragmentation := true } else pool
  else pool

/-- Nothing is allocated for a long time. -/
def Pool.stale (completedTick : FrameTickId) (pool : Pool) : Bool :=
  decide (pool.allocatedElements = 0) &&
    decide (pool.lastAllocationTick + stalePoolAgeThreshold ≤ completedTick)

/-- Last loop of `onFrameTickBegin`, over `m_pools`, with the turnovers and divisors on the
way. -/
def sweepPools (now : Moment) (completedTick : FrameTickId) :
    List Pool → List Pool × List Turnover × List Nat
  | [] => ([], [], [])
  | pool :: rest =>
    let emptied := if pool.unused completedTick then [now.turnover pool] else []
    let pool := pool.reset completedTick
    let divided := if pool.isExhausted then [pool.elementSize] else []
    let pool := pool.flag
    let destroyed := if pool.stale completedTick then [now.turnover pool] else []
    let swept := sweepPools now completedTick rest
    (if pool.stale completedTick then swept.1 else pool :: swept.1,
      emptied ++ destroyed ++ swept.2.1, divided ++ swept.2.2)

/-- The sweep over `m_pools`. -/
def State.sweep (completedTick : FrameTickId) (state : State) : State :=
  let swept := sweepPools state.now completedTick state.memory.pools
  { state with
    memory := { state.memory with
      pools := swept.1
      turnovers := state.memory.turnovers ++ swept.2.1
      divisors := state.memory.divisors ++ swept.2.2 } }

/-- `onFrameTickBegin(completed_tick, new_tick)`; when a move to other pools throws, the pools
are not swept. -/
def State.onFrameTickBegin (throws : Nat → Bool) (state : State)
    (completedTick newTick : FrameTickId) : State :=
  let state := { state with
    currentTickId := newTick
    completed := max state.completed completedTick }
  let state := state.completeTransfers completedTick state.transfers
  let visited := state.lruVisitOrder.visitOldest (State.visitKey throws completedTick)
    completedTick keyCleanupStepsPerTick state
  let state := { visited.2.1 with lruVisitOrder := visited.1 }
  if visited.2.2 then state.sweep completedTick else state

/-- What is called from outside; the end of a tick does nothing. -/
inductive Action where
  | addMesh (key : UID) (meshAdd : MeshAdd)
  | queryMesh (key : UID)
  | onFrameTickBegin (completedTick newTick : FrameTickId)

/-- One call. -/
def step (throws : Nat → Bool) (state : State) : Action → Option State
  | .addMesh key meshAdd => some (state.addMesh throws key meshAdd)
  | .queryMesh key => some (state.queryMesh key).1
  | .onFrameTickBegin completedTick newTick =>
    some (state.onFrameTickBegin throws completedTick newTick)

/-- What the streamer may be given for a substream. -/
def MeshSubstreamAdd.Fits (substream : MeshSubstreamAdd) : Prop :=
  1 ≤ substream.elementSize ∧ substream.elementSize ≤ maxElementSize ∧
    substream.numElements * substream.elementSize ≤ poolSizeBytes

instance (substream : MeshSubstreamAdd) : Decidable substream.Fits :=
  inferInstanceAs (Decidable (_ ∧ _))

/-- Meshes come after the first tick, and ticks increase. -/
def Admissible (state : State) : Action → Prop
  | .addMesh _ meshAdd => FrameTickId.valid state.currentTickId = true ∧
      ∀ substream ∈ meshAdd.substreams.toList, substream.numElements ≠ 0 → substream.Fits
  | .queryMesh _ => FrameTickId.valid state.currentTickId = true
  | .onFrameTickBegin completedTick newTick =>
    state.currentTickId < newTick ∧ completedTick < newTick

instance (state : State) : ∀ action, Decidable (Admissible state action)
  | .addMesh _ _ => inferInstanceAs (Decidable (_ ∧ _))
  | .queryMesh _ => inferInstanceAs (Decidable (_ = true))
  | .onFrameTickBegin _ _ => inferInstanceAs (Decidable (_ ∧ _))

end MeshStreamer

end Voxen.Gfx
