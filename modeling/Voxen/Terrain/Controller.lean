import Voxen.Lib.Outcome
import Voxen.Lib.Runs
import Voxen.Terrain.ControlBlock
import Voxen.Terrain.TerrainLoader

/-!
# Terrain controller

The controller keeps superchunks loaded around the points of interest, and splits and
merges their chunks as the levels of detail demand.  A tick walks over all the control
blocks and returns the active chunks.
-/

namespace Voxen.Terrain

open Land (ChunkKey IVec3)

/-- `Controller::ParentCommand`. -/
inductive ParentCommand where
  | nothing
  | becomeActive
  | becomeStandby
  | unload
deriving DecidableEq

/-- What a tick meets: the values of `calcLodDirection` one after another, the loads that get on
before each visit of a block, and the order of the map of superchunks. -/
structure TickEnv where
  lodDirections : Nat → Nat
  workers : Nat → List ChunkPtr := fun _ => []
  order : List IVec3 := []

variable {Position Primary Surface : Type}

/-- The members of the controller that the walk over the control blocks uses. -/
structure Walk (Primary Surface : Type) where
  loader : TerrainLoader Primary Surface
  asyncChunkLoads : ChunkKey → Option ChunkPtr := fun _ => none
  directOpQuota : Nat := 0
  /-- Number of visits in the tick. -/
  visits : Nat := 0
  /-- Number of calls of `calcLodDirection` in the tick. -/
  calls : Nat := 0
  /-- The loads that were enqueued, and whether one of the same id was running. -/
  enqueued : List (ChunkKey × Bool) := []

namespace Walk

section

variable (generator : Generator Primary Surface) (env : TickEnv)

/-- The loads that get on before the next visit. -/
def runWorkers (walk : Walk Primary Surface) : Except Fault (Walk Primary Surface) := do
  let loader ← (env.workers walk.visits).foldlM (TerrainLoader.advance generator) walk.loader
  .ok { walk with loader := loader, visits := walk.visits + 1 }

/-- `calcLodDirection(id)`. -/
def calcLodDirection (walk : Walk Primary Surface) : Walk Primary Surface × Nat :=
  ({ walk with calls := walk.calls + 1 }, env.lodDirections walk.calls)

/-- `enqueueLoadingChunk(id)`, with the members of the new block. -/
def enqueueLoadingChunk (walk : Walk Primary Surface) (id : ChunkKey) :
    Except Fault (Walk Primary Surface × BlockInfo) :=
  let (loader, ptr) := walk.loader.allocateChunk generator id
  if (walk.asyncChunkLoads id).isSome then .error .loads
  else .ok
    ({ walk with
        loader := { loader with stages := Function.update loader.stages ptr (some .queued) }
        asyncChunkLoads := Function.update walk.asyncChunkLoads id (some ptr)
        enqueued := (id, walk.loader.hasLoad id) :: walk.enqueued },
      { state := .loading, chunk := ptr })

def unload (walk : Walk Primary Surface) (ptr : ChunkPtr) :
    Except Fault (Walk Primary Surface) := do
  let loader ← walk.loader.unload ptr
  .ok { walk with loader := loader }

end

end Walk

/-! ## Updates of one block -/

/-- A block that has not unloaded itself: its members, the command for its children, and the
children it has got. -/
structure Kept where
  info : BlockInfo
  command : ParentCommand
  created : Fin 8 → Option BlockInfo := fun _ => none

section Update

variable (generator : Generator Primary Surface) (env : TickEnv)

/-- `updateChunkLoading(cb, parent_cmd)`. -/
def updateChunkLoading (info : BlockInfo) (parentCmd : ParentCommand)
    (walk : Walk Primary Surface) : Except Fault (Walk Primary Surface × Option Kept) :=
  if parentCmd ≠ .nothing then .error .state
  else
    match walk.asyncChunkLoads info.chunk.id with
    | none => .error .loads
    | some handle =>
      if walk.loader.stages handle = some .finished then
        .ok ({ walk with
            asyncChunkLoads := Function.update walk.asyncChunkLoads info.chunk.id none },
          some { info := { info with state := .standby }, command := .nothing })
      else .ok (walk, some { info := info, command := .nothing })

/-- The loop over the children of an over-active block: all are active and willing to deteriorate
their level of detail. -/
def canDeteriorate (id : ChunkKey) (children : Fin 8 → ControlBlock) :
    List (Fin 8) → Walk Primary Surface → Except Fault (Walk Primary Surface × Bool)
  | [], walk => .ok (walk, true)
  | i :: is, walk =>
    match children i with
    | .absent => .error .state
    | .node child _ =>
      if child.state ≠ .active then .ok (walk, false)
      else
        let (walk, childLodDir) := walk.calcLodDirection env
        if childLodDir ≤ (id.childLodKey i).scaleLog2.toNat then .ok (walk, false)
        else canDeteriorate id children is walk

/-- `updateChunkStandby(cb, parent_cmd)`; no result where the block unloads itself. -/
def updateChunkStandby (info : BlockInfo) (children : Fin 8 → ControlBlock)
    (parentCmd : ParentCommand) (walk : Walk Primary Surface) :
    Except Fault (Walk Primary Surface × Option Kept) :=
  if info.overActive && walk.directOpQuota < Config.terrainMaxDirectOpCount then
    if parentCmd ≠ .nothing then .error .state
    else
      let (walk, myLodDir) := walk.calcLodDirection env
      if myLodDir < info.chunk.id.scaleLog2.toNat then
        .ok (walk, some { info := info, command := .nothing })
      else do
        let (walk, can) ← canDeteriorate env info.chunk.id children (List.finRange 8) walk
        if can then
          .ok ({ walk with directOpQuota := walk.directOpQuota + 1 },
            some { info := { info with state := .active, overActive := false, chunkChanged := true }
                   command := .becomeStandby })
        else .ok (walk, some { info := info, command := .nothing })
  else if parentCmd = .becomeActive then
    .ok (walk, some { info := { info with state := .active, chunkChanged := true }
                      command := .nothing })
  else if parentCmd ≠ .nothing then .error .state
  else if (List.finRange 8).any fun i => (children i).isPresent then
    .ok (walk, some { info := info, command := .nothing })
  else
    let (walk, myLodDir) := walk.calcLodDirection env
    if myLodDir > info.chunk.id.scaleLog2.toNat + 1 then do
      let walk ← walk.unload info.chunk
      .ok (walk, none)
    else .ok (walk, some { info := info, command := .nothing })

/-- The loop over the children of a block to be split: those that are missing are requested; the
flag says that all are there and loaded. -/
def requestChildren (id : ChunkKey) (children : Fin 8 → ControlBlock) :
    List (Fin 8) → Walk Primary Surface →
      Except Fault (Walk Primary Surface × (Fin 8 → Option BlockInfo) × Bool)
  | [], walk => .ok (walk, fun _ => none, true)
  | i :: is, walk =>
    match children i with
    | .absent => do
        let (walk, new) ← walk.enqueueLoadingChunk generator (id.childLodKey i)
        let (walk, created, _) ← requestChildren id children is walk
        .ok (walk, Function.update created i (some new), false)
    | .node child _ => do
        let (walk, created, canImprove) ← requestChildren id children is walk
        .ok (walk, created, child.state != .loading && canImprove)

/-- `updateChunkActive(cb, parent_cmd)`. -/
def updateChunkActive (info : BlockInfo) (children : Fin 8 → ControlBlock)
    (parentCmd : ParentCommand) (walk : Walk Primary Surface) :
    Except Fault (Walk Primary Surface × Option Kept) :=
  if parentCmd = .becomeStandby then
    .ok (walk, some { info := { info with state := .standby }, command := .nothing })
  else if parentCmd ≠ .nothing then .error .state
  else
    let (walk, myLodDir) := walk.calcLodDirection env
    if myLodDir < info.chunk.id.scaleLog2.toNat &&
        walk.directOpQuota + 8 ≤ Config.terrainMaxDirectOpCount then do
      let (walk, created, canImprove) ←
        requestChildren generator info.chunk.id children (List.finRange 8) walk
      if canImprove then
        .ok ({ walk with directOpQuota := walk.directOpQuota + 8 },
          some { info := { info with state := .standby, overActive := true }
                 command := .becomeActive, created := created })
      else .ok (walk, some { info := info, command := .nothing, created := created })
    else .ok (walk, some { info := info, command := .nothing })

/-- The switch of `updateChunk`. -/
def updateSelf (info : BlockInfo) (children : Fin 8 → ControlBlock) (parentCmd : ParentCommand)
    (walk : Walk Primary Surface) : Except Fault (Walk Primary Surface × Option Kept) :=
  match info.state with
  | .loading => updateChunkLoading info parentCmd walk
  | .standby => updateChunkStandby env info children parentCmd walk
  | .active => updateChunkActive generator env info children parentCmd walk

/-- The loop over the children; those that unload themselves are absent afterwards. -/
def updateChildren
    (update : Fin 8 → Walk Primary Surface → Except Fault (Walk Primary Surface × ControlBlock)) :
    List (Fin 8) → Walk Primary Surface →
      Except Fault (Walk Primary Surface × (Fin 8 → ControlBlock))
  | [], walk => .ok (walk, fun _ => .absent)
  | i :: is, walk => do
      let (walk, child) ← update i walk
      let (walk, children) ← updateChildren update is walk
      .ok (walk, Function.update children i child)

/-- A block after the update of its children, which hand on that they have changed. -/
def withChildren (info : BlockInfo) (children : Fin 8 → ControlBlock) : ControlBlock :=
  .node { info with
    chunkChanged :=
      info.chunkChanged || (List.finRange 8).any fun i => (children i).isChunkChanged } children

/-- `updateChunk(cb, parent_cmd)` for a block that was made just now. -/
def updateCreated (info : BlockInfo) (parentCmd : ParentCommand) (walk : Walk Primary Surface) :
    Except Fault (Walk Primary Surface × ControlBlock) := do
  let walk ← walk.runWorkers generator env
  let (walk, kept) ← updateChunkLoading info parentCmd walk
  match kept with
  | none => .ok (walk, .absent)
  | some kept => .ok (walk, .leaf kept.info)

/-- `updateChunk(cb, parent_cmd)`; the block is absent if it was unloaded. -/
def updateChunk : ControlBlock → ParentCommand → Walk Primary Surface →
    Except Fault (Walk Primary Surface × ControlBlock)
  | .absent, _, walk => .ok (walk, .absent)
  | .node info children, parentCmd, walk => do
      let walk ← walk.runWorkers generator env
      if parentCmd = .unload then
        let walk ← walk.unload info.chunk
        let (walk, _) ← updateChildren (fun i => updateChunk (children i) parentCmd)
          (List.finRange 8) walk
        .ok (walk, .absent)
      else
        let (walk, kept) ← updateSelf generator env info children parentCmd walk
        match kept with
        | none => .ok (walk, .absent)
        | some kept =>
          let (walk, children) ← updateChildren (fun i =>
              match kept.created i with
              | some new => updateCreated generator env new kept.command
              | none => updateChunk (children i) kept.command) (List.finRange 8) walk
          .ok (walk, withChildren kept.info children)

end Update

/-! ## Ticks -/

/-- `Controller::PointOfInterest`. -/
structure PointOfInterest (Position : Type) where
  id : Nat
  age : Nat
  position : Position
deriving DecidableEq

/-- `Controller::SuperchunkInfo`; the flag says whether the root has ever become active. -/
structure SuperchunkInfo where
  ptr : ControlBlock
  idleAge : Nat
  everActive : Bool := false

/-- `Controller`, with the lists it has returned that are still held, and the data the chunks on
them had. -/
structure Controller (Position Primary Surface : Type) where
  walk : Walk Primary Surface
  pointsOfInterest : List (PointOfInterest Position) := []
  superchunks : List (IVec3 × SuperchunkInfo) := []
  held : List (List (ChunkPtr × Chunk Primary Surface)) := []

/-- What the controller works with: the data of chunks, and the box of superchunks a position
engages. -/
structure World (Position Primary Surface : Type) extends Generator Primary Surface where
  engageMin : Position → IVec3
  engageMax : Position → IVec3

namespace Controller

variable (world : World Position Primary Surface)

/-- The values of a loop over a coordinate. -/
def coordinates (first last : BitVec 32) : List (BitVec 32) :=
  (List.range (last.toInt - first.toInt + 1).toNat).map fun n => first + BitVec.ofNat 32 n

/-- The bases that the loops of `engageSuperchunks` take for a point. -/
def engagedBases (position : Position) : List IVec3 :=
  let engageMin := world.engageMin position
  let engageMax := world.engageMax position
  (coordinates engageMin.y engageMax.y).flatMap fun y =>
    (coordinates engageMin.x engageMax.x).flatMap fun x =>
      (coordinates engageMin.z engageMax.z).map fun z => { x := x, y := y, z := z }

/-- `garbageCollectPointsOfInterest()`. -/
def garbageCollectPointsOfInterest (points : List (PointOfInterest Position)) :
    List (PointOfInterest Position) :=
  (points.map fun point => { point with age := point.age + 1 }).filter fun point =>
    !(point.age > Config.pointOfInterestMaxAge)

/-- The key of the root of a superchunk. -/
def superchunkKey (base : IVec3) : ChunkKey :=
  ChunkKey.ofBase
    { x := base.x <<< Config.chunkMaxLod
      y := base.y <<< Config.chunkMaxLod
      z := base.z <<< Config.chunkMaxLod } Config.chunkMaxLod

/-- The body of the loops of `engageSuperchunks`. -/
def engageSuperchunk (generator : Generator Primary Surface)
    (engaged : Walk Primary Surface × List (IVec3 × SuperchunkInfo)) (base : IVec3) :
    Except Fault (Walk Primary Surface × List (IVec3 × SuperchunkInfo)) :=
  let (walk, superchunks) := engaged
  if superchunks.any fun entry => entry.1 == base then
    .ok (walk, superchunks.map fun entry =>
      if entry.1 = base then (entry.1, { entry.2 with idleAge := 0 }) else entry)
  else do
    let (walk, root) ← walk.enqueueLoadingChunk generator (superchunkKey base)
    .ok (walk, superchunks ++ [(base, { ptr := .leaf root, idleAge := 0 })])

/-- The superchunks in the order in which the map has them. -/
def inOrder (order : List IVec3) (superchunks : List (IVec3 × SuperchunkInfo)) :
    List (IVec3 × SuperchunkInfo) :=
  if order.isPerm (superchunks.map Prod.fst) then
    order.filterMap fun base => superchunks.find? fun entry => entry.1 == base
  else superchunks

/-- The command for the root of a superchunk. -/
def rootCommand (info : BlockInfo) : ParentCommand :=
  if info.state = .standby && !info.overActive then .becomeActive else .nothing

/-- The walk over the superchunks. -/
def updateSuperchunks (generator : Generator Primary Surface) (env : TickEnv) :
    List (IVec3 × SuperchunkInfo) → Walk Primary Surface →
      Except Fault (Walk Primary Surface × List (IVec3 × SuperchunkInfo))
  | [], walk => .ok (walk, [])
  | (base, superchunk) :: rest, walk =>
    match superchunk.ptr with
    | .absent => .error .state
    | .node info _ => do
        let idleAge := superchunk.idleAge + 1
        if idleAge > Config.superchunkMaxAge then
          let (walk, _) ← updateChunk generator env superchunk.ptr .unload walk
          updateSuperchunks generator env rest walk
        else if (info.overActive || info.state = .active) &&
            !superchunk.ptr.validateState false true then .error .state
        else
          let (walk, ptr) ← updateChunk generator env superchunk.ptr (rootCommand info) walk
          let (walk, rest) ← updateSuperchunks generator env rest walk
          if ptr.isPresent then
            .ok (walk, (base,
              { ptr := ptr, idleAge := idleAge
                everActive := superchunk.everActive || ptr.isActive }) :: rest)
          else .ok (walk, rest)

/-- `hasSurface()` of a chunk. -/
def hasSurface (generator : Generator Primary Surface)
    (loader : TerrainLoader Primary Surface) (ptr : ChunkPtr) : Bool :=
  !generator.hermiteDataEmpty (loader.chunks ptr).primaryData

/-- `doTick()`, with the list it returns. -/
def doTick (env : TickEnv) (controller : Controller Position Primary Surface) :
    Except Fault (Controller Position Primary Surface × List ChunkPtr) := do
  let points := garbageCollectPointsOfInterest controller.pointsOfInterest
  let (walk, superchunks) ← (points.flatMap fun point => engagedBases world point.position).foldlM
    (engageSuperchunk world.toGenerator) (controller.walk, controller.superchunks)
  let (walk, superchunks) ← updateSuperchunks world.toGenerator env
    (inOrder env.order superchunks) { walk with directOpQuota := 0, visits := 0, calls := 0 }
  let result := superchunks.flatMap fun entry =>
    entry.2.ptr.activeChunks (hasSurface world.toGenerator walk.loader)
  .ok ({ controller with
    walk := walk, pointsOfInterest := points, superchunks := superchunks }, result)

/-- `setPointOfInterest(id, position)`. -/
def setPointOfInterest (id : Nat) (position : Position) :
    List (PointOfInterest Position) → List (PointOfInterest Position)
  | [] => [{ id := id, age := 0, position := position }]
  | point :: points =>
    if point.id = id then { point with age := 0, position := position } :: points
    else point :: setPointOfInterest id position points

/-! ## Runs -/

inductive Action (Position : Type) where
  | setPointOfInterest (id : Nat) (position : Position)
  /-- The list that is returned is held. -/
  | doTick (env : TickEnv)
  /-- A load gets on between ticks. -/
  | advance (ptr : ChunkPtr)
  /-- A holder gives a list up. -/
  | release (index : Nat)

/-- The list of a tick, with the data that the chunks have. -/
def snapshot (loader : TerrainLoader Primary Surface) (result : List ChunkPtr) :
    List (ChunkPtr × Chunk Primary Surface) :=
  result.map fun ptr => (ptr, loader.chunks ptr)

/-- The chunks that cache hits take the data from are those of one action. -/
def forgetTaken (controller : Controller Position Primary Surface) :
    Controller Position Primary Surface :=
  { controller with
    walk := { controller.walk with loader := { controller.walk.loader with taken := [] } } }

def step (controller : Controller Position Primary Surface) (action : Action Position) :
    Except Fault (Controller Position Primary Surface) :=
  let controller := controller.forgetTaken
  match action with
  | .setPointOfInterest id position =>
    .ok { controller with
      pointsOfInterest := setPointOfInterest id position controller.pointsOfInterest }
  | .doTick env => do
      let (controller, result) ← doTick world env controller
      .ok { controller with held := snapshot controller.walk.loader result :: controller.held }
  | .advance ptr => do
      let loader ← controller.walk.loader.advance world.toGenerator ptr
      .ok { controller with walk := { controller.walk with loader := loader } }
  | .release index => .ok { controller with held := controller.held.eraseIdx index }

/-- A new controller; there is no chunk object that its pointers lead to. -/
def new : Controller Position Primary Surface where
  walk :=
    { loader :=
        { chunks := fun _ =>
            { version := 0
              primaryData := world.noPrimaryData
              surface := world.noSurface } } }

/-- Take the actions one after another; `none` if an assertion fails. -/
def run (actions : List (Action Position)) : Option (Controller Position Primary Surface) :=
  Runs.run (fun controller action => (step world controller action).toOption) (new world) actions

end Controller

end Voxen.Terrain
