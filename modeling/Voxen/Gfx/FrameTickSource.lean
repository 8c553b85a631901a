import Voxen.Gfx.Device
import Voxen.Lib.Runs

/-!
# Frame tick source

The tick source notes at the end of every tick how far the queues were submitted to.  A
tick is completed once the semaphores of all the queues have counted that far.
-/

namespace Voxen.Gfx

/-- `FrameTickSource::TimelinePack`. -/
structure TimelinePack where
  tickId : FrameTickId
  timelines : Queue → Nat

/-- `allComplete(completed_pack)`. -/
def TimelinePack.allComplete (pack : TimelinePack) (completed : Queue → Nat) : Bool :=
  Queue.all.all fun queue => !(pack.timelines queue > completed queue)

/-- `FrameTickSource`. -/
structure FrameTickSource where
  currentTickId : FrameTickId := 1
  completedTickId : FrameTickId := 0
  /-- `m_pending_timeline_packs`, from new to old. -/
  pendingTimelinePacks : List TimelinePack := []

namespace FrameTickSource

/-- The loop popping completed packs, the oldest first, with the completed tick so far. -/
def popCompleted (completed : Queue → Nat) :
    FrameTickId → List TimelinePack → FrameTickId × List TimelinePack
  | completedTickId, [] => (completedTickId, [])
  | completedTickId, pack :: newer =>
    if pack.allComplete completed then popCompleted completed pack.tickId newer
    else (completedTickId, pack :: newer)

/-- `startNextTick(gfx)`, for the timelines submitted and completed at that time. -/
def startNextTick (source : FrameTickSource) (submitted completed : Queue → Nat) :
    FrameTickSource :=
  let currentTickPack := { tickId := source.currentTickId, timelines := submitted }
  let popped := popCompleted completed source.completedTickId source.pendingTimelinePacks.reverse
  let pending := popped.2.reverse
  if !currentTickPack.allComplete completed then
    { currentTickId := source.currentTickId + 1
      completedTickId := popped.1
      pendingTimelinePacks := currentTickPack :: pending }
  else
    { currentTickId := source.currentTickId + 1
      completedTickId := source.currentTickId
      pendingTimelinePacks := pending }

/-- The search for a tick in the pending packs, from the oldest on: the packs from the one found
to the newest. -/
def searchTick (tickId : FrameTickId) : List TimelinePack → List TimelinePack
  | [] => []
  | pack :: newer => if pack.tickId = tickId then pack :: newer else searchTick tickId newer

end FrameTickSource

namespace FrameTicks

/-- A submission, with the tick it was made in and its timeline value. -/
structure Submission where
  tickId : FrameTickId
  queue : Queue
  timeline : Nat
deriving DecidableEq

structure State where
  device : Device := {}
  source : FrameTickSource := {}
  /-- The values the semaphores of the queues have counted to. -/
  counters : Queue → Nat := fun _ => 0
  submissions : List Submission := []

inductive Action where
  /-- `submitCommands`; the submission fails unless `succeeds`. -/
  | submitCommands (queue : Queue) (succeeds : Bool)
  /-- `startNextTick(gfx)`; the semaphores are read one after another while they count on, so
  the values `observed` may be behind at its end. -/
  | startNextTick (observed : Queue → Nat)
  /-- `waitTickCompletion(tick_id)`, from the call to its return. -/
  | waitTickCompletion (tickId : FrameTickId)
  /-- The GPU completes the next submission to a queue. -/
  | complete (queue : Queue)

/-- What `waitTickCompletion` comes to. -/
inductive Wait where
  /-- It has returned. -/
  | returns (device : Device) (source : FrameTickSource)
  /-- It blocks until the GPU has come further. -/
  | blocks
  /-- The tick is not submitted yet, a fatal error. -/
  | bugFound
  /-- The assertion fails. -/
  | asserts

/-- Wait for the timelines of a pack that was found.  The erasure starts behind the pack, so only
the older ones are gone afterwards. -/
def State.waitForPack (state : State) (pack : TimelinePack) (newer : List TimelinePack)
    (tickId : FrameTickId) : Wait :=
  match state.device.waitForTimelines pack.timelines state.counters with
  | none => .blocks
  | some device => .returns device { state.source with
      pendingTimelinePacks := (pack :: newer).reverse
      completedTickId := tickId }

/-- `waitTickCompletion(tick_id)`. -/
def State.waitTickCompletion (state : State) (tickId : FrameTickId) : Wait :=
  let source := state.source
  if tickId ≤ source.completedTickId then .returns state.device source
  else if tickId ≥ source.currentTickId then .bugFound
  else
    match FrameTickSource.searchTick tickId source.pendingTimelinePacks.reverse with
    | [] => .asserts
    | pack :: newer => state.waitForPack pack newer tickId

/-- `getCompletedTimeline` of all the queues. -/
def readTimelines (device : Device) (observed : Queue → Nat) : Device :=
  Queue.all.foldl (fun device queue => (device.getCompletedTimeline queue (observed queue)).1)
    device

/-- The values may have been read from the semaphores up to now. -/
def State.mayObserve (state : State) (observed : Queue → Nat) : Bool :=
  Queue.all.all fun queue =>
    state.device.lastCompletedTimelines queue ≤ observed queue &&
      observed queue ≤ state.counters queue

def step (state : State) : Action → Option State
  | .submitCommands queue succeeds =>
    if succeeds then
      let submitted := state.device.submitCommands queue
      some { state with
        device := submitted.1
        submissions := { tickId := state.source.currentTickId, queue := queue,
                         timeline := submitted.2 } :: state.submissions }
    else some state
  | .startNextTick observed =>
    if state.mayObserve observed then
      some { state with
        device := readTimelines state.device observed
        source := state.source.startNextTick state.device.lastSubmittedTimelines observed }
    else none
  | .waitTickCompletion tickId =>
    match state.waitTickCompletion tickId with
    | .returns device source => some { state with device, source }
    | _ => none
  | .complete queue =>
    if state.counters queue < state.device.lastSubmittedTimelines queue then
      some { state with
        counters := Function.update state.counters queue (state.counters queue + 1) }
    else none

/-- Take the actions one after another from a new device and a new tick source. -/
def run (actions : List Action) : Option State := Runs.run step {} actions

end FrameTicks

end Voxen.Gfx
