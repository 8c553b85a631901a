import Voxen.Gfx.Device
import Voxen.Lib.Runs

/-!
# Command allocator

Command buffers are handed out from a ring of pool sets, one set for a tick.  When a tick
comes to a set again, it waits for the tick that used the set last and resets its pools.  A
pool with many unused buffers is replaced, and the old one goes to the destroy queue.
-/

namespace Voxen.Gfx

/-- `POOL_MAX_EXCESS_CMDBUFS`. -/
def poolMaxExcessCmdbufs : Nat := 3

/-- Number of a queue. -/
def Queue.index : Queue → Nat
  | .main => 0
  | .dma => 1
  | .compute => 2

/-- `CommandAllocator`; the arrays are functions of the set and the queue. -/
structure CommandAllocator where
  commandBuffers : Nat → Queue → List Nat := fun _ _ => []
  commandPools : Nat → Queue → Nat
  tickIds : Nat → FrameTickId := fun _ => 0
  currentSet : Nat := 0
  cmdBufferIndex : Queue → Nat := fun _ => 0

namespace CommandAllocator

/-- Replace what an array of sets and queues has at one place. -/
def setAt {α : Type} (array : Nat → Queue → α) (set : Nat) (queue : Queue) (value : α) :
    Nat → Queue → α :=
  Function.update array set (Function.update (array set) queue value)

/-- A buffer that was handed out, with the tick it was handed out in. -/
structure Handed where
  tickId : FrameTickId
  buffer : Nat
deriving DecidableEq

inductive Phase where
  /-- No tick has begun. -/
  | notStarted
  /-- Between the begin and the end of a tick. -/
  | inFrame
  | betweenFrames
deriving DecidableEq

structure State where
  device : Device := {}
  /-- The constructor has created a pool for every set and queue. -/
  allocator : CommandAllocator := { commandPools := fun set queue => 3 * set + queue.index }
  /-- The name of the next Vulkan object that is created. -/
  nextObject : Nat := 3 * Consts.maxPendingFrames
  /-- The pools the allocator has created. -/
  ownPools : List Nat := List.range (3 * Consts.maxPendingFrames)
  /-- The pool every command buffer was allocated from. -/
  poolOf : Nat → Nat := fun _ => 0
  phase : Phase := .notStarted
  handed : List Handed := []
  /-- All that was put into the destroy queue, and all that was destroyed, in order. -/
  enqueued : List (JunkItem × FrameTickId) := []
  destroyed : List (JunkItem × FrameTickId) := []
  /-- The last tick that was reported completed or waited for. -/
  finishedTick : FrameTickId := FrameTickId.invalid

inductive Action where
  | frameTickBegin (completedTick newTick : FrameTickId)
  | allocate (queue : Queue)
  /-- Another component creates an object. -/
  | createObject
  /-- Another component gives an object up. -/
  | enqueueDestroy (item : JunkItem)
  | frameTickEnd
  | forceCompletion

/-- `enqueueDestroy(item)`. -/
def State.enqueueDestroy (state : State) (item : JunkItem) : State :=
  { state with
    device := state.device.enqueueJunkItem item
    enqueued := state.enqueued ++ [(item, state.device.currentTickId)] }

/-- `CommandAllocator::allocate(queue)`. -/
def State.allocate (state : State) (queue : Queue) : State :=
  let allocator := state.allocator
  let cmdBuffers := allocator.commandBuffers allocator.currentSet queue
  match cmdBuffers[allocator.cmdBufferIndex queue]? with
  | some buffer =>
    { state with
      allocator := { allocator with
        cmdBufferIndex := Function.update allocator.cmdBufferIndex queue
          (allocator.cmdBufferIndex queue + 1) }
      handed := { tickId := state.device.currentTickId, buffer := buffer } :: state.handed }
  | none =>
    -- `vkAllocateCommandBuffers` from the pool of the set
    let buffer := state.nextObject
    { state with
      allocator := { allocator with
        commandBuffers := setAt allocator.commandBuffers allocator.currentSet queue
          (cmdBuffers ++ [buffer])
        cmdBufferIndex := Function.update allocator.cmdBufferIndex queue
          (cmdBuffers.length + 1) }
      nextObject := state.nextObject + 1
      poolOf := Function.update state.poolOf buffer
        (allocator.commandPools allocator.currentSet queue)
      handed := { tickId := state.device.currentTickId, buffer := buffer } :: state.handed }

/-- The set of a tick, its number modulo the size of the ring. -/
def setOf (tick : FrameTickId) : Nat := tick.toNat % Consts.maxPendingFrames

/-- `CommandAllocator::onFrameTickBegin(completed_tick, new_tick)`, which waits for the tick that
used the set last unless it is completed.  Then the pools of the set are reset. -/
def State.onFrameTickBegin (state : State) (completedTick newTick : FrameTickId) : State :=
  let currentSet := setOf newTick
  let oldTick := state.allocator.tickIds currentSet
  let finishedTick := max state.finishedTick completedTick
  { state with
    allocator := { state.allocator with
      currentSet := currentSet
      tickIds := Function.update state.allocator.tickIds currentSet newTick }
    finishedTick := if oldTick > completedTick then max finishedTick oldTick else finishedTick }

/-- `notifyFrameTickBegin(completed_tick, new_tick)`. -/
def State.frameTickBegin (state : State) (completedTick newTick : FrameTickId) : State :=
  let begun := state.device.onFrameTickBegin completedTick newTick
  { state with
    device := begun.1
    destroyed := state.destroyed ++ begun.2
    phase := .inFrame }.onFrameTickBegin completedTick newTick

/-- Body of the loop of `CommandAllocator::onFrameTickEnd`. -/
def State.endQueue (state : State) (queue : Queue) : State :=
  let allocator := state.allocator
  let usedCmdbufs := allocator.cmdBufferIndex queue
  let allocator := { allocator with
    cmdBufferIndex := Function.update allocator.cmdBufferIndex queue 0 }
  if (allocator.commandBuffers allocator.currentSet queue).length >
      usedCmdbufs + poolMaxExcessCmdbufs then
    let oldPool := allocator.commandPools allocator.currentSet queue
    { state with
      allocator := { allocator with
        commandPools := setAt allocator.commandPools allocator.currentSet queue state.nextObject
        commandBuffers := setAt allocator.commandBuffers allocator.currentSet queue [] }
      nextObject := state.nextObject + 1
      ownPools := state.nextObject :: state.ownPools }.enqueueDestroy (.commandPool oldPool)
  else { state with allocator := allocator }

/-- `notifyFrameTickEnd(current_tick)`. -/
def State.frameTickEnd (state : State) : State :=
  { Queue.all.foldl State.endQueue state with phase := .betweenFrames }

/-- Callers begin ticks one after another with a completed tick below, allocate inside of a frame,
and give up their own command pools only. -/
def State.allows (state : State) : Action → Bool
  | .frameTickBegin completedTick newTick =>
    completedTick < newTick &&
      match state.phase with
      | .notStarted => 0 < newTick
      | .inFrame => false
      | .betweenFrames => newTick == state.device.currentTickId + 1
  | .allocate _ => state.phase == .inFrame
  | .createObject => true
  | .enqueueDestroy item =>
    state.phase != .notStarted &&
      match item with
      | .commandPool handle => handle < state.nextObject && !state.ownPools.contains handle
      | _ => true
  | .frameTickEnd => state.phase == .inFrame
  | .forceCompletion => true

def State.act (state : State) : Action → State
  | .frameTickBegin completedTick newTick => state.frameTickBegin completedTick newTick
  | .allocate queue => state.allocate queue
  | .createObject => { state with nextObject := state.nextObject + 1 }
  | .enqueueDestroy item => state.enqueueDestroy item
  | .frameTickEnd => state.frameTickEnd
  | .forceCompletion =>
    let forced := state.device.forceCompletion
    { state with device := forced.1, destroyed := state.destroyed ++ forced.2 }

def step (state : State) (action : Action) : Option State :=
  if state.allows action then some (state.act action) else none

/-- Take the actions one after another from new objects. -/
def run (actions : List Action) : Option State := Runs.run step {} actions

end CommandAllocator

end Voxen.Gfx
