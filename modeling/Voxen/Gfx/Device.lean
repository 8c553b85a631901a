import Mathlib.Algebra.Group.Int.Defs
import Mathlib.Logic.Function.Basic
import Voxen.Gfx.FrameTickId

/-!
# The device

The device numbers the submissions to each of its queues, and keeps objects that are no
longer needed until the tick they were given up in is completed.
-/

namespace Voxen.Gfx

/-- `Device::Queue`. -/
inductive Queue where
  | main
  | dma
  | compute
deriving DecidableEq, Repr

/-- The queues in the order of their numbers. -/
def Queue.all : List Queue := [.main, .dma, .compute]

theorem Queue.mem_all (queue : Queue) : queue ∈ Queue.all := by
  cases queue <;> decide

/-- `Device::JunkItem`; handles and memory allocations are named by numbers. -/
inductive JunkItem where
  | buffer (handle allocation : Nat)
  | image (handle allocation : Nat)
  | imageView (handle : Nat)
  | commandPool (handle : Nat)
  | descriptorPool (handle : Nat)
  | swapchain (handle : Nat)
  | sampler (handle : Nat)
deriving DecidableEq, Repr

/-- The members of `Device` that change with submissions and ticks. -/
structure Device where
  lastSubmittedTimelines : Queue → Nat := fun _ => 0
  lastCompletedTimelines : Queue → Nat := fun _ => 0
  currentTickId : FrameTickId := FrameTickId.invalid
  destroyQueue : List (JunkItem × FrameTickId) := []

namespace Device

/-! ## Timelines -/

/-- `submitCommands(info)` to a queue, once `vkQueueSubmit2` has succeeded: the device and the
timeline value of the submission. -/
def submitCommands (device : Device) (queue : Queue) : Device × Nat :=
  let completionTimeline := device.lastSubmittedTimelines queue + 1
  ({ device with
      lastSubmittedTimelines :=
        Function.update device.lastSubmittedTimelines queue completionTimeline },
    completionTimeline)

/-- `getCompletedTimeline(queue)` when the semaphore of the queue has the value. -/
def getCompletedTimeline (device : Device) (queue : Queue) (value : Nat) : Device × Nat :=
  ({ device with
      lastCompletedTimelines := Function.update device.lastCompletedTimelines queue value },
    value)

/-- `waitForTimelines(values)`, returning while the semaphores have the counted values; `none`
while it blocks. -/
def waitForTimelines (device : Device) (values counters : Queue → Nat) : Option Device :=
  if Queue.all.all fun queue => values queue ≤ counters queue then
    some { device with
      lastCompletedTimelines := fun queue =>
        max (device.lastCompletedTimelines queue) (values queue) }
  else none

/-! ## Destroy queue -/

/-- `enqueueJunkItem(item)`. -/
def enqueueJunkItem (device : Device) (item : JunkItem) : Device :=
  { device with destroyQueue := device.destroyQueue ++ [(item, device.currentTickId)] }

/-- The loop of `processDestroyQueue`: the items it destroys and those it stops at. -/
def splitDestroyQueue (completedTick : FrameTickId) :
    List (JunkItem × FrameTickId) → List (JunkItem × FrameTickId) × List (JunkItem × FrameTickId)
  | [] => ([], [])
  | entry :: rest =>
    if entry.2 > completedTick then ([], entry :: rest)
    else
      let split := splitDestroyQueue completedTick rest
      (entry :: split.1, split.2)

/-- `processDestroyQueue(completed_tick)`: the device and what was destroyed, in order. -/
def processDestroyQueue (device : Device) (completedTick : FrameTickId) :
    Device × List (JunkItem × FrameTickId) :=
  let split := splitDestroyQueue completedTick device.destroyQueue
  ({ device with destroyQueue := split.2 }, split.1)

/-- `onFrameTickBegin(completed_tick, new_tick)`. -/
def onFrameTickBegin (device : Device) (completedTick newTick : FrameTickId) :
    Device × List (JunkItem × FrameTickId) :=
  let processed := device.processDestroyQueue completedTick
  ({ processed.1 with currentTickId := newTick }, processed.2)

/-- `forceCompletion()`. -/
def forceCompletion (device : Device) : Device × List (JunkItem × FrameTickId) :=
  ({ device with lastCompletedTimelines := device.lastSubmittedTimelines }).processDestroyQueue
    (2 ^ 63 - 1)

end Device

end Voxen.Gfx
