import Voxen.Gfx.FrameTickId
import Voxen.Lib.AlignDown
import Voxen.Lib.Runs

/-!
# Transient buffer allocator

Allocations of one frame are cut from the top of a buffer downwards.  A buffer without
enough room moves from the free to the used list, and comes back empty once the last
tick that allocated from it is completed.
-/

namespace Voxen.Gfx

namespace TransientBufferAllocator

/-- `TransientBufferAllocator::Type`. -/
inductive BufferType where
  | scratch
  | upload
deriving DecidableEq, Repr

/-- `STALE_BUFFER_AGE_THRESHOLD`. -/
def staleBufferAgeThreshold : Int := 8

/-- `MIN_BUFFER_SIZE_TARGET`. -/
def minBufferSizeTarget : Nat := 1 * 1024 * 1024

/-- `MAX_BUFFER_SIZE_TARGET`. -/
def maxBufferSizeTarget : Nat := 64 * 1024 * 1024

/-- `BUFFER_SIZE_STEP`. -/
def bufferSizeStep : Nat := 1 * 1024 * 1024

/-- `TransientBufferAllocator::Buffer`; the handle stands for the memory as well. -/
structure Buffer where
  vkHandle : Nat
  hostPointer : Option Nat
  bufferSize : Nat
  allocationTop : Nat
  lastAllocationTick : FrameTickId := FrameTickId.invalid
deriving DecidableEq

/-- `TransientBufferAllocator::Allocation`. -/
structure Allocation where
  buffer : Nat
  bufferOffset : Nat
  hostPointer : Option Nat
  size : Nat
deriving DecidableEq

/-- What `vmaCreateBuffer` returns: a handle and the mapped address. -/
structure Created where
  vkHandle : Nat
  pMappedData : Option Nat

/-- The members of the allocator for one buffer type. -/
structure Pool where
  freeList : List Buffer := []
  usedList : List Buffer := []
  currentTickAllocatedBytes : Nat := 0
  allocationExpAverage : Nat := 0

def Pool.buffers (pool : Pool) : List Buffer := pool.freeList ++ pool.usedList

/-! ## Allocation -/

/-- `(old_top - size) & ~(align - 1)`. -/
def Buffer.newTop (buffer : Buffer) (size align : Nat) : Nat :=
  alignDown (buffer.allocationTop - size) align

/-- The buffer after `size` bytes were cut from it. -/
def Buffer.cut (buffer : Buffer) (tick : FrameTickId) (size align : Nat) : Buffer :=
  { buffer with
    allocationTop := buffer.newTop size align
    lastAllocationTick := tick }

/-- The allocation returned when `size` bytes are cut from a buffer. -/
def Buffer.allocation (buffer : Buffer) (size align : Nat) : Allocation where
  buffer := buffer.vkHandle
  bufferOffset := buffer.newTop size align
  hostPointer := buffer.hostPointer.map (· + buffer.newTop size align)
  size := buffer.allocationTop - buffer.newTop size align

/-- The loop of `allocate`: buffers without enough room move to the end of the used list, up to
the first one that has enough. -/
def searchFree (size : Nat) : List Buffer → List Buffer → List Buffer × List Buffer
  | [], used => ([], used)
  | buffer :: free, used =>
    if buffer.allocationTop ≥ size then (buffer :: free, used)
    else searchFree size free (used ++ [buffer])

/-- Size of a new buffer. -/
def newBufferSize (allocationExpAverage minSize : Nat) : Nat :=
  let expAverage := max minBufferSizeTarget (min allocationExpAverage maxBufferSizeTarget)
  let target := (max expAverage minSize + bufferSizeStep - 1) % 2 ^ 64
  target - target % bufferSizeStep

/-- `addBuffer(type, min_size)` for a buffer that was created. -/
def Pool.addBuffer (pool : Pool) (minSize : Nat) (created : Created) : Pool :=
  let size := newBufferSize pool.allocationExpAverage minSize
  { pool with
    freeList :=
      { vkHandle := created.vkHandle, hostPointer := created.pMappedData, bufferSize := size,
        allocationTop := size } :: pool.freeList }

/-- Cut an allocation from the first free buffer. -/
def Pool.cutFirst (pool : Pool) (buffer : Buffer) (free : List Buffer) (tick : FrameTickId)
    (size align : Nat) : Pool × Option Allocation :=
  ({ pool with
      freeList := buffer.cut tick size align :: free
      currentTickAllocatedBytes := (pool.currentTickAllocatedBytes +
        (buffer.allocation size align).size) % 2 ^ 64 },
    some (buffer.allocation size align))

/-- `allocate(type, size, align)`.  There is no result when one of its assertions fails, and no
allocation when none is requested or the creation of a buffer throws. -/
def Pool.allocate (pool : Pool) (tick : FrameTickId) (size align : Nat)
    (created : Option Created) : Option (Pool × Option Allocation) :=
  if size = 0 then some (pool, none)
  else
    let searched := searchFree size pool.freeList pool.usedList
    let pool := { pool with freeList := searched.1, usedList := searched.2 }
    match pool.freeList with
    | buffer :: free => some (pool.cutFirst buffer free tick size align)
    | [] =>
      match created with
      | none => some (pool, none)
      | some created =>
        let pool := pool.addBuffer size created
        match pool.freeList with
        | [buffer] =>
          if buffer.allocationTop ≥ size then
            some (pool.cutFirst buffer [] tick size align)
          else none
        | _ => none

/-! ## Ticks -/

/-- Whether nothing was allocated from a buffer for long. -/
def Buffer.stale (buffer : Buffer) (newTick : FrameTickId) : Bool :=
  decide (buffer.lastAllocationTick + staleBufferAgeThreshold < newTick)

/-- First loop of `onFrameTickBegin`: free buffers that are stale are destroyed. -/
def sweepFree (completedTick newTick : FrameTickId) : List Buffer → List Buffer
  | [] => []
  | buffer :: rest =>
    if buffer.lastAllocationTick ≤ completedTick && buffer.stale newTick then
      sweepFree completedTick newTick rest
    else buffer :: sweepFree completedTick newTick rest

/-- Second loop of `onFrameTickBegin`: what stays in the used list and what comes to the end of
the free list; stale buffers are destroyed. -/
def sweepUsed (completedTick newTick : FrameTickId) : List Buffer → List Buffer × List Buffer
  | [] => ([], [])
  | buffer :: rest =>
    let swept := sweepUsed completedTick newTick rest
    if buffer.lastAllocationTick > completedTick then (buffer :: swept.1, swept.2)
    else
      let buffer := { buffer with allocationTop := buffer.bufferSize }
      if buffer.stale newTick then swept else (swept.1, buffer :: swept.2)

def Pool.onFrameTickBegin (pool : Pool) (completedTick newTick : FrameTickId) : Pool :=
  let swept := sweepUsed completedTick newTick pool.usedList
  { pool with
    freeList := sweepFree completedTick newTick pool.freeList ++ swept.2
    usedList := swept.1 }

def Pool.onFrameTickEnd (pool : Pool) : Pool :=
  { pool with
    currentTickAllocatedBytes := 0
    allocationExpAverage :=
      (pool.allocationExpAverage + pool.currentTickAllocatedBytes) % 2 ^ 64 / 2 }

/-! ## The allocator -/

/-- An allocation that was returned, with what was requested. -/
structure Record where
  type : BufferType
  tick : FrameTickId
  size : Nat
  align : Nat
  result : Allocation
deriving DecidableEq

structure State where
  currentTickId : FrameTickId := FrameTickId.invalid
  pools : BufferType → Pool := fun _ => {}
  /-- All allocations so far, the last one first. -/
  records : List Record := []
  /-- The last tick that was reported completed. -/
  completedTick : FrameTickId := FrameTickId.invalid

inductive Action where
  | onFrameTickBegin (completedTick newTick : FrameTickId)
  /-- `created` is what `vmaCreateBuffer` returns when it is called. -/
  | allocate (type : BufferType) (size align : Nat) (created : Option Created)
  | onFrameTickEnd

/-- The handle of an existing buffer. -/
def State.exists (state : State) (vkHandle : Nat) : Bool :=
  [BufferType.scratch, BufferType.upload].any fun type =>
    (state.pools type).buffers.any fun buffer => buffer.vkHandle == vkHandle

/-- What callers keep to: ticks increase, allocations come after the begin of a tick, alignments
are powers of two not above the step of the sizes, rounding a size up does not wrap, and a new
buffer is none of the existing ones. -/
def State.Allows (state : State) : Action → Prop
  | .onFrameTickBegin _ newTick => state.currentTickId < newTick
  | .allocate _ size align created =>
    0 ≤ state.currentTickId ∧ align.isPowerOfTwo ∧ align ≤ bufferSizeStep ∧
      size + bufferSizeStep - 1 < 2 ^ 64 ∧
      ∀ buffer, created = some buffer → state.exists buffer.vkHandle = false
  | .onFrameTickEnd => True

instance (state : State) (action : Action) : Decidable (state.Allows action) := by
  cases action with
  | onFrameTickBegin => exact inferInstanceAs (Decidable (_ < _))
  | allocate type size align created =>
    cases created with
    | none =>
      exact decidable_of_iff (0 ≤ state.currentTickId ∧ align.isPowerOfTwo ∧
        align ≤ bufferSizeStep ∧ size + bufferSizeStep - 1 < 2 ^ 64) (by simp [State.Allows])
    | some buffer =>
      exact decidable_of_iff (0 ≤ state.currentTickId ∧ align.isPowerOfTwo ∧
        align ≤ bufferSizeStep ∧ size + bufferSizeStep - 1 < 2 ^ 64 ∧
        state.exists buffer.vkHandle = false) (by simp [State.Allows])
  | onFrameTickEnd => exact inferInstanceAs (Decidable True)

/-- Keep an allocation that was returned on record. -/
def State.record (state : State) (type : BufferType) (size align : Nat) :
    Option Allocation → State
  | none => state
  | some result =>
    { state with
      records :=
        { type := type, tick := state.currentTickId, size := size, align := align,
          result := result } :: state.records }

def step (state : State) (action : Action) : Option State :=
  if state.Allows action then
    match action with
    | .onFrameTickBegin completedTick newTick =>
      some { state with
        currentTickId := newTick
        pools := fun type => (state.pools type).onFrameTickBegin completedTick newTick
        completedTick := max state.completedTick completedTick }
    | .allocate type size align created =>
      ((state.pools type).allocate state.currentTickId size align created).map
        fun (pool, result) =>
          { state with pools := Function.update state.pools type pool }.record type size align
            result
    | .onFrameTickEnd =>
      some { state with pools := fun type => (state.pools type).onFrameTickEnd }
  else none

/-- Take the actions one after another from a new allocator. -/
def run (actions : List Action) : Option State := Runs.run step {} actions

end TransientBufferAllocator

end Voxen.Gfx
