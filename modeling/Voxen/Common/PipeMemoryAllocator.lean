import Voxen.Lib.AlignDown
import Voxen.Lib.Runs
import Voxen.Lib.SwapPop

/-!
# The pipe memory allocator

Every thread allocates from a slab of its own, from its end to its start.  A full slab
goes to the garbage list; once all blocks in it are deallocated a collection pass
resets it and moves it to the free list.  A step is one atomic operation, one access
to the slab of the thread, or what is done under the lock; a pass looks at one garbage
slab in a step, for the counters of the slabs change without the lock.
-/

namespace Voxen.PipeMemoryAllocator

/-- `MAX_ALLOC_SIZE`. -/
def maxAllocSize : Nat := 1024 * 1024

/-- `MAX_ALIGNMENT`. -/
def maxAlignment : Nat := 256

/-- `SLAB_SIZE`. -/
def slabSize : Nat := 2 * maxAllocSize

/-- `sizeof(PipeMemorySlabControl)`: the storage of a slab starts behind it. -/
def controlSize : Nat := 8

/-- Both are `uint32_t`. -/
structure PipeMemorySlabControl where
  allocatedBytes : Nat := 0
  liveAllocations : Nat := 0
  deriving DecidableEq

/-- A difference of two `uintptr_t`. -/
def ptrSub (address offset : Nat) : Nat := (address + 2 ^ 64 - offset) % 2 ^ 64

namespace PipeMemorySlabControl

/-- `tryAllocate` of the slab at an address. -/
def tryAllocate (ctl : PipeMemorySlabControl) (slab size align : Nat) :
    Option (Nat × PipeMemorySlabControl) :=
  let stop := slab + slabSize
  let top := ptrSub stop ctl.allocatedBytes
  let bottom := slab + controlSize
  let ptr := alignDown (ptrSub top size) align
  if bottom ≤ ptr then
    some (ptr,
      { allocatedBytes := ptrSub stop ptr % 2 ^ 32
        liveAllocations := (ctl.liveAllocations + 1) % 2 ^ 32 })
  else
    none

def reset (ctl : PipeMemorySlabControl) : PipeMemorySlabControl :=
  { ctl with allocatedBytes := 0 }

/-- `live_allocations.fetch_sub(1)`. -/
def subLive (ctl : PipeMemorySlabControl) : PipeMemorySlabControl :=
  { ctl with liveAllocations := (ctl.liveAllocations + 2 ^ 32 - 1) % 2 ^ 32 }

end PipeMemorySlabControl

/-- A block that was returned by `allocate`. -/
structure Block where
  address : Nat
  size : Nat
  align : Nat
  deriving DecidableEq

namespace Block

/-- The slab of a block, as `deallocate` finds it. -/
def slab (block : Block) : Nat := alignDown block.address slabSize

/-- Two blocks have no byte in common. -/
def Apart (block other : Block) : Prop :=
  block.address + block.size ≤ other.address ∨ other.address + other.size ≤ block.address

end Block

/-- Where the call of a thread is.  The last two are the exit of the thread. -/
inductive ThreadCall where
  | idle
  | replaceSlab (size align : Nat)
  | newSlab (size align : Nat)
  | retry (size align : Nat)
  | deleteSlab
  | putGarbageSlab
  deriving DecidableEq

/-- Where a collection pass is.  It holds the lock while it goes through the garbage
slabs. -/
inductive GcCall where
  | idle
  | scan (i : Nat) (slabToDelete : Option Nat)
  | deleteSlab (slab : Nat)
  deriving DecidableEq

/-- The slab that the pass took from the free list to delete it. -/
def GcCall.slabToDelete : GcCall → Option Nat
  | idle => none
  | scan _ slabToDelete => slabToDelete
  | deleteSlab slab => some slab

/-- `slabs` has the control data of the slabs in memory, by their address.  Beside the
allocator: the blocks that are not yet deallocated, and for each slab that was reset or
deleted which of them it had. -/
structure State (Thread : Type) where
  slabs : Nat → Option PipeMemorySlabControl := fun _ => none
  threadSlab : Thread → Option Nat := fun _ => none
  calls : Thread → ThreadCall := fun _ => .idle
  gcSlabs : List Nat := []
  freeSlabs : List Nat := []
  gc : GcCall := .idle
  blocks : List Block := []
  released : List (Nat × List Block) := []

/-- `upstream` is the memory that `newSlab` gets, if it gets some. -/
inductive Action (Thread : Type) where
  | allocate (thread : Thread) (size alignBits : Nat)
  | advance (thread : Thread) (upstream : Option Nat)
  | deallocate (address : Nat)
  | exitThread (thread : Thread)
  | reclaimFreedSlabs
  | advanceGc

namespace State

variable {Thread : Type}

/-- The lock is held between two steps. -/
def locked (state : State Thread) : Bool :=
  match state.gc with
  | .scan _ _ => true
  | _ => false

/-- Aligned memory for a whole slab, apart from that of all other slabs. -/
def Upstream (state : State Thread) (slab : Nat) : Prop :=
  slabSize ∣ slab ∧ 0 < slab ∧ slab + slabSize < 2 ^ 64 ∧ state.slabs slab = none

instance (state : State Thread) (slab : Nat) : Decidable (state.Upstream slab) :=
  inferInstanceAs (Decidable (_ ∧ _))

/-- The slab is reset or deleted. -/
def release (state : State Thread) (slab : Nat) : State Thread :=
  { state with
    released := (slab, state.blocks.filter fun block => block.slab = slab) :: state.released }

def deleteSlab (state : State Thread) (slab : Nat) : State Thread :=
  { state.release slab with slabs := Function.update state.slabs slab none }

/-- `slab->reset()`. -/
def resetSlab (state : State Thread) (slab : Nat) : State Thread :=
  { state.release slab with
    slabs := Function.update state.slabs slab ((state.slabs slab).map (·.reset)) }

variable [DecidableEq Thread]

def setCall (state : State Thread) (thread : Thread) (call : ThreadCall) : State Thread :=
  { state with calls := Function.update state.calls thread call }

def setThreadSlab (state : State Thread) (thread : Thread) (slab : Option Nat) : State Thread :=
  { state with threadSlab := Function.update state.threadSlab thread slab }

/-- The thread gets a block from its slab. -/
def tryAllocate (state : State Thread) (thread : Thread) (size align : Nat) :
    Option (State Thread) := do
  let slab ← state.threadSlab thread
  let ctl ← state.slabs slab
  let (ptr, ctl) ← ctl.tryAllocate slab size align
  some { state with
    slabs := Function.update state.slabs slab (some ctl)
    blocks := ⟨ptr, size, align⟩ :: state.blocks }

/-- The first step of `allocate`, which does not get further if the slab of the thread
has space. -/
def allocate (state : State Thread) (thread : Thread) (size align : Nat) : State Thread :=
  if maxAllocSize < size ∨ maxAlignment < align then
    state
  else
    match state.tryAllocate thread size align with
    | some state => state
    | none => state.setCall thread (.replaceSlab size align)

/-- The thread puts its slab, if it has one, into the garbage list. -/
def releaseSlab (state : State Thread) (thread : Thread) : State Thread :=
  match state.threadSlab thread with
  | some slab => { state.setThreadSlab thread none with gcSlabs := state.gcSlabs ++ [slab] }
  | none => state

/-- The thread takes a free slab, if there is one. -/
def takeFreeSlab (state : State Thread) (thread : Thread) (size align : Nat) : State Thread :=
  match state.freeSlabs.getLast? with
  | some slab =>
    { (state.setThreadSlab thread (some slab)).setCall thread (.retry size align) with
      freeSlabs := state.freeSlabs.dropLast }
  | none => state.setCall thread (.newSlab size align)

/-- The section of `replaceSlab` under the lock. -/
def replaceSlab (state : State Thread) (thread : Thread) (size align : Nat) : State Thread :=
  (state.releaseSlab thread).takeFreeSlab thread size align

/-- The next step of the call of a thread. -/
def advance (state : State Thread) (thread : Thread) (upstream : Option Nat) :
    Option (State Thread) :=
  match state.calls thread with
  | .idle => none
  | .replaceSlab size align =>
    if state.locked then none else some (state.replaceSlab thread size align)
  | .newSlab size align =>
    match upstream with
    | none => some (state.setCall thread .idle)
    | some slab =>
      if state.Upstream slab then
        some { (state.setThreadSlab thread (some slab)).setCall thread (.retry size align) with
          slabs := Function.update state.slabs slab (some {}) }
      else
        none
  | .retry size align =>
    match state.tryAllocate thread size align with
    | some state => some (state.setCall thread .idle)
    | none =>
      -- the null pointer is returned
      some { state.setCall thread .idle with blocks := ⟨0, size, align⟩ :: state.blocks }
  | .deleteSlab => do
      let slab ← state.threadSlab thread
      some (((state.deleteSlab slab).setThreadSlab thread none).setCall thread .idle)
  | .putGarbageSlab => do
      let slab ← state.threadSlab thread
      if state.locked then
        none
      else
        some { (state.setThreadSlab thread none).setCall thread .idle with
          gcSlabs := state.gcSlabs ++ [slab] }

/-- A block is deallocated, by any thread. -/
def deallocate (state : State Thread) (address : Nat) : Option (State Thread) :=
  if address = 0 then
    some state
  else do
    let block ← state.blocks.find? fun block => block.address = address
    let slab := alignDown address slabSize
    some { state with
      slabs := Function.update state.slabs slab ((state.slabs slab).map (·.subLive))
      blocks := state.blocks.erase block }

/-- `ThreadSlabDeleter`, up to what it does with the slab. -/
def exitThread (state : State Thread) (thread : Thread) : Option (State Thread) :=
  match state.threadSlab thread with
  | none => some state
  | some slab => do
      let ctl ← state.slabs slab
      some (state.setCall thread
        (if ctl.liveAllocations = 0 then .deleteSlab else .putGarbageSlab))

/-- A collection pass takes the lock. -/
def reclaimFreedSlabs (state : State Thread) (destroyFreeSlabsThreshold : Nat) : State Thread :=
  if destroyFreeSlabsThreshold < state.freeSlabs.length then
    { state with
      gc := .scan 0 state.freeSlabs.getLast?
      freeSlabs := state.freeSlabs.dropLast }
  else
    { state with gc := .scan 0 none }

/-- The next step of a collection pass. -/
def advanceGc (state : State Thread) : Option (State Thread) :=
  match state.gc with
  | .idle => none
  | .scan i slabToDelete =>
    match state.gcSlabs[i]? with
    | some slab => do
        let ctl ← state.slabs slab
        if ctl.liveAllocations = 0 then
          some { state.resetSlab slab with
            gcSlabs := swapPop state.gcSlabs i
            freeSlabs := state.freeSlabs ++ [slab] }
        else
          some { state with gc := .scan (i + 1) slabToDelete }
    | none =>
      match slabToDelete with
      | some slab => some { state with gc := .deleteSlab slab }
      | none => some { state with gc := .idle }
  | .deleteSlab slab => some { state.deleteSlab slab with gc := .idle }

end State

variable {Thread : Type} [DecidableEq Thread]

/-- What an action does.  A thread makes one call at a time, of at least one byte and
with a power of two as alignment, and deallocates what is not yet deallocated. -/
def step (destroyFreeSlabsThreshold : Nat) (state : State Thread) :
    Action Thread → Option (State Thread)
  | .allocate thread size alignBits =>
    if state.calls thread = .idle ∧ 0 < size then
      some (state.allocate thread size (2 ^ alignBits))
    else
      none
  | .advance thread upstream => state.advance thread upstream
  | .deallocate address => state.deallocate address
  | .exitThread thread =>
    if state.calls thread = .idle then state.exitThread thread else none
  | .reclaimFreedSlabs =>
    if state.gc = .idle then some (state.reclaimFreedSlabs destroyFreeSlabsThreshold) else none
  | .advanceGc => state.advanceGc

/-- The state after a run, from the start of the program. -/
def run (destroyFreeSlabsThreshold : Nat) (actions : List (Action Thread)) :
    Option (State Thread) :=
  Runs.run (step destroyFreeSlabsThreshold) {} actions

/-- The sets that a slab can be in. -/
inductive Place (Thread : Type) where
  | thread (thread : Thread)
  | garbage
  | free

omit [DecidableEq Thread] in
/-- The slab is in the set. -/
def State.At (state : State Thread) (slab : Nat) : Place Thread → Prop
  | .thread thread => state.threadSlab thread = some slab
  | .garbage => slab ∈ state.gcSlabs
  | .free => slab ∈ state.freeSlabs

omit [DecidableEq Thread] in
/-- Every slab in memory is in exactly one of the sets, apart from one that a
collection pass has taken to delete it. -/
structure State.Correct (state : State Thread) : Prop where
  aligned : ∀ block ∈ state.blocks, block.align ∣ block.address
  inStorage : ∀ block ∈ state.blocks, state.slabs block.slab ≠ none ∧
    block.slab + controlSize ≤ block.address ∧
    block.address + block.size ≤ block.slab + slabSize
  apart : state.blocks.Pairwise Block.Apart
  released : ∀ entry ∈ state.released, entry.2 = []
  onePlace : ∀ slab, state.slabs slab ≠ none → state.gc.slabToDelete ≠ some slab →
    ∃! place, state.At slab place
  inMemory : ∀ slab place, state.At slab place →
    state.slabs slab ≠ none ∧ state.gc.slabToDelete ≠ some slab
  once : state.gcSlabs.Nodup ∧ state.freeSlabs.Nodup

end Voxen.PipeMemoryAllocator
