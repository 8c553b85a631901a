import Mathlib.Algebra.Group.Nat.Defs
import Voxen.Lib.LinkChain
import Voxen.Lib.Runs

/-!
# The shared object pool

Threads allocate objects from slabs and release references to them.  A freed object
goes onto a stack: its memory holds the link to the object freed before.  A step is
one atomic operation, one access to the memory of an object, or what is done under
the lock.
-/

namespace Voxen.SharedObjectPool

open Function (update)

/-- The place of an object: the number of its slab and its index there. -/
structure Slot where
  slab : Nat
  index : Nat
  deriving DecidableEq

/-- What became of a slot: it is live from when it is handed out until its object is
destroyed, and free from when it is on the stack. -/
inductive Status where
  | unborn
  | live
  | releasing
  | free
  deriving DecidableEq

/-- Where the call of a thread is. -/
inductive Call where
  | idle
  | popLoad
  | popRead (lastFreed : Slot)
  | popExchange (lastFreed : Slot) (nextFreed : Option Slot)
  | setRef (slot : Slot)
  | allocateNew
  | construct (slot : Slot)
  | destroy (slot : Slot)
  | pushLoad (slot : Slot)
  | pushLink (slot : Slot) (nextFreed : Option Slot)
  | pushExchange (slot : Slot) (nextFreed : Option Slot)
  deriving DecidableEq

/-- `COUNTER_MAX`. -/
def counterMax : Nat := 2 ^ 16 - 1

/-- `nextFreed` is the first word of the memory of an object, read as a pointer.
Beside the pool: the number of `SharedPoolPtr` to an object, the status of the slots,
and for each slot that was handed out the status it had before. -/
structure State (Thread : Type) where
  lastFreedObject : Option Slot := none
  nextFreed : Slot → Option Slot := fun _ => none
  refCounters : Slot → Nat := fun _ => 0
  slabs : Nat := 0
  initialObjects : Nat := 0
  calls : Thread → Call := fun _ => .idle
  handles : Slot → Nat := fun _ => 0
  status : Slot → Status := fun _ => .unborn
  handedOut : List (Slot × Status) := []

inductive Action (Thread : Type) where
  | allocate (thread : Thread)
  | advance (thread : Thread) (spurious throws : Bool)
  | addRef (slot : Slot)
  | releaseRef (thread : Thread) (slot : Slot)
  | write (slot : Slot) (word : Option Slot)

namespace State

variable {Thread : Type}

/-- The slot is handed out. -/
def handOut (state : State Thread) (slot : Slot) : State Thread :=
  { state with
    status := update state.status slot .live
    handedOut := (slot, state.status slot) :: state.handedOut }

variable [DecidableEq Thread]

def setCall (state : State Thread) (thread : Thread) (call : Call) : State Thread :=
  { state with calls := update state.calls thread call }

/-- The head of the loop in `allocate`. -/
def popHead (state : State Thread) : Call :=
  match state.lastFreedObject with
  | some lastFreed => .popRead lastFreed
  | none => .allocateNew

/-- The section of `allocate` under the lock. -/
def allocateNew (state : State Thread) (maxObjects : Nat) (thread : Thread) : State Thread :=
  let state := if state.slabs = 0 ∨ state.initialObjects = maxObjects then
      { state with slabs := state.slabs + 1, initialObjects := 0 }
    else state
  let slot : Slot := ⟨state.slabs - 1, state.initialObjects⟩
  { (state.handOut slot).setCall thread (.construct slot) with
    initialObjects := state.initialObjects + 1
    refCounters := update state.refCounters slot 1 }

/-- The next step of the call of a thread.  `spurious` lets a weak exchange fail
without a reason, `throws` lets a constructor throw. -/
def advance (state : State Thread) (maxObjects : Nat) (thread : Thread) (spurious throws : Bool) :
    Option (State Thread) :=
  match state.calls thread with
  | .idle => none
  | .popLoad => some (state.setCall thread state.popHead)
  | .popRead lastFreed =>
    some (state.setCall thread (.popExchange lastFreed (state.nextFreed lastFreed)))
  | .popExchange lastFreed nextFreed =>
    if state.lastFreedObject = some lastFreed ∧ spurious = false then
      some { (state.handOut lastFreed).setCall thread (.setRef lastFreed) with
        lastFreedObject := nextFreed }
    else
      some (state.setCall thread state.popHead)
  | .setRef slot =>
    some { state.setCall thread (.construct slot) with
      refCounters := update state.refCounters slot 1 }
  | .allocateNew => some (state.allocateNew maxObjects thread)
  | .construct slot =>
    if throws then
      some { state.setCall thread (.pushLoad slot) with
        status := update state.status slot .releasing }
    else
      some { state.setCall thread .idle with
        handles := update state.handles slot (state.handles slot + 1) }
  | .destroy slot =>
    some { state.setCall thread (.pushLoad slot) with
      status := update state.status slot .releasing }
  | .pushLoad slot => some (state.setCall thread (.pushLink slot state.lastFreedObject))
  | .pushLink slot nextFreed =>
    some { state.setCall thread (.pushExchange slot nextFreed) with
      nextFreed := update state.nextFreed slot nextFreed }
  | .pushExchange slot nextFreed =>
    if state.lastFreedObject = nextFreed ∧ spurious = false then
      some { state.setCall thread .idle with
        lastFreedObject := some slot
        status := update state.status slot .free }
    else
      some (state.setCall thread (.pushLink slot state.lastFreedObject))

end State

variable {Thread : Type} [DecidableEq Thread]

/-- References are added and released through a `SharedPoolPtr`; the memory of a live
object is written by its users. -/
def step (maxObjects : Nat) (state : State Thread) : Action Thread → Option (State Thread)
  | .allocate thread =>
    if state.calls thread = .idle then some (state.setCall thread .popLoad) else none
  | .advance thread spurious throws => state.advance maxObjects thread spurious throws
  | .addRef slot =>
    -- an overflow ends the program
    if 0 < state.handles slot ∧ state.refCounters slot ≠ counterMax then
      some { state with
        refCounters := update state.refCounters slot (state.refCounters slot + 1)
        handles := update state.handles slot (state.handles slot + 1) }
    else none
  | .releaseRef thread slot =>
    if state.calls thread = .idle ∧ 0 < state.handles slot then
      some { state.setCall thread (if state.refCounters slot = 1 then .destroy slot else .idle) with
        refCounters := update state.refCounters slot (state.refCounters slot - 1)
        handles := update state.handles slot (state.handles slot - 1) }
    else none
  | .write slot word =>
    if state.status slot = .live then
      some { state with nextFreed := update state.nextFreed slot word }
    else none

/-- A run from an empty pool. -/
def run (maxObjects : Nat) (actions : List (Action Thread)) : Option (State Thread) :=
  Runs.run (step maxObjects) {} actions

/-- The call puts the slot onto the stack. -/
def Call.Pushes (call : Call) (slot : Slot) : Prop :=
  match call with
  | .pushLoad pushed => pushed = slot
  | .pushLink pushed _ => pushed = slot
  | .pushExchange pushed _ => pushed = slot
  | _ => False

/-- No slot is handed out while it is live; the stack holds the free slots, each once;
and a released slot is on the stack or about to be put there. -/
structure State.Correct (state : State Thread) : Prop where
  handedOut : ∀ handed ∈ state.handedOut, handed.2 ≠ .live
  stack : ∃ slots, LinkChain state.nextFreed state.lastFreedObject slots ∧ slots.Nodup ∧
    ∀ slot, slot ∈ slots ↔ state.status slot = .free
  releasing : ∀ slot, state.status slot = .releasing →
    ∃ thread, (state.calls thread).Pushes slot

/-- The link an allocation puts in place of the last freed slot still is the link of
that slot. -/
def StepSafe (state : State Thread) : Action Thread → Prop
  | .advance thread spurious _ =>
    match state.calls thread with
    | .popExchange lastFreed nextFreed =>
      state.lastFreedObject = some lastFreed → spurious = false →
        state.nextFreed lastFreed = nextFreed
    | _ => True
  | _ => True

end Voxen.SharedObjectPool
