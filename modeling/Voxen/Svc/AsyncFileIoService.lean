import Mathlib.Algebra.Group.Nat.Defs
import Voxen.Lib.Runs

/-!
# The asynchronous file I/O service

Threads push read and write commands into a queue and count them in a futex word;
one I/O thread takes as many commands as it was told of, executes them and subtracts
them again.  The destructor raises the stop flag of the word and joins the thread.
-/

namespace Voxen.Svc

/-! ## The work counter -/

namespace FutexWorkCounter

/-- `STOP_BIT`. -/
def stopBit : BitVec 32 := 1#32 <<< 31

/-- `unpackValue`: the work items and the stop flag. -/
def unpackValue (value : BitVec 32) : Nat × Bool :=
  ((value &&& (stopBit - 1#32)).toNat, value &&& stopBit != 0#32)

/-- The value returned by `removeWork`, for the value before it. -/
def afterRemove (value : BitVec 32) (amount : Nat) : Nat × Bool :=
  let unpacked := unpackValue value
  ((BitVec.ofNat 32 unpacked.1 - BitVec.ofNat 32 amount).toNat, unpacked.2)

end FutexWorkCounter

namespace AsyncFileIoService

open FutexWorkCounter

/-- `FileReadCommand` or `FileWriteCommand`. -/
inductive Command where
  | read
  | write
  deriving DecidableEq

/-- `IoQueueItem`, without the buffer and the file. -/
structure IoQueueItem where
  asyncCounter : Nat
  command : Command
  deriving DecidableEq

/-- What `pread` or `pwrite` does. -/
inductive Outcome where
  | returns
  | throws
  deriving DecidableEq

/-- Where the call of a pushing thread is. -/
inductive Call where
  | idle
  | emplace (item : IoQueueItem)
  | addWork (asyncCounter : Nat)
  deriving DecidableEq

/-- Where `ioThreadProc` is; `wait` returns only if the word is not zero. -/
inductive IoThread where
  | wait
  | futexWait
  | asleep
  | take (workCount workRemaining : Nat)
  | execute (workCount workRemaining : Nat) (item : IoQueueItem)
  | complete (workCount workRemaining : Nat) (item : IoQueueItem)
  | removeWork (workCount : Nat)
  | done
  deriving DecidableEq

/-- Where the destructor is. -/
inductive Destructor where
  | notCalled
  | join
  | returned
  deriving DecidableEq

/-- Beside the fields of the service: the counters in the order their commands were
emplaced, those whose push has returned and those that had when the stop was
requested, and what was executed, written to result pointers and completed. -/
structure State (Thread : Type) where
  ioWorkCounter : BitVec 32 := 0#32
  ioQueue : List IoQueueItem := []
  calls : Thread → Call := fun _ => .idle
  ioThread : IoThread := .wait
  destructor : Destructor := .notCalled
  nextCounter : Nat := 1
  emplaced : List Nat := []
  pushed : List Nat := []
  due : List Nat := []
  executed : List Nat := []
  results : List (Nat × Outcome) := []
  completed : List Nat := []

inductive Action (Thread : Type) where
  | push (thread : Thread) (command : Command)
  | advance (thread : Thread)
  | requestStop
  | join
  | advanceIo (outcome : Outcome)

namespace State

variable {Thread : Type}

/-- `wakeAll`. -/
def wakeIo (state : State Thread) : State Thread :=
  match state.ioThread with
  | .asleep => { state with ioThread := .wait }
  | _ => state

/-- The next command of a batch, or the end of it. -/
def nextTake (workCount : Nat) : Nat → IoThread
  | 0 => .removeWork workCount
  | workRemaining + 1 => .take workCount (workRemaining + 1)

/-- The next step of the I/O thread. -/
def advanceIo (state : State Thread) (outcome : Outcome) : Option (State Thread) :=
  match state.ioThread with
  | .wait =>
    if state.ioWorkCounter = 0#32 then
      some { state with ioThread := .futexWait }
    else
      let workCount := (unpackValue state.ioWorkCounter).1
      some { state with ioThread := nextTake workCount workCount }
  | .futexWait =>
    some { state with ioThread := if state.ioWorkCounter = 0#32 then .asleep else .wait }
  -- a spurious wake-up
  | .asleep => some { state with ioThread := .wait }
  | .take _ 0 => none
  | .take workCount (workRemaining + 1) =>
    match state.ioQueue with
    | [] => none
    | item :: ioQueue =>
      some { state with ioQueue, ioThread := .execute workCount workRemaining item }
  | .execute workCount workRemaining item =>
    -- a read writes its result pointer, a write only if it fails
    let results := if item.command = .read ∨ outcome = .throws
      then (item.asyncCounter, outcome) :: state.results else state.results
    some { state with
      ioThread := .complete workCount workRemaining item
      executed := state.executed ++ [item.asyncCounter]
      results }
  | .complete workCount workRemaining item =>
    some { state with
      ioThread := nextTake workCount workRemaining
      completed := state.completed ++ [item.asyncCounter] }
  | .removeWork workCount =>
    let (rest, stopRequested) := afterRemove state.ioWorkCounter workCount
    let ioThread :=
      if stopRequested then .done else if rest = 0 then .wait else nextTake rest rest
    some { state with
      ioWorkCounter := state.ioWorkCounter - BitVec.ofNat 32 workCount
      ioThread }
  | .done => none

variable [DecidableEq Thread]

def setCall (state : State Thread) (thread : Thread) (call : Call) : State Thread :=
  { state with calls := Function.update state.calls thread call }

/-- The next step of a pushing thread. -/
def advance (state : State Thread) (thread : Thread) : Option (State Thread) :=
  match state.calls thread with
  | .idle => none
  | .emplace item =>
    some { state.setCall thread (.addWork item.asyncCounter) with
      ioQueue := state.ioQueue ++ [item]
      emplaced := state.emplaced ++ [item.asyncCounter] }
  | .addWork asyncCounter =>
    let added := { state.setCall thread .idle with
      ioWorkCounter := state.ioWorkCounter + 1#32
      pushed := state.pushed ++ [asyncCounter] }
    some (if state.ioWorkCounter = 0#32 then added.wakeIo else added)

end State

variable {Thread : Type} [DecidableEq Thread]

def step (state : State Thread) : Action Thread → Option (State Thread)
  | .push thread command =>
    if state.calls thread = .idle then
      some { state.setCall thread (.emplace ⟨state.nextCounter, command⟩) with
        nextCounter := state.nextCounter + 1 }
    else none
  | .advance thread => state.advance thread
  | .requestStop =>
    if state.destructor = .notCalled then
      let stopped := { state with
        ioWorkCounter := state.ioWorkCounter ||| stopBit
        destructor := .join
        due := state.pushed }
      some (if state.ioWorkCounter = 0#32 then stopped.wakeIo else stopped)
    else none
  | .join =>
    if state.destructor = .join ∧ state.ioThread = .done then
      some { state with destructor := .returned }
    else none
  | .advanceIo outcome => state.advanceIo outcome

/-- A run of the service. -/
def run (actions : List (Action Thread)) : Option (State Thread) := Runs.run step {} actions

/-- Every command pushed before the stop was requested is executed and its counter
completed when the destructor has returned, and no command is taken from an empty
queue. -/
structure State.Correct (state : State Thread) : Prop where
  finished : state.destructor = .returned →
    ∀ asyncCounter ∈ state.due, asyncCounter ∈ state.executed ∧ asyncCounter ∈ state.completed
  nonempty : ∀ workCount workRemaining, state.ioThread = .take workCount workRemaining →
    state.ioQueue ≠ []

/-- The commands of the batch that the I/O thread works on, if it does. -/
def IoThread.workCount? : IoThread → Option Nat
  | take workCount _ => some workCount
  | execute workCount _ _ => some workCount
  | complete workCount _ _ => some workCount
  | removeWork workCount => some workCount
  | _ => none

/-- The command of the call is in the queue and not counted yet. -/
def Call.counts : Call → Bool
  | addWork _ => true
  | _ => false

/-- The stop is requested while no push is between queue and counter, and all counted
commands are in the batch the I/O thread works on, or it works on none; and the count
stays below the stop bit. -/
def StepSafe (state : State Thread) : Action Thread → Prop
  | .requestStop =>
    (∀ thread, (state.calls thread).counts = false) ∧
      ∀ workCount ∈ state.ioThread.workCount?, (unpackValue state.ioWorkCounter).1 = workCount
  | .advance thread => (state.calls thread).counts = true →
      (unpackValue state.ioWorkCounter).1 + 1 < 2 ^ 31
  | _ => True

end AsyncFileIoService

end Voxen.Svc
