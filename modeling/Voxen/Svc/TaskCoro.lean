import Mathlib.Data.BitVec

/-!
# Coroutine tasks

A coroutine task awaits counters and sub-tasks, which in turn await counters and
sub-tasks.  Sub-tasks start eagerly and are linked to a stack when they are awaited;
the slave loop resumes the innermost of them.
-/

namespace Voxen.Svc.TaskCoro

/-- What the body of a coroutine does: `A` are its actions, `E` its exceptions and `V`
the values it returns and awaits. -/
inductive Body (A E V : Type) where
  | coReturn (value : V)
  | throw (exception : E)
  | act (action : A) (next : Body A E V)
  /-- `co_await` of a `CoroFuture` -/
  | awaitCounter (counter : BitVec 64) (next : V → Body A E V)
  /-- `co_await` of a call of a sub-task; `next` may catch what it throws -/
  | awaitSubTask (subTask : Body A E V) (next : Except E V → Body A E V)

/-- What can be observed: the actions, and counters that were waited for. -/
inductive Event (A : Type) where
  | act (action : A)
  | waited (counter : BitVec 64)
  deriving DecidableEq

variable {A E V : Type}

/-! ## The synchronous run -/

/-- The body run as nested calls.  `object` is what the awaited futures hold. -/
def Body.call (object : BitVec 64 → V) : Body A E V → List (Event A) × Except E V
  | .coReturn value => ([], .ok value)
  | .throw exception => ([], .error exception)
  | .act action next =>
    let (events, result) := next.call object
    (.act action :: events, result)
  | .awaitCounter counter next =>
    let (events, result) := (next (object counter)).call object
    (.waited counter :: events, result)
  | .awaitSubTask subTask next =>
    let (events, result) := subTask.call object
    let (events', result') := (next result).call object
    (events ++ events', result')

/-! ## The coroutines -/

/-- Where a coroutine stands. -/
inductive Point (A E V : Type) where
  /-- initially suspended, or running for the first time -/
  | initial (body : Body A E V)
  | awaitCounter (counter : BitVec 64) (next : V → Body A E V)
  | awaitSubTask (address : Nat) (next : Except E V → Body A E V)
  /-- `done()`, with the object or the exception stored -/
  | finished (result : Except E V)

/-- `CoroSubTaskStateBase`.  There is one base task only, so its pointer is a flag. -/
structure SubTask (A E V : Type) where
  point : Point A E V
  blockedOnCounter : BitVec 64 := 0
  nextSubTask : Option Nat := none
  prevSubTask : Option Nat := none
  hasBaseTask : Bool := false

/-- `CoroTaskState`, the sub-tasks by address, and what was observed so far. -/
structure Machine (A E V : Type) where
  point : Point A E V
  blockedOnCounter : BitVec 64 := 0
  subTaskStackTop : Option Nat := none
  subTasks : Nat → Option (SubTask A E V) := fun _ => none
  freeAddress : Nat := 0
  trace : List (Event A) := []

/-- A coroutine: the base task or a sub-task. -/
inductive Coro where
  | base
  | sub (address : Nat)

namespace Machine

def setSubTask (machine : Machine A E V) (address : Nat) (subTask : SubTask A E V) :
    Machine A E V :=
  { machine with subTasks := Function.update machine.subTasks address (some subTask) }

/-- The end of the full expression that holds the handle. -/
def destroySubTask (machine : Machine A E V) (address : Nat) : Machine A E V :=
  { machine with subTasks := Function.update machine.subTasks address none }

def setPoint (machine : Machine A E V) (point : Point A E V) : Coro → Option (Machine A E V)
  | .base => some { machine with point := point }
  | .sub address => do
      let subTask ← machine.subTasks address
      return machine.setSubTask address { subTask with point := point }

def pointOf (machine : Machine A E V) : Coro → Option (Point A E V)
  | .base => some machine.point
  | .sub address => do return (← machine.subTasks address).point

/-- `blockOnCounter` of either class. -/
def blockOnCounter (machine : Machine A E V) (counter : BitVec 64) :
    Coro → Option (Machine A E V)
  | .base => some { machine with blockedOnCounter := counter }
  | .sub address => do
      let subTask ← machine.subTasks address
      if subTask.hasBaseTask then
        return { machine with blockedOnCounter := counter }
      else
        return machine.setSubTask address { subTask with blockedOnCounter := counter }

/-- The loop of `updateSubTaskStack`. -/
def updateFrom : Nat → Option Nat → Machine A E V → Option (Machine A E V)
  | _, none, machine => some machine
  | 0, some _, _ => none
  | count + 1, some address, machine => do
      let subTask ← machine.subTasks address
      let counter :=
        if subTask.blockedOnCounter ≠ 0 then subTask.blockedOnCounter
        else machine.blockedOnCounter
      let machine := machine.setSubTask address
        { subTask with blockedOnCounter := 0, hasBaseTask := true }
      updateFrom count subTask.nextSubTask
        { machine with blockedOnCounter := counter, subTaskStackTop := some address }

/-- `updateSubTaskStack`; there are no more sub-tasks than addresses given out. -/
def updateSubTaskStack (machine : Machine A E V) : Option (Machine A E V) :=
  updateFrom machine.freeAddress machine.subTaskStackTop machine

/-- `blockOnSubTask` of either class. -/
def blockOnSubTask (machine : Machine A E V) (address : Nat) : Coro → Option (Machine A E V)
  | .base => updateSubTaskStack { machine with subTaskStackTop := some address }
  | .sub self => do
      let subTask ← machine.subTasks self
      let machine := machine.setSubTask self { subTask with nextSubTask := some address }
      let next ← machine.subTasks address
      let machine := machine.setSubTask address { next with prevSubTask := some self }
      if subTask.hasBaseTask then machine.updateSubTaskStack else return machine

/-- A coroutine runs until it is suspended or done.  A sub-task is started when it is
called, and awaited if it is not done then. -/
def exec : Body A E V → Coro → Machine A E V → Option (Machine A E V)
  | .coReturn value, self, machine => machine.setPoint (.finished (.ok value)) self
  | .throw exception, self, machine => machine.setPoint (.finished (.error exception)) self
  | .act action next, self, machine =>
    exec next self { machine with trace := machine.trace ++ [.act action] }
  | .awaitCounter counter next, self, machine => do
      let machine ← machine.setPoint (.awaitCounter counter next) self
      machine.blockOnCounter counter self
  | .awaitSubTask subTask next, self, machine => do
      let address := machine.freeAddress
      let machine := { machine with freeAddress := address + 1 }
      let machine := machine.setSubTask address { point := .initial subTask }
      let machine ← exec subTask (.sub address) machine
      match ← machine.pointOf (.sub address) with
      | .finished result => exec (next result) self (machine.destroySubTask address)
      | _ => do
          let machine ← machine.setPoint (.awaitSubTask address next) self
          machine.blockOnSubTask address self

/-- `resume()`: `await_resume` of what was awaited, and on from there. -/
def resume (object : BitVec 64 → V) (self : Coro) (machine : Machine A E V) :
    Option (Machine A E V) := do
  match ← machine.pointOf self with
  | .initial body => exec body self machine
  | .awaitCounter counter next =>
    exec (next (object counter)) self
      { machine with trace := machine.trace ++ [.waited counter] }
  | .awaitSubTask address next =>
    match ← machine.pointOf (.sub address) with
    | .finished result => exec (next result) self (machine.destroySubTask address)
    | _ => none
  | .finished _ => none

/-- "Finished, unwind the stack and continue"; a sub-task that is not done is blocked
on something again. -/
def unwind (next : Machine A E V → Option (Machine A E V)) (top : Nat)
    (machine : Machine A E V) : Option (Machine A E V) := do
  let subTask ← machine.subTasks top
  match subTask.point with
  | .finished _ =>
    let machine := machine.setSubTask top { subTask with hasBaseTask := false, prevSubTask := none }
    next { machine with subTaskStackTop := subTask.prevSubTask }
  | _ => return machine

/-- `resumeStep`; its loop ends when the stack is empty. -/
def resumeStep (object : BitVec 64 → V) : Nat → Machine A E V → Option (Machine A E V)
  | 0, _ => none
  | count + 1, machine =>
    match machine.subTaskStackTop with
    | none => machine.resume object .base
    | some top => do
        let subTask ← machine.subTasks top
        let machine := machine.setSubTask top { subTask with nextSubTask := none }
        let machine ← machine.resume object (.sub top)
        machine.unwind (resumeStep object count) top

def done (machine : Machine A E V) : Bool :=
  match machine.point with
  | .finished _ => true
  | _ => false

/-- `tryExecuteCoroutineTask`; whether the task is finished. -/
def tryExecuteCoroutineTask (object : BitVec 64 → V) (isCounterComplete : BitVec 64 → Bool)
    (machine : Machine A E V) : Option (Machine A E V × Bool) :=
  if machine.done then
    some (machine, true)
  else if machine.blockedOnCounter > 0 ∧ ¬ isCounterComplete machine.blockedOnCounter then
    some (machine, false)
  else do
    let machine ← resumeStep object (machine.freeAddress + 1)
      { machine with blockedOnCounter := 0 }
    return (machine, machine.done)

end Machine

end Voxen.Svc.TaskCoro
