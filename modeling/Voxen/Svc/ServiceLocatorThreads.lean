import Voxen.Lib.Runs
import Voxen.Svc.ServiceLocatorRequests

/-!
# Requests from several threads

The calls of every thread are a stack: each factory that runs has a frame.  A step is
a section under the lock, or what a factory does between two calls.  All the threads
share the list of pending services.
-/

namespace Voxen.Svc.ServiceLocator

/-- A call of a factory.  Beside it: the number of factory calls that were begun
before. -/
structure Frame (Uid : Type) where
  id : Uid
  remaining : List Uid
  throws : Bool
  began : Nat

/-- What the thread does next. -/
inductive Control (Uid : Type) where
  | idle
  | find (id : Uid)
  | lock (id : Uid)
  | factory
  | emplace (service : Nat)
  | raise (error : Error)

structure Call (Uid : Type) where
  frames : List (Frame Uid) := []
  control : Control Uid := .idle

/-- The locator and the calls of the threads; beside them the number of factory calls
begun so far and what the requests returned. -/
structure State (Uid Thread : Type) where
  impl : Impl Uid
  calls : Thread → Call Uid := fun _ => {}
  begun : Nat := 0
  returned : List (Uid × Except Error Nat) := []

inductive Action (Uid Thread : Type) where
  | request (thread : Thread) (id : Uid)
  | advance (thread : Thread)

variable {Uid Thread : Type} [DecidableEq Uid] [DecidableEq Thread]

/-- A request returns or throws into the factory that made it. -/
def Control.after (frames : List (Frame Uid)) (result : Except Error Nat) : Control Uid :=
  match frames, result with
  | [], _ => .idle
  | _ :: _, .ok _ => .factory
  | _ :: _, .error error => .raise error

namespace State

def setCall (state : State Uid Thread) (thread : Thread) (call : Call Uid) : State Uid Thread :=
  { state with calls := Function.update state.calls thread call }

def returns (state : State Uid Thread) (thread : Thread) (frames : List (Frame Uid)) (id : Uid)
    (result : Except Error Nat) : State Uid Thread :=
  { state.setCall thread ⟨frames, .after frames result⟩ with
    returned := (id, result) :: state.returned }

/-- The next step of a thread. -/
def advance (state : State Uid Thread) (thread : Thread) : Option (State Uid Thread) :=
  match state.calls thread with
  | ⟨_, .idle⟩ => none
  | ⟨frames, .find id⟩ =>
    match state.impl.findService id with
    | some service => some (state.returns thread frames id (.ok service))
    | none => some (state.setCall thread ⟨frames, .lock id⟩)
  | ⟨frames, .lock id⟩ =>
    match state.impl.beginRequest id with
    | (impl, .active service) =>
      some ({ state with impl }.returns thread frames id (.ok service))
    | (impl, .failed error) =>
      some ({ state with impl }.returns thread frames id (.error error))
    | (impl, .starts factory) =>
      let frame : Frame Uid := ⟨id, factory.dependencies, factory.throws, state.begun⟩
      some { state.setCall thread ⟨frame :: frames, .factory⟩ with
        impl
        begun := state.begun + 1 }
  | ⟨frame :: frames, .factory⟩ =>
    match frame.remaining with
    | dep :: deps =>
      some (state.setCall thread ⟨{ frame with remaining := deps } :: frames, .find dep⟩)
    | [] =>
      if frame.throws then
        some (state.setCall thread ⟨frame :: frames, .raise .factoryFailed⟩)
      else
        let (impl, service) := state.impl.construct frame.id
        some { state.setCall thread ⟨frame :: frames, .emplace service⟩ with impl }
  | ⟨frame :: frames, .emplace service⟩ =>
    some ({ state with
      impl := state.impl.emplaceService frame.id service }.returns thread frames frame.id
        (.ok service))
  | ⟨frame :: frames, .raise error⟩ =>
    some ({ state with
      impl := state.impl.passException frame.id }.returns thread frames frame.id (.error error))
  | ⟨[], _⟩ => none

end State

def step (state : State Uid Thread) : Action Uid Thread → Option (State Uid Thread)
  | .request thread id =>
    match state.calls thread with
    | ⟨[], .idle⟩ => some (state.setCall thread ⟨[], .find id⟩)
    | _ => none
  | .advance thread => state.advance thread

/-- A run of a new locator with these factories. -/
def run (factoryMap : List (Uid × Factory Uid)) (actions : List (Action Uid Thread)) :
    Option (State Uid Thread) :=
  Runs.run step { impl := { factoryMap } } actions

/-- A service without a factory is reached. -/
def Misses (factoryMap : List (Uid × Factory Uid)) (id : Uid) : Prop :=
  ∃ missing, Relation.ReflTransGen (Depends factoryMap) id missing ∧
    factoryMap.lookup missing = none

/-- No request takes another one for a cycle, and none fails unless a service has no
factory; a service that was requested is constructed once; and the last pending
service always is the one whose start ends. -/
structure State.Correct (state : State Uid Thread) : Prop where
  acyclic : ∀ id, (id, .error .circularDependency) ∉ state.returned
  failed : ∀ id error, (id, .error error) ∈ state.returned → Misses state.impl.factoryMap id
  found : ∀ id service, (id, .ok service) ∈ state.returned →
    state.impl.constructed[service]? = some id ∧ state.impl.constructed.count id = 1
  once : ∀ id, state.impl.constructed.count id ≤ 1
  matched : state.impl.mismatched = false

/-- A service is not started while another thread is starting it, and of the starts
in progress the one that began last ends first. -/
def StepSafe (state : State Uid Thread) : Action Uid Thread → Prop
  | .advance thread =>
    match state.calls thread with
    | ⟨_, .lock id⟩ =>
      ∀ other, other ≠ thread → ∀ frame ∈ (state.calls other).frames, frame.id ≠ id
    | ⟨ending :: _, .emplace _⟩ =>
      ∀ other, other ≠ thread → ∀ frame ∈ (state.calls other).frames, frame.began < ending.began
    | ⟨ending :: _, .raise _⟩ =>
      ∀ other, other ≠ thread → ∀ frame ∈ (state.calls other).frames, frame.began < ending.began
    | _ => True
  | .request _ _ => True

end Voxen.Svc.ServiceLocator
