import Voxen.Lib.Runs
import Voxen.Svc.MessageQueue

/-!
# The message router

Threads register and unregister agents and send messages; each agent polls its own
queue.  A step is one section under a lock, or what a thread does without one.  The
calls a handler makes are steps of other threads while its poll is in progress.
-/

namespace Voxen.Svc.MessageRouter

open Function (update)

/-- `MessageHeader *`, numbered in the order of allocation. -/
abbrev Message := Nat

/-- `InboundQueue *`, the index in `m_queue_storage`. -/
abbrev QueueId := Nat

/-- The header of a message with the fields of its `atomic_word`: the reference
count, the waiting flag and the status.  `handle` tells if a `RequestHandle` refers
to it. -/
structure Header (Uid : Type) extends MessageHeader Uid where
  refs : Nat := 1
  handle : Bool := false
  waiting : Bool := false
  status : RequestStatus := .pending
  deriving DecidableEq

/-- The status bits after `fetch_or`. -/
def fetchOr : RequestStatus → RequestStatus → RequestStatus
  | .pending, status => status
  | old, .pending => old
  | old, status => if old = status then old else .dropped

/-- An element of an inbound queue; `dest` is the UID it was sent to. -/
structure Entry (Uid : Type) where
  message : Message
  dest : Uid
  deriving DecidableEq

/-- Where a `completeRequest` is. -/
inductive Completing where
  | setStatus (message : Message) (status : RequestStatus)
  | findSender (message : Message)
  | pushBack (message : Message) (queue : QueueId)
  deriving DecidableEq

def Completing.message : Completing → Message
  | setStatus message _ => message
  | findSender message => message
  | pushBack message _ => message

/-- Where the call of a thread is. -/
inductive Call (Uid : Type) where
  | idle
  | pushing (dest : Uid) (message : Message) (queue : QueueId)
  | completing (left : Completing)
  | clearing (uid : Uid) (queue : QueueId)
  | recycling (queue : QueueId)
  deriving DecidableEq

/-- Where `pollMessages` of an agent is, with the rest of the popped batch. -/
inductive Poll where
  | idle
  | next (rest : List Message)
  | handling (message : Message) (rest : List Message)
  | completing (left : Completing) (rest : List Message)
  deriving DecidableEq

/-- The messages a poll has popped and is not done with. -/
def Poll.messages : Poll → List Message
  | idle => []
  | next rest => rest
  | handling message rest => message :: rest
  | completing left rest => left.message :: rest

/-- A registered `MessageQueue`. -/
structure Agent where
  inboundQueue : QueueId
  poll : Poll := .idle
  deriving DecidableEq

/-- A popped message: the UID it was sent to and the agent that popped it. -/
structure Pop (Uid : Type) where
  message : Message
  dest : Uid
  popper : Uid
  deriving DecidableEq

/-- The shards are one map: each UID belongs to one of them.  `freeQueues` has the
back of `m_free_queues` first. -/
structure State (Uid Thread : Type) where
  routes : Uid → Option QueueId := fun _ => none
  queues : QueueId → List (Entry Uid) := fun _ => []
  queueStorage : Nat := 0
  freeQueues : List QueueId := []
  headers : Message → Option (Header Uid) := fun _ => none
  nextMessage : Nat := 0
  agents : Uid → Option Agent := fun _ => none
  calls : Thread → Call Uid := fun _ => .idle
  popped : List (Pop Uid) := []

/-- How a message is sent: plainly, or as a request tracked by a handle or by a
completion message. -/
inductive Sending where
  | plain
  | withHandle
  | withCompletion
  deriving DecidableEq

inductive Action (Uid Thread : Type) where
  | registerAgent (uid : Uid)
  | unregisterAgent (thread : Thread) (uid : Uid)
  | send (thread : Thread) (from_ dest msgUid : Uid) (sending : Sending)
  | advance (thread : Thread)
  | pollMessages (uid : Uid)
  | advancePoll (uid : Uid) (handlerValid : Bool)
  | handlerReturns (uid : Uid) (throws : Bool)
  | wait (message : Message)
  | resetHandle (message : Message)

namespace State

variable {Uid Thread : Type} [DecidableEq Uid] [DecidableEq Thread]

def setCall (state : State Uid Thread) (thread : Thread) (call : Call Uid) : State Uid Thread :=
  { state with calls := update state.calls thread call }

/-- A header is written; nothing happens if the message is not there. -/
def modifyHeader (state : State Uid Thread) (message : Message)
    (change : Header Uid → Header Uid) : State Uid Thread :=
  { state with
    headers := update state.headers message ((state.headers message).map change) }

/-- `MessageHeader::releaseRef`. -/
def releaseRef (state : State Uid Thread) (message : Message) : State Uid Thread :=
  state.modifyHeader message fun header => { header with refs := header.refs - 1 }

/-- `InboundQueue::push`. -/
def push (state : State Uid Thread) (queue : QueueId) (entry : Entry Uid) : State Uid Thread :=
  { state with queues := update state.queues queue (state.queues queue ++ [entry]) }

/-- `InboundQueue::clear` -/
def clear (state : State Uid Thread) (queue : QueueId) : State Uid Thread :=
  let cleared := (state.queues queue).foldl (fun state entry => state.releaseRef entry.message) state
  { cleared with queues := update state.queues queue [] }

def setPoll (state : State Uid Thread) (uid : Uid) (agent : Agent) (poll : Poll) :
    State Uid Thread :=
  { state with agents := update state.agents uid (some { agent with poll }) }

/-- A step of `completeRequest`; what is left of it. -/
def completeStep (state : State Uid Thread) : Completing → State Uid Thread × Option Completing
  | .setStatus message status =>
    match state.headers message with
    | none => (state, none)
    | some header =>
      let completed := state.modifyHeader message fun header =>
        { header with
          status := fetchOr header.status status
          isCompletionMessage := header.needsCompletionMessage }
      if header.needsCompletionMessage then (completed, some (.findSender message))
      else (completed.releaseRef message, none)
  | .findSender message =>
    match state.headers message with
    | none => (state, none)
    | some header =>
      match state.routes header.fromUid with
      | some queue => (state, some (.pushBack message queue))
      | none => (state.releaseRef message, none)
  | .pushBack message queue =>
    match state.headers message with
    | none => (state, none)
    | some header => (state.push queue ⟨message, header.fromUid⟩, none)

omit [DecidableEq Uid] [DecidableEq Thread] in
/-- The back of the free list, or a new queue; then the free list and the storage. -/
def takeQueue (state : State Uid Thread) : QueueId × List QueueId × Nat :=
  match state.freeQueues with
  | queue :: freeQueues => (queue, freeQueues, state.queueStorage)
  | [] => (state.queueStorage, [], state.queueStorage + 1)

/-- `MessageRouter::registerAgent`; a UID that is routed already throws, and the
queue goes to the free list. -/
def registerAgent (state : State Uid Thread) (uid : Uid) : State Uid Thread :=
  let (queue, freeQueues, queueStorage) := state.takeQueue
  match state.routes uid with
  | some _ => { state with freeQueues := queue :: freeQueues, queueStorage }
  | none =>
    { state with
      routes := update state.routes uid (some queue)
      agents := update state.agents uid (some { inboundQueue := queue })
      freeQueues
      queueStorage }

/-- The header of a new message. -/
def newHeader (from_ msgUid : Uid) : Sending → Header Uid
  | .plain => { fromUid := from_, msgUid }
  | .withHandle => { fromUid := from_, msgUid, hasRequestBlock := true, refs := 2, handle := true }
  | .withCompletion =>
    { fromUid := from_, msgUid, hasRequestBlock := true, needsCompletionMessage := true }

/-- A new message is allocated, and `MessageRouter::send` looks up the route. -/
def send (state : State Uid Thread) (thread : Thread) (from_ dest msgUid : Uid)
    (sending : Sending) : State Uid Thread :=
  let message := state.nextMessage
  let sent := { state with
    headers := update state.headers message (some (newHeader from_ msgUid sending))
    nextMessage := message + 1 }
  match state.routes dest with
  | some queue => sent.setCall thread (.pushing dest message queue)
  | none =>
    if sending = .plain then sent.releaseRef message
    else sent.setCall thread (.completing (.setStatus message .dropped))

/-- The next step of the call of a thread. -/
def advance (state : State Uid Thread) (thread : Thread) : Option (State Uid Thread) :=
  match state.calls thread with
  | .idle => none
  | .pushing dest message queue => some ((state.push queue ⟨message, dest⟩).setCall thread .idle)
  | .completing left =>
    let (completed, next) := state.completeStep left
    some (completed.setCall thread (next.elim .idle .completing))
  | .clearing _ queue => some ((state.clear queue).setCall thread (.recycling queue))
  | .recycling queue =>
    some { state.setCall thread .idle with freeQueues := queue :: state.freeQueues }

/-- The next step of the poll of an agent, except in a handler. -/
def advancePoll (state : State Uid Thread) (uid : Uid) (handlerValid : Bool) :
    Option (State Uid Thread) := do
  let agent ← state.agents uid
  match agent.poll with
  | .idle => none
  | .next [] =>
    let batch := (state.queues agent.inboundQueue).take MessageQueue.popBatch
    if batch.isEmpty then
      some (state.setPoll uid agent .idle)
    else
      some { state.setPoll uid agent (.next (batch.map Entry.message)) with
        queues := update state.queues agent.inboundQueue
          ((state.queues agent.inboundQueue).drop MessageQueue.popBatch)
        popped := state.popped ++ batch.map fun entry => ⟨entry.message, entry.dest, uid⟩ }
  | .next (message :: rest) =>
    let header ← state.headers message
    if handlerValid then
      some (state.setPoll uid agent (.handling message rest))
    else if header.hasRequestBlock ∧ ¬ header.isCompletionMessage then
      some (state.setPoll uid agent (.completing (.setStatus message .dropped) rest))
    else
      some ((state.setPoll uid agent (.next rest)).releaseRef message)
  | .handling _ _ => none
  | .completing left rest =>
    let (completed, next) := state.completeStep left
    some (completed.setPoll uid agent (next.elim (.next rest) fun left => .completing left rest))

/-- A handler returns or throws. -/
def handlerReturns (state : State Uid Thread) (uid : Uid) (throws : Bool) :
    Option (State Uid Thread) := do
  let agent ← state.agents uid
  match agent.poll with
  | .handling message rest =>
    let header ← state.headers message
    if header.hasRequestBlock ∧ ¬ header.isCompletionMessage then
      let status := if throws then .failed else .complete
      some (state.setPoll uid agent (.completing (.setStatus message status) rest))
    else
      -- an exception leaves `pollMessages`, and the rest of the batch is forgotten
      some ((state.setPoll uid agent (if throws then .idle else .next rest)).releaseRef message)
  | _ => none

end State

variable {Uid Thread : Type} [DecidableEq Uid] [DecidableEq Thread]

/-- An agent is not unregistered while it polls: a `MessageQueue` belongs to one thread. -/
def step (state : State Uid Thread) : Action Uid Thread → Option (State Uid Thread)
  | .registerAgent uid => some (state.registerAgent uid)
  | .unregisterAgent thread uid =>
    match state.routes uid, state.agents uid with
    | some queue, some ⟨_, .idle⟩ =>
      if state.calls thread = .idle then
        some { state.setCall thread (.clearing uid queue) with
          routes := update state.routes uid none
          agents := update state.agents uid none }
      else none
    | _, _ => none
  | .send thread from_ dest msgUid sending =>
    if state.calls thread = .idle then some (state.send thread from_ dest msgUid sending) else none
  | .advance thread => state.advance thread
  | .pollMessages uid =>
    match state.agents uid with
    | some ⟨queue, .idle⟩ => some (state.setPoll uid ⟨queue, .idle⟩ (.next []))
    | _ => none
  | .advancePoll uid handlerValid => state.advancePoll uid handlerValid
  | .handlerReturns uid throws => state.handlerReturns uid throws
  | .wait message =>
    match state.headers message with
    | some { handle := true, .. } =>
      some (state.modifyHeader message fun header => { header with waiting := true })
    | _ => none
  | .resetHandle message =>
    match state.headers message with
    | some { handle := true, .. } =>
      some (state.modifyHeader message fun header =>
        { header with handle := false, refs := header.refs - 1 })
    | _ => none

/-- A run from the state without agents. -/
def run (actions : List (Action Uid Thread)) : Option (State Uid Thread) :=
  Runs.run step {} actions

/-! ## What the claims are about -/

/-- The message is a request that nobody has completed yet. -/
def State.Pending (state : State Uid Thread) (message : Message) : Prop :=
  ∃ header, state.headers message = some header ∧ header.hasRequestBlock = true ∧
    header.status = .pending

instance (state : State Uid Thread) (message : Message) : Decidable (state.Pending message) :=
  match found : state.headers message with
  | none => isFalse fun ⟨_, same, _⟩ => by rw [found] at same; cases same
  | some header =>
    decidable_of_iff (header.hasRequestBlock = true ∧ header.status = .pending)
      ⟨fun pending => ⟨header, found, pending⟩, fun ⟨_, same, pending⟩ => by
        rw [found] at same; cases same; exact pending⟩

/-- The call has a message in its hands: it is about to push or complete it. -/
def Call.Holds (call : Call Uid) (message : Message) : Prop :=
  match call with
  | .pushing _ held _ => held = message
  | .completing left => left.message = message
  | _ => False

/-- The message is in the inbound queue of a registered agent, popped by a poll in
progress, or in the hands of a send that has not returned. -/
inductive State.Attended (state : State Uid Thread) (message : Message) : Prop where
  | queued (uid : Uid) (queue : QueueId) (entry : Entry Uid)
      (routed : state.routes uid = some queue) (mem : entry ∈ state.queues queue)
      (same : entry.message = message)
  | polled (uid : Uid) (agent : Agent) (registered : state.agents uid = some agent)
      (mem : message ∈ agent.poll.messages)
  | sent (thread : Thread) (holds : (state.calls thread).Holds message)

end Voxen.Svc.MessageRouter
