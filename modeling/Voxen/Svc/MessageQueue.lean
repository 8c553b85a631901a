import Mathlib.Data.List.Basic
import Mathlib.Order.Lattice

/-!
# Polling a message queue

`pollMessages` pops the inbound messages in batches of eight and dispatches each
by its kind: a completion message, a request, or a plain message.  What happens
to a message is written down as events in the order of the calls.
-/

namespace Voxen.Svc

/-- `RequestStatus`. -/
inductive RequestStatus where
  | pending
  | complete
  | failed
  | dropped
  deriving DecidableEq

/-- What dispatching reads of a `MessageHeader` and its `MessageAuxData`. -/
structure MessageHeader (Uid : Type) where
  fromUid : Uid
  msgUid : Uid
  hasRequestBlock : Bool := false
  needsCompletionMessage : Bool := false
  isCompletionMessage : Bool := false
  deriving DecidableEq

namespace MessageQueue

/-- An inbound message and what dispatching it meets outside of the queue:
whether its handler throws if it is called, and whether its sender still has a
route when a completion message is to go back to it. -/
structure Inbound (Uid : Type) where
  header : MessageHeader Uid
  throws : Bool := false
  senderRouted : Bool := true
  deriving DecidableEq

/-- `MessageQueue::Impl`: the sorted UIDs that have a handler. -/
structure Impl (Uid : Type) where
  handlers : List Uid := []
  completionHandlers : List Uid := []

/-- What happens to a message; `completed` is the status set on a request. -/
inductive Event (Uid : Type) where
  | handled (message : Inbound Uid)
  | discarded (message : Inbound Uid)
  | completed (message : Inbound Uid) (status : RequestStatus)
  | released (message : Inbound Uid)
  | forwarded (message : Inbound Uid)
  deriving DecidableEq

namespace Event

variable {Uid : Type}

/-- The message that was handled or discarded. -/
def dispatched? : Event Uid → Option (Inbound Uid)
  | handled message => some message
  | discarded message => some message
  | _ => none

/-- The message whose reference was released or forwarded. -/
def disposed? : Event Uid → Option (Inbound Uid)
  | released message => some message
  | forwarded message => some message
  | _ => none

end Event

variable {Uid : Type} [LinearOrder Uid]

/-- The lookup by `std::lower_bound` in a sorted array of handlers. -/
def handlerValid (handlers : List Uid) (uid : Uid) : Bool :=
  (handlers.dropWhile fun other => other < uid).head? = some uid

/-- `MessageRouter::completeRequest`. -/
def completeRequest (message : Inbound Uid) (status : RequestStatus) : List (Event Uid) :=
  .completed message status ::
    if message.header.needsCompletionMessage ∧ message.senderRouted then
      [.forwarded message]
    else
      [.released message]

/-- The body of the loop over a batch: its events, and whether an exception
leaves `pollMessages`. -/
def dispatch (impl : Impl Uid) (message : Inbound Uid) : List (Event Uid) × Bool :=
  if message.header.isCompletionMessage then
    -- the reference is released also when the handler throws
    if handlerValid impl.completionHandlers message.header.msgUid then
      ([.handled message, .released message], message.throws)
    else
      ([.discarded message, .released message], false)
  else
    let valid := handlerValid impl.handlers message.header.msgUid
    if message.header.hasRequestBlock then
      if valid then
        -- the exception of a request handler is caught and kept for the sender
        (.handled message ::
          completeRequest message (if message.throws then .failed else .complete), false)
      else
        (.discarded message :: completeRequest message .dropped, false)
    else if valid then
      ([.handled message, .released message], message.throws)
    else
      ([.discarded message, .released message], false)

/-- The loop over a batch; the messages after one whose exception leaves
`pollMessages` are not reached. -/
def dispatchBatch (impl : Impl Uid) : List (Inbound Uid) → List (Event Uid) × Bool
  | [] => ([], false)
  | message :: rest =>
    let first := dispatch impl message
    if first.2 then
      first
    else
      let others := dispatchBatch impl rest
      (first.1 ++ others.1, others.2)

/-- The size of `hdrs`. -/
def popBatch : Nat := 8

/-- `InboundQueue::pop`: the popped messages, oldest first, and the rest. -/
def pop : Nat → List (Inbound Uid) → List (Inbound Uid) × List (Inbound Uid)
  | 0, queue => ([], queue)
  | _ + 1, [] => ([], [])
  | size + 1, oldest :: queue =>
    let popped := pop size queue
    (oldest :: popped.1, popped.2)

/-- What a call of `pollMessages` did; `left` if an exception left it. -/
structure Outcome (Uid : Type) where
  popped : List (Inbound Uid) := []
  events : List (Event Uid) := []
  left : Bool := false
  queue : List (Inbound Uid) := []

/-- The loop of `pollMessages`.  Before each pop the first element of `arrivals`
has been pushed by other threads and by the handlers. -/
def pollLoop (impl : Impl Uid) :
    Nat → List (Inbound Uid) → List (List (Inbound Uid)) → Option (Outcome Uid)
  | 0, _, _ => none
  | fuel + 1, queue, arrivals =>
    let (batch, rest) := pop popBatch (queue ++ arrivals.headD [])
    if batch.isEmpty then
      some { queue := rest }
    else
      let (events, left) := dispatchBatch impl batch
      if left then
        some { popped := batch, events, left, queue := rest }
      else
        (pollLoop impl fuel rest arrivals.tail).map fun outcome =>
          { outcome with
            popped := batch ++ outcome.popped
            events := events ++ outcome.events }

/-- `pollMessages` on a queue and what is pushed to it meanwhile. -/
def pollMessages (impl : Impl Uid) (queue : List (Inbound Uid))
    (arrivals : List (List (Inbound Uid))) : Option (Outcome Uid) :=
  pollLoop impl (queue.length + arrivals.flatten.length + 1) queue arrivals

/-- Each popped message was handled or discarded once, and its reference released
or forwarded once. -/
def Outcome.Accounted (outcome : Outcome Uid) : Prop :=
  outcome.events.filterMap Event.dispatched? = outcome.popped ∧
    outcome.events.filterMap Event.disposed? = outcome.popped

instance (outcome : Outcome Uid) : Decidable outcome.Accounted :=
  inferInstanceAs (Decidable (_ ∧ _))

/-! ## Dispatching -/

/-- The exception of the handler of the message leaves `pollMessages`. -/
def leaves (impl : Impl Uid) (message : Inbound Uid) : Bool :=
  message.throws &&
    if message.header.isCompletionMessage then
      handlerValid impl.completionHandlers message.header.msgUid
    else
      !message.header.hasRequestBlock && handlerValid impl.handlers message.header.msgUid

/-- Only the last message of the batch may have an exception that leaves. -/
def LeavesLast (impl : Impl Uid) (batch : List (Inbound Uid)) : Prop :=
  ∀ message ∈ batch.dropLast, leaves impl message = false

instance (impl : Impl Uid) (batch : List (Inbound Uid)) : Decidable (LeavesLast impl batch) :=
  inferInstanceAs (Decidable (∀ _ ∈ _, _ = _))

variable {impl : Impl Uid}

theorem dispatch_left (message : Inbound Uid) :
    (dispatch impl message).2 = leaves impl message := by
  unfold dispatch leaves
  dsimp only
  split_ifs <;> simp_all

theorem dispatch_dispatched (message : Inbound Uid) :
    (dispatch impl message).1.filterMap Event.dispatched? = [message] := by
  unfold dispatch completeRequest
  dsimp only
  split_ifs <;> rfl

theorem dispatch_disposed (message : Inbound Uid) :
    (dispatch impl message).1.filterMap Event.disposed? = [message] := by
  unfold dispatch completeRequest
  dsimp only
  split_ifs <;> rfl

/-- The messages a batch gets to. -/
def reached (impl : Impl Uid) : List (Inbound Uid) → List (Inbound Uid)
  | [] => []
  | message :: rest => message :: if leaves impl message then [] else reached impl rest

/-- Every message of a batch is reached if and only if none before the last one leaves. -/
theorem reached_eq_iff (batch : List (Inbound Uid)) :
    reached impl batch = batch ↔ LeavesLast impl batch := by
  induction batch with
  | nil => simp [reached, LeavesLast]
  | cons message rest ih =>
    cases rest with
    | nil => simp [reached, LeavesLast]
    | cons next rest =>
      rw [reached, List.cons.injEq]
      cases left : leaves impl message with
      | true => simp [LeavesLast, left]
      | false =>
        simp only [Bool.false_eq_true, if_false, ih, true_and]
        simp [LeavesLast, left]

theorem dispatchBatch_left (batch : List (Inbound Uid)) :
    (dispatchBatch impl batch).2 = batch.any (leaves impl) := by
  induction batch with
  | nil => rfl
  | cons message rest ih =>
    simp only [dispatchBatch, dispatch_left, List.any_cons]
    cases left : leaves impl message with
    | true => simp [dispatch_left, left]
    | false => simp [ih]

theorem dispatchBatch_dispatched (batch : List (Inbound Uid)) :
    (dispatchBatch impl batch).1.filterMap Event.dispatched? = reached impl batch := by
  induction batch with
  | nil => rfl
  | cons message rest ih =>
    simp only [dispatchBatch, reached, dispatch_left]
    cases left : leaves impl message with
    | true => simp [dispatch_dispatched]
    | false => simp [dispatch_dispatched, ih]

theorem dispatchBatch_disposed (batch : List (Inbound Uid)) :
    (dispatchBatch impl batch).1.filterMap Event.disposed? = reached impl batch := by
  induction batch with
  | nil => rfl
  | cons message rest ih =>
    simp only [dispatchBatch, reached, dispatch_left]
    cases left : leaves impl message with
    | true => simp [dispatch_disposed]
    | false => simp [dispatch_disposed, ih]

theorem reached_of_stays {batch : List (Inbound Uid)} (stays : batch.any (leaves impl) = false) :
    reached impl batch = batch := by
  rw [reached_eq_iff]
  intro message mem
  have inBatch := (List.dropLast_sublist batch).mem mem
  exact Bool.eq_false_iff.mpr (List.any_eq_false.mp stays message inBatch)

/-! ## Batches -/

/-- The batches of eight that are popped as long as no exception leaves. -/
def batches : Nat → List (Inbound Uid) → List (List (Inbound Uid)) → List (List (Inbound Uid))
  | 0, _, _ => []
  | fuel + 1, queue, arrivals =>
    let waiting := queue ++ arrivals.headD []
    if waiting.isEmpty then []
    else waiting.take popBatch :: batches fuel (waiting.drop popBatch) arrivals.tail

/-- In each batch up to the first exception that leaves, the message whose handler
throws it is the last one. -/
def LeavesLastIn (impl : Impl Uid) : List (List (Inbound Uid)) → Prop
  | [] => True
  | batch :: others =>
    LeavesLast impl batch ∧ (batch.any (leaves impl) = false → LeavesLastIn impl others)

/-- The condition for a whole call. -/
def PollLeavesLast (impl : Impl Uid) (queue : List (Inbound Uid))
    (arrivals : List (List (Inbound Uid))) : Prop :=
  LeavesLastIn impl (batches (queue.length + arrivals.flatten.length + 1) queue arrivals)

omit [LinearOrder Uid] in
theorem pop_eq (size : Nat) (queue : List (Inbound Uid)) :
    pop size queue = (queue.take size, queue.drop size) := by
  induction size generalizing queue with
  | zero => rfl
  | succ size ih =>
    cases queue with
    | nil => rfl
    | cons oldest queue => simp [pop, ih]

omit [LinearOrder Uid] in
theorem isEmpty_take (waiting : List (Inbound Uid)) :
    (waiting.take popBatch).isEmpty = waiting.isEmpty := by
  cases waiting <;> rfl

omit [LinearOrder Uid] in
theorem drop_length_lt {fuel : Nat} {queue : List (Inbound Uid)}
    {arrivals : List (List (Inbound Uid))}
    (enough : queue.length + arrivals.flatten.length < fuel + 1)
    (waiting : (queue ++ arrivals.headD []).isEmpty = false) :
    ((queue ++ arrivals.headD []).drop popBatch).length + arrivals.tail.flatten.length < fuel := by
  have positive : 0 < (queue ++ arrivals.headD []).length := by
    rw [List.length_pos_iff]
    intro none
    rw [none] at waiting
    cases waiting
  have total : (queue ++ arrivals.headD []).length + arrivals.tail.flatten.length =
      queue.length + arrivals.flatten.length := by
    cases arrivals with
    | nil => simp
    | cons first others =>
      simp only [List.headD_cons, List.length_append, List.tail_cons, List.flatten_cons]
      omega
  rw [List.length_drop, popBatch]
  omega

/-- The loop returns, and accounts for what it popped if and only if the condition holds. -/
theorem pollLoop_accounted {fuel : Nat} {queue : List (Inbound Uid)}
    {arrivals : List (List (Inbound Uid))}
    (enough : queue.length + arrivals.flatten.length < fuel) :
    ∃ outcome, pollLoop impl fuel queue arrivals = some outcome ∧
      (outcome.Accounted ↔ LeavesLastIn impl (batches fuel queue arrivals)) := by
  induction fuel generalizing queue arrivals with
  | zero => exact absurd enough (Nat.not_lt_zero _)
  | succ fuel ih =>
    rw [pollLoop, batches, pop_eq]
    dsimp only
    rw [isEmpty_take]
    cases waiting : (queue ++ arrivals.headD []).isEmpty with
    | true => exact ⟨_, rfl, by simp [Outcome.Accounted, LeavesLastIn]⟩
    | false =>
      generalize batchIs : (queue ++ arrivals.headD []).take popBatch = batch
      simp only [Bool.false_eq_true, if_false, dispatchBatch_left, LeavesLastIn]
      cases stays : batch.any (leaves impl) with
      | true =>
        refine ⟨_, rfl, ?_⟩
        simp only [Outcome.Accounted, dispatchBatch_dispatched, dispatchBatch_disposed,
          and_self, reached_eq_iff]
        simp
      | false =>
        obtain ⟨outcome, returned, accounted⟩ := ih (drop_length_lt enough waiting)
        have whole := reached_of_stays stays
        refine ⟨_, by rw [returned]; rfl, ?_⟩
        simp only [Outcome.Accounted, List.filterMap_append, dispatchBatch_dispatched,
          dispatchBatch_disposed, whole, List.append_cancel_left_eq, forall_const]
        rw [← accounted, and_iff_right ((reached_eq_iff batch).mp whole)]
        rfl

/-- `pollMessages` returns, and each message it popped is handled or discarded once
and released or forwarded once, if and only if an exception leaves only from the last
message of a batch. -/
theorem pollMessages_accounted_iff (impl : Impl Uid) (queue : List (Inbound Uid))
    (arrivals : List (List (Inbound Uid))) :
    ∃ outcome, pollMessages impl queue arrivals = some outcome ∧
      (outcome.Accounted ↔ PollLeavesLast impl queue arrivals) :=
  pollLoop_accounted (Nat.lt_succ_self _)

/-- Two plain messages in one batch; the handler of the first one throws. -/
def throwingQueue : List (Inbound Nat) :=
  [{ header := { fromUid := 1, msgUid := 5 }, throws := true },
    { header := { fromUid := 2, msgUid := 5, hasRequestBlock := true } }]

/-- The second message is popped and lost. -/
theorem throwingQueue_loses :
    ∃ outcome, pollMessages { handlers := [5] } throwingQueue [] = some outcome ∧
      outcome.popped = throwingQueue ∧ ¬ outcome.Accounted := by
  refine ⟨_, rfl, rfl, ?_⟩
  decide

end MessageQueue

end Voxen.Svc
