import Voxen.Lib.LinkChain
import Voxen.Lib.Runs
import Mathlib.Data.BitVec

/-!
# The inbound queue of an agent

An intrusive list: a message header has the link to the message that came after it,
the queue points to its oldest and its newest message.  Every call holds the lock
of the queue from its first access to its last, so calls come one after another.
-/

namespace Voxen.Svc.InboundQueue

/-- The part of a `MessageHeader` that the queue works with. -/
structure Header (Ptr : Type) where
  queueLink : Option Ptr := none
  hasDeleterBlock : Bool := false
  hasRequestBlock : Bool := false
  atomicWord : BitVec 32 := 1
  deriving DecidableEq

/-- `InboundQueue`, and the headers that are allocated. -/
structure State (Ptr : Type) where
  heap : Ptr → Option (Header Ptr)
  waitWord : BitVec 32 := 0
  oldest : Option Ptr := none
  newest : Option Ptr := none

/-- What a call does outside of the queue and its messages. -/
inductive Event (Ptr : Type) where
  | wakeSingle
  | releaseRef (msg : Ptr)
  | deleter (msg : Ptr)
  | destroyRequestBlock (msg : Ptr)
  | deallocate (msg : Ptr)
  deriving DecidableEq

/-- The message a reference of which was released. -/
def Event.released? {Ptr : Type} : Event Ptr → Option Ptr
  | releaseRef msg => some msg
  | _ => none

/-- The link of a message. -/
def State.link {Ptr : Type} (state : State Ptr) (msg : Ptr) : Option Ptr :=
  (state.heap msg).bind Header.queueLink

variable {Ptr : Type}

/-- `MessageHeader::releaseRef`; it is not possible on a message that was freed. -/
def releaseRef [DecidableEq Ptr] (state : State Ptr) (msg : Ptr) :
    Option (List (Event Ptr) × State Ptr) :=
  match state.heap msg with
  | none => none
  | some hdr =>
    if hdr.atomicWord &&& 0xFFFF = 1 then
      some (.releaseRef msg ::
        ((if hdr.hasDeleterBlock then [.deleter msg] else []) ++
          (if hdr.hasRequestBlock then [.destroyRequestBlock msg] else []) ++
          [.deallocate msg]),
        { state with heap := Function.update state.heap msg none })
    else
      some ([.releaseRef msg],
        { state with
          heap := Function.update state.heap msg
            (some { hdr with atomicWord := hdr.atomicWord - 1 }) })

/-- The write of a link. -/
def setLink [DecidableEq Ptr] (state : State Ptr) (msg : Ptr) (link : Option Ptr) :
    Option (State Ptr) :=
  match state.heap msg with
  | none => none
  | some hdr =>
    some { state with
      heap := Function.update state.heap msg (some { hdr with queueLink := link }) }

/-- `m_wait_word.exchange(0)` and the wake-up after it. -/
def notify (state : State Ptr) : List (Event Ptr) × State Ptr :=
  (if state.waitWord = 1 then [.wakeSingle] else [], { state with waitWord := 0 })

/-- `push`. -/
def push [DecidableEq Ptr] (state : State Ptr) (hdr : Ptr) :
    Option (List (Event Ptr) × State Ptr) := do
  let state ← setLink state hdr none
  match state.newest with
  | none => return notify { state with newest := some hdr, oldest := some hdr }
  | some newest =>
    let state ← setLink state newest (some hdr)
    return notify { state with newest := some hdr }

/-- `std::exchange(m_oldest, m_oldest->queue_link)` for the message `m_oldest`. -/
def exchangeOldest (state : State Ptr) (msg : Ptr) : Option (State Ptr) :=
  match state.heap msg with
  | none => none
  | some hdr => some { state with oldest := hdr.queueLink }

/-- The newest message is gone when there is no oldest one any more. -/
def resetNewest (state : State Ptr) : State Ptr :=
  match state.oldest with
  | none => { state with newest := none }
  | some _ => state

/-- `pop()`. -/
def pop (state : State Ptr) : Option (Option Ptr × State Ptr) :=
  match state.oldest with
  | none => some (none, state)
  | some msg =>
    match exchangeOldest state msg with
    | none => none
    | some state => some (some msg, resetNewest state)

/-- The loop of `pop(span)`; `popped` is a `uint32_t`. -/
def popLoop : Nat → Nat → List (Option Ptr) → State Ptr →
    Option (Nat × List (Option Ptr) × State Ptr)
  | 0, _, _, _ => none
  | fuel + 1, popped, msgs, state =>
    if popped < msgs.length then
      match state.oldest with
      | none => some (popped, msgs, state)
      | some msg =>
        match exchangeOldest state msg with
        | none => none
        | some state =>
          popLoop fuel ((popped + 1) % 2 ^ 32) (msgs.set popped (some msg)) state
    else some (popped, msgs, state)

/-- `pop(std::span<MessageHeader *>)`: the number of messages, the span and the queue after it. -/
def popSpan (state : State Ptr) (msgs : List (Option Ptr)) :
    Option (Nat × List (Option Ptr) × State Ptr) :=
  match popLoop (msgs.length + 1) 0 msgs state with
  | none => none
  | some (popped, msgs, state) => some (popped, msgs, resetNewest state)

/-- The loop of `clear` for as many rounds as there is fuel. -/
def clearLoop [DecidableEq Ptr] : Nat → State Ptr → Option (List (Event Ptr) × State Ptr)
  | 0, _ => none
  | fuel + 1, state =>
    match state.oldest with
    | none => some ([], state)
    | some msg => do
        let state ← exchangeOldest state msg
        let (events, state) ← releaseRef state msg
        let (later, state) ← clearLoop fuel state
        return (events ++ later, state)

/-- `clear`. -/
def clear [DecidableEq Ptr] (fuel : Nat) (state : State Ptr) :
    Option (List (Event Ptr) × State Ptr) :=
  match clearLoop fuel state with
  | none => none
  | some (events, state) => some (events, { state with newest := none })

/-- A queue, the messages pushed so far, and those popped or released. -/
structure System (Ptr : Type) where
  queue : State Ptr
  pushed : List Ptr := []
  removed : List Ptr := []

/-- The messages that were pushed and not yet removed, in push order. -/
def System.queued (system : System Ptr) : List Ptr :=
  system.pushed.drop system.removed.length

/-- The calls, and what other code does: it allocates and frees messages and writes
their headers, and `wait` sets the wait word. -/
inductive Action (Ptr : Type) where
  | push (hdr : Ptr)
  | pop
  | popSpan (msgs : List (Option Ptr))
  | clear (fuel : Nat)
  | elsewhere (heap : Ptr → Option (Header Ptr)) (waitWord : BitVec 32)

/-- One call.  Who pushes a message owns it, so that it is not queued; nobody else
frees a queued message or writes its link; a span is shorter than `2 ^ 32` (the one
caller has eight elements). -/
def step [DecidableEq Ptr] (system : System Ptr) : Action Ptr → Option (System Ptr)
  | .push hdr =>
    if hdr ∈ system.queued then none
    else
      match push system.queue hdr with
      | none => none
      | some (_, queue) => some { system with queue, pushed := system.pushed ++ [hdr] }
  | .pop =>
    match pop system.queue with
    | none => none
    | some (msg, queue) => some { system with queue, removed := system.removed ++ msg.toList }
  | .popSpan msgs =>
    if msgs.length < 2 ^ 32 then
      match popSpan system.queue msgs with
      | none => none
      | some (popped, msgs, queue) =>
        some { system with
          queue, removed := system.removed ++ (msgs.take popped).filterMap id }
    else none
  | .clear fuel =>
    match clear fuel system.queue with
    | none => none
    | some (events, queue) =>
      some { system with
        queue, removed := system.removed ++ events.filterMap Event.released? }
  | .elsewhere heap waitWord =>
    if ∀ msg ∈ system.queued,
        (heap msg).map Header.queueLink = (system.queue.heap msg).map Header.queueLink then
      some { system with queue := { system.queue with heap, waitWord } }
    else none

end Voxen.Svc.InboundQueue
