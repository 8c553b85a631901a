import Voxen.Land.ChunkKey
import Voxen.Lib.Runs

/-!
# Chunk tickets

A ticket is a movable handle of a slot of `LandService::m_chunk_tickets`.  Agents get
one by a request, and a ticket tells the service about its adjustment and its end by
messages; the service handles the messages in the order they were sent in.
-/

namespace Voxen.Land

namespace Consts

/-- `MAX_TICKET_BOX_AREA_SIZE`. -/
abbrev maxTicketBoxAreaSize : Nat := 24

/-- `MAX_TICKET_OCTA_AREA_RADIUS`. -/
abbrev maxTicketOctaAreaRadius : Nat := 16

end Consts

/-- `ChunkTicketArea`, a variant of `ChunkTicketBoxArea` and `ChunkTicketOctahedronArea`. -/
inductive ChunkTicketArea where
  | box (first last : ChunkKey)
  | octahedron (pivot : ChunkKey) (scaledRadius : BitVec 8)
deriving DecidableEq

/-- Distance of two coordinates, `glm::abs(hi - lo)`. -/
def axisDistance (lo hi : BitVec 32) : Nat := (hi.toInt - lo.toInt).natAbs

/-- `validateChunkTicketArea(area)`.  Its assertions that the keys are valid change nothing for
the areas that pass them. -/
def validateChunkTicketArea : ChunkTicketArea → Bool
  | .box lo hi =>
    let blo := lo.base
    let bhi := hi.base
    if lo.scaleLog2.toNat ≥ Consts.numLodScales then false
    else if bhi.x.sle blo.x || bhi.y.sle blo.y || bhi.z.sle blo.z then false
    else
      let maxDist := max (max (axisDistance blo.x bhi.x) (axisDistance blo.y bhi.y))
        (axisDistance blo.z bhi.z) >>> lo.scaleLog2.toNat
      !(maxDist > Consts.maxTicketBoxAreaSize)
  | .octahedron pivot scaledRadius =>
    if pivot.scaleLog2.toNat ≥ Consts.numLodScales then false
    else !(scaledRadius.toNat == 0 || scaledRadius.toNat > Consts.maxTicketOctaAreaRadius)

/-- `ChunkTicket`. -/
structure ChunkTicket where
  /-- `m_ticket_id`; `none` is `INVALID_TICKET_ID`. -/
  ticketId : Option Nat := none
  /-- Whether `m_sender` is set. -/
  hasSender : Bool := false
  /-- The grant this handle comes from; the source does not number them. -/
  grant : Nat := 0
deriving DecidableEq

/-- A message to the service; adjustments and removals carry the grant of their ticket. -/
inductive ChunkTicketMessage where
  /-- `ChunkTicketRequestMessage`, with the address of the ticket in its payload. -/
  | request (payload : Nat) (area : ChunkTicketArea)
  | adjust (ticketId : Nat) (newArea : ChunkTicketArea) (grant : Nat)
  | remove (ticketId : Nat) (grant : Nat)
deriving DecidableEq

/-- The slot and the grant an adjustment or a removal is about. -/
def ChunkTicketMessage.about : ChunkTicketMessage → Option (Nat × Nat)
  | .request _ _ => none
  | .adjust ticketId _ grant => some (ticketId, grant)
  | .remove ticketId grant => some (ticketId, grant)

/-- What `~ChunkTicket()` sends. -/
def ChunkTicket.destroyed (ticket : ChunkTicket) : List ChunkTicketMessage :=
  match ticket.ticketId with
  | some ticketId => if ticket.hasSender then [.remove ticketId ticket.grant] else []
  | none => []

/-- `LandServiceImpl::TicketState`. -/
structure TicketState where
  area : ChunkTicketArea
  valid : Bool
deriving DecidableEq

namespace ChunkTickets

open ChunkTicketMessage (request adjust remove)

/-- The ticket objects of all agents, the messages on their way and the service. -/
structure State where
  /-- The ticket objects alive, by address. -/
  tickets : Nat → Option ChunkTicket := fun _ => none
  queue : List ChunkTicketMessage := []
  /-- `m_chunk_tickets`. -/
  chunkTickets : List TicketState := []
  /-- The area every grant was given or validly adjusted to last. -/
  areas : Nat → Option ChunkTicketArea := fun _ => none
  nextGrant : Nat := 0

inductive Action where
  /-- `ChunkTicket()`. -/
  | construct (address : Nat)
  /-- `ChunkTicket(ChunkTicket &&other)`. -/
  | moveConstruct (address other : Nat)
  /-- `operator=(ChunkTicket &&other)`. -/
  | moveAssign (address other : Nat)
  /-- `~ChunkTicket()`. -/
  | destroy (address : Nat)
  /-- `adjustAsync(area)`. -/
  | adjustAsync (address : Nat) (area : ChunkTicketArea)
  /-- Send a request with the ticket at the address as its payload. -/
  | sendRequest (address : Nat) (area : ChunkTicketArea)
  /-- The service handles the message sent first. -/
  | handle

/-- The ticket at the address is the payload of a request that is not handled yet. -/
def State.inFlight (state : State) (address : Nat) : Bool :=
  state.queue.any fun
    | .request payload _ => payload == address
    | _ => false

/-- The slot of a new ticket: the first invalid one, else one more. -/
def takeSlot (slots : List TicketState) (area : ChunkTicketArea) : Nat × List TicketState :=
  let taken : TicketState := { area := area, valid := true }
  match slots.findIdx? fun slot => !slot.valid with
  | some ticketId => (ticketId, slots.set ticketId taken)
  | none => (slots.length, slots ++ [taken])

/-- `msg.ticket = ticket`: the swap leaves the former value in the temporary, which is destroyed. -/
def State.assignPayload (state : State) (payload : Nat) (old ticket : ChunkTicket) : State :=
  { state with
    tickets := Function.update state.tickets payload (some ticket)
    queue := state.queue ++ old.destroyed }

/-- `handleChunkTicketRequest(msg)`. -/
def State.handleChunkTicketRequest (state : State) (payload : Nat) (area : ChunkTicketArea) :
    Option State := do
  let old ← state.tickets payload
  if !validateChunkTicketArea area then
    return state.assignPayload payload old {}
  else
    let (ticketId, slots) := takeSlot state.chunkTickets area
    let ticket := { ticketId := some ticketId, hasSender := true, grant := state.nextGrant }
    return { state.assignPayload payload old ticket with
      chunkTickets := slots
      areas := Function.update state.areas state.nextGrant (some area)
      nextGrant := state.nextGrant + 1 }

/-- `handleChunkTicketAdjust(msg)`; there is no result when its assertion fails. -/
def State.handleChunkTicketAdjust (state : State) (ticketId : Nat) (newArea : ChunkTicketArea)
    (grant : Nat) : Option State :=
  if !validateChunkTicketArea newArea then some state
  else if ticketId < state.chunkTickets.length then
    some { state with
      chunkTickets := state.chunkTickets.modify ticketId fun slot => { slot with area := newArea }
      areas := Function.update state.areas grant (some newArea) }
  else none

/-- `handleChunkTicketRemove(msg)`; there is no result when its assertion fails. -/
def State.handleChunkTicketRemove (state : State) (ticketId : Nat) : Option State :=
  if ticketId < state.chunkTickets.length then
    some { state with
      chunkTickets := state.chunkTickets.modify ticketId fun slot => { slot with valid := false } }
  else none

def State.handle (state : State) : Option State :=
  match state.queue with
  | [] => none
  | message :: rest =>
    let state := { state with queue := rest }
    match message with
    | .request payload area => state.handleChunkTicketRequest payload area
    | .adjust ticketId newArea grant => state.handleChunkTicketAdjust ticketId newArea grant
    | .remove ticketId _ => state.handleChunkTicketRemove ticketId

/-- An action; only objects that are alive are used, the ticket in a request lives until the
request is handled, and only valid tickets are adjusted. -/
def step (state : State) : Action → Option State
  | .construct address =>
    match state.tickets address with
    | some _ => none
    | none => some { state with tickets := Function.update state.tickets address (some {}) }
  | .moveConstruct address other =>
    match state.tickets address, state.tickets other with
    | none, some source => some { state with
        tickets := Function.update (Function.update state.tickets address (some source)) other
          (some {}) }
    | _, _ => none
  | .moveAssign address other =>
    match state.tickets address, state.tickets other with
    | some target, some source => some { state with
        tickets := Function.update (Function.update state.tickets address (some source)) other
          (some target) }
    | _, _ => none
  | .destroy address =>
    match state.tickets address with
    | none => none
    | some ticket =>
      if state.inFlight address then none
      else some { state with
        tickets := Function.update state.tickets address none
        queue := state.queue ++ ticket.destroyed }
  | .adjustAsync address area =>
    match state.tickets address with
    | none => none
    | some ticket =>
      match ticket.ticketId with
      | none => none
      | some ticketId =>
        if ticket.hasSender then
          some { state with queue := state.queue ++ [adjust ticketId area ticket.grant] }
        else none
  | .sendRequest address area =>
    match state.tickets address with
    | none => none
    | some _ =>
      if state.inFlight address then none
      else some { state with queue := state.queue ++ [request address area] }
  | .handle => state.handle

/-- Take the actions one after another from the start of the service. -/
def run (actions : List Action) : Option State := Runs.run step {} actions

/-- The action, or the message it handles, names the ticket at an address. -/
def State.Names (state : State) (address : Nat) : Action → Prop
  | .construct target => address = target
  | .moveConstruct target other => address = target ∨ address = other
  | .moveAssign target other => address = target ∨ address = other
  | .destroy target => address = target
  | .adjustAsync target _ => address = target
  | .sendRequest target _ => address = target
  | .handle =>
    match state.queue with
    | [] => False
    | .request payload _ :: _ => address = payload
    | .adjust _ _ grant :: _ => (state.tickets address).map (·.grant) = some grant
    | .remove _ grant :: _ => (state.tickets address).map (·.grant) = some grant

end ChunkTickets

end Voxen.Land
