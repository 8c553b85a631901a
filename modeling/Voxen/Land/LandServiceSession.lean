import Voxen.Land.LandService

/-!
# Runs of the land service

The service takes its ticks in its own thread, while the tasks it has enqueued run in others, each
once all counters it waits for are complete, and send back messages; agents send tickets and block
edits. A run is any order of these steps.
-/

namespace Voxen.Land.LandService

open PseudoChunkData (Chunk ExpandedIds)

/-- What is not computed here: the generator, and what arrays hold before they are filled. -/
structure Environment where
  generateChunk : ChunkKey → Chunk
  generatePseudoChunk : ChunkKey → PseudoChunkData
  uninitialisedIds : ExpandedIds
  uninitialisedAdjacentIds : ChunkAdjacencyRef.AdjacentIds

/-- A surface from either overload of `generate`. -/
inductive Surface where
  | ofChunks (surface : PseudoChunkSurface PseudoChunkSurface.FaceVertex)
  | ofPseudoChunks (surface : PseudoChunkSurface PseudoChunkSurface.CellVertex)

/-- `empty()`. -/
def Surface.empty : Surface → Bool
  | .ofChunks surface => surface.indices.isEmpty
  | .ofPseudoChunks surface => surface.indices.isEmpty

/-- A message to the service. Completions name the counter of the task that sent them, which the
source does not. -/
inductive Message where
  | chunkTicketRequest (area : ChunkTicketArea)
  | chunkTicketAdjust (ticketId : Nat) (newArea : ChunkTicketArea)
  | chunkTicketRemove (ticketId : Nat)
  | blockEdit (position : IVec3) (newId : BitVec 16)
  | chunkLoadCompletion (task : Nat) (key : ChunkKey) (valuePtr : Option ChunkPtr)
  | pseudoChunkDataGenCompletion (task : Nat) (key : ChunkKey)
  | pseudoChunkSurfaceGenCompletion (task : Nat) (key : ChunkKey)
      (valuePtr : Option PseudoSurfacePtr)

/-- The task that a completion message comes from. -/
def Message.sender : Message → Option Nat
  | .chunkLoadCompletion task _ _ => some task
  | .pseudoChunkDataGenCompletion task _ => some task
  | .pseudoChunkSurfaceGenCompletion task _ _ => some task
  | _ => none

/-- Where the thread of the service is. -/
inductive Phase where
  | idle
  /-- In `pollMessages()`. -/
  | polling
  /-- Before a round of the loop over the keys, with this many to go. -/
  | ticking (rounds : Nat)

/-- The service, the objects and messages of its tasks, and which tasks are where. -/
structure Session where
  service : Service := {}
  phase : Phase := .idle
  messages : List Message := []
  chunks : ChunkPtr → Chunk
  pseudoDatas : PseudoDataPtr → PseudoChunkData := fun _ => {}
  surfaces : PseudoSurfacePtr → Surface := fun _ => .ofChunks {}
  nextSurface : PseudoSurfacePtr := 0
  /-- The counters of the tasks whose functor was called. -/
  executed : List Nat := []
  /-- The completed counters. -/
  completed : List Nat := []
  /-- The counters of the tasks whose completion message was handled. -/
  reported : List Nat := []

/-- A chunk of one block ID. -/
def uniformChunk (value : BitVec 16) : Chunk :=
  ⟨({} : CompressedChunkStorage 16).setUniform value⟩

/-- The state after the constructor; chunks that are not yet generated are empty. -/
def Session.new : Session where
  chunks ptr := if ptr = dummyBelowLimitChunk then uniformChunk 1 else uniformChunk 0

namespace Session

/-! ## Tasks -/

def send (session : Session) (message : Message) : Session :=
  { session with messages := session.messages ++ [message] }

/-- The end of `generatePseudoChunkSurface`: an empty surface is not sent. -/
def sendSurface (session : Session) (task : Nat) (key : ChunkKey) (surface : Surface) : Session :=
  let ptr := session.nextSurface
  let session := { session with
    surfaces := Function.update session.surfaces ptr surface
    nextSurface := ptr + 1 }
  session.send (.pseudoChunkSurfaceGenCompletion task key
    (if surface.empty then none else some ptr))

/-- `editBlock(key, chunk, position, block_id, sender)`. -/
def editBlock (session : Session) (task : Nat) (key : ChunkKey) (chunk : ChunkPtr)
    (position : UVec3) (blockId : BitVec 16) : Session :=
  let expanded := (session.chunks chunk).blockIds.expand fun _ _ _ => 0
  if expanded.load position.x position.y position.z = blockId then session
  else
    let expanded := expanded.store position.x position.y position.z blockId
    { session with
      chunks := Function.update session.chunks chunk ⟨.compress expanded⟩ }.send
        (.chunkLoadCompletion task key none)

/-- The functor of a task; there is no result when it reads through a null pointer or an
assertion fails. -/
def runJob (environment : Environment) (session : Session) (task : Nat) : Job → Option Session
  | .generateGlobalMap => some session
  | .generateChunk key ptr =>
    some ({ session with
      chunks := Function.update session.chunks ptr (environment.generateChunk key) }.send
        (.chunkLoadCompletion task key (some ptr)))
  | .editBlock key chunk position blockId => do
      let chunk ← chunk
      return session.editBlock task key chunk position blockId
  | .aggregateChunks key ref out => do
      let ptrs ← ref.mapM id
      let data := PseudoChunkData.generateFromLod0
        (fun i => session.chunks (ptrs.getD i.val 0)) environment.uninitialisedIds
      return { session with
        pseudoDatas := Function.update session.pseudoDatas out data }.send
          (.pseudoChunkDataGenCompletion task key)
  | .aggregateFiner key ref out => do
      let ptrs ← ref.mapM id
      let data := (session.pseudoDatas out).generateFromFinerLod
        fun i => session.pseudoDatas (ptrs.getD i.val 0)
      return { session with
        pseudoDatas := Function.update session.pseudoDatas out data }.send
          (.pseudoChunkDataGenCompletion task key)
  | .generatePseudoChunk key ptr =>
    some ({ session with
      pseudoDatas := Function.update session.pseudoDatas ptr
        (environment.generatePseudoChunk key) }.send (.pseudoChunkDataGenCompletion task key))
  | .chunkSurface key ref => do
      let first ← (ref.head?).join
      let chunk := session.chunks first
      if chunk.blockIds.uniform ∧ chunk.blockIds.load 0 0 0 = 0 then
        return session.send (.pseudoChunkSurfaceGenCompletion task key none)
      else
        let adjacent : Fin 6 → Option Chunk := fun i =>
          (ref.getD (i.val + 1) none).map session.chunks
        return session.sendSurface task key
          (.ofChunks (PseudoChunkSurface.generate ⟨chunk, adjacent⟩
            environment.uninitialisedAdjacentIds))
  | .pseudoChunkSurface key ref => do
      let ptrs ← ref.mapM id
      let surface ← PseudoChunkSurface.generateDatas
        (fun i => session.pseudoDatas (ptrs.getD i.val 0)) key.scaleLog2.toNat
      return session.sendSurface task key (.ofPseudoChunks surface)

/-- A thread calls the functor of an enqueued task that waits for nothing any more. -/
def execute (environment : Environment) (session : Session) (counter : Nat) : Option Session :=
  match session.service.tasks.find? fun task => task.counter == counter with
  | none => none
  | some task =>
    if counter ∈ session.executed then none
    else if ∀ wait ∈ task.waitCounters, wait ∈ session.completed then
      runJob environment { session with executed := counter :: session.executed } counter task.job
    else none

/-- The counter of a task becomes complete after its functor. -/
def complete (session : Session) (counter : Nat) : Option Session :=
  if counter ∈ session.executed ∧ counter ∉ session.completed then
    some { session with completed := counter :: session.completed }
  else none

/-! ## The service -/

def withService (session : Session) (service : Service) : Session :=
  { session with service := service }

/-- Call the handler of a message. -/
def handle (session : Session) : Message → Option Session
  | .chunkTicketRequest area =>
    some (session.withService (session.service.handleChunkTicketRequest area))
  | .chunkTicketAdjust ticketId newArea =>
    (session.service.handleChunkTicketAdjust ticketId newArea).map session.withService
  | .chunkTicketRemove ticketId =>
    (session.service.handleChunkTicketRemove ticketId).map session.withService
  | .blockEdit position newId =>
    some (session.withService (session.service.handleBlockEditMessage position newId))
  | .chunkLoadCompletion task key valuePtr =>
    some { session.withService (session.service.handleChunkLoadCompletion key valuePtr) with
      reported := task :: session.reported }
  | .pseudoChunkDataGenCompletion task key =>
    some { session.withService (session.service.handlePseudoDataGenCompletion key) with
      reported := task :: session.reported }
  | .pseudoChunkSurfaceGenCompletion task key valuePtr =>
    let service := session.service.handlePseudoSurfaceGenCompletion key valuePtr
    some { session.withService service with reported := task :: session.reported }

end Session

inductive Action where
  /-- `doTick(tick_id)` up to `pollMessages()`. -/
  | beginTick (tickId : Int)
  /-- `pollMessages()` handles the first message. -/
  | handleMessage
  /-- `pollMessages()` finds no message, and `doTick` goes on to the loop over the keys; the fuel
  is for the walks over the tickets. -/
  | endPoll (fuel : Nat)
  /-- A round of that loop. -/
  | tickKey
  /-- The end of `doTick`. -/
  | endTick
  | execute (counter : Nat)
  | complete (counter : Nat)
  /-- An agent sends a message that is no completion. -/
  | send (message : Message)
  /-- Somebody else enqueues a task. -/
  | otherTask

/-- One step; ticks increase. -/
def step (environment : Environment) (session : Session) : Action → Option Session
  | .beginTick tickId =>
    match session.phase with
    | .idle =>
      if session.service.tickId < tickId then
        some { session with
          service := { session.service with tickId := tickId }
          phase := .polling }
      else none
    | _ => none
  | .handleMessage =>
    match session.phase, session.messages with
    | .polling, message :: rest => { session with messages := rest }.handle message
    | _, _ => none
  | .endPoll fuel =>
    match session.phase, session.messages with
    | .polling, [] =>
      (session.service.processInvalidations.refillKeysToUpdate fuel).map fun service =>
        { session with
          service := service
          phase := .ticking (min keysPerTick service.keysToUpdate.length) }
    | _, _ => none
  | .tickKey =>
    match session.phase with
    | .ticking (rounds + 1) =>
      some { session with service := session.service.tickLastKey, phase := .ticking rounds }
    | _ => none
  | .endTick =>
    match session.phase with
    | .ticking 0 => some { session with service := session.service.visitOldest, phase := .idle }
    | _ => none
  | .execute counter => session.execute environment counter
  | .complete counter => session.complete counter
  | .send message => if message.sender.isSome then none else some (session.send message)
  | .otherTask =>
    some { session with
      service := { session.service with lastCounter := session.service.lastCounter + 1 } }

/-- Take the actions one after another from the constructed service. -/
def run (environment : Environment) (actions : List Action) : Option Session :=
  Runs.run (step environment) Session.new actions

/-- A generator of empty chunks. -/
def emptyWorld : Environment where
  generateChunk _ := uniformChunk 0
  generatePseudoChunk _ := {}
  uninitialisedIds _ _ _ := 0
  uninitialisedAdjacentIds _ _ _ := 0

/-- A block of the chunk at the origin is edited in one tick, and the chunk generated for it. -/
def editActions (newId : BitVec 16) : List Action :=
  [.send (.blockEdit ⟨0, 0, 0⟩ newId), .beginTick 1, .handleMessage, .endPoll 0, .endTick]

end Voxen.Land.LandService
