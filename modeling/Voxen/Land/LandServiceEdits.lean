import Voxen.Land.LandServiceRuns

/-!
# Edits in the chunk table

The completion message of an edit has a key only, so its handler stores a null pointer in the chunk
table. Nothing brings the edited chunk back there.
-/

namespace Voxen.Land.LandService

open PseudoChunkData (Chunk)

/-- The ID of a block of a chunk. -/
def blockAt (chunk : Chunk) (position : UVec3) : BitVec 16 :=
  (chunk.blockIds.expand fun _ _ _ => 0).load position.x position.y position.z

/-- The chunk table has a chunk with the new block, whose other blocks are these. -/
def EditShown (session : Session) (key : ChunkKey) (position : UVec3) (newId : BitVec 16)
    (others : UVec3 → BitVec 16) : Prop :=
  ∃ ptr, session.service.chunkTable key = some (some ptr) ∧
    blockAt (session.chunks ptr) position = newId ∧
    ∀ x y z, x < 32 → y < 32 → z < 32 → ⟨x, y, z⟩ ≠ position →
      blockAt (session.chunks ptr) ⟨x, y, z⟩ = others ⟨x, y, z⟩

/-- The chunk table has no chunk for the key. -/
def NoChunk (session : Session) (key : ChunkKey) : Prop :=
  ∀ ptr, session.service.chunkTable key ≠ some (some ptr)

/-- The step does not handle the completion of a generation of the key's chunk. -/
def NotGenerated (key : ChunkKey) (session : Session) (action : Action) : Prop :=
  action = .handleMessage → ∀ counter ptr rest,
    session.messages ≠ .chunkLoadCompletion counter key (some ptr) :: rest

section Edits

variable {environment : Environment} {session session' : Session} {key : ChunkKey}

theorem NoChunk.not_shown (noChunk : NoChunk session key) (position : UVec3) (newId : BitVec 16)
    (others : UVec3 → BitVec 16) : ¬ EditShown session key position newId others :=
  fun ⟨ptr, found, _⟩ => noChunk ptr found

theorem NoChunk.step (noChunk : NoChunk session key) (inv : SessionInv session) {action : Action}
    (notGenerated : NotGenerated key session action)
    (next : step environment session action = some session') : NoChunk session' key := by
  intro ptr found
  cases inv.step_move next with
  | service kept phase => exact noChunk ptr (kept.table key _ found)
  | ticket queue noSender kept => exact noChunk ptr (kept.table key _ found)
  | edit queue =>
    exact noChunk ptr ((handleBlockEditMessage_tables inv.inv _ _).1 key _ found)
  | report queue sender executed inv' tasks table =>
    rcases table key _ found with before | message
    · exact noChunk ptr before
    · exact notGenerated rfl _ _ _ (message ▸ queue)
  | execute mem fresh ready ran =>
    rw [ran.service] at found
    exact noChunk ptr found
  | complete executed => exact noChunk ptr found
  | send noSender => exact noChunk ptr found

theorem SessionInv.edit_message (inv : SessionInv session) {message : Message}
    (mem : message ∈ session.messages) {task : Task} (mem' : task ∈ session.service.tasks)
    {chunk : Option ChunkPtr} {position : UVec3} {newId : BitVec 16}
    (edit : task.job = .editBlock key chunk position newId)
    (sender : message.sender = some task.counter) :
    message = .chunkLoadCompletion task.counter key none := by
  rcases inv.sent message mem with noSender | ⟨other, mem'', sent, -, -⟩
  · rw [noSender] at sender
    cases sender
  · -- the sender is the task of the edit
    have same : other.counter = task.counter :=
      Option.some.inj (sent.1.symm.trans sender)
    cases inv.inv.eq_of_counter mem'' mem' same
    obtain ⟨-, made⟩ := sent
    cases message with
    | chunkLoadCompletion counter key' valuePtr =>
      cases sender
      rcases made with ⟨ptr, job, -⟩ | ⟨chunk', position', blockId, job, rfl⟩
      · rw [edit] at job
        cases job
      · rw [edit] at job
        cases job
        rfl
    | pseudoChunkDataGenCompletion counter key' =>
      rw [edit] at made
      exact made.1.elim
    | pseudoChunkSurfaceGenCompletion counter key' valuePtr =>
      rw [edit] at made
      exact made.1.elim
    | _ => exact made.elim

theorem SessionInv.edit_reported (inv : SessionInv session) {message : Message}
    {rest : List Message} (queue : session.messages = message :: rest) {task : Task}
    (mem : task ∈ session.service.tasks) {chunk : Option ChunkPtr} {position : UVec3}
    {newId : BitVec 16} (edit : task.job = .editBlock key chunk position newId)
    (sender : message.sender = some task.counter)
    (handled : LandService.step environment session .handleMessage = some session') :
    session'.service.chunkTable key = some none := by
  have message_eq := inv.edit_message (queue ▸ List.mem_cons_self) mem edit sender
  rw [message_eq] at queue
  dsimp only [LandService.step] at handled
  split at handled
  · rename_i first others _ queue'
    rw [queue] at queue'
    cases queue'
    cases handled
    exact Function.update_self _ _ _
  · cases handled

/-- After the completion of an edit is handled, the chunk table does not have the edited chunk, and
so it is until the chunk is generated anew. -/
theorem edit_never_shown {before after : List Action} {reported : Session}
    (reached : run environment before = some session) {message : Message} {rest : List Message}
    (queue : session.messages = message :: rest) {task : Task}
    (mem : task ∈ session.service.tasks) {chunk : Option ChunkPtr} {position : UVec3}
    {newId : BitVec 16} (edit : task.job = .editBlock key chunk position newId)
    (sender : message.sender = some task.counter)
    (handled : step environment session .handleMessage = some reported)
    (notGenerated : Runs.StepsMeet (step environment) (NotGenerated key) reported after)
    (later : Runs.run (step environment) reported after = some session')
    (others : UVec3 → BitVec 16) : ¬ EditShown session' key position newId others := by
  have inv := run_inv reached
  have noChunk : NoChunk reported key := fun ptr found => by
    rw [inv.edit_reported queue mem edit sender handled] at found
    cases found
  have kept := Runs.run_invariant (fun state action state' kept meets next =>
      (⟨kept.1.step next, kept.2.step kept.1 meets next⟩ : SessionInv state' ∧ NoChunk state' key))
    ⟨inv.step handled, noChunk⟩ notGenerated later
  exact kept.2.not_shown position newId others

end Edits

/-! ## The edit of one block -/

/-- The edit of a block is executed after the generation of its chunk, and the message of the
generation is handled in the next tick. -/
def editedActions : List Action :=
  editActions 2 ++
    [.execute 64, .complete 64, .execute 65, .complete 65, .execute 66, .complete 66,
      .beginTick 2, .handleMessage]

/-- The edit that comes first among the messages. -/
def firstEdit (session : Session) : Bool :=
  match session.messages with
  | .chunkLoadCompletion 66 _ _ :: _ =>
    session.service.tasks.any fun task => task.counter == 66 && match task.job with
      | .editBlock key (some _) position newId =>
        decide (key = ⟨0, 0, 0, 0⟩ ∧ position = ⟨0, 0, 0⟩ ∧ newId = 2)
      | _ => false
  | _ => false

theorem firstEdit_spec {session : Session} (first : firstEdit session = true) :
    ∃ message rest, session.messages = message :: rest ∧
      ∃ task ∈ session.service.tasks, message.sender = some task.counter ∧
      ∃ chunk, task.job = .editBlock ⟨0, 0, 0, 0⟩ (some chunk) ⟨0, 0, 0⟩ 2 := by
  unfold firstEdit at first
  split at first
  · rename_i key valuePtr rest queue
    obtain ⟨task, mem, same⟩ := List.any_eq_true.mp first
    obtain ⟨counter, edit⟩ := Bool.and_eq_true_iff.mp same
    split at edit
    · rename_i chunk position newId job
      obtain ⟨rfl, rfl, rfl⟩ := of_decide_eq_true edit
      exact ⟨_, rest, queue, task, mem, congrArg some (eq_of_beq counter).symm, chunk, job⟩
    · cases edit
  · cases first

theorem editedActions_run : ∃ session session' session'',
    run emptyWorld editedActions = some session ∧ firstEdit session = true ∧
    step emptyWorld session .handleMessage = some session' ∧
    Runs.run (step emptyWorld) session' [.endPoll 0] = some session'' := by
  have result : ((run emptyWorld editedActions).filter firstEdit).bind (fun session =>
      (step emptyWorld session .handleMessage).bind fun session' =>
        Runs.run (step emptyWorld) session' [.endPoll 0]) |>.isSome := by
    decide +kernel
  obtain ⟨session'', found⟩ := Option.isSome_iff_exists.mp result
  obtain ⟨session, filtered, rest⟩ := Option.bind_eq_some_iff.mp found
  obtain ⟨session', handled, last⟩ := Option.bind_eq_some_iff.mp rest
  obtain ⟨reached, first⟩ := Option.filter_eq_some_iff.mp filtered
  exact ⟨session, session', session'', reached, first, handled, last⟩

/-- The edit has changed the chunk, but the chunk table loses the chunk when the edit reports. -/
theorem edit_not_shown : ∃ session session', run emptyWorld editedActions = some session ∧
    (∃ message rest, session.messages = message :: rest ∧
      ∃ task ∈ session.service.tasks, message.sender = some task.counter ∧
      ∃ chunk, task.job = .editBlock ⟨0, 0, 0, 0⟩ (some chunk) ⟨0, 0, 0⟩ 2) ∧
    step emptyWorld session .handleMessage = some session' ∧
    ∀ others, ¬ EditShown session' ⟨0, 0, 0, 0⟩ ⟨0, 0, 0⟩ 2 others := by
  obtain ⟨session, session', -, reached, first, handled, -⟩ := editedActions_run
  have edit := firstEdit_spec first
  refine ⟨session, session', reached, edit, handled, fun others => ?_⟩
  obtain ⟨message, rest, queue, task, mem, sender, chunk, job⟩ := edit
  rintro ⟨ptr, found, -⟩
  rw [(run_inv reached).edit_reported queue mem job sender handled] at found
  cases found

theorem edit_never_shown_once : ∃ session', run emptyWorld
      (editedActions ++ [.handleMessage, .endPoll 0]) = some session' ∧
    ∀ others, ¬ EditShown session' ⟨0, 0, 0, 0⟩ ⟨0, 0, 0⟩ 2 others := by
  obtain ⟨session, session', session'', reached, first, handled, last⟩ := editedActions_run
  obtain ⟨message, rest, queue, task, mem, sender, chunk, job⟩ := firstEdit_spec first
  have whole : run emptyWorld (editedActions ++ [.handleMessage, .endPoll 0]) = some session'' := by
    unfold run at reached ⊢
    rw [Runs.run_append, reached, Option.bind_some, Runs.run_cons, handled, Option.bind_some]
    exact last
  have meets : Runs.StepsMeet (step emptyWorld) (NotGenerated ⟨0, 0, 0, 0⟩) session'
      [.endPoll 0] := by
    refine ⟨nofun, ?_⟩
    split
    · trivial
    · trivial
  exact ⟨session'', whole,
    edit_never_shown reached queue mem job sender handled meets last⟩

end Voxen.Land.LandService
