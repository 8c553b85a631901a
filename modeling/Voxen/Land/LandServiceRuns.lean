import Voxen.Land.LandServiceSession
import Voxen.Land.LandServiceTicks

/-!
# The invariant of the land service over its runs

Every completion message in flight comes from a task that was executed and has not reported yet.
-/

namespace Voxen.Land.LandService

/-! ## Tasks -/

/-- The message is the one that the task sends. -/
def Message.SentBy (message : Message) (task : Task) : Prop :=
  message.sender = some task.counter ∧
    match message with
    | .chunkLoadCompletion _ key valuePtr =>
      (∃ ptr, task.job = .generateChunk key ptr ∧ valuePtr = some ptr) ∨
        ∃ chunk position blockId, task.job = .editBlock key chunk position blockId ∧
          valuePtr = none
    | .pseudoChunkDataGenCompletion _ key => task.job.NoEdit ∧ task.job.key = some key
    | .pseudoChunkSurfaceGenCompletion _ key _ => task.job.NoEdit ∧ task.job.key = some key
    | _ => False

/-- The surface in the message is one of the first. -/
def Message.SurfaceBelow (message : Message) (bound : PseudoSurfacePtr) : Prop :=
  match message with
  | .pseudoChunkSurfaceGenCompletion _ _ (some ptr) => ptr < bound
  | _ => True

/-- The edit of a block would change nothing. -/
def Session.AlreadySet (session : Session) : Job → Prop
  | .editBlock _ (some chunk) position blockId =>
    let expanded := (session.chunks chunk).blockIds.expand fun _ _ _ => 0
    expanded.load position.x position.y position.z = blockId
  | _ => False

instance (session : Session) (job : Job) : Decidable (session.AlreadySet job) := by
  unfold Session.AlreadySet
  split
  · infer_instance
  · infer_instance

theorem Job.NoEdit.not_alreadySet {job : Job} (noEdit : job.NoEdit) (session : Session) :
    ¬ session.AlreadySet job := by
  cases job with
  | editBlock key chunk position blockId => exact noEdit.elim
  | _ => exact id

/-- What the functor of a task does: it writes no other chunk and no surface that is there, and
sends a message unless nobody waits for one. -/
structure Ran (session session' : Session) (task : Task) : Prop where
  service : session'.service = session.service
  phase : session'.phase = session.phase
  executed : session'.executed = session.executed
  completed : session'.completed = session.completed
  reported : session'.reported = session.reported
  chunks : ∀ ptr, task.job.writes ≠ some (.chunk ptr) → session'.chunks ptr = session.chunks ptr
  alreadySet : session.AlreadySet task.job → session'.chunks = session.chunks
  surfaces : ∀ ptr < session.nextSurface, session'.surfaces ptr = session.surfaces ptr
  nextSurface : session.nextSurface ≤ session'.nextSurface
  surfaceBelow : ∀ message ∈ session'.messages, message ∈ session.messages ∨
    message.SurfaceBelow session'.nextSurface
  sent : (session' = session ∧ (task.job.key = none ∨ session.AlreadySet task.job)) ∨
    ∃ message, session'.messages = session.messages ++ [message] ∧ message.SentBy task

theorem Ran.send {session : Session} {task : Task} {message : Message}
    {chunks : ChunkPtr → PseudoChunkData.Chunk} {pseudoDatas : PseudoDataPtr → PseudoChunkData}
    (others : ∀ ptr, task.job.writes ≠ some (.chunk ptr) → chunks ptr = session.chunks ptr)
    (alreadySet : session.AlreadySet task.job → chunks = session.chunks)
    (sent : message.SentBy task) (below : message.SurfaceBelow session.nextSurface) :
    Ran session ({ session with chunks := chunks, pseudoDatas := pseudoDatas }.send message)
      task where
  service := rfl
  phase := rfl
  executed := rfl
  completed := rfl
  reported := rfl
  chunks := others
  alreadySet := alreadySet
  surfaces _ _ := rfl
  nextSurface := Nat.le_refl _
  surfaceBelow other mem := by
    refine (List.mem_append.mp mem).imp_right fun new => ?_
    rw [List.mem_singleton.mp new]
    exact below
  sent := Or.inr ⟨message, rfl, sent⟩

theorem Ran.sendSurface {session : Session} (task : Task) {key : ChunkKey} (surface : Surface)
    (forKey : task.job.key = some key) (noEdit : task.job.NoEdit) :
    Ran session (session.sendSurface task.counter key surface) task where
  service := rfl
  phase := rfl
  executed := rfl
  completed := rfl
  reported := rfl
  chunks _ _ := rfl
  alreadySet already := absurd already (noEdit.not_alreadySet session)
  surfaces _ lt := Function.update_of_ne (Nat.ne_of_lt lt) _ _
  nextSurface := Nat.le_succ _
  surfaceBelow other mem := by
    refine (List.mem_append.mp mem).imp_right fun new => ?_
    rw [List.mem_singleton.mp new]
    split
    · trivial
    · exact Nat.lt_succ_self _
  sent := Or.inr ⟨_, rfl, rfl, noEdit, forKey⟩

theorem Ran.nothing {session : Session} {task : Task}
    (silent : task.job.key = none ∨ session.AlreadySet task.job) : Ran session session task where
  service := rfl
  phase := rfl
  executed := rfl
  completed := rfl
  reported := rfl
  chunks _ _ := rfl
  alreadySet _ := rfl
  surfaces _ _ := rfl
  nextSurface := Nat.le_refl _
  surfaceBelow _ := Or.inl
  sent := Or.inl ⟨rfl, silent⟩

variable {environment : Environment}

theorem Session.runJob_ran {session session' : Session} {task : Task}
    (ran : session.runJob environment task.counter task.job = some session') :
    Ran session session' task := by
  obtain ⟨counter, waitCounters, job⟩ := task
  have update : ∀ {ptr other : ChunkPtr} (chunk : PseudoChunkData.Chunk),
      some (Object.chunk ptr) ≠ some (.chunk other) →
      Function.update session.chunks ptr chunk other = session.chunks other :=
    fun _ differ => Function.update_of_ne
      (fun same => differ (congrArg (some ∘ Object.chunk) same.symm)) _ _
  cases job with
  | generateGlobalMap =>
    cases ran
    exact Ran.nothing (Or.inl rfl)
  | generateChunk key ptr =>
    cases ran
    exact Ran.send (fun _ => update _) False.elim ⟨rfl, Or.inl ⟨ptr, rfl, rfl⟩⟩ trivial
  | editBlock key chunk position blockId =>
    obtain ⟨ptr, rfl, edited⟩ := Option.bind_eq_some_iff.mp ran
    cases edited
    unfold Session.editBlock
    dsimp only
    split
    · rename_i same
      exact Ran.nothing (Or.inr same)
    · rename_i changed
      exact Ran.send (fun _ => update _) (fun same => absurd same changed)
        ⟨rfl, Or.inr ⟨some ptr, position, blockId, rfl, rfl⟩⟩ trivial
  | aggregateChunks key ref out =>
    obtain ⟨ptrs, -, aggregated⟩ := Option.bind_eq_some_iff.mp ran
    cases aggregated
    exact Ran.send (fun _ _ => rfl) False.elim ⟨rfl, trivial, rfl⟩ trivial
  | aggregateFiner key ref out =>
    obtain ⟨ptrs, -, aggregated⟩ := Option.bind_eq_some_iff.mp ran
    cases aggregated
    exact Ran.send (fun _ _ => rfl) False.elim ⟨rfl, trivial, rfl⟩ trivial
  | generatePseudoChunk key ptr =>
    cases ran
    exact Ran.send (fun _ _ => rfl) False.elim ⟨rfl, trivial, rfl⟩ trivial
  | chunkSurface key ref =>
    obtain ⟨first, -, generated⟩ := Option.bind_eq_some_iff.mp ran
    dsimp only at generated
    split at generated
    · cases generated
      exact Ran.send (fun _ _ => rfl) False.elim ⟨rfl, trivial, rfl⟩ trivial
    · cases generated
      exact Ran.sendSurface ⟨counter, waitCounters, .chunkSurface key ref⟩ _ rfl trivial
  | pseudoChunkSurface key ref =>
    obtain ⟨ptrs, -, rest⟩ := Option.bind_eq_some_iff.mp ran
    obtain ⟨surface, -, generated⟩ := Option.bind_eq_some_iff.mp rest
    cases generated
    exact Ran.sendSurface ⟨counter, waitCounters, .pseudoChunkSurface key ref⟩ _ rfl trivial

theorem Session.execute_spec {session session' : Session} {counter : Nat}
    (executed : session.execute environment counter = some session') :
    ∃ task ∈ session.service.tasks, task.counter = counter ∧ counter ∉ session.executed ∧
      (∀ wait ∈ task.waitCounters, wait ∈ session.completed) ∧
      Ran { session with executed := counter :: session.executed } session' task := by
  unfold Session.execute at executed
  split at executed
  · cases executed
  · rename_i task found
    have same : task.counter = counter := eq_of_beq (List.find?_some found :)
    split at executed
    · cases executed
    · rename_i fresh
      split at executed
      · rename_i ready
        rw [← same] at executed
        exact ⟨task, List.mem_of_find?_eq_some found, same, fresh, ready,
          same ▸ Session.runJob_ran executed⟩
      · cases executed

/-! ## Sessions -/

/-- The invariant of the service with its tasks and messages. -/
structure SessionInv (session : Session) : Prop where
  inv : Inv session.reported session.service
  executed : ∀ counter ∈ session.executed, ∃ task ∈ session.service.tasks, task.counter = counter
  completed : ∀ counter ∈ session.completed, counter ∈ session.executed
  reported : ∀ counter ∈ session.reported, counter ∈ session.executed
  waited : ∀ task ∈ session.service.tasks, task.counter ∈ session.executed →
    ∀ wait ∈ task.waitCounters, wait ∈ session.completed
  sent : ∀ message ∈ session.messages, message.sender = none ∨
    ∃ task ∈ session.service.tasks, message.SentBy task ∧ task.counter ∈ session.executed ∧
      task.counter ∉ session.reported
  senders : (session.messages.filterMap Message.sender).Nodup

theorem inserted_entry {α : Type} {table : ChunkKey → Option α} {key other : ChunkKey}
    {value value' : α} (found : Function.update table key (some value') other = some value) :
    table other = some value ∨ key = other ∧ value' = value := by
  by_cases same : other = key
  · rw [same, Function.update_self] at found
    exact Or.inr ⟨same.symm, Option.some.inj found⟩
  · rw [Function.update_of_ne same] at found
    exact Or.inl found

/-- What a step of a session does. -/
inductive Move (session : Session) : Action → Session → Prop
  /-- The service goes on and enqueues tasks. -/
  | service {action : Action} {service : Service}
      (kept : Kept session.reported session.service service) (phase : Phase) :
      Move session action { session with service := service, phase := phase }
  /-- The first message is about a ticket. -/
  | ticket {message : Message} {rest : List Message} (queue : session.messages = message :: rest)
      (noSender : message.sender = none) {service : Service}
      (kept : Kept session.reported session.service service) :
      Move session .handleMessage { session with messages := rest, service := service }
  /-- The first message is the edit of a block. -/
  | edit {position : IVec3} {newId : BitVec 16} {rest : List Message}
      (queue : session.messages = .blockEdit position newId :: rest) :
      Move session .handleMessage { session with
        messages := rest
        service := session.service.handleBlockEditMessage position newId }
  /-- The first message is the completion of a task. -/
  | report {message : Message} {rest : List Message} (queue : session.messages = message :: rest)
      {counter : Nat} (sender : message.sender = some counter)
      (executed : counter ∈ session.executed) {service : Service}
      (inv : Inv (counter :: session.reported) service)
      (tasks : service.tasks = session.service.tasks)
      (table : ∀ key value, service.chunkTable key = some value →
        session.service.chunkTable key = some value ∨
          message = .chunkLoadCompletion counter key value)
      (surfaceTable : ∀ key value, service.pseudoChunkSurfaceTable key = some value →
        session.service.pseudoChunkSurfaceTable key = some value ∨
          message = .pseudoChunkSurfaceGenCompletion counter key value) :
      Move session .handleMessage { session with
        messages := rest
        service := service
        reported := counter :: session.reported }
  | execute {task : Task} (mem : task ∈ session.service.tasks)
      (fresh : task.counter ∉ session.executed)
      (ready : ∀ wait ∈ task.waitCounters, wait ∈ session.completed) {session' : Session}
      (ran : Ran { session with executed := task.counter :: session.executed } session' task) :
      Move session (.execute task.counter) session'
  | complete {counter : Nat} (executed : counter ∈ session.executed) :
      Move session (.complete counter) { session with completed := counter :: session.completed }
  | send {message : Message} (noSender : message.sender = none) :
      Move session (.send message) (session.send message)

namespace SessionInv

variable {session : Session}

theorem new : SessionInv Session.new where
  inv := new_inv
  executed := nofun
  completed := nofun
  reported := nofun
  waited := nofun
  sent := nofun
  senders := List.nodup_nil

theorem withService (inv : SessionInv session) {service : Service}
    (inv' : Inv session.reported service) (tasks : session.service.tasks ⊆ service.tasks) :
    SessionInv (session.withService service) where
  inv := inv'
  executed counter mem := by
    obtain ⟨task, mem', same⟩ := inv.executed counter mem
    exact ⟨task, tasks mem', same⟩
  completed := inv.completed
  reported := inv.reported
  waited task mem executed := by
    -- a task that was executed is not new
    obtain ⟨other, mem', same⟩ := inv.executed task.counter executed
    cases inv'.eq_of_counter (tasks mem') mem same
    exact inv.waited task mem' executed
  sent message mem := by
    refine (inv.sent message mem).imp_right ?_
    rintro ⟨task, mem', sent⟩
    exact ⟨task, tasks mem', sent⟩
  senders := inv.senders

variable {message : Message} {session' : Session}

theorem rest (inv : SessionInv session) {rest : List Message}
    (queue : session.messages = message :: rest) :
    SessionInv { session with messages := rest } where
  inv := inv.inv
  executed := inv.executed
  completed := inv.completed
  reported := inv.reported
  waited := inv.waited
  sent other mem := inv.sent other (queue ▸ List.mem_cons_of_mem _ mem)
  senders := by
    have senders := inv.senders
    rw [queue, List.filterMap_cons] at senders
    split at senders
    · exact senders
    · exact senders.of_cons

theorem report (inv : SessionInv session) {rest : List Message}
    (queue : session.messages = message :: rest) {counter : Nat}
    (sender : message.sender = some counter) (executed : counter ∈ session.executed)
    {service : Service} (inv' : Inv (counter :: session.reported) service)
    (tasks : service.tasks = session.service.tasks) :
    SessionInv { session with
      messages := rest
      service := service
      reported := counter :: session.reported } where
  inv := inv'
  executed counter mem' := tasks ▸ inv.executed counter mem'
  completed := inv.completed
  reported counter mem' := by
    rcases List.mem_cons.mp mem' with rfl | mem'
    · exact executed
    · exact inv.reported counter mem'
  waited other mem' := inv.waited other (tasks ▸ mem')
  sent other mem' := by
    refine (inv.sent other (queue ▸ List.mem_cons_of_mem _ mem')).imp_right ?_
    rintro ⟨third, mem'', sent, executed', unreported⟩
    refine ⟨third, tasks ▸ mem'', sent, executed', fun reported => ?_⟩
    rcases List.mem_cons.mp reported with same | reported
    · -- no two messages come from one task
      have senders := inv.senders
      rw [queue, List.filterMap_cons_some sender] at senders
      exact (List.nodup_cons.mp senders).1
        (List.mem_filterMap.mpr ⟨other, mem', same ▸ sent.1⟩)
    · exact unreported reported
  senders := (inv.rest queue).senders

theorem execute (inv : SessionInv session) {task : Task} (mem : task ∈ session.service.tasks)
    (fresh : task.counter ∉ session.executed)
    (ready : ∀ wait ∈ task.waitCounters, wait ∈ session.completed) {session' : Session}
    (ran : Ran { session with executed := task.counter :: session.executed } session' task) :
    SessionInv session' := by
  have unreported : task.counter ∉ session.reported := fun mem' =>
    fresh (inv.reported _ mem')
  have old : ∀ message ∈ session.messages, message.sender = none ∨
      ∃ other ∈ session.service.tasks, message.SentBy other ∧
        other.counter ∈ task.counter :: session.executed ∧ other.counter ∉ session.reported :=
    fun message mem' => (inv.sent message mem').imp_right fun ⟨other, mem'', sent, was, not⟩ =>
      ⟨other, mem'', sent, List.mem_cons_of_mem _ was, not⟩
  have kept : ∀ messages : List Message, session'.messages = messages →
      (∀ message ∈ messages, message.sender = none ∨
        ∃ other ∈ session.service.tasks, message.SentBy other ∧
          other.counter ∈ task.counter :: session.executed ∧ other.counter ∉ session.reported) →
      (messages.filterMap Message.sender).Nodup → SessionInv session' := by
    intro messages queue sent senders
    exact {
      inv := by
        rw [ran.service, ran.reported]
        exact inv.inv
      executed := by
        rw [ran.service, ran.executed]
        intro other mem'
        rcases List.mem_cons.mp mem' with rfl | mem'
        · exact ⟨task, mem, rfl⟩
        · exact inv.executed other mem'
      completed := by
        rw [ran.completed, ran.executed]
        exact fun other mem' => List.mem_cons_of_mem _ (inv.completed other mem')
      reported := by
        rw [ran.reported, ran.executed]
        exact fun other mem' => List.mem_cons_of_mem _ (inv.reported other mem')
      waited := by
        rw [ran.service, ran.executed, ran.completed]
        intro other mem' executed
        rcases List.mem_cons.mp executed with same | executed
        · cases inv.inv.eq_of_counter mem' mem same
          exact ready
        · exact inv.waited other mem' executed
      sent := by
        rw [queue, ran.service, ran.executed, ran.reported]
        exact sent
      senders := by
        rw [queue]
        exact senders }
  rcases ran.sent with ⟨same, -⟩ | ⟨message, queue, sentBy⟩
  · exact kept session.messages (by rw [same]) old inv.senders
  · refine kept _ queue (fun other mem' => ?_) ?_
    · rcases List.mem_append.mp mem' with mem' | mem'
      · exact old other mem'
      · rw [List.mem_singleton.mp mem']
        exact Or.inr ⟨task, mem, sentBy, List.mem_cons_self, unreported⟩
    · -- the messages in flight come from tasks executed before
      rw [List.filterMap_append, List.filterMap_cons_some sentBy.1, List.filterMap_nil,
        ← List.concat_eq_append]
      refine inv.senders.concat fun mem' => ?_
      obtain ⟨other, mem'', same⟩ := List.mem_filterMap.mp mem'
      rcases inv.sent other mem'' with none | ⟨third, -, sent, was, -⟩
      · rw [none] at same
        cases same
      · rw [sent.1] at same
        exact fresh (Option.some.inj same ▸ was)

theorem handle_move (inv : SessionInv session) {rest : List Message}
    (queue : session.messages = message :: rest)
    (handled : Session.handle { session with messages := rest } message = some session') :
    Move session .handleMessage session' := by
  have sent := inv.sent message (queue ▸ List.mem_cons_self)
  cases message with
  | chunkTicketRequest area =>
    cases handled
    refine .ticket queue rfl ?_
    unfold Service.handleChunkTicketRequest
    split
    · exact Kept.refl inv.inv
    · exact (Kept.refl inv.inv).of_fields rfl rfl rfl rfl rfl rfl rfl rfl
  | chunkTicketAdjust ticketId newArea =>
    obtain ⟨service, adjusted, rfl⟩ := Option.map_eq_some_iff.mp handled
    refine .ticket queue rfl ?_
    unfold Service.handleChunkTicketAdjust at adjusted
    split at adjusted
    · cases adjusted
      exact Kept.refl inv.inv
    · split at adjusted
      · cases adjusted
        exact (Kept.refl inv.inv).of_fields rfl rfl rfl rfl rfl rfl rfl rfl
      · cases adjusted
  | chunkTicketRemove ticketId =>
    obtain ⟨service, removed, rfl⟩ := Option.map_eq_some_iff.mp handled
    refine .ticket queue rfl ?_
    unfold Service.handleChunkTicketRemove at removed
    split at removed
    · cases removed
      exact (Kept.refl inv.inv).of_fields rfl rfl rfl rfl rfl rfl rfl rfl
    · cases removed
  | blockEdit position newId =>
    cases handled
    exact .edit queue
  | chunkLoadCompletion counter key valuePtr =>
    cases handled
    obtain ⟨task, mem, ⟨sender, made⟩, executed, unreported⟩ := sent.resolve_left nofun
    cases sender
    have forKey : task.job.key = some key := by
      rcases made with ⟨ptr, job, -⟩ | ⟨chunk, position, blockId, job, -⟩
      · rw [job, Job.key]
      · rw [job, Job.key]
    have less := report_inv inv.inv mem unreported forKey (f := fun m => { m with
      pendingTaskCount := m.pendingTaskCount - 1
      pseudoSurfaceInvalidated := true }) fun _ => rfl
    refine .report queue rfl executed (less.of_fields rfl rfl rfl rfl rfl rfl) rfl
      (fun other value found => ?_) fun _ _ => Or.inl
    refine (inserted_entry found).imp_right ?_
    rintro ⟨rfl, rfl⟩
    rfl
  | pseudoChunkDataGenCompletion counter key =>
    cases handled
    obtain ⟨task, mem, ⟨sender, -, forKey⟩, executed, unreported⟩ := sent.resolve_left nofun
    cases sender
    have less := report_inv inv.inv mem unreported forKey (f := fun m => { m with
      pendingTaskCount := m.pendingTaskCount - 1
      pseudoSurfaceInvalidated := true }) fun _ => rfl
    exact .report queue rfl executed (less.of_fields rfl rfl rfl rfl rfl rfl) rfl
      (fun _ _ => Or.inl) fun _ _ => Or.inl
  | pseudoChunkSurfaceGenCompletion counter key valuePtr =>
    cases handled
    obtain ⟨task, mem, ⟨sender, -, forKey⟩, executed, unreported⟩ := sent.resolve_left nofun
    cases sender
    have less := report_inv inv.inv mem unreported forKey (f := fun m => { m with
      pendingTaskCount := m.pendingTaskCount - 1 }) fun _ => rfl
    refine .report queue rfl executed (less.of_fields rfl rfl rfl rfl rfl rfl) rfl
      (fun _ _ => Or.inl) fun other value found => ?_
    refine (inserted_entry found).imp_right ?_
    rintro ⟨rfl, rfl⟩
    rfl

theorem step_move {environment : Environment} (inv : SessionInv session) {action : Action}
    (next : step environment session action = some session') :
    Move session action session' := by
  cases action with
  | beginTick tickId =>
    dsimp only [LandService.step] at next
    split at next
    · split at next
      · cases next
        exact .service (beginTick_kept inv.inv tickId) _
      · cases next
    · cases next
  | handleMessage =>
    dsimp only [LandService.step] at next
    split at next
    · rename_i queue
      exact inv.handle_move queue next
    · cases next
  | endPoll fuel =>
    dsimp only [LandService.step] at next
    split at next
    · obtain ⟨service, refilled, rfl⟩ := Option.map_eq_some_iff.mp next
      have processed := processInvalidations_kept inv.inv
      exact .service (processed.trans (refillKeysToUpdate_kept processed.inv refilled)) _
    · cases next
  | tickKey =>
    dsimp only [LandService.step] at next
    split at next
    · cases next
      exact .service (tickLastKey_kept inv.inv) _
    · cases next
  | endTick =>
    dsimp only [LandService.step] at next
    split at next
    · cases next
      exact .service (visitOldest_kept inv.inv) _
    · cases next
  | execute counter =>
    obtain ⟨task, mem, rfl, fresh, ready, ran⟩ := Session.execute_spec next
    exact .execute mem fresh ready ran
  | complete counter =>
    dsimp only [LandService.step, Session.complete] at next
    split at next
    · rename_i done
      cases next
      exact .complete done.1
    · cases next
  | send message =>
    dsimp only [LandService.step] at next
    split at next
    · cases next
    · rename_i noSender
      cases next
      exact .send (Option.not_isSome_iff_eq_none.mp noSender)
  | otherTask =>
    cases next
    exact .service (skipCounter_kept inv.inv) _

theorem move (inv : SessionInv session) {action : Action} (move : Move session action session') :
    SessionInv session' := by
  cases move with
  | service kept phase => exact { inv.withService kept.inv kept.tasks with }
  | ticket queue noSender kept => exact (inv.rest queue).withService kept.inv kept.tasks
  | @edit position newId rest queue =>
    have edited := handleBlockEditMessage_inv inv.inv position newId
    exact (inv.rest queue).withService edited.1 edited.2
  | report queue sender executed inv' tasks => exact inv.report queue sender executed inv' tasks
  | execute mem fresh ready ran => exact inv.execute mem fresh ready ran
  | complete executed =>
    exact { inv with
      completed := fun other mem => by
        rcases List.mem_cons.mp mem with rfl | mem
        · exact executed
        · exact inv.completed other mem
      waited := fun task mem executed wait waits =>
        List.mem_cons_of_mem _ (inv.waited task mem executed wait waits) }
  | @send message noSender =>
    exact { inv with
      sent := fun other mem => by
        rcases List.mem_append.mp mem with mem | mem
        · exact inv.sent other mem
        · rw [List.mem_singleton.mp mem]
          exact Or.inl noSender
      senders := by
        have same : (session.send message).messages = session.messages ++ [message] := rfl
        rw [same, List.filterMap_append, List.filterMap_cons_none noSender, List.filterMap_nil,
          List.append_nil]
        exact inv.senders }

theorem step {environment : Environment} (inv : SessionInv session) {action : Action}
    {session' : Session} (next : step environment session action = some session') :
    SessionInv session' :=
  inv.move (inv.step_move next)

end SessionInv

theorem run_inv {actions : List Action} {session : Session}
    (reached : run environment actions = some session) : SessionInv session :=
  Runs.run_preserved (fun _ _ _ inv next => inv.step next) SessionInv.new reached

/-! ## The order of reads and writes -/

/-- What a task reads was filled before, and tasks that write one object do so one after another. -/
structure Ordered (session : Session) : Prop where
  readers : ∀ task ∈ session.service.tasks, task.counter ∈ session.executed →
    ∀ object ∈ task.job.reads, ¬ object.IsDummy →
      (∃ filler ∈ session.service.tasks, filler.job.fills = some object ∧
        filler.counter ∈ session.completed) ∧
      ∀ writer ∈ session.service.tasks, writer.job.writes = some object →
        writer.counter < task.counter → writer.counter ∈ session.completed
  writers : ∀ task ∈ session.service.tasks, ∀ other ∈ session.service.tasks, ∀ object,
    task.job.writes = some object → other.job.writes = some object →
      task.counter < other.counter → other.counter ∈ session.executed →
        task.counter ∈ session.completed

/-- A chain of wait counters is completed before the task at its end is executed. -/
theorem SessionInv.before_completed {session : Session} (inv : SessionInv session)
    {counter counter' : Nat} (before : Before session.service.tasks counter counter') :
    counter' ∈ session.executed → counter ∈ session.completed := by
  induction before with
  | single waits =>
    obtain ⟨task, mem, rfl, wait⟩ := waits
    exact fun executed => inv.waited task mem executed _ wait
  | tail _ waits ih =>
    obtain ⟨task, mem, rfl, wait⟩ := waits
    exact fun executed => ih (inv.completed _ (inv.waited task mem executed _ wait))

theorem run_ordered {environment : Environment} {actions : List Action} {session : Session}
    (reached : run environment actions = some session) : Ordered session := by
  have inv := run_inv reached
  constructor
  · intro task mem executed object reads real
    obtain ⟨⟨filler, mem', fills, before⟩, writers⟩ := inv.inv.readers task mem object reads real
    exact ⟨⟨filler, mem', fills, inv.before_completed before executed⟩,
      fun writer mem' writes lt => inv.before_completed (writers writer mem' writes lt) executed⟩
  · intro task mem other mem' object writes writes' lt
    exact inv.before_completed (inv.inv.writers task mem other mem' object writes writes' lt)

/-- The chunk is generated, and then its block is edited. -/
theorem run_ordered_of_edit : ∃ session, run emptyWorld (editActions 2 ++
    [.execute 64, .complete 64, .execute 65, .complete 65, .execute 66]) = some session ∧
      Ordered session := by
  have possible : (run emptyWorld (editActions 2 ++
    [.execute 64, .complete 64, .execute 65, .complete 65, .execute 66])).isSome = true := by
    decide +kernel
  obtain ⟨session, reached⟩ := Option.isSome_iff_exists.mp possible
  exact ⟨session, reached, run_ordered reached⟩

end Voxen.Land.LandService
