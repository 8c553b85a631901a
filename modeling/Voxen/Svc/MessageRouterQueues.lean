import Voxen.Svc.MessageRouter

/-!
# Who owns an inbound queue

A queue belongs to the agent that is routed to it, to a call that unregisters one,
or to the free list.  A message that is pushed while its recipient has the queue,
or while the queue is yet to be cleared for it, is popped by that recipient only.
-/

namespace Voxen.Svc.MessageRouter

open Function (update update_of_ne update_self)

variable {Uid Thread : Type}

/-- The queue a call that unregisters an agent holds. -/
def Call.queue? : Call Uid → Option QueueId
  | .clearing _ queue => some queue
  | .recycling queue => some queue
  | _ => none

/-- Routed queues, queues held by calls and free queues are apart. -/
structure Owners (state : State Uid Thread) : Prop where
  agents : ∀ uid, (state.agents uid).map Agent.inboundQueue = state.routes uid
  routed_lt : ∀ uid queue, state.routes uid = some queue → queue < state.queueStorage
  routed_unique : ∀ uid other queue, state.routes uid = some queue →
    state.routes other = some queue → uid = other
  held_lt : ∀ thread queue, (state.calls thread).queue? = some queue → queue < state.queueStorage
  held_unique : ∀ thread other queue, (state.calls thread).queue? = some queue →
    (state.calls other).queue? = some queue → thread = other
  held_not_routed : ∀ thread queue, (state.calls thread).queue? = some queue →
    ∀ uid, state.routes uid ≠ some queue
  free_nodup : state.freeQueues.Nodup
  free_lt : ∀ queue ∈ state.freeQueues, queue < state.queueStorage
  free_not_routed : ∀ queue ∈ state.freeQueues, ∀ uid, state.routes uid ≠ some queue
  free_not_held : ∀ queue ∈ state.freeQueues, ∀ thread, (state.calls thread).queue? ≠ some queue

section Updates

variable {α β : Type} [DecidableEq α] {table : α → Option β} {key key' : α} {value value' : β}

theorem update_some : update table key (some value) key' = some value' ↔
    key' = key ∧ value = value' ∨ key' ≠ key ∧ table key' = some value' := by
  by_cases same : key' = key
  · subst same
    simp
  · simp [same]

theorem update_none : update table key none key' = some value' ↔
    key' ≠ key ∧ table key' = some value' := by
  by_cases same : key' = key
  · subst same
    simp
  · simp [same]

theorem setCall_queue [DecidableEq Thread] {state : State Uid Thread} {thread other : Thread}
    {call : Call Uid} {queue : QueueId}
    (same : ((state.setCall thread call).calls other).queue? = some queue) :
    other = thread ∧ call.queue? = some queue ∨
      other ≠ thread ∧ (state.calls other).queue? = some queue := by
  by_cases isThread : other = thread
  · subst isThread
    simp only [State.setCall, update_self] at same
    exact Or.inl ⟨rfl, same⟩
  · simp only [State.setCall, update_of_ne isThread] at same
    exact Or.inr ⟨isThread, same⟩

end Updates

namespace Owners

variable {state state' : State Uid Thread} {uid : Uid} {thread : Thread} {queue : QueueId}

theorem initial : Owners ({} : State Uid Thread) where
  agents _ := rfl
  routed_lt _ _ same := by cases same
  routed_unique _ _ _ same := by cases same
  held_lt _ _ same := by cases same
  held_unique _ _ _ same := by cases same
  held_not_routed _ _ same := by cases same
  free_nodup := List.nodup_nil
  free_lt _ mem := by cases mem
  free_not_routed _ mem := by cases mem
  free_not_held _ mem := by cases mem

theorem keep (owners : Owners state) (routes : state'.routes = state.routes)
    (storage : state'.queueStorage = state.queueStorage)
    (free : state'.freeQueues = state.freeQueues)
    (agents : ∀ uid, (state'.agents uid).map Agent.inboundQueue =
      (state.agents uid).map Agent.inboundQueue)
    (calls : ∀ thread, (state'.calls thread).queue? = (state.calls thread).queue?) :
    Owners state' where
  agents uid := by rw [agents, routes, owners.agents]
  routed_lt := by rw [routes, storage]; exact owners.routed_lt
  routed_unique := by rw [routes]; exact owners.routed_unique
  held_lt thread queue := by rw [calls, storage]; exact owners.held_lt thread queue
  held_unique thread other queue := by
    rw [calls, calls]
    exact owners.held_unique thread other queue
  held_not_routed thread queue := by rw [calls, routes]; exact owners.held_not_routed thread queue
  free_nodup := by rw [free]; exact owners.free_nodup
  free_lt := by rw [free, storage]; exact owners.free_lt
  free_not_routed := by rw [free, routes]; exact owners.free_not_routed
  free_not_held queue mem thread := by
    rw [calls]
    rw [free] at mem
    exact owners.free_not_held queue mem thread

variable [DecidableEq Uid] [DecidableEq Thread]

omit [DecidableEq Thread] in
theorem register (owners : Owners state) {freeQueues : List QueueId} {queueStorage : Nat}
    (grows : state.queueStorage ≤ queueStorage) (queue_lt : queue < queueStorage)
    (nodup : (queue :: freeQueues).Nodup) (sub : ∀ other ∈ freeQueues, other ∈ state.freeQueues)
    (not_routed : ∀ other, state.routes other ≠ some queue)
    (not_held : ∀ thread, (state.calls thread).queue? ≠ some queue) :
    Owners { state with
      routes := update state.routes uid (some queue)
      agents := update state.agents uid (some { inboundQueue := queue })
      freeQueues
      queueStorage } := by
  obtain ⟨not_free, nodup⟩ := List.nodup_cons.mp nodup
  refine ⟨fun other => ?_, fun other found same => ?_, fun first second found same same' => ?_,
    fun thread found same => ?_, owners.held_unique, fun thread found same other routed => ?_,
    nodup, fun other mem => ?_, fun other mem found routed => ?_,
    fun other mem => owners.free_not_held other (sub other mem)⟩
  · by_cases same : other = uid
    · subst same
      simp
    · simp only [update_of_ne same]
      exact owners.agents other
  · rcases update_some.mp same with ⟨-, rfl⟩ | ⟨-, same⟩
    · exact queue_lt
    · exact Nat.lt_of_lt_of_le (owners.routed_lt other found same) grows
  · rcases update_some.mp same with ⟨isFirst, rfl⟩ | ⟨-, same⟩ <;>
      rcases update_some.mp same' with ⟨isSecond, isQueue⟩ | ⟨-, same'⟩
    · exact isFirst.trans isSecond.symm
    · exact absurd same' (not_routed second)
    · exact absurd (isQueue ▸ same) (not_routed first)
    · exact owners.routed_unique first second found same same'
  · exact Nat.lt_of_lt_of_le (owners.held_lt thread found same) grows
  · rcases update_some.mp routed with ⟨-, rfl⟩ | ⟨-, routed⟩
    · exact not_held thread same
    · exact owners.held_not_routed thread found same other routed
  · exact Nat.lt_of_lt_of_le (owners.free_lt other (sub other mem)) grows
  · rcases update_some.mp routed with ⟨-, rfl⟩ | ⟨-, routed⟩
    · exact not_free mem
    · exact owners.free_not_routed other (sub other mem) found routed

omit [DecidableEq Uid] [DecidableEq Thread] in
theorem takeQueue (owners : Owners state) {freeQueues : List QueueId} {queueStorage : Nat}
    (taken : state.takeQueue = (queue, freeQueues, queueStorage)) :
    state.queueStorage ≤ queueStorage ∧ queue < queueStorage ∧ (queue :: freeQueues).Nodup ∧
      (∀ other ∈ freeQueues, other ∈ state.freeQueues) ∧
      (∀ other, state.routes other ≠ some queue) ∧
      ∀ thread, (state.calls thread).queue? ≠ some queue := by
  have nodup := owners.free_nodup
  unfold State.takeQueue at taken
  cases free : state.freeQueues with
  | nil =>
    rw [free] at taken
    cases taken
    refine ⟨Nat.le_succ _, Nat.lt_succ_self _, by simp, by simp, fun other same => ?_,
      fun thread same => ?_⟩
    · exact absurd (owners.routed_lt other _ same) (Nat.lt_irrefl _)
    · exact absurd (owners.held_lt thread _ same) (Nat.lt_irrefl _)
  | cons first others =>
    rw [free] at taken nodup
    cases taken
    have mem : queue ∈ state.freeQueues := by rw [free]; exact List.mem_cons_self
    exact ⟨Nat.le_refl _, owners.free_lt _ mem, nodup,
      fun other others => List.mem_cons_of_mem _ others, owners.free_not_routed _ mem,
      owners.free_not_held _ mem⟩

omit [DecidableEq Thread] in
theorem registerAgent (owners : Owners state) (uid : Uid) : Owners (state.registerAgent uid) := by
  unfold State.registerAgent
  rcases taken : state.takeQueue with ⟨queue, freeQueues, queueStorage⟩
  obtain ⟨grows, queue_lt, nodup, sub, not_routed, not_held⟩ := owners.takeQueue taken
  dsimp only
  cases routed : state.routes uid with
  | none =>
    exact owners.register grows queue_lt nodup sub not_routed not_held
  | some other =>
    refine
      { owners with
        routed_lt := fun uid found same => ?_
        held_lt := fun thread found same => ?_
        free_nodup := nodup
        free_lt := ?_
        free_not_routed := ?_
        free_not_held := ?_ }
    · exact Nat.lt_of_lt_of_le (owners.routed_lt uid found same) grows
    · exact Nat.lt_of_lt_of_le (owners.held_lt thread found same) grows
    · rintro found (_ | ⟨_, mem⟩)
      · exact queue_lt
      · exact Nat.lt_of_lt_of_le (owners.free_lt found (sub found mem)) grows
    · rintro found (_ | ⟨_, mem⟩)
      · exact not_routed
      · exact owners.free_not_routed found (sub found mem)
    · rintro found (_ | ⟨_, mem⟩)
      · exact not_held
      · exact owners.free_not_held found (sub found mem)

theorem unregister (owners : Owners state) (routed : state.routes uid = some queue) :
    Owners { state.setCall thread (.clearing uid queue) with
      routes := update state.routes uid none
      agents := update state.agents uid none } := by
  refine
    { owners with
      agents := fun other => ?_
      routed_lt := fun other found same => ?_
      routed_unique := fun first second found same same' => ?_
      held_lt := fun other found same => ?_
      held_unique := fun first second found same same' => ?_
      held_not_routed := fun other found same found' same' => ?_
      free_not_routed := fun found mem other same => ?_
      free_not_held := fun found mem other same => ?_ }
  · by_cases same : other = uid
    · subst same
      simp
    · simp only [update_of_ne same]
      exact owners.agents other
  · exact owners.routed_lt other found (update_none.mp same).2
  · exact owners.routed_unique first second found (update_none.mp same).2
      (update_none.mp same').2
  · rcases setCall_queue same with ⟨-, ⟨⟩⟩ | ⟨-, same⟩
    · exact owners.routed_lt uid queue routed
    · exact owners.held_lt other found same
  · rcases setCall_queue same with ⟨isFirst, isQueue⟩ | ⟨-, held⟩ <;>
      rcases setCall_queue same' with ⟨isSecond, isQueue'⟩ | ⟨-, held'⟩
    · exact isFirst.trans isSecond.symm
    · cases isQueue
      exact absurd routed (owners.held_not_routed second queue held' uid)
    · cases isQueue'
      exact absurd routed (owners.held_not_routed first queue held uid)
    · exact owners.held_unique first second found held held'
  · obtain ⟨notUid, same'⟩ := update_none.mp same'
    rcases setCall_queue same with ⟨-, ⟨⟩⟩ | ⟨-, same⟩
    · exact notUid (owners.routed_unique found' uid queue same' routed)
    · exact owners.held_not_routed other found same found' same'
  · exact owners.free_not_routed found mem other (update_none.mp same).2
  · rcases setCall_queue same with ⟨-, ⟨⟩⟩ | ⟨-, same⟩
    · exact owners.free_not_routed queue mem uid routed
    · exact owners.free_not_held found mem other same

omit [DecidableEq Uid] in
theorem recycle (owners : Owners state) (held : (state.calls thread).queue? = some queue) :
    Owners { state.setCall thread .idle with freeQueues := queue :: state.freeQueues } := by
  have others : ∀ other found, ((state.setCall thread .idle).calls other).queue? = some found →
      (state.calls other).queue? = some found ∧ other ≠ thread := by
    intro other found same
    rcases setCall_queue same with ⟨-, ⟨⟩⟩ | ⟨notThread, same⟩
    exact ⟨same, notThread⟩
  refine
    { owners with
      held_lt := fun other found same => ?_
      held_unique := fun first second found same same' => ?_
      held_not_routed := fun other found same => ?_
      free_nodup := ?_
      free_lt := ?_
      free_not_routed := ?_
      free_not_held := ?_ }
  · exact owners.held_lt other found (others other found same).1
  · exact owners.held_unique first second found (others first found same).1
      (others second found same').1
  · exact owners.held_not_routed other found (others other found same).1
  · exact List.nodup_cons.mpr ⟨fun mem => owners.free_not_held queue mem thread held,
      owners.free_nodup⟩
  · rintro found (_ | ⟨_, mem⟩)
    · exact owners.held_lt thread queue held
    · exact owners.free_lt found mem
  · rintro found (_ | ⟨_, mem⟩)
    · exact owners.held_not_routed thread queue held
    · exact owners.free_not_routed found mem
  · rintro found (_ | ⟨_, mem⟩) other same
    · exact (others other queue same).2 (owners.held_unique other thread queue
        (others other queue same).1 held)
    · exact owners.free_not_held found mem other (others other found same).1

omit [DecidableEq Uid] in
theorem setCall (owners : Owners state) {call : Call Uid}
    (same : call.queue? = (state.calls thread).queue?) : Owners (state.setCall thread call) := by
  refine owners.keep rfl rfl rfl (fun _ => rfl) fun other => ?_
  by_cases isThread : other = thread
  · subst isThread
    simpa [State.setCall] using same
  · simp [State.setCall, isThread]

omit [DecidableEq Thread] in
theorem setPoll (owners : Owners state) {agent : Agent} {poll : Poll}
    (registered : state.agents uid = some agent) : Owners (state.setPoll uid agent poll) := by
  refine owners.keep rfl rfl rfl (fun other => ?_) fun _ => rfl
  by_cases isUid : other = uid
  · subst isUid
    simp [State.setPoll, registered]
  · simp [State.setPoll, isUid]

end Owners

/-! ## What a step does to the queues -/

section Steps

variable {state state' : State Uid Thread}

/-- What a step of `completeRequest` pushes, and into which queue. -/
def State.pushOfCompleting (state : State Uid Thread) : Completing → Option (Entry Uid × QueueId)
  | .pushBack message queue =>
    (state.headers message).map fun header => (⟨message, header.fromUid⟩, queue)
  | _ => none

/-- What a step pushes, and into which queue. -/
def State.pushOf (state : State Uid Thread) : Action Uid Thread → Option (Entry Uid × QueueId)
  | .advance thread =>
    match state.calls thread with
    | .pushing dest message queue => some (⟨message, dest⟩, queue)
    | .completing left => state.pushOfCompleting left
    | _ => none
  | .advancePoll uid _ =>
    match state.agents uid with
    | some ⟨_, .completing left _⟩ => state.pushOfCompleting left
    | _ => none
  | _ => none

variable [DecidableEq Uid] [DecidableEq Thread]

omit [DecidableEq Uid] [DecidableEq Thread] in
theorem mem_push {entry other : Entry Uid} {queue found : QueueId}
    (mem : other ∈ (state.push queue entry).queues found) :
    other ∈ state.queues found ∨ other = entry ∧ found = queue := by
  by_cases same : found = queue
  · subst same
    simpa [State.push] using mem
  · simp only [State.push, update_of_ne same] at mem
    exact Or.inl mem

omit [DecidableEq Uid] [DecidableEq Thread] in
theorem completeStep_same (state : State Uid Thread) (left : Completing) :
    ∃ headers queues, (state.completeStep left).1 = { state with headers, queues } := by
  cases left <;> unfold State.completeStep <;> dsimp only <;> split
  all_goals first
    | exact ⟨_, _, rfl⟩
    | (split <;> exact ⟨_, _, rfl⟩)

omit [DecidableEq Uid] [DecidableEq Thread] in
theorem completeStep_queues {left : Completing} {queue : QueueId} {entry : Entry Uid}
    (mem : entry ∈ (state.completeStep left).1.queues queue) :
    entry ∈ state.queues queue ∨ state.pushOfCompleting left = some (entry, queue) := by
  cases left with
  | setStatus message status =>
    unfold State.completeStep at mem
    dsimp only at mem
    split at mem
    · exact Or.inl mem
    · split at mem <;> exact Or.inl mem
  | findSender message =>
    unfold State.completeStep at mem
    dsimp only at mem
    split at mem
    · exact Or.inl mem
    · split at mem <;> exact Or.inl mem
  | pushBack message found =>
    unfold State.completeStep at mem
    dsimp only at mem
    split at mem
    · exact Or.inl mem
    · rename_i header same
      rcases mem_push mem with mem | ⟨rfl, rfl⟩
      · exact Or.inl mem
      · exact Or.inr (by simp [State.pushOfCompleting, same])

omit [DecidableEq Uid] [DecidableEq Thread] in
theorem clear_same (state : State Uid Thread) (queue : QueueId) :
    ∃ headers, state.clear queue =
      { state with headers, queues := update state.queues queue [] } := by
  have released : ∀ entries : List (Entry Uid), ∀ start : State Uid Thread, ∃ headers,
      entries.foldl (fun state entry => state.releaseRef entry.message) start =
        { start with headers } := by
    intro entries
    induction entries with
    | nil => exact fun start => ⟨start.headers, rfl⟩
    | cons entry entries ih =>
      intro start
      obtain ⟨headers, same⟩ := ih (start.releaseRef entry.message)
      exact ⟨headers, same⟩
  obtain ⟨headers, same⟩ := released (state.queues queue) state
  refine ⟨headers, ?_⟩
  rw [State.clear, same]

/-- The steps of the poll of an agent, in and after a handler too. -/
inductive PollStep (state : State Uid Thread) (uid : Uid) (agent : Agent) (throws : Bool) :
    State Uid Thread → Prop
  | finish (at_next : agent.poll = .next []) :
      PollStep state uid agent throws (state.setPoll uid agent .idle)
  | pop (at_next : agent.poll = .next []) :
      PollStep state uid agent throws { state.setPoll uid agent (.next
          (((state.queues agent.inboundQueue).take MessageQueue.popBatch).map Entry.message)) with
        queues := update state.queues agent.inboundQueue
          ((state.queues agent.inboundQueue).drop MessageQueue.popBatch)
        popped := state.popped ++ ((state.queues agent.inboundQueue).take
          MessageQueue.popBatch).map fun entry => ⟨entry.message, entry.dest, uid⟩ }
  | handle (message : Message) (rest : List Message) (at_next : agent.poll = .next (message :: rest)) :
      PollStep state uid agent throws (state.setPoll uid agent (.handling message rest))
  | answer (message : Message) (rest : List Message) (header : Header Uid) (status : RequestStatus)
      (at_message : agent.poll = .next (message :: rest) ∨ agent.poll = .handling message rest)
      (found : state.headers message = some header) (settles : status ≠ .pending) :
      PollStep state uid agent throws
        (state.setPoll uid agent (.completing (.setStatus message status) rest))
  | release (message : Message) (rest : List Message) (header : Header Uid)
      (at_message : agent.poll = .next (message :: rest) ∨ agent.poll = .handling message rest)
      (found : state.headers message = some header)
      (plain : ¬ (header.hasRequestBlock ∧ ¬ header.isCompletionMessage)) :
      PollStep state uid agent throws ((state.setPoll uid agent (.next rest)).releaseRef message)
  | leave (message : Message) (rest : List Message) (header : Header Uid) (thrown : throws = true)
      (at_message : agent.poll = .handling message rest)
      (found : state.headers message = some header)
      (plain : ¬ (header.hasRequestBlock ∧ ¬ header.isCompletionMessage)) :
      PollStep state uid agent throws ((state.setPoll uid agent .idle).releaseRef message)
  | complete (left : Completing) (rest : List Message)
      (at_left : agent.poll = .completing left rest) :
      PollStep state uid agent throws ((state.completeStep left).1.setPoll uid agent
        ((state.completeStep left).2.elim (.next rest) fun left => .completing left rest))

omit [DecidableEq Thread] in
theorem advancePoll_cases {uid : Uid} {handlerValid : Bool}
    (next : state.advancePoll uid handlerValid = some state') :
    ∃ agent, state.agents uid = some agent ∧ PollStep state uid agent false state' := by
  unfold State.advancePoll at next
  cases registered : state.agents uid with
  | none =>
    rw [registered] at next
    cases next
  | some agent =>
    refine ⟨agent, rfl, ?_⟩
    simp only [registered, Option.bind_eq_bind, Option.bind_some] at next
    cases poll : agent.poll with
    | idle =>
      rw [poll] at next
      cases next
    | next rest =>
      cases rest with
      | nil =>
        simp only [poll] at next
        split at next
        · cases next
          exact .finish poll
        · cases next
          exact .pop poll
      | cons message rest =>
        simp only [poll] at next
        cases found : state.headers message with
        | none =>
          rw [found] at next
          cases next
        | some header =>
          simp only [found, Option.bind_some] at next
          split at next
          · cases next
            exact .handle message rest poll
          · split at next
            · cases next
              exact .answer message rest header .dropped (Or.inl poll) found (by decide)
            · cases next
              exact .release message rest header (Or.inl poll) found ‹_›
    | handling message rest =>
      rw [poll] at next
      cases next
    | completing left rest =>
      simp only [poll] at next
      cases next
      exact .complete left rest poll

omit [DecidableEq Thread] in
theorem handlerReturns_cases {uid : Uid} {throws : Bool}
    (next : state.handlerReturns uid throws = some state') :
    ∃ agent, state.agents uid = some agent ∧ PollStep state uid agent throws state' := by
  unfold State.handlerReturns at next
  cases registered : state.agents uid with
  | none =>
    rw [registered] at next
    cases next
  | some agent =>
    refine ⟨agent, rfl, ?_⟩
    simp only [registered, Option.bind_eq_bind, Option.bind_some] at next
    cases poll : agent.poll with
    | handling message rest =>
      simp only [poll] at next
      cases found : state.headers message with
      | none =>
        rw [found] at next
        cases next
      | some header =>
        simp only [found, Option.bind_some] at next
        split at next
        · cases next
          refine .answer message rest header _ (Or.inr poll) found ?_
          cases throws <;> simp
        · rename_i plain
          cases throws with
          | true =>
            cases next
            exact .leave message rest header rfl poll found plain
          | false =>
            cases next
            exact .release message rest header (Or.inr poll) found plain
    | _ =>
      rw [poll] at next
      cases next

end Steps

end Voxen.Svc.MessageRouter
