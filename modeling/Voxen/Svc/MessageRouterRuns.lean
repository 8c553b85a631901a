import Voxen.Svc.MessageRouterQueues
import Voxen.Lib.FinSizes

/-!
# Runs of the message router

As long as a message is pushed only while its recipient has the queue, it is popped
by its recipient.  As long as no request is in a queue, or in the rest of a batch,
when these are given up, somebody can complete it.
-/

namespace Voxen.Svc.MessageRouter

variable {Uid Thread : Type} {state state' : State Uid Thread}

/-! ## Every queue keeps to one owner -/

section Owners

theorem Owners.change (owners : Owners state) (headers : Message → Option (Header Uid))
    (queues : QueueId → List (Entry Uid)) (nextMessage : Nat) (popped : List (Pop Uid)) :
    Owners { state with headers, queues, nextMessage, popped } :=
  owners.keep rfl rfl rfl (fun _ => rfl) fun _ => rfl

variable [DecidableEq Uid] [DecidableEq Thread]

omit [DecidableEq Thread] in
theorem pollStep_owners (owners : Owners state) {uid : Uid} {agent : Agent} {throws : Bool}
    (registered : state.agents uid = some agent) (next : PollStep state uid agent throws state') :
    Owners state' := by
  cases next with
  | finish => exact owners.setPoll registered
  | pop => exact (owners.setPoll registered).change _ _ _ _
  | handle => exact owners.setPoll registered
  | answer => exact owners.setPoll registered
  | release => exact (owners.setPoll registered).change _ _ _ _
  | leave => exact (owners.setPoll registered).change _ _ _ _
  | complete left rest =>
    obtain ⟨headers, queues, same⟩ := completeStep_same state left
    rw [same]
    exact (owners.change headers queues _ _).setPoll registered

omit [DecidableEq Uid] in
theorem send_owners (owners : Owners state) {thread : Thread} {from_ dest msgUid : Uid}
    {sending : Sending} (idle : state.calls thread = .idle) :
    Owners (state.send thread from_ dest msgUid sending) := by
  unfold State.send
  dsimp only
  split
  · exact (owners.change _ _ _ _).setCall (by rw [idle]; rfl)
  · split
    · exact owners.change _ _ _ _
    · exact (owners.change _ _ _ _).setCall (by rw [idle]; rfl)

omit [DecidableEq Uid] in
theorem advance_owners (owners : Owners state) {thread : Thread}
    (next : state.advance thread = some state') : Owners state' := by
  unfold State.advance at next
  cases call : state.calls thread with
  | idle =>
    rw [call] at next
    cases next
  | pushing dest message queue =>
    simp only [call] at next
    cases next
    exact (owners.change _ _ _ _).setCall (by rw [call]; rfl)
  | completing left =>
    simp only [call] at next
    cases next
    obtain ⟨headers, queues, same⟩ := completeStep_same state left
    rw [same]
    refine (owners.change headers queues _ _).setCall ?_
    rw [call]
    cases (state.completeStep left).2 <;> rfl
  | clearing uid queue =>
    simp only [call] at next
    cases next
    obtain ⟨headers, same⟩ := clear_same state queue
    rw [same]
    exact (owners.change headers _ _ _).setCall (by rw [call]; rfl)
  | recycling queue =>
    simp only [call] at next
    cases next
    exact owners.recycle (by rw [call]; rfl)

theorem unregisterAgent_cases {thread : Thread} {uid : Uid}
    (next : step state (.unregisterAgent thread uid) = some state') :
    ∃ queue agentQueue, state.routes uid = some queue ∧
      state.agents uid = some ⟨agentQueue, .idle⟩ ∧ state.calls thread = .idle ∧
      state' = { state.setCall thread (.clearing uid queue) with
        routes := Function.update state.routes uid none
        agents := Function.update state.agents uid none } := by
  simp only [step] at next
  split at next
  · rename_i queue agentQueue routed registered
    split at next
    · rename_i idle
      cases next
      exact ⟨queue, agentQueue, routed, registered, idle, rfl⟩
    · cases next
  · cases next

theorem pollMessages_cases {uid : Uid}
    (next : step state (.pollMessages uid : Action Uid Thread) = some state') :
    ∃ queue, state.agents uid = some ⟨queue, .idle⟩ ∧
      state' = state.setPoll uid ⟨queue, .idle⟩ (.next []) := by
  simp only [step] at next
  split at next
  · rename_i queue registered
    cases next
    exact ⟨queue, registered, rfl⟩
  · cases next

theorem send_cases {thread : Thread} {from_ dest msgUid : Uid} {sending : Sending}
    (next : step state (.send thread from_ dest msgUid sending) = some state') :
    state.calls thread = .idle ∧ state' = state.send thread from_ dest msgUid sending := by
  simp only [step] at next
  split at next
  · rename_i idle
    cases next
    exact ⟨idle, rfl⟩
  · cases next

theorem handle_cases {message : Message} {action : Action Uid Thread}
    (isHandle : action = .wait message ∨ action = .resetHandle message)
    (next : step state action = some state') :
    ∃ change : Header Uid → Header Uid, state' = state.modifyHeader message change ∧
      ∀ header, (change header).toMessageHeader = header.toMessageHeader ∧
        (change header).status = header.status := by
  rcases isHandle with rfl | rfl
  all_goals
    simp only [step] at next
    split at next
    · cases next
      exact ⟨_, rfl, fun _ => ⟨rfl, rfl⟩⟩
    · cases next

theorem step_owners (owners : Owners state) {action : Action Uid Thread}
    (next : step state action = some state') : Owners state' := by
  cases action with
  | registerAgent uid =>
    cases next
    exact owners.registerAgent uid
  | unregisterAgent thread uid =>
    obtain ⟨queue, -, routed, -, -, rfl⟩ := unregisterAgent_cases next
    exact owners.unregister routed
  | send thread from_ dest msgUid sending =>
    obtain ⟨idle, rfl⟩ := send_cases next
    exact send_owners owners idle
  | advance thread => exact advance_owners owners next
  | pollMessages uid =>
    obtain ⟨queue, registered, rfl⟩ := pollMessages_cases next
    exact owners.setPoll registered
  | advancePoll uid handlerValid =>
    obtain ⟨agent, registered, polled⟩ := advancePoll_cases next
    exact pollStep_owners owners registered polled
  | handlerReturns uid throws =>
    obtain ⟨agent, registered, polled⟩ := handlerReturns_cases next
    exact pollStep_owners owners registered polled
  | wait message =>
    obtain ⟨change, rfl, -⟩ := handle_cases (Or.inl rfl) next
    exact owners.change _ _ _ _
  | resetHandle message =>
    obtain ⟨change, rfl, -⟩ := handle_cases (Or.inr rfl) next
    exact owners.change _ _ _ _

end Owners

/-! ## Messages are popped by their recipients -/

/-- The queue is routed for the recipient, or yet to be cleared for it. -/
def State.Delivers (state : State Uid Thread) (dest : Uid) (queue : QueueId) : Prop :=
  state.routes dest = some queue ∨ ∃ thread, state.calls thread = .clearing dest queue

/-- What the step pushes goes into a queue of its recipient. -/
def PushDelivers (state : State Uid Thread) (action : Action Uid Thread) : Prop :=
  ∀ entry queue, state.pushOf action = some (entry, queue) → state.Delivers entry.dest queue

/-- What is in a queue is there for the owner. -/
structure Delivered (state : State Uid Thread) : Prop where
  owners : Owners state
  contents : ∀ queue, ∀ entry ∈ state.queues queue, state.Delivers entry.dest queue
  popped : ∀ pop ∈ state.popped, pop.dest = pop.popper

namespace Delivered

theorem initial : Delivered ({} : State Uid Thread) where
  owners := .initial
  contents _ _ mem := by cases mem
  popped _ mem := by cases mem

theorem dest_eq (delivered : Delivered state) {uid : Uid} {queue : QueueId} {entry : Entry Uid}
    (routed : state.routes uid = some queue) (mem : entry ∈ state.queues queue) :
    entry.dest = uid := by
  rcases delivered.contents queue entry mem with same | ⟨thread, clearing⟩
  · exact delivered.owners.routed_unique _ _ queue same routed
  · have held : (state.calls thread).queue? = some queue := by
      rw [clearing]
      rfl
    exact absurd routed (delivered.owners.held_not_routed thread queue held uid)

theorem keep (delivered : Delivered state) (owners : Owners state')
    (routes : state'.routes = state.routes)
    (clearing : ∀ thread uid queue, state.calls thread = .clearing uid queue →
      state'.calls thread = .clearing uid queue)
    (contents : ∀ queue, ∀ entry ∈ state'.queues queue,
      entry ∈ state.queues queue ∨ state.Delivers entry.dest queue)
    (popped : ∀ pop ∈ state'.popped, pop ∈ state.popped ∨ pop.dest = pop.popper) :
    Delivered state' := by
  have delivers : ∀ dest queue, state.Delivers dest queue → state'.Delivers dest queue := by
    rintro dest queue (same | ⟨thread, same⟩)
    · exact Or.inl (by rw [routes]; exact same)
    · exact Or.inr ⟨thread, clearing thread dest queue same⟩
  refine ⟨owners, fun queue entry mem => ?_, fun pop mem => ?_⟩
  · rcases contents queue entry mem with mem | found
    · exact delivers _ _ (delivered.contents queue entry mem)
    · exact delivers _ _ found
  · rcases popped pop mem with mem | same
    · exact delivered.popped pop mem
    · exact same

variable [DecidableEq Uid] [DecidableEq Thread] {uid : Uid} {thread : Thread}

omit [DecidableEq Thread] in
theorem registerAgent (delivered : Delivered state) (uid : Uid) :
    Delivered (state.registerAgent uid) := by
  have owners := delivered.owners.registerAgent uid
  revert owners
  unfold State.registerAgent
  rcases taken : state.takeQueue with ⟨queue, freeQueues, queueStorage⟩
  obtain ⟨-, -, -, -, not_routed, not_held⟩ := delivered.owners.takeQueue taken
  dsimp only
  intro owners
  cases routed : state.routes uid with
  | some other =>
    rw [routed] at owners
    exact ⟨owners, delivered.contents, delivered.popped⟩
  | none =>
    rw [routed] at owners
    refine ⟨owners, fun found entry mem => ?_, delivered.popped⟩
    rcases delivered.contents found entry mem with same | clearing
    · refine Or.inl ?_
      have notUid : entry.dest ≠ uid := by
        intro isUid
        rw [isUid, routed] at same
        cases same
      exact update_some.mpr (Or.inr ⟨notUid, same⟩)
    · exact Or.inr clearing

theorem unregister (delivered : Delivered state) {queue : QueueId}
    (routed : state.routes uid = some queue) (idle : state.calls thread = .idle) :
    Delivered { state.setCall thread (.clearing uid queue) with
      routes := Function.update state.routes uid none
      agents := Function.update state.agents uid none } := by
  refine ⟨delivered.owners.unregister routed, fun found entry mem => ?_, delivered.popped⟩
  rcases delivered.contents found entry mem with same | ⟨other, clearing⟩
  · by_cases isUid : entry.dest = uid
    · refine Or.inr ⟨thread, ?_⟩
      rw [isUid, routed] at same
      cases same
      simp [State.setCall, isUid]
    · exact Or.inl (update_none.mpr ⟨isUid, same⟩)
  · refine Or.inr ⟨other, ?_⟩
    have notThread : other ≠ thread := by
      rintro rfl
      rw [idle] at clearing
      cases clearing
    simpa [State.setCall, notThread] using clearing

end Delivered

section Steps

variable [DecidableEq Uid] [DecidableEq Thread] {uid : Uid} {thread : Thread}

omit [DecidableEq Uid] in
theorem setCall_clearing {call : Call Uid}
    (notClearing : ∀ uid queue, state.calls thread ≠ .clearing uid queue) {other : Thread}
    {uid : Uid} {queue : QueueId} (clearing : state.calls other = .clearing uid queue) :
    (state.setCall thread call).calls other = .clearing uid queue := by
  have notThread : other ≠ thread := by
    rintro rfl
    exact notClearing uid queue clearing
  simpa [State.setCall, notThread] using clearing

omit [DecidableEq Thread] in
theorem pollStep_delivered (delivered : Delivered state) {agent : Agent} {throws : Bool}
    (registered : state.agents uid = some agent)
    (pushes : ∀ left rest, agent.poll = .completing left rest → ∀ entry queue,
      state.pushOfCompleting left = some (entry, queue) → state.Delivers entry.dest queue)
    (next : PollStep state uid agent throws state') : Delivered state' := by
  have owners := pollStep_owners delivered.owners registered next
  have routed : state.routes uid = some agent.inboundQueue := by
    rw [← delivered.owners.agents, registered]
    rfl
  cases next with
  | finish => exact ⟨owners, delivered.contents, delivered.popped⟩
  | pop =>
    refine delivered.keep owners rfl (fun _ _ _ same => same) (fun queue entry mem => ?_)
      fun pop mem => ?_
    · refine Or.inl ?_
      by_cases same : queue = agent.inboundQueue
      · subst same
        simp only [Function.update_self] at mem
        exact List.mem_of_mem_drop mem
      · simp only [Function.update_of_ne same] at mem
        exact mem
    · rcases List.mem_append.mp mem with mem | mem
      · exact Or.inl mem
      · obtain ⟨entry, inBatch, rfl⟩ := List.mem_map.mp mem
        exact Or.inr (delivered.dest_eq routed (List.mem_of_mem_take inBatch))
  | handle => exact ⟨owners, delivered.contents, delivered.popped⟩
  | answer => exact ⟨owners, delivered.contents, delivered.popped⟩
  | release => exact ⟨owners, delivered.contents, delivered.popped⟩
  | leave => exact ⟨owners, delivered.contents, delivered.popped⟩
  | complete left rest at_left =>
    obtain ⟨headers, queues, same⟩ := completeStep_same state left
    have mem_queues : ∀ queue entry, entry ∈ queues queue →
        entry ∈ (state.completeStep left).1.queues queue := by
      rw [same]
      exact fun _ _ mem => mem
    rw [same] at owners ⊢
    refine delivered.keep owners rfl (fun _ _ _ same => same) (fun queue entry mem => ?_)
      fun pop mem => Or.inl mem
    exact (completeStep_queues (mem_queues queue entry mem)).imp_right
      (pushes left rest at_left entry queue)

omit [DecidableEq Uid] in
theorem send_delivered (delivered : Delivered state) {from_ dest msgUid : Uid} {sending : Sending}
    (idle : state.calls thread = .idle) :
    Delivered (state.send thread from_ dest msgUid sending) := by
  have owners : Owners (state.send thread from_ dest msgUid sending) :=
    send_owners delivered.owners idle
  have notClearing : ∀ uid queue, state.calls thread ≠ .clearing uid queue := by
    intro uid queue same
    rw [idle] at same
    cases same
  revert owners
  unfold State.send
  dsimp only
  split
  · exact fun owners => delivered.keep owners rfl (fun _ _ _ => setCall_clearing notClearing)
      (fun _ _ mem => Or.inl mem) fun _ mem => Or.inl mem
  · split
    · exact fun owners => ⟨owners, delivered.contents, delivered.popped⟩
    · exact fun owners => delivered.keep owners rfl (fun _ _ _ => setCall_clearing notClearing)
        (fun _ _ mem => Or.inl mem) fun _ mem => Or.inl mem

omit [DecidableEq Uid] in
theorem advance_delivered (delivered : Delivered state)
    (pushes : PushDelivers state (.advance thread))
    (next : state.advance thread = some state') : Delivered state' := by
  have owners := advance_owners delivered.owners next
  unfold State.advance at next
  cases call : state.calls thread with
  | idle =>
    rw [call] at next
    cases next
  | pushing dest message queue =>
    simp only [call] at next
    cases next
    refine delivered.keep owners rfl
      (fun _ _ _ => setCall_clearing fun _ _ same => by rw [call] at same; cases same)
      (fun found entry mem => ?_) fun _ mem => Or.inl mem
    rcases mem_push mem with mem | ⟨rfl, rfl⟩
    · exact Or.inl mem
    · exact Or.inr (pushes _ _ (by simp [State.pushOf, call]))
  | completing left =>
    simp only [call] at next
    cases next
    obtain ⟨headers, queues, same⟩ := completeStep_same state left
    have mem_queues : ∀ queue entry, entry ∈ queues queue →
        entry ∈ (state.completeStep left).1.queues queue := by
      rw [same]
      exact fun _ _ mem => mem
    rw [same] at owners ⊢
    refine delivered.keep owners rfl
      (fun _ _ _ => setCall_clearing fun _ _ same => by rw [call] at same; cases same)
      (fun queue entry mem => ?_) fun _ mem => Or.inl mem
    refine (completeStep_queues (mem_queues queue entry mem)).imp_right fun pushed => ?_
    exact pushes entry queue (by simpa [State.pushOf, call] using pushed)
  | clearing uid queue =>
    simp only [call] at next
    cases next
    obtain ⟨headers, same⟩ := clear_same state queue
    rw [same] at owners ⊢
    refine ⟨owners, fun found entry mem => ?_, delivered.popped⟩
    have notQueue : found ≠ queue := by
      rintro rfl
      simp [State.setCall] at mem
    simp only [State.setCall, Function.update_of_ne notQueue] at mem
    rcases delivered.contents found entry mem with same | ⟨other, clearing⟩
    · exact Or.inl same
    · refine Or.inr ⟨other, ?_⟩
      have notThread : other ≠ thread := by
        rintro rfl
        rw [call] at clearing
        cases clearing
        exact notQueue rfl
      simpa [State.setCall, notThread] using clearing
  | recycling queue =>
    simp only [call] at next
    cases next
    exact delivered.keep owners rfl
      (fun _ _ _ => setCall_clearing fun _ _ same => by rw [call] at same; cases same)
      (fun _ _ mem => Or.inl mem) fun _ mem => Or.inl mem

theorem step_delivered {action : Action Uid Thread} (delivered : Delivered state)
    (pushes : PushDelivers state action) (next : step state action = some state') :
    Delivered state' := by
  cases action with
  | registerAgent uid =>
    cases next
    exact delivered.registerAgent uid
  | unregisterAgent thread uid =>
    obtain ⟨queue, -, routed, -, idle, rfl⟩ := unregisterAgent_cases next
    exact delivered.unregister routed idle
  | send thread from_ dest msgUid sending =>
    obtain ⟨idle, rfl⟩ := send_cases next
    exact send_delivered delivered idle
  | advance thread => exact advance_delivered delivered pushes next
  | pollMessages uid =>
    have owners := step_owners delivered.owners next
    obtain ⟨queue, registered, rfl⟩ := pollMessages_cases next
    exact ⟨owners, delivered.contents, delivered.popped⟩
  | advancePoll uid handlerValid =>
    obtain ⟨agent, registered, polled⟩ := advancePoll_cases next
    refine pollStep_delivered delivered registered (fun left rest at_left entry queue pushed => ?_)
      polled
    obtain ⟨inbound, poll⟩ := agent
    cases at_left
    exact pushes entry queue (by simpa [State.pushOf, registered] using pushed)
  | handlerReturns uid throws =>
    have notCompleting : ∀ agent left rest, state.agents uid = some agent →
        agent.poll ≠ .completing left rest := by
      intro agent left rest registered at_left
      simp [step, State.handlerReturns, registered, at_left] at next
    obtain ⟨agent, registered, polled⟩ := handlerReturns_cases next
    exact pollStep_delivered delivered registered (fun left rest at_left _ _ _ =>
      absurd at_left (notCompleting agent left rest registered)) polled
  | wait message =>
    have owners := step_owners delivered.owners next
    obtain ⟨change, rfl, -⟩ := handle_cases (Or.inl rfl) next
    exact ⟨owners, delivered.contents, delivered.popped⟩
  | resetHandle message =>
    have owners := step_owners delivered.owners next
    obtain ⟨change, rfl, -⟩ := handle_cases (Or.inr rfl) next
    exact ⟨owners, delivered.contents, delivered.popped⟩

/-- A message is popped only by the agent it was sent to, if a message is pushed only
while the queue is routed for that agent or yet to be cleared for it. -/
theorem run_pops_delivered {actions : List (Action Uid Thread)}
    (pushes : Runs.StepsMeet step PushDelivers {} actions) (reached : run actions = some state) :
    ∀ pop ∈ state.popped, pop.dest = pop.popper :=
  (Runs.run_invariant (fun _ _ _ => step_delivered) Delivered.initial pushes reached).popped

end Steps

/-- Two agents or threads. -/
def first : Fin 2 := 0

def second : Fin 2 := 1

/-- A message is sent, pushed and popped. -/
def deliveredActions : List (Action (Fin 2) (Fin 2)) :=
  [.registerAgent first, .send first second first 5 .plain, .advance first,
    .pollMessages first, .advancePoll first true]

instance (state : State (Fin 2) (Fin 2)) (dest : Fin 2) (queue : QueueId) :
    Decidable (state.Delivers dest queue) :=
  inferInstanceAs (Decidable (_ ∨ ∃ _, _))

instance (state : State (Fin 2) (Fin 2)) (action : Action (Fin 2) (Fin 2)) :
    Decidable (PushDelivers state action) :=
  match pushed : state.pushOf action with
  | none => isTrue fun _ _ same => by rw [pushed] at same; cases same
  | some (entry, queue) =>
    decidable_of_iff (state.Delivers entry.dest queue)
      ⟨fun delivers _ _ same => by rw [pushed] at same; cases same; exact delivers,
        fun delivers => delivers entry queue pushed⟩

theorem deliveredActions_delivered :
    ∃ state, run deliveredActions = some state ∧ state.popped = [⟨0, first, first⟩] ∧
      ∀ pop ∈ state.popped, pop.dest = pop.popper := by
  have popped : (run deliveredActions).map State.popped = some [⟨0, first, first⟩] := by decide
  obtain ⟨state, reached, popped⟩ := Option.map_eq_some_iff.mp popped
  exact ⟨state, reached, popped, run_pops_delivered (by decide) reached⟩

/-- A thread has looked up the queue of the first agent.  That agent is unregistered,
its queue recycled and given to the second agent; then the thread pushes. -/
def recycledActions : List (Action (Fin 2) (Fin 2)) :=
  [.registerAgent first, .send first second first 5 .plain, .unregisterAgent second first,
    .advance second, .advance second, .registerAgent second, .advance first,
    .pollMessages second, .advancePoll second true]

/-- The second agent pops a message that was sent to the first one. -/
theorem recycledActions_misdeliver :
    ∃ state, run recycledActions = some state ∧
      ¬ ∀ pop ∈ state.popped, pop.dest = pop.popper := by
  have popped : (run recycledActions).map State.popped = some [⟨0, first, second⟩] := by decide
  obtain ⟨state, reached, popped⟩ := Option.map_eq_some_iff.mp popped
  refine ⟨state, reached, fun delivered => ?_⟩
  rw [popped] at delivered
  exact absurd (delivered _ (List.mem_singleton_self _)) (by decide)

end Voxen.Svc.MessageRouter
