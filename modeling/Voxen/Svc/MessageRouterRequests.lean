import Mathlib.Data.Fintype.Basic
import Voxen.Svc.MessageRouterRuns

/-!
# Pending requests

A request is pending until somebody sets its status.  It gets lost when a queue is
cleared, or the rest of a batch forgotten, with the request in it, or when it is
pushed into a queue that no agent has.
-/

namespace Voxen.Svc.MessageRouter

variable {Uid Thread : Type} {state state' : State Uid Thread}

/-! ## Headers -/

/-- No header becomes a pending request or a pending completion message. -/
def Later (old new : Message → Option (Header Uid)) : Prop :=
  ∀ message header', new message = some header' → ∃ header, old message = some header ∧
    header'.hasRequestBlock = header.hasRequestBlock ∧
    (header.status ≠ .pending → header'.status ≠ .pending) ∧
    (header'.isCompletionMessage = true →
      header.isCompletionMessage = true ∨ header'.status ≠ .pending)

namespace Later

theorem refl (headers : Message → Option (Header Uid)) : Later headers headers :=
  fun _ header found => ⟨header, found, rfl, id, Or.inl⟩

theorem trans {old middle new : Message → Option (Header Uid)} (first : Later old middle)
    (second : Later middle new) : Later old new := by
  intro message header'' found
  obtain ⟨header', found', request', settled', completion'⟩ := second message header'' found
  obtain ⟨header, found, request, settled, completion⟩ := first message header' found'
  refine ⟨header, found, request'.trans request, settled' ∘ settled, fun isCompletion => ?_⟩
  rcases completion' isCompletion with isCompletion | settles
  · exact (completion isCompletion).imp_right settled'
  · exact Or.inr settles

theorem modify (state : State Uid Thread) (message : Message) {change : Header Uid → Header Uid}
    (request : ∀ header, (change header).hasRequestBlock = header.hasRequestBlock)
    (settled : ∀ header, header.status ≠ .pending → (change header).status ≠ .pending)
    (completion : ∀ header, (change header).isCompletionMessage = true →
      header.isCompletionMessage = true ∨ (change header).status ≠ .pending) :
    Later state.headers (state.modifyHeader message change).headers := by
  intro other header' found
  by_cases same : other = message
  · subst same
    simp only [State.modifyHeader, Function.update_self] at found
    obtain ⟨header, before, rfl⟩ := Option.map_eq_some_iff.mp found
    exact ⟨header, before, request header, settled header, completion header⟩
  · simp only [State.modifyHeader, Function.update_of_ne same] at found
    exact ⟨header', found, rfl, id, Or.inl⟩

theorem release (state : State Uid Thread) (message : Message) :
    Later state.headers (state.releaseRef message).headers :=
  modify state message (fun _ => rfl) (fun _ => id) fun _ => Or.inl

theorem pending (later : Later state.headers state'.headers) {message : Message}
    (pending : state'.Pending message) : state.Pending message := by
  obtain ⟨header', found', request, still⟩ := pending
  obtain ⟨header, found, same, settled, -⟩ := later message header' found'
  exact ⟨header, found, same ▸ request, Decidable.byContradiction fun not => settled not still⟩

end Later

theorem fetchOr_settled {old status : RequestStatus}
    (settles : old ≠ .pending ∨ status ≠ .pending) :
    fetchOr old status ≠ .pending := by
  cases old <;> cases status <;> simp_all [fetchOr]

theorem modifyHeader_self {message : Message} {header : Header Uid}
    (found : state.headers message = some header) (change : Header Uid → Header Uid) :
    (state.modifyHeader message change).headers message = some (change header) := by
  simp [State.modifyHeader, found]

/-- What a `completeRequest` relies on: the status it sets is not `Pending`, and is set
before the message goes back. -/
def Completing.Ok (state : State Uid Thread) (left : Completing) : Prop :=
  left.message < state.nextMessage ∧
    match left with
    | .setStatus _ status => status ≠ .pending
    | .findSender message => ¬ state.Pending message
    | .pushBack message _ => ¬ state.Pending message

theorem Completing.Ok.keep {left : Completing} (ok : left.Ok state)
    (grows : state.nextMessage ≤ state'.nextMessage)
    (later : ∀ message < state.nextMessage, state'.Pending message → state.Pending message) :
    left.Ok state' := by
  obtain ⟨born, ok⟩ := ok
  refine ⟨Nat.lt_of_lt_of_le born grows, ?_⟩
  cases left with
  | setStatus => exact ok
  | findSender message => exact fun pending => ok (later message born pending)
  | pushBack message => exact fun pending => ok (later message born pending)

theorem clear_later (state : State Uid Thread) (queue : QueueId) :
    Later state.headers (state.clear queue).headers := by
  have released : ∀ entries : List (Entry Uid), ∀ start : State Uid Thread, Later start.headers
      (entries.foldl (fun state entry => state.releaseRef entry.message) start).headers := by
    intro entries
    induction entries with
    | nil => exact fun start => .refl _
    | cons entry entries ih =>
      intro start
      exact (Later.release start entry.message).trans (ih _)
  exact released (state.queues queue) state

theorem setStatus_later (state : State Uid Thread) (message : Message) {status : RequestStatus}
    (settles : status ≠ .pending) :
    Later state.headers (state.modifyHeader message fun header =>
      { header with
        status := fetchOr header.status status
        isCompletionMessage := header.needsCompletionMessage }).headers := by
  refine Later.modify state message (fun _ => rfl) (fun _ => ?_) fun _ _ => ?_
  · exact fun settled => fetchOr_settled (Or.inl settled)
  · exact Or.inr (fetchOr_settled (Or.inr settles))

theorem completeStep_later {left : Completing} (ok : left.Ok state) :
    Later state.headers (state.completeStep left).1.headers := by
  cases left with
  | setStatus message status =>
    unfold State.completeStep
    dsimp only
    split
    · exact .refl _
    · split
      · exact setStatus_later state message ok.2
      · exact (setStatus_later state message ok.2).trans (Later.release _ message)
  | findSender message =>
    unfold State.completeStep
    dsimp only
    split
    · exact .refl _
    · split
      · exact .refl _
      · exact Later.release _ _
  | pushBack message queue =>
    unfold State.completeStep
    dsimp only
    split <;> exact .refl _

theorem completeStep_queues_kept (state : State Uid Thread) (left : Completing)
    {queue : QueueId} {entry : Entry Uid} (mem : entry ∈ state.queues queue) :
    entry ∈ (state.completeStep left).1.queues queue := by
  cases left with
  | setStatus message status =>
    unfold State.completeStep
    dsimp only
    split
    · exact mem
    · split <;> exact mem
  | findSender message =>
    unfold State.completeStep
    dsimp only
    split
    · exact mem
    · split <;> exact mem
  | pushBack message found =>
    unfold State.completeStep
    dsimp only
    split
    · exact mem
    · by_cases same : queue = found
      · subst same
        simp [State.push, mem]
      · simpa [State.push, same] using mem

/-- The message of a `completeRequest` is not pending after its step, and what is
left of the call is about the same message. -/
theorem completeStep_settles {left : Completing} (ok : left.Ok state) :
    ¬ (state.completeStep left).1.Pending left.message ∧
      ∀ next, (state.completeStep left).2 = some next →
        next.Ok (state.completeStep left).1 ∧ next.message = left.message := by
  have later := completeStep_later ok
  cases left with
  | setStatus message status =>
    have settled : ¬ (state.completeStep (.setStatus message status)).1.Pending message := by
      rintro ⟨header', found', -, pending⟩
      revert found'
      unfold State.completeStep
      dsimp only
      split
      · rename_i absent
        intro found'
        rw [absent] at found'
        cases found'
      · rename_i header found
        have set := modifyHeader_self found fun header =>
          { header with
            status := fetchOr header.status status
            isCompletionMessage := header.needsCompletionMessage }
        split
        · intro found'
          rw [set] at found'
          cases found'
          exact fetchOr_settled (Or.inr ok.2) pending
        · intro found'
          rw [State.releaseRef, modifyHeader_self set] at found'
          cases found'
          exact fetchOr_settled (Or.inr ok.2) pending
    refine ⟨settled, fun next left => ?_⟩
    have same : next = .findSender message ∧
        (state.completeStep (.setStatus message status)).1.nextMessage = state.nextMessage := by
      revert left
      unfold State.completeStep
      dsimp only
      split
      · exact fun left => by cases left
      · split
        · exact fun left => by cases left; exact ⟨rfl, rfl⟩
        · exact fun left => by cases left
    rw [same.1]
    exact ⟨⟨by rw [same.2]; exact ok.1, settled⟩, rfl⟩
  | findSender message =>
    have settled : ¬ (state.completeStep (.findSender message)).1.Pending message :=
      fun pending => ok.2 (later.pending pending)
    refine ⟨settled, fun next left => ?_⟩
    have same : (∃ queue, next = .pushBack message queue) ∧
        (state.completeStep (.findSender message)).1.nextMessage = state.nextMessage := by
      revert left
      unfold State.completeStep
      dsimp only
      split
      · exact fun left => by cases left
      · split
        · exact fun left => by cases left; exact ⟨⟨_, rfl⟩, rfl⟩
        · exact fun left => by cases left
    obtain ⟨⟨queue, rfl⟩, same⟩ := same
    exact ⟨⟨by rw [same]; exact ok.1, settled⟩, rfl⟩
  | pushBack message queue =>
    refine ⟨fun pending => ok.2 (later.pending pending), fun next left => ?_⟩
    revert left
    unfold State.completeStep
    dsimp only
    split <;> exact fun left => by cases left

theorem completeStep_spec {left : Completing} (ok : left.Ok state) :
    ∃ headers queues rest, state.completeStep left = ({ state with headers, queues }, rest) ∧
      Later state.headers headers ∧
      (∀ queue, ∀ entry ∈ state.queues queue, entry ∈ queues queue) ∧
      ¬ ({ state with headers, queues } : State Uid Thread).Pending left.message ∧
      ∀ next, rest = some next →
        next.Ok ({ state with headers, queues } : State Uid Thread) ∧
          next.message = left.message := by
  obtain ⟨settled, goesOn⟩ := completeStep_settles ok
  have later := completeStep_later ok
  have kept : ∀ queue, ∀ entry ∈ state.queues queue,
      entry ∈ (state.completeStep left).1.queues queue :=
    fun queue entry mem => completeStep_queues_kept state left mem
  obtain ⟨headers, queues, same⟩ := completeStep_same state left
  rw [same] at settled goesOn later kept
  exact ⟨headers, queues, _, Prod.ext same rfl, later, kept, settled, goesOn⟩

/-! ## Nobody is left waiting -/

/-- Nothing gives up a pending request: an agent is unregistered when none is in its
queue, a send pushes one only into a queue that an agent has, and an exception leaves
`pollMessages` only when none is in the rest of the batch. -/
def KeepsRequests (state : State Uid Thread) : Action Uid Thread → Prop
  | .unregisterAgent _ uid => ∀ queue, state.routes uid = some queue →
      ∀ entry ∈ state.queues queue, ¬ state.Pending entry.message
  | .advance thread =>
    match state.calls thread with
    | .pushing _ message queue =>
      state.Pending message → ∃ uid, state.routes uid = some queue
    | _ => True
  | .handlerReturns uid true =>
    match state.agents uid with
    | some ⟨_, .handling message rest⟩ =>
      (∀ header ∈ state.headers message,
        header.hasRequestBlock ∧ ¬ header.isCompletionMessage) ∨
      ∀ other ∈ rest, ¬ state.Pending other
    | _ => True
  | _ => True

/-- Every pending request is attended. -/
structure AllAttended (state : State Uid Thread) : Prop where
  owners : Owners state
  born : ∀ message header, state.headers message = some header → message < state.nextMessage
  completion : ∀ message header, state.headers message = some header →
    header.isCompletionMessage = true → header.status ≠ .pending
  calls : ∀ thread left, state.calls thread = .completing left → left.Ok state
  polls : ∀ uid agent left rest, state.agents uid = some agent →
    agent.poll = .completing left rest → left.Ok state
  attended : ∀ message, state.Pending message → state.Attended message

namespace AllAttended

theorem initial : AllAttended ({} : State Uid Thread) where
  owners := .initial
  born _ _ found := by cases found
  completion _ _ found := by cases found
  calls _ _ same := by cases same
  polls _ _ _ _ registered := by cases registered
  attended _ pending := by
    obtain ⟨_, found, _⟩ := pending
    cases found

theorem keep (inv : AllAttended state) (owners : Owners state')
    (grows : state'.nextMessage = state.nextMessage)
    (later : Later state.headers state'.headers)
    (calls : ∀ thread left, state'.calls thread = .completing left →
      state.calls thread = .completing left ∨ left.Ok state')
    (polls : ∀ uid agent left rest, state'.agents uid = some agent →
      agent.poll = .completing left rest →
      (∃ agent', state.agents uid = some agent' ∧ agent'.poll = .completing left rest) ∨
        left.Ok state')
    (attended : ∀ message, state'.Pending message → state.Attended message →
      state'.Attended message) : AllAttended state' := by
  have keepOk : ∀ left : Completing, left.Ok state → left.Ok state' :=
    fun left ok => ok.keep (Nat.le_of_eq grows.symm) fun _ _ => later.pending
  refine ⟨owners, fun message header found => ?_, fun message header found isCompletion => ?_,
    fun thread left same => ?_, fun uid agent left rest registered same => ?_,
    fun message pending => ?_⟩
  · obtain ⟨header', found', -⟩ := later message header found
    rw [grows]
    exact inv.born message header' found'
  · obtain ⟨header', found', -, settled, completion⟩ := later message header found
    rcases completion isCompletion with isCompletion | settles
    · exact settled (inv.completion message header' found' isCompletion)
    · exact settles
  · rcases calls thread left same with same | ok
    · exact keepOk left (inv.calls thread left same)
    · exact ok
  · rcases polls uid agent left rest registered same with ⟨agent', registered', same'⟩ | ok
    · exact keepOk left (inv.polls uid agent' left rest registered' same')
    · exact ok
  · exact attended message pending (inv.attended message (later.pending pending))

variable [DecidableEq Uid]

theorem registerAgent (inv : AllAttended state) (uid : Uid) :
    AllAttended (state.registerAgent uid) := by
  have owners := inv.owners.registerAgent uid
  revert owners
  unfold State.registerAgent
  rcases state.takeQueue with ⟨queue, freeQueues, queueStorage⟩
  dsimp only
  intro owners
  cases routed : state.routes uid with
  | some other =>
    rw [routed] at owners
    refine inv.keep owners rfl (.refl _) (fun _ _ same => Or.inl same)
      (fun _ agent _ _ registered same => Or.inl ⟨agent, registered, same⟩)
      fun message _ attended => ?_
    cases attended with
    | queued uid queue entry routed mem same => exact .queued uid queue entry routed mem same
    | polled uid agent registered mem => exact .polled uid agent registered mem
    | sent thread holds => exact .sent thread holds
  | none =>
    rw [routed] at owners
    have unregistered : state.agents uid = none := by
      have same := inv.owners.agents uid
      rw [routed] at same
      exact Option.map_eq_none_iff.mp same
    refine inv.keep owners rfl (.refl _) (fun _ _ same => Or.inl same)
      (fun other agent _ _ registered same => ?_) fun message _ attended => ?_
    · rcases update_some.mp registered with ⟨-, rfl⟩ | ⟨-, registered⟩
      · cases same
      · exact Or.inl ⟨agent, registered, same⟩
    · cases attended with
      | queued other found entry routed' mem same =>
        refine .queued other found entry (update_some.mpr (Or.inr ⟨?_, routed'⟩)) mem same
        rintro rfl
        rw [routed] at routed'
        cases routed'
      | polled other agent registered mem =>
        refine .polled other agent (update_some.mpr (Or.inr ⟨?_, registered⟩)) mem
        rintro rfl
        rw [unregistered] at registered
        cases registered
      | sent thread holds => exact .sent thread holds

variable [DecidableEq Thread] {uid : Uid} {thread : Thread}

theorem unregister (inv : AllAttended state) {queue agentQueue : QueueId}
    (routed : state.routes uid = some queue)
    (registered : state.agents uid = some ⟨agentQueue, .idle⟩)
    (idle : state.calls thread = .idle)
    (none_pending : ∀ entry ∈ state.queues queue, ¬ state.Pending entry.message) :
    AllAttended { state.setCall thread (.clearing uid queue) with
      routes := Function.update state.routes uid none
      agents := Function.update state.agents uid none } := by
  refine inv.keep (inv.owners.unregister routed) rfl (.refl _) (fun other left same => ?_)
    (fun other agent left rest registered' same => ?_) fun message pending attended => ?_
  · by_cases isThread : other = thread
    · subst isThread
      simp [State.setCall] at same
    · exact Or.inl (by simpa [State.setCall, isThread] using same)
  · exact Or.inl ⟨agent, (update_none.mp registered').2, same⟩
  · cases attended with
    | queued other found entry routed' mem same =>
      refine .queued other found entry (update_none.mpr ⟨?_, routed'⟩) mem same
      rintro rfl
      rw [routed] at routed'
      cases routed'
      exact none_pending entry mem (same ▸ pending)
    | polled other agent registered' mem =>
      refine .polled other agent (update_none.mpr ⟨?_, registered'⟩) mem
      rintro rfl
      rw [registered] at registered'
      cases registered'
      cases mem
    | sent other holds =>
      refine .sent other ?_
      have notThread : other ≠ thread := by
        rintro rfl
        rw [idle] at holds
        exact holds
      simpa [State.setCall, notThread] using holds

omit [DecidableEq Uid] in
theorem create (inv : AllAttended state) {header : Header Uid} {call : Call Uid}
    (owners : Owners { state.setCall thread call with
      headers := Function.update state.headers state.nextMessage (some header)
      nextMessage := state.nextMessage + 1 })
    (idle : state.calls thread = .idle) (fresh : header.isCompletionMessage = false)
    (held : header.hasRequestBlock = true → call.Holds state.nextMessage)
    (drops : ∀ left, call = .completing left →
      ∃ status, left = .setStatus state.nextMessage status ∧ status ≠ .pending) :
    AllAttended { state.setCall thread call with
      headers := Function.update state.headers state.nextMessage (some header)
      nextMessage := state.nextMessage + 1 } := by
  have older : ∀ message < state.nextMessage,
      Function.update state.headers state.nextMessage (some header) message =
        state.headers message :=
    fun message born => Function.update_of_ne (Nat.ne_of_lt born) _ _
  have keepOk : ∀ left : Completing, left.Ok state → left.Ok { state.setCall thread call with
      headers := Function.update state.headers state.nextMessage (some header)
      nextMessage := state.nextMessage + 1 } := by
    intro left ok
    refine ok.keep (Nat.le_succ _) fun message born => ?_
    rintro ⟨header', found, rest⟩
    exact ⟨header', (older message born) ▸ found, rest⟩
  refine ⟨owners, fun message header' found => ?_, fun message header' found isCompletion => ?_,
    fun other left same => ?_, fun uid agent left rest registered same => ?_,
    fun message pending => ?_⟩
  · rcases update_some.mp found with ⟨rfl, -⟩ | ⟨-, found⟩
    · exact Nat.lt_succ_self _
    · exact Nat.lt_succ_of_lt (inv.born message header' found)
  · rcases update_some.mp found with ⟨-, rfl⟩ | ⟨-, found⟩
    · rw [fresh] at isCompletion
      cases isCompletion
    · exact inv.completion message header' found isCompletion
  · by_cases isThread : other = thread
    · subst isThread
      obtain ⟨status, rfl, settles⟩ := drops left (by simpa [State.setCall] using same)
      exact ⟨Nat.lt_succ_self _, settles⟩
    · exact keepOk left (inv.calls other left (by simpa [State.setCall, isThread] using same))
  · exact keepOk left (inv.polls uid agent left rest registered same)
  · obtain ⟨header', found, request, still⟩ := pending
    rcases update_some.mp found with ⟨rfl, rfl⟩ | ⟨-, found⟩
    · exact .sent thread (by simpa [State.setCall] using held request)
    · cases inv.attended message ⟨header', found, request, still⟩ with
      | queued uid queue entry routed mem same => exact .queued uid queue entry routed mem same
      | polled uid agent registered mem => exact .polled uid agent registered mem
      | sent other holds =>
        refine .sent other ?_
        have notThread : other ≠ thread := by
          rintro rfl
          rw [idle] at holds
          exact holds
        simpa [State.setCall, notThread] using holds

omit [DecidableEq Uid] [DecidableEq Thread] in
theorem release (inv : AllAttended state) (message : Message) :
    AllAttended (state.releaseRef message) := by
  refine inv.keep (inv.owners.change _ _ _ _) rfl (Later.release state message)
    (fun _ _ same => Or.inl same)
    (fun _ agent _ _ registered same => Or.inl ⟨agent, registered, same⟩)
    fun message _ attended => ?_
  cases attended with
  | queued uid queue entry routed mem same => exact .queued uid queue entry routed mem same
  | polled uid agent registered mem => exact .polled uid agent registered mem
  | sent other holds => exact .sent other holds

omit [DecidableEq Uid] in
theorem send (inv : AllAttended state) {from_ dest msgUid : Uid} {sending : Sending}
    (idle : state.calls thread = .idle) :
    AllAttended (state.send thread from_ dest msgUid sending) := by
  have fresh : (State.newHeader from_ msgUid sending).isCompletionMessage = false := by
    cases sending <;> rfl
  have noQueue : ∀ call : Call Uid, call.queue? = none → Owners { state.setCall thread call with
      headers := Function.update state.headers state.nextMessage
        (some (State.newHeader from_ msgUid sending))
      nextMessage := state.nextMessage + 1 } := by
    intro call none_
    exact (inv.owners.setCall (by rw [idle, none_]; rfl)).change _ _ _ _
  unfold State.send
  dsimp only
  split
  · exact inv.create (noQueue _ rfl) idle fresh (fun _ => rfl) fun _ same => by cases same
  · split
    · rename_i plain
      have stays : state.setCall thread .idle = state := by
        rw [State.setCall, ← idle, Function.update_eq_self]
      have created := inv.create (noQueue .idle rfl) idle fresh
        (fun request => by subst plain; cases request) fun _ same => by cases same
      rw [stays] at created
      exact created.release _
    · exact inv.create (noQueue _ rfl) idle fresh (fun _ => rfl)
        fun _ same => by cases same; exact ⟨.dropped, rfl, by decide⟩

omit [DecidableEq Uid] in
theorem advance (inv : AllAttended state) (keeps : KeepsRequests state (.advance thread))
    (next : state.advance thread = some state') : AllAttended state' := by
  have owners := advance_owners inv.owners next
  unfold State.advance at next
  unfold KeepsRequests at keeps
  -- what other calls hold stays held
  have others : ∀ {call : Call Uid} {other message}, other ≠ thread →
      (state.calls other).Holds message →
        ((state.setCall thread call).calls other).Holds message := by
    intro call other message notThread holds
    simpa [State.setCall, notThread] using holds
  have completing : ∀ {call : Call Uid} {other left},
      (state.setCall thread call).calls other = .completing left →
      state.calls other = .completing left ∨ call = .completing left := by
    intro call other left same
    by_cases isThread : other = thread
    · subst isThread
      exact Or.inr (by simpa [State.setCall] using same)
    · exact Or.inl (by simpa [State.setCall, isThread] using same)
  cases call : state.calls thread with
  | idle =>
    rw [call] at next
    cases next
  | pushing dest message queue =>
    simp only [call] at next keeps
    cases next
    refine inv.keep owners rfl (.refl _)
      (fun other left same => (completing same).imp_right fun same => by cases same)
      (fun _ agent _ _ registered same => Or.inl ⟨agent, registered, same⟩)
      fun found pending attended => ?_
    have kept : ∀ {entry queue'}, entry ∈ state.queues queue' →
        entry ∈ (state.push queue ⟨message, dest⟩).queues queue' := by
      intro entry queue' mem
      by_cases same : queue' = queue
      · subst same
        simp [State.push, mem]
      · simpa [State.push, same] using mem
    cases attended with
    | queued uid queue' entry routed mem same => exact .queued uid queue' entry routed (kept mem) same
    | polled uid agent registered mem => exact .polled uid agent registered mem
    | sent other holds =>
      by_cases isThread : other = thread
      · subst isThread
        rw [call] at holds
        cases holds
        obtain ⟨uid, routed⟩ := keeps pending
        refine .queued uid queue ⟨message, dest⟩ routed ?_ rfl
        simp [State.setCall, State.push]
      · exact .sent other (others isThread holds)
  | completing left =>
    obtain ⟨headers, queues, rest, stepped, later, kept, settled, goesOn⟩ :=
      completeStep_spec (inv.calls thread left call)
    simp only [call, stepped] at next
    cases next
    refine inv.keep owners rfl later (fun other left' same => ?_)
      (fun _ agent _ _ registered same => Or.inl ⟨agent, registered, same⟩)
      fun found pending attended => ?_
    · by_cases isThread : other = thread
      · subst isThread
        cases rest with
        | none => simp [State.setCall] at same
        | some next =>
          have isNext : next = left' := by simpa [State.setCall] using same
          exact Or.inr (isNext ▸ (goesOn next rfl).1)
      · exact Or.inl (by simpa [State.setCall, isThread] using same)
    · cases attended with
      | queued uid queue entry routed mem same =>
        exact .queued uid queue entry routed (kept queue entry mem) same
      | polled uid agent registered mem => exact .polled uid agent registered mem
      | sent other holds =>
        refine .sent other ?_
        by_cases isThread : other = thread
        · subst isThread
          rw [call] at holds
          cases holds
          cases rest with
          | none => exact absurd pending settled
          | some next => simpa [State.setCall, Call.Holds] using (goesOn next rfl).2
        · simpa [State.setCall, isThread] using holds
  | clearing uid queue =>
    simp only [call] at next
    cases next
    have later := clear_later state queue
    obtain ⟨headers, same⟩ := clear_same state queue
    rw [same] at owners later ⊢
    have held : (state.calls thread).queue? = some queue := by
      rw [call]
      rfl
    refine inv.keep owners rfl later
      (fun other left same => (completing same).imp_right fun same => by cases same)
      (fun _ agent _ _ registered same => Or.inl ⟨agent, registered, same⟩)
      fun found pending attended => ?_
    cases attended with
    | queued other queue' entry routed mem same =>
      refine .queued other queue' entry routed ?_ same
      have notQueue : queue' ≠ queue := by
        rintro rfl
        exact inv.owners.held_not_routed thread queue' held other routed
      simpa [State.setCall, notQueue] using mem
    | polled uid agent registered mem => exact .polled uid agent registered mem
    | sent other holds =>
      refine .sent other (others ?_ holds)
      rintro rfl
      rw [call] at holds
      exact holds
  | recycling queue =>
    simp only [call] at next
    cases next
    refine inv.keep owners rfl (.refl _)
      (fun other left same => (completing same).imp_right fun same => by cases same)
      (fun _ agent _ _ registered same => Or.inl ⟨agent, registered, same⟩)
      fun found pending attended => ?_
    cases attended with
    | queued other queue' entry routed mem same => exact .queued other queue' entry routed mem same
    | polled uid agent registered mem => exact .polled uid agent registered mem
    | sent other holds =>
      refine .sent other (others ?_ holds)
      rintro rfl
      rw [call] at holds
      exact holds

omit [DecidableEq Thread] in
/-- A poll goes on: what is in it stays in it, or in the queue, or is settled. -/
theorem setPoll (inv : AllAttended state) {agent : Agent} {poll : Poll}
    (registered : state.agents uid = some agent)
    (ok : ∀ left rest, poll = .completing left rest → left.Ok state)
    (still : ∀ message ∈ agent.poll.messages, state.Pending message → message ∈ poll.messages) :
    AllAttended (state.setPoll uid agent poll) := by
  refine inv.keep (inv.owners.setPoll registered) rfl (.refl _) (fun _ _ same => Or.inl same)
    (fun other agent' left rest registered' same => ?_) fun message pending attended => ?_
  · rcases update_some.mp registered' with ⟨rfl, rfl⟩ | ⟨-, registered'⟩
    · exact Or.inr (ok left rest same)
    · exact Or.inl ⟨agent', registered', same⟩
  · cases attended with
    | queued other queue entry routed mem same => exact .queued other queue entry routed mem same
    | polled other agent' registered' mem =>
      by_cases isUid : other = uid
      · subst isUid
        rw [registered] at registered'
        cases registered'
        exact .polled other { agent with poll } (by simp [State.setPoll])
          (still message mem pending)
      · exact .polled other agent' (by simpa [State.setPoll, isUid] using registered') mem
    | sent thread holds => exact .sent thread holds

omit [DecidableEq Thread] in
theorem pollStep (inv : AllAttended state) {agent : Agent} {throws : Bool}
    (registered : state.agents uid = some agent)
    (keeps : throws = true → ∀ message rest, agent.poll = .handling message rest →
      (∀ header, state.headers message = some header →
        header.hasRequestBlock ∧ ¬ header.isCompletionMessage) ∨
      ∀ other ∈ rest, ¬ state.Pending other)
    (next : PollStep state uid agent throws state') : AllAttended state' := by
  have owners := pollStep_owners inv.owners registered next
  have routed : state.routes uid = some agent.inboundQueue := by
    rw [← inv.owners.agents, registered]
    rfl
  -- a plain message or a completion message is not a pending request
  have plain_settled : ∀ message header, state.headers message = some header →
      ¬ (header.hasRequestBlock ∧ ¬ header.isCompletionMessage) → ¬ state.Pending message := by
    rintro message header found plain ⟨header', found', request, pending⟩
    rw [found] at found'
    cases found'
    refine plain ⟨request, fun isCompletion => ?_⟩
    exact inv.completion message header found isCompletion pending
  cases next with
  | finish at_next =>
    refine inv.setPoll registered (fun _ _ same => by cases same) fun message mem => ?_
    rw [at_next] at mem
    cases mem
  | pop at_next =>
    refine inv.keep owners rfl (.refl _) (fun _ _ same => Or.inl same)
      (fun other agent' left rest registered' same => ?_) fun message pending attended => ?_
    · rcases update_some.mp registered' with ⟨rfl, rfl⟩ | ⟨-, registered'⟩
      · cases same
      · exact Or.inl ⟨agent', registered', same⟩
    · cases attended with
      | queued other queue entry routed' mem same =>
        by_cases isQueue : queue = agent.inboundQueue
        · subst isQueue
          -- the message is in the popped batch or still in the queue
          rw [← List.take_append_drop MessageQueue.popBatch
            (state.queues agent.inboundQueue)] at mem
          rcases List.mem_append.mp mem with mem | mem
          · exact .polled uid _ (update_some.mpr (Or.inl ⟨rfl, rfl⟩))
              (List.mem_map.mpr ⟨entry, mem, same⟩)
          · exact .queued other _ entry routed' (by simpa using mem) same
        · exact .queued other queue entry routed' (by simpa [isQueue] using mem) same
      | polled other agent' registered' mem =>
        refine .polled other agent' (update_some.mpr (Or.inr ⟨?_, registered'⟩)) mem
        rintro rfl
        rw [registered] at registered'
        cases registered'
        rw [at_next] at mem
        cases mem
      | sent thread holds => exact .sent thread holds
  | handle message rest at_next =>
    refine inv.setPoll registered (fun _ _ same => by cases same) fun other mem _ => ?_
    rw [at_next] at mem
    exact mem
  | answer message rest header status at_message found settles =>
    refine inv.setPoll registered (fun left rest same => ?_) fun other mem _ => ?_
    · cases same
      exact ⟨inv.born message header found, settles⟩
    · rcases at_message with same | same <;> (rw [same] at mem; exact mem)
  | release message rest header at_message found plain =>
    refine (inv.setPoll registered (fun _ _ same => by cases same)
      fun other mem pending => ?_).release message
    have mem' : other = message ∨ other ∈ rest := by
      rcases at_message with same | same <;> (rw [same] at mem; exact List.mem_cons.mp mem)
    rcases mem' with rfl | mem'
    · exact absurd pending (plain_settled other header found plain)
    · exact mem'
  | leave message rest header thrown at_message found plain =>
    refine (inv.setPoll registered (fun _ _ same => by cases same)
      fun other mem pending => ?_).release message
    rw [at_message] at mem
    rcases List.mem_cons.mp mem with rfl | mem'
    · exact absurd pending (plain_settled other header found plain)
    · rcases keeps thrown message rest at_message with request | none_pending
      · exact absurd (request header found) plain
      · exact absurd pending (none_pending other mem')
  | complete left rest at_left =>
    obtain ⟨headers, queues, goingOn, stepped, later, kept, settled, goesOn⟩ :=
      completeStep_spec (inv.polls uid agent left rest registered at_left)
    rw [stepped] at owners ⊢
    refine inv.keep owners rfl later (fun _ _ same => Or.inl same)
      (fun other agent' left' rest' registered' same => ?_) fun message pending attended => ?_
    · rcases update_some.mp registered' with ⟨rfl, rfl⟩ | ⟨-, registered'⟩
      · cases goingOn with
        | none => cases same
        | some next =>
          cases same
          exact Or.inr (goesOn left' rfl).1
      · exact Or.inl ⟨agent', registered', same⟩
    · cases attended with
      | queued other queue entry routed' mem same =>
        exact .queued other queue entry routed' (kept queue entry mem) same
      | polled other agent' registered' mem =>
        by_cases isUid : other = uid
        · subst isUid
          rw [registered] at registered'
          cases registered'
          refine .polled other _ (update_some.mpr (Or.inl ⟨rfl, rfl⟩)) ?_
          rw [at_left] at mem
          rcases List.mem_cons.mp mem with rfl | mem
          · cases goingOn with
            | none => exact absurd pending settled
            | some next => exact List.mem_cons.mpr (Or.inl (goesOn next rfl).2.symm)
          · cases goingOn with
            | none => exact mem
            | some next => exact List.mem_cons_of_mem _ mem
        · exact .polled other agent' (update_some.mpr (Or.inr ⟨isUid, registered'⟩)) mem
      | sent thread holds => exact .sent thread holds

omit [DecidableEq Uid] [DecidableEq Thread] in
/-- What a handle does to its message settles nothing and gives up nothing. -/
theorem handle (inv : AllAttended state) {message : Message} {change : Header Uid → Header Uid}
    (same : ∀ header, (change header).toMessageHeader = header.toMessageHeader ∧
      (change header).status = header.status) :
    AllAttended (state.modifyHeader message change) := by
  have later : Later state.headers (state.modifyHeader message change).headers := by
    refine Later.modify state message (fun header => ?_) (fun header settled => ?_)
      fun header isCompletion => Or.inl ?_
    · rw [(same header).1]
    · rw [(same header).2]
      exact settled
    · rw [← (same header).1]
      exact isCompletion
  refine inv.keep (inv.owners.change _ _ _ _) rfl later (fun _ _ same => Or.inl same)
    (fun _ agent _ _ registered same => Or.inl ⟨agent, registered, same⟩)
    fun message _ attended => ?_
  cases attended with
  | queued uid queue entry routed mem same => exact .queued uid queue entry routed mem same
  | polled uid agent registered mem => exact .polled uid agent registered mem
  | sent other holds => exact .sent other holds

theorem step_attended {action : Action Uid Thread} (inv : AllAttended state)
    (keeps : KeepsRequests state action) (next : step state action = some state') :
    AllAttended state' := by
  cases action with
  | registerAgent uid =>
    cases next
    exact inv.registerAgent uid
  | unregisterAgent thread uid =>
    obtain ⟨queue, agentQueue, routed, registered, idle, rfl⟩ := unregisterAgent_cases next
    exact inv.unregister routed registered idle (keeps queue routed)
  | send thread from_ dest msgUid sending =>
    obtain ⟨idle, rfl⟩ := send_cases next
    exact inv.send idle
  | advance thread => exact inv.advance keeps next
  | pollMessages uid =>
    obtain ⟨queue, registered, rfl⟩ := pollMessages_cases next
    exact inv.setPoll registered (fun _ _ same => by cases same) fun _ mem _ => mem
  | advancePoll uid handlerValid =>
    obtain ⟨agent, registered, polled⟩ := advancePoll_cases next
    exact inv.pollStep registered (fun thrown => by cases thrown) polled
  | handlerReturns uid throws =>
    obtain ⟨agent, registered, polled⟩ := handlerReturns_cases next
    refine inv.pollStep registered (fun thrown message rest at_message => ?_) polled
    obtain ⟨inbound, poll⟩ := agent
    subst thrown
    cases at_message
    simp only [KeepsRequests, registered] at keeps
    exact keeps
  | wait message =>
    obtain ⟨change, rfl, same⟩ := handle_cases (Or.inl rfl) next
    exact inv.handle same
  | resetHandle message =>
    obtain ⟨change, rfl, same⟩ := handle_cases (Or.inr rfl) next
    exact inv.handle same

end AllAttended

section Runs

variable [DecidableEq Uid] [DecidableEq Thread]

/-- A pending request is in the queue of a registered agent, in a poll in progress or
in the hands of a send that has not returned, if nothing gives up a pending request. -/
theorem run_requests_attended {actions : List (Action Uid Thread)}
    (keeps : Runs.StepsMeet step KeepsRequests {} actions) (reached : run actions = some state) :
    ∀ message, state.Pending message → state.Attended message :=
  (Runs.run_invariant (fun _ _ _ => AllAttended.step_attended) AllAttended.initial keeps
    reached).attended

end Runs

instance (state : State (Fin 2) (Fin 2)) (action : Action (Fin 2) (Fin 2)) :
    Decidable (KeepsRequests state action) :=
  match action with
  | .unregisterAgent _ uid =>
    match routed : state.routes uid with
    | none => isTrue fun _ same => by rw [routed] at same; cases same
    | some queue =>
      decidable_of_iff (∀ entry ∈ state.queues queue, ¬ state.Pending entry.message)
        ⟨fun none_pending _ same => by rw [routed] at same; cases same; exact none_pending,
          fun none_pending => none_pending queue routed⟩
  | .advance thread => by
      unfold KeepsRequests
      dsimp only
      split <;> infer_instance
  | .handlerReturns uid true => by
      unfold KeepsRequests
      dsimp only
      split <;> infer_instance
  | .handlerReturns _ false => isTrue trivial
  | .registerAgent _ => isTrue trivial
  | .send _ _ _ _ _ => isTrue trivial
  | .pollMessages _ => isTrue trivial
  | .advancePoll _ _ => isTrue trivial
  | .wait _ => isTrue trivial
  | .resetHandle _ => isTrue trivial

/-- One request is handled; another one is sent. -/
def handledActions : List (Action (Fin 2) (Fin 2)) :=
  [.registerAgent first, .send first second first 5 .withHandle, .advance first,
    .pollMessages first, .advancePoll first true, .advancePoll first true,
    .handlerReturns first false, .advancePoll first true, .advancePoll first true,
    .send first second first 5 .withHandle, .advance first]

theorem handledActions_attended :
    ∃ state, run handledActions = some state ∧ state.Pending 1 ∧
      ∀ message, state.Pending message → state.Attended message := by
  have headers : (run handledActions).map (fun state => state.headers 1) =
      some (some (State.newHeader second 5 .withHandle)) := by decide
  obtain ⟨state, reached, header⟩ := Option.map_eq_some_iff.mp headers
  exact ⟨state, reached, ⟨_, header, rfl, rfl⟩, run_requests_attended (by decide) reached⟩

/-- A request is queued; then its recipient is unregistered. -/
def abandonedActions : List (Action (Fin 2) (Fin 2)) :=
  [.registerAgent first, .send first second first 5 .withHandle, .advance first,
    .unregisterAgent first first, .advance first, .advance first]

/-- The queue was cleared, and the request stays pending. -/
theorem abandonedActions_pending :
    ∃ state, run abandonedActions = some state ∧
      ¬ ∀ message, state.Pending message → state.Attended message := by
  have header : (run abandonedActions).map (fun state => state.headers 0) =
      some (some { State.newHeader second 5 .withHandle with refs := 1 }) := by decide
  have routes : (run abandonedActions).map State.routes = some fun _ => none := by decide
  have agents : (run abandonedActions).map State.agents = some fun _ => none := by decide
  have calls : (run abandonedActions).map State.calls = some fun _ => .idle := by decide
  obtain ⟨state, reached, header⟩ := Option.map_eq_some_iff.mp header
  rw [reached] at routes agents calls
  replace routes : state.routes = fun _ => none := Option.some.inj routes
  replace agents : state.agents = fun _ => none := Option.some.inj agents
  replace calls : state.calls = fun _ => .idle := Option.some.inj calls
  refine ⟨state, reached, fun attended => ?_⟩
  cases attended 0 ⟨_, header, rfl, rfl⟩ with
  | queued uid queue entry routed => rw [routes] at routed; cases routed
  | polled uid agent registered => rw [agents] at registered; cases registered
  | sent thread holds => rw [calls] at holds; exact holds

end Voxen.Svc.MessageRouter
