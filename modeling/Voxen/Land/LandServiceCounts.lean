import Voxen.Land.LandServiceRuns

/-!
# Pending tasks of the land service

The count of pending tasks in a record has eight bits, and goes down when the completion message of
a task is handled. `run_accounted` says when the counts are those of the tasks that have not
reported back, so that no record is erased too early and all counts get to zero.
-/

namespace Voxen.Land.LandService

/-- How many tasks enqueued for a key have a completion message that is not yet handled. -/
def Session.outstanding (session : Session) (key : ChunkKey) : Nat :=
  LandService.outstanding session.service.tasks session.reported key

/-- The counts in the records are those of the outstanding tasks. -/
structure Accounted (session : Session) : Prop where
  counts : ∀ key m, session.service.metastate key = some m →
    m.pendingTaskCount.toNat = session.outstanding key
  /-- No record is missing while a task for its key is outstanding. -/
  kept : ∀ key, 0 < session.outstanding key → (session.service.metastate key).isSome
  /-- When all tasks have run and all messages are handled, nothing keeps a record that is stale
  from being cleaned up. -/
  settled : (∀ task ∈ session.service.tasks, task.counter ∈ session.executed) →
    session.messages = [] → ∀ key m, session.service.metastate key = some m →
    m.pendingTaskCount = 0 ∧
      (m.lastReferencedTick + staleChunkAgeThreshold ≤ session.service.tickId →
        (session.service.cleanUp key).1.metastate key = none)

/-- The step executes no edit of a block that already has the new ID, and does not get the tasks
outstanding for one key to 256. -/
def Countable (environment : Environment) (session : Session) (action : Action) : Prop :=
  (∀ counter, action = .execute counter → ∀ task ∈ session.service.tasks, task.counter = counter →
    ¬ session.AlreadySet task.job) ∧
  ∀ session', step environment session action = some session' → ∀ key,
    session'.outstanding key < 256

/-- Every executed task for a key has reported back or its message is on the way. -/
def Answered (session : Session) : Prop :=
  ∀ task ∈ session.service.tasks, task.counter ∈ session.executed → task.job.key ≠ none →
    task.counter ∈ session.reported ∨
      ∃ message ∈ session.messages, message.sender = some task.counter

section Counts

variable {session session' : Session}

theorem Answered.of_tasks (answered : Answered session) (inv : SessionInv session)
    (inv' : SessionInv session') (tasks : session.service.tasks ⊆ session'.service.tasks)
    (executed : session'.executed = session.executed)
    (reported : ∀ counter ∈ session.reported, counter ∈ session'.reported)
    (messages : ∀ message ∈ session.messages, ∀ counter, message.sender = some counter →
      message ∈ session'.messages ∨ counter ∈ session'.reported) : Answered session' := by
  intro task mem was forKey
  rw [executed] at was
  -- a task that was executed is not new
  obtain ⟨other, mem', same⟩ := inv.executed task.counter was
  cases inv'.inv.eq_of_counter (tasks mem') mem same
  rcases answered task mem' was forKey with before | ⟨message, sent, sender⟩
  · exact Or.inl (reported _ before)
  · rcases messages message sent _ sender with still | now
    · exact Or.inr ⟨message, still, sender⟩
    · exact Or.inl now

theorem Answered.step {environment : Environment} {action : Action} (answered : Answered session)
    (inv : SessionInv session) (countable : Countable environment session action)
    (next : step environment session action = some session') : Answered session' := by
  have inv' := inv.step next
  have tail : ∀ {message : Message} {rest : List Message}, session.messages = message :: rest →
      ∀ other ∈ session.messages, other = message ∨ other ∈ rest := fun queue other mem =>
    List.mem_cons.mp (queue ▸ mem)
  cases inv.step_move next with
  | service kept phase =>
    exact answered.of_tasks inv inv' kept.tasks rfl (fun _ => id) fun _ mem _ _ => Or.inl mem
  | ticket queue noSender kept =>
    refine answered.of_tasks inv inv' kept.tasks rfl (fun _ => id)
      fun other mem counter sender => ?_
    rcases tail queue other mem with rfl | mem
    · rw [noSender] at sender
      cases sender
    · exact Or.inl mem
  | edit queue =>
    have edited := handleBlockEditMessage_inv inv.inv
    refine answered.of_tasks inv inv' (edited _ _).2 rfl (fun _ => id)
      fun other mem counter sender => ?_
    rcases tail queue other mem with rfl | mem
    · cases sender
    · exact Or.inl mem
  | report queue sender executed inv'' tasks =>
    refine answered.of_tasks inv inv' (tasks ▸ List.Subset.refl _) rfl
      (fun _ => List.mem_cons_of_mem _) fun other mem counter sender' => ?_
    rcases tail queue other mem with rfl | mem
    · exact Or.inr (Option.some.inj (sender.symm.trans sender') ▸ List.mem_cons_self)
    · exact Or.inl mem
  | @execute task mem fresh ready _ ran =>
    intro other mem' was forKey
    rw [ran.service] at mem'
    rw [ran.executed] at was
    have message : ∀ {other : Nat}, (∃ message ∈ session.messages, message.sender = some other) →
        ∃ message ∈ session'.messages, message.sender = some other := by
      rintro other ⟨message, sent, sender⟩
      rcases ran.sent with ⟨same, -⟩ | ⟨new, queue, -⟩
      · exact ⟨message, by rw [same]; exact sent, sender⟩
      · exact ⟨message, queue ▸ List.mem_append_left _ sent, sender⟩
    rcases List.mem_cons.mp was with same | was
    · -- the task itself sends a message
      cases inv.inv.eq_of_counter mem' mem same
      refine Or.inr ?_
      rcases ran.sent with ⟨-, none | already⟩ | ⟨new, queue, sent⟩
      · exact absurd none forKey
      · exact absurd already (countable.1 _ rfl task mem rfl)
      · exact ⟨new, queue ▸ List.mem_append_right _ (List.mem_singleton_self new), sent.1⟩
    · rw [ran.reported]
      exact (answered other mem' was forKey).imp_right message
  | complete executed =>
    exact answered.of_tasks inv inv' (List.Subset.refl _) rfl (fun _ => id)
      fun _ mem _ _ => Or.inl mem
  | send noSender =>
    exact answered.of_tasks inv inv' (List.Subset.refl _) rfl (fun _ => id)
      fun _ mem _ _ => Or.inl (List.mem_append_left _ mem)

theorem Answered.accounted (answered : Answered session) (inv : SessionInv session)
    (below : ∀ key, session.outstanding key < 256) : Accounted session := by
  have counts : ∀ key, (session.service.record key).pendingTaskCount.toNat =
      session.outstanding key := by
    intro key
    rw [inv.inv.counts key, BitVec.toNat_ofNat]
    exact Nat.mod_eq_of_lt (below key)
  have found : ∀ {key : ChunkKey} {m : ChunkMetastate}, session.service.metastate key = some m →
      session.service.record key = m := fun found => by
    rw [Service.record, found, Option.getD_some]
  refine ⟨fun key m some => found some ▸ counts key, fun key more => ?_, ?_⟩
  · by_contra missing
    have none := Option.not_isSome_iff_eq_none.mp missing
    have zero := counts key
    rw [Service.record, none, Option.getD_none] at zero
    exact Nat.ne_of_gt more zero.symm
  · intro executed empty key m some
    have idle : session.outstanding key = 0 := by
      refine List.countP_eq_zero.mpr fun task mem => ?_
      rw [decide_eq_true_eq]
      rintro ⟨forKey, unreported⟩
      rcases answered task mem (executed task mem)
        (by rw [forKey]; exact Option.some_ne_none key) with reported | ⟨_, sent, -⟩
      · exact unreported reported
      · rw [empty] at sent
        cases sent
    have zero : m.pendingTaskCount = 0 :=
      BitVec.eq_of_toNat_eq ((found some ▸ counts key).trans idle)
    refine ⟨zero, fun stale => ?_⟩
    unfold Service.cleanUp
    rw [some]
    dsimp only
    rw [if_neg (Int.not_lt.mpr stale), if_neg (by rw [zero]; decide)]
    exact Function.update_self _ _ _

/-- In every run whose steps are countable the counts are right. -/
theorem run_accounted {environment : Environment} {actions : List Action}
    (reached : run environment actions = some session)
    (countable : Runs.StepsMeet (step environment) (Countable environment) Session.new actions) :
    Accounted session := by
  have start : SessionInv Session.new ∧ Answered Session.new ∧
      ∀ key, Session.new.outstanding key < 256 :=
    ⟨SessionInv.new, nofun, fun _ => (by decide : (0 : Nat) < 256)⟩
  obtain ⟨inv, answered, below⟩ := Runs.run_invariant (fun state action state' kept meets next =>
    (⟨kept.1.step next, kept.2.1.step kept.1 meets next, meets.2 state' next⟩ :
      SessionInv state' ∧ Answered state' ∧ ∀ key, state'.outstanding key < 256))
    start countable reached
  exact answered.accounted inv below

end Counts

/-! ## An edit that changes nothing -/

/-- All tasks of the first tick run, and their messages are handled in the next one. -/
def sameBlockActions : List Action :=
  editActions 0 ++
    (List.range' 64 10).flatMap (fun counter => [.execute counter, .complete counter]) ++
    .beginTick 2 :: List.replicate 8 .handleMessage ++ [.endPoll 0, .endTick]

theorem sameBlockActions_settle : ∃ session, run emptyWorld sameBlockActions = some session ∧
    session.messages.isEmpty = true ∧
    session.service.tasks.all (fun task => task.counter ∈ session.executed) = true ∧
    (session.service.record ⟨0, 0, 0, 0⟩).pendingTaskCount = 1 := by
  have result : (run emptyWorld sameBlockActions).map (fun session =>
      (session.messages.isEmpty,
        session.service.tasks.all fun task => task.counter ∈ session.executed,
        (session.service.record ⟨0, 0, 0, 0⟩).pendingTaskCount)) = some (true, true, 1) := by
    decide +kernel
  obtain ⟨session, reached, same⟩ := Option.map_eq_some_iff.mp result
  simp only [Prod.mk.injEq] at same
  exact ⟨session, reached, same.1, same.2.1, same.2.2⟩

/-- The edit sends no message, so its task is counted for ever. -/
theorem not_accounted_of_same_block : ∃ session,
    run emptyWorld sameBlockActions = some session ∧ ¬ Accounted session := by
  obtain ⟨session, reached, empty, executed, one⟩ := sameBlockActions_settle
  refine ⟨session, reached, fun accounted => ?_⟩
  cases found : session.service.metastate ⟨0, 0, 0, 0⟩ with
  | none =>
    rw [Service.record, found, Option.getD_none] at one
    cases one
  | some m =>
    have zero := (accounted.settled
      (fun task mem => of_decide_eq_true (List.all_eq_true.mp executed task mem))
      (List.isEmpty_iff.mp empty) _ m found).1
    rw [Service.record, found, Option.getD_some, zero] at one
    cases one

/-- The edit that changes a block is executed, and its message and that of the generation are
handled in the next tick. -/
def changeActions : List Action :=
  editActions 2 ++
    [.execute 64, .complete 64, .execute 65, .complete 65, .execute 66, .complete 66,
      .beginTick 2, .handleMessage, .handleMessage, .endPoll 0]

theorem countable_of_length {environment : Environment} {session : Session} {action : Action}
    (changes : ∀ counter, action = .execute counter → ∀ task ∈ session.service.tasks,
      task.counter = counter → ¬ session.AlreadySet task.job)
    (few : ∀ session', step environment session action = some session' →
      session'.service.tasks.length < 256) : Countable environment session action :=
  ⟨changes, fun session' next _ => List.countP_le_length.trans_lt (few session' next)⟩

theorem run_accounted_of_changed_block : ∃ session,
    run emptyWorld changeActions = some session ∧ Accounted session := by
  have countable : Runs.StepsMeet (step emptyWorld) (Countable emptyWorld) Session.new
      changeActions := by
    have checked : Runs.StepsMeet (step emptyWorld) (fun session action =>
        (session.service.tasks.all fun task => match action with
          | .execute counter => decide (task.counter = counter → ¬ session.AlreadySet task.job)
          | _ => true) = true ∧
        ((step emptyWorld session action).all fun session' =>
          decide (session'.service.tasks.length < 256)) = true) Session.new changeActions := by
      decide +kernel
    refine checked.imp fun session action ⟨changes, few⟩ => countable_of_length ?_ ?_
    · rintro counter rfl task mem same
      exact of_decide_eq_true (List.all_eq_true.mp changes task mem) same
    · intro session' next
      rw [next] at few
      exact of_decide_eq_true few
  have possible : (run emptyWorld changeActions).isSome = true := by decide +kernel
  obtain ⟨session, reached⟩ := Option.isSome_iff_exists.mp possible
  exact ⟨session, reached, run_accounted reached countable⟩

end Voxen.Land.LandService
