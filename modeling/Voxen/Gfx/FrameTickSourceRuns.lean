import Voxen.Gfx.FrameTickSource

/-!
# Runs of the frame tick source

The pending packs are ordered by tick and by timelines, every tick between the completed
and the current one has a pack, and a pack bounds all the submissions up to its tick.
-/

namespace Voxen.Gfx.FrameTicks

variable {state state' : State}

theorem allComplete_iff (pack : TimelinePack) (completed : Queue → Nat) :
    pack.allComplete completed = true ↔ ∀ queue, pack.timelines queue ≤ completed queue := by
  unfold TimelinePack.allComplete
  rw [List.all_eq_true]
  constructor
  · intro every queue
    simpa using every queue queue.mem_all
  · intro every queue _
    simpa using every queue

/-- The first pack is older than the second one. -/
def Older (first second : TimelinePack) : Prop :=
  first.tickId < second.tickId ∧ ∀ queue, first.timelines queue ≤ second.timelines queue

/-- All the submissions up to a tick are within the timelines. -/
def Covers (submissions : List Submission) (tickId : FrameTickId) (timelines : Queue → Nat) :
    Prop :=
  ∀ submission ∈ submissions, submission.tickId ≤ tickId →
    submission.timeline ≤ timelines submission.queue

/-- What holds of a tick source, its packs listed from old to new. -/
structure SourceInv (submissions : List Submission) (submitted counters : Queue → Nat)
    (current completed : FrameTickId) (packs : List TimelinePack) : Prop where
  past : completed < current
  order : packs.Pairwise Older
  bounds : ∀ pack ∈ packs, completed ≤ pack.tickId ∧ pack.tickId < current ∧
    (∀ queue, pack.timelines queue ≤ submitted queue) ∧
    Covers submissions pack.tickId pack.timelines
  pending : ∀ tickId, completed < tickId → tickId < current →
    ∃ pack ∈ packs, pack.tickId = tickId
  safe : Covers submissions completed counters

section Source

variable {submissions : List Submission} {submitted counters : Queue → Nat}
  {current completed : FrameTickId} {packs : List TimelinePack}

/-- Completed packs may be dropped from the old end, and the last one gives the completed tick. -/
theorem SourceInv.drop {pack : TimelinePack} {newer : List TimelinePack}
    (inv : SourceInv submissions submitted counters current completed (pack :: newer))
    (reached : ∀ queue, pack.timelines queue ≤ counters queue) :
    SourceInv submissions submitted counters current pack.tickId newer := by
  obtain ⟨older, order⟩ := List.pairwise_cons.mp inv.order
  obtain ⟨above, below, _, covers⟩ := inv.bounds pack List.mem_cons_self
  exact
    { past := below
      order := order
      bounds := fun other mem => ⟨Int.le_of_lt (older other mem).1,
        (inv.bounds other (List.mem_cons_of_mem _ mem)).2⟩
      pending := by
        intro tickId after before
        obtain ⟨other, mem, same⟩ := inv.pending tickId (Int.lt_of_le_of_lt above after) before
        rcases List.mem_cons.mp mem with rfl | mem
        · exact absurd after (same ▸ Int.lt_irrefl _)
        · exact ⟨other, mem, same⟩
      safe := fun submission mem early =>
        Nat.le_trans (covers submission mem early) (reached submission.queue) }

theorem SourceInv.popCompleted {observed : Queue → Nat}
    (inv : SourceInv submissions submitted counters current completed packs)
    (behind : ∀ queue, observed queue ≤ counters queue) :
    SourceInv submissions submitted counters current
        (FrameTickSource.popCompleted observed completed packs).1
        (FrameTickSource.popCompleted observed completed packs).2 ∧
      completed ≤ (FrameTickSource.popCompleted observed completed packs).1 ∧
      ∀ pack newer, (FrameTickSource.popCompleted observed completed packs).2 = pack :: newer →
        pack.allComplete observed = false := by
  induction packs generalizing completed with
  | nil => exact ⟨inv, Int.le_refl _, fun _ _ absurd => by cases absurd⟩
  | cons pack newer ih =>
    unfold FrameTickSource.popCompleted
    by_cases complete : pack.allComplete observed = true
    · rw [if_pos complete]
      have reached : ∀ queue, pack.timelines queue ≤ counters queue := fun queue =>
        Nat.le_trans ((allComplete_iff pack observed).mp complete queue) (behind queue)
      obtain ⟨kept, later, stopped⟩ := ih (inv.drop reached)
      exact ⟨kept, Int.le_trans (inv.bounds pack List.mem_cons_self).1 later, stopped⟩
    · rw [if_neg complete]
      refine ⟨inv, Int.le_refl _, fun first rest same => ?_⟩
      cases same
      exact Bool.eq_false_iff.mpr complete

theorem SourceInv.push (inv : SourceInv submissions submitted counters current completed packs)
    (covers : Covers submissions current submitted) :
    SourceInv submissions submitted counters (current + 1) completed
      (packs ++ [{ tickId := current, timelines := submitted }]) where
  past := Int.lt_trans inv.past (Int.lt_succ current)
  order := by
    refine List.pairwise_append.mpr ⟨inv.order, List.pairwise_singleton _ _, ?_⟩
    intro pack mem last new
    rw [List.mem_singleton.mp new]
    obtain ⟨_, before, within, _⟩ := inv.bounds pack mem
    exact ⟨before, within⟩
  bounds := by
    refine List.forall_mem_append.mpr ⟨fun pack mem => ?_, List.forall_mem_singleton.mpr ?_⟩
    · obtain ⟨above, before, rest⟩ := inv.bounds pack mem
      exact ⟨above, Int.lt_trans before (Int.lt_succ current), rest⟩
    · exact ⟨Int.le_of_lt inv.past, Int.lt_succ current, fun _ => Nat.le_refl _, covers⟩
  pending := by
    intro tickId after before
    rcases Int.lt_or_eq_of_le (Int.le_of_lt_add_one before) with before | rfl
    · obtain ⟨pack, mem, same⟩ := inv.pending tickId after before
      exact ⟨pack, List.mem_append_left _ mem, same⟩
    · exact ⟨_, List.mem_append_right _ (List.mem_singleton.mpr rfl), rfl⟩
  safe := inv.safe

theorem SourceInv.finish (covers : Covers submissions current submitted)
    (reached : ∀ queue, submitted queue ≤ counters queue) :
    SourceInv submissions submitted counters (current + 1) current [] where
  past := Int.lt_succ current
  order := List.Pairwise.nil
  bounds := fun _ absurd => (List.not_mem_nil absurd).elim
  pending := by
    intro tickId after before
    exact absurd after (Int.not_lt.mpr (Int.le_of_lt_add_one before))
  safe := fun submission mem early =>
    Nat.le_trans (covers submission mem early) (reached submission.queue)

theorem SourceInv.searchTick
    (inv : SourceInv submissions submitted counters current completed packs)
    {tickId : FrameTickId} (after : completed < tickId) (before : tickId < current) :
    ∃ older pack newer, packs = older ++ pack :: newer ∧ pack.tickId = tickId ∧
      FrameTickSource.searchTick tickId packs = pack :: newer := by
  obtain ⟨found, mem, same⟩ := inv.pending tickId after before
  clear inv
  induction packs with
  | nil => exact (List.not_mem_nil mem).elim
  | cons first packs ih =>
    unfold FrameTickSource.searchTick
    by_cases here : first.tickId = tickId
    · exact ⟨[], first, packs, rfl, here, if_pos here⟩
    · rcases List.mem_cons.mp mem with rfl | mem
      · exact absurd same here
      · obtain ⟨older, pack, newer, split, tick, search⟩ := ih mem
        exact ⟨first :: older, pack, newer, by rw [split]; rfl, tick,
          (if_neg here).trans search⟩

/-- A wait has come to its end: the pack waited for stays, and its tick is completed. -/
theorem SourceInv.wait {older newer : List TimelinePack} {pack : TimelinePack}
    (inv : SourceInv submissions submitted counters current completed (older ++ pack :: newer))
    (reached : ∀ queue, pack.timelines queue ≤ counters queue) :
    SourceInv submissions submitted counters current pack.tickId (pack :: newer) := by
  obtain ⟨_, order, _⟩ := List.pairwise_append.mp inv.order
  have sub : ∀ other ∈ pack :: newer, other ∈ older ++ pack :: newer := fun other mem =>
    List.mem_append_right _ mem
  obtain ⟨above, below, _, covers⟩ := inv.bounds pack (sub pack List.mem_cons_self)
  have later : ∀ other ∈ newer, pack.tickId < other.tickId := fun other mem =>
    ((List.pairwise_cons.mp order).1 other mem).1
  exact
    { past := below
      order := order
      bounds := by
        intro other mem
        refine ⟨?_, (inv.bounds other (sub other mem)).2⟩
        rcases List.mem_cons.mp mem with rfl | mem
        · exact Int.le_refl _
        · exact Int.le_of_lt (later other mem)
      pending := by
        intro tickId after before
        obtain ⟨other, mem, same⟩ := inv.pending tickId (Int.lt_of_le_of_lt above after) before
        rcases List.mem_append.mp mem with old | mem
        · have earlier := (List.pairwise_append.mp inv.order).2.2 other old pack
            List.mem_cons_self
          exact absurd (Int.lt_trans after (same ▸ earlier.1)) (Int.lt_irrefl _)
        · exact ⟨other, mem, same⟩
      safe := fun submission mem early =>
        Nat.le_trans (covers submission mem early) (reached submission.queue) }

end Source

/-! ## Steps -/

/-- What holds in every state a run reaches. -/
structure Inv (state : State) : Prop where
  counters : ∀ queue, state.counters queue ≤ state.device.lastSubmittedTimelines queue
  current : Covers state.submissions state.source.currentTickId
    state.device.lastSubmittedTimelines
  ticks : ∀ submission ∈ state.submissions, submission.tickId ≤ state.source.currentTickId
  source : SourceInv state.submissions state.device.lastSubmittedTimelines state.counters
    state.source.currentTickId state.source.completedTickId
    state.source.pendingTimelinePacks.reverse

theorem Inv.init : Inv {} where
  counters := fun _ => Nat.le_refl _
  current := fun _ absurd => (List.not_mem_nil absurd).elim
  ticks := fun _ absurd => (List.not_mem_nil absurd).elim
  source :=
    { past := by decide
      order := List.Pairwise.nil
      bounds := fun _ absurd => (List.not_mem_nil absurd).elim
      pending := by
        intro tickId after before
        exact absurd after (Int.not_lt.mpr (Int.le_of_lt_add_one before))
      safe := fun _ absurd => (List.not_mem_nil absurd).elim }

@[simp]
theorem readTimelines_submitted (device : Device) (observed : Queue → Nat) :
    (readTimelines device observed).lastSubmittedTimelines = device.lastSubmittedTimelines := rfl

theorem mayObserve_le {observed : Queue → Nat} (may : state.mayObserve observed = true)
    (queue : Queue) : observed queue ≤ state.counters queue := by
  have here := List.all_eq_true.mp may queue queue.mem_all
  simp only [Bool.and_eq_true, decide_eq_true_eq] at here
  exact here.2

theorem Inv.submitCommands (inv : Inv state) (queue : Queue) :
    Inv { state with
      device := (state.device.submitCommands queue).1
      submissions := { tickId := state.source.currentTickId, queue := queue,
                       timeline := (state.device.submitCommands queue).2 } ::
        state.submissions } := by
  have grows : ∀ other, state.device.lastSubmittedTimelines other ≤
      (state.device.submitCommands queue).1.lastSubmittedTimelines other := by
    intro other
    simp only [Device.submitCommands, Function.update_apply]
    split
    · rename_i same
      rw [same]
      exact Nat.le_succ _
    · exact Nat.le_refl _
  have more : ∀ {tickId : FrameTickId} {timelines : Queue → Nat},
      Covers state.submissions tickId timelines → tickId < state.source.currentTickId →
        Covers ({ tickId := state.source.currentTickId, queue := queue,
                  timeline := (state.device.submitCommands queue).2 } :: state.submissions)
          tickId timelines := by
    intro tickId timelines covers past
    refine List.forall_mem_cons.mpr ⟨fun early => ?_, covers⟩
    exact absurd past (Int.not_lt.mpr early)
  exact
    { counters := fun other => Nat.le_trans (inv.counters other) (grows other)
      current := by
        refine List.forall_mem_cons.mpr ⟨fun _ => ?_, fun submission mem early => ?_⟩
        · simp only [Device.submitCommands, Function.update_self]
          exact Nat.le_refl _
        · exact Nat.le_trans (inv.current submission mem early) (grows submission.queue)
      ticks := List.forall_mem_cons.mpr ⟨Int.le_refl _, inv.ticks⟩
      source :=
        { inv.source with
          bounds := fun pack mem =>
            have bounds := inv.source.bounds pack mem
            ⟨bounds.1, bounds.2.1,
              fun other => Nat.le_trans (bounds.2.2.1 other) (grows other),
              more bounds.2.2.2 bounds.2.1⟩
          safe := more inv.source.safe inv.source.past } }

theorem Inv.complete (inv : Inv state) {queue : Queue}
    (pending : state.counters queue < state.device.lastSubmittedTimelines queue) :
    Inv { state with
      counters := Function.update state.counters queue (state.counters queue + 1) } where
  counters := by
    intro other
    simp only [Function.update_apply]
    split
    · rename_i same
      rw [same]
      exact pending
    · exact inv.counters other
  current := inv.current
  ticks := inv.ticks
  source :=
    { inv.source with
      safe := by
        intro submission mem early
        refine Nat.le_trans (inv.source.safe submission mem early) ?_
        simp only [Function.update_apply]
        split
        · rename_i same
          rw [same]
          exact Nat.le_succ _
        · exact Nat.le_refl _ }

theorem Inv.startNextTick (inv : Inv state) {observed : Queue → Nat}
    (may : state.mayObserve observed = true) :
    Inv { state with
        device := readTimelines state.device observed
        source := state.source.startNextTick state.device.lastSubmittedTimelines observed } ∧
      state.source.completedTickId ≤
        (state.source.startNextTick state.device.lastSubmittedTimelines observed).completedTickId ∧
      (state.source.startNextTick state.device.lastSubmittedTimelines observed).currentTickId =
        state.source.currentTickId + 1 := by
  have behind := mayObserve_le may
  obtain ⟨popped, later, stopped⟩ := inv.source.popCompleted behind
  have ticks : ∀ submission ∈ state.submissions,
      submission.tickId ≤ state.source.currentTickId + 1 := fun submission mem =>
    Int.le_trans (inv.ticks submission mem) (Int.le_of_lt (Int.lt_succ _))
  have current : Covers state.submissions (state.source.currentTickId + 1)
      state.device.lastSubmittedTimelines := fun submission mem _ =>
    inv.current submission mem (inv.ticks submission mem)
  unfold FrameTickSource.startNextTick
  dsimp only
  cases complete : TimelinePack.allComplete
      { tickId := state.source.currentTickId, timelines := state.device.lastSubmittedTimelines }
      observed with
  | false =>
    refine ⟨⟨inv.counters, current, ticks, ?_⟩, later, rfl⟩
    simpa using popped.push inv.current
  | true =>
    have reached := (allComplete_iff _ observed).mp complete
    -- an older pack would be complete as well, so all of them were popped
    cases left : (FrameTickSource.popCompleted observed state.source.completedTickId
        state.source.pendingTimelinePacks.reverse).2 with
    | cons pack newer =>
      have within := (popped.bounds pack (left ▸ List.mem_cons_self)).2.2.1
      have done := (allComplete_iff pack observed).mpr fun queue =>
        Nat.le_trans (within queue) (reached queue)
      rw [stopped pack newer left] at done
      cases done
    | nil =>
      refine ⟨⟨inv.counters, current, ticks, ?_⟩, Int.le_of_lt inv.source.past, rfl⟩
      exact .finish inv.current fun queue => Nat.le_trans (reached queue) (behind queue)

/-- How a wait for a past tick goes: it returns at once, or it finds a pack and returns once its
timelines are counted. -/
theorem Inv.waitTickCompletion_cases (inv : Inv state) {tickId : FrameTickId}
    (past : tickId < state.source.currentTickId) :
    (tickId ≤ state.source.completedTickId ∧
        state.waitTickCompletion tickId = .returns state.device state.source) ∨
      (state.source.completedTickId < tickId ∧ ∃ older pack newer,
        state.source.pendingTimelinePacks.reverse = older ++ pack :: newer ∧
        pack.tickId = tickId ∧
        state.waitTickCompletion tickId = state.waitForPack pack newer tickId) := by
  by_cases done : tickId ≤ state.source.completedTickId
  · exact Or.inl ⟨done, if_pos done⟩
  · have after := Int.not_le.mp done
    obtain ⟨older, pack, newer, split, tick, search⟩ := inv.source.searchTick after past
    refine Or.inr ⟨after, older, pack, newer, split, tick, ?_⟩
    unfold State.waitTickCompletion
    dsimp only
    rw [if_neg done, if_neg (Int.not_le.mpr past), search]

theorem waitForTimelines_some {device device' : Device} {values counters : Queue → Nat}
    (returned : device.waitForTimelines values counters = some device') :
    (∀ queue, values queue ≤ counters queue) ∧
      device'.lastSubmittedTimelines = device.lastSubmittedTimelines := by
  unfold Device.waitForTimelines at returned
  split at returned
  · rename_i reached
    cases returned
    exact ⟨fun queue => of_decide_eq_true (List.all_eq_true.mp reached queue queue.mem_all), rfl⟩
  · cases returned

theorem Inv.waitTickCompletion (inv : Inv state) {tickId : FrameTickId}
    (next : step state (.waitTickCompletion tickId) = some state') :
    Inv state' ∧ state.source.completedTickId ≤ state'.source.completedTickId ∧
      tickId ≤ state'.source.completedTickId := by
  simp only [step] at next
  by_cases past : tickId < state.source.currentTickId
  · rcases inv.waitTickCompletion_cases past with ⟨done, wait⟩ |
      ⟨after, older, pack, newer, split, rfl, wait⟩
    · rw [wait] at next
      cases next
      exact ⟨inv, Int.le_refl _, done⟩
    · rw [wait, State.waitForPack] at next
      cases returned : state.device.waitForTimelines pack.timelines state.counters with
      | none =>
        rw [returned] at next
        cases next
      | some device =>
        rw [returned] at next
        cases next
        obtain ⟨reached, submitted⟩ := waitForTimelines_some returned
        have source := inv.source
        rw [split] at source
        have waited := source.wait reached
        refine ⟨⟨?_, ?_, inv.ticks, ?_⟩, Int.le_of_lt after, Int.le_refl _⟩
        · exact fun queue => submitted ▸ inv.counters queue
        · exact submitted ▸ inv.current
        · simpa [submitted] using waited
  · -- only past ticks are waited for, unless they are completed already
    have late : state.source.completedTickId < tickId :=
      Int.lt_of_lt_of_le inv.source.past (Int.not_lt.mp past)
    unfold State.waitTickCompletion at next
    dsimp only at next
    rw [if_neg (Int.not_le.mpr late), if_pos (Int.not_lt.mp past)] at next
    cases next

theorem step_inv (inv : Inv state) {action : Action} (next : step state action = some state') :
    Inv state' ∧ state.source.completedTickId ≤ state'.source.completedTickId := by
  cases action with
  | submitCommands queue succeeds =>
    cases succeeds with
    | false =>
      cases next
      exact ⟨inv, Int.le_refl _⟩
    | true =>
      cases next
      exact ⟨inv.submitCommands queue, Int.le_refl _⟩
  | startNextTick observed =>
    simp only [step] at next
    split at next
    · rename_i may
      cases next
      obtain ⟨inv', later, _⟩ := inv.startNextTick may
      exact ⟨inv', later⟩
    · cases next
  | waitTickCompletion tickId =>
    obtain ⟨inv', later, _⟩ := inv.waitTickCompletion next
    exact ⟨inv', later⟩
  | complete queue =>
    simp only [step] at next
    split at next
    · rename_i pending
      cases next
      exact ⟨inv.complete pending, Int.le_refl _⟩
    · cases next

/-! ## Runs -/

theorem run_inv {actions : List Action} (reached : run actions = some state) : Inv state :=
  Runs.run_preserved (fun _ _ _ inv next => (step_inv inv next).1) Inv.init reached

/-- The completed tick is past, and all that was submitted up to it has completed. -/
structure State.Correct (state : State) : Prop where
  past : state.source.completedTickId < state.source.currentTickId
  safe : ∀ submission ∈ state.submissions, submission.tickId ≤ state.source.completedTickId →
    submission.timeline ≤ state.counters submission.queue

/-- In every run completion is not reported early and never taken back, a wait returns with its
tick completed, and the wait for a past tick finds it. -/
theorem run_ticks_correct {actions : List Action} (reached : run actions = some state) :
    state.Correct ∧
      (∀ action state', step state action = some state' →
        state.source.completedTickId ≤ state'.source.completedTickId) ∧
      (∀ tickId state', step state (.waitTickCompletion tickId) = some state' →
        tickId ≤ state'.source.completedTickId ∧
          ∀ submission ∈ state'.submissions, submission.tickId ≤ tickId →
            submission.timeline ≤ state'.counters submission.queue) ∧
      ∀ tickId, tickId < state.source.currentTickId →
        state.waitTickCompletion tickId ≠ .asserts ∧
          state.waitTickCompletion tickId ≠ .bugFound := by
  have inv := run_inv reached
  refine ⟨⟨inv.source.past, inv.source.safe⟩, fun _ _ next => (step_inv inv next).2, ?_, ?_⟩
  · intro tickId state' next
    obtain ⟨inv', _, done⟩ := inv.waitTickCompletion next
    exact ⟨done, fun submission mem early =>
      inv'.source.safe submission mem (Int.le_trans early done)⟩
  · intro tickId past
    rcases inv.waitTickCompletion_cases past with ⟨_, wait⟩ | ⟨_, _, pack, _, _, _, wait⟩
    · rw [wait]
      exact ⟨Wait.noConfusion, Wait.noConfusion⟩
    · rw [wait, State.waitForPack]
      cases state.device.waitForTimelines pack.timelines state.counters with
      | none => exact ⟨Wait.noConfusion, Wait.noConfusion⟩
      | some device => exact ⟨Wait.noConfusion, Wait.noConfusion⟩

/-- Two queues are submitted to, an idle tick passes, and the first tick is waited for. -/
def twoQueueActions : List Action :=
  [.submitCommands .main true, .submitCommands .dma true, .startNextTick fun _ => 0,
    .startNextTick fun _ => 0, .complete .dma, .submitCommands .compute true, .complete .main,
    .waitTickCompletion 1, .startNextTick fun queue => if queue = .compute then 0 else 1]

theorem twoQueueActions_correct :
    ∃ state, run twoQueueActions = some state ∧
      (state.source.completedTickId, state.source.currentTickId) = (2, 4) ∧ state.Correct := by
  have reached : ((run twoQueueActions).map fun state =>
      (state.source.completedTickId, state.source.currentTickId)) = some (2, 4) := by
    decide +kernel
  obtain ⟨state, run, ticks⟩ := Option.map_eq_some_iff.mp reached
  exact ⟨state, run, ticks, (run_ticks_correct run).1⟩

end Voxen.Gfx.FrameTicks
