import Mathlib.Data.List.Induction
import Voxen.Gfx.FrameTickSourceRuns

/-!
# Pending packs

The pending packs list the ticks between the completed and the current one, except that a
wait leaves the pack of its tick behind until the next tick starts.
-/

namespace Voxen.Gfx.FrameTicks

variable {state state' : State}

/-- The pending packs have the ticks above the completed one and below the current one, from new
to old, each once, and with timelines that do not increase. -/
structure Listed (source : FrameTickSource) : Prop where
  order : source.pendingTimelinePacks.Pairwise fun newer older =>
    older.tickId < newer.tickId ∧ ∀ queue, older.timelines queue ≤ newer.timelines queue
  ticks : ∀ tickId, (∃ pack ∈ source.pendingTimelinePacks, pack.tickId = tickId) ↔
    source.completedTickId < tickId ∧ tickId < source.currentTickId

/-- The packs are listed as long as none of a completed tick is among them. -/
theorem Inv.listed_iff (inv : Inv state) :
    Listed state.source ↔ ∀ pack ∈ state.source.pendingTimelinePacks,
      state.source.completedTickId < pack.tickId := by
  constructor
  · exact fun listed pack mem => ((listed.ticks pack.tickId).mp ⟨pack, mem, rfl⟩).1
  · intro above
    refine ⟨List.pairwise_reverse.mp inv.source.order, fun tickId => ⟨?_, fun between => ?_⟩⟩
    · rintro ⟨pack, mem, rfl⟩
      exact ⟨above pack mem, (inv.source.bounds pack (List.mem_reverse.mpr mem)).2.1⟩
    · obtain ⟨pack, mem, same⟩ := inv.source.pending tickId between.1 between.2
      exact ⟨pack, List.mem_reverse.mp mem, same⟩

/-- The device knows that the pending packs of completed ticks are complete. -/
def Known (state : State) : Prop :=
  ∀ pack ∈ state.source.pendingTimelinePacks, pack.tickId ≤ state.source.completedTickId →
    ∀ queue, pack.timelines queue ≤ state.device.lastCompletedTimelines queue

/-- The packs left by the loop are above the completed tick, when those that are not are
complete. -/
theorem popCompleted_above {observed : Queue → Nat} {completed : FrameTickId}
    {packs : List TimelinePack} (order : packs.Pairwise Older)
    (complete : ∀ pack ∈ packs, pack.tickId ≤ completed → pack.allComplete observed = true) :
    ∀ pack ∈ (FrameTickSource.popCompleted observed completed packs).2,
      (FrameTickSource.popCompleted observed completed packs).1 < pack.tickId := by
  induction packs generalizing completed with
  | nil => exact fun _ absurd => (List.not_mem_nil absurd).elim
  | cons first newer ih =>
    obtain ⟨older, order⟩ := List.pairwise_cons.mp order
    unfold FrameTickSource.popCompleted
    split
    · refine ih order fun pack mem early => ?_
      exact absurd (older pack mem).1 (Int.not_lt.mpr early)
    · rename_i incomplete
      have above : completed < first.tickId := Int.not_le.mp fun early =>
        incomplete (complete first List.mem_cons_self early)
      exact List.forall_mem_cons.mpr
        ⟨above, fun pack mem => Int.lt_trans above (older pack mem).1⟩

theorem Inv.startNextTick_above (inv : Inv state) (known : Known state) {observed : Queue → Nat}
    (may : state.mayObserve observed = true) :
    ∀ pack ∈ (state.source.startNextTick state.device.lastSubmittedTimelines
        observed).pendingTimelinePacks,
      (state.source.startNextTick state.device.lastSubmittedTimelines
        observed).completedTickId < pack.tickId := by
  have reads : ∀ queue, state.device.lastCompletedTimelines queue ≤ observed queue := by
    intro queue
    have here := List.all_eq_true.mp may queue queue.mem_all
    simp only [Bool.and_eq_true, decide_eq_true_eq] at here
    exact here.1
  have popped := (inv.source.popCompleted (mayObserve_le may)).1
  have above := @popCompleted_above observed _ _ inv.source.order
    fun pack mem early => (allComplete_iff pack observed).mpr fun queue =>
      Nat.le_trans (known pack (List.mem_reverse.mp mem) early queue) (reads queue)
  have inv' := (inv.startNextTick may).1.source
  intro pack mem
  have least := (inv'.bounds pack (List.mem_reverse.mpr mem)).1
  revert mem least
  unfold FrameTickSource.startNextTick
  dsimp only
  split
  · intro mem _
    rcases List.mem_cons.mp mem with rfl | mem
    · exact popped.past
    · exact above pack (List.mem_reverse.mp mem)
  · -- the current tick is the completed one, and the packs are of earlier ticks
    intro mem least
    have early := (popped.bounds pack (List.mem_reverse.mp mem)).2.1
    exact absurd early (Int.not_lt.mpr least)

theorem waitForTimelines_known {device device' : Device} {values counters : Queue → Nat}
    (returned : device.waitForTimelines values counters = some device') (queue : Queue) :
    values queue ≤ device'.lastCompletedTimelines queue := by
  unfold Device.waitForTimelines at returned
  split at returned
  · cases returned
    exact Nat.le_max_right _ _
  · cases returned

/-- What a wait for a tick that is not completed leaves: its own pack and the newer ones. -/
theorem Inv.waitTickCompletion_left (inv : Inv state) {tickId : FrameTickId}
    (next : step state (.waitTickCompletion tickId) = some state')
    (late : state.source.completedTickId < tickId) :
    state'.source.completedTickId = tickId ∧
      (∃ pack ∈ state'.source.pendingTimelinePacks, pack.tickId = tickId) ∧ Known state' := by
  have past : tickId < state.source.currentTickId := by
    refine Int.not_le.mp fun future => ?_
    simp only [step, State.waitTickCompletion] at next
    rw [if_neg (Int.not_le.mpr late), if_pos future] at next
    cases next
  rcases inv.waitTickCompletion_cases past with ⟨done, _⟩ |
    ⟨_, older, pack, newer, split, rfl, wait⟩
  · exact absurd late (Int.not_lt.mpr done)
  · simp only [step] at next
    rw [wait, State.waitForPack] at next
    cases returned : state.device.waitForTimelines pack.timelines state.counters with
    | none =>
      rw [returned] at next
      cases next
    | some device =>
      rw [returned] at next
      cases next
      have order := inv.source.order
      rw [split] at order
      have later := (List.pairwise_cons.mp (List.pairwise_append.mp order).2.1).1
      refine ⟨rfl, ⟨pack, List.mem_reverse.mpr List.mem_cons_self, rfl⟩, ?_⟩
      intro other mem early queue
      rcases List.mem_cons.mp (List.mem_reverse.mp mem) with rfl | mem
      · exact waitForTimelines_known returned queue
      · exact absurd (later other mem).1 (Int.not_lt.mpr early)

/-! ## Runs -/

/-- The action waits for a tick that is not completed. -/
def State.Waits (state : State) : Action → Prop
  | .waitTickCompletion tickId => state.source.completedTickId < tickId
  | _ => False

/-- The action starts the next tick. -/
def Action.StartsTick : Action → Prop
  | .startNextTick _ => True
  | _ => False

/-- The run has waited for a tick that was not completed, and has not started a tick since. -/
def WaitedSince (actions : List Action) : Prop :=
  ∃ before action after state, actions = before ++ action :: after ∧ run before = some state ∧
    state.Waits action ∧ ∀ later ∈ after, ¬ later.StartsTick

/-- A step leaves the packs listed if it starts a tick, or if they were and it does not wait. -/
theorem Inv.step_listed (inv : Inv state) (known : Known state) {action : Action}
    (next : step state action = some state') :
    Known state' ∧
      (¬ Listed state'.source ↔ state.Waits action ∨
        ¬ Listed state.source ∧ ¬ action.StartsTick) := by
  have inv' := (step_inv inv next).1
  cases action with
  | submitCommands queue succeeds =>
    cases succeeds <;> cases next <;> exact ⟨known, by simp [State.Waits, Action.StartsTick]⟩
  | complete queue =>
    simp only [step] at next
    split at next
    · cases next
      exact ⟨known, by simp [State.Waits, Action.StartsTick]⟩
    · cases next
  | startNextTick observed =>
    simp only [step] at next
    split at next
    · rename_i may
      cases next
      have above := inv.startNextTick_above known may
      refine ⟨fun pack mem early => absurd (above pack mem) (Int.not_lt.mpr early), ?_⟩
      simpa [State.Waits, Action.StartsTick] using inv'.listed_iff.mpr above
    · cases next
  | waitTickCompletion tickId =>
    by_cases late : state.source.completedTickId < tickId
    · obtain ⟨completed, ⟨pack, mem, same⟩, known'⟩ := inv.waitTickCompletion_left next late
      refine ⟨known', iff_of_true (fun listed => ?_) (Or.inl late)⟩
      have above := inv'.listed_iff.mp listed pack mem
      exact absurd above (Int.not_lt.mpr (Int.le_of_eq (same.trans completed.symm)))
    · simp only [step, State.waitTickCompletion] at next
      rw [if_pos (Int.not_lt.mp late)] at next
      cases next
      exact ⟨known, by simp [State.Waits, Action.StartsTick, late]⟩

theorem waitedSince_snoc {actions : List Action} (reached : run actions = some state)
    (action : Action) :
    WaitedSince (actions ++ [action]) ↔
      state.Waits action ∨ WaitedSince actions ∧ ¬ action.StartsTick := by
  constructor
  · rintro ⟨before, wait, after, middle, split, ran, waits, since⟩
    cases after using List.reverseRecOn with
    | nil =>
      obtain ⟨rfl, last⟩ := List.append_inj' split rfl
      cases last
      cases reached.symm.trans ran
      exact Or.inl waits
    | append_singleton after last =>
      rw [← List.cons_append, ← List.append_assoc] at split
      obtain ⟨rfl, same⟩ := List.append_inj' split rfl
      cases same
      obtain ⟨since, other⟩ := List.forall_mem_append.mp since
      exact Or.inr ⟨⟨before, wait, after, middle, rfl, ran, waits, since⟩,
        other action (List.mem_singleton_self action)⟩
  · rintro (waits | ⟨⟨before, wait, after, middle, rfl, ran, waits, since⟩, other⟩)
    · exact ⟨actions, action, [], state, rfl, reached, waits, nofun⟩
    · exact ⟨before, wait, after ++ [action], middle, by simp, ran, waits,
        List.forall_mem_append.mpr ⟨since, List.forall_mem_singleton.mpr other⟩⟩

theorem run_known {actions : List Action} (reached : run actions = some state) :
    Known state ∧ (¬ Listed state.source ↔ WaitedSince actions) := by
  induction actions using List.reverseRecOn generalizing state with
  | nil =>
    cases reached
    refine ⟨nofun, iff_of_false (not_not_intro (Inv.init.listed_iff.mpr nofun)) ?_⟩
    rintro ⟨before, _, _, _, split, _⟩
    cases before <;> cases split
  | append_singleton actions action ih =>
    unfold run at reached
    rw [Runs.run_append] at reached
    obtain ⟨middle, ran, next⟩ := Option.bind_eq_some_iff.mp reached
    rw [Runs.run_cons, Option.bind_eq_some_iff] at next
    obtain ⟨_, next, last⟩ := next
    cases last
    obtain ⟨known, same⟩ := ih ran
    obtain ⟨known', listed⟩ := (run_inv ran).step_listed known next
    exact ⟨known', by rw [listed, same, waitedSince_snoc ran]⟩

/-- The pending packs are those of the ticks above the completed one and below the current one
exactly if no wait for a tick that was not completed has returned since the last tick started. -/
theorem run_listed_iff {actions : List Action} (reached : run actions = some state) :
    Listed state.source ↔ ¬ WaitedSince actions := by
  rw [← (run_known reached).2, not_not]

/-- The first tick is waited for. -/
def oneWaitActions : List Action :=
  [.submitCommands .main true, .startNextTick fun _ => 0, .complete .main, .waitTickCompletion 1]

theorem oneWaitActions_run :
    ∃ state, run oneWaitActions = some state ∧
      (Listed state.source ↔ ¬ WaitedSince oneWaitActions) := by
  obtain ⟨state, reached⟩ := Option.isSome_iff_exists.mp (by decide : (run oneWaitActions).isSome)
  exact ⟨state, reached, run_listed_iff reached⟩

/-- The tick that was waited for is completed, but its pack is still pending. -/
theorem oneWaitActions_left :
    ∃ state, run oneWaitActions = some state ∧ state.source.completedTickId = 1 ∧
      state.source.pendingTimelinePacks.map (·.tickId) = [1] ∧ ¬ Listed state.source := by
  have reached : ((run oneWaitActions).map fun state => (state.source.completedTickId,
      state.source.pendingTimelinePacks.map (·.tickId))) = some (1, [1]) := by
    decide +kernel
  obtain ⟨state, run, ticks⟩ := Option.map_eq_some_iff.mp reached
  obtain ⟨completed, packs⟩ := Prod.mk.inj ticks
  refine ⟨state, run, completed, packs, fun listed => ?_⟩
  have mem : (1 : FrameTickId) ∈ state.source.pendingTimelinePacks.map (·.tickId) :=
    packs ▸ List.mem_singleton_self 1
  have above := ((listed.ticks 1).mp (List.mem_map.mp mem)).1
  rw [completed] at above
  exact absurd above (Int.lt_irrefl 1)

end Voxen.Gfx.FrameTicks
