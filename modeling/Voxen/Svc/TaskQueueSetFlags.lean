import Voxen.Svc.TaskQueueSet
import Voxen.Lib.FinSizes

/-!
# The flags of a task queue

A stop request is meant to change the two flags only, and nobody is meant to sleep
on a queue with a task in it or after a stop request.
-/

namespace Voxen.Svc.TaskQueueSet

variable {Thread : Type} [DecidableEq Thread]

/-! ## Stop requests -/

/-- The indices count these reservations, as far as 31 bits can. -/
def ProduceConsumeIndex.Counts (index : ProduceConsumeIndex) (pushes pops : Nat) : Prop :=
  index.produce = BitVec.ofNat 31 pushes ∧ index.consume = BitVec.ofNat 31 pops

/-- The indices count the reservations made so far, and every stop request wrote
such indices with the wait flag clear and the stop flag set. -/
def StopsKeepIndices (state : State Thread) : Prop :=
  state.currentIndex.Counts state.pushes.length state.pops ∧
  ∀ stop ∈ state.stops, stop.written.Counts stop.pushes stop.pops ∧
    stop.written.waitFlag = false ∧ stop.written.stopFlag = true

/-- The exchange of a stop request does not succeed with indices of an earlier
load: there was no reservation since the request loaded the index first. -/
def StopFresh (state : State Thread) : Action Thread → Prop
  | .advance thread _ =>
    match state.calls thread with
    | .stopExchange index newIndex => state.currentIndex = index →
        newIndex.produce = index.produce ∧ newIndex.consume = index.consume
    | _ => True
  | _ => True

variable {state state' : State Thread} {thread : Thread}

theorem advance_stops (keeps : StopsKeepIndices state) {spurious : Bool}
    (fresh : StopFresh state (.advance thread spurious))
    (stepped : state.advance thread spurious = some state') : StopsKeepIndices state' := by
  obtain ⟨⟨produce, consume⟩, stops⟩ := keeps
  unfold StopFresh at fresh
  unfold State.advance at stepped
  cases call : state.calls thread with
  | idle =>
    simp only [call] at stepped
    cases stepped
  | pushLoad | popLoad | stopLoad | wake | pushStore | popTake =>
    simp only [call] at stepped
    cases stepped
    exact ⟨⟨produce, consume⟩, stops⟩
  | pushItem | popItem | futexWait | asleep =>
    simp only [call] at stepped
    split at stepped <;> cases stepped <;> exact ⟨⟨produce, consume⟩, stops⟩
  | pushExchange task index =>
    simp only [call] at stepped
    split at stepped
    next reserved =>
      cases stepped
      refine ⟨⟨?_, ?_⟩, stops⟩
      · change index.produce + 1#31 = _
        rw [← reserved.1, produce, List.length_append, List.length_singleton, BitVec.ofNat_add]
      · change index.consume = _
        rw [← reserved.1]
        exact consume
    next =>
      cases stepped
      exact ⟨⟨produce, consume⟩, stops⟩
  | popExchange waits index =>
    simp only [call] at stepped
    split at stepped
    next reserved =>
      cases stepped
      refine ⟨⟨?_, ?_⟩, stops⟩
      · change index.produce = _
        rw [← reserved.1]
        exact produce
      · change index.consume + 1#31 = _
        rw [← reserved.1, consume, BitVec.ofNat_add]
    next =>
      cases stepped
      exact ⟨⟨produce, consume⟩, stops⟩
  | waitExchange index =>
    simp only [call] at stepped
    split at stepped
    next set =>
      cases stepped
      refine ⟨⟨?_, ?_⟩, stops⟩
      · change index.produce = _
        rw [← set.1]
        exact produce
      · change index.consume = _
        rw [← set.1]
        exact consume
    next =>
      cases stepped
      exact ⟨⟨produce, consume⟩, stops⟩
  | stopExchange index newIndex =>
    simp only [call] at stepped fresh
    split at stepped
    next exchanged =>
      cases stepped
      obtain ⟨sameProduce, sameConsume⟩ := fresh exchanged.1
      have written : newIndex.Counts state.pushes.length state.pops := by
        refine ⟨?_, ?_⟩
        · rw [sameProduce, ← exchanged.1]
          exact produce
        · rw [sameConsume, ← exchanged.1]
          exact consume
      refine ⟨written, fun stop mem => ?_⟩
      rcases List.mem_cons.mp mem with rfl | old
      · exact ⟨written, rfl, rfl⟩
      · exact stops stop old
    next =>
      cases stepped
      exact ⟨⟨produce, consume⟩, stops⟩

theorem step_stops (state : State Thread) (action : Action Thread) (state' : State Thread)
    (keeps : StopsKeepIndices state) (fresh : StopFresh state action)
    (stepped : step state action = some state') : StopsKeepIndices state' := by
  cases action with
  | pushTask | tryPopTask | popTaskOrWait | requestStop =>
    simp only [step] at stepped
    split at stepped
    · cases stepped
      exact keeps
    · cases stepped
  | advance thread spurious => exact advance_stops keeps fresh stepped

instance (state : State Thread) (action : Action Thread) : Decidable (StopFresh state action) :=
  match action with
  | .advance thread _ => by
      unfold StopFresh
      dsimp only
      split <;> infer_instance
  | .pushTask _ _ | .tryPopTask _ | .popTaskOrWait _ | .requestStop _ => isTrue trivial

/-- A push, and a stop request after it. -/
def stopAfterPush : List (Action (Fin 2)) :=
  [.pushTask 0 7, .advance 0 false, .advance 0 false, .advance 0 false,
    .requestStop 1, .advance 1 false, .advance 1 false]

/-- The push is reserved between the load and the exchange of the stop request,
whose first exchange fails. -/
def stopAroundPush : List (Action (Fin 2)) :=
  [.pushTask 0 7, .advance 0 false, .advance 0 false, .requestStop 1, .advance 1 false,
    .advance 0 false, .advance 1 false, .advance 1 false]

/-- The call has replaced the word and will wake the sleeping threads. -/
def Call.aboutToWake : Call → Bool
  | .wake => true
  | .pushStore _ _ _ needWake => needWake
  | _ => false

/-- A thread that sleeps does so on the word as it is now, with the wait flag set,
an empty queue and no stop request; or somebody is about to wake it. -/
def NoLostWake (state : State Thread) : Prop :=
  ∀ thread word, state.calls thread = .asleep word →
    (state.currentIndex.word = word ∧ state.currentIndex.waitFlag = true ∧
      state.currentIndex.empty = true ∧ state.currentIndex.stopFlag = false) ∨
    ∃ waker, (state.calls waker).aboutToWake = true

/-- A futex wait does not find the word it loaded before it set the wait flag. -/
def WaitFlagged (state : State Thread) : Action Thread → Prop
  | .advance thread _ =>
    match state.calls thread with
    | .futexWait word => state.currentIndex.word = word → word.2 = true
    | _ => True
  | _ => True

/-- What a call has checked of the index it goes on with. -/
def Call.Checked : Call → Prop
  | .popItem _ index => index.empty = false
  | .popExchange _ index => index.empty = false
  | .waitExchange index => index.stopFlag = false ∧ index.empty = true
  | _ => True

structure FlagInv (state : State Thread) : Prop where
  noLostWake : NoLostWake state
  flagged : state.currentIndex.waitFlag = true →
    state.currentIndex.empty = true ∧ state.currentIndex.stopFlag = false
  checked : ∀ thread, (state.calls thread).Checked

omit [DecidableEq Thread] in
theorem popHead_checked (waits : Bool) (index : ProduceConsumeIndex) :
    (popHead waits index).Checked := by
  unfold popHead
  cases stop : index.stopFlag with
  | true => trivial
  | false =>
    cases empty : index.empty with
    | true =>
      cases waits with
      | true => exact ⟨stop, empty⟩
      | false => trivial
    | false => exact empty

/-- A call moves on; the index stays, or the sleeping threads are about to be woken. -/
theorem FlagInv.move (inv : FlagInv state) {call : Call}
    (calls : state'.calls = Function.update state.calls thread call)
    (quiet : (state.calls thread).aboutToWake = false)
    (sleeps : ∀ word, call = .asleep word → state'.currentIndex = state.currentIndex ∧
      state.currentIndex.word = word ∧ word.2 = true) (wakes : state.currentIndex.waitFlag = true →
      call.aboutToWake = true ∨ state'.currentIndex = state.currentIndex)
    (flagged : state'.currentIndex.waitFlag = true →
      state'.currentIndex.empty = true ∧ state'.currentIndex.stopFlag = false)
    (checked : call.Checked) : FlagInv state' := by
  refine ⟨fun other word asleep => ?_, flagged, fun other => ?_⟩
  · rw [calls] at asleep ⊢
    by_cases same : other = thread
    · rw [same, Function.update_self] at asleep
      obtain ⟨kept, onWord, set⟩ := sleeps word asleep
      have flag : state.currentIndex.waitFlag = true := by
        rw [← onWord] at set
        exact set
      rw [kept]
      exact Or.inl ⟨onWord, flag, inv.flagged flag⟩
    · rw [Function.update_of_ne same] at asleep
      rcases inv.noLostWake other word asleep with ⟨onWord, flag, rest⟩ | ⟨waker, waking⟩
      · rcases wakes flag with waking | kept
        · exact Or.inr ⟨thread, by rw [Function.update_self]; exact waking⟩
        · rw [kept]
          exact Or.inl ⟨onWord, flag, rest⟩
      · right
        refine ⟨waker, ?_⟩
        rw [Function.update_of_ne]
        · exact waking
        · rintro rfl
          rw [quiet] at waking
          cases waking
  · rw [calls]
    by_cases same : other = thread
    · rw [same, Function.update_self]
      exact checked
    · rw [Function.update_of_ne same]
      exact inv.checked other

theorem FlagInv.stay (inv : FlagInv state) {call : Call}
    (calls : state'.calls = Function.update state.calls thread call)
    (quiet : (state.calls thread).aboutToWake = false ∨ call.aboutToWake = true)
    (index : state'.currentIndex = state.currentIndex)
    (sleeps : ∀ word, call = .asleep word → state.currentIndex.word = word ∧ word.2 = true)
    (checked : call.Checked) : FlagInv state' := by
  rcases quiet with quiet | waking
  · exact inv.move calls quiet (fun word asleep => ⟨index, sleeps word asleep⟩)
      (fun _ => Or.inr index) (by rw [index]; exact inv.flagged) checked
  · refine ⟨fun other word asleep => Or.inr ⟨thread, ?_⟩, by rw [index]; exact inv.flagged,
      fun other => ?_⟩
    · rw [calls, Function.update_self]
      exact waking
    · rw [calls]
      by_cases same : other = thread
      · rw [same, Function.update_self]
        exact checked
      · rw [Function.update_of_ne same]
        exact inv.checked other

theorem FlagInv.wake (inv : FlagInv state) (thread : Thread) :
    FlagInv (state.wakeAll.setCall thread .idle) := by
  have calls : ∀ other, (state.wakeAll.setCall thread .idle).calls other =
      if other = thread then .idle else (state.calls other).woken :=
    fun other => Function.update_apply ..
  refine ⟨fun other word asleep => ?_, inv.flagged, fun other => ?_⟩
  · exfalso
    rw [calls] at asleep
    split at asleep
    · cases asleep
    · cases call : state.calls other with
      | asleep => rw [call] at asleep; cases asleep
      | _ => rw [call] at asleep; cases asleep
  · rw [calls]
    split
    · trivial
    · have checked := inv.checked other
      cases call : state.calls other <;> rw [call] at checked <;> exact checked

omit [DecidableEq Thread] in
theorem pushHead_ne_asleep (task : Task) (index : ProduceConsumeIndex)
    (word : BitVec 31 × Bool) : pushHead task index ≠ .asleep word := by
  unfold pushHead
  split <;> exact nofun

omit [DecidableEq Thread] in
theorem pushHead_checked (task : Task) (index : ProduceConsumeIndex) :
    (pushHead task index).Checked := by
  unfold pushHead
  split <;> trivial

omit [DecidableEq Thread] in
theorem popHead_ne_asleep (waits : Bool) (index : ProduceConsumeIndex)
    (word : BitVec 31 × Bool) : popHead waits index ≠ .asleep word := by
  unfold popHead
  split
  · exact nofun
  · split
    · split <;> exact nofun
    · exact nofun

theorem advance_flags (inv : FlagInv state) {spurious : Bool}
    (waits : WaitFlagged state (.advance thread spurious))
    (stepped : state.advance thread spurious = some state') : FlagInv state' := by
  have checked := inv.checked thread
  unfold WaitFlagged at waits
  unfold State.advance at stepped
  cases call : state.calls thread with
  | idle =>
    simp only [call] at stepped
    cases stepped
  | pushLoad task =>
    simp only [call] at stepped
    cases stepped
    exact inv.stay rfl (Or.inl (by rw [call]; rfl)) rfl
      (fun word asleep => (pushHead_ne_asleep _ _ word asleep).elim) (pushHead_checked ..)
  | popLoad waits =>
    simp only [call] at stepped
    cases stepped
    exact inv.stay rfl (Or.inl (by rw [call]; rfl)) rfl
      (fun word asleep => (popHead_ne_asleep _ _ word asleep).elim) (popHead_checked ..)
  | pushItem task index =>
    simp only [call] at stepped
    split at stepped <;> cases stepped <;>
      exact inv.stay rfl (Or.inl (by rw [call]; rfl)) rfl nofun trivial
  | pushExchange task index =>
    simp only [call] at stepped
    split at stepped
    next reserved =>
      cases stepped
      -- the wait flag that is reset is the one the wake-up is decided by
      refine inv.move rfl (by rw [call]; rfl) nofun (fun flag => Or.inl ?_) nofun trivial
      rw [reserved.1] at flag
      exact flag
    next =>
      cases stepped
      exact inv.stay rfl (Or.inl (by rw [call]; rfl)) rfl
        (fun word asleep => (pushHead_ne_asleep _ _ word asleep).elim) (pushHead_checked ..)
  | pushStore task slot number needWake =>
    simp only [call] at stepped
    cases stepped
    cases needWake with
    | true => exact inv.stay rfl (Or.inr rfl) rfl nofun trivial
    | false => exact inv.stay rfl (Or.inl (by rw [call]; rfl)) rfl nofun trivial
  | popItem waits index =>
    rw [call] at checked
    simp only [call] at stepped
    split at stepped <;> cases stepped
    · exact inv.stay rfl (Or.inl (by rw [call]; rfl)) rfl nofun trivial
    · exact inv.stay rfl (Or.inl (by rw [call]; rfl)) rfl nofun checked
  | popExchange waits index =>
    rw [call] at checked
    simp only [call] at stepped
    split at stepped
    next reserved =>
      cases stepped
      -- a queue with a task in it has a clear wait flag
      have clear : state.currentIndex.waitFlag ≠ true := by
        intro flag
        have empty := (inv.flagged flag).1
        rw [reserved.1] at empty
        exact Bool.false_ne_true (checked.symm.trans empty)
      refine inv.move rfl (by rw [call]; rfl) nofun (fun flag => absurd flag clear) ?_ trivial
      intro flag
      rw [reserved.1] at clear
      exact absurd flag clear
    next =>
      cases stepped
      exact inv.stay rfl (Or.inl (by rw [call]; rfl)) rfl
        (fun word asleep => (popHead_ne_asleep _ _ word asleep).elim) (popHead_checked ..)
  | popTake slot number =>
    simp only [call] at stepped
    cases stepped
    exact inv.stay rfl (Or.inl (by rw [call]; rfl)) rfl nofun trivial
  | waitExchange index =>
    rw [call] at checked
    obtain ⟨running, empty⟩ := checked
    simp only [call] at stepped
    split at stepped
    next set =>
      cases stepped
      refine inv.move rfl (by rw [call]; rfl) nofun (fun flag => Or.inr ?_)
        (fun _ => ⟨empty, rfl⟩) trivial
      rw [set.1] at flag ⊢
      cases index
      cases flag
      cases running
      rfl
    next =>
      cases stepped
      exact inv.stay rfl (Or.inl (by rw [call]; rfl)) rfl
        (fun word asleep => (popHead_ne_asleep _ _ word asleep).elim) (popHead_checked ..)
  | futexWait word =>
    simp only [call] at stepped waits
    split at stepped
    next unchanged =>
      cases stepped
      refine inv.stay rfl (Or.inl (by rw [call]; rfl)) rfl ?_ trivial
      rintro _ ⟨⟩
      exact ⟨unchanged, waits unchanged⟩
    next =>
      cases stepped
      exact inv.stay rfl (Or.inl (by rw [call]; rfl)) rfl nofun trivial
  | asleep word =>
    simp only [call] at stepped
    split at stepped
    · cases stepped
      exact inv.stay rfl (Or.inl (by rw [call]; rfl)) rfl nofun trivial
    · cases stepped
  | stopLoad =>
    simp only [call] at stepped
    cases stepped
    exact inv.stay rfl (Or.inl (by rw [call]; rfl)) rfl nofun trivial
  | stopExchange index newIndex =>
    simp only [call] at stepped
    split at stepped
    next exchanged =>
      cases stepped
      refine inv.move rfl (by rw [call]; rfl) ?_ (fun flag => Or.inl ?_) nofun ?_
      · split <;> exact nofun
      · rw [exchanged.1] at flag
        rw [if_pos flag]
        rfl
      · split <;> trivial
    next =>
      cases stepped
      exact inv.stay rfl (Or.inl (by rw [call]; rfl)) rfl nofun trivial
  | wake =>
    simp only [call] at stepped
    cases stepped
    exact inv.wake thread

theorem step_flags (state : State Thread) (action : Action Thread) (state' : State Thread)
    (inv : FlagInv state) (waits : WaitFlagged state action)
    (stepped : step state action = some state') : FlagInv state' := by
  cases action with
  | pushTask thread | tryPopTask thread | popTaskOrWait thread | requestStop thread =>
    simp only [step] at stepped
    split at stepped
    next idle =>
      cases stepped
      exact inv.stay rfl (Or.inl (by rw [idle]; rfl)) rfl nofun trivial
    next => cases stepped
  | advance thread spurious => exact advance_flags inv waits stepped

/-- If no thread enters the futex wait on a word with a clear wait flag, no wake-up
is lost. -/
theorem run_no_lost_wake {actions : List (Action Thread)} {state : State Thread}
    (waits : Runs.StepsMeet step WaitFlagged {} actions) (reached : run actions = some state) :
    NoLostWake state := by
  have initial : FlagInv ({} : State Thread) := ⟨nofun, nofun, fun _ => trivial⟩
  exact (Runs.run_invariant step_flags initial waits reached).noLostWake

instance (state : State Thread) (action : Action Thread) : Decidable (WaitFlagged state action) :=
  match action with
  | .advance thread _ => by
      unfold WaitFlagged
      dsimp only
      split <;> infer_instance
  | .pushTask _ _ | .tryPopTask _ | .popTaskOrWait _ | .requestStop _ => isTrue trivial

/-- A thread sets the flag, finds the word changed, and goes to sleep the second
time. -/
def sleepTwice : List (Action (Fin 2)) :=
  [.popTaskOrWait 0, .advance 0 false, .advance 0 false, .advance 0 false, .advance 0 false,
    .advance 0 false, .advance 0 false]

theorem sleepTwice_not_lost :
    ∃ state, run sleepTwice = some state ∧ NoLostWake state := by
  have runs : (run sleepTwice).isSome = true := by decide +kernel
  obtain ⟨state, reached⟩ := Option.isSome_iff_exists.mp runs
  exact ⟨state, reached, run_no_lost_wake (by decide +kernel) reached⟩

example : (run sleepTwice).map (fun state => state.calls 0) = some (.asleep (0#31, true)) := by
  decide +kernel

/-- The stop request comes between the exchange that sets the flag and the futex
wait: it clears the flag, wakes nobody, and the word is what the thread had loaded. -/
def stopBeforeSleep : List (Action (Fin 2)) :=
  [.popTaskOrWait 0, .advance 0 false, .advance 0 false, .requestStop 1, .advance 1 false,
    .advance 1 false, .advance 1 false, .advance 0 false]

/-- The thread sleeps, a stop was requested, and nobody is going to wake it. -/
theorem stopBeforeSleep_lost :
    ∃ state, run stopBeforeSleep = some state ∧ ¬ NoLostWake state := by
  have sleeps : (run stopBeforeSleep).map (fun state =>
      (state.calls 0, state.calls 1, state.currentIndex.stopFlag)) =
      some (.asleep (0#31, false), .idle, true) := by decide +kernel
  obtain ⟨state, reached, values⟩ := Option.map_eq_some_iff.mp sleeps
  refine ⟨state, reached, fun noLostWake => ?_⟩
  obtain ⟨asleep, rest⟩ := Prod.mk.inj values
  obtain ⟨idle, stopped⟩ := Prod.mk.inj rest
  rcases noLostWake 0 _ asleep with ⟨-, -, -, running⟩ | ⟨waker, waking⟩
  · rw [stopped] at running
    cases running
  · rcases (by omega : waker = 0 ∨ waker = 1) with rfl | rfl
    · rw [asleep] at waking
      cases waking
    · rw [idle] at waking
      cases waking

end Voxen.Svc.TaskQueueSet
