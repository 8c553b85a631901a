import Voxen.Svc.TaskQueueSetRing

/-!
# Wrap-around of the indices of a task queue

The indices have 31 bits, and the code compares them after promotion to wider
types.  The comparisons are right while both indices are in the same lap of 2^31.
-/

namespace Voxen.Svc.TaskQueueSet

/-! ## The comparisons -/

/-- The 64 bits of the atomic word, the first field in the lowest bits. -/
def ProduceConsumeIndex.packed (index : ProduceConsumeIndex) : BitVec 64 :=
  BitVec.ofBool index.stopFlag ++ index.consume ++ BitVec.ofBool index.waitFlag ++ index.produce

/-- An index that counts these reservations. -/
def ProduceConsumeIndex.ofCounts (pushes pops : Nat) (waitFlag stopFlag : Bool) :
    ProduceConsumeIndex :=
  ⟨BitVec.ofNat 31 pushes, waitFlag, BitVec.ofNat 31 pops, stopFlag⟩

/-- What the code relies on when it looks at an index. -/
structure ProduceConsumeIndex.Correct (index : ProduceConsumeIndex) (pushes pops : Nat) :
    Prop where
  bounds : index.assertedBounds = true
  full : index.full = true ↔ pushes = pops + 1024
  empty : index.empty = true ↔ pushes = pops
  flags : ∀ bit, bit = 31 ∨ bit = 63 →
    { index with produce := index.produce + 1#31 }.packed.getLsbD bit = index.packed.getLsbD bit ∧
    { index with consume := index.consume + 1#31 }.packed.getLsbD bit = index.packed.getLsbD bit

theorem ProduceConsumeIndex.packed_waitFlag (index : ProduceConsumeIndex) :
    index.packed.getLsbD 31 = index.waitFlag := by
  unfold ProduceConsumeIndex.packed
  rw [BitVec.getLsbD_append, BitVec.getLsbD_append]
  simp

theorem ProduceConsumeIndex.packed_stopFlag (index : ProduceConsumeIndex) :
    index.packed.getLsbD 63 = index.stopFlag := by
  unfold ProduceConsumeIndex.packed
  rw [BitVec.getLsbD_append, BitVec.getLsbD_append, BitVec.getLsbD_append]
  simp

theorem ProduceConsumeIndex.flags_kept (index : ProduceConsumeIndex) (bit : Nat)
    (flag : bit = 31 ∨ bit = 63) :
    { index with produce := index.produce + 1#31 }.packed.getLsbD bit = index.packed.getLsbD bit ∧
    { index with consume := index.consume + 1#31 }.packed.getLsbD bit =
      index.packed.getLsbD bit := by
  rcases flag with rfl | rfl
  · rw [packed_waitFlag, packed_waitFlag, packed_waitFlag]
    exact ⟨rfl, rfl⟩
  · rw [packed_stopFlag, packed_stopFlag, packed_stopFlag]
    exact ⟨rfl, rfl⟩

/-- The comparisons are right exactly when the two indices are in the same lap. -/
theorem ProduceConsumeIndex.correct_iff {index : ProduceConsumeIndex} {pushes pops : Nat}
    (counts : index.Counts pushes pops) (ordered : pops ≤ pushes)
    (bounded : pushes ≤ pops + ringBufferSize) :
    index.Correct pushes pops ↔ pushes / 2 ^ 31 = pops / 2 ^ 31 := by
  have produce : index.produce.toNat = pushes % 2 ^ 31 := by rw [counts.1, BitVec.toNat_ofNat]
  have consume : index.consume.toNat = pops % 2 ^ 31 := by rw [counts.2, BitVec.toNat_ofNat]
  unfold ringBufferSize at bounded
  constructor
  · rintro ⟨bounds, -, -, -⟩
    unfold assertedBounds at bounds
    rw [decide_eq_true_eq, produce, consume] at bounds
    have inOrder := bounds.1
    omega
  · intro lap
    refine ⟨?_, ?_, ?_, index.flags_kept⟩
    · unfold assertedBounds ringBufferSize
      rw [decide_eq_true_eq, produce, consume]
      exact ⟨by omega, by omega⟩
    · unfold full ringBufferSize
      rw [decide_eq_true_eq, produce, consume]
      omega
    · unfold empty
      rw [decide_eq_true_eq, ← BitVec.toNat_inj, produce, consume]
      omega

/-! ## Runs -/

variable {Thread : Type}

/-- The loop went on with this index: there was room, or there was a task. -/
def Call.Checks : Call → Prop
  | .pushItem _ index | .pushExchange _ index => index.full = false
  | .popItem _ index | .popExchange _ index => index.empty = false
  | _ => True

/-- What holds in every state without wrap-around, also with stop requests. -/
structure LapInv (state : State Thread) : Prop where
  counts : state.currentIndex.Counts state.pushes.length state.pops
  small : state.pushes.length < 2 ^ 31
  ordered : state.pops ≤ state.pushes.length
  bounded : state.pushes.length ≤ state.pops + ringBufferSize
  checks : ∀ thread, (state.calls thread).Checks

variable {state : State Thread} {thread : Thread}

theorem LapInv.correct (inv : LapInv state) :
    state.currentIndex.Correct state.pushes.length state.pops := by
  refine (ProduceConsumeIndex.correct_iff inv.counts inv.ordered inv.bounded).mpr ?_
  rw [Nat.div_eq_of_lt inv.small,
    Nat.div_eq_of_lt (Nat.lt_of_le_of_lt inv.ordered inv.small)]

theorem pushHead_checks (task : Task) (index : ProduceConsumeIndex) :
    (pushHead task index).Checks := by
  unfold pushHead
  cases full : index.full with
  | true => trivial
  | false => exact full

theorem popHead_checks (waits : Bool) (index : ProduceConsumeIndex) :
    (popHead waits index).Checks := by
  unfold popHead
  cases index.stopFlag with
  | true => trivial
  | false =>
    cases empty : index.empty with
    | true => cases waits <;> trivial
    | false => exact empty

variable [DecidableEq Thread]

/-- A push does not wrap the produce index around, and a stop request writes back the
indices there are. -/
def WithoutWrap (state : State Thread) (action : Action Thread) : Prop :=
  ProducesBelow state action ∧ StopFresh state action

theorem update_checks {calls : Thread → Call} {call : Call}
    (checks : ∀ thread, (calls thread).Checks) (known : call.Checks) (other : Thread) :
    (Function.update calls thread call other).Checks := by
  by_cases same : other = thread
  · rw [same, Function.update_self]
    exact known
  · rw [Function.update_of_ne same]
    exact checks other

theorem LapInv.stay (inv : LapInv state) {call : Call} (known : call.Checks) :
    LapInv (state.setCall thread call) :=
  ⟨inv.counts, inv.small, inv.ordered, inv.bounded, update_checks inv.checks known⟩

omit [DecidableEq Thread] in
theorem LapInv.room (inv : LapInv state) {task : Task}
    (call : state.calls thread = .pushExchange task state.currentIndex) :
    state.pushes.length < state.pops + ringBufferSize := by
  have known := inv.checks thread
  rw [call] at known
  refine Nat.lt_of_le_of_ne inv.bounded fun filled => ?_
  exact Bool.false_ne_true (known.symm.trans (inv.correct.full.mpr filled))

theorem ProduceConsumeIndex.produced_counts {index : ProduceConsumeIndex} {pushes : List Task}
    {pops : Nat} (counts : index.Counts pushes.length pops) (task : Task) :
    index.produced.Counts (pushes ++ [task]).length pops := by
  refine ⟨?_, counts.2⟩
  change index.produce + 1#31 = _
  rw [counts.1, List.length_append, List.length_singleton, BitVec.ofNat_add]

theorem advance_lap {state' : State Thread} (inv : LapInv state) {spurious : Bool}
    (without : WithoutWrap state (.advance thread spurious))
    (stepped : state.advance thread spurious = some state') : LapInv state' := by
  have known := inv.checks thread
  obtain ⟨small, fresh⟩ := without
  unfold ProducesBelow at small
  unfold StopFresh at fresh
  unfold State.advance at stepped
  cases call : state.calls thread with
  | idle =>
    simp only [call] at stepped
    cases stepped
  | pushLoad task =>
    simp only [call] at stepped
    cases stepped
    exact inv.stay (pushHead_checks ..)
  | popLoad waits =>
    simp only [call] at stepped
    cases stepped
    exact inv.stay (popHead_checks ..)
  | pushItem task index =>
    rw [call] at known
    simp only [call] at stepped
    split at stepped <;> cases stepped
    · exact inv.stay trivial
    · exact inv.stay known
  | popItem waits index =>
    rw [call] at known
    simp only [call] at stepped
    split at stepped <;> cases stepped
    · exact inv.stay trivial
    · exact inv.stay known
  | pushExchange task index =>
    simp only [call] at stepped small
    split at stepped
    next reserved =>
      cases stepped
      obtain ⟨rfl, firm⟩ := reserved
      have length : (state.pushes ++ [task]).length = state.pushes.length + 1 := by
        rw [List.length_append, List.length_singleton]
      refine ⟨ProduceConsumeIndex.produced_counts inv.counts task, ?_, ?_, ?_,
        update_checks inv.checks trivial⟩
      · change (state.pushes ++ [task]).length < 2 ^ 31
        rw [length]
        exact small rfl firm
      · change state.pops ≤ (state.pushes ++ [task]).length
        rw [length]
        exact Nat.le_succ_of_le inv.ordered
      · change (state.pushes ++ [task]).length ≤ state.pops + ringBufferSize
        rw [length]
        exact inv.room call
    next =>
      cases stepped
      exact inv.stay (pushHead_checks ..)
  | popExchange waits index =>
    rw [call] at known
    simp only [call] at stepped
    split at stepped
    next reserved =>
      cases stepped
      have pending : state.pops < state.pushes.length := by
        refine Nat.lt_of_le_of_ne inv.ordered fun drained => ?_
        have empty := inv.correct.empty.mpr drained.symm
        rw [reserved.1] at empty
        exact Bool.false_ne_true (known.symm.trans empty)
      refine ⟨⟨?_, ?_⟩, inv.small, pending, ?_, update_checks inv.checks trivial⟩
      · change index.produce = _
        rw [← reserved.1]
        exact inv.counts.1
      · change index.consume + 1#31 = _
        rw [← reserved.1, inv.counts.2, BitVec.ofNat_add]
      · exact Nat.le_trans inv.bounded (Nat.add_le_add_right (Nat.le_succ _) _)
    next =>
      cases stepped
      exact inv.stay (popHead_checks ..)
  | pushStore task slot number needWake =>
    simp only [call] at stepped
    cases stepped
    refine
      { inv with
        checks := update_checks inv.checks ?_ }
    cases needWake <;> trivial
  | popTake slot number =>
    simp only [call] at stepped
    cases stepped
    exact ⟨inv.counts, inv.small, inv.ordered, inv.bounded, update_checks inv.checks trivial⟩
  | waitExchange index =>
    simp only [call] at stepped
    split at stepped
    next set =>
      cases stepped
      refine
        { inv with
          counts := ?_
          checks := update_checks inv.checks trivial }
      rw [← set.1]
      exact inv.counts
    next =>
      cases stepped
      exact inv.stay (popHead_checks ..)
  | futexWait word =>
    simp only [call] at stepped
    split at stepped <;> cases stepped <;> exact inv.stay trivial
  | asleep word =>
    simp only [call] at stepped
    split at stepped
    · cases stepped
      exact inv.stay trivial
    · cases stepped
  | stopLoad =>
    simp only [call] at stepped
    cases stepped
    exact inv.stay trivial
  | stopExchange index newIndex =>
    simp only [call] at stepped fresh
    split at stepped
    next exchanged =>
      cases stepped
      obtain ⟨sameProduce, sameConsume⟩ := fresh exchanged.1
      refine
        { inv with
          counts := ⟨?_, ?_⟩
          checks := update_checks inv.checks ?_ }
      · change newIndex.produce = _
        rw [sameProduce, ← exchanged.1]
        exact inv.counts.1
      · change newIndex.consume = _
        rw [sameConsume, ← exchanged.1]
        exact inv.counts.2
      · cases index.waitFlag <;> trivial
    next =>
      cases stepped
      exact inv.stay trivial
  | wake =>
    simp only [call] at stepped
    cases stepped
    refine
      { inv with
        checks := update_checks ?_ trivial }
    intro other
    have checks := inv.checks other
    change (state.calls other).woken.Checks
    cases asleep : state.calls other with
    | asleep word => trivial
    | _ =>
      rw [asleep] at checks
      exact checks

theorem step_lap (state : State Thread) (action : Action Thread) (state' : State Thread)
    (inv : LapInv state) (without : WithoutWrap state action)
    (stepped : step state action = some state') : LapInv state' := by
  cases action with
  | pushTask thread | tryPopTask thread | popTaskOrWait thread | requestStop thread =>
    simp only [step] at stepped
    split at stepped
    next idle =>
      cases stepped
      exact inv.stay trivial
    next => cases stepped
  | advance thread spurious => exact advance_lap inv without stepped

/-- The push that wraps the produce index around leaves it below the consume index. -/
theorem LapInv.wrap {state' : State Thread} (inv : LapInv state) {action : Action Thread}
    (stepped : step state action = some state') (wraps : ¬ ProducesBelow state action) :
    ¬ state'.currentIndex.Correct state'.pushes.length state'.pops := by
  cases action with
  | pushTask | tryPopTask | popTaskOrWait | requestStop => exact absurd trivial wraps
  | advance thread spurious =>
    unfold ProducesBelow at wraps
    simp only [step, State.advance] at stepped
    cases call : state.calls thread with
    | pushExchange task index =>
      simp only [call] at stepped wraps
      push Not at wraps
      obtain ⟨current, firm, last⟩ := wraps
      rw [if_pos ⟨current, firm⟩] at stepped
      cases stepped
      subst current
      have room := inv.room call
      have small := inv.small
      have ordered := inv.ordered
      change ¬ state.currentIndex.produced.Correct (state.pushes ++ [task]).length state.pops
      have counts := ProduceConsumeIndex.produced_counts inv.counts task
      rw [List.length_append, List.length_singleton] at counts ⊢
      rw [ProduceConsumeIndex.correct_iff counts (Nat.le_succ_of_le ordered) room]
      unfold ringBufferSize at room
      omega
    | _ =>
      simp only [call] at wraps
      exact absurd trivial wraps

/-- While the produce index does not wrap around, the comparisons of the code are
right, and the step that wraps it around makes them wrong. -/
theorem run_index_correct {actions : List (Action Thread)} {state : State Thread}
    (without : Runs.StepsMeet step WithoutWrap {} actions) (reached : run actions = some state) :
    state.currentIndex.Correct state.pushes.length state.pops ∧
    ∀ action state', step state action = some state' → ¬ ProducesBelow state action →
      ¬ state'.currentIndex.Correct state'.pushes.length state'.pops := by
  have initial : LapInv ({} : State Thread) :=
    ⟨⟨rfl, rfl⟩, Nat.two_pow_pos 31, Nat.le_refl _, Nat.zero_le _, fun _ => trivial⟩
  have inv := Runs.run_invariant step_lap initial without reached
  exact ⟨inv.correct, fun action state' stepped wraps => inv.wrap stepped wraps⟩

instance (state : State Thread) (action : Action Thread) : Decidable (WithoutWrap state action) :=
  inferInstanceAs (Decidable (_ ∧ _))

/-- A push, a stop request and another push. -/
def stopBetweenPushes : List (Action (Fin 2)) :=
  [.pushTask 0 7, .advance 0 false, .advance 0 false, .advance 0 false, .requestStop 1,
    .advance 1 false, .advance 1 false, .advance 0 false, .pushTask 0 8, .advance 0 false,
    .advance 0 false, .advance 0 false]

theorem stopBetweenPushes_index_correct :
    ∃ state, run stopBetweenPushes = some state ∧
      state.currentIndex.Correct state.pushes.length state.pops := by
  have runs : (run stopBetweenPushes).isSome = true := by decide +kernel
  obtain ⟨state, reached⟩ := Option.isSome_iff_exists.mp runs
  exact ⟨state, reached, (run_index_correct (by decide +kernel) reached).1⟩

/-! ## The run that wraps around -/

/-- One thread pushes a task up to the reservation. -/
def pushOnce : List (Action Unit) :=
  [.pushTask () 7, .advance () false, .advance () false, .advance () false]

/-- One thread pushes a task and pops it. -/
def pushAndPop : List (Action Unit) :=
  pushOnce ++ [.advance () false, .tryPopTask (), .advance () false, .advance () false,
    .advance () false, .advance () false]

/-- What the pops of a thread have returned that pops what it pushes. -/
def returnedTasks : Nat → List (Nat × Option Task)
  | 0 => []
  | count + 1 => (count, some 7) :: returnedTasks count

/-- So many tasks have been pushed and popped. -/
def drained (count : Nat) : State Unit where
  currentIndex := .ofCounts count count false false
  pushes := List.replicate count 7
  pops := count
  popped := returnedTasks count

/-- Another push has been reserved. -/
def reserved (count : Nat) : State Unit :=
  { drained count with
    currentIndex := .ofCounts (count + 1) count false false
    calls := fun _ => .pushStore 7 ((BitVec.ofNat 31 count).toNat % ringBufferSize) count false
    pushes := List.replicate (count + 1) 7 }

namespace ProduceConsumeIndex

variable (pushes pops : Nat) (waitFlag stopFlag : Bool)

@[simp]
theorem ofCounts_waitFlag : (ofCounts pushes pops waitFlag stopFlag).waitFlag = waitFlag := rfl

@[simp]
theorem ofCounts_stopFlag : (ofCounts pushes pops waitFlag stopFlag).stopFlag = stopFlag := rfl

@[simp]
theorem ofCounts_produce :
    (ofCounts pushes pops waitFlag stopFlag).produce = BitVec.ofNat 31 pushes := rfl

@[simp]
theorem ofCounts_consume :
    (ofCounts pushes pops waitFlag stopFlag).consume = BitVec.ofNat 31 pops := rfl

@[simp]
theorem ofCounts_produced : (ofCounts pushes pops waitFlag stopFlag).produced =
    ofCounts (pushes + 1) pops false stopFlag := by
  unfold produced ofCounts
  rw [BitVec.ofNat_add]

@[simp]
theorem ofCounts_consumed : (ofCounts pushes pops waitFlag stopFlag).consumed =
    ofCounts pushes (pops + 1) waitFlag false := by
  unfold consumed ofCounts
  rw [BitVec.ofNat_add]

end ProduceConsumeIndex

theorem update_unit (calls : Unit → Call) (call : Call) :
    Function.update calls () call = fun _ => call :=
  funext fun _ => Function.update_self ..

theorem drained_pushOnce (count : Nat) :
    Runs.run step (drained count) pushOnce = some (reserved count) := by
  have room : (ProduceConsumeIndex.ofCounts count count false false).full = false := by
    unfold ProduceConsumeIndex.full ringBufferSize
    rw [decide_eq_false_iff_not, ProduceConsumeIndex.ofCounts_produce,
      ProduceConsumeIndex.ofCounts_consume]
    omega
  simp [pushOnce, Runs.run_cons, step, State.advance, State.setCall, drained, pushHead, room,
    update_unit, reserved, List.replicate_succ']

theorem drained_pushAndPop (count : Nat) :
    Runs.run step (drained count) pushAndPop = some (drained (count + 1)) := by
  have pending : (ProduceConsumeIndex.ofCounts (count + 1) count false false).empty = false := by
    unfold ProduceConsumeIndex.empty
    rw [decide_eq_false_iff_not, ProduceConsumeIndex.ofCounts_produce,
      ProduceConsumeIndex.ofCounts_consume, ← BitVec.toNat_inj, BitVec.toNat_ofNat,
      BitVec.toNat_ofNat]
    omega
  unfold pushAndPop
  rw [Runs.run_append, drained_pushOnce, Option.bind_some]
  simp [Runs.run_cons, step, State.advance, State.setCall, reserved, popHead, pending, update_unit,
    drained, returnedTasks]

theorem run_drained (count : Nat) :
    run (List.replicate count pushAndPop).flatten = some (drained count) := by
  induction count with
  | zero => rfl
  | succ count ih =>
    unfold run at ih ⊢
    rw [List.replicate_succ', List.flatten_append, Runs.run_append, ih, Option.bind_some,
      List.flatten_singleton]
    exact drained_pushAndPop count

/-- After 2^31 pushes and one pop less the produce index is below the consume index. -/
theorem wrappingPushes_incorrect : ∃ actions : List (Action Unit), ∃ state,
    run actions = some state ∧
      ¬ state.currentIndex.Correct state.pushes.length state.pops := by
  refine ⟨(List.replicate (2 ^ 31 - 1) pushAndPop).flatten ++ pushOnce, reserved (2 ^ 31 - 1),
    ?_, ?_⟩
  · have lap := run_drained (2 ^ 31 - 1)
    unfold run at lap ⊢
    rw [Runs.run_append, lap, Option.bind_some]
    exact drained_pushOnce _
  · have length : (reserved (2 ^ 31 - 1)).pushes.length = 2 ^ 31 := List.length_replicate
    have pops : (reserved (2 ^ 31 - 1)).pops = 2 ^ 31 - 1 := rfl
    rw [length, pops, ProduceConsumeIndex.correct_iff ⟨rfl, rfl⟩ (by decide) (by decide)]
    decide

end Voxen.Svc.TaskQueueSet
