import Voxen.Lib.Runs
import Voxen.Svc.TaskHeader

/-!
# The fields of the atomic word of a task

Threads copy and drop handles of a task, wait for it, make tasks its continuations and
complete them.  Each of these is an addition, a subtraction or an `or` on the whole word;
the fields stay apart as long as neither count outgrows its bits.
-/

namespace Voxen.Svc.TaskHeader

open TaskService

/-- The atomic word of a task, and who has a reference to the task: handles, `wait` calls
between their load and their `fetch_or`, incomplete continuations, calls of
`doCompleteAndUnref` and calls that are about to release theirs.  `waiting` and `finished`
tell whether the operation that sets the bit was made. -/
structure State where
  word : BitVec 32 := 1
  freed : Bool := false
  handles : Nat := 1
  waits : Nat := 0
  continuations : Nat := 0
  completing : Nat := 0
  releasing : Nat := 0
  waiting : Bool := false
  finished : Bool := false
  deriving DecidableEq

def State.refs (state : State) : Nat :=
  state.handles + state.waits + state.continuations + state.completing + state.releasing

/-- `hasContinuations`. -/
def hasContinuations (word : BitVec 32) : Bool :=
  word &&& continuationCountMask ≠ 0#32

/-- `doReleaseRef`. -/
def doReleaseRef (state : State) : State :=
  { state with
    word := state.word - 1#32
    freed := ¬ (state.word &&& refcountMask).toNat > 1 }

/-- One atomic operation on the word. -/
inductive Action where
  /-- A handle is copied. -/
  | addRef
  /-- A handle is reset or destroyed. -/
  | reset
  /-- `wait` loads the word. -/
  | wait
  /-- `wait` sets the waiting bit. -/
  | setWaiting
  /-- A task becomes a continuation of this one. -/
  | setParent
  /-- `onTaskComplete` of a continuation. -/
  | onTaskComplete
  /-- `completeAndReset` of a handle. -/
  | completeAndReset
  /-- `doCompleteAndUnref` sets the finished bit. -/
  | setFinished
  /-- The reference of a call is released. -/
  | releaseRef
  deriving DecidableEq

/-- An operation by someone who has a reference. -/
def operate (state : State) : Action → Option State
  | .addRef =>
    if 0 < state.handles then
      some { state with word := state.word + 1#32, handles := state.handles + 1 }
    else none
  | .reset =>
    if 0 < state.handles then some { doReleaseRef state with handles := state.handles - 1 }
    else none
  | .wait =>
    if 0 < state.handles ∧ state.word &&& finishedBit = 0#32 then
      some { state with handles := state.handles - 1, waits := state.waits + 1 }
    else none
  | .setWaiting =>
    if 0 < state.waits then
      some { state with
        word := state.word ||| futexWaitingBit
        handles := state.handles + 1
        waits := state.waits - 1
        waiting := true }
    else none
  | .setParent =>
    if 0 < state.handles then
      some { state with
        word := state.word + continuationRefAdd
        continuations := state.continuations + 1 }
    else none
  | .onTaskComplete =>
    if 0 < state.continuations then
      let state' :=
        { state with
          word := state.word - continuationAdd
          continuations := state.continuations - 1 }
      if state.word &&& continuationCountMask = continuationAdd then
        -- the last continuation completes its parent
        some { state' with completing := state.completing + 1 }
      else
        some { state' with releasing := state.releasing + 1 }
    else none
  | .completeAndReset =>
    if 0 < state.handles then
      some { state with
        handles := state.handles - 1
        completing := state.completing + 1 }
    else none
  | .setFinished =>
    if 0 < state.completing then
      some { state with
        word := state.word ||| finishedBit
        completing := state.completing - 1
        releasing := state.releasing + 1
        finished := true }
    else none
  | .releaseRef =>
    if 0 < state.releasing then
      some { doReleaseRef state with releasing := state.releasing - 1 }
    else none

/-- An operation on a task that was not freed. -/
def step (state : State) (action : Action) : Option State :=
  if state.freed then none else operate state action

/-- Every field tells what it is for. -/
structure FieldsApart (state : State) : Prop where
  refcount : (state.word &&& refcountMask).toNat = state.refs
  waiting : state.word.getLsbD 16 = state.waiting
  finished : state.word.getLsbD 17 = state.finished
  unused : state.word.getLsbD 18 = false ∧ state.word.getLsbD 19 = false
  continuations : (state.word >>> 20).toNat = state.continuations
  hasContinuations : hasContinuations state.word = true ↔ 0 < state.continuations

/-- No count outgrows its bits. -/
def StepFits (state : State) : Action → Prop
  | .addRef => state.refs + 1 < 2 ^ 16
  | .setParent => state.refs + 1 < 2 ^ 16 ∧ state.continuations + 1 < 2 ^ 12
  | _ => True

/-- The word is put together from its fields. -/
structure Inv (state : State) : Prop where
  word : state.word = wordOf state.refs state.waiting state.finished state.continuations
  refs_lt : state.refs < 2 ^ 16
  continuations_lt : state.continuations < 2 ^ 12

variable {state state' : State}

theorem initial_inv : Inv {} := ⟨by decide, by decide, by decide⟩

theorem Inv.fieldsApart (inv : Inv state) : FieldsApart state := by
  have fields (i : Nat) := @getLsbD_wordOf state.refs state.continuations state.waiting
    state.finished inv.refs_lt inv.continuations_lt i
  have refs_lt := inv.refs_lt
  have waiting := state.waiting.toNat_le
  have finished := state.finished.toNat_le
  refine ⟨?_, ?_, ?_, ⟨?_, ?_⟩, ?_, ?_⟩
  · rw [inv.word]
    exact wordOf_refcount inv.refs_lt inv.continuations_lt
  · rw [inv.word, fields]
    cases state.waiting <;> simp only [Bool.toNat_true, Bool.toNat_false, decide_eq_true_eq,
      decide_eq_false_iff_not] <;> omega
  · rw [inv.word, fields]
    cases state.finished <;> simp only [Bool.toNat_true, Bool.toNat_false, decide_eq_true_eq,
      decide_eq_false_iff_not] <;> omega
  · rw [inv.word, fields, decide_eq_false_iff_not]
    omega
  · rw [inv.word, fields, decide_eq_false_iff_not]
    omega
  · rw [inv.word, BitVec.toNat_ushiftRight, Nat.shiftRight_eq_div_pow,
      toNat_wordOf inv.refs_lt inv.continuations_lt]
    omega
  · rw [inv.word, hasContinuations, decide_eq_true_eq, Ne,
      wordOf_continuations_eq_zero inv.refs_lt inv.continuations_lt]
    omega

theorem FieldsApart.fit (apart : FieldsApart state) :
    state.refs < 2 ^ 16 ∧ state.continuations < 2 ^ 12 := by
  constructor
  · have mask : refcountMask.toNat = 2 ^ 16 - 1 := by decide
    have field := apart.refcount
    rw [BitVec.toNat_and, mask, Nat.and_two_pow_sub_one_eq_mod] at field
    rw [← field]
    exact Nat.mod_lt _ (by decide)
  · have word_lt := state.word.isLt
    have field := apart.continuations
    rw [BitVec.toNat_ushiftRight, Nat.shiftRight_eq_div_pow] at field
    omega

theorem Inv.doReleaseRef (inv : Inv state) (refs : state.refs = state'.refs + 1)
    (word : state'.word = state.word - 1#32) (waiting : state'.waiting = state.waiting)
    (finished : state'.finished = state.finished)
    (continuations : state'.continuations = state.continuations) : Inv state' where
  word := by
    rw [word, inv.word, refs, waiting, finished, continuations]
    exact wordOf_sub_ref
  refs_lt := by
    have := inv.refs_lt
    omega
  continuations_lt := by
    rw [continuations]
    exact inv.continuations_lt

theorem Inv.addRef (refs_lt : state.refs + 1 < 2 ^ 16) (refs : state'.refs = state.refs + 1)
    (word : state'.word =
      wordOf (state.refs + 1) state'.waiting state'.finished state'.continuations)
    (continuations_lt : state'.continuations < 2 ^ 12) : Inv state' where
  word := by rw [word, refs]
  refs_lt := by rwa [refs]
  continuations_lt := continuations_lt

theorem Inv.congr (inv : Inv state) (refs : state'.refs = state.refs)
    (word : state'.word = wordOf state.refs state'.waiting state'.finished state'.continuations)
    (continuations : state'.continuations ≤ state.continuations) : Inv state' where
  word := by rw [word, refs]
  refs_lt := by
    rw [refs]
    exact inv.refs_lt
  continuations_lt := Nat.lt_of_le_of_lt continuations inv.continuations_lt

theorem step_inv (state : State) (action : Action) (state' : State) (inv : Inv state)
    (fits : StepFits state action) (stepped : step state action = some state') : Inv state' := by
  unfold step at stepped
  split at stepped
  · cases stepped
  cases action with
  | addRef =>
    simp only [operate] at stepped
    split at stepped
    · cases stepped
      have word : state.word + 1#32 =
          wordOf (state.refs + 1) state.waiting state.finished state.continuations := by
        rw [inv.word]
        exact wordOf_add_ref
      refine Inv.addRef fits ?_ word inv.continuations_lt
      simp only [State.refs]
      omega
    · cases stepped
  | reset =>
    simp only [operate] at stepped
    split at stepped
    · cases stepped
      refine inv.doReleaseRef ?_ rfl rfl rfl rfl
      simp only [State.refs, doReleaseRef]
      omega
    · cases stepped
  | wait =>
    simp only [operate] at stepped
    split at stepped
    · cases stepped
      refine inv.congr ?_ inv.word (Nat.le_refl _)
      simp only [State.refs]
      omega
    · cases stepped
  | setWaiting =>
    simp only [operate] at stepped
    split at stepped
    · cases stepped
      refine inv.congr ?_ ?_ (Nat.le_refl _)
      · simp only [State.refs]
        omega
      · change state.word ||| futexWaitingBit = _
        rw [inv.word]
        exact wordOf_or_waiting inv.refs_lt inv.continuations_lt
    · cases stepped
  | setParent =>
    simp only [operate] at stepped
    split at stepped
    · have word : state.word + continuationRefAdd =
          wordOf (state.refs + 1) state.waiting state.finished (state.continuations + 1) := by
        rw [inv.word]
        exact wordOf_add_continuation
      obtain rfl := Option.some.inj stepped
      refine Inv.addRef fits.1 ?_ word fits.2
      simp only [State.refs]
      omega
    · cases stepped
  | onTaskComplete =>
    simp only [operate] at stepped
    split at stepped
    · rename_i incomplete
      obtain ⟨left, count⟩ : ∃ left, state.continuations = left + 1 :=
        ⟨state.continuations - 1, by omega⟩
      have word : state.word - continuationAdd =
          wordOf state.refs state.waiting state.finished (state.continuations - 1) := by
        rw [inv.word, count]
        exact wordOf_sub_continuation
      split at stepped
      all_goals
        cases stepped
        refine inv.congr ?_ word (Nat.sub_le _ _)
        simp only [State.refs]
        omega
    · cases stepped
  | completeAndReset =>
    simp only [operate] at stepped
    split at stepped
    · cases stepped
      refine inv.congr ?_ inv.word (Nat.le_refl _)
      simp only [State.refs]
      omega
    · cases stepped
  | setFinished =>
    simp only [operate] at stepped
    split at stepped
    · cases stepped
      refine inv.congr ?_ ?_ (Nat.le_refl _)
      · simp only [State.refs]
        omega
      · change state.word ||| finishedBit = _
        rw [inv.word]
        exact wordOf_or_finished inv.refs_lt inv.continuations_lt
    · cases stepped
  | releaseRef =>
    simp only [operate] at stepped
    split at stepped
    · cases stepped
      refine inv.doReleaseRef ?_ rfl rfl rfl rfl
      simp only [State.refs, doReleaseRef]
      omega
    · cases stepped

theorem step_broken (state : State) (action : Action) (state' : State)
    (unfit : ¬ StepFits state action) (stepped : step state action = some state') : ¬ FieldsApart state' := by
  intro apart
  obtain ⟨refs_lt, continuations_lt⟩ := apart.fit
  unfold step at stepped
  split at stepped
  · cases stepped
  cases action with
  | addRef =>
    simp only [operate] at stepped
    split at stepped
    · cases stepped
      simp only [State.refs] at refs_lt
      simp only [StepFits, State.refs] at unfit
      omega
    · cases stepped
  | setParent =>
    simp only [operate] at stepped
    split at stepped
    · obtain rfl := Option.some.inj stepped
      simp only [State.refs] at refs_lt continuations_lt
      simp only [StepFits, State.refs] at unfit
      omega
    · cases stepped
  | _ => exact unfit trivial

/-- The fields stay apart throughout a run exactly if no step makes a count outgrow its bits. -/
theorem fieldsApart_iff {actions : List Action} {state : State}
    (reached : Runs.run step {} actions = some state) :
    Runs.Throughout step FieldsApart {} actions ↔ Runs.StepsMeet step StepFits {} actions :=
  Runs.throughout_iff_stepsMeet (fun _ inv => inv.fieldsApart) step_inv
    (fun state action state' _ unfit => step_broken state action state' unfit) initial_inv reached

/-- A continuation completes after its parent has let go of its handle. -/
theorem fieldsApart_of_one_continuation :
    ∃ state, Runs.run step {} [.setParent, .reset, .onTaskComplete, .setFinished, .releaseRef] =
        some state ∧ state.freed = true ∧
      (Runs.Throughout step FieldsApart {}
        [.setParent, .reset, .onTaskComplete, .setFinished, .releaseRef] ↔
          Runs.StepsMeet step StepFits {}
            [.setParent, .reset, .onTaskComplete, .setFinished, .releaseRef]) :=
  ⟨_, rfl, by decide, fieldsApart_iff rfl⟩

theorem run_setParent (children : Nat) :
    Runs.run step {} (List.replicate children .setParent) =
      some { word := wordOf (children + 1) false false children, continuations := children } := by
  induction children with
  | zero => decide
  | succ children ih =>
    rw [List.replicate_succ', Runs.run_append, ih]
    simp only [Option.bind_some, Runs.run_cons, step, operate, Bool.false_eq_true, if_false,
      Nat.one_pos, if_true, Runs.run_nil, Option.some.injEq, State.mk.injEq, and_true]
    exact wordOf_add_continuation

/-- After 4096 continuations the word says that there are none. -/
theorem not_fieldsApart_of_4096_continuations :
    ∃ state, Runs.run step {} (List.replicate 4096 .setParent) = some state ∧
      state.continuations = 4096 ∧ hasContinuations state.word = false ∧
      ¬ FieldsApart state := by
  have none_left : hasContinuations (wordOf (4096 + 1) false false 4096) = false := by decide
  refine ⟨_, run_setParent 4096, rfl, none_left, fun apart => ?_⟩
  have some_left := apart.hasContinuations.mpr (by decide)
  rw [none_left] at some_left
  cases some_left

end Voxen.Svc.TaskHeader
