import Voxen.Svc.TaskServiceStages

/-!
# The references to a task

A header is referenced by the handles users have, by whoever takes its task further,
by the slave that is about to reset it, and by every continuation that has not
released it.  The two counts in its atomic word are these numbers.
-/

namespace Voxen.Svc.TaskService

open Function (update update_of_ne update_self)

variable {Thread : Type}

/-! ## Counting tasks -/

/-- How many of the first tasks meet a condition. -/
def countTasks (meets : Task → Bool) (count : Nat) : Nat := (List.range count).countP meets

section Count

variable {meets meets' : Task → Bool} {count : Nat} {task : Task}

theorem countTasks_succ :
    countTasks meets (count + 1) = countTasks meets count + (meets count).toNat := by
  unfold countTasks
  rw [List.range_succ, List.countP_append, List.countP_singleton]
  cases meets count <;> rfl

theorem countTasks_congr (same : ∀ task, task < count → meets' task = meets task) :
    countTasks meets' count = countTasks meets count :=
  List.countP_congr fun task mem => by rw [same task (List.mem_range.mp mem)]

theorem countTasks_pos : 0 < countTasks meets count ↔ ∃ task, task < count ∧ meets task = true := by
  simp [countTasks, List.countP_pos_iff]

theorem countTasks_eq_zero :
    countTasks meets count = 0 ↔ ∀ task, task < count → meets task = false := by
  simp [countTasks, List.countP_eq_zero]

theorem countTasks_drop (born : task < count) (others : ∀ other, other ≠ task →
    meets' other = meets other) (before : meets task = true) (after : meets' task = false) :
    countTasks meets count = countTasks meets' count + 1 := by
  induction count with
  | zero => cases born
  | succ count ih =>
    rw [countTasks_succ, countTasks_succ]
    rcases Nat.lt_succ_iff_lt_or_eq.mp born with earlier | rfl
    · rw [ih earlier, others count (Nat.ne_of_gt earlier)]
      omega
    · have same : countTasks meets' task = countTasks meets task :=
        countTasks_congr fun other less => others other (Nat.ne_of_lt less)
      rw [same, before, after]
      rfl

end Count

/-! ## Continuations and references -/

/-- The continuations of a task up to a rank. -/
def live (parentOf : Task → Option Task) (stage : Task → Stage Thread) (count rank : Nat)
    (task : Task) : Nat :=
  countTasks (fun child => decide (parentOf child = some task ∧ (stage child).rank ≤ rank)) count

/-- Whoever takes the task further has a reference to it, except while it waits for
its continuations. -/
def Stage.own (stage : Stage Thread) : Nat :=
  if stage.rank = 0 ∨ stage.rank = 6 ∨ 11 ≤ stage.rank then 0 else 1

section Live

variable {parentOf : Task → Option Task} {stage : Task → Stage Thread} {count rank : Nat}
  {task child : Task} {next : Stage Thread}

theorem live_pos : 0 < live parentOf stage count rank task ↔
    ∃ child, child < count ∧ parentOf child = some task ∧ (stage child).rank ≤ rank := by
  simp [live, countTasks_pos]

theorem live_eq_zero : live parentOf stage count rank task = 0 ↔
    ∀ child, child < count → parentOf child = some task → rank < (stage child).rank := by
  simp [live, countTasks_eq_zero]

/-- A stage change that does not pass the rank, or of a task with another parent. -/
theorem live_keep
    (same : parentOf child = some task → ((stage child).rank ≤ rank ↔ next.rank ≤ rank)) :
    live parentOf (update stage child next) count rank task =
      live parentOf stage count rank task := by
  refine countTasks_congr fun other _ => ?_
  by_cases equal : other = child
  · subst equal
    rw [update_self]
    by_cases parent : parentOf other = some task
    · simp [parent, same parent]
    · simp [parent]
  · rw [update_of_ne equal]

theorem live_drop (born : child < count) (parent : parentOf child = some task)
    (before : (stage child).rank ≤ rank) (after : rank < next.rank) :
    live parentOf stage count rank task =
      live parentOf (update stage child next) count rank task + 1 := by
  refine countTasks_drop born (fun other differs => ?_) ?_ ?_
  · rw [update_of_ne differs]
  · simp [parent, before]
  · simp [Nat.not_le.mpr after]

theorem live_create {parent : Option Task} (fits : next.rank ≤ rank) :
    live (update parentOf count parent) (update stage count next) (count + 1)
        rank task =
      live parentOf stage count rank task + (decide (parent = some task)).toNat := by
  unfold live
  rw [countTasks_succ]
  congr 1
  · refine countTasks_congr fun other less => ?_
    rw [update_of_ne (Nat.ne_of_lt less), update_of_ne (Nat.ne_of_lt less)]
  · simp [fits]

end Live

/-! ## Headers -/

/-- What the header of a task must hold: the two counts, whether the task is marked
finished, the parent that is still to be told, and the counter if it has one. -/
structure View where
  refs : Nat
  continuations : Nat
  finished : Bool
  parent : Option Task
  counter : Option Nat

def TaskHeader.Shows (header : TaskHeader) (view : View) : Prop :=
  (∃ waiting, header.atomicWord =
    wordOf view.refs waiting view.finished view.continuations) ∧
    view.refs < 2 ^ 16 ∧ view.continuations < 2 ^ 12 ∧ header.parent = view.parent ∧
    ∀ counter, view.counter = some counter → header.taskCounter = counter

/-- A header exists while there are references. -/
def Holds (header : Option TaskHeader) (view : View) : Prop :=
  match header with
  | none => view.refs = 0
  | some header => 0 < view.refs ∧ header.Shows view

/-- The headers, and what has become of the others. -/
structure Heads (state : State Thread) (view : Task → View) : Prop where
  holds : ∀ task, Holds (state.headers task) (view task)
  distinct : state.destroyed.Nodup
  destroyed : ∀ task, task ∈ state.destroyed ↔ task < state.nextTask ∧ state.headers task = none
  unfaulted : state.faulted = false

namespace Heads

variable {state : State Thread} {view view' : Task → View} {task : Task}

theorem keep {state' : State Thread} (heads : Heads state view)
    (headers : state'.headers = state.headers) (destroyed : state'.destroyed = state.destroyed)
    (nextTask : state'.nextTask = state.nextTask) (faulted : state'.faulted = state.faulted)
    (same : ∀ task, view' task = view task) : Heads state' view' := by
  refine ⟨fun task => ?_, ?_, fun task => ?_, ?_⟩
  · rw [headers, same task]
    exact heads.holds task
  · rw [destroyed]
    exact heads.distinct
  · rw [destroyed, nextTask, headers]
    exact heads.destroyed task
  · rw [faulted]
    exact heads.unfaulted

theorem header (heads : Heads state view) (referenced : 0 < (view task).refs) :
    ∃ header, state.headers task = some header ∧ header.Shows (view task) := by
  have holds := heads.holds task
  cases found : state.headers task with
  | none =>
    rw [found] at holds
    exact absurd holds (Nat.ne_of_gt referenced)
  | some header =>
    rw [found] at holds
    exact ⟨header, rfl, holds.2⟩

theorem set (heads : Heads state view) {header : TaskHeader} (shows_ : header.Shows (view' task))
    (born : state.headers task ≠ none) (referenced : 0 < (view' task).refs)
    (others : ∀ other, other ≠ task → view' other = view other) :
    Heads (state.setHeader task header) view' := by
  refine ⟨fun other => ?_, heads.distinct, fun other => ?_, heads.unfaulted⟩
  · by_cases same : other = task
    · rw [same]
      simp only [State.setHeader, update_self]
      exact ⟨referenced, shows_⟩
    · simp only [State.setHeader, update_of_ne same]
      rw [others other same]
      exact heads.holds other
  · by_cases same : other = task
    · rw [same]
      simp only [State.setHeader, update_self]
      rw [heads.destroyed]
      simp [born]
    · simp only [State.setHeader, update_of_ne same]
      exact heads.destroyed other

theorem release (heads : Heads state view) (born : task < state.nextTask)
    (refs : (view task).refs = (view' task).refs + 1)
    (rest : (view' task).continuations = (view task).continuations ∧
      (view' task).finished = (view task).finished ∧ (view' task).parent = (view task).parent ∧
      (view' task).counter = (view task).counter)
    (last : (view' task).refs = 0 → (view task).parent = none)
    (others : ∀ other, other ≠ task → view' other = view other) :
    Heads (state.releaseRef task) view' := by
  obtain ⟨header, found, ⟨waiting, word⟩, refsFit, continuationsFit, parent, counter⟩ :=
    heads.header (show 0 < (view task).refs by omega)
  have count := @wordOf_refcount (view task).refs (view task).continuations waiting
    (view task).finished refsFit continuationsFit
  unfold State.releaseRef State.withHeader
  rw [found]
  simp only
  rw [word, count]
  obtain ⟨sameContinuations, sameFinished, sameParent, sameCounter⟩ := rest
  split
  case isTrue more =>
    refine heads.set ⟨⟨waiting, ?_⟩, by omega, ?_, ?_, ?_⟩ (by simp [found]) (by omega) others
    · rw [refs, wordOf_sub_ref, sameContinuations, sameFinished]
    · rw [sameContinuations]
      exact continuationsFit
    · rw [sameParent]
      exact parent
    · rw [sameCounter]
      exact counter
  case isFalse one =>
    have none : (view' task).refs = 0 := by omega
    have fresh : task ∉ state.destroyed := by
      rw [heads.destroyed, found]
      simp
    refine ⟨fun other => ?_, List.nodup_cons.mpr ⟨fresh, heads.distinct⟩, fun other => ?_, ?_⟩
    · by_cases same : other = task
      · rw [same]
        simp only [State.destroy, update_self]
        exact none
      · simp only [State.destroy, update_of_ne same]
        rw [others other same]
        exact heads.holds other
    · by_cases same : other = task
      · rw [same]
        simp [State.destroy, born]
      · simp only [State.destroy, update_of_ne same, List.mem_cons, same, false_or]
        exact heads.destroyed other
    · simp [State.destroy, heads.unfaulted, parent, last none]

end Heads

/-! ## The tree of tasks -/

/-- What the header of a task must hold, from its stage and its continuations;
`pending` tells the slave that is about to reset it. -/
def State.view (state : State Thread) (stage : Task → Stage Thread)
    (pending : Task → Option Thread) (task : Task) : View where
  refs := state.handles task + (stage task).own + (pending task).isSome.toNat +
    live state.parentOf stage state.nextTask 8 task
  continuations := live state.parentOf stage state.nextTask 7 task
  finished := decide (10 ≤ (stage task).rank)
  parent := if (stage task).rank ≤ 9 then state.parentOf task else none
  counter := state.counterOf task

/-- Continuations are created after their parents while these run.  A task waits
only for continuations, and is over only without. -/
structure Tree (state : State Thread) (stage : Task → Stage Thread)
    (pending : Task → Option Thread) : Prop where
  born : ∀ task, (stage task).rank = 0 ↔ state.nextTask ≤ task
  parents : ∀ child parent, state.parentOf child = some parent →
    parent < child ∧ child < state.nextTask ∧ 4 ≤ (stage parent).rank
  awaits : ∀ task, stage task = .awaiting → 0 < live state.parentOf stage state.nextTask 7 task
  closed : ∀ task, 7 ≤ (stage task).rank → live state.parentOf stage state.nextTask 7 task = 0
  fresh : ∀ task, (stage task).rank ≤ 1 → state.handles task = 0
  late : ∀ task, pending task ≠ none → 6 ≤ (stage task).rank

namespace Tree

variable {state : State Thread} {stage : Task → Stage Thread} {pending : Task → Option Thread}
  {task other : Task} {next : Stage Thread}

theorem not_own_parent (tree : Tree state stage pending) : state.parentOf task ≠ some task :=
  fun own => Nat.lt_irrefl task (tree.parents task task own).1

theorem live_self (tree : Tree state stage pending) {rank : Nat} :
    live state.parentOf (update stage task next) state.nextTask rank task =
      live state.parentOf stage state.nextTask rank task :=
  live_keep fun own => absurd own tree.not_own_parent

theorem view_self (tree : Tree state stage pending) :
    state.view (update stage task next) pending task =
      { state.view stage pending task with
        refs := state.handles task + next.own + (pending task).isSome.toNat +
          live state.parentOf stage state.nextTask 8 task
        finished := decide (10 ≤ next.rank)
        parent := if next.rank ≤ 9 then state.parentOf task else none } := by
  simp only [State.view, tree.live_self, update_self]

theorem view_other (differs : other ≠ task)
    (same : state.parentOf task = some other →
      ((stage task).rank ≤ 7 ↔ next.rank ≤ 7) ∧ ((stage task).rank ≤ 8 ↔ next.rank ≤ 8)) :
    state.view (update stage task next) pending other =
      state.view stage pending other := by
  simp only [State.view, update_of_ne differs]
  rw [live_keep fun parent => (same parent).1, live_keep fun parent => (same parent).2]

theorem step (tree : Tree state stage pending) (born : (stage task).rank ≠ 0)
    (later : (stage task).rank ≤ next.rank)
    (awaits : next = .awaiting → 0 < live state.parentOf stage state.nextTask 7 task)
    (closed : 7 ≤ next.rank → live state.parentOf stage state.nextTask 7 task = 0)
    (parent : ∀ parent, state.parentOf task = some parent → stage parent = .awaiting →
      (stage task).rank ≤ 7 → 7 < next.rank →
      1 < live state.parentOf stage state.nextTask 7 parent) :
    Tree state (update stage task next) pending := by
  have less : ∀ other, live state.parentOf (update stage task next) state.nextTask 7
      other ≤ live state.parentOf stage state.nextTask 7 other := by
    intro other
    by_cases crosses : state.parentOf task = some other ∧ (stage task).rank ≤ 7 ∧ 7 < next.rank
    · obtain ⟨isParent, before, after⟩ := crosses
      have drop := live_drop (tree.parents task other isParent).2.1 isParent before after
      omega
    · refine Nat.le_of_eq (live_keep fun isParent => ?_)
      constructor
      · exact fun before => Nat.le_of_not_lt fun after => crosses ⟨isParent, before, after⟩
      · exact fun after => Nat.le_trans later after
  refine ⟨fun other => ?_, fun child parent' isParent => ?_, fun other waits => ?_,
    fun other ends => ?_, fun other early => ?_, fun other waits => ?_⟩
  · by_cases same : other = task
    · rw [same, update_self, ← tree.born]
      omega
    · rw [update_of_ne same]
      exact tree.born other
  · obtain ⟨earlier, inside, runs⟩ := tree.parents child parent' isParent
    refine ⟨earlier, inside, ?_⟩
    by_cases same : parent' = task
    · rw [same, update_self]
      rw [same] at runs
      omega
    · rwa [update_of_ne same]
  · by_cases same : other = task
    · rw [same, update_self] at waits
      rw [same, tree.live_self]
      exact awaits waits
    · rw [update_of_ne same] at waits
      by_cases crosses : state.parentOf task = some other ∧ (stage task).rank ≤ 7 ∧ 7 < next.rank
      · obtain ⟨isParent, before, after⟩ := crosses
        have drop := live_drop (tree.parents task other isParent).2.1 isParent before after
        have more := parent other isParent waits before after
        omega
      · rw [live_keep fun isParent => ?_]
        · exact tree.awaits other waits
        · constructor
          · exact fun before => Nat.le_of_not_lt fun after => crosses ⟨isParent, before, after⟩
          · exact fun after => Nat.le_trans later after
  · by_cases same : other = task
    · rw [same, update_self] at ends
      rw [same, tree.live_self]
      exact closed ends
    · rw [update_of_ne same] at ends
      have none := tree.closed other ends
      have fewer := less other
      omega
  · by_cases same : other = task
    · rw [same, update_self] at early
      rw [same]
      exact tree.fresh task (Nat.le_trans later early)
    · rw [update_of_ne same] at early
      exact tree.fresh other early
  · by_cases same : other = task
    · rw [same, update_self]
      rw [same] at waits
      exact Nat.le_trans (tree.late task waits) later
    · rw [update_of_ne same]
      exact tree.late other waits

/-- The last continuation of a waiting task is counted off, and the task is
completed. -/
theorem last (tree : Tree state stage pending) {parent : Task} {thread : Thread}
    (isParent : state.parentOf task = some parent) (before : stage task = .completingParent thread)
    (waits : stage parent = .awaiting)
    (alone : live state.parentOf stage state.nextTask 7 parent = 1) :
    Tree state (update (update stage task (.finishing thread)) parent
      (.completingParent thread)) pending := by
  obtain ⟨earlier, inside, -⟩ := tree.parents task parent isParent
  have differs : parent ≠ task := Nat.ne_of_lt earlier
  have drop : live state.parentOf stage state.nextTask 7 parent =
      live state.parentOf (update stage task (.finishing thread)) state.nextTask 7
        parent + 1 :=
    live_drop inside isParent (by simp [before, Stage.rank]) (by simp [Stage.rank])
  have live_eq : ∀ other, live state.parentOf (update (update stage task
      (.finishing thread)) parent (.completingParent thread)) state.nextTask 7 other =
      live state.parentOf (update stage task (.finishing thread)) state.nextTask 7
        other := by
    intro other
    refine live_keep fun _ => ?_
    rw [update_of_ne differs, waits]
    simp [Stage.rank]
  have live_others : ∀ other, other ≠ parent → live state.parentOf (update stage task
      (.finishing thread)) state.nextTask 7 other =
      live state.parentOf stage state.nextTask 7 other := by
    intro other notParent
    refine live_keep fun isOther => ?_
    rw [isParent] at isOther
    exact absurd (Option.some.inj isOther).symm notParent
  have stage_parent : update (update stage task (.finishing thread)) parent
      (.completingParent thread) parent = .completingParent thread := update_self ..
  have stage_task : update (update stage task (.finishing thread)) parent
      (.completingParent thread) task = .finishing thread := by
    rw [update_of_ne differs.symm, update_self]
  have stage_others : ∀ other, other ≠ parent → other ≠ task →
      update (update stage task (.finishing thread)) parent
        (.completingParent thread) other = stage other := by
    intro other notParent notTask
    rw [update_of_ne notParent, update_of_ne notTask]
  refine ⟨fun other => ?_, fun child parent' isParent' => ?_, fun other waits' => ?_,
    fun other ends => ?_, fun other early => ?_, fun other waits' => ?_⟩
  · by_cases same : other = parent
    · rw [same, stage_parent, ← tree.born, waits]
      simp [Stage.rank]
    · by_cases same' : other = task
      · rw [same', stage_task, ← tree.born, before]
        simp [Stage.rank]
      · rw [stage_others other same same']
        exact tree.born other
  · obtain ⟨earlier', inside', runs⟩ := tree.parents child parent' isParent'
    refine ⟨earlier', inside', ?_⟩
    by_cases same : parent' = parent
    · rw [same, stage_parent]
      simp [Stage.rank]
    · by_cases same' : parent' = task
      · rw [same', stage_task]
        simp [Stage.rank]
      · rwa [stage_others parent' same same']
  · by_cases same : other = parent
    · rw [same, stage_parent] at waits'
      cases waits'
    · by_cases same' : other = task
      · rw [same', stage_task] at waits'
        cases waits'
      · rw [stage_others other same same'] at waits'
        rw [live_eq, live_others other same]
        exact tree.awaits other waits'
  · rw [live_eq]
    by_cases same : other = parent
    · rw [same]
      omega
    · rw [live_others other same]
      by_cases same' : other = task
      · rw [same']
        refine tree.closed task ?_
        simp [before, Stage.rank]
      · rw [stage_others other same same'] at ends
        exact tree.closed other ends
  · by_cases same : other = parent
    · rw [same, stage_parent] at early
      simp [Stage.rank] at early
    · by_cases same' : other = task
      · rw [same', stage_task] at early
        simp [Stage.rank] at early
      · rw [stage_others other same same'] at early
        exact tree.fresh other early
  · have old := tree.late other waits'
    by_cases same : other = parent
    · rw [same, stage_parent]
      simp [Stage.rank]
    · by_cases same' : other = task
      · rw [same', stage_task]
        simp [Stage.rank]
      · rwa [stage_others other same same']

end Tree

end Voxen.Svc.TaskService
