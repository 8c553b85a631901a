import Voxen.Svc.TaskServiceMoves

/-!
# Steps that create, queue and reference tasks

A new task has one reference and no continuations; its parent gets one of each.
-/

namespace Voxen.Svc.TaskService

open Function (update update_of_ne update_self update_eq_self)

variable {Thread : Type} {state state' : State Thread}
  {stage : Task → Stage Thread} {pending : Task → Option Thread} {thread : Thread} {task : Task}
  {next : Stage Thread} {phase : Phase}

theorem wordOf_one : (1 : BitVec 32) = wordOf 1 false false 0 := by decide

theorem wordOf_two : (1 : BitVec 32) + 1#32 = wordOf 2 false false 0 := by decide

theorem Tree.create (tree : Tree state stage pending) (parent : Option Task) (handles : Nat)
    (next : Stage Thread) (early : next.rank = 1 ∨ next.rank = 2)
    (noHandle : next.rank = 1 → handles = 0)
    (runs : ∀ task, parent = some task → 4 ≤ (stage task).rank ∧ (stage task).rank < 7) :
    Tree { state with
      nextTask := state.nextTask + 1
      parentOf := update state.parentOf state.nextTask parent
      handles := update state.handles state.nextTask handles }
      (update stage state.nextTask next) pending := by
  have fresh : (stage state.nextTask).rank = 0 := (tree.born _).mpr (Nat.le_refl _)
  have created : ∀ other, live (update state.parentOf state.nextTask parent)
      (update stage state.nextTask next) (state.nextTask + 1) 7 other =
      live state.parentOf stage state.nextTask 7 other + (decide (parent = some other)).toNat :=
    fun other => live_create (by omega)
  refine ⟨fun other => ?_, fun child parent' isParent => ?_, fun other waits => ?_,
    fun other ends => ?_, fun other young => ?_, fun other waits => ?_⟩
  · change _ ↔ state.nextTask + 1 ≤ other
    by_cases same : other = state.nextTask
    · rw [same, update_self]
      refine iff_of_false (by omega) (Nat.not_succ_le_self _)
    · rw [update_of_ne same, tree.born]
      exact ⟨fun unborn => Nat.lt_of_le_of_ne unborn (Ne.symm same),
        fun unborn => Nat.le_of_succ_le unborn⟩
  · change parent' < child ∧ child < state.nextTask + 1 ∧ _
    simp only at isParent
    by_cases same : child = state.nextTask
    · rw [same, update_self] at isParent
      have rank := (runs parent' isParent).1
      have born : parent' < state.nextTask := by
        refine Nat.lt_of_not_le fun unborn => ?_
        have zero := (tree.born parent').mpr unborn
        omega
      refine ⟨same ▸ born, same ▸ Nat.lt_succ_self _, ?_⟩
      rwa [update_of_ne (Nat.ne_of_lt born)]
    · rw [update_of_ne same] at isParent
      obtain ⟨earlier, inside, rank⟩ := tree.parents child parent' isParent
      refine ⟨earlier, Nat.lt_succ_of_lt inside, ?_⟩
      rwa [update_of_ne (Nat.ne_of_lt (Nat.lt_trans earlier inside))]
  · have count := created other
    by_cases same : other = state.nextTask
    · rw [same, update_self] at waits
      rw [waits] at early
      simp [Stage.rank] at early
    · rw [update_of_ne same] at waits
      have pos := tree.awaits other waits
      simp only
      omega
  · have count := created other
    by_cases same : other = state.nextTask
    · rw [same, update_self] at ends
      omega
    · rw [update_of_ne same] at ends
      have none := tree.closed other ends
      have notParent : parent ≠ some other := fun isParent => by
        have rank := (runs other isParent).2
        omega
      simp only
      rw [count, none, decide_eq_false notParent]
      rfl
  · by_cases same : other = state.nextTask
    · rw [same] at young ⊢
      simp only [update_self] at young ⊢
      exact noHandle (by omega)
    · simp only [update_of_ne same] at young ⊢
      exact tree.fresh other young
  · by_cases same : other = state.nextTask
    · have late := tree.late other waits
      rw [same] at late
      omega
    · rw [update_of_ne same]
      exact tree.late other waits

section Create

variable (tree : Tree state stage pending) {parent : Option Task} {handles : Nat}
  (early : next.rank = 1 ∨ next.rank = 2)

include tree early

theorem Tree.view_created (notOwn : parent ≠ some state.nextTask) (counter : Option Nat) :
    State.view { state with
      nextTask := state.nextTask + 1
      parentOf := update state.parentOf state.nextTask parent
      handles := update state.handles state.nextTask handles
      counterOf := update state.counterOf state.nextTask counter }
      (update stage state.nextTask next) pending state.nextTask =
      ⟨handles + 1, 0, false, parent, counter⟩ := by
  have fresh : (stage state.nextTask).rank = 0 := (tree.born _).mpr (Nat.le_refl _)
  have none : pending state.nextTask = none := by
    by_contra waits
    have late := tree.late _ waits
    omega
  have childless : ∀ rank, live state.parentOf stage state.nextTask rank state.nextTask = 0 := by
    intro rank
    refine live_eq_zero.mpr fun child inside isParent => ?_
    exact absurd (tree.parents child _ isParent).1 (Nat.lt_asymm inside)
  have own : next.own = 1 := by
    rw [Stage.own, if_neg]
    omega
  have seven := @live_create _ state.parentOf stage state.nextTask 7 state.nextTask next parent
    (by omega)
  have eight := @live_create _ state.parentOf stage state.nextTask 8 state.nextTask next parent
    (by omega)
  rw [childless, decide_eq_false notOwn] at seven eight
  simp only [State.view, update_self, own, none, seven, eight]
  have notFinished : ¬ 10 ≤ next.rank := by omega
  have notOver : next.rank ≤ 9 := by omega
  simp [notFinished, notOver]

omit tree in
theorem Tree.view_others {other : Task} (differs : other ≠ state.nextTask)
    (counter : Option Nat) :
    State.view { state with
      nextTask := state.nextTask + 1
      parentOf := update state.parentOf state.nextTask parent
      handles := update state.handles state.nextTask handles
      counterOf := update state.counterOf state.nextTask counter }
      (update stage state.nextTask next) pending other =
      { state.view stage pending other with
        refs := (state.view stage pending other).refs + (decide (parent = some other)).toNat
        continuations :=
          (state.view stage pending other).continuations +
            (decide (parent = some other)).toNat } := by
  have seven := @live_create _ state.parentOf stage state.nextTask 7 other next parent (by omega)
  have eight := @live_create _ state.parentOf stage state.nextTask 8 other next parent (by omega)
  simp only [State.view, update_of_ne differs, seven, eight]
  simp [Nat.add_assoc]

end Create

theorem Heads.create {view view' : Task → View} (heads : Heads state view) {header : TaskHeader}
    (shows_ : header.Shows (view' state.nextTask)) (referenced : 0 < (view' state.nextTask).refs)
    (others : ∀ other, other ≠ state.nextTask → view' other = view other) :
    Heads { state.setHeader state.nextTask header with nextTask := state.nextTask + 1 } view' := by
  refine ⟨fun other => ?_, heads.distinct, fun other => ?_, heads.unfaulted⟩
  · by_cases same : other = state.nextTask
    · rw [same]
      simp only [State.setHeader, update_self]
      exact ⟨referenced, shows_⟩
    · simp only [State.setHeader, update_of_ne same]
      rw [others other same]
      exact heads.holds other
  · simp only [State.setHeader]
    rw [heads.destroyed]
    by_cases same : other = state.nextTask
    · rw [same, update_self]
      refine iff_of_false (fun gone => Nat.lt_irrefl _ gone.1) fun gone => ?_
      cases gone.2
    · rw [update_of_ne same]
      refine and_congr_left fun _ => ⟨Nat.lt_succ_of_lt, fun inside => ?_⟩
      exact Nat.lt_of_le_of_ne (Nat.lt_succ_iff.mp inside) same

theorem Logs.pushed (logs : Logs state stage) (early : (stage task).rank ≤ 1) :
    Logs { state with
      nextCounter := state.nextCounter + 1
      counterOf := update state.counterOf task (some state.nextCounter) }
      (update stage task .queued) := by
  have none : state.counterOf task = none := by
    by_contra has
    have counted := (logs.counted task).mp (Option.isSome_iff_ne_none.mpr has)
    omega
  have rank : (Stage.queued : Stage Thread).rank = 2 := rfl
  have unknown : state.nextCounter ∉ state.completedCounters := by
    intro mem
    obtain ⟨other, has⟩ := logs.known _ mem
    exact Nat.lt_irrefl _ (logs.below other _ has)
  refine ⟨logs.returned.keep (by omega), logs.checked.keep (by omega),
    logs.signalled.keep (by omega), logs.finished.keep (by omega), logs.distinct,
    fun other counter has => ?_, fun counter mem => ?_, fun other => ?_,
    fun other counter has => ?_, fun first second counter has has' => ?_⟩
  · simp only at has ⊢
    by_cases same : other = task
    · rw [same, update_self] at has ⊢
      cases has
      exact iff_of_false unknown (by omega)
    · rw [update_of_ne same] at has ⊢
      exact logs.completed other counter has
  · obtain ⟨other, has⟩ := logs.known counter mem
    refine ⟨other, ?_⟩
    simp only
    rwa [update_of_ne]
    rintro rfl
    rw [none] at has
    cases has
  · simp only
    by_cases same : other = task
    · rw [same, update_self, update_self]
      simp [rank]
    · rw [update_of_ne same, update_of_ne same]
      exact logs.counted other
  · simp only at has ⊢
    by_cases same : other = task
    · rw [same, update_self] at has
      cases has
      exact Nat.lt_succ_self _
    · rw [update_of_ne same] at has
      exact Nat.lt_succ_of_lt (logs.below other counter has)
  · simp only at has has'
    by_cases same : first = task
    · by_cases same' : second = task
      · rw [same, same']
      · rw [same, update_self] at has
        cases has
        rw [update_of_ne same'] at has'
        exact absurd (logs.below second _ has') (Nat.lt_irrefl _)
    · rw [update_of_ne same] at has
      by_cases same' : second = task
      · rw [same', update_self] at has'
        cases has'
        exact absurd (logs.below first _ has) (Nat.lt_irrefl _)
      · rw [update_of_ne same'] at has'
        exact logs.injective first second counter has has'

theorem Logs.building (logs : Logs state stage) (unborn : (stage task).rank = 0)
    (early : next.rank = 1) : Logs state (update stage task next) := by
  refine
    { logs with
      returned := logs.returned.keep (by omega)
      checked := logs.checked.keep (by omega)
      signalled := logs.signalled.keep (by omega)
      finished := logs.finished.keep (by omega)
      completed := fun other counter has => ?_
      counted := fun other => ?_ }
  · rw [logs.completed other counter has]
    by_cases same : other = task
    · rw [same, update_self]
      omega
    · rw [update_of_ne same]
  · rw [logs.counted]
    by_cases same : other = task
    · rw [same, update_self]
      omega
    · rw [update_of_ne same]

theorem Logs.complete (logs : Logs state stage) {counter : Nat}
    (has : state.counterOf task = some counter) (before : (stage task).rank = 11) :
    Logs { state with completedCounters := counter :: state.completedCounters }
      (update stage task .completed) := by
  have rank : (Stage.completed : Stage Thread).rank = 12 := rfl
  have fresh : counter ∉ state.completedCounters := by
    rw [logs.completed task counter has]
    omega
  refine
    { logs with
      returned := logs.returned.keep (by omega)
      checked := logs.checked.keep (by omega)
      signalled := logs.signalled.keep (by omega)
      finished := logs.finished.keep (by omega)
      distinct := List.nodup_cons.mpr ⟨fresh, logs.distinct⟩
      completed := fun other counter' has' => ?_
      known := fun counter' mem => ?_
      counted := fun other => ?_ }
  · simp only [List.mem_cons]
    by_cases same : other = task
    · rw [same] at has' ⊢
      rw [has] at has'
      cases has'
      rw [update_self]
      simp [rank]
    · rw [update_of_ne same, ← logs.completed other counter' has']
      refine or_iff_right ?_
      rintro rfl
      exact same (logs.injective other task counter' has' has)
  · rcases List.mem_cons.mp mem with rfl | old
    · exact ⟨task, has⟩
    · exact logs.known counter' old
  · refine (logs.counted other).trans ?_
    by_cases same : other = task
    · rw [same, update_self]
      omega
    · rw [update_of_ne same]

theorem Sched.pushed (sched : Sched state stage pending)
    (agree : Agree state'.claims (update stage task .queued))
    (notQueued : stage task ≠ .queued) (queue : state'.queue = state.queue ++ [task])
    (reset : ∀ thread task, state'.phases thread = .reset task ↔ pending task = some thread)
    (frames : ∀ thread stack, state'.phases thread = .completing stack →
      stack ≠ [] ∧ ∀ frame ∈ stack, frame.Ok state') :
    Sched state' (update stage task .queued) pending := by
  have absent : task ∉ state.queue := fun mem => notQueued ((sched.queued task).mp mem)
  refine ⟨agree, ?_, fun other => ?_, reset, frames⟩
  · rw [queue, List.nodup_append]
    refine ⟨sched.distinct, by simp, ?_⟩
    rintro other mem _ same rfl
    rw [List.mem_singleton.mp same] at mem
    exact absent mem
  · rw [queue, List.mem_append, sched.queued]
    by_cases same : other = task
    · rw [same, update_self]
      simp
    · rw [update_of_ne same]
      simp [same]

theorem Sched.permuted (sched : Sched state stage pending)
    (claims : ∀ thread, (state'.claims thread).Perm (state.claims thread))
    (queue : state'.queue = state.queue)
    (reset : ∀ thread task, state'.phases thread = .reset task ↔ pending task = some thread)
    (frames : ∀ thread stack, state'.phases thread = .completing stack →
      stack ≠ [] ∧ ∀ frame ∈ stack, frame.Ok state') : Sched state' stage pending := by
  refine ⟨sched.agree.perm claims, ?_, ?_, reset, frames⟩
  · rw [queue]
    exact sched.distinct
  · rw [queue]
    exact sched.queued

section Phases

variable [DecidableEq Thread]

theorem Sched.reset_setPhase (sched : Sched state stage pending)
    (noReset : ∀ other, state.phases thread ≠ .reset other)
    (noReset' : ∀ other, phase ≠ .reset other) (other : Thread) (task : Task) :
    update state.phases thread phase other = .reset task ↔
      pending task = some other := by
  by_cases same : other = thread
  · rw [same, update_self]
    refine iff_of_false (noReset' task) fun waits => ?_
    exact noReset task ((sched.pending thread task).mpr waits)
  · rw [update_of_ne same]
    exact sched.pending other task

theorem Sched.frames_setPhase (sched : Sched state stage pending)
    (frames : ∀ stack, phase = .completing stack → stack ≠ [] ∧ ∀ frame ∈ stack, frame.Ok state)
    (other : Thread) (stack : List Frame)
    (completing : update state.phases thread phase other = .completing stack) :
    stack ≠ [] ∧ ∀ frame ∈ stack, frame.Ok state := by
  by_cases same : other = thread
  · rw [same, update_self] at completing
    exact frames stack completing
  · rw [update_of_ne same] at completing
    exact sched.frames other stack completing

omit [DecidableEq Thread] in
theorem Frame.Ok.keep {frame : Frame} (ok : frame.Ok state)
    (parentOf : ∀ task parent, state.parentOf task = some parent →
      state'.parentOf task = some parent)
    (counterOf : ∀ task counter, state.counterOf task = some counter →
      state'.counterOf task = some counter) : frame.Ok state' := by
  cases frame with
  | releaseParent task parent => exact parentOf task parent ok
  | completeCounter task counter => exact counterOf task counter ok
  | completeParent task => trivial
  | setFinished task => trivial
  | releaseSelf task => trivial

end Phases

namespace Inv

variable [DecidableEq Thread]

theorem completeCounter (inv : Inv state stage pending) {rest : List Frame} {counter : Nat}
    (at_phase : state.phases thread = .completing (.completeCounter task counter :: rest)) :
    Inv (State.setPhase { state with completedCounters := counter :: state.completedCounters }
        thread (if rest = [] then .idle else .completing rest))
      (update stage task .completed) pending := by
  have held : stage task = .completing thread :=
    inv.stage_eq (by rw [at_phase]; exact List.mem_cons_self)
  have frames := (inv.sched.frames thread _ at_phase).2
  have has : state.counterOf task = some counter := frames _ List.mem_cons_self
  have claims : Phase.claims thread (if rest = [] then .idle else .completing rest) =
      rest.map (Frame.claim thread) := by
    split
    case isTrue empty =>
      rw [empty]
      rfl
    case isFalse => rfl
  have sched := inv.sched.setPhase (if rest = [] then .idle else .completing rest) task
    .completed [(task, stage task)] [] (rest.map (Frame.claim thread))
    (by rw [at_phase, held]; exact List.Perm.refl _)
    (by rw [claims]; exact List.Perm.refl _) (Or.inr rfl) (Or.inl ⟨rfl, rfl⟩) (by simp [held])
    (by simp) (by simp [at_phase]) (by intro other; split <;> simp) (by
      intro stack same
      split at same
      case isTrue => cases same
      case isFalse some =>
        cases same
        exact ⟨some, fun frame mem => frames frame (List.mem_cons_of_mem _ mem)⟩)
  refine inv.move (sched.keep rfl rfl rfl (fun _ _ same => same) (fun _ _ same => same))
    ((inv.logs.complete has (by simp [held, Stage.rank])).keep rfl rfl rfl rfl rfl rfl rfl)
    ⟨rfl, rfl, rfl, rfl, rfl, rfl, rfl⟩ ?_ ?_ ?_ ?_ ?_ ?_ ?_
  · simp [held, Stage.rank]
  · simp [held, Stage.rank]
  · simp
  · exact fun _ => inv.tree.closed task (by simp [held, Stage.rank])
  · simp [held, Stage.own, Stage.rank]
  · simp [held, Stage.rank]
  · exact Or.inr (by simp [held, Stage.rank])

theorem popTask (inv : Inv state stage pending) {index : Nat}
    (idle : state.phases thread = .idle) (found : state.queue[index]? = some task) :
    Inv (State.setPhase { state with queue := state.queue.eraseIdx index } thread (.attempt task))
      (update stage task (.held thread)) pending := by
  obtain ⟨inside, rfl⟩ := List.getElem?_eq_some_iff.mp found
  have perm : (state.queue[index] :: state.queue.eraseIdx index).Perm state.queue :=
    List.getElem_cons_eraseIdx_perm inside
  have queued : stage state.queue[index] = .queued :=
    (inv.sched.queued _).mp (List.getElem_mem inside)
  have distinct := perm.nodup_iff.mpr inv.sched.distinct
  rw [List.nodup_cons] at distinct
  have agree : Agree (state.setPhase thread (.attempt state.queue[index])).claims
      (update stage state.queue[index] (.held thread)) := by
    refine @Agree.step _ _ _ _ inv.sched.agree thread state.queue[index] (.held thread) []
      [(state.queue[index], .held thread)]
      ((state.waiting thread).map fun task => (task, Stage.held thread))
      (fun other differs => claims_other differs) ?_ ?_ (Or.inl ⟨rfl, by rw [queued]; rfl⟩)
      (Or.inr ⟨rfl, rfl⟩)
    · rw [State.claims, idle]
      exact List.Perm.refl _
    · rw [claims_self]
      exact List.Perm.refl _
  refine inv.move ⟨agree, distinct.2, fun other => ?_, ?_, ?_⟩ ?_
    ⟨rfl, rfl, rfl, rfl, rfl, rfl, rfl⟩ ?_ ?_ ?_ ?_ ?_ ?_ ?_
  · change other ∈ state.queue.eraseIdx index ↔ _
    by_cases same : other = state.queue[index]
    · rw [same, update_self]
      exact iff_of_false distinct.1 (by simp)
    · rw [update_of_ne same, ← inv.sched.queued, ← perm.mem_iff, List.mem_cons]
      exact (or_iff_right same).symm
  · exact inv.sched.reset_setPhase (by simp [idle]) (by simp)
  · exact inv.sched.frames_setPhase (by simp)
  · refine inv.logs.advance (inv.logs.returned.keep ?_) (inv.logs.checked.keep ?_)
      (inv.logs.signalled.keep ?_) (inv.logs.finished.keep ?_) rfl rfl rfl ?_ ?_ <;>
      simp [queued, Stage.rank]
  · simp [queued, Stage.rank]
  · simp [queued, Stage.rank]
  · simp
  · simp [Stage.rank]
  · simp [queued, Stage.own, Stage.rank]
  · simp [queued, Stage.rank]
  · exact Or.inr (by simp [queued, Stage.rank])

theorem permuted (inv : Inv state stage pending) (thread : Thread) (phase : Phase)
    (waiting : List Task)
    (claims : (phase.claims thread ++ waiting.map fun task => (task, Stage.held thread)).Perm
      (state.claims thread))
    (noReset : ∀ other, state.phases thread ≠ .reset other)
    (noReset' : ∀ other, phase ≠ .reset other) (noStack : ∀ stack, phase ≠ .completing stack) :
    Inv { state.setPhase thread phase with
      waiting := update state.waiting thread waiting } stage pending := by
  refine ⟨inv.tree.keep rfl rfl fun _ _ => rfl, inv.heads.keep rfl rfl rfl rfl fun _ => rfl,
    inv.sched.permuted (fun other => ?_) rfl ?_ ?_, inv.logs.keep rfl rfl rfl rfl rfl rfl rfl⟩
  · by_cases same : other = thread
    · rw [same]
      simpa [State.claims, State.setPhase] using claims
    · simp [State.claims, State.setPhase, update_of_ne same]
  · exact inv.sched.reset_setPhase noReset noReset'
  · exact inv.sched.frames_setPhase fun stack same => absurd same (noStack stack)

omit [DecidableEq Thread] in
theorem enqueueIndependent (inv : Inv state stage pending) (numWaitCounters : Nat)
    (executable : Executable) (withHandle : Bool) :
    Inv ({ state with nextTask := state.nextTask + 1 }.pushTask state.nextTask
        { numWaitCounters := numWaitCounters, executable := executable } withHandle)
      (update stage state.nextTask .queued) pending := by
  have unborn : (stage state.nextTask).rank = 0 := (inv.tree.born _).mpr (Nat.le_refl _)
  have rank : (Stage.queued : Stage Thread).rank = 2 := rfl
  have orphan : state.parentOf state.nextTask = none := by
    by_contra has
    obtain ⟨parent, isParent⟩ := Option.ne_none_iff_exists'.mp has
    exact Nat.lt_irrefl _ (inv.tree.parents _ parent isParent).2.1
  have same : update state.parentOf state.nextTask none = state.parentOf := by
    rw [← orphan, update_eq_self]
  have tree := inv.tree.create none (if withHandle then 1 else 0) .queued (by omega) (by omega)
    (by simp)
  have self := @Tree.view_created _ state stage pending .queued inv.tree none
    (if withHandle then 1 else 0) (by omega) (by simp) (some state.nextCounter)
  have others : ∀ other, other ≠ state.nextTask → _ = state.view stage pending other :=
    fun other differs => (@Tree.view_others _ state stage pending .queued none
      (if withHandle then 1 else 0) (by omega) other differs (some state.nextCounter)).trans
      (by simp)
  rw [same] at tree self others
  have heads : Heads { state.setHeader state.nextTask {
      atomicWord := if withHandle then 1 + 1#32 else 1
      numWaitCounters, executable
      taskCounter := state.nextCounter } with nextTask := state.nextTask + 1 }
      (State.view { state with
        nextTask := state.nextTask + 1
        handles := update state.handles state.nextTask (if withHandle then 1 else 0)
        counterOf := update state.counterOf state.nextTask (some state.nextCounter) }
        (update stage state.nextTask .queued) pending) := by
    refine inv.heads.create ?_ ?_ others
    · rw [self]
      refine ⟨⟨false, ?_⟩, ?_, by simp, rfl, fun counter same => Option.some.inj same⟩
      · cases withHandle with
        | true => exact wordOf_two
        | false => exact wordOf_one
      · cases withHandle <;> simp
    · rw [self]
      exact Nat.succ_pos _
  refine ⟨tree.keep rfl rfl fun _ _ => rfl, heads.keep rfl rfl rfl rfl fun _ => rfl,
    inv.sched.pushed ?_ ?_ rfl inv.sched.pending ?_,
    (inv.logs.pushed (by omega)).keep rfl rfl rfl rfl rfl rfl rfl⟩
  · refine inv.sched.agree.pass ?_ rfl fun _ => List.Perm.refl _
    rw [Stage.eq_unborn unborn]
    rfl
  · intro queued
    rw [queued] at unborn
    cases unborn
  · intro thread stack completing
    obtain ⟨some, ok⟩ := inv.sched.frames thread stack completing
    refine ⟨some, fun frame mem => (ok frame mem).keep (fun _ _ same => same) ?_⟩
    intro other counter has
    change update state.counterOf state.nextTask _ other = _
    rw [update_of_ne, has]
    rintro rfl
    have counted := (inv.logs.counted _).mp (by rw [has]; rfl)
    omega

variable {header : TaskHeader}

theorem createContinuation (inv : Inv state stage pending) {parent : Task} (numWaitCounters : Nat)
    (executable : Executable) (at_phase : state.phases thread = .running parent none)
    (found : state.headers parent = some header)
    (refsFit' : header.atomicWord &&& refcountMask ≠ refcountMask)
    (continuationsFit' : header.atomicWord &&& continuationCountMask ≠ continuationCountMask) :
    Inv (State.setPhase (State.setHeader (State.setHeader { state with
        nextTask := state.nextTask + 1
        parentOf := update state.parentOf state.nextTask (some parent) }
        state.nextTask {
          numWaitCounters, executable
          parent := some parent })
        parent { header with atomicWord := header.atomicWord + continuationRefAdd })
        thread (.running parent (some state.nextTask)))
      (update stage state.nextTask (.building thread)) pending := by
  have held : stage parent = .running thread :=
    inv.stage_eq (by rw [at_phase]; exact List.mem_singleton_self _)
  have unborn : (stage state.nextTask).rank = 0 := (inv.tree.born _).mpr (Nat.le_refl _)
  have rank : (Stage.building thread).rank = 1 := rfl
  have born : parent < state.nextTask := inv.born (by simp [held, Stage.rank])
  have differs : parent ≠ state.nextTask := Nat.ne_of_lt born
  obtain ⟨header', found', ⟨waiting, word⟩, refsFit, continuationsFit, sameParent, sameCounter⟩ :=
    inv.header parent (by simp [held, Stage.own, Stage.rank])
  rw [found] at found'
  cases found'
  rw [word, Ne, wordOf_refcount_eq_mask refsFit continuationsFit] at refsFit'
  rw [word, Ne, wordOf_continuations_eq_mask refsFit continuationsFit] at continuationsFit'
  have noHandle : update state.handles state.nextTask 0 = state.handles := by
    rw [← inv.tree.fresh _ (by omega : (stage state.nextTask).rank ≤ 1), update_eq_self]
  have noCounter : update state.counterOf state.nextTask none = state.counterOf := by
    have none : state.counterOf state.nextTask = none := by
      by_contra has
      have counted := (inv.logs.counted _).mp (Option.isSome_iff_ne_none.mpr has)
      omega
    rw [← none, update_eq_self]
  have tree := inv.tree.create (some parent) 0 (.building thread) (by omega) (fun _ => rfl) (by
    rintro other same
    cases same
    simp [held, Stage.rank])
  have self := @Tree.view_created _ state stage pending (.building thread) inv.tree (some parent) 0
    (by omega) (by simpa using differs) none
  have others := fun other differs => @Tree.view_others _ state stage pending (.building thread)
    (some parent) 0 (by omega) other differs none
  rw [noHandle] at tree self others
  rw [noCounter] at self others
  have first : Heads { state.setHeader state.nextTask {
      numWaitCounters, executable
      parent := some parent } with nextTask := state.nextTask + 1 }
      (update (state.view stage pending) state.nextTask
        ⟨1, 0, false, some parent, none⟩) := by
    refine inv.heads.create ?_ ?_ fun other differs => update_of_ne differs ..
    · rw [update_self]
      exact ⟨⟨false, wordOf_one⟩, by simp, by simp, rfl, by simp⟩
    · rw [update_self]
      exact Nat.one_pos
  have second : Heads (State.setHeader { state.setHeader state.nextTask {
      numWaitCounters, executable
      parent := some parent } with nextTask := state.nextTask + 1 } parent
        { header with atomicWord := header.atomicWord + continuationRefAdd })
      (State.view { state with
        nextTask := state.nextTask + 1
        parentOf := update state.parentOf state.nextTask (some parent) }
        (update stage state.nextTask (.building thread)) pending) := by
    refine first.set ?_ ?_ ?_ fun other notParent => ?_
    · rw [others parent differs]
      refine ⟨⟨waiting, ?_⟩, ?_, ?_, sameParent, sameCounter⟩
      · rw [word, wordOf_add_continuation]
        simp
      · simp only [decide_true, Bool.toNat_true]
        omega
      · simp only [decide_true, Bool.toNat_true]
        omega
    · simp [State.setHeader, update_of_ne differs, found]
    · rw [others parent differs]
      simp
    · by_cases same : other = state.nextTask
      · rw [same, self, update_self]
      · rw [others other same, update_of_ne same]
        simp [Ne.symm notParent]
  have sched := inv.sched.setPhase (.running parent (some state.nextTask)) state.nextTask
    (.building thread) [] [(state.nextTask, .building thread)] [(parent, .running thread)]
    (by rw [at_phase]; exact List.Perm.refl _) (List.Perm.refl _)
    (Or.inl ⟨rfl, by rw [Stage.eq_unborn unborn]; rfl⟩) (Or.inr ⟨rfl, rfl⟩)
    (by rw [Stage.eq_unborn unborn]; simp) (by simp) (by simp [at_phase]) (by simp) (by simp)
  refine ⟨tree.keep rfl rfl fun _ _ => rfl, second.keep rfl rfl rfl rfl fun _ => rfl,
    sched.keep rfl rfl rfl (fun other parent' isParent => ?_) (fun _ _ same => same),
    (inv.logs.building unborn rank).keep rfl rfl rfl rfl rfl rfl rfl⟩
  change update state.parentOf state.nextTask _ other = _
  rw [update_of_ne]
  · exact isParent
  · exact Nat.ne_of_lt (inv.tree.parents other parent' isParent).2.1

theorem enqueueContinuation (inv : Inv state stage pending) {parent : Task} (withHandle : Bool)
    (at_phase : state.phases thread = .running parent (some task))
    (found : state.headers task = some header) :
    Inv ((state.pushTask task header withHandle).setPhase thread (.running parent none))
      (update stage task .queued) pending := by
  have held : stage task = .building thread :=
    inv.stage_eq (by rw [at_phase]; exact List.mem_cons_self)
  have rank : (stage task).rank = 1 := by
    rw [held]
    rfl
  obtain ⟨header', found', ⟨waiting, word⟩, refsFit, continuationsFit, sameParent, sameCounter⟩ :=
    inv.header task (by simp [held, Stage.own, Stage.rank])
  rw [found] at found'
  cases found'
  have noHandle := inv.tree.fresh task (by omega)
  have free : pending task = none := by
    by_contra late
    have later := inv.tree.late task late
    omega
  have childless : live state.parentOf stage state.nextTask 8 task = 0 := by
    refine live_eq_zero.mpr fun child inside isParent => ?_
    have runs := (inv.tree.parents child task isParent).2.2
    omega
  have tree : Tree state (update stage task .queued) pending :=
    inv.tree.step (by omega) (by simp [held, Stage.rank]) (by simp) (by simp [Stage.rank])
      (by simp [Stage.rank])
  have one : (state.view stage pending task).refs = 1 := by
    simp only [State.view, noHandle, free, childless, held]
    rfl
  have heads : Heads (state.setHeader task { header with
      atomicWord := if withHandle then header.atomicWord + 1#32 else header.atomicWord
      taskCounter := state.nextCounter })
      (State.view { state with
        handles := update state.handles task (if withHandle then 1 else 0)
        counterOf := update state.counterOf task (some state.nextCounter) }
        (update stage task .queued) pending) := by
    have self : State.view { state with
        handles := update state.handles task (if withHandle then 1 else 0)
        counterOf := update state.counterOf task (some state.nextCounter) }
        (update stage task .queued) pending task =
        { state.view stage pending task with
          refs := 1 + (if withHandle then 1 else 0), counter := some state.nextCounter } := by
      simp only [State.view, inv.tree.live_self, update_self, free, childless, held]
      cases withHandle <;> simp [Stage.own, Stage.rank]
    refine inv.heads.set ?_ (by simp [found]) ?_ fun other notTask => ?_
    · rw [self]
      refine ⟨⟨waiting, ?_⟩, ?_, continuationsFit, sameParent, fun counter same =>
        Option.some.inj same⟩
      · rw [one] at word
        cases withHandle with
        | true =>
          simp only [if_true]
          rw [word, wordOf_add_ref]
        | false =>
          simp only [Bool.false_eq_true, if_false]
          exact word
      · cases withHandle <;> simp
    · rw [self]
      cases withHandle <;> simp
    · have plain := @Tree.view_other _ state stage pending task other .queued notTask
        fun _ => by simp [held, Stage.rank]
      rw [← plain]
      simp only [State.view, update_of_ne notTask]
  refine ⟨tree.keep rfl rfl fun other young => ?_, heads.keep rfl rfl rfl rfl fun _ => rfl,
    inv.sched.pushed ?_ (by simp [held]) rfl ?_ ?_,
    (inv.logs.pushed (by omega)).keep rfl rfl rfl rfl rfl rfl rfl⟩
  · change update state.handles task _ other = _
    refine update_of_ne ?_ ..
    rintro rfl
    rw [update_self] at young
    simp [Stage.rank] at young
  · refine @Agree.step _ _ _ _ inv.sched.agree thread task .queued [(task, stage task)] []
      ((parent, .running thread) ::
        (state.waiting thread).map fun task => (task, Stage.held thread))
      (fun other differs => ?_) ?_ ?_ (Or.inr rfl) (Or.inl ⟨rfl, rfl⟩)
    · simp [State.claims, State.setPhase, State.pushTask, State.setHeader,
        update_of_ne differs]
    · rw [State.claims, at_phase, held]
      exact List.Perm.refl _
    · simp [State.claims, State.setPhase, State.pushTask, State.setHeader, Phase.claims]
  · exact inv.sched.reset_setPhase (by simp [at_phase]) (by simp)
  · intro other stack completing
    obtain ⟨some, ok⟩ := inv.sched.frames_setPhase (by simp) other stack completing
    refine ⟨some, fun frame mem => (ok frame mem).keep (fun _ _ same => same) ?_⟩
    intro other' counter has
    change update state.counterOf task _ other' = _
    rw [update_of_ne, has]
    rintro rfl
    have counted := (inv.logs.counted _).mp (by rw [has]; rfl)
    omega

omit [DecidableEq Thread] in
theorem setHeader (inv : Inv state stage pending) (header' : TaskHeader)
    (found : state.headers task = some header)
    (shows_ : header.Shows (state.view stage pending task) →
      header'.Shows (state.view stage pending task)) :
    Inv (state.setHeader task header') stage pending := by
  have holds := inv.heads.holds task
  rw [found] at holds
  exact ⟨inv.tree.keep rfl rfl fun _ _ => rfl,
    (inv.heads.set (shows_ holds.2) (by simp [found]) holds.1 fun _ _ => rfl).keep rfl rfl rfl rfl
      fun _ => rfl,
    inv.sched.keep rfl rfl rfl (fun _ _ same => same) (fun _ _ same => same),
    inv.logs.keep rfl rfl rfl rfl rfl rfl rfl⟩

omit [DecidableEq Thread] in
theorem view_handles (handles : Nat) {other : Task} (differs : other ≠ task) :
    State.view { state with handles := update state.handles task handles } stage pending
      other = state.view stage pending other := by
  simp only [State.view, update_of_ne differs]

omit [DecidableEq Thread] in
theorem handled (inv : Inv state stage pending) (has : 0 < state.handles task) :
    2 ≤ (stage task).rank := by
  refine Nat.lt_of_not_le fun young => ?_
  have none := inv.tree.fresh task young
  omega

omit [DecidableEq Thread] in
theorem tree_handles (inv : Inv state stage pending) (has : 0 < state.handles task)
    (handles : Nat) :
    Tree { state with handles := update state.handles task handles } stage pending := by
  refine inv.tree.keep rfl rfl fun other young => update_of_ne ?_ ..
  rintro rfl
  have late := inv.handled has
  omega

omit [DecidableEq Thread] in
theorem copyHandle (inv : Inv state stage pending) (has : 0 < state.handles task)
    (found : state.headers task = some header)
    (fits : header.atomicWord &&& refcountMask ≠ refcountMask) :
    Inv (State.setHeader
        { state with handles := update state.handles task (state.handles task + 1) }
        task { header with atomicWord := header.atomicWord + 1#32 }) stage pending := by
  have holds := inv.heads.holds task
  rw [found] at holds
  obtain ⟨referenced, ⟨waiting, word⟩, refsFit, continuationsFit, sameParent, sameCounter⟩ := holds
  rw [word, Ne, wordOf_refcount_eq_mask refsFit continuationsFit] at fits
  have self : State.view { state with
      handles := update state.handles task (state.handles task + 1) } stage pending task =
      { state.view stage pending task with refs := (state.view stage pending task).refs + 1 } := by
    simp only [State.view, update_self]
    congr 1
    omega
  refine ⟨(inv.tree_handles has _).keep rfl rfl fun _ _ => rfl,
    (inv.heads.set ?_ (by simp [found]) ?_ fun other differs => view_handles _ differs).keep rfl rfl
      rfl rfl fun _ => rfl,
    inv.sched.keep rfl rfl rfl (fun _ _ same => same) (fun _ _ same => same),
    inv.logs.keep rfl rfl rfl rfl rfl rfl rfl⟩
  · rw [self]
    refine ⟨⟨waiting, ?_⟩, by simp only; omega, continuationsFit, sameParent, sameCounter⟩
    rw [word, wordOf_add_ref]
  · rw [self]
    exact Nat.succ_pos _

omit [DecidableEq Thread] in
theorem resetHandle (inv : Inv state stage pending) (has : 0 < state.handles task) :
    Inv (State.releaseRef
        { state with handles := update state.handles task (state.handles task - 1) } task)
      stage pending := by
  have late := inv.handled has
  have tree := inv.tree_handles has (state.handles task - 1)
  have heads : Heads (State.releaseRef
      { state with handles := update state.handles task (state.handles task - 1) } task)
      (State.view
        { state with handles := update state.handles task (state.handles task - 1) }
        stage pending) := by
    have kept : Heads
        { state with handles := update state.handles task (state.handles task - 1) }
        (state.view stage pending) := inv.heads.keep rfl rfl rfl rfl fun _ => rfl
    refine kept.release (inv.born (by omega)) ?_ ⟨rfl, rfl, rfl, rfl⟩ (fun none => ?_)
      fun other differs => view_handles _ differs
    · simp only [State.view, update_self]
      omega
    · simp only [State.view, update_self] at none
      have ended := inv.tree.ended task (by omega) (by omega) (by omega)
      simp only [State.view]
      rw [if_neg (by omega)]
  obtain ⟨headers, destroyed, faulted, eq⟩ := releaseRef_eq
    { state with handles := update state.handles task (state.handles task - 1) } task
  rw [eq] at heads ⊢
  exact ⟨tree.keep rfl rfl fun _ _ => rfl, heads.keep rfl rfl rfl rfl fun _ => rfl,
    inv.sched.keep rfl rfl rfl (fun _ _ same => same) (fun _ _ same => same),
    inv.logs.keep rfl rfl rfl rfl rfl rfl rfl⟩

end Inv

end Voxen.Svc.TaskService
