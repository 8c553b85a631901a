import Voxen.Svc.TaskServiceInvariant

/-!
# Steps of the threads

What each step of a thread does to the stages, the references and the histories.
-/

namespace Voxen.Svc.TaskService

open Function (update update_of_ne update_self)

variable {Thread : Type} {state state' : State Thread}
  {stage : Task → Stage Thread} {pending : Task → Option Thread} {thread : Thread} {task : Task}
  {next claim : Stage Thread} {phase : Phase}

namespace Inv

theorem stage_eq (inv : Inv state stage pending)
    (mem : (task, claim) ∈ (state.phases thread).claims thread) : stage task = claim :=
  inv.sched.agree.claimed thread task claim (List.mem_append_left _ mem)

theorem born (inv : Inv state stage pending) (rank : (stage task).rank ≠ 0) :
    task < state.nextTask :=
  Nat.lt_of_not_le fun unborn => rank ((inv.tree.born task).mpr unborn)

theorem header (inv : Inv state stage pending) (task : Task) (own : (stage task).own = 1) :
    ∃ header, state.headers task = some header ∧
      header.Shows (state.view stage pending task) := by
  refine inv.heads.header ?_
  simp only [State.view, own]
  omega

theorem parent_header (inv : Inv state stage pending) {parent : Task}
    (isParent : state.parentOf task = some parent) (early : (stage task).rank ≤ 8) :
    ∃ header, state.headers parent = some header ∧
      header.Shows (state.view stage pending parent) := by
  refine inv.heads.header ?_
  have referenced : 0 < live state.parentOf stage state.nextTask 8 parent :=
    live_pos.mpr ⟨task, (inv.tree.parents task parent isParent).2.1, isParent, early⟩
  simp only [State.view]
  omega

theorem move (inv : Inv state stage pending)
    (sched : Sched state' (update stage task next) pending)
    (logs : Logs state' (update stage task next))
    (rest : state'.headers = state.headers ∧ state'.destroyed = state.destroyed ∧
      state'.nextTask = state.nextTask ∧ state'.faulted = state.faulted ∧
      state'.parentOf = state.parentOf ∧ state'.handles = state.handles ∧
      state'.counterOf = state.counterOf)
    (born : (stage task).rank ≠ 0) (later : (stage task).rank ≤ next.rank)
    (awaits : next ≠ .awaiting)
    (closed : 7 ≤ next.rank → live state.parentOf stage state.nextTask 7 task = 0)
    (own : next.own = (stage task).own) (finished : 10 ≤ next.rank ↔ 10 ≤ (stage task).rank)
    (parent : state.parentOf task = none ∨
      ((stage task).rank ≤ 7 ↔ next.rank ≤ 7) ∧ ((stage task).rank ≤ 8 ↔ next.rank ≤ 8)) :
    Inv state' (update stage task next) pending := by
  obtain ⟨headers, destroyed, nextTask, faulted, parentOf, handles, counterOf⟩ := rest
  have tree : Tree state (update stage task next) pending := by
    refine inv.tree.step born later (fun same => absurd same awaits) closed ?_
    intro parent' isParent waits before after
    rcases parent with none | ⟨same, -⟩
    · rw [none] at isParent
      cases isParent
    · exact absurd (same.mp before) (Nat.not_le.mpr after)
  have views : ∀ other, state'.view (update stage task next) pending other =
      state.view stage pending other := by
    intro other
    have plain : state'.view (update stage task next) pending other =
        state.view (update stage task next) pending other := by
      simp only [State.view, parentOf, nextTask, handles, counterOf]
    rw [plain]
    by_cases same : other = task
    · rw [same, inv.tree.view_self]
      have early : next.rank ≤ 9 ↔ (stage task).rank ≤ 9 := by omega
      simp only [State.view, own, early, finished]
    · refine Tree.view_other same fun isParent => ?_
      rcases parent with none | both
      · rw [none] at isParent
        cases isParent
      · exact both
  exact ⟨tree.keep nextTask parentOf fun other _ => congrFun handles other,
    inv.heads.keep headers destroyed nextTask faulted views, sched, logs⟩

variable [DecidableEq Thread]

theorem moveOn (inv : Inv state stage pending) (phase : Phase)
    (rest : List (Task × Stage Thread))
    (old : (state.phases thread).claims thread = (task, stage task) :: rest)
    (new : phase.claims thread = (task, next) :: rest) (mine : next.thread = some thread)
    (logs : Logs state' (update stage task next))
    (phases : state'.phases = (state.setPhase thread phase).phases)
    (others : state'.waiting = state.waiting ∧ state'.queue = state.queue ∧
      state'.headers = state.headers ∧ state'.destroyed = state.destroyed ∧
      state'.nextTask = state.nextTask ∧ state'.faulted = state.faulted ∧
      state'.parentOf = state.parentOf ∧ state'.handles = state.handles ∧
      state'.counterOf = state.counterOf)
    (later : (stage task).rank ≤ next.rank)
    (closed : 7 ≤ next.rank → live state.parentOf stage state.nextTask 7 task = 0)
    (own : next.own = (stage task).own) (finished : 10 ≤ next.rank ↔ 10 ≤ (stage task).rank)
    (parent : state.parentOf task = none ∨
      ((stage task).rank ≤ 7 ↔ next.rank ≤ 7) ∧ ((stage task).rank ≤ 8 ↔ next.rank ≤ 8))
    (frames : ∀ stack, phase = .completing stack → stack ≠ [] ∧ ∀ frame ∈ stack, frame.Ok state) :
    Inv state' (update stage task next) pending := by
  have held : (stage task).thread = some thread :=
    inv.sched.agree.thread thread task _
      (List.mem_append_left _ (by rw [old]; exact List.mem_cons_self))
  obtain ⟨waiting, queue, others⟩ := others
  have parentOf := others.2.2.2.2.1
  have counterOf := others.2.2.2.2.2.2
  refine inv.move ((inv.sched.setPhase phase task next [(task, stage task)] [(task, next)]
    rest (by rw [old]; exact List.Perm.refl _) (by rw [new]; exact List.Perm.refl _)
    (Or.inr rfl) (Or.inr ⟨rfl, mine⟩) ?_ ?_ ?_ ?_ frames).keep phases waiting queue
      (by rw [parentOf]; exact fun _ _ same => same)
      (by rw [counterOf]; exact fun _ _ same => same)) logs others ?_ later ?_ closed own
    finished parent
  · intro queued
    rw [queued] at held
    cases held
  · rintro rfl
    cases mine
  · intro other reset
    rw [reset] at old
    cases old
  · rintro other rfl
    cases new
  · intro unborn
    rw [Stage.eq_unborn unborn] at held
    cases held
  · rintro rfl
    cases mine

theorem running (inv : Inv state stage pending) (at_phase : state.phases thread = .attempt task) :
    Inv (state.setPhase thread (.running task none)) (update stage task (.running thread))
      pending := by
  have held : stage task = .held thread :=
    inv.stage_eq (by rw [at_phase]; exact List.mem_singleton_self _)
  refine inv.moveOn (.running task none) [] (by rw [at_phase, held]; rfl) rfl rfl
    ?_ rfl ⟨rfl, rfl, rfl, rfl, rfl, rfl, rfl, rfl, rfl⟩ ?_ ?_ ?_ ?_ ?_ ?_
  · refine inv.logs.advance (inv.logs.returned.keep ?_) (inv.logs.checked.keep ?_)
      (inv.logs.signalled.keep ?_) (inv.logs.finished.keep ?_) rfl rfl rfl ?_ ?_ <;>
      simp [held, Stage.rank]
  · simp [held, Stage.rank]
  · simp [Stage.rank]
  · simp [held, Stage.own, Stage.rank]
  · simp [held, Stage.rank]
  · exact Or.inr (by simp [held, Stage.rank])
  · rintro stack same
    cases same

theorem returns (inv : Inv state stage pending)
    (old : (state.phases thread).claims thread = [(task, stage task)])
    (before : 3 ≤ (stage task).rank ∧ (stage task).rank ≤ 4) :
    Inv { state.setPhase thread (.check task) with returned := task :: state.returned }
      (update stage task (.returned thread)) pending := by
  have own : (stage task).own = 1 := by
    rw [Stage.own, if_neg]
    omega
  have rank : (Stage.returned thread).rank = 5 := rfl
  refine inv.moveOn (.check task) [] old rfl rfl
    ?_ rfl ⟨rfl, rfl, rfl, rfl, rfl, rfl, rfl, rfl, rfl⟩ ?_ ?_ ?_ ?_ ?_ ?_
  · refine inv.logs.advance (inv.logs.returned.add ?_ ?_) (inv.logs.checked.keep ?_)
      (inv.logs.signalled.keep ?_) (inv.logs.finished.keep ?_) rfl rfl rfl ?_ ?_ <;>
      omega
  · omega
  · simp [Stage.rank]
  · rw [own]
    rfl
  · omega
  · exact Or.inr (by omega)
  · rintro stack same
    cases same

theorem complete (inv : Inv state stage pending) (at_phase : state.phases thread = .check task)
    (none : live state.parentOf stage state.nextTask 7 task = 0) :
    Inv { state.setPhase thread (.completing [.completeParent task]) with
        checked := task :: state.checked }
      (update stage task (.completingParent thread)) pending := by
  have held : stage task = .returned thread :=
    inv.stage_eq (by rw [at_phase]; exact List.mem_singleton_self _)
  refine inv.moveOn (.completing [.completeParent task]) []
    (by rw [at_phase, held]; rfl) rfl rfl
    ?_ rfl ⟨rfl, rfl, rfl, rfl, rfl, rfl, rfl, rfl, rfl⟩ ?_ (fun _ => none) ?_ ?_ ?_ ?_
  · refine inv.logs.advance (inv.logs.returned.keep ?_) (inv.logs.checked.add ?_ ?_)
      (inv.logs.signalled.keep ?_) (inv.logs.finished.keep ?_) rfl rfl rfl ?_ ?_ <;>
      simp [held, Stage.rank]
  · simp [held, Stage.rank]
  · simp [held, Stage.own, Stage.rank]
  · simp [held, Stage.rank]
  · exact Or.inr (by simp [held, Stage.rank])
  · rintro stack same
    cases same
    simp [Frame.Ok]

theorem signalRoot (inv : Inv state stage pending) {rest : List Frame}
    (at_phase : state.phases thread = .completing (.completeParent task :: rest))
    (root : state.parentOf task = none) :
    Inv { state.setPhase thread (.completing (.setFinished task :: rest)) with
        signalled := task :: state.signalled }
      (update stage task (.finishing thread)) pending := by
  have held : stage task = .completingParent thread :=
    inv.stage_eq (by rw [at_phase]; exact List.mem_cons_self)
  have frames := (inv.sched.frames thread _ at_phase).2
  refine inv.moveOn (.completing (.setFinished task :: rest))
    (rest.map (Frame.claim thread)) (by rw [at_phase, held]; rfl) rfl rfl
    ?_ rfl ⟨rfl, rfl, rfl, rfl, rfl, rfl, rfl, rfl, rfl⟩ ?_ (fun _ => ?_) ?_ ?_ (Or.inl root) ?_
  · refine inv.logs.advance (inv.logs.returned.keep ?_) (inv.logs.checked.keep ?_)
      (inv.logs.signalled.add ?_ ?_) (inv.logs.finished.keep ?_) rfl rfl rfl ?_ ?_ <;>
      simp [held, Stage.rank]
  · simp [held, Stage.rank]
  · exact inv.tree.closed task (by simp [held, Stage.rank])
  · simp [held, Stage.own, Stage.rank]
  · simp [held, Stage.rank]
  · rintro stack same
    cases same
    refine ⟨by simp, fun frame mem => ?_⟩
    rcases List.mem_cons.mp mem with rfl | old
    · trivial
    · exact frames frame (List.mem_cons_of_mem _ old)

/-- Continuations are left: the slave resets the task, which waits for them. -/
theorem await (inv : Inv state stage pending) (at_phase : state.phases thread = .check task)
    (some_live : 0 < live state.parentOf stage state.nextTask 7 task) :
    Inv { state.setPhase thread (.reset task) with checked := task :: state.checked }
      (update stage task .awaiting) (update pending task (some thread)) := by
  have held : stage task = .returned thread :=
    inv.stage_eq (by rw [at_phase]; exact List.mem_singleton_self _)
  have free : pending task = none := by
    by_contra late
    have rank := inv.tree.late task late
    simp [held, Stage.rank] at rank
  have tree : Tree state (update stage task .awaiting) pending :=
    inv.tree.step (by simp [held, Stage.rank]) (by simp [held, Stage.rank])
      (fun _ => some_live) (by simp [Stage.rank]) (by simp [Stage.rank])
  have tree' : Tree state (update stage task .awaiting)
      (update pending task (some thread)) := by
    refine
      { tree with
        late := fun other waits => ?_ }
    by_cases same : other = task
    · rw [same, update_self]
      simp [Stage.rank]
    · rw [update_of_ne same] at waits
      exact tree.late other waits
  refine ⟨tree'.keep rfl rfl fun _ _ => rfl, inv.heads.keep rfl rfl rfl rfl fun other => ?_,
    ⟨?_, inv.sched.distinct, fun other => ?_, fun other task' => ?_, fun other stack => ?_⟩, ?_⟩
  · by_cases same : other = task
    · rw [same]
      have self := @Tree.view_self _ _ _ _ task .awaiting inv.tree
      simp only [State.view, update_self, inv.tree.live_self, free, held] at self ⊢
      simp [Stage.own, Stage.rank, State.setPhase, inv.tree.live_self]
    · have plain := @Tree.view_other _ state stage pending task other .awaiting same
        fun _ => by simp [held, Stage.rank]
      rw [← plain]
      simp only [State.view, update_of_ne same]
      rfl
  · refine @Agree.step _ _ _ _ inv.sched.agree thread task .awaiting [(task, stage task)] []
      ((state.waiting thread).map fun task => (task, Stage.held thread))
      (fun other differs => claims_other differs) ?_ ?_ (Or.inr rfl) (Or.inl ⟨rfl, rfl⟩)
    · rw [State.claims, at_phase, held]
      exact List.Perm.refl _
    · exact List.Perm.of_eq claims_self
  · by_cases same : other = task
    · rw [same, update_self]
      refine iff_of_false (fun mem => ?_) (by simp)
      have queued := (inv.sched.queued task).mp mem
      rw [held] at queued
      cases queued
    · rw [update_of_ne same]
      exact inv.sched.queued other
  · have old := inv.sched.pending other task'
    by_cases here : other = thread
    · rw [here]
      simp only [State.setPhase, update_self]
      by_cases same : task' = task
      · rw [same, update_self]
        simp
      · rw [update_of_ne same]
        rw [here, at_phase] at old
        refine iff_of_false (fun reset => ?_) fun waits => ?_
        · cases reset
          exact same rfl
        · have reset := old.mpr waits
          cases reset
    · simp only [State.setPhase, update_of_ne here]
      by_cases same : task' = task
      · rw [same, update_self]
        rw [same, free] at old
        refine iff_of_false (fun reset => ?_) fun waits => ?_
        · have none := old.mp reset
          cases none
        · exact here (Option.some.inj waits).symm
      · rw [update_of_ne same]
        exact old
  · by_cases here : other = thread
    · rw [here]
      simp [State.setPhase]
    · simp only [State.setPhase, update_of_ne here]
      exact inv.sched.frames other stack
  · refine inv.logs.advance (inv.logs.returned.keep ?_) (inv.logs.checked.add ?_ ?_)
      (inv.logs.signalled.keep ?_) (inv.logs.finished.keep ?_) rfl rfl rfl ?_ ?_ <;>
      simp [held, Stage.rank]

end Inv

theorem releaseRef_eq (state : State Thread) (task : Task) :
    ∃ headers destroyed faulted, state.releaseRef task =
      { state with headers := headers, destroyed := destroyed, faulted := faulted } := by
  unfold State.releaseRef State.withHeader
  split
  · exact ⟨_, _, _, rfl⟩
  · simp only
    split
    · exact ⟨_, _, _, rfl⟩
    · exact ⟨_, _, _, rfl⟩

theorem Tree.ended (tree : Tree state stage pending) (task : Task) (born : (stage task).rank ≠ 0)
    (own : (stage task).own = 0)
    (released : live state.parentOf stage state.nextTask 8 task = 0) :
    11 ≤ (stage task).rank := by
  have cases : (stage task).rank = 0 ∨ (stage task).rank = 6 ∨ 11 ≤ (stage task).rank := by
    by_contra other
    rw [Stage.own, if_neg other] at own
    cases own
  rcases cases with zero | six | late
  · exact absurd zero born
  · obtain ⟨child, inside, isParent, early⟩ :=
      live_pos.mp (tree.awaits task (Stage.eq_awaiting six))
    have later := live_eq_zero.mp released child inside isParent
    omega
  · exact late

namespace Inv

theorem advanceTree (inv : Inv state stage pending) (late : 8 ≤ (stage task).rank)
    (later : (stage task).rank ≤ next.rank) (awaits : next ≠ .awaiting) :
    Tree state (update stage task next) pending := by
  refine inv.tree.step (by omega) later (fun waits => absurd waits awaits)
    (fun _ => inv.tree.closed task (by omega)) ?_
  intro _ _ _ early
  omega

variable [DecidableEq Thread]

theorem reset (inv : Inv state stage pending) (at_phase : state.phases thread = .reset task) :
    Inv ((state.releaseRef task).setPhase thread .idle) stage
      (update pending task none) := by
  have waits : pending task = some thread := (inv.sched.pending thread task).mp at_phase
  have late := inv.tree.late task (by simp [waits])
  have born : task < state.nextTask := inv.born (by omega)
  have views : ∀ other, other ≠ task →
      state.view stage (update pending task none) other =
        state.view stage pending other := by
    intro other differs
    simp only [State.view, update_of_ne differs]
  have heads : Heads (state.releaseRef task)
      (state.view stage (update pending task none)) := by
    refine inv.heads.release born ?_ ⟨rfl, rfl, rfl, rfl⟩ (fun none => ?_) views
    · simp only [State.view, update_self, waits]
      simp
      omega
    · simp only [State.view, update_self] at none
      have ended := inv.tree.ended task (by omega) (by omega) (by omega)
      simp only [State.view]
      rw [if_neg (by omega)]
  obtain ⟨headers, destroyed, faulted, eq⟩ := releaseRef_eq state task
  rw [eq] at heads ⊢
  refine ⟨⟨inv.tree.born, inv.tree.parents, inv.tree.awaits, inv.tree.closed, inv.tree.fresh,
    fun other waits' => ?_⟩, heads.keep rfl rfl rfl rfl fun _ => rfl,
    ⟨?_, inv.sched.distinct, inv.sched.queued, fun other task' => ?_, fun other stack => ?_⟩,
    inv.logs.keep rfl rfl rfl rfl rfl rfl rfl⟩
  · by_cases same : other = task
    · rw [same]
      exact late
    · rw [update_of_ne same] at waits'
      exact inv.tree.late other waits'
  · refine inv.sched.agree.perm fun other => ?_
    by_cases here : other = thread
    · rw [here]
      simp [State.claims, State.setPhase, at_phase, Phase.claims]
    · simp [State.claims, State.setPhase, update_of_ne here]
  · have old := inv.sched.pending other task'
    by_cases here : other = thread
    · rw [here]
      simp only [State.setPhase, update_self]
      by_cases same : task' = task
      · rw [same, update_self]
        simp
      · rw [update_of_ne same]
        rw [here, at_phase] at old
        refine iff_of_false (by simp) fun waits' => ?_
        have reset := old.mpr waits'
        cases reset
        exact same rfl
    · simp only [State.setPhase, update_of_ne here]
      by_cases same : task' = task
      · rw [same, update_self]
        rw [same, waits] at old
        refine iff_of_false (fun reset => ?_) (by simp)
        exact here (Option.some.inj (old.mp reset)).symm
      · rw [update_of_ne same]
        exact old
  · by_cases here : other = thread
    · rw [here]
      simp [State.setPhase]
    · simp only [State.setPhase, update_of_ne here]
      exact inv.sched.frames other stack

variable {rest : List Frame} {header : TaskHeader} {parent : Task}

/-- The thread goes on with the task on top of its stack, and other headers do not see
it. -/
theorem advanceFrame (inv : Inv state stage pending) {frame : Frame} (task : Task)
    (next : Stage Thread) (frame' : Frame)
    (at_phase : state.phases thread = .completing (frame :: rest))
    (old : frame.claim thread = (task, stage task)) (new : frame'.claim thread = (task, next))
    (mine : next.thread = some thread) (ok : frame'.Ok state) :
    Sched (state.setPhase thread (.completing (frame' :: rest))) (update stage task next)
      pending := by
  have frames := (inv.sched.frames thread _ at_phase).2
  have held : (stage task).thread = some thread :=
    inv.sched.agree.thread thread task _ (List.mem_append_left _ (by
      rw [at_phase, ← old]
      exact List.mem_cons_self))
  refine inv.sched.setPhase _ task next [(task, stage task)] [(task, next)]
    (rest.map (Frame.claim thread)) ?_ ?_ (Or.inr rfl) (Or.inr ⟨rfl, mine⟩) ?_ ?_ ?_ ?_ ?_
  · rw [at_phase, ← old]
    exact List.Perm.refl _
  · rw [← new]
    exact List.Perm.refl _
  · intro queued
    rw [queued] at held
    cases held
  · rintro rfl
    cases mine
  · simp [at_phase]
  · simp
  · rintro stack same
    cases same
    refine ⟨by simp, fun other mem => ?_⟩
    rcases List.mem_cons.mp mem with rfl | mem
    · exact ok
    · exact frames other (List.mem_cons_of_mem _ mem)

/-- A continuation that is not the last one is counted off at its parent. -/
theorem signalMore (inv : Inv state stage pending)
    (at_phase : state.phases thread = .completing (.completeParent task :: rest))
    (isParent : state.parentOf task = some parent) (found : state.headers parent = some header)
    (more : header.atomicWord &&& continuationCountMask ≠ continuationAdd) :
    Inv { (state.setHeader parent
        { header with atomicWord := header.atomicWord - continuationAdd }).setPhase thread
          (.completing (.releaseParent task parent :: rest)) with
        signalled := task :: state.signalled }
      (update stage task (.releasingParent thread)) pending := by
  have held : stage task = .completingParent thread :=
    inv.stage_eq (by rw [at_phase]; exact List.mem_cons_self)
  have frames := (inv.sched.frames thread _ at_phase).2
  obtain ⟨earlier, inside, -⟩ := inv.tree.parents task parent isParent
  have differs : parent ≠ task := Nat.ne_of_lt earlier
  obtain ⟨header', found', ⟨waiting, word⟩, refsFit, continuationsFit, sameParent, sameCounter⟩ :=
    inv.parent_header isParent (by simp [held, Stage.rank])
  rw [found] at found'
  cases found'
  have drop : live state.parentOf stage state.nextTask 7 parent =
      live state.parentOf (update stage task (.releasingParent thread)) state.nextTask 7
        parent + 1 :=
    live_drop inside isParent (by simp [held, Stage.rank]) (by simp [Stage.rank])
  have keep : live state.parentOf (update stage task (.releasingParent thread))
      state.nextTask 8 parent = live state.parentOf stage state.nextTask 8 parent :=
    live_keep fun _ => by simp [held, Stage.rank]
  have many : 1 < live state.parentOf stage state.nextTask 7 parent := by
    rw [word, Ne, wordOf_continuations_eq_one refsFit continuationsFit] at more
    simp only [State.view] at more
    omega
  have tree : Tree state (update stage task (.releasingParent thread)) pending := by
    refine inv.tree.step (by simp [held, Stage.rank]) (by simp [held, Stage.rank])
      (fun waits => by cases waits) (fun _ => inv.tree.closed task (by simp [held, Stage.rank])) ?_
    intro parent' isParent' _ _ _
    rw [isParent] at isParent'
    cases isParent'
    exact many
  have heads : Heads (state.setHeader parent
      { header with atomicWord := header.atomicWord - continuationAdd })
      (state.view (update stage task (.releasingParent thread)) pending) := by
    refine inv.heads.set ⟨⟨waiting, ?_⟩, ?_, ?_, ?_, ?_⟩ (by simp [found]) ?_
      fun other notParent => ?_
    · simp only [State.view, update_of_ne differs, keep] at word ⊢
      rw [word, drop, wordOf_sub_continuation]
    · simp only [State.view, update_of_ne differs, keep] at refsFit ⊢
      exact refsFit
    · simp only [State.view] at continuationsFit ⊢
      omega
    · simp only [State.view, update_of_ne differs] at sameParent ⊢
      exact sameParent
    · exact sameCounter
    · have referenced : 0 < live state.parentOf stage state.nextTask 8 parent :=
        live_pos.mpr ⟨task, inside, isParent, by simp [held, Stage.rank]⟩
      simp only [State.view, keep]
      omega
    · by_cases same : other = task
      · rw [same, inv.tree.view_self]
        simp only [State.view, held]
        simp [Stage.own, Stage.rank]
      · refine Tree.view_other same fun isOther => ?_
        rw [isParent] at isOther
        exact absurd (Option.some.inj isOther).symm notParent
  refine ⟨tree.keep rfl rfl fun _ _ => rfl, heads.keep rfl rfl rfl rfl fun _ => rfl,
    (inv.advanceFrame task (.releasingParent thread) (.releaseParent task parent) at_phase
      (by rw [held]; rfl) rfl rfl isParent).keep rfl rfl rfl
      (fun _ _ same => same) (fun _ _ same => same), ?_⟩
  refine inv.logs.advance (inv.logs.returned.keep ?_) (inv.logs.checked.keep ?_)
    (inv.logs.signalled.add ?_ ?_) (inv.logs.finished.keep ?_) rfl rfl rfl ?_ ?_ <;>
    simp [held, Stage.rank]

theorem releaseParent (inv : Inv state stage pending)
    (at_phase : state.phases thread = .completing (.releaseParent task parent :: rest)) :
    Inv ((state.releaseRef parent).setPhase thread (.completing (.setFinished task :: rest)))
      (update stage task (.finishing thread)) pending := by
  have held : stage task = .releasingParent thread :=
    inv.stage_eq (by rw [at_phase]; exact List.mem_cons_self)
  have frames := (inv.sched.frames thread _ at_phase).2
  have isParent : state.parentOf task = some parent := frames _ List.mem_cons_self
  obtain ⟨earlier, inside, runs⟩ := inv.tree.parents task parent isParent
  have differs : parent ≠ task := Nat.ne_of_lt earlier
  have drop : live state.parentOf stage state.nextTask 8 parent =
      live state.parentOf (update stage task (.finishing thread)) state.nextTask 8
        parent + 1 :=
    live_drop inside isParent (by simp [held, Stage.rank]) (by simp [Stage.rank])
  have keep : live state.parentOf (update stage task (.finishing thread))
      state.nextTask 7 parent = live state.parentOf stage state.nextTask 7 parent :=
    live_keep fun _ => by simp [held, Stage.rank]
  have tree : Tree state (update stage task (.finishing thread)) pending :=
    inv.advanceTree (by simp [held, Stage.rank]) (by simp [held, Stage.rank]) (fun same => by cases same)
  have heads : Heads (state.releaseRef parent)
      (state.view (update stage task (.finishing thread)) pending) := by
    refine inv.heads.release (Nat.lt_trans earlier inside) ?_ ⟨keep, ?_, ?_, rfl⟩ ?_
      fun other notParent => ?_
    · simp only [State.view, update_of_ne differs]
      omega
    · simp only [State.view, update_of_ne differs]
    · simp only [State.view, update_of_ne differs]
    · intro none
      simp only [State.view] at none
      have ended := tree.ended parent
        (by rw [update_of_ne differs]; omega) (by omega) (by omega)
      rw [update_of_ne differs] at ended
      simp only [State.view]
      rw [if_neg (by omega)]
    · by_cases same : other = task
      · rw [same, inv.tree.view_self]
        simp only [State.view, held]
        simp [Stage.own, Stage.rank]
      · refine Tree.view_other same fun isOther => ?_
        rw [isParent] at isOther
        exact absurd (Option.some.inj isOther).symm notParent
  obtain ⟨headers, destroyed, faulted, eq⟩ := releaseRef_eq state parent
  rw [eq] at heads ⊢
  refine ⟨tree.keep rfl rfl fun _ _ => rfl, heads.keep rfl rfl rfl rfl fun _ => rfl,
    (inv.advanceFrame task (.finishing thread) (.setFinished task) at_phase (by rw [held]; rfl)
      rfl rfl trivial).keep rfl rfl rfl (fun _ _ same => same) (fun _ _ same => same), ?_⟩
  refine inv.logs.advance (inv.logs.returned.keep ?_) (inv.logs.checked.keep ?_)
    (inv.logs.signalled.keep ?_) (inv.logs.finished.keep ?_) rfl rfl rfl ?_ ?_ <;>
    simp [held, Stage.rank]

/-- The last continuation is counted off: the thread completes the parent first. -/
theorem signalLast (inv : Inv state stage pending)
    (at_phase : state.phases thread = .completing (.completeParent task :: rest))
    (isParent : state.parentOf task = some parent) (found : state.headers parent = some header)
    (last : header.atomicWord &&& continuationCountMask = continuationAdd)
    (waits : stage parent = .awaiting) :
    Inv { (state.setHeader parent
        { header with atomicWord := header.atomicWord - continuationAdd }).setPhase thread
          (.completing (.completeParent parent :: .setFinished task :: rest)) with
        signalled := task :: state.signalled }
      (update (update stage task (.finishing thread)) parent
        (.completingParent thread)) pending := by
  have held : stage task = .completingParent thread :=
    inv.stage_eq (by rw [at_phase]; exact List.mem_cons_self)
  have frames := (inv.sched.frames thread _ at_phase).2
  obtain ⟨earlier, inside, -⟩ := inv.tree.parents task parent isParent
  have differs : parent ≠ task := Nat.ne_of_lt earlier
  obtain ⟨header', found', ⟨waiting, word⟩, refsFit, continuationsFit, sameParent, sameCounter⟩ :=
    inv.parent_header isParent (by simp [held, Stage.rank])
  rw [found] at found'
  cases found'
  have alone : live state.parentOf stage state.nextTask 7 parent = 1 := by
    rwa [word, wordOf_continuations_eq_one refsFit continuationsFit] at last
  have tree := inv.tree.last isParent held waits alone
  have waits' : update stage task (.finishing thread) parent = .awaiting := by
    rw [update_of_ne differs]
    exact waits
  have dropped : ∀ rank, 7 ≤ rank → rank ≤ 8 →
      live state.parentOf stage state.nextTask rank parent =
      live state.parentOf (update (update stage task (.finishing thread)) parent
        (.completingParent thread)) state.nextTask rank parent + 1 := by
    intro rank low high
    rw [live_keep fun own => absurd own inv.tree.not_own_parent]
    refine live_drop inside isParent ?_ ?_
    · simp only [held, Stage.rank]
      omega
    · simp only [Stage.rank]
      omega
  have seven := dropped 7 (by omega) (by omega)
  have eight := dropped 8 (by omega) (by omega)
  have view_parent : state.view (update (update stage task (.finishing thread))
      parent (.completingParent thread)) pending parent =
      { state.view stage pending parent with continuations := 0 } := by
    have refs : state.handles parent + Stage.own (.completingParent thread : Stage Thread) +
        (pending parent).isSome.toNat + live state.parentOf (update
          (update stage task (.finishing thread)) parent (.completingParent thread))
          state.nextTask 8 parent =
        state.handles parent + (stage parent).own + (pending parent).isSome.toNat +
          live state.parentOf stage state.nextTask 8 parent := by
      have one : Stage.own (.completingParent thread : Stage Thread) = 1 := rfl
      have zero : (stage parent).own = 0 := by
        rw [waits]
        rfl
      omega
    have none : live state.parentOf (update (update stage task
        (.finishing thread)) parent (.completingParent thread)) state.nextTask 7 parent = 0 := by
      omega
    simp only [State.view, update_self, refs, none, waits]
    simp [Stage.rank]
  have heads : Heads (state.setHeader parent
      { header with atomicWord := header.atomicWord - continuationAdd })
      (state.view (update (update stage task (.finishing thread)) parent
        (.completingParent thread)) pending) := by
    refine inv.heads.set ?_ (by simp [found]) ?_ fun other notParent => ?_
    · rw [view_parent]
      refine ⟨⟨waiting, ?_⟩, refsFit, by simp, sameParent, sameCounter⟩
      have one : (state.view stage pending parent).continuations = 0 + 1 := alone
      rw [word, one, wordOf_sub_continuation]
    · rw [view_parent]
      have referenced : 0 < live state.parentOf stage state.nextTask 8 parent :=
        live_pos.mpr ⟨task, inside, isParent, by simp [held, Stage.rank]⟩
      simp only [State.view]
      omega
    · rw [Tree.view_other notParent fun _ => by simp [waits', Stage.rank]]
      by_cases same : other = task
      · rw [same, inv.tree.view_self]
        simp only [State.view, held]
        simp [Stage.own, Stage.rank]
      · refine Tree.view_other same fun isOther => ?_
        rw [isParent] at isOther
        exact absurd (Option.some.inj isOther).symm notParent
  have first := inv.advanceFrame task (.finishing thread) (.setFinished task) at_phase
    (by rw [held]; rfl) rfl rfl trivial
  have phases : (state.setPhase thread (.completing (.setFinished task :: rest))).phases thread =
      .completing (.setFinished task :: rest) := by
    simp [State.setPhase]
  have second := first.setPhase
    (.completing (.completeParent parent :: .setFinished task :: rest)) parent
    (.completingParent thread) [] [(parent, .completingParent thread)]
    ((task, .finishing thread) :: rest.map (Frame.claim thread))
    (by rw [phases]; exact List.Perm.refl _)
    (List.Perm.refl _) (Or.inl ⟨rfl, by rw [waits']; rfl⟩) (Or.inr ⟨rfl, rfl⟩) (by simp [waits'])
    (by simp) (by simp [phases]) (by simp) (by
      rintro stack same
      cases same
      refine ⟨by simp, fun frame mem => ?_⟩
      rcases List.mem_cons.mp mem with rfl | mem
      · trivial
      rcases List.mem_cons.mp mem with rfl | old
      · trivial
      · exact frames frame (List.mem_cons_of_mem _ old))
  have logs : Logs { state with signalled := task :: state.signalled }
      (update stage task (.finishing thread)) := by
    refine inv.logs.advance (inv.logs.returned.keep ?_) (inv.logs.checked.keep ?_)
      (inv.logs.signalled.add ?_ ?_) (inv.logs.finished.keep ?_) rfl rfl rfl ?_ ?_ <;>
      simp [held, Stage.rank]
  refine ⟨tree.keep rfl rfl fun _ _ => rfl, heads.keep rfl rfl rfl rfl fun _ => rfl,
    second.keep ?_ rfl rfl (fun _ _ same => same) (fun _ _ same => same), ?_⟩
  · simp [State.setPhase, State.setHeader]
  · refine logs.advance (logs.returned.keep ?_) (logs.checked.keep ?_)
      (logs.signalled.keep ?_) (logs.finished.keep ?_) rfl rfl rfl ?_ ?_ <;>
      simp [waits', Stage.rank]

theorem setFinished (inv : Inv state stage pending)
    (at_phase : state.phases thread = .completing (.setFinished task :: rest))
    (found : state.headers task = some header) :
    Inv { (state.setHeader task
        { header with atomicWord := header.atomicWord ||| finishedBit, parent := none }).setPhase
          thread (.completing (.releaseSelf task :: rest)) with
        finished := task :: state.finished }
      (update stage task (.releasing thread)) pending := by
  have held : stage task = .finishing thread :=
    inv.stage_eq (by rw [at_phase]; exact List.mem_cons_self)
  obtain ⟨header', found', ⟨waiting, word⟩, refsFit, continuationsFit, sameParent, sameCounter⟩ :=
    inv.header task (by simp [held, Stage.own, Stage.rank])
  rw [found] at found'
  cases found'
  have tree : Tree state (update stage task (.releasing thread)) pending :=
    inv.advanceTree (by simp [held, Stage.rank]) (by simp [held, Stage.rank]) (fun same => by cases same)
  have own : Stage.own (.releasing thread : Stage Thread) = (stage task).own := by
    rw [held]
    rfl
  have heads : Heads (state.setHeader task
      { header with atomicWord := header.atomicWord ||| finishedBit, parent := none })
      (state.view (update stage task (.releasing thread)) pending) := by
    refine inv.heads.set ?_ (by simp [found]) ?_ fun other notTask => ?_
    · rw [inv.tree.view_self, own]
      refine ⟨⟨waiting, ?_⟩, refsFit, continuationsFit, by simp [Stage.rank], sameCounter⟩
      rw [word, wordOf_or_finished refsFit continuationsFit]
      simp [State.view, Stage.rank]
    · rw [inv.tree.view_self]
      have released : Stage.own (.releasing thread : Stage Thread) = 1 := rfl
      simp only [released]
      omega
    · exact Tree.view_other notTask fun _ => by simp [held, Stage.rank]
  refine ⟨tree.keep rfl rfl fun _ _ => rfl, heads.keep rfl rfl rfl rfl fun _ => rfl,
    (inv.advanceFrame task (.releasing thread) (.releaseSelf task) at_phase (by rw [held]; rfl) rfl
      rfl trivial).keep rfl rfl rfl
      (fun _ _ same => same) (fun _ _ same => same), ?_⟩
  refine inv.logs.advance (inv.logs.returned.keep ?_) (inv.logs.checked.keep ?_)
    (inv.logs.signalled.keep ?_) (inv.logs.finished.add ?_ ?_) rfl rfl rfl ?_ ?_ <;>
    simp [held, Stage.rank]

theorem releaseSelf (inv : Inv state stage pending)
    (at_phase : state.phases thread = .completing (.releaseSelf task :: rest))
    (found : state.headers task = some header) :
    Inv ((state.releaseRef task).setPhase thread
        (.completing (.completeCounter task header.taskCounter :: rest)))
      (update stage task (.completing thread)) pending := by
  have held : stage task = .releasing thread :=
    inv.stage_eq (by rw [at_phase]; exact List.mem_cons_self)
  obtain ⟨header', found', -, -, -, -, sameCounter⟩ :=
    inv.header task (by simp [held, Stage.own, Stage.rank])
  rw [found] at found'
  cases found'
  have counter : state.counterOf task = some header.taskCounter := by
    obtain ⟨counter, is⟩ := Option.isSome_iff_exists.mp
      ((inv.logs.counted task).mpr (by simp [held, Stage.rank]))
    rw [is, sameCounter counter is]
  have tree : Tree state (update stage task (.completing thread)) pending :=
    inv.advanceTree (by simp [held, Stage.rank]) (by simp [held, Stage.rank]) (fun same => by cases same)
  have heads : Heads (state.releaseRef task)
      (state.view (update stage task (.completing thread)) pending) := by
    refine inv.heads.release (inv.born (by simp [held, Stage.rank])) ?_ ?_ ?_
      fun other notTask => ?_
    · rw [inv.tree.view_self]
      simp only [State.view, held]
      have released : Stage.own (.releasing thread : Stage Thread) = 1 := rfl
      have completed : Stage.own (.completing thread : Stage Thread) = 0 := rfl
      rw [released, completed]
      omega
    · rw [inv.tree.view_self]
      simp only [State.view, held]
      simp [Stage.rank]
    · intro _
      simp [State.view, held, Stage.rank]
    · exact Tree.view_other notTask fun _ => by simp [held, Stage.rank]
  have sched := inv.advanceFrame task (.completing thread)
    (.completeCounter task header.taskCounter) at_phase (by rw [held]; rfl) rfl rfl counter
  obtain ⟨headers, destroyed, faulted, eq⟩ := releaseRef_eq state task
  rw [eq] at heads ⊢
  refine ⟨tree.keep rfl rfl fun _ _ => rfl, heads.keep rfl rfl rfl rfl fun _ => rfl,
    sched.keep rfl rfl rfl (fun _ _ same => same) (fun _ _ same => same), ?_⟩
  refine inv.logs.advance (inv.logs.returned.keep ?_) (inv.logs.checked.keep ?_)
    (inv.logs.signalled.keep ?_) (inv.logs.finished.keep ?_) rfl rfl rfl ?_ ?_ <;>
    simp [held, Stage.rank]

end Inv

end Voxen.Svc.TaskService
