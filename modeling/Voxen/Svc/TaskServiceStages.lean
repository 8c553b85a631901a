import Voxen.Svc.TaskService

/-!
# Stages of a task

Every task goes through the same stages, and in most of them one thread is
responsible for it.  What the threads are doing and how far the tasks have come
are two views of one state.
-/

namespace Voxen.Svc.TaskService

open Function (update update_of_ne update_self)

/-- How far a task has come, and the thread that takes it further. -/
inductive Stage (Thread : Type) where
  | unborn
  | building (thread : Thread)
  | queued
  | held (thread : Thread)
  | running (thread : Thread)
  | returned (thread : Thread)
  | awaiting
  | completingParent (thread : Thread)
  | releasingParent (thread : Thread)
  | finishing (thread : Thread)
  | releasing (thread : Thread)
  | completing (thread : Thread)
  | completed

namespace Stage

variable {Thread : Type}

def rank : Stage Thread → Nat
  | unborn => 0
  | building _ => 1
  | queued => 2
  | held _ => 3
  | running _ => 4
  | returned _ => 5
  | awaiting => 6
  | completingParent _ => 7
  | releasingParent _ => 8
  | finishing _ => 9
  | releasing _ => 10
  | completing _ => 11
  | completed => 12

def thread : Stage Thread → Option Thread
  | unborn | queued | awaiting | completed => none
  | building thread | held thread | running thread | returned thread
  | completingParent thread | releasingParent thread | finishing thread
  | releasing thread | completing thread => some thread

theorem eq_unborn {stage : Stage Thread} (zero : stage.rank = 0) : stage = unborn := by
  cases stage <;> first | rfl | cases zero

theorem eq_awaiting {stage : Stage Thread} (six : stage.rank = 6) : stage = awaiting := by
  cases stage <;> first | rfl | cases six

end Stage

variable {Thread : Type}

/-! ## What the threads are responsible for -/

def Frame.claim (thread : Thread) : Frame → Task × Stage Thread
  | .completeParent task => (task, .completingParent thread)
  | .releaseParent task _ => (task, .releasingParent thread)
  | .setFinished task => (task, .finishing thread)
  | .releaseSelf task => (task, .releasing thread)
  | .completeCounter task _ => (task, .completing thread)

def Phase.claims (thread : Thread) : Phase → List (Task × Stage Thread)
  | .idle => []
  | .attempt task => [(task, .held thread)]
  | .running task none => [(task, .running thread)]
  | .running task (some building) => [(building, .building thread), (task, .running thread)]
  | .resuming task => [(task, .held thread)]
  | .check task => [(task, .returned thread)]
  | .reset _ => []
  | .completing stack => stack.map (Frame.claim thread)

/-- The tasks a thread is responsible for, with their stages. -/
def State.claims (state : State Thread) (thread : Thread) : List (Task × Stage Thread) :=
  (state.phases thread).claims thread ++
    (state.waiting thread).map fun task => (task, Stage.held thread)

/-- The claims of the threads are the stages of the tasks that need a thread. -/
structure Agree (claims : Thread → List (Task × Stage Thread)) (stage : Task → Stage Thread) :
    Prop where
  thread : ∀ thread task claim, (task, claim) ∈ claims thread → claim.thread = some thread
  claimed : ∀ thread task claim, (task, claim) ∈ claims thread → stage task = claim
  distinct : ∀ thread, ((claims thread).map Prod.fst).Nodup
  owned : ∀ task thread, (stage task).thread = some thread →
    task ∈ (claims thread).map Prod.fst

namespace Agree

variable {claims claims' : Thread → List (Task × Stage Thread)} {stage : Task → Stage Thread}

theorem perm (agree : Agree claims stage)
    (same : ∀ thread, (claims' thread).Perm (claims thread)) : Agree claims' stage := by
  refine ⟨fun thread task claim mem => ?_, fun thread task claim mem => ?_, fun thread => ?_,
    fun task thread owns => ?_⟩
  · exact agree.thread thread task claim ((same thread).mem_iff.mp mem)
  · exact agree.claimed thread task claim ((same thread).mem_iff.mp mem)
  · exact ((same thread).map Prod.fst).nodup_iff.mpr (agree.distinct thread)
  · exact ((same thread).map Prod.fst).mem_iff.mpr (agree.owned task thread owns)

theorem pass (agree : Agree claims stage) {task : Task} (free : (stage task).thread = none)
    {next : Stage Thread} (stillFree : next.thread = none)
    (same : ∀ thread, (claims' thread).Perm (claims thread)) :
    Agree claims' (update stage task next) := by
  refine Agree.perm ⟨agree.thread, fun thread other claim mem => ?_, agree.distinct,
    fun other thread owns => ?_⟩ same
  · by_cases same : other = task
    · have claimThread := agree.thread thread other claim mem
      rw [← agree.claimed thread other claim mem, same, free] at claimThread
      cases claimThread
    · rw [update_of_ne same]
      exact agree.claimed thread other claim mem
  · by_cases same : other = task
    · rw [same, update_self, stillFree] at owns
      cases owns
    · rw [update_of_ne same] at owns
      exact agree.owned other thread owns

/-- A thread changes the stage of one task; it claims the task before, after, or
both times. -/
theorem step (agree : Agree claims stage) {thread : Thread} {task : Task} {next : Stage Thread}
    {before after rest : List (Task × Stage Thread)}
    (others : ∀ other, other ≠ thread → claims' other = claims other)
    (old : (claims thread).Perm (before ++ rest)) (new : (claims' thread).Perm (after ++ rest))
    (had : before = [] ∧ (stage task).thread = none ∨ before = [(task, stage task)])
    (has : after = [] ∧ next.thread = none ∨
      after = [(task, next)] ∧ next.thread = some thread) :
    Agree claims' (update stage task next) := by
  have taskThread : (stage task).thread = none ∨ (stage task).thread = some thread := by
    rcases had with ⟨-, free⟩ | rfl
    · exact Or.inl free
    · exact Or.inr (agree.thread thread task _ (old.mem_iff.mpr List.mem_cons_self))
  have restOld : ∀ {other claim}, (other, claim) ∈ rest →
      (other, claim) ∈ claims thread ∧ other ≠ task := by
    intro other claim mem
    have inOld := old.mem_iff.mpr (List.mem_append_right before mem)
    refine ⟨inOld, ?_⟩
    rintro rfl
    rcases had with ⟨-, free⟩ | rfl
    · have claimThread := agree.thread thread other claim inOld
      rw [← agree.claimed thread other claim inOld, free] at claimThread
      cases claimThread
    · have distinct := (old.map Prod.fst).nodup_iff.mp (agree.distinct thread)
      exact (List.nodup_cons.mp distinct).1 (List.mem_map.mpr ⟨_, mem, rfl⟩)
  have elsewhere : ∀ {other}, other ≠ thread → ∀ {task' claim}, (task', claim) ∈ claims other →
      task' ≠ task := by
    intro other differ task' claim mem same
    have claimThread := agree.thread other task' claim mem
    rw [← agree.claimed other task' claim mem, same] at claimThread
    rcases taskThread with free | own
    · rw [free] at claimThread
      cases claimThread
    · rw [own] at claimThread
      exact differ (Option.some.inj claimThread).symm
  have inNew : ∀ {other claim}, (other, claim) ∈ claims' thread →
      (other, claim) ∈ rest ∨ other = task ∧ claim = next ∧ next.thread = some thread := by
    intro other claim mem
    rcases List.mem_append.mp (new.mem_iff.mp mem) with inAfter | inRest
    · rcases has with ⟨rfl, -⟩ | ⟨rfl, own⟩
      · cases inAfter
      · cases List.mem_singleton.mp inAfter
        exact Or.inr ⟨rfl, rfl, own⟩
    · exact Or.inl inRest
  refine ⟨fun other task' claim mem => ?_, fun other task' claim mem => ?_, fun other => ?_,
    fun task' other owns => ?_⟩
  · by_cases same : other = thread
    · rw [same] at mem ⊢
      rcases inNew mem with inRest | ⟨-, rfl, own⟩
      · exact agree.thread thread task' claim (restOld inRest).1
      · exact own
    · rw [others other same] at mem
      exact agree.thread other task' claim mem
  · by_cases same : other = thread
    · rw [same] at mem
      rcases inNew mem with inRest | ⟨rfl, rfl, -⟩
      · rw [update_of_ne (restOld inRest).2]
        exact agree.claimed thread task' claim (restOld inRest).1
      · exact update_self ..
    · rw [others other same] at mem
      rw [update_of_ne (elsewhere same mem)]
      exact agree.claimed other task' claim mem
  · by_cases same : other = thread
    · rw [same, (new.map Prod.fst).nodup_iff]
      have distinct := (old.map Prod.fst).nodup_iff.mp (agree.distinct thread)
      rw [List.map_append] at distinct
      have restDistinct := (List.nodup_append.mp distinct).2.1
      rcases has with ⟨rfl, -⟩ | ⟨rfl, -⟩
      · exact restDistinct
      · refine List.nodup_cons.mpr ⟨fun mem => ?_, restDistinct⟩
        obtain ⟨⟨other, claim⟩, inRest, rfl⟩ := List.mem_map.mp mem
        exact (restOld inRest).2 rfl
    · rw [others other same]
      exact agree.distinct other
  · by_cases sameTask : task' = task
    · rw [sameTask, update_self] at owns
      rcases has with ⟨-, free⟩ | ⟨rfl, own⟩
      · rw [free] at owns
        cases owns
      · rw [own] at owns
        cases owns
        rw [sameTask, (new.map Prod.fst).mem_iff]
        exact List.mem_cons_self
    · rw [update_of_ne sameTask] at owns
      have mem := agree.owned task' other owns
      by_cases same : other = thread
      · rw [same] at mem ⊢
        rw [(new.map Prod.fst).mem_iff, List.map_append, List.mem_append]
        rw [(old.map Prod.fst).mem_iff, List.map_append, List.mem_append] at mem
        rcases mem with inBefore | inRest
        · rcases had with ⟨rfl, -⟩ | rfl
          · cases inBefore
          · exact absurd (List.mem_singleton.mp inBefore) sameTask
        · exact Or.inr inRest
      · rw [others other same]
        exact mem

end Agree

/-! ## Histories -/

/-- The list holds the tasks that have come as far as the given rank, once each. -/
def LogsFrom (log : List Task) (rank : Nat) (stage : Task → Stage Thread) : Prop :=
  log.Nodup ∧ ∀ task, task ∈ log ↔ rank ≤ (stage task).rank

namespace LogsFrom

variable {log : List Task} {rank : Nat} {stage : Task → Stage Thread} {task : Task}
  {next : Stage Thread}

theorem keep (logs : LogsFrom log rank stage)
    (same : rank ≤ next.rank ↔ rank ≤ (stage task).rank) :
    LogsFrom log rank (update stage task next) := by
  refine ⟨logs.1, fun other => ?_⟩
  rw [logs.2 other]
  by_cases equal : other = task
  · rw [equal, update_self, same]
  · rw [update_of_ne equal]

theorem add (logs : LogsFrom log rank stage) (before : (stage task).rank < rank)
    (after : rank ≤ next.rank) :
    LogsFrom (task :: log) rank (update stage task next) := by
  refine ⟨List.nodup_cons.mpr ⟨fun mem => ?_, logs.1⟩, fun other => ?_⟩
  · exact absurd ((logs.2 task).mp mem) (Nat.not_le.mpr before)
  · by_cases equal : other = task
    · rw [equal, update_self]
      exact iff_of_true List.mem_cons_self after
    · rw [update_of_ne equal, List.mem_cons, logs.2 other]
      exact or_iff_right equal

end LogsFrom

end Voxen.Svc.TaskService
