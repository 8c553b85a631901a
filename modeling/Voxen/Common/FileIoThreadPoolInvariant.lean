import Voxen.Common.FileIoThreadPoolWorkers

/-!
# States of the thread pool

What holds of all the workers and of the thread that uses the pool after any safe steps.
-/

namespace Voxen.FileIoThreadPool

namespace UserStep

/-- The pool is used, or its destructor has deleted nothing yet. -/
def Uses : UserStep → Prop
  | .deleteAll | .destroyed | .terminated => False
  | _ => True

/-- The workers before this one were told to exit by the destructor. -/
def toldTo (created : Nat) : UserStep → Nat
  | .exitLock index | .exitStore index _ => index
  | .exitNotify index _ => index + 1
  | .join _ | .deleteAll | .destroyed => created
  | _ => 0

/-- The threads before this one were joined. -/
def joinedTo (created : Nat) : UserStep → Nat
  | .join index => index
  | .deleteAll | .destroyed => created
  | _ => 0

/-- The worker that the destructor tells to exit is the one at its index. -/
def Placed : UserStep → Prop
  | .exitStore index worker | .exitNotify index worker => index = worker
  | _ => True

end UserStep

/-- What holds of the workers and of the user's thread between any two steps. -/
structure Inv (state : State) : Prop where
  worker : ∀ index < state.created, WorkerInv state.user index (state.workers index)
  unborn : ∀ index, state.created ≤ index → state.workers index = {}
  ended : ∀ index < state.created, (state.workers index).next = .finished →
    (state.workers index).isExit = true
  threads : state.threads = List.range state.threads.length
  size : state.threads.length ≤ state.created
  all : state.user.Uses → state.threads.length = state.created
  about : ∀ index, state.user.about = some index → index < state.created
  placed : state.user.Placed
  told : ∀ index < state.user.toldTo state.created, (state.workers index).isExit = true
  joined : ∀ index < state.user.joinedTo state.created, (state.workers index).joined = true
  deleted : ∀ index, (state.workers index).deleted = true →
    (state.workers index).joined = true ∧ (state.workers index).isExit = true
  alive : state.user ≠ .terminated

/-- The user's thread turns to a step that is about the same worker or about none, and only
then is the worker told to exit or joined. -/
structure Turned (created : Nat) (user user' : UserStep) (index : Nat) (worker' : Worker) :
    Prop where
  before : ∀ other, user.about = some other → other = index
  after : ∀ other, user'.about = some other → other = index
  uses : user.Uses ∨ ¬ user'.Uses
  placed : user'.Placed
  told : ∀ other < user'.toldTo created, other < user.toldTo created ∨
    other = index ∧ worker'.isExit = true
  joined : ∀ other < user'.joinedTo created, other < user.joinedTo created ∨
    other = index ∧ worker'.joined = true
  alive : user' ≠ .terminated

namespace Inv

variable {state state' : State} {index : Nat} {worker : Worker} {user : UserStep}

theorem start : Inv initial where
  worker index less := by
    have started : initial.workers index = .started true false [] := if_pos less
    rw [started]
    exact ⟨nofun, nofun, nofun, nofun, nofun, fun queue => absurd rfl queue, nofun⟩
  unborn index later := if_neg (Nat.not_lt.mpr later)
  ended index less ended := by
    have started : initial.workers index = .started true false [] := if_pos less
    rw [started] at ended
    cases ended
  threads := rfl
  size := Nat.le_refl 2
  all _ := rfl
  about := nofun
  placed := trivial
  told _ less := absurd less (Nat.not_lt_zero _)
  joined _ less := absurd less (Nat.not_lt_zero _)
  deleted index deleted := by
    change (if index < 2 then Worker.started true false [] else {}).deleted = true at deleted
    split at deleted <;> cases deleted
  alive := nofun

theorem thread_eq (inv : Inv state) {place : Nat} (found : state.threads[place]? = some index) :
    index = place ∧ index < state.created := by
  rw [inv.threads, List.getElem?_eq_some_iff] at found
  obtain ⟨less, rfl⟩ := found
  rw [List.length_range] at less
  rw [List.getElem_range]
  exact ⟨rfl, Nat.lt_of_lt_of_le less inv.size⟩

theorem thread_none (inv : Inv state) (uses : state.user.Uses) {place : Nat}
    (found : state.threads[place]? = none) : state.created ≤ place := by
  rw [← inv.all uses]
  exact List.getElem?_eq_none_iff.mp found

theorem turn (inv : Inv state) {user' : UserStep} (before : state.user.about = none)
    (after : user'.about = none) (uses : state.user.Uses ∨ ¬ user'.Uses)
    (placed : user'.Placed)
    (told : user'.toldTo state.created ≤ state.user.toldTo state.created)
    (joined : user'.joinedTo state.created ≤ state.user.joinedTo state.created)
    (alive : user' ≠ .terminated) : Inv { state with user := user' } :=
  { inv with
    worker := fun index less => (inv.worker index less).elsewhere
      (by rw [before]; nofun) (by rw [after]; nofun)
    all := fun uses' => inv.all (uses.resolve_right fun no => no uses')
    about := fun index same => by
      rw [show (UserStep.about user') = none from after] at same
      cases same
    placed := placed
    told := fun index less => inv.told index (Nat.lt_of_lt_of_le less told)
    joined := fun index less => inv.joined index (Nat.lt_of_lt_of_le less joined)
    alive := alive }

theorem update (inv : Inv state) {user' : UserStep} {worker' : Worker}
    (known : index < state.created)
    (changed : WorkerInv user' index worker')
    (ended : worker'.next = .finished → worker'.isExit = true)
    (exits : (state.workers index).isExit = true → worker'.isExit = true)
    (joins : (state.workers index).joined = true → worker'.joined = true)
    (deleted : worker'.deleted = true → worker'.joined = true ∧ worker'.isExit = true)
    (turned : user' = state.user ∨ Turned state.created state.user user' index worker') :
    Inv { state.setWorker index worker' with user := user' } := by
  have self : Function.update state.workers index worker' index = worker' :=
    Function.update_self _ _ _
  have others : ∀ other, other ≠ index →
      Function.update state.workers index worker' other = state.workers other :=
    fun other apart => Function.update_of_ne apart _ _
  have exitsAll : ∀ other, (state.workers other).isExit = true →
      (Function.update state.workers index worker' other).isExit = true := by
    intro other exit
    by_cases same : other = index
    · subst same
      rw [self]
      exact exits exit
    · rw [others other same]
      exact exit
  have joinsAll : ∀ other, (state.workers other).joined = true →
      (Function.update state.workers index worker' other).joined = true := by
    intro other join
    by_cases same : other = index
    · subst same
      rw [self]
      exact joins join
    · rw [others other same]
      exact join
  refine
    { threads := inv.threads
      size := inv.size
      worker := fun other less => ?_
      unborn := fun other later => ?_
      ended := fun other less finished => ?_
      all := fun uses => ?_
      about := fun other about => ?_
      placed := ?_
      told := fun other less => ?_
      joined := fun other less => ?_
      deleted := fun other gone => ?_
      alive := ?_ }
  · change WorkerInv user' other (Function.update state.workers index worker' other)
    by_cases same : other = index
    · subst same
      rw [self]
      exact changed
    · rw [others other same]
      rcases turned with rfl | turned
      · exact inv.worker other less
      · exact (inv.worker other less).elsewhere (fun about => same (turned.before other about))
          (fun about => same (turned.after other about))
  · change Function.update state.workers index worker' other = {}
    rw [others other (by rintro rfl; exact absurd known (Nat.not_lt.mpr later))]
    exact inv.unborn other later
  · change (Function.update state.workers index worker' other).next = .finished at finished
    change (Function.update state.workers index worker' other).isExit = true
    by_cases same : other = index
    · subst same
      rw [self] at finished ⊢
      exact ended finished
    · rw [others other same] at finished ⊢
      exact inv.ended other less finished
  · rcases turned with rfl | turned
    · exact inv.all uses
    · exact inv.all (turned.uses.resolve_right fun no => no uses)
  · rcases turned with rfl | turned
    · exact inv.about other about
    · rw [turned.after other about]
      exact known
  · rcases turned with rfl | turned
    · exact inv.placed
    · exact turned.placed
  · change (Function.update state.workers index worker' other).isExit = true
    rcases turned with rfl | turned
    · exact exitsAll other (inv.told other less)
    · rcases turned.told other less with before | ⟨rfl, exit⟩
      · exact exitsAll other (inv.told other before)
      · rw [self]
        exact exit
  · change (Function.update state.workers index worker' other).joined = true
    rcases turned with rfl | turned
    · exact joinsAll other (inv.joined other less)
    · rcases turned.joined other less with before | ⟨rfl, join⟩
      · exact joinsAll other (inv.joined other before)
      · rw [self]
        exact join
  · change (Function.update state.workers index worker' other).deleted = true at gone
    by_cases same : other = index
    · subst same
      change (Function.update state.workers other worker' other).joined = true ∧
        (Function.update state.workers other worker' other).isExit = true
      rw [self] at gone ⊢
      exact deleted gone
    · rw [others other same] at gone
      exact ⟨joinsAll other (inv.deleted other gone).1, exitsAll other (inv.deleted other gone).2⟩
  · rcases turned with rfl | turned
    · exact inv.alive
    · exact turned.alive

theorem startWorker (inv : Inv state) {task place : Nat}
    (step : state.user = .findWorker task place) :
    Inv { state.setWorker state.created
        (.started (decide (state.threads.length < 2)) true [task]) with
      threads := state.threads ++ [state.created]
      created := state.created + 1
      user := .outside } := by
  have all : state.threads.length = state.created := inv.all (by rw [step]; trivial)
  have others : ∀ other < state.created, ∀ worker,
      Function.update state.workers state.created worker other = state.workers other :=
    fun other less worker => Function.update_of_ne (Nat.ne_of_lt less) _ _
  have self : ∀ worker, Function.update state.workers state.created worker state.created =
      worker := fun worker => Function.update_self _ _ _
  have cases : ∀ other < state.created + 1, other < state.created ∨ other = state.created :=
    fun other less => Nat.lt_succ_iff_lt_or_eq.mp less
  refine
    { worker := fun other less => ?_
      unborn := fun other later => ?_
      ended := fun other less finished => ?_
      threads := ?_
      size := ?_
      all := fun _ => ?_
      about := nofun
      placed := trivial
      told := fun other less => absurd less (Nat.not_lt_zero _)
      joined := fun other less => absurd less (Nat.not_lt_zero _)
      deleted := fun other gone => ?_
      alive := nofun }
  · change WorkerInv .outside other (Function.update state.workers state.created _ other)
    rcases cases other less with before | rfl
    · rw [others other before]
      exact (inv.worker other before).elsewhere (by rw [step]; nofun) nofun
    · rw [self]
      exact .started _ _
  · change Function.update state.workers state.created _ other = {}
    rw [Function.update_of_ne (Nat.ne_of_gt (Nat.lt_of_succ_le later))]
    exact inv.unborn other (Nat.le_of_succ_le later)
  · change (Function.update state.workers state.created _ other).next = .finished at finished
    change (Function.update state.workers state.created _ other).isExit = true
    rcases cases other less with before | rfl
    · rw [others other before] at finished ⊢
      exact inv.ended other before finished
    · rw [self] at finished
      cases finished
  · change state.threads ++ [state.created] =
      List.range (state.threads ++ [state.created]).length
    rw [List.length_append, List.length_singleton, List.range_succ, ← inv.threads, all]
  · change (state.threads ++ [state.created]).length ≤ state.created + 1
    exact Nat.le_of_eq (by rw [List.length_append, List.length_singleton, all])
  · change (state.threads ++ [state.created]).length = state.created + 1
    rw [List.length_append, List.length_singleton, all]
  · change (Function.update state.workers state.created _ other).deleted = true at gone
    change (Function.update state.workers state.created _ other).joined = true ∧
      (Function.update state.workers state.created _ other).isExit = true
    by_cases same : other = state.created
    · subst same
      rw [self] at gone
      cases gone
    · rw [Function.update_of_ne same] at gone ⊢
      exact inv.deleted other gone

theorem deleteLast (inv : Inv state) (step : state.user = .deleteAll)
    (last : state.threads.getLast? = some index) :
    Inv (state.deleteWorker index state.threads.dropLast .deleteAll) := by
  have mem : index ∈ List.range state.threads.length := by
    rw [← inv.threads]
    exact List.mem_of_getLast? last
  have known : index < state.created :=
    Nat.lt_of_lt_of_le (List.mem_range.mp mem) inv.size
  have joined := inv.joined index (by rw [step]; exact known)
  have exits := inv.told index (by rw [step]; exact known)
  have changed : WorkerInv state.user index { state.workers index with deleted := true } :=
    { inv.worker index known with }
  have base := inv.update known changed (inv.ended index known) id id (fun _ => ⟨joined, exits⟩)
    (.inl rfl)
  have user : (if (state.workers index).joined then .deleteAll else .terminated) = state.user := by
    rw [if_pos joined, step]
  have shorter : state.threads.dropLast = List.range (state.threads.length - 1) := by
    rw [inv.threads, List.length_range]
    cases state.threads.length with
    | zero => rfl
    | succ length => rw [List.range_succ, List.dropLast_concat, Nat.add_sub_cancel]
  unfold State.deleteWorker
  rw [user]
  exact { base with
    threads := by
      change state.threads.dropLast = List.range state.threads.dropLast.length
      rw [List.length_dropLast, shorter]
    size := by
      change state.threads.dropLast.length ≤ state.created
      rw [List.length_dropLast]
      exact Nat.le_trans (Nat.sub_le _ _) inv.size
    all := fun uses => by
      change state.user.Uses at uses
      rw [step] at uses
      exact uses.elim }

/-- A worker is notified; the notifier may hold its semaphore mutex, and unlocks it then. -/
theorem notified (inv : Inv state) {user' : UserStep} (mutex : Option Holder)
    (known : index < state.created)
    (changed : WorkerInv user' index
      { (state.workers index).notifyOne with semaphoreMutex := mutex })
    (turned : Turned state.created state.user user' index
      { (state.workers index).notifyOne with semaphoreMutex := mutex }) :
    Inv { state.setWorker index
        { (state.workers index).notifyOne with semaphoreMutex := mutex } with
      user := user' } := by
  have same := WorkerInv.notifyOne_eq (state.workers index)
  refine inv.update known changed (fun ended => ?_) (fun exits => ?_) (fun joins => ?_)
    (fun gone => ?_) (.inr turned)
  · rw [same]
    change (state.workers index).notifyOne.next = .finished at ended
    rw [WorkerInv.notifyOne_next] at ended
    split at ended
    · cases ended
    · exact inv.ended index known ended
  · rw [same]
    exact exits
  · rw [same]
    exact joins
  · rw [same] at gone ⊢
    exact inv.deleted index gone

/-! ## Steps of the user's thread -/

section UserSteps

variable {task place : Nat}

theorem cleanUp (inv : Inv state) (safe : StepSafe state .user)
    (step : state.user = .cleanUp task place) (advanced : state.advanceUser = some state') :
    Inv state' := by
  unfold State.advanceUser at advanced
  unfold StepSafe at safe
  simp only [step] at advanced safe
  have ready : ∀ next : UserStep, next.about = none → next.Placed →
      (next.toldTo state.created = 0) → next.joinedTo state.created = 0 →
      next ≠ .terminated → Inv { state with user := next } :=
    fun next about placed told joined alive =>
      inv.turn (by rw [step]; rfl) about (.inl (by rw [step]; trivial)) placed
        (by rw [told]; exact Nat.zero_le _) (by rw [joined]; exact Nat.zero_le _) alive
  cases found : state.threads[place]? with
  | none =>
    simp only [found, Option.some.injEq] at advanced
    subst advanced
    exact ready _ rfl trivial rfl rfl nofun
  | some worker =>
    simp only [found] at advanced
    rw [if_neg (by rw [safe worker found]; nofun)] at advanced
    cases advanced
    exact ready _ rfl trivial rfl rfl nofun

/-- The user locks the state of the worker at a place, or starts a new one. -/
theorem findWorker (inv : Inv state) (step : state.user = .findWorker task place)
    (advanced : state.advanceUser = some state') : Inv state' := by
  unfold State.advanceUser at advanced
  simp only [step] at advanced
  cases found : state.threads[place]? with
  | none =>
    simp only [found, Option.some.injEq] at advanced
    subst advanced
    exact inv.startWorker step
  | some worker =>
    simp only [found] at advanced
    split at advanced
    · cases advanced
      have known := (inv.thread_eq found).2
      have changed := inv.worker worker known
      rw [step] at changed
      exact inv.update known changed.lockState (inv.ended worker known) id id
        (inv.deleted worker) (.inr
          { before := by rw [step]; nofun
            after := by rintro other ⟨⟩; rfl
            uses := .inl (by rw [step]; trivial)
            placed := trivial
            told := nofun
            joined := nofun
            alive := nofun })
    · cases advanced

theorem testHasTask (inv : Inv state) (safe : StepSafe state .user) {worker : Nat}
    (step : state.user = .testHasTask task place worker)
    (advanced : state.advanceUser = some state') : Inv state' := by
  unfold State.advanceUser at advanced
  unfold StepSafe at safe
  simp only [step] at advanced safe
  have known := inv.about worker (by rw [step]; rfl)
  have changed := inv.worker worker known
  rw [step] at changed
  split at advanced
  · cases advanced
    exact inv.update known changed.keepsTask (inv.ended worker known) id id
      (inv.deleted worker) (.inr
        { before := by rw [step]; rintro other ⟨⟩; rfl
          after := nofun
          uses := .inl (by rw [step]; trivial)
          placed := trivial
          told := nofun
          joined := nofun
          alive := nofun })
  · rename_i free
    cases advanced
    exact inv.update known
      (changed.handOver (inv.ended worker known) (Bool.eq_false_iff.mpr free)
        (safe.resolve_left free))
      (inv.ended worker known) id id (inv.deleted worker) (.inr
        { before := by rw [step]; rintro other ⟨⟩; rfl
          after := by rintro other ⟨⟩; rfl
          uses := .inl (by rw [step]; trivial)
          placed := trivial
          told := nofun
          joined := nofun
          alive := nofun })

theorem notify (inv : Inv state) (safe : StepSafe state .user) {worker : Nat}
    (step : state.user = .notify worker) (advanced : state.advanceUser = some state') :
    Inv state' := by
  unfold State.advanceUser at advanced
  unfold StepSafe at safe
  simp only [step, Option.some.injEq] at advanced safe
  subst advanced
  have known := inv.about worker (by rw [step]; rfl)
  have changed := inv.worker worker known
  rw [step] at changed
  exact inv.notified (state.workers worker).notifyOne.semaphoreMutex known (changed.notify safe)
    { before := by rw [step]; rintro other ⟨⟩; rfl
      after := nofun
      uses := .inl (by rw [step]; trivial)
      placed := trivial
      told := nofun
      joined := nofun
      alive := nofun }

theorem exitLock (inv : Inv state) (safe : StepSafe state .user)
    (step : state.user = .exitLock place) (advanced : state.advanceUser = some state') :
    Inv state' := by
  unfold State.advanceUser at advanced
  unfold StepSafe at safe
  simp only [step] at advanced safe
  cases found : state.threads[place]? with
  | none =>
    simp only [found, Option.some.injEq] at advanced
    subst advanced
    exact inv.turn (by rw [step]; rfl) rfl (.inl (by rw [step]; trivial)) trivial
      (by rw [step]; exact inv.thread_none (by rw [step]; trivial) found)
      (Nat.zero_le _) nofun
  | some worker =>
    simp only [found] at advanced
    split at advanced
    · cases advanced
      obtain ⟨rfl, known⟩ := inv.thread_eq found
      have changed := inv.worker worker known
      rw [step] at changed
      exact inv.update known (changed.exitLock (safe worker found)) (inv.ended worker known)
        id id (inv.deleted worker) (.inr
          { before := by rw [step]; nofun
            after := by rintro other ⟨⟩; rfl
            uses := .inl (by rw [step]; trivial)
            placed := rfl
            told := fun other less => .inl (by rw [step]; exact less)
            joined := nofun
            alive := nofun })
    · cases advanced

theorem exitStore (inv : Inv state) {worker : Nat}
    (step : state.user = .exitStore place worker) (advanced : state.advanceUser = some state') :
    Inv state' := by
  unfold State.advanceUser at advanced
  simp only [step, Option.some.injEq] at advanced
  subst advanced
  have known := inv.about worker (by rw [step]; rfl)
  have changed := inv.worker worker known
  have placed := inv.placed
  rw [step] at changed placed
  cases placed
  exact inv.update known changed.exitStore (fun _ => rfl) (fun _ => rfl) id
    (fun gone => ⟨(inv.deleted _ gone).1, rfl⟩) (.inr
      { before := by rw [step]; rintro other ⟨⟩; rfl
        after := by rintro other ⟨⟩; rfl
        uses := .inl (by rw [step]; trivial)
        placed := rfl
        told := fun other less => by
          rw [step]
          exact (Nat.lt_succ_iff_lt_or_eq.mp less).imp_right fun same => ⟨same, rfl⟩
        joined := nofun
        alive := nofun })

theorem exitNotify (inv : Inv state) {worker : Nat}
    (step : state.user = .exitNotify place worker) (advanced : state.advanceUser = some state') :
    Inv state' := by
  unfold State.advanceUser at advanced
  simp only [step, Option.some.injEq] at advanced
  subst advanced
  have known := inv.about worker (by rw [step]; rfl)
  have changed := inv.worker worker known
  have placed := inv.placed
  have exits := inv.told worker (by
    rw [step] at placed ⊢
    cases placed
    exact Nat.lt_succ_self _)
  rw [step] at changed placed
  cases placed
  have turned : Turned state.created state.user (.exitLock (place + 1)) place
      { (state.workers place).notifyOne with semaphoreMutex := none } :=
    { before := by rw [step]; rintro other ⟨⟩; rfl
      after := nofun
      uses := .inl (by rw [step]; trivial)
      placed := trivial
      told := fun other less => .inl (by rw [step]; exact less)
      joined := nofun
      alive := nofun }
  exact inv.notified none known (changed.exitNotify exits) turned

theorem join (inv : Inv state) (step : state.user = .join place)
    (advanced : state.advanceUser = some state') : Inv state' := by
  unfold State.advanceUser at advanced
  simp only [step] at advanced
  cases found : state.threads[place]? with
  | none =>
    simp only [found, Option.some.injEq] at advanced
    subst advanced
    have beyond := inv.thread_none (by rw [step]; trivial) found
    exact inv.turn (by rw [step]; rfl) rfl (.inr id) trivial
      (by rw [step]; exact Nat.le_refl _) (by rw [step]; exact beyond) nofun
  | some worker =>
    simp only [found] at advanced
    split at advanced
    · cases advanced
      obtain ⟨rfl, known⟩ := inv.thread_eq found
      have moved : WorkerInv (.join (worker + 1)) worker (state.workers worker) :=
        (inv.worker worker known).elsewhere (by rw [step]; nofun) nofun
      have changed : WorkerInv (.join (worker + 1)) worker
          { state.workers worker with joined := true } := { moved with }
      exact inv.update known changed (inv.ended worker known) id (fun _ => rfl)
        (fun gone => ⟨rfl, (inv.deleted worker gone).2⟩) (.inr
          { before := by rw [step]; nofun
            after := nofun
            uses := .inl (by rw [step]; trivial)
            placed := trivial
            told := fun other less => .inl (by rw [step]; exact less)
            joined := fun other less => by
              rw [step]
              exact (Nat.lt_succ_iff_lt_or_eq.mp less).imp_right fun same => ⟨same, rfl⟩
            alive := nofun })
    · cases advanced

theorem deleteAll (inv : Inv state) (step : state.user = .deleteAll)
    (advanced : state.advanceUser = some state') : Inv state' := by
  unfold State.advanceUser at advanced
  simp only [step] at advanced
  cases last : state.threads.getLast? with
  | none =>
    simp only [last, Option.some.injEq] at advanced
    subst advanced
    exact inv.turn (by rw [step]; rfl) rfl (.inr id) trivial
      (by rw [step]; exact Nat.le_refl _) (by rw [step]; exact Nat.le_refl _) nofun
  | some worker =>
    simp only [last, Option.some.injEq] at advanced
    subst advanced
    exact inv.deleteLast step last

end UserSteps

theorem advanceUser (inv : Inv state) (safe : StepSafe state .user)
    (advanced : state.advanceUser = some state') : Inv state' := by
  cases step : state.user with
  | cleanUp task place => exact inv.cleanUp safe step advanced
  | findWorker task place => exact inv.findWorker step advanced
  | testHasTask task place worker => exact inv.testHasTask safe step advanced
  | notify worker => exact inv.notify safe step advanced
  | exitLock place => exact inv.exitLock safe step advanced
  | exitStore place worker => exact inv.exitStore step advanced
  | exitNotify place worker => exact inv.exitNotify step advanced
  | join place => exact inv.join step advanced
  | deleteAll => exact inv.deleteAll step advanced
  | outside | destroyed | terminated =>
    -- no step is possible
    unfold State.advanceUser at advanced
    simp [step] at advanced

theorem advanceWorker (inv : Inv state) (advanced : state.advanceWorker index = some state') :
    Inv state' := by
  unfold State.advanceWorker at advanced
  rw [if_neg inv.alive, Option.map_eq_some_iff] at advanced
  obtain ⟨⟨worker', done⟩, moved, rfl⟩ := advanced
  have known : index < state.created := by
    apply Classical.byContradiction
    intro unknown
    rw [inv.unborn index (Nat.not_lt.mp unknown)] at moved
    cases moved
  obtain ⟨exits, joins, deleted, ended⟩ := Worker.advance_keeps moved
  have base := inv.update known ((inv.worker index known).advance moved) ended exits
    (fun join => joins.trans join) (fun gone => by
      obtain ⟨join, exit⟩ := inv.deleted index (deleted.symm.trans gone)
      exact ⟨joins.trans join, exits exit⟩) (.inl rfl)
  exact { base with }

theorem endWait (inv : Inv state) {ended : Option Worker} (next : WorkerStep)
    (goesOn : next ≠ .finished)
    (ends : ∀ worker', ended = some worker' → (state.workers index).next = .waiting ∧
      worker' = { state.workers index with next })
    (changed : (state.workers index).next = .waiting →
      WorkerInv state.user index (state.workers index) →
      WorkerInv state.user index { state.workers index with next })
    (done : state.endWait index ended = some state') : Inv state' := by
  unfold State.endWait at done
  rw [if_neg inv.alive, Option.map_eq_some_iff] at done
  obtain ⟨worker', same, rfl⟩ := done
  obtain ⟨waits, rfl⟩ := ends worker' same
  have known : index < state.created := by
    apply Classical.byContradiction
    intro unknown
    rw [inv.unborn index (Nat.not_lt.mp unknown)] at waits
    cases waits
  have base := inv.update known (changed waits (inv.worker index known))
    (fun ended => absurd ended goesOn) id id (inv.deleted index) (.inl rfl)
  exact { base with }

theorem step (inv : Inv state) {action : Action} (safe : StepSafe state action)
    (stepped : step state action = some state') : Inv state' := by
  cases action with
  | enqueueTask =>
    unfold FileIoThreadPool.step at stepped
    dsimp only at stepped
    split at stepped
    · rename_i outside
      cases stepped
      have base : Inv { state with user := .cleanUp state.passed 0 } :=
        inv.turn (by rw [outside]; rfl) rfl (.inl (by rw [outside]; trivial)) trivial
          (Nat.zero_le _) (Nat.zero_le _) nofun
      exact { base with }
    · cases stepped
  | destroy =>
    unfold FileIoThreadPool.step at stepped
    dsimp only at stepped
    split at stepped
    · rename_i outside
      cases stepped
      exact inv.turn (by rw [outside]; rfl) rfl (.inl (by rw [outside]; trivial)) trivial
        (Nat.zero_le _) (Nat.zero_le _) nofun
    · cases stepped
  | user => exact inv.advanceUser safe stepped
  | worker index => exact inv.advanceWorker stepped
  | timeOut index =>
    exact inv.endWait .relockTimedOut nofun (fun _ ended => Worker.timeOut_some ended)
      (fun waits changed => changed.timeOut safe waits) stepped
  | wakeUp index =>
    exact inv.endWait .relock nofun (fun _ ended => Worker.wakeUp_some ended)
      (fun waits changed => changed.wakeUp waits) stepped

end Inv

end Voxen.FileIoThreadPool
