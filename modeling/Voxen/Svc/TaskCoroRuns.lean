import Voxen.Lib.Runs
import Voxen.Svc.TaskCoroSteps

/-!
# Stepping a coroutine task is calling it

However often the slave loop tries a coroutine task, what the task has done is the
beginning of what the nested calls do, and the rest is left on its await stack.
-/

namespace Voxen.Svc.TaskCoro

variable {A E V : Type}

namespace Machine

/-! ## Unwinding the stack -/

variable {call rest : List (Event A) × Except E V} {events : List (Event A)}
  {machine : Machine A E V} {object : BitVec 64 → V} {address : Nat} {body : Body A E V}

theorem unwind_waiting {next : Except E V → Body A E V} {awaiters inner : List (Awaiter A E V)}
    {top : Nat} {counter : BitVec 64} {next' : V → Body A E V}
    (stack : Waiting machine.subTasks true none (awaiters ++ inner) top counter next')
    (head : headOf inner top = address) (isTop : machine.subTaskStackTop = some top)
    (blocked : machine.blockedOnCounter = counter) (inside : top < machine.freeAddress)
    (rest : call = TaskCoro.after events
      (returnThrough object inner (pending object counter next')))
    (base : machine.point = .awaitSubTask (headOf awaiters address) next)
    (go : Machine A E V → Option (Machine A E V)) :
    machine.unwind go address = some machine ∧
      RanBase object (andThen object next (returnThrough object awaiters call)) events machine := by
  obtain ⟨first, isFirst, notDone, -, -⟩ := stack.drop.head
  rw [head] at isFirst
  constructor
  · unfold unwind
    rw [isFirst]
    simp only [Option.bind_eq_bind, Option.bind_some, Option.pure_def]
  · refine Or.inr ⟨_, .subTask (awaiters ++ inner) top counter next' next ?_ isTop blocked stack
      inside rfl, ?_⟩
    · rw [headOf_append, head]
      exact base
    · rw [rest, returnThrough_after, andThen_after, returnThrough_append]

theorem unwind_done {awaiters : List (Awaiter A E V)} {result : Except E V}
    (top : IsTop machine awaiters address (.finished result))
    (go : Machine A E V → Option (Machine A E V)) :
    machine.unwind go address = go
      { machine.setSubTask address { point := .finished result } with
        subTaskStackTop := lastOf none awaiters } := by
  unfold unwind
  rw [top.here]
  rfl

/-- The top runs, and what becomes of the stack then: each sub-task that gets done is
popped, and its awaiter goes on with its result. -/
theorem exec_unwind (object : BitVec 64 → V) (next : Except E V → Body A E V)
    (awaiters : List (Awaiter A E V)) (body : Body A E V) {count : Nat} {point : Point A E V}
    (top : IsTop machine awaiters address point)
    (base : machine.point = .awaitSubTask (headOf awaiters address) next)
    (enough : awaiters.length < count) :
    ∃ machine' events, ((exec body (.sub address) machine).bind fun ran =>
        ran.unwind (resumeStep object count) address) = some machine' ∧
      machine'.trace = machine.trace ++ events ∧ Acts events ∧
      RanBase object (andThen object next (returnThrough object awaiters (body.call object))) events
        machine' := by
  induction awaiters using List.reverseRecOn generalizing body machine address count point with
  | nil =>
    obtain ⟨ran, events, runs, same, trace, acts, outcome⟩ := exec_top object body top
    rw [runs, Option.bind_some]
    cases outcome with
    | waiting inner newTop counter after stack head isTop blocked inside rest =>
      obtain ⟨unwound, outcome⟩ := unwind_waiting stack head isTop blocked inside rest
        (same.trans base) (resumeStep object count)
      exact ⟨ran, events, unwound, trace, acts, outcome⟩
    | done isTop whole =>
      obtain ⟨count, rfl⟩ := Nat.exists_eq_add_of_lt enough
      let popped : Machine A E V :=
        { ran.setSubTask address { point := .finished (body.call object).2 } with
          subTaskStackTop := none }
      obtain ⟨machine', events', runs', trace', acts', outcome⟩ :=
        @exec_base _ _ _ (popped.destroySubTask address) object (next (body.call object).2) rfl
          isTop.unblocked
      refine ⟨machine', events ++ events', ?_, ?_, acts.append acts', ?_⟩
      · rw [unwind_done isTop]
        change resumeStep object (_ + 1) popped = _
        unfold resumeStep resume
        have here : popped.subTasks address =
          some { point := .finished (body.call object).2 } := setSubTask_self ..
        have basePoint : popped.point = .awaitSubTask address next := same.trans base
        simp only [pointOf, Option.bind_eq_bind, Option.bind_some, basePoint, here,
          Option.pure_def]
        exact runs'
      · rw [trace', ← List.append_assoc]
        exact congrArg (· ++ events') trace
      · rw [whole]
        exact outcome.after _
  | append_singleton outer awaiter ih =>
    obtain ⟨ran, events, runs, same, trace, acts, outcome⟩ := exec_top object body top
    rw [runs, Option.bind_some]
    cases outcome with
    | waiting inner newTop counter after stack head isTop blocked inside rest =>
      obtain ⟨unwound, outcome⟩ := unwind_waiting stack head isTop blocked inside rest
        (same.trans base) (resumeStep object count)
      exact ⟨ran, events, unwound, trace, acts, outcome⟩
    | done isTop whole =>
      rw [List.length_append, List.length_singleton] at enough
      obtain ⟨count, rfl⟩ : ∃ fewer, count = fewer + 1 := ⟨count - 1, by omega⟩
      obtain ⟨linked, here, lower⟩ := linked_append.mp isTop.linked
      let popped : Machine A E V :=
        { ran.setSubTask address { point := .finished (body.call object).2 } with
          subTaskStackTop := some awaiter.1 }
      let awaiting : SubTask A E V :=
        { point := .awaitSubTask address awaiter.2, prevSubTask := lastOf none outer,
          hasBaseTask := true }
      let resumed := popped.setSubTask awaiter.1 awaiting
      have inside := isTop.inside
      have others : ∀ other, other < awaiter.1 →
          (resumed.destroySubTask address).subTasks other = ran.subTasks other := by
        intro other below
        have apart : other ≠ address := by omega
        exact (Function.update_of_ne apart ..).trans ((setSubTask_other popped _
          (Nat.ne_of_lt below)).trans (setSubTask_other ran _ apart))
      have top' : IsTop (resumed.destroySubTask address) outer awaiter.1
          (.awaitSubTask address awaiter.2) :=
        ⟨linked.congr fun other _ below => others other below,
          (Function.update_of_ne (Nat.ne_of_lt lower) ..).trans (setSubTask_self ..), rfl,
          isTop.unblocked, Nat.lt_trans lower inside⟩
      obtain ⟨machine', events', unwound, trace', acts', outcome⟩ :=
        ih (awaiter.2 (body.call object).2) top'
          (by
            rw [headOf_append] at base
            exact same.trans base) (show outer.length < count by omega)
      refine ⟨machine', events ++ events', ?_, ?_, acts.append acts', ?_⟩
      · rw [unwind_done isTop, lastOf_append]
        change resumeStep object (count + 1) popped = _
        unfold resumeStep resume
        have awaiterHere : popped.subTasks awaiter.1 = some { awaiting with
            nextSubTask := some address } :=
          (setSubTask_other ran _ (Nat.ne_of_lt lower)).trans here
        have resumedHere : resumed.subTasks awaiter.1 = some awaiting := setSubTask_self ..
        have child : resumed.subTasks address =
            some { point := .finished (body.call object).2 } :=
          (setSubTask_other popped _ (Nat.ne_of_gt lower)).trans (setSubTask_self ..)
        change (popped.subTasks awaiter.1).bind _ = _
        rw [awaiterHere, Option.bind_some]
        change (((resumed.subTasks awaiter.1).bind fun subTask => some subTask.point).bind
          _).bind _ = _
        rw [resumedHere, Option.bind_some, Option.bind_some]
        change (((resumed.subTasks address).bind fun subTask => some subTask.point).bind
          _).bind _ = _
        rw [child, Option.bind_some, Option.bind_some]
        exact unwound
      · rw [trace', ← List.append_assoc]
        exact congrArg (· ++ events') trace
      · have joined : andThen object next
            (returnThrough object (outer ++ [awaiter]) (body.call object)) =
            TaskCoro.after events (andThen object next
              (returnThrough object outer ((awaiter.2 (body.call object).2).call object))) := by
          rw [returnThrough_append, ← andThen_after, ← returnThrough_after, whole]
          rfl
        rw [joined]
        exact outcome.after events

/-! ## Trying the task -/

/-- A step of a blocked task passes its counter, and then runs until it is blocked again
or done. -/
theorem resumeStep_suspended (suspended : Suspended object machine rest) :
    ∃ machine' events rest', resumeStep object (machine.freeAddress + 1)
        { machine with blockedOnCounter := 0 } = some machine' ∧
      machine'.trace = machine.trace ++ .waited machine.blockedOnCounter :: events ∧
      Acts events ∧ rest = TaskCoro.after [.waited machine.blockedOnCounter] rest' ∧
      RanBase object rest' events machine' := by
  cases suspended with
  | counter counter next point noStack blocked isRest =>
    obtain ⟨basePoint, onCounter, stackTop, subTasks, freeAddress, before⟩ := machine
    dsimp only at point noStack blocked
    subst point noStack blocked
    obtain ⟨machine', events, ran, trace, acts, outcome⟩ :=
      @exec_base _ _ _
        { point := .awaitCounter onCounter next
          subTasks := subTasks
          freeAddress := freeAddress
          trace := before ++ [.waited onCounter] } object (next (object onCounter)) rfl rfl
    exact ⟨machine', events, _, ran, trace.trans (List.append_assoc ..), acts, isRest, outcome⟩
  | subTask awaiters top counter next next' point isTop blocked stack inside isRest =>
    obtain ⟨basePoint, onCounter, stackTop, subTasks, freeAddress, before⟩ := machine
    dsimp only at point isTop blocked stack inside
    subst isTop blocked
    let waiting : SubTask A E V :=
      { point := .awaitCounter onCounter next, prevSubTask := lastOf none awaiters,
        hasBaseTask := true }
    let blocked : Machine A E V :=
      { point := basePoint, subTaskStackTop := some top, subTasks := subTasks,
        freeAddress := freeAddress, trace := before }
    let resumed : Machine A E V :=
      { blocked.setSubTask top waiting with trace := before ++ [.waited onCounter] }
    have deep := stack.linked.head_le
    have here : subTasks top = some waiting := stack.top
    have resumedHere : resumed.subTasks top = some waiting := setSubTask_self ..
    have atTop : IsTop resumed awaiters top (.awaitCounter onCounter next) :=
      ⟨stack.linked.congr fun other _ below => setSubTask_other blocked _ (Nat.ne_of_lt below),
        resumedHere, rfl, rfl, inside⟩
    obtain ⟨machine', events, unwound, trace, acts, outcome⟩ :=
      exec_unwind object next' awaiters (next (object onCounter)) atTop point
        (show awaiters.length < freeAddress by omega)
    refine ⟨machine', events, _, ?_, trace.trans (List.append_assoc ..), acts,
      isRest.trans ?_, outcome⟩
    · unfold resumeStep resume
      change (subTasks top).bind _ = _
      rw [here, Option.bind_some]
      change (((resumed.subTasks top).bind fun subTask => some subTask.point).bind _).bind _ = _
      rw [resumedHere, Option.bind_some, Option.bind_some]
      exact unwound
    · rw [pending, returnThrough_after, andThen_after]

/-- A task that nobody has tried yet. -/
def start (body : Body A E V) : Machine A E V := { point := .initial body }

theorem resumeStep_start (object : BitVec 64 → V) (body : Body A E V) :
    ∃ machine' events, resumeStep object 1 (start body) = some machine' ∧
      machine'.trace = events ∧ Acts events ∧
      RanBase object (body.call object) events machine' := by
  obtain ⟨machine', events, ran, trace, acts, outcome⟩ :=
    @exec_base _ _ _ (start body) object body rfl rfl
  exact ⟨machine', events, ran, trace, acts, outcome⟩

/-- What was done is the beginning of the call, and the rest is on the await stack. -/
inductive Follows (object : BitVec 64 → V) (body : Body A E V) (machine : Machine A E V) :
    Prop where
  | start (isStart : machine = start body)
  | suspended (rest : List (Event A) × Except E V) (isRest : Suspended object machine rest)
      (whole : body.call object = TaskCoro.after machine.trace rest)
  | done (result : Except E V) (isDone : Done machine result)
      (whole : body.call object = (machine.trace, result))

theorem RanBase.follows (ran : RanBase object (body.call object) machine.trace machine) :
    Follows object body machine := by
  rcases ran with ⟨isDone, whole⟩ | ⟨rest, suspended, whole⟩
  · exact .done _ isDone (by rw [whole])
  · exact .suspended rest suspended whole

/-- The task is not in its initial suspension any more. -/
def Began (machine : Machine A E V) : Prop := ∀ body, machine.point ≠ .initial body

theorem Suspended.began (suspended : Suspended object machine rest) :
    machine.Began := by
  intro body
  cases suspended with
  | counter counter next point noStack blocked isRest =>
    rw [point]
    exact nofun
  | subTask awaiters top counter next next' point isTop blocked stack inside isRest =>
    rw [point]
    exact nofun

theorem RanBase.began (ran : RanBase object call events machine) :
    machine.Began := by
  rcases ran with ⟨isDone, -⟩ | ⟨rest, suspended, -⟩
  · intro body
    rw [isDone.point]
    exact nofun
  · exact suspended.began

/-- What a try of the slave loop does to a task. -/
inductive Tried (isCounterComplete : BitVec 64 → Bool) (machine : Machine A E V) :
    Machine A E V → Prop where
  /-- nothing is resumed -/
  | stays (why : machine.done = true ∨
      machine.blockedOnCounter > 0 ∧ isCounterComplete machine.blockedOnCounter = false) :
      Tried isCounterComplete machine machine
  | starts (body : Body A E V) (machine' : Machine A E V) (isStart : machine = start body)
      (began : machine'.Began) (acts : Acts machine'.trace) :
      Tried isCounterComplete machine machine'
  /-- the counter that it is blocked on was completed -/
  | resumes (machine' : Machine A E V) (events : List (Event A)) (began : machine.Began)
      (began' : machine'.Began)
      (ready : machine.blockedOnCounter > 0 →
        isCounterComplete machine.blockedOnCounter = true)
      (acts : Acts events)
      (trace : machine'.trace = machine.trace ++ .waited machine.blockedOnCounter :: events) :
      Tried isCounterComplete machine machine'

theorem Suspended.not_done (suspended : Suspended object machine rest) :
    machine.done = false := by
  unfold done
  cases suspended with
  | counter counter next point noStack blocked isRest => rw [point]
  | subTask awaiters top counter next next' point isTop blocked stack inside isRest => rw [point]

theorem try_follows (follows : Follows object body machine) (isCounterComplete : BitVec 64 → Bool) :
    ∃ machine', machine.tryExecuteCoroutineTask object isCounterComplete =
        some (machine', machine'.done) ∧
      Follows object body machine' ∧ Tried isCounterComplete machine machine' := by
  unfold tryExecuteCoroutineTask
  cases follows with
  | start isStart =>
    subst isStart
    obtain ⟨machine', events, stepped, trace, acts, ran⟩ := resumeStep_start object body
    subst trace
    refine ⟨machine', ?_, ran.follows, .starts body machine' rfl ran.began acts⟩
    change (resumeStep object 1 (Machine.start body)).bind _ = _
    rw [stepped]
    rfl
  | done result isDone whole =>
    have finished : machine.done = true := by
      unfold done
      rw [isDone.point]
    rw [if_pos finished]
    exact ⟨machine, by rw [finished], .done result isDone whole, .stays (Or.inl finished)⟩
  | suspended rest isRest whole =>
    have notDone := isRest.not_done
    rw [notDone, if_neg Bool.false_ne_true]
    by_cases blocked : machine.blockedOnCounter > 0 ∧
        ¬ isCounterComplete machine.blockedOnCounter = true
    · rw [if_pos blocked]
      exact ⟨machine, by rw [notDone], .suspended rest isRest whole,
        .stays (Or.inr ⟨blocked.1, by simpa using blocked.2⟩)⟩
    · rw [if_neg blocked]
      obtain ⟨machine', events, rest', stepped, trace, acts, isRest', ran⟩ :=
        resumeStep_suspended isRest
      rw [stepped]
      refine ⟨machine', rfl, RanBase.follows ?_,
        .resumes machine' events isRest.began ran.began ?_ acts trace⟩
      · have before := ran.after (machine.trace ++ [.waited machine.blockedOnCounter])
        rw [List.append_assoc, List.singleton_append, ← trace, ← after_after, ← isRest',
          ← whole] at before
        exact before
      · intro positive
        by_contra incomplete
        exact blocked ⟨positive, incomplete⟩

/-! ## Runs -/

/-- A try, as a step of the task. -/
def tryStep (object : BitVec 64 → V) (machine : Machine A E V)
    (isCounterComplete : BitVec 64 → Bool) : Option (Machine A E V) :=
  (machine.tryExecuteCoroutineTask object isCounterComplete).map Prod.fst

/-- How often a counter is waited for. -/
def waits (events : List (Event A)) : Nat :=
  events.countP fun
    | .act _ => false
    | .waited _ => true

theorem waits_acts (acts : Acts events) : waits events = 0 := by
  refine List.countP_eq_zero.mpr fun event mem => ?_
  obtain ⟨action, rfl⟩ := acts event mem
  exact Bool.false_ne_true

theorem waits_append (first second : List (Event A)) :
    waits (first ++ second) = waits first + waits second :=
  List.countP_append

theorem waits_waited (counter : BitVec 64) (events : List (Event A)) :
    waits (.waited counter :: events) = waits events + 1 :=
  List.countP_cons_of_pos rfl

/-- After a number of tries that all pass, unless the task is done: it has been started,
and each further try has passed one counter. -/
def Advanced (body : Body A E V) (tries : Nat) (machine : Machine A E V) : Prop :=
  machine.done = false → (tries = 0 ∧ machine = start body) ∨
    (machine.Began ∧ tries = waits machine.trace + 1)

theorem Tried.advanced {tries : Nat} {machine' : Machine A E V}
    {isCounterComplete : BitVec 64 → Bool} (tried : Tried isCounterComplete machine machine')
    (complete : ∀ counter, isCounterComplete counter = true)
    (still : machine.done = true → machine' = machine) (advanced : Advanced body tries machine) :
    Advanced body (tries + 1) machine' := by
  intro notDone
  have notDone₀ : machine.done = false := by
    by_contra finished
    rw [Bool.not_eq_false] at finished
    rw [still finished, finished] at notDone
    cases notDone
  have before := advanced notDone₀
  cases tried with
  | stays why =>
    rcases why with finished | ⟨-, incomplete⟩
    · rw [finished] at notDone
      cases notDone
    · rw [complete] at incomplete
      cases incomplete
  | starts body' machine' isStart began acts =>
    rcases before with ⟨none, -⟩ | ⟨began₀, -⟩
    · exact Or.inr ⟨began, by rw [none, waits_acts acts]⟩
    · exact absurd (by rw [isStart]; rfl) (began₀ body')
  | resumes machine' events began began' ready acts trace =>
    rcases before with ⟨-, isStart⟩ | ⟨-, count⟩
    · exact absurd (by rw [isStart]; rfl) (began body)
    · refine Or.inr ⟨began', ?_⟩
      rw [trace, waits_append, waits_waited, waits_acts acts, count]

/-- However often a coroutine task was tried, with whatever counters complete: it has done
the beginning of what the nested calls do, its await stack is linked from the base task to
the innermost sub-task and holds what is left of them, and it is done only with their
result.  The next try resumes the innermost coroutine, after its counter was completed, or
nothing; and as many tries as there are waits, and one, do if all counters are complete. -/
theorem tries_follow_call (object : BitVec 64 → V) (body : Body A E V)
    (checks : List (BitVec 64 → Bool)) :
    ∃ machine, Runs.run (tryStep object) (start body) checks = some machine ∧
      Follows object body machine ∧
      (∀ isCounterComplete, ∃ machine',
        machine.tryExecuteCoroutineTask object isCounterComplete =
          some (machine', machine'.done) ∧ Tried isCounterComplete machine machine') ∧
      ((∀ check ∈ checks, ∀ counter, check counter = true) →
        waits (body.call object).1 < checks.length → machine.done = true) := by
  have reached : ∃ machine, Runs.run (tryStep object) (start body) checks = some machine ∧
      Follows object body machine ∧
      ((∀ check ∈ checks, ∀ counter, check counter = true) →
        Advanced body checks.length machine) := by
    induction checks using List.reverseRecOn with
    | nil => exact ⟨start body, rfl, .start rfl, fun _ _ => Or.inl ⟨rfl, rfl⟩⟩
    | append_singleton checks check ih =>
      obtain ⟨machine, ran, follows, advanced⟩ := ih
      obtain ⟨machine', tries, follows', tried⟩ := try_follows follows check
      refine ⟨machine', ?_, follows', fun complete => ?_⟩
      · rw [Runs.run_append, ran, Option.bind_some, Runs.run_cons, tryStep, tries]
        rfl
      · rw [List.length_append, List.length_singleton]
        refine tried.advanced (complete check (by simp)) (fun finished => ?_)
          (advanced fun other mem => complete other (List.mem_append_left _ mem))
        unfold tryExecuteCoroutineTask at tries
        rw [if_pos finished] at tries
        exact (Prod.mk.inj (Option.some.inj tries)).1.symm
  obtain ⟨machine, ran, follows, advanced⟩ := reached
  refine ⟨machine, ran, follows, fun isCounterComplete => ?_, fun complete enough => ?_⟩
  · obtain ⟨machine', tries, -, tried⟩ := try_follows follows isCounterComplete
    exact ⟨machine', tries, tried⟩
  · by_contra notDone
    have notDone : machine.done = false := by simpa using notDone
    rcases advanced complete notDone with ⟨none, -⟩ | ⟨began, count⟩
    · omega
    · cases follows with
      | start isStart => exact absurd (by rw [isStart]; rfl) (began body)
      | done result isDone whole =>
        unfold done at notDone
        rw [isDone.point] at notDone
        cases notDone
      | suspended rest isRest whole =>
        obtain ⟨machine', events, rest', -, -, -, isRest', -⟩ := resumeStep_suspended isRest
        have more : waits (body.call object).1 = waits machine.trace + (waits rest'.1 + 1) := by
          rw [whole, isRest']
          change waits (machine.trace ++ (_ :: rest'.1)) = _
          rw [waits_append, waits_waited]
        omega

/-- A sub-task that catches what its own sub-task throws after a wait. -/
def catchingBody : Body Nat Nat Nat :=
  .awaitSubTask
    (.act 1 (.awaitSubTask (.awaitCounter 5 fun value => .throw value) fun
      | .ok _ => .coReturn 0
      | .error exception => .act exception (.awaitCounter 7 fun value => .coReturn value)))
    fun
      | .ok value => .act value (.coReturn 0)
      | .error exception => .throw exception

example : catchingBody.call BitVec.toNat =
    ([.act 1, .waited 5, .act 5, .waited 7, .act 7], .ok 0) := by rfl

example : (Runs.run (tryStep BitVec.toNat) (start catchingBody)
    [fun _ => false, fun _ => false, fun counter => counter == 5, fun _ => false]).map
      (fun machine => (machine.trace, machine.blockedOnCounter, machine.subTaskStackTop)) =
    some ([.act 1, .waited 5, .act 5], 7, some 0) := by decide +kernel

end Machine

end Voxen.Svc.TaskCoro
