import Voxen.Svc.TaskCoroStack

/-!
# What a coroutine does until it is suspended

A sub-task that runs before it is awaited builds a stack of its own.  A coroutine of the
base task's stack leaves that stack as long as it needs to be, with the counter passed to
the base task.
-/

namespace Voxen.Svc.TaskCoro

variable {A E V : Type}

/-- There is no waiting among the events. -/
def Acts (events : List (Event A)) : Prop := ∀ event ∈ events, ∃ action, event = .act action

theorem acts_nil : Acts ([] : List (Event A)) := fun _ mem => absurd mem List.not_mem_nil

theorem Acts.cons {events : List (Event A)} (acts : Acts events) (action : A) :
    Acts (.act action :: events) := by
  intro event mem
  rcases List.mem_cons.mp mem with rfl | mem
  · exact ⟨action, rfl⟩
  · exact acts event mem

theorem Acts.append {first second : List (Event A)} (acts : Acts first) (acts' : Acts second) :
    Acts (first ++ second) := by
  intro event mem
  rcases List.mem_append.mp mem with mem | mem
  · exact acts event mem
  · exact acts' event mem

namespace Machine

/-- The other sub-tasks there are stay as they are. -/
structure Kept (machine machine' : Machine A E V) (coro : Coro) : Prop where
  free : machine.freeAddress ≤ machine'.freeAddress
  others : ∀ address, address < machine.freeAddress → coro ≠ .sub address →
    machine'.subTasks address = machine.subTasks address

theorem Kept.trans {machine middle machine' : Machine A E V} {coro : Coro}
    (first : Kept machine middle coro) (second : Kept middle machine' coro) :
    Kept machine machine' coro :=
  ⟨Nat.le_trans first.free second.free, fun address below other =>
    (second.others address (Nat.lt_of_lt_of_le below first.free) other).trans
      (first.others address below other)⟩

/-- The base task stays as it is. -/
structure SameBase (machine machine' : Machine A E V) : Prop where
  point : machine'.point = machine.point
  blockedOnCounter : machine'.blockedOnCounter = machine.blockedOnCounter
  subTaskStackTop : machine'.subTaskStackTop = machine.subTaskStackTop

theorem SameBase.trans {machine middle machine' : Machine A E V}
    (first : SameBase machine middle) (second : SameBase middle machine') :
    SameBase machine machine' :=
  ⟨second.point.trans first.point, second.blockedOnCounter.trans first.blockedOnCounter,
    second.subTaskStackTop.trans first.subTaskStackTop⟩

theorem setSubTask_self (machine : Machine A E V) (address : Nat) (subTask : SubTask A E V) :
    (machine.setSubTask address subTask).subTasks address = some subTask :=
  Function.update_self ..

variable {address : Nat} {awaiters : List (Awaiter A E V)}

theorem setSubTask_other (machine : Machine A E V) {other : Nat} (subTask : SubTask A E V)
    (differ : other ≠ address) :
    (machine.setSubTask address subTask).subTasks other = machine.subTasks other :=
  Function.update_of_ne differ ..

theorem kept_setSubTask (machine : Machine A E V) (address : Nat) (subTask : SubTask A E V) :
    Kept machine (machine.setSubTask address subTask) (.sub address) := by
  refine ⟨Nat.le_refl _, fun other _ differ => setSubTask_other machine subTask ?_⟩
  rintro rfl
  exact differ rfl

/-- How a sub-task that nothing awaits yet comes out of running. -/
inductive RanAlone (object : BitVec 64 → V) (call : List (Event A) × Except E V)
    (events : List (Event A)) (machine : Machine A E V) (address : Nat) : Prop where
  | done (here : machine.subTasks address = some { point := .finished call.2 })
      (whole : events = call.1)
  | waiting (awaiters : List (Awaiter A E V)) (top : Nat) (counter : BitVec 64)
      (next : V → Body A E V) (stack : Waiting machine.subTasks false none awaiters top counter next)
      (head : headOf awaiters top = address) (inside : top < machine.freeAddress)
      (rest : call = after events (returnThrough object awaiters (pending object counter next)))

variable {object : BitVec 64 → V} {call : List (Event A) × Except E V} {events : List (Event A)}
  {machine : Machine A E V}

theorem RanAlone.after (ran : RanAlone object call events machine address) (before : List (Event A)) :
    RanAlone object (TaskCoro.after before call) (before ++ events) machine address := by
  cases ran with
  | done here whole => exact .done here (congrArg (before ++ ·) whole)
  | waiting awaiters top counter next stack head inside rest =>
    exact .waiting awaiters top counter next stack head inside (by rw [rest, after_after])

theorem blockOnSubTask_alone {self top : Nat} {counter : BitVec 64}
    {next : V → Body A E V} {next' : Except E V → Body A E V}
    (stack : Waiting machine.subTasks false none awaiters top counter next)
    (head : headOf awaiters top = address) (lower : self < address)
    (here : machine.subTasks self = some { point := .awaitSubTask address next' }) :
    ∃ machine', machine.blockOnSubTask address (.sub self) = some machine' ∧
      Waiting machine'.subTasks false none ((self, next') :: awaiters) top counter next ∧
      SameBase machine machine' ∧ machine'.freeAddress = machine.freeAddress ∧
      machine'.trace = machine.trace ∧
      ∀ other, other ≠ self → other ≠ address →
        machine'.subTasks other = machine.subTasks other := by
  subst head
  obtain ⟨first, isFirst, -, -, -⟩ := stack.head
  let linking := machine.setSubTask self
    { point := .awaitSubTask (headOf awaiters top) next', nextSubTask := some (headOf awaiters top) }
  have apart : headOf awaiters top ≠ self := Nat.ne_of_gt lower
  have isFirst' : linking.subTasks (headOf awaiters top) = some first :=
    (setSubTask_other machine _ apart).trans isFirst
  have stack' : Waiting linking.subTasks false none awaiters top counter next :=
    stack.congr fun other above => setSubTask_other machine _ (by omega)
  refine ⟨linking.setSubTask (headOf awaiters top) { first with prevSubTask := some self }, ?_,
    (stack'.setPrev isFirst' (some self)).cons lower ?_, ⟨rfl, rfl, rfl⟩, rfl, rfl, ?_⟩
  · unfold blockOnSubTask
    simp only [here, Option.bind_eq_bind, Option.bind_some]
    change (linking.subTasks (headOf awaiters top)).bind _ = _
    rw [isFirst']
    rfl
  · exact (setSubTask_other linking _ apart.symm).trans (setSubTask_self machine self _)
  · intro other notSelf notFirst
    exact (setSubTask_other linking _ notFirst).trans (setSubTask_other machine _ notSelf)

/-! ## Starting a sub-task -/

/-- The machine with a new sub-task. -/
def started (machine : Machine A E V) (subTask : Body A E V) : Machine A E V :=
  { machine with freeAddress := machine.freeAddress + 1 }.setSubTask
    machine.freeAddress { point := .initial subTask }

section Started

variable {machine middle : Machine A E V} {subTask : Body A E V}
  {next : Except E V → Body A E V} {coro : Coro}

theorem Kept.of_started
    (kept : Kept (machine.started subTask) middle (.sub machine.freeAddress)) (coro : Coro) :
    Kept machine middle coro := by
  refine ⟨Nat.le_trans (Nat.le_succ _) kept.free, fun address below _ => ?_⟩
  rw [kept.others address (Nat.lt_succ_of_lt below)
    fun same => Nat.ne_of_gt below (Coro.sub.inj same)]
  exact setSubTask_other _ _ (Nat.ne_of_lt below)

theorem Kept.destroy (kept : Kept machine middle coro) :
    Kept machine (middle.destroySubTask machine.freeAddress) coro :=
  ⟨kept.free, fun address below other =>
    (Function.update_of_ne (Nat.ne_of_lt below) ..).trans (kept.others address below other)⟩

theorem exec_of_done {result : Except E V}
    (ran : exec subTask (.sub machine.freeAddress) (machine.started subTask) = some middle)
    (done : middle.subTasks machine.freeAddress = some { point := .finished result }) :
    exec (.awaitSubTask subTask next) coro machine =
      exec (next result) coro (middle.destroySubTask machine.freeAddress) := by
  rw [exec]
  change (exec subTask (.sub machine.freeAddress) (machine.started subTask)).bind _ = _
  rw [ran]
  simp only [Option.bind_some, pointOf, done, Option.bind_eq_bind, Option.pure_def]

theorem exec_of_waiting {waits : SubTask A E V}
    (ran : exec subTask (.sub machine.freeAddress) (machine.started subTask) = some middle)
    (here : middle.subTasks machine.freeAddress = some waits)
    (notDone : ∀ result, waits.point ≠ .finished result) :
    exec (.awaitSubTask subTask next) coro machine =
      (middle.setPoint (.awaitSubTask machine.freeAddress next) coro).bind fun machine' =>
        machine'.blockOnSubTask machine.freeAddress coro := by
  rw [exec]
  change (exec subTask (.sub machine.freeAddress) (machine.started subTask)).bind _ = _
  rw [ran]
  simp only [Option.bind_some, pointOf, here, Option.bind_eq_bind, Option.pure_def]

end Started

/-- A sub-task runs until it is done or a stack of sub-tasks waits below it. -/
theorem exec_alone (object : BitVec 64 → V) (body : Body A E V) {address : Nat}
    {point : Point A E V} {machine : Machine A E V} (inside : address < machine.freeAddress)
    (here : machine.subTasks address = some { point := point }) :
    ∃ machine' events, exec body (.sub address) machine = some machine' ∧
      Kept machine machine' (.sub address) ∧ SameBase machine machine' ∧
      machine'.trace = machine.trace ++ events ∧ Acts events ∧
      RanAlone object (body.call object) events machine' address := by
  induction body generalizing address point machine with
  | coReturn value =>
    refine ⟨machine.setSubTask address { point := .finished (.ok value) }, [], ?_,
      kept_setSubTask .., ⟨rfl, rfl, rfl⟩, (List.append_nil _).symm, acts_nil,
      .done (setSubTask_self ..) rfl⟩
    simp only [exec, setPoint, here, Option.bind_eq_bind, Option.bind_some, Option.pure_def]
  | throw exception =>
    refine ⟨machine.setSubTask address { point := .finished (.error exception) }, [], ?_,
      kept_setSubTask .., ⟨rfl, rfl, rfl⟩, (List.append_nil _).symm, acts_nil,
      .done (setSubTask_self ..) rfl⟩
    simp only [exec, setPoint, here, Option.bind_eq_bind, Option.bind_some, Option.pure_def]
  | act action next ih =>
    obtain ⟨machine', events, ran, kept, base, trace, acts, outcome⟩ :=
      @ih _ _ { machine with trace := machine.trace ++ [.act action] } inside here
    refine ⟨machine', .act action :: events, ran, ⟨kept.free, kept.others⟩,
      ⟨base.point, base.blockedOnCounter, base.subTaskStackTop⟩, ?_, acts.cons action, ?_⟩
    · rw [trace, List.append_assoc]
      rfl
    · exact outcome.after [.act action]
  | awaitCounter counter next ih =>
    refine ⟨(machine.setSubTask address { point := .awaitCounter counter next }).setSubTask address
      { point := .awaitCounter counter next, blockedOnCounter := counter }, [], ?_,
      (kept_setSubTask ..).trans (kept_setSubTask ..), ⟨rfl, rfl, rfl⟩,
      (List.append_nil _).symm, acts_nil,
      .waiting [] address counter next ⟨trivial, setSubTask_self ..⟩ rfl inside rfl⟩
    simp only [exec, setPoint, here, Option.bind_eq_bind, Option.bind_some, Option.pure_def,
      blockOnCounter, setSubTask_self]
    rfl
  | awaitSubTask subTask next ihSub ihNext =>
    obtain ⟨middle, events, ran, keptBelow, base, trace, acts, outcome⟩ :=
      @ihSub machine.freeAddress _ (machine.started subTask) (Nat.lt_succ_self _)
        (setSubTask_self ..)
    have base' : SameBase machine middle := ⟨base.point, base.blockedOnCounter, base.subTaskStackTop⟩
    have selfKept : middle.subTasks address = some { point := point } :=
      ((keptBelow.of_started .base).others address inside nofun).trans here
    have kept := keptBelow.of_started (.sub address)
    cases outcome with
    | done done whole =>
      have still : (middle.destroySubTask machine.freeAddress).subTasks address =
          some { point := point } :=
        (Function.update_of_ne (Nat.ne_of_lt inside) ..).trans selfKept
      obtain ⟨machine', events', ran', kept', base'', trace', acts', outcome⟩ :=
        @ihNext _ _ _ (middle.destroySubTask machine.freeAddress)
          (Nat.lt_of_lt_of_le inside kept.free) still
      refine ⟨machine', events ++ events', (exec_of_done ran done).trans ran',
        kept.destroy.trans kept', base'.trans ⟨base''.point, base''.blockedOnCounter,
          base''.subTaskStackTop⟩, ?_, acts.append acts', ?_⟩
      · rw [trace', ← List.append_assoc]
        exact congrArg (· ++ events') trace
      · rw [call_awaitSubTask, andThen, ← whole]
        exact outcome.after events
    | waiting awaiters top counter after stack head below rest =>
      obtain ⟨first, isFirst, notDone, -, -⟩ := stack.head
      rw [head] at isFirst
      have awaiting := setSubTask_self middle address
        { point := .awaitSubTask machine.freeAddress next }
      obtain ⟨machine', blocked, stack', base'', free, trace', others⟩ :=
        blockOnSubTask_alone
          (stack.congr fun other above => setSubTask_other middle _ (by omega)) head inside
          awaiting
      refine ⟨machine', events, ?_, ?_, base'.trans ⟨base''.point, base''.blockedOnCounter,
        base''.subTaskStackTop⟩, trace'.trans trace, acts,
        .waiting _ top counter after stack' rfl (by rw [free]; exact below) ?_⟩
      · rw [exec_of_waiting ran isFirst notDone, setPoint, selfKept]
        exact blocked
      · refine ⟨by rw [free]; exact kept.free, fun other lower differ => ?_⟩
        have notSelf : other ≠ address := by
          rintro rfl
          exact differ rfl
        rw [others other notSelf (Nat.ne_of_lt lower), setSubTask_other middle _ notSelf]
        exact kept.others other lower differ
      · rw [call_awaitSubTask, rest, andThen_after]
        rfl

/-! ## Stacks of the base task -/

theorem updateFrom_none (count : Nat) (machine : Machine A E V) :
    updateFrom count none machine = some machine := by
  cases count <;> rfl

/-- The walk over a new stack gives it to the base task, with the counter. -/
theorem updateFrom_waiting {awaiters : List (Awaiter A E V)}
    {prev : Option Nat} {top count : Nat} {counter : BitVec 64} {next : V → Body A E V}
    (stack : Waiting machine.subTasks false prev awaiters top counter next)
    (blocked : machine.blockedOnCounter = 0) (enough : awaiters.length < count) :
    ∃ machine', updateFrom count (some (headOf awaiters top)) machine = some machine' ∧
      Waiting machine'.subTasks true prev awaiters top counter next ∧
      machine'.subTaskStackTop = some top ∧ machine'.blockedOnCounter = counter ∧
      machine'.point = machine.point ∧ machine'.freeAddress = machine.freeAddress ∧
      machine'.trace = machine.trace ∧
      ∀ other, other < headOf awaiters top → machine'.subTasks other = machine.subTasks other := by
  obtain ⟨count, rfl⟩ := Nat.exists_eq_add_of_lt enough
  induction awaiters generalizing prev machine with
  | nil =>
    have here : machine.subTasks top = some {
      point := .awaitCounter counter next
      blockedOnCounter := counter
      prevSubTask := prev } := stack.top
    have passed : (if counter ≠ 0 then counter else machine.blockedOnCounter) = counter := by
      by_cases zero : counter = 0
      · rw [if_neg (not_not_intro zero), blocked, zero]
      · rw [if_pos zero]
    refine ⟨{ machine.setSubTask top
        { point := .awaitCounter counter next, prevSubTask := prev, hasBaseTask := true } with
      blockedOnCounter := counter, subTaskStackTop := some top }, ?_,
      ⟨trivial, setSubTask_self machine top _⟩, rfl, rfl, rfl, rfl, rfl,
      fun other lower => setSubTask_other machine _ (Nat.ne_of_lt lower)⟩
    rw [headOf, updateFrom, here]
    simp only [Option.bind_eq_bind, Option.bind_some, passed]
    exact updateFrom_none _ _
  | cons awaiter inner ih =>
    obtain ⟨here, lower, rest⟩ := stack.linked
    have lower' : awaiter.1 < headOf inner top := lower
    let moved : Machine A E V := { machine.setSubTask awaiter.1
      { point := .awaitSubTask (headOf inner top) awaiter.2,
        nextSubTask := some (headOf inner top), prevSubTask := prev, hasBaseTask := true } with
      subTaskStackTop := some awaiter.1 }
    have others : ∀ other, other ≠ awaiter.1 →
        moved.subTasks other = machine.subTasks other :=
      fun other differ => setSubTask_other machine _ differ
    have stack' : Waiting moved.subTasks false (some awaiter.1) inner top counter next :=
      Waiting.congr ⟨rest, stack.top⟩ fun other above => others other (by omega)
    obtain ⟨machine', walked, waiting, isTop, passed, point, free, trace, same⟩ :=
      ih stack' blocked (by simp only [List.length_cons] at enough; omega)
    refine ⟨machine', ?_, waiting.cons lower' ((same _ lower').trans (setSubTask_self ..)), isTop,
      passed, point, free, trace, fun other below => ?_⟩
    · rw [headOf_cons, List.length_cons,
        show inner.length + 1 + count + 1 = (inner.length + count + 1) + 1 by omega, updateFrom,
        here]
      exact walked
    · rw [headOf_cons] at below
      rw [same other (Nat.lt_trans below lower')]
      exact others other (Nat.ne_of_lt below)

/-- The base task and its stack are blocked on a counter, with this rest of the call. -/
inductive Suspended (object : BitVec 64 → V) (machine : Machine A E V)
    (rest : List (Event A) × Except E V) : Prop where
  | counter (counter : BitVec 64) (next : V → Body A E V)
      (point : machine.point = .awaitCounter counter next)
      (noStack : machine.subTaskStackTop = none) (blocked : machine.blockedOnCounter = counter)
      (isRest : rest = pending object counter next)
  | subTask (awaiters : List (Awaiter A E V)) (top : Nat) (counter : BitVec 64)
      (next : V → Body A E V) (next' : Except E V → Body A E V)
      (point : machine.point = .awaitSubTask (headOf awaiters top) next')
      (isTop : machine.subTaskStackTop = some top) (blocked : machine.blockedOnCounter = counter)
      (stack : Waiting machine.subTasks true none awaiters top counter next)
      (inside : top < machine.freeAddress)
      (isRest : rest =
        andThen object next' (returnThrough object awaiters (pending object counter next)))

/-- The base task is done. -/
structure Done (machine : Machine A E V) (result : Except E V) : Prop where
  point : machine.point = .finished result
  noStack : machine.subTaskStackTop = none
  blocked : machine.blockedOnCounter = 0

/-- How the base task comes out of running. -/
def RanBase (object : BitVec 64 → V) (call : List (Event A) × Except E V)
    (events : List (Event A)) (machine : Machine A E V) : Prop :=
  (Done machine call.2 ∧ events = call.1) ∨
    ∃ rest, Suspended object machine rest ∧ call = after events rest

theorem RanBase.after (ran : RanBase object call events machine) (before : List (Event A)) :
    RanBase object (TaskCoro.after before call) (before ++ events) machine := by
  rcases ran with ⟨isDone, rfl⟩ | ⟨rest, suspended, rfl⟩
  · exact Or.inl ⟨isDone, rfl⟩
  · exact Or.inr ⟨rest, suspended, after_after before events rest⟩

theorem exec_base (object : BitVec 64 → V) (body : Body A E V)
    (noStack : machine.subTaskStackTop = none) (unblocked : machine.blockedOnCounter = 0) :
    ∃ machine' events, exec body .base machine = some machine' ∧
      machine'.trace = machine.trace ++ events ∧ Acts events ∧
      RanBase object (body.call object) events machine' := by
  induction body generalizing machine with
  | coReturn value =>
    exact ⟨{ machine with point := .finished (.ok value) }, [], rfl,
      (List.append_nil _).symm, acts_nil, Or.inl ⟨⟨rfl, noStack, unblocked⟩, rfl⟩⟩
  | throw exception =>
    exact ⟨{ machine with point := .finished (.error exception) }, [], rfl,
      (List.append_nil _).symm, acts_nil, Or.inl ⟨⟨rfl, noStack, unblocked⟩, rfl⟩⟩
  | act action next ih =>
    obtain ⟨machine', events, ran, trace, acts, outcome⟩ :=
      @ih { machine with trace := machine.trace ++ [.act action] } noStack unblocked
    refine ⟨machine', .act action :: events, ran, ?_, acts.cons action, ?_⟩
    · rw [trace, List.append_assoc]
      rfl
    · exact outcome.after [.act action]
  | awaitCounter counter next ih =>
    exact ⟨{ machine with point := .awaitCounter counter next, blockedOnCounter := counter }, [],
      rfl, (List.append_nil _).symm, acts_nil,
      Or.inr ⟨_, .counter counter next rfl noStack rfl rfl, rfl⟩⟩
  | awaitSubTask subTask next ihSub ihNext =>
    obtain ⟨middle, events, ran, kept, base, trace, acts, outcome⟩ :=
      @exec_alone _ _ _ object subTask machine.freeAddress _ (machine.started subTask)
        (Nat.lt_succ_self _) (setSubTask_self ..)
    cases outcome with
    | done done whole =>
      obtain ⟨machine', events', ran', trace', acts', outcome⟩ :=
        @ihNext _ (middle.destroySubTask machine.freeAddress)
          (base.subTaskStackTop.trans noStack) (base.blockedOnCounter.trans unblocked)
      refine ⟨machine', events ++ events', (exec_of_done ran done).trans ran', ?_,
        acts.append acts', ?_⟩
      · rw [trace', ← List.append_assoc]
        exact congrArg (· ++ events') trace
      · rw [call_awaitSubTask, andThen, ← whole]
        exact outcome.after events
    | waiting awaiters top counter after stack head below rest =>
      obtain ⟨first, isFirst, notDone, -, -⟩ := stack.head
      rw [head] at isFirst
      have deep := stack.linked.head_le
      obtain ⟨machine', walked, stack', isTop, passed, point, free, trace', -⟩ :=
        @updateFrom_waiting _ _ _
          { middle with
            point := .awaitSubTask machine.freeAddress next
            subTaskStackTop := some machine.freeAddress }
          _ _ _ middle.freeAddress _ _ stack (base.blockedOnCounter.trans unblocked) (by omega)
      refine ⟨machine', events, ?_, trace'.trans trace, acts, Or.inr ⟨_,
        .subTask awaiters top counter after next (by rw [point, head]) isTop passed stack'
          (by rw [free]; exact below) rfl, ?_⟩⟩
      · rw [exec_of_waiting ran isFirst notDone]
        rw [head] at walked
        exact walked
      · rw [call_awaitSubTask, rest, andThen_after]

/-! ## The innermost sub-task of the base task's stack -/

/-- The sub-task inside these awaiters is the top of the stack. -/
structure IsTop (machine : Machine A E V) (awaiters : List (Awaiter A E V)) (address : Nat)
    (point : Point A E V) : Prop where
  linked : Linked machine.subTasks true none awaiters address
  here : machine.subTasks address =
    some { point := point, prevSubTask := lastOf none awaiters, hasBaseTask := true }
  isTop : machine.subTaskStackTop = some address
  unblocked : machine.blockedOnCounter = 0
  inside : address < machine.freeAddress

theorem IsTop.keep {machine machine' : Machine A E V} {awaiters : List (Awaiter A E V)}
    {address : Nat} {point : Point A E V} (top : IsTop machine awaiters address point)
    (kept : Kept machine machine' .base) (base : SameBase machine machine') :
    IsTop machine' awaiters address point := by
  have inside := top.inside
  exact ⟨top.linked.congr fun other _ below => kept.others other (by omega) nofun,
    (kept.others address inside nofun).trans top.here, base.subTaskStackTop.trans top.isTop,
    base.blockedOnCounter.trans top.unblocked, Nat.lt_of_lt_of_le inside kept.free⟩

theorem IsTop.setSubTask {point : Point A E V}
    (top : IsTop machine awaiters address point) (point' : Point A E V) :
    IsTop (machine.setSubTask address
        { point := point', prevSubTask := lastOf none awaiters, hasBaseTask := true })
      awaiters address point' :=
  ⟨top.linked.congr fun _ _ below => setSubTask_other machine _ (Nat.ne_of_lt below),
    setSubTask_self .., top.isTop, top.unblocked, top.inside⟩

/-- How the top of the stack comes out of running. -/
inductive RanTop (object : BitVec 64 → V) (call : List (Event A) × Except E V)
    (events : List (Event A)) (machine : Machine A E V) (awaiters : List (Awaiter A E V))
    (address : Nat) : Prop where
  | done (top : IsTop machine awaiters address (.finished call.2)) (whole : events = call.1)
  | waiting (inner : List (Awaiter A E V)) (top : Nat) (counter : BitVec 64)
      (next : V → Body A E V)
      (stack : Waiting machine.subTasks true none (awaiters ++ inner) top counter next)
      (head : headOf inner top = address) (isTop : machine.subTaskStackTop = some top)
      (blocked : machine.blockedOnCounter = counter) (inside : top < machine.freeAddress)
      (rest : call = after events (returnThrough object inner (pending object counter next)))

theorem RanTop.after (ran : RanTop object call events machine awaiters address) (before : List (Event A)) :
    RanTop object (TaskCoro.after before call) (before ++ events) machine awaiters address := by
  cases ran with
  | done isTop whole => exact .done isTop (congrArg (before ++ ·) whole)
  | waiting inner top counter next stack head isTop blocked inside rest =>
    exact .waiting inner top counter next stack head isTop blocked inside
      (by rw [rest, after_after])

/-- When the top awaits a sub-task, the stack of that one goes on top of it. -/
theorem blockOnSubTask_top {outer inner : List (Awaiter A E V)}
    {self top : Nat} {counter : BitVec 64} {next : V → Body A E V} {next' : Except E V → Body A E V}
    (isTop : IsTop machine outer self (.awaitSubTask address next'))
    (stack : Waiting machine.subTasks false none inner top counter next)
    (head : headOf inner top = address) (lower : self < address)
    (inside : top < machine.freeAddress) :
    ∃ machine', machine.blockOnSubTask address (.sub self) = some machine' ∧
      Waiting machine'.subTasks true none (outer ++ (self, next') :: inner) top counter next ∧
      machine'.subTaskStackTop = some top ∧ machine'.blockedOnCounter = counter ∧
      machine'.point = machine.point ∧ machine'.freeAddress = machine.freeAddress ∧
      machine'.trace = machine.trace := by
  subst head
  obtain ⟨first, isFirst, -, -, -⟩ := stack.head
  have deep := stack.linked.head_le
  let awaiting : SubTask A E V :=
    { point := .awaitSubTask (headOf inner top) next', nextSubTask := some (headOf inner top),
      prevSubTask := lastOf none outer, hasBaseTask := true }
  let linking := machine.setSubTask self awaiting
  have apart : headOf inner top ≠ self := Nat.ne_of_gt lower
  have isFirst' : linking.subTasks (headOf inner top) = some first :=
    (setSubTask_other machine _ apart).trans isFirst
  have stack' : Waiting linking.subTasks false none inner top counter next :=
    stack.congr fun other above => setSubTask_other machine _ (by omega)
  let linked := linking.setSubTask (headOf inner top) { first with prevSubTask := some self }
  have selfLinked : linked.subTasks self = some awaiting :=
    (setSubTask_other linking _ apart.symm).trans (setSubTask_self machine self _)
  -- the walk passes the top itself first
  let passed := linked.setSubTask self awaiting
  have stack'' : Waiting passed.subTasks false (some self) inner top counter next :=
    (stack'.setPrev isFirst' (some self)).congr fun other above =>
      setSubTask_other linked _ (by omega)
  obtain ⟨machine', walked, waiting, newTop, counted, point, free, trace, same⟩ :=
    @updateFrom_waiting _ _ _ { passed with subTaskStackTop := some self } _ _ _
      (machine.freeAddress - 1) _ _ stack'' isTop.unblocked (by omega)
  have selfKept : machine'.subTasks self = some awaiting :=
    (same self lower).trans (setSubTask_self ..)
  refine ⟨machine', ?_, ?_, newTop, counted, point, free, trace⟩
  · unfold blockOnSubTask
    simp only [isTop.here, Option.bind_eq_bind, Option.bind_some]
    change (linking.subTasks (headOf inner top)).bind _ = _
    rw [isFirst', Option.bind_some, if_pos trivial]
    change updateFrom machine.freeAddress machine.subTaskStackTop linked = _
    rw [isTop.isTop, show machine.freeAddress = machine.freeAddress - 1 + 1 by omega, updateFrom,
      selfLinked]
    simp only [Option.bind_eq_bind, Option.bind_some]
    exact walked
  · refine Waiting.prepend ?_ (waiting.cons lower selfKept)
    refine isTop.linked.congr fun other _ below => ?_
    have below : other < self := below
    have notFirst : other ≠ headOf inner top := by omega
    rw [same other (by omega), setSubTask_other linked _ (Nat.ne_of_lt below),
      setSubTask_other linking _ notFirst]
    exact setSubTask_other machine _ (Nat.ne_of_lt below)

theorem exec_top (object : BitVec 64 → V) (body : Body A E V)
    {point : Point A E V} (top : IsTop machine awaiters address point) :
    ∃ machine' events, exec body (.sub address) machine = some machine' ∧
      machine'.point = machine.point ∧ machine'.trace = machine.trace ++ events ∧ Acts events ∧
      RanTop object (body.call object) events machine' awaiters address := by
  have here := top.here
  induction body generalizing machine point with
  | coReturn value =>
    refine ⟨machine.setSubTask address
        { point := .finished (.ok value), prevSubTask := lastOf none awaiters, hasBaseTask := true },
      [], ?_, rfl, (List.append_nil _).symm, acts_nil, .done (top.setSubTask _) rfl⟩
    simp only [exec, setPoint, here, Option.bind_eq_bind, Option.bind_some, Option.pure_def]
  | throw exception =>
    refine ⟨machine.setSubTask address
        { point := .finished (.error exception), prevSubTask := lastOf none awaiters, hasBaseTask := true },
      [], ?_, rfl, (List.append_nil _).symm, acts_nil, .done (top.setSubTask _) rfl⟩
    simp only [exec, setPoint, here, Option.bind_eq_bind, Option.bind_some, Option.pure_def]
  | act action next ih =>
    obtain ⟨machine', events, ran, same, trace, acts, outcome⟩ :=
      @ih { machine with trace := machine.trace ++ [.act action] } _
        ⟨top.linked, top.here, top.isTop, top.unblocked, top.inside⟩ here
    refine ⟨machine', .act action :: events, ran, same, ?_, acts.cons action, ?_⟩
    · rw [trace, List.append_assoc]
      rfl
    · exact outcome.after [.act action]
  | awaitCounter counter next ih =>
    have top' := top.setSubTask (.awaitCounter counter next)
    refine ⟨{ machine.setSubTask address
        { point := .awaitCounter counter next, prevSubTask := lastOf none awaiters,
          hasBaseTask := true } with blockedOnCounter := counter },
      [], ?_, rfl, (List.append_nil _).symm, acts_nil,
      .waiting [] address counter next (by
        rw [List.append_nil]
        exact ⟨top'.linked, top'.here⟩) rfl top'.isTop rfl top'.inside rfl⟩
    simp only [exec, setPoint, here, Option.bind_eq_bind, Option.bind_some, Option.pure_def,
      blockOnCounter, setSubTask_self, if_true]
  | awaitSubTask subTask next ihSub ihNext =>
    obtain ⟨middle, events, ran, keptBelow, base, trace, acts, outcome⟩ :=
      @exec_alone _ _ _ object subTask machine.freeAddress _ (machine.started subTask)
        (Nat.lt_succ_self _) (setSubTask_self ..)
    have kept := keptBelow.of_started .base
    have base' : SameBase machine middle :=
      ⟨base.point, base.blockedOnCounter, base.subTaskStackTop⟩
    cases outcome with
    | done done whole =>
      have still := @IsTop.keep _ _ _ machine (middle.destroySubTask machine.freeAddress) _ _ _ top
        kept.destroy ⟨base'.point, base'.blockedOnCounter, base'.subTaskStackTop⟩
      obtain ⟨machine', events', ran', same, trace', acts', outcome⟩ :=
        @ihNext _ _ _ still still.here
      refine ⟨machine', events ++ events', (exec_of_done ran done).trans ran',
        same.trans base'.point, ?_, acts.append acts', ?_⟩
      · rw [trace', ← List.append_assoc]
        exact congrArg (· ++ events') trace
      · rw [call_awaitSubTask, andThen, ← whole]
        exact outcome.after events
    | waiting inner newTop counter after stack head below rest =>
      obtain ⟨first, isFirst, notDone, -, -⟩ := stack.head
      rw [head] at isFirst
      have still := top.keep kept base'
      have inside := top.inside
      obtain ⟨machine', blocked, stack', isTop, counted, point', free, trace'⟩ :=
        blockOnSubTask_top (still.setSubTask (.awaitSubTask machine.freeAddress next))
          (stack.congr fun other above => setSubTask_other middle _ (by omega)) head inside
          below
      refine ⟨machine', events, ?_, point'.trans base'.point, trace'.trans trace, acts,
        .waiting _ newTop counter after stack' rfl isTop counted (by rw [free]; exact below) ?_⟩
      · rw [exec_of_waiting ran isFirst notDone, setPoint, still.here]
        exact blocked
      · rw [call_awaitSubTask, rest, andThen_after]
        rfl

end Machine

end Voxen.Svc.TaskCoro
