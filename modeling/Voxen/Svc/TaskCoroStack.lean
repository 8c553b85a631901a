import Voxen.Svc.TaskCoro

/-!
# The await stack

The sub-tasks from the one that the base task awaits to the innermost one are linked in
both directions.  Their addresses grow inwards, so no link leads back.
-/

namespace Voxen.Svc.TaskCoro

variable {A E V : Type}

/-! ## What is left of a call -/

/-- Some events before the rest of a call. -/
def after (events : List (Event A)) (rest : List (Event A) × Except E V) :
    List (Event A) × Except E V :=
  (events ++ rest.1, rest.2)

/-- The awaiter goes on with the result. -/
def andThen (object : BitVec 64 → V) (next : Except E V → Body A E V)
    (rest : List (Event A) × Except E V) : List (Event A) × Except E V :=
  after rest.1 ((next rest.2).call object)

/-- A sub-task that awaits the next inner one, and what it does with the result. -/
abbrev Awaiter (A E V : Type) : Type := Nat × (Except E V → Body A E V)

/-- The awaiters, outermost first, go on one after the other. -/
def returnThrough (object : BitVec 64 → V) :
    List (Awaiter A E V) → List (Event A) × Except E V → List (Event A) × Except E V
  | [], rest => rest
  | awaiter :: inner, rest => andThen object awaiter.2 (returnThrough object inner rest)

theorem after_after (first second : List (Event A)) (rest : List (Event A) × Except E V) :
    after first (after second rest) = after (first ++ second) rest := by
  unfold after
  rw [List.append_assoc]

theorem andThen_after (object : BitVec 64 → V) (next : Except E V → Body A E V)
    (events : List (Event A)) (rest : List (Event A) × Except E V) :
    andThen object next (after events rest) = after events (andThen object next rest) := by
  unfold andThen
  rw [after_after]
  rfl

theorem returnThrough_after (object : BitVec 64 → V) (awaiters : List (Awaiter A E V))
    (events : List (Event A)) (rest : List (Event A) × Except E V) :
    returnThrough object awaiters (after events rest) =
      after events (returnThrough object awaiters rest) := by
  induction awaiters with
  | nil => rfl
  | cons awaiter inner ih =>
    unfold returnThrough
    rw [ih, andThen_after]

theorem returnThrough_append (object : BitVec 64 → V) (outer inner : List (Awaiter A E V))
    (rest : List (Event A) × Except E V) :
    returnThrough object (outer ++ inner) rest =
      returnThrough object outer (returnThrough object inner rest) := by
  induction outer with
  | nil => rfl
  | cons awaiter outer ih =>
    rw [List.cons_append]
    unfold returnThrough
    rw [ih]

theorem call_awaitSubTask (object : BitVec 64 → V) (subTask : Body A E V)
    (next : Except E V → Body A E V) :
    (Body.awaitSubTask subTask next).call object = andThen object next (subTask.call object) := rfl

/-- What is left of a call that awaits a counter. -/
def pending (object : BitVec 64 → V) (counter : BitVec 64) (next : V → Body A E V) :
    List (Event A) × Except E V :=
  after [.waited counter] ((next (object counter)).call object)

/-! ## Links -/

/-- The outermost of the awaiters and the sub-task inside them. -/
def headOf : List (Awaiter A E V) → Nat → Nat
  | [], inside => inside
  | awaiter :: _, _ => awaiter.1

/-- What the sub-task inside the awaiters has before it. -/
def lastOf (prev : Option Nat) : List (Awaiter A E V) → Option Nat
  | [] => prev
  | awaiter :: inner => lastOf (some awaiter.1) inner

/-- The awaiters are linked with each other and with the sub-task inside them. -/
def Linked (subTasks : Nat → Option (SubTask A E V)) (hasBaseTask : Bool) :
    Option Nat → List (Awaiter A E V) → Nat → Prop
  | _, [], _ => True
  | prev, (address, next) :: inner, inside =>
    subTasks address = some {
      point := .awaitSubTask (headOf inner inside) next
      nextSubTask := some (headOf inner inside)
      prevSubTask := prev
      hasBaseTask := hasBaseTask } ∧
    address < headOf inner inside ∧ Linked subTasks hasBaseTask (some address) inner inside

variable {subTasks subTasks' : Nat → Option (SubTask A E V)} {hasBaseTask : Bool}
  {prev : Option Nat} {awaiters : List (Awaiter A E V)} {inside : Nat}

theorem headOf_cons (awaiter : Awaiter A E V) (inner : List (Awaiter A E V)) (inside : Nat) :
    headOf (awaiter :: inner) inside = awaiter.1 := rfl

theorem headOf_append (outer inner : List (Awaiter A E V)) (inside : Nat) :
    headOf (outer ++ inner) inside = headOf outer (headOf inner inside) := by
  cases outer with
  | nil => rfl
  | cons first rest => rfl

theorem lastOf_append (prev : Option Nat) (outer : List (Awaiter A E V))
    (awaiter : Awaiter A E V) : lastOf prev (outer ++ [awaiter]) = some awaiter.1 := by
  induction outer generalizing prev with
  | nil => rfl
  | cons first rest ih => exact ih _

theorem Linked.head_le (linked : Linked subTasks hasBaseTask prev awaiters inside) :
    headOf awaiters inside + awaiters.length ≤ inside := by
  induction awaiters generalizing prev with
  | nil => exact Nat.le_refl _
  | cons awaiter inner ih =>
    obtain ⟨-, lower, rest⟩ := linked
    have below := ih rest
    rw [List.length_cons, headOf_cons]
    omega

theorem Linked.congr (linked : Linked subTasks hasBaseTask prev awaiters inside)
    (same : ∀ address, headOf awaiters inside ≤ address → address < inside →
      subTasks' address = subTasks address) :
    Linked subTasks' hasBaseTask prev awaiters inside := by
  induction awaiters generalizing prev with
  | nil => trivial
  | cons awaiter inner ih =>
    obtain ⟨here, lower, rest⟩ := linked
    have below := rest.head_le
    have inner_lt : awaiter.1 < inside := by omega
    refine ⟨(same _ (Nat.le_refl _) inner_lt).trans here, lower, ih rest ?_⟩
    exact fun address above => same address (Nat.le_trans (Nat.le_of_lt lower) above)

theorem linked_append {awaiter : Awaiter A E V} :
    Linked subTasks hasBaseTask prev (awaiters ++ [awaiter]) inside ↔
      Linked subTasks hasBaseTask prev awaiters awaiter.1 ∧
      subTasks awaiter.1 = some {
        point := .awaitSubTask inside awaiter.2
        nextSubTask := some inside
        prevSubTask := lastOf prev awaiters
        hasBaseTask := hasBaseTask } ∧ awaiter.1 < inside := by
  induction awaiters generalizing prev with
  | nil => exact ⟨fun ⟨here, lower, _⟩ => ⟨trivial, here, lower⟩,
      fun ⟨_, here, lower⟩ => ⟨here, lower, trivial⟩⟩
  | cons first rest ih =>
    rw [List.cons_append]
    unfold Linked
    rw [headOf_append, ih]
    change _ ∧ _ < headOf rest awaiter.1 ∧ _ ↔ _
    exact ⟨fun ⟨here, lower, linked, last⟩ => ⟨⟨here, lower, linked⟩, last⟩,
      fun ⟨⟨here, lower, linked⟩, last⟩ => ⟨here, lower, linked, last⟩⟩

/-- A stack whose innermost sub-task awaits a counter. -/
structure Waiting (subTasks : Nat → Option (SubTask A E V)) (hasBaseTask : Bool)
    (prev : Option Nat) (awaiters : List (Awaiter A E V)) (top : Nat) (counter : BitVec 64)
    (next : V → Body A E V) : Prop where
  linked : Linked subTasks hasBaseTask prev awaiters top
  top : subTasks top = some {
    point := .awaitCounter counter next
    -- a counter is passed on to the base task
    blockedOnCounter := if hasBaseTask then 0 else counter
    prevSubTask := lastOf prev awaiters
    hasBaseTask := hasBaseTask }

variable {top : Nat} {counter : BitVec 64} {next : V → Body A E V}

theorem Waiting.congr (waiting : Waiting subTasks hasBaseTask prev awaiters top counter next)
    (same : ∀ address, headOf awaiters top ≤ address → subTasks' address = subTasks address) :
    Waiting subTasks' hasBaseTask prev awaiters top counter next := by
  have below := waiting.linked.head_le
  exact ⟨waiting.linked.congr fun address above _ => same address above,
    (same top (by omega)).trans waiting.top⟩

theorem Waiting.head (waiting : Waiting subTasks hasBaseTask prev awaiters top counter next) :
    ∃ subTask, subTasks (headOf awaiters top) = some subTask ∧
      (∀ result, subTask.point ≠ .finished result) ∧
      subTask.prevSubTask = prev ∧ subTask.hasBaseTask = hasBaseTask := by
  cases awaiters with
  | nil => exact ⟨_, waiting.top, nofun, rfl, rfl⟩
  | cons awaiter inner => exact ⟨_, waiting.linked.1, nofun, rfl, rfl⟩

theorem Waiting.setPrev {subTask : SubTask A E V}
    (waiting : Waiting subTasks hasBaseTask prev awaiters top counter next)
    (here : subTasks (headOf awaiters top) = some subTask) (prev' : Option Nat) :
    Waiting (Function.update subTasks (headOf awaiters top)
        (some { subTask with prevSubTask := prev' })) hasBaseTask prev' awaiters top counter
      next := by
  cases awaiters with
  | nil =>
    have same := here.symm.trans waiting.top
    cases same
    exact ⟨trivial, Function.update_self ..⟩
  | cons awaiter inner =>
    obtain ⟨first, lower, rest⟩ := waiting.linked
    have same := here.symm.trans first
    cases same
    have below := rest.head_le
    have others : ∀ address, headOf inner top ≤ address →
        Function.update subTasks awaiter.1 (some
          { point := .awaitSubTask (headOf inner top) awaiter.2,
            nextSubTask := some (headOf inner top),
            prevSubTask := prev',
            hasBaseTask := hasBaseTask }) address = subTasks address := by
      intro address above
      refine Function.update_of_ne ?_ _ _
      have lower : awaiter.1 < headOf inner top := lower
      omega
    exact ⟨⟨Function.update_self .., lower, rest.congr fun address above _ => others address above⟩,
      (others top (by omega)).trans waiting.top⟩

theorem Waiting.cons {address : Nat} {next' : Except E V → Body A E V}
    (waiting : Waiting subTasks hasBaseTask (some address) awaiters top counter next)
    (lower : address < headOf awaiters top)
    (here : subTasks address = some {
      point := .awaitSubTask (headOf awaiters top) next'
      nextSubTask := some (headOf awaiters top)
      prevSubTask := prev
      hasBaseTask := hasBaseTask }) :
    Waiting subTasks hasBaseTask prev ((address, next') :: awaiters) top counter next :=
  ⟨⟨here, lower, waiting.linked⟩, waiting.top⟩

variable {outer inner : List (Awaiter A E V)}

theorem Waiting.prepend (linked : Linked subTasks hasBaseTask prev outer (headOf inner top))
    (stack : Waiting subTasks hasBaseTask (lastOf prev outer) inner top counter next) :
    Waiting subTasks hasBaseTask prev (outer ++ inner) top counter next := by
  induction outer generalizing prev with
  | nil => exact stack
  | cons awaiter outer ih =>
    obtain ⟨here, lower, rest⟩ := linked
    rw [← headOf_append] at here lower
    exact (ih rest stack).cons lower here

theorem Waiting.drop
    (stack : Waiting subTasks hasBaseTask prev (outer ++ inner) top counter next) :
    Waiting subTasks hasBaseTask (lastOf prev outer) inner top counter next := by
  induction outer generalizing prev with
  | nil => exact stack
  | cons awaiter outer ih => exact ih ⟨stack.linked.2.2, stack.top⟩

end Voxen.Svc.TaskCoro
