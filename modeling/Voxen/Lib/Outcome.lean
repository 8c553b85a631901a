import Mathlib.Logic.Basic

/-!
# Outcomes of computations that may fail

A computation ends in a result or in a fault.  What holds of either is shown along its
binds, as with pre- and postconditions.
-/

namespace Outcome

variable {ε α β : Type}

/-- The result has the one property, or the fault has the other one. -/
def Holds (fault : ε → Prop) (post : α → Prop) : Except ε α → Prop
  | .error error => fault error
  | .ok result => post result

section Rules

variable {fault : ε → Prop} {post : α → Prop} {outcome : Except ε α}

@[simp]
theorem holds_ok {result : α} : Holds fault post (.ok result) ↔ post result := Iff.rfl

@[simp]
theorem holds_error {error : ε} : Holds fault post (.error error) ↔ fault error := Iff.rfl

/-- Nothing is said of the outcome. -/
theorem holds_any (outcome : Except ε α) : Holds (fun _ => True) (fun _ => True) outcome := by
  cases outcome <;> trivial

/-- Sequence rule. -/
theorem Holds.bind {post' : β → Prop} {next : α → Except ε β}
    (first : Holds fault post outcome)
    (second : ∀ result, post result → Holds fault post' (next result)) :
    Holds fault post' (outcome >>= next) := by
  cases outcome with
  | error error => exact first
  | ok result => exact second result first

/-- Consequence rule. -/
theorem Holds.mono {post' : α → Prop} (holds : Holds fault post outcome)
    (weaker : ∀ result, post result → post' result) : Holds fault post' outcome := by
  cases outcome with
  | error error => exact holds
  | ok result => exact weaker result holds

/-- Two properties of the result; the fault has the first property of faults. -/
theorem Holds.and {fault' : ε → Prop} {post' : α → Prop} (holds : Holds fault post outcome)
    (holds' : Holds fault' post' outcome) :
    Holds fault (fun result => post result ∧ post' result) outcome := by
  cases outcome with
  | error error => exact holds
  | ok result => exact ⟨holds, holds'⟩

/-- What the outcome with a result has. -/
theorem Holds.of_eq_ok {result : α} (holds : Holds fault post outcome)
    (same : outcome = .ok result) : post result := by
  rw [same] at holds
  exact holds

theorem Holds.of_eq_error {error : ε} (holds : Holds fault post outcome)
    (same : outcome = .error error) : fault error := by
  rw [same] at holds
  exact holds

/-- The result of an outcome that has one. -/
theorem eq_ok_of_toOption {result : α} (same : outcome.toOption = some result) :
    outcome = .ok result := by
  cases outcome with
  | error error => cases same
  | ok other =>
    cases same
    rfl

/-- Loop rule. -/
theorem Holds.foldlM {inv : β → Prop} {body : β → α → Except ε β} {items : List α}
    (kept : ∀ state, ∀ item ∈ items, inv state → Holds fault inv (body state item)) {state : β}
    (start : inv state) : Holds fault inv (items.foldlM body state) := by
  induction items generalizing state with
  | nil => exact start
  | cons item items ih =>
    obtain ⟨first, rest⟩ : (∀ state, inv state → Holds fault inv (body state item)) ∧
        ∀ state, ∀ item ∈ items, inv state → Holds fault inv (body state item) :=
      ⟨fun state => kept state item List.mem_cons_self,
        fun state item mem => kept state item (List.mem_cons_of_mem _ mem)⟩
    rw [List.foldlM_cons]
    exact (first state start).bind fun state' next => ih rest next

end Rules

end Outcome
