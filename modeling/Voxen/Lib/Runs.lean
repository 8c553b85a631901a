import Mathlib.Data.List.Basic

/-!
# Runs of a step function

A system is a partial step function on its states; a run takes the actions of a
list one after another.  What the first state has and every step keeps holds in
every state a run reaches, also when only steps that meet a condition keep it.
-/

namespace Runs

variable {σ α : Type}

/-- Take the actions one after another; `none` if one of them is not possible. -/
def run (step : σ → α → Option σ) (state : σ) (actions : List α) : Option σ :=
  actions.foldlM step state

@[simp]
theorem run_nil (step : σ → α → Option σ) (state : σ) : run step state [] = some state := rfl

theorem run_cons (step : σ → α → Option σ) (state : σ) (action : α) (actions : List α) :
    run step state (action :: actions) =
      (step state action).bind fun state' => run step state' actions := rfl

theorem run_append (step : σ → α → Option σ) (state : σ) (before after : List α) :
    run step state (before ++ after) =
      (run step state before).bind fun state' => run step state' after :=
  List.foldlM_append

/-- Every step of the run meets the condition in the state it starts from. -/
def StepsMeet (step : σ → α → Option σ) (condition : σ → α → Prop) : σ → List α → Prop
  | _, [] => True
  | state, action :: actions => condition state action ∧
      match step state action with
      | none => True
      | some state' => StepsMeet step condition state' actions

instance StepsMeet.decidable (step : σ → α → Option σ) (condition : σ → α → Prop)
    [∀ state action, Decidable (condition state action)] :
    ∀ state actions, Decidable (StepsMeet step condition state actions)
  | _, [] => isTrue trivial
  | state, action :: actions => by
      unfold StepsMeet
      cases step state action with
      | none => exact inferInstanceAs (Decidable (_ ∧ True))
      | some state' =>
        have := StepsMeet.decidable step condition state' actions
        exact inferInstanceAs (Decidable (_ ∧ _))

theorem StepsMeet.imp {step : σ → α → Option σ} {one two : σ → α → Prop}
    (weaker : ∀ state action, one state action → two state action) {state : σ} {actions : List α}
    (meet : StepsMeet step one state actions) : StepsMeet step two state actions := by
  induction actions generalizing state with
  | nil => trivial
  | cons action actions ih =>
    obtain ⟨meets, rest⟩ := meet
    refine ⟨weaker state action meets, ?_⟩
    cases next : step state action with
    | none => trivial
    | some state' =>
      rw [next] at rest
      exact ih rest

theorem StepsMeet.and {step : σ → α → Option σ} {one two : σ → α → Prop} {state : σ}
    {actions : List α} (first : StepsMeet step one state actions)
    (second : StepsMeet step two state actions) :
    StepsMeet step (fun state action => one state action ∧ two state action) state actions := by
  induction actions generalizing state with
  | nil => trivial
  | cons action actions ih =>
    obtain ⟨meets, rest⟩ := first
    obtain ⟨meets', rest'⟩ := second
    refine ⟨⟨meets, meets'⟩, ?_⟩
    cases next : step state action with
    | none => trivial
    | some state' =>
      rw [next] at rest rest'
      exact ih rest rest'

/-- A condition on the actions alone is met by every step. -/
theorem stepsMeet_of_forall {step : σ → α → Option σ} {condition : σ → α → Prop}
    {actions : List α} (meets : ∀ action ∈ actions, ∀ state, condition state action) (state : σ) :
    StepsMeet step condition state actions := by
  induction actions generalizing state with
  | nil => trivial
  | cons action actions ih =>
    refine ⟨meets action List.mem_cons_self state, ?_⟩
    cases step state action with
    | none => trivial
    | some state' => exact ih (fun other mem => meets other (List.mem_cons_of_mem _ mem)) state'

/-- Invariant rule. -/
theorem run_invariant {step : σ → α → Option σ} {condition : σ → α → Prop} {Inv : σ → Prop}
    (preserved : ∀ state action state', Inv state → condition state action →
      step state action = some state' → Inv state')
    {state state' : σ} {actions : List α} (start : Inv state)
    (steps : StepsMeet step condition state actions)
    (reached : run step state actions = some state') : Inv state' := by
  induction actions generalizing state with
  | nil =>
    cases reached
    exact start
  | cons action actions ih =>
    obtain ⟨meets, rest⟩ := steps
    rw [run_cons] at reached
    cases next : step state action with
    | none =>
      rw [next] at reached
      cases reached
    | some middle =>
      rw [next] at reached rest
      exact ih (preserved state action middle start meets next) rest reached

/-- Invariant rule for what every step keeps. -/
theorem run_preserved {step : σ → α → Option σ} {Inv : σ → Prop}
    (preserved : ∀ state action state', Inv state → step state action = some state' → Inv state')
    {state state' : σ} {actions : List α} (start : Inv state)
    (reached : run step state actions = some state') : Inv state' :=
  run_invariant (fun state action state' inv (_ : True) => preserved state action state' inv) start
    (stepsMeet_of_forall (fun _ _ _ => trivial) state) reached

/-- Two conditions that are the same where an invariant holds, which steps that meet the
second one keep. -/
theorem stepsMeet_iff {step : σ → α → Option σ} {one two : σ → α → Prop} {Inv : σ → Prop}
    (same : ∀ state action state', Inv state → step state action = some state' →
      (one state action ↔ two state action))
    (preserved : ∀ state action state', Inv state → two state action →
      step state action = some state' → Inv state')
    {state state' : σ} {actions : List α} (start : Inv state)
    (reached : run step state actions = some state') :
    StepsMeet step one state actions ↔ StepsMeet step two state actions := by
  induction actions generalizing state with
  | nil => exact Iff.rfl
  | cons action actions ih =>
    rw [run_cons] at reached
    obtain ⟨middle, next, rest⟩ := Option.bind_eq_some_iff.mp reached
    simp only [StepsMeet, next, same state action middle start next]
    exact and_congr_right fun meets => ih (preserved state action middle start meets next) rest

/-- A property holds in every state of the run, from the first to the last. -/
def Throughout (step : σ → α → Option σ) (property : σ → Prop) : σ → List α → Prop
  | state, [] => property state
  | state, action :: actions => property state ∧
      match step state action with
      | none => True
      | some state' => Throughout step property state' actions

theorem Throughout.first {step : σ → α → Option σ} {property : σ → Prop} {state : σ}
    {actions : List α} (holds : Throughout step property state actions) : property state := by
  cases actions with
  | nil => exact holds
  | cons action actions => exact holds.1

theorem throughout_of_forall {step : σ → α → Option σ} {property : σ → Prop}
    (holds : ∀ state, property state) (state : σ) (actions : List α) :
    Throughout step property state actions := by
  induction actions generalizing state with
  | nil => exact holds state
  | cons action actions ih =>
    refine ⟨holds state, ?_⟩
    cases step state action with
    | none => trivial
    | some state' => exact ih state'

theorem Throughout.after_steps {step : σ → α → Option σ} {property : σ → Prop} {state : σ}
    {actions : List α} (holds : Throughout step property state actions) :
    StepsMeet step (fun state action => ∀ state', step state action = some state' →
      property state') state actions := by
  induction actions generalizing state with
  | nil => trivial
  | cons action actions ih =>
    obtain ⟨-, rest⟩ := holds
    unfold StepsMeet
    cases next : step state action with
    | none => exact ⟨nofun, trivial⟩
    | some state' =>
      rw [next] at rest
      refine ⟨fun other same => ?_, ih rest⟩
      cases same
      exact rest.first

/-- The property holds throughout a run exactly if its steps meet a condition: a step that
meets it keeps an invariant that gives the property, one that does not breaks the property. -/
theorem throughout_iff_stepsMeet {step : σ → α → Option σ} {condition : σ → α → Prop}
    {Inv property : σ → Prop} (holds : ∀ state, Inv state → property state)
    (preserved : ∀ state action state', Inv state → condition state action →
      step state action = some state' → Inv state')
    (broken : ∀ state action state', Inv state → ¬ condition state action →
      step state action = some state' → ¬ property state')
    {state state' : σ} {actions : List α} (start : Inv state)
    (reached : run step state actions = some state') :
    Throughout step property state actions ↔ StepsMeet step condition state actions := by
  induction actions generalizing state with
  | nil => exact iff_of_true (holds state start) trivial
  | cons action actions ih =>
    rw [run_cons] at reached
    obtain ⟨middle, next, rest⟩ := Option.bind_eq_some_iff.mp reached
    simp only [Throughout, StepsMeet, next, holds state start, true_and]
    constructor
    · intro through
      have meets : condition state action := by
        by_contra fails
        exact broken state action middle start fails next through.first
      exact ⟨meets, (ih (preserved state action middle start meets next) rest).mp through⟩
    · rintro ⟨meets, steps⟩
      exact (ih (preserved state action middle start meets next) rest).mpr steps

end Runs
