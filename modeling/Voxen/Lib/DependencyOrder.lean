import Mathlib.Data.List.Induction
import Mathlib.Logic.Relation

/-!
# Dependency orders

Things depend on each other.  A list is in dependency order if everything a member
depends on comes before it.  Such a list is closed under dependencies, and no cycle
is reached from it.
-/

variable {α : Type}

/-- `a` comes before `b`. -/
def List.Before (order : List α) (a b : α) : Prop :=
  ∃ before after, order = before ++ b :: after ∧ a ∈ before

theorem List.Before.reverse {order : List α} {a b : α} (isBefore : order.Before a b) :
    order.reverse.Before b a := by
  obtain ⟨before, after, rfl, mem⟩ := isBefore
  obtain ⟨first, second, rfl⟩ := List.append_of_mem mem
  refine ⟨(second ++ b :: after).reverse, first.reverse, by simp, ?_⟩
  simp

namespace DependencyOrder

open Relation

variable {depends depends' : α → α → Prop} {good : α → Prop} {a b : α} {order : List α}

/-- Nothing that `a` needs is bad or needs itself. -/
def Startable (depends : α → α → Prop) (good : α → Prop) (a : α) : Prop :=
  ∀ b, ReflTransGen depends a b → good b ∧ ¬ TransGen depends b b

theorem Startable.of_depends (startable : Startable depends good a) (needs : depends a b) :
    Startable depends good b :=
  fun c reaches => startable c (.head needs reaches)

/-- Everything that a member depends on comes before it. -/
def Ordered (depends : α → α → Prop) (order : List α) : Prop :=
  ∀ before a after, order = before ++ a :: after → ∀ b, depends a b → b ∈ before

theorem Ordered.nil : Ordered depends ([] : List α) := by
  intro before a after same
  simp at same

theorem Ordered.before (ordered : Ordered depends order) (mem : a ∈ order)
    (needs : depends a b) : order.Before b a := by
  obtain ⟨before, after, same⟩ := List.append_of_mem mem
  exact ⟨before, after, same, ordered before a after same b needs⟩

theorem Ordered.closed (ordered : Ordered depends order) (mem : a ∈ order)
    (needs : depends a b) : b ∈ order := by
  obtain ⟨before, after, rfl, isBefore⟩ := ordered.before mem needs
  exact List.mem_append_left _ isBefore

theorem Ordered.reached (ordered : Ordered depends order) (mem : a ∈ order)
    (reaches : ReflTransGen depends a b) : b ∈ order := by
  induction reaches with
  | refl => exact mem
  | tail _ needs ih => exact ordered.closed ih needs

/-- Only the dependencies of the members matter. -/
theorem Ordered.congr (ordered : Ordered depends order)
    (same : ∀ a ∈ order, ∀ b, depends' a b → depends a b) : Ordered depends' order := by
  rintro before a after rfl b needs
  exact ordered before a after rfl b (same a (by simp) b needs)

/-- A new member comes last. -/
theorem Ordered.snoc (ordered : Ordered depends order) (needed : ∀ b, depends a b → b ∈ order) :
    Ordered depends (order ++ [a]) := by
  intro before c after same b needs
  cases after using List.reverseRecOn with
  | nil =>
    obtain ⟨rfl, last⟩ := List.append_inj' same rfl
    cases last
    exact needed b needs
  | append_singleton after last =>
    rw [← List.cons_append, ← List.append_assoc] at same
    obtain ⟨rfl, -⟩ := List.append_inj' same rfl
    exact ordered before c after rfl b needs

theorem Ordered.of_snoc (ordered : Ordered depends (order ++ [a])) : Ordered depends order := by
  rintro before c after rfl b needs
  exact ordered before c (after ++ [a]) (by simp) b needs

/-- What is in dependency order needs nothing bad and no cycle. -/
theorem Ordered.startable (ordered : Ordered depends order) (nodup : order.Nodup)
    (allGood : ∀ a ∈ order, good a) (mem : a ∈ order) : Startable depends good a := by
  have noCycle : ∀ c ∈ order, ¬ TransGen depends c c := by
    clear allGood mem
    induction order using List.reverseRecOn with
    | nil => simp
    | append_singleton order last ih =>
      have notLast : last ∉ order := fun mem =>
        (List.nodup_append.mp nodup).2.2 last mem last (by simp) rfl
      intro c mem cycle
      rcases List.mem_append.mp mem with mem | mem
      · exact ih ordered.of_snoc (List.nodup_append.mp nodup).1 c mem cycle
      · obtain rfl := List.mem_singleton.mp mem
        obtain ⟨next, needs, back⟩ := TransGen.head'_iff.mp cycle
        have nextMem : next ∈ order := ordered order c [] rfl next needs
        exact notLast (ordered.of_snoc.reached nextMem back)
  intro b reaches
  have reached := ordered.reached mem reaches
  exact ⟨allGood b reached, noCycle b reached⟩

end DependencyOrder
