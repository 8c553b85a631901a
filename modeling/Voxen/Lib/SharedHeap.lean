import Mathlib.Logic.Function.Basic

/-!
# A heap of shared cells

Cells are found by address, and fresh addresses are handed out in order.  A cell
that nobody writes to keeps its content, so whoever reads below an address reads
the same as long as all writes are to that address or above.
-/

variable {C : Type}

/-- Cells by address; addresses from `freeAddress` on have not been handed out. -/
structure SharedHeap (C : Type) where
  cells : Nat → Option C := fun _ => none
  freeAddress : Nat := 0

namespace SharedHeap

def write (heap : SharedHeap C) (address : Nat) (cell : C) : SharedHeap C :=
  { heap with cells := Function.update heap.cells address (some cell) }

/-- The cell goes to `heap.freeAddress`. -/
def allocate (heap : SharedHeap C) (cell : C) : SharedHeap C :=
  { cells := Function.update heap.cells heap.freeAddress (some cell)
    freeAddress := heap.freeAddress + 1 }

/-- A written cell is what was written or an old cell. -/
theorem write_cases {heap : SharedHeap C} {address other : Nat} {cell found : C}
    (holds : (heap.write address cell).cells other = some found) :
    found = cell ∨ heap.cells other = some found := by
  change Function.update heap.cells address (some cell) other = some found at holds
  by_cases same : other = address
  · rw [same, Function.update_self] at holds
    exact Or.inl (Option.some.inj holds).symm
  · rw [Function.update_of_ne same] at holds
    exact Or.inr holds

theorem allocate_cases {heap : SharedHeap C} {other : Nat} {cell found : C}
    (holds : (heap.allocate cell).cells other = some found) :
    found = cell ∨ heap.cells other = some found :=
  @write_cases _ heap _ _ _ _ holds

/-- The two heaps have the same cells below the mark. -/
def SameBelow (mark : Nat) (heap heap' : SharedHeap C) : Prop :=
  ∀ address, address < mark → heap'.cells address = heap.cells address

theorem SameBelow.refl (mark : Nat) (heap : SharedHeap C) : SameBelow mark heap heap :=
  fun _ _ => rfl

theorem SameBelow.write {mark : Nat} {heap heap' : SharedHeap C} (same : SameBelow mark heap heap')
    {address : Nat} (above : mark ≤ address) (cell : C) :
    SameBelow mark heap (heap'.write address cell) := by
  intro other below
  refine (Function.update_of_ne ?_ _ _).trans (same other below)
  exact Nat.ne_of_lt (Nat.lt_of_lt_of_le below above)

theorem SameBelow.allocate {mark : Nat} {heap heap' : SharedHeap C}
    (same : SameBelow mark heap heap') (above : mark ≤ heap'.freeAddress) (cell : C) :
    SameBelow mark heap (heap'.allocate cell) :=
  same.write above cell

/-- Below the mark the cells point below the mark only. -/
def ClosedBelow (pointers : C → List Nat) (mark : Nat) (heap : SharedHeap C) : Prop :=
  ∀ address cell, address < mark → heap.cells address = some cell →
    ∀ pointer ∈ pointers cell, pointer < mark

end SharedHeap
