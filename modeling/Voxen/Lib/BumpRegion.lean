import Mathlib.Algebra.BigOperators.Group.List.Basic
import Mathlib.Algebra.GroupWithZero.Nat

/-!
# Bump allocated regions

Ranges are taken from a region one behind the other and given back in any order.  Two
counters stand for all of them: how much was taken, and how much was given back.
-/

namespace BumpRegion

structure Range where
  first : Nat
  last : Nat
deriving DecidableEq

def Range.size (range : Range) : Nat := range.last - range.first

/-- The ranges do not overlap. -/
def Range.Apart (one two : Range) : Prop := one.last ≤ two.first ∨ two.last ≤ one.first

theorem Range.Apart.symm {one two : Range} (apart : one.Apart two) : two.Apart one :=
  Or.symm apart

/-- The ranges that are held lie apart below the first counter, and the second one counts the
rest. -/
structure Inv (taken back : Nat) (held : List Range) : Prop where
  proper : ∀ range ∈ held, range.first < range.last
  inside : ∀ range ∈ held, range.last ≤ taken
  apart : held.Pairwise Range.Apart
  counted : back + (held.map Range.size).sum = taken

section Rules

variable {taken back : Nat} {held held' : List Range} {range : Range}

theorem Inv.start : Inv 0 0 [] where
  proper := fun _ absurd => (List.not_mem_nil absurd).elim
  inside := fun _ absurd => (List.not_mem_nil absurd).elim
  apart := List.Pairwise.nil
  counted := rfl

theorem Inv.perm (perm : List.Perm held held') (inv : Inv taken back held) :
    Inv taken back held' where
  proper := fun range mem => inv.proper range (perm.mem_iff.mpr mem)
  inside := fun range mem => inv.inside range (perm.mem_iff.mpr mem)
  apart := (perm.pairwise_iff fun apart => Range.Apart.symm apart).mp inv.apart
  counted := (perm.map Range.size).sum_eq ▸ inv.counted

/-- Take a range at the end. -/
theorem Inv.take (inv : Inv taken back held) {size : Nat} (some : 0 < size) :
    Inv (taken + size) back ({ first := taken, last := taken + size } :: held) where
  proper := List.forall_mem_cons.mpr ⟨Nat.lt_add_of_pos_right some, inv.proper⟩
  inside := List.forall_mem_cons.mpr
    ⟨Nat.le_refl _, fun range mem => Nat.le_add_right_of_le (inv.inside range mem)⟩
  apart := List.pairwise_cons.mpr ⟨fun range mem => Or.inr (inv.inside range mem), inv.apart⟩
  counted := by
    have counted := inv.counted
    rw [List.map_cons, List.sum_cons]
    dsimp only [Range.size]
    omega

/-- Give a range back. -/
theorem Inv.giveBack (inv : Inv taken back (range :: held)) :
    Inv taken (back + range.size) held where
  proper := (List.forall_mem_cons.mp inv.proper).2
  inside := (List.forall_mem_cons.mp inv.inside).2
  apart := (List.pairwise_cons.mp inv.apart).2
  counted := by
    have counted := inv.counted
    rw [List.map_cons, List.sum_cons, ← Nat.add_assoc] at counted
    exact counted

/-- When all was given back, no range is held. -/
theorem Inv.none_held (inv : Inv taken taken held) : held = [] := by
  cases held with
  | nil => rfl
  | cons range held =>
    have counted := inv.counted
    have proper := inv.proper range List.mem_cons_self
    rw [List.map_cons, List.sum_cons] at counted
    dsimp only [Range.size] at counted
    omega

end Rules

end BumpRegion
