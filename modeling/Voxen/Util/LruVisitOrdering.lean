import Mathlib.Data.List.Sort

/-!
# Least recently updated keys

`LruVisitOrdering` is a priority queue of keys with the ticks to visit them on.  A visit
takes the oldest key, and puts it back with the tick its callback returns.
-/

namespace Voxen

namespace LruVisitOrdering

variable {Key : Type} [LE Key] [DecidableLE Key]

/-- The order of `std::pair`: first by tick, then by key. -/
def Before (one two : Int × Key) : Prop := one.1 < two.1 ∨ one.1 = two.1 ∧ one.2 ≤ two.2

instance : DecidableRel (@Before Key _) := fun _ _ => inferInstanceAs (Decidable (_ ∨ _))

end LruVisitOrdering

/-- `m_queue`, its items in the order they come out in. -/
abbrev LruVisitOrdering (Key : Type) := List (Int × Key)

namespace LruVisitOrdering

variable {Key σ : Type} [LE Key] [DecidableLE Key]

/-- `addKey(key, tick)`. -/
def addKey (queue : LruVisitOrdering Key) (key : Key) (tick : Int) : LruVisitOrdering Key :=
  queue.orderedInsert Before (tick, key)

/-- `visitOldest(fn, count, tick_cutoff)` with a callback that changes a state, and that throws
when it returns no tick.  The flag tells whether the visit got to its end. -/
def visitOldest (fn : σ → Key → σ × Option Int) (tickCutoff : Int) :
    Nat → LruVisitOrdering Key → σ → LruVisitOrdering Key × σ × Bool
  | 0, queue, state => (queue, state, true)
  | _ + 1, [], state => ([], state, true)
  | count + 1, (tick, key) :: rest, state =>
    if tickCutoff < tick then ((tick, key) :: rest, state, true)
    else
      match fn state key with
      | (state, none) => ((tick, key) :: rest, state, false)
      | (state, some newTick) =>
        -- an invalid tick removes the key
        if newTick < 0 then visitOldest fn tickCutoff count rest state
        else visitOldest fn tickCutoff count (addKey rest key newTick) state

theorem visitOldest_invariant {fn : σ → Key → σ × Option Int} {Inv : σ → Prop}
    (preserved : ∀ state key, Inv state → Inv (fn state key).1) (tickCutoff : Int) (count : Nat)
    (queue : LruVisitOrdering Key) {state : σ} (inv : Inv state) :
    Inv (visitOldest fn tickCutoff count queue state).2.1 := by
  induction count generalizing queue state with
  | zero =>
    unfold visitOldest
    exact inv
  | succ count ih =>
    cases queue with
    | nil => exact inv
    | cons item rest =>
      obtain ⟨tick, key⟩ := item
      have kept := preserved state key inv
      unfold visitOldest
      split
      · exact inv
      · split
        · rename_i called
          rw [called] at kept
          exact kept
        · rename_i called
          rw [called] at kept
          split
          · exact ih rest kept
          · exact ih _ kept

end LruVisitOrdering

end Voxen
