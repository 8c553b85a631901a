import Mathlib.Algebra.BigOperators.Group.List.Basic
import Mathlib.Algebra.Order.Group.Multiset
import Voxen.Util.LruVisitOrdering

/-!
# Calls of a visit

A visit calls back for one entry after another.  The entries are a multiset here: every
call takes one with the least tick and puts back what the callback leaves of it.
-/

namespace Voxen.LruVisitOrdering

variable {Key σ : Type}

/-- The entries come out from the least tick on. -/
def Ordered (queue : LruVisitOrdering Key) : Prop := queue.Pairwise fun one two => one.1 ≤ two.1

/-- A call for an entry, with the tick it returned unless it threw. -/
abbrev Call (Key : Type) := (Int × Key) × Option Int

/-- What a call leaves of its entry.  The key is copied out of the top before the pop, so it is
the same one that comes back. -/
def Call.left : Call Key → Multiset (Int × Key)
  | (item, none) => {item}
  | ((_, key), some newTick) => if newTick < 0 then 0 else {(newTick, key)}

/-- Calls one after another, from the entries before them to those after them; the last one has
thrown unless the flag is set. -/
inductive Visits (fn : σ → Key → σ × Option Int) (tickCutoff : Int) :
    Multiset (Int × Key) → σ → List (Call Key) → Multiset (Int × Key) → σ → Bool → Prop where
  | done (items : Multiset (Int × Key)) (state : σ) :
      Visits fn tickCutoff items state [] items state true
  | throws {item : Int × Key} {rest : Multiset (Int × Key)} {state state' : σ}
      (least : ∀ other ∈ rest, item.1 ≤ other.1) (within : item.1 ≤ tickCutoff)
      (called : fn state item.2 = (state', none)) :
      Visits fn tickCutoff (item ::ₘ rest) state [(item, none)] (item ::ₘ rest) state' false
  | call {item : Int × Key} {rest items : Multiset (Int × Key)} {state middle state' : σ}
      {newTick : Int} {calls : List (Call Key)} {ended : Bool}
      (least : ∀ other ∈ rest, item.1 ≤ other.1) (within : item.1 ≤ tickCutoff)
      (called : fn state item.2 = (middle, some newTick))
      (further : Visits fn tickCutoff (Call.left (item, some newTick) + rest) middle calls items
        state' ended) :
      Visits fn tickCutoff (item ::ₘ rest) state ((item, some newTick) :: calls) items state'
        ended

/-- Over all the calls, the entries visited are replaced by what the calls left of them. -/
theorem Visits.balance {fn : σ → Key → σ × Option Int} {tickCutoff : Int}
    {items items' : Multiset (Int × Key)} {state state' : σ} {calls : List (Call Key)}
    {ended : Bool} (visits : Visits fn tickCutoff items state calls items' state' ended) :
    items' + (calls.map Prod.fst : Multiset (Int × Key)) = items + (calls.map Call.left).sum := by
  induction visits with
  | done => simp
  | throws => simp [Call.left]
  | @call item rest items state middle state' newTick calls ended _ _ _ _ ih =>
    rw [List.map_cons, List.map_cons, List.sum_cons, ← Multiset.cons_coe, Multiset.add_cons, ih,
      Multiset.cons_add]
    exact congrArg (item ::ₘ ·) (by rw [add_comm (Call.left _) rest, add_assoc])

variable [LE Key] [DecidableLE Key]

theorem addKey_coe (queue : LruVisitOrdering Key) (key : Key) (tick : Int) :
    (addKey queue key tick : Multiset (Int × Key)) = (tick, key) ::ₘ ↑queue :=
  Multiset.coe_eq_coe.mpr (List.perm_orderedInsert Before (tick, key) queue)

theorem addKey_ordered {queue : LruVisitOrdering Key} (ordered : Ordered queue) (key : Key)
    (tick : Int) : Ordered (addKey queue key tick) := by
  induction queue with
  | nil => exact List.pairwise_singleton _ _
  | cons first rest ih =>
    obtain ⟨least, below⟩ := List.pairwise_cons.mp ordered
    unfold addKey
    rw [List.orderedInsert_cons]
    split
    · rename_i before
      have early : tick ≤ first.1 := before.elim Int.le_of_lt fun same => Int.le_of_eq same.1
      refine List.pairwise_cons.mpr ⟨List.forall_mem_cons.mpr ⟨early, fun other mem => ?_⟩,
        ordered⟩
      exact Int.le_trans early (least other mem)
    · rename_i after
      refine List.pairwise_cons.mpr ⟨fun other mem => ?_, ih below⟩
      rcases (List.mem_orderedInsert (r := Before)).mp mem with rfl | mem
      · exact Int.not_lt.mp fun early => after (Or.inl early)
      · exact least other mem

theorem exists_ordered (items : Multiset (Int × Key)) :
    ∃ queue : LruVisitOrdering Key, Ordered queue ∧ ↑queue = items := by
  induction items using Multiset.induction_on with
  | empty => exact ⟨[], List.Pairwise.nil, rfl⟩
  | cons item items ih =>
    obtain ⟨queue, ordered, rfl⟩ := ih
    exact ⟨addKey queue item.2 item.1, addKey_ordered ordered item.2 item.1,
      addKey_coe queue item.2 item.1⟩

/-- The calls of a visit.  It stops early at the end of the entries, at the cutoff or when a call
throws. -/
theorem visitOldest_calls (fn : σ → Key → σ × Option Int) (tickCutoff : Int) (count : Nat)
    {queue : LruVisitOrdering Key} (ordered : Ordered queue) (state : σ) :
    ∃ queue' state' ended calls,
      visitOldest fn tickCutoff count queue state = (queue', state', ended) ∧
      calls.length ≤ count ∧
      Visits fn tickCutoff ↑queue state calls ↑queue' state' ended ∧ Ordered queue' ∧
      (ended = true → calls.length < count → ∀ item ∈ queue', tickCutoff < item.1) := by
  induction count generalizing queue state with
  | zero =>
    exact ⟨queue, state, true, [], visitOldest.eq_1 .., Nat.le_refl 0, .done _ _, ordered,
      fun _ absurd => (Nat.not_lt_zero _ absurd).elim⟩
  | succ count ih =>
    cases queue with
    | nil =>
      exact ⟨[], state, true, [], rfl, Nat.zero_le _, .done _ _, ordered,
        fun _ _ _ absurd => (List.not_mem_nil absurd).elim⟩
    | cons item rest =>
      obtain ⟨tick, key⟩ := item
      obtain ⟨least, below⟩ := List.pairwise_cons.mp ordered
      rw [← Multiset.cons_coe]
      by_cases cutoff : tickCutoff < tick
      · refine ⟨(tick, key) :: rest, state, true, [], if_pos cutoff, Nat.zero_le _, .done _ _,
          ordered, fun _ _ => List.forall_mem_cons.mpr ⟨cutoff, fun other mem => ?_⟩⟩
        exact Int.lt_of_lt_of_le cutoff (least other mem)
      · have within := Int.not_lt.mp cutoff
        cases called : fn state key with
        | mk middle answer =>
          cases answer with
          | none =>
            refine ⟨(tick, key) :: rest, middle, false, [((tick, key), none)], ?_,
              Nat.le_add_left 1 count, ?_, ordered, nofun⟩
            · rw [visitOldest, if_neg cutoff, called]
            · exact .throws least within called
          | some newTick =>
            -- what comes next starts from the entries the call leaves
            have next : ∃ left : LruVisitOrdering Key, Ordered left ∧
                (left : Multiset (Int × Key)) =
                  Call.left ((tick, key), some newTick) + ↑rest ∧
                visitOldest fn tickCutoff (count + 1) ((tick, key) :: rest) state =
                  visitOldest fn tickCutoff count left middle := by
              rw [visitOldest, if_neg cutoff, called]
              dsimp only [Call.left]
              by_cases invalid : newTick < 0
              · exact ⟨rest, below, by rw [if_pos invalid, zero_add], if_pos invalid⟩
              · refine ⟨addKey rest key newTick, addKey_ordered below key newTick, ?_,
                  if_neg invalid⟩
                rw [if_neg invalid, addKey_coe, Multiset.singleton_add]
            obtain ⟨left, sorted, entries, same⟩ := next
            obtain ⟨queue', state', ended, calls, result, few, visits, ordered', stops⟩ :=
              ih sorted middle
            rw [entries] at visits
            exact ⟨queue', state', ended, ((tick, key), some newTick) :: calls,
              same.trans result, Nat.succ_le_succ few, .call least within called visits, ordered',
              fun finished early => stops finished (Nat.lt_of_succ_lt_succ early)⟩

/-- A visit makes at most `count` calls, each for an entry with the least tick at that moment and
within the cutoff.  It replaces or removes the entries it called for and leaves the others. -/
theorem visitOldest_visits (fn : σ → Key → σ × Option Int) (tickCutoff : Int) (count : Nat)
    {queue : LruVisitOrdering Key} (ordered : Ordered queue) (state : σ) :
    ∃ queue' state' ended calls,
      visitOldest fn tickCutoff count queue state = (queue', state', ended) ∧
      calls.length ≤ count ∧
      Visits fn tickCutoff ↑queue state calls ↑queue' state' ended ∧
      (queue' : Multiset (Int × Key)) + (calls.map Prod.fst : List (Int × Key)) =
        ↑queue + (calls.map Call.left).sum ∧
      Ordered queue' ∧
      (ended = true → calls.length < count → ∀ item ∈ queue', tickCutoff < item.1) := by
  obtain ⟨queue', state', ended, calls, result, few, visits, rest⟩ :=
    visitOldest_calls fn tickCutoff count ordered state
  exact ⟨queue', state', ended, calls, result, few, visits, visits.balance, rest⟩

/-- The callback of `two_visited` keeps the first key the oldest for one more call. -/
def returnTicks (calls key : Nat) : Nat × Option Int :=
  (calls + 1, if key = 7 ∧ calls = 0 then some 1 else some (-1))

theorem two_visited :
    visitOldest returnTicks 5 2 [(2, 7), (3, 8), (9, 7)] 0 = ([(3, 8), (9, 7)], 2, true) ∧
      ∃ queue' state' ended calls,
        visitOldest returnTicks 5 2 [(2, 7), (3, 8), (9, 7)] 0 = (queue', state', ended) ∧
        calls.length ≤ 2 ∧
        Visits returnTicks 5 ↑[((2 : Int), 7), (3, 8), (9, 7)] 0 calls ↑queue' state' ended ∧
        (queue' : Multiset (Int × Nat)) + (calls.map Prod.fst : List (Int × Nat)) =
          ↑[((2 : Int), 7), (3, 8), (9, 7)] + (calls.map Call.left).sum ∧
        Ordered queue' ∧
        (ended = true → calls.length < 2 → ∀ item ∈ queue', 5 < item.1) :=
  ⟨by decide, visitOldest_visits returnTicks 5 2 (by unfold Ordered; decide) 0⟩

end Voxen.LruVisitOrdering
