import Voxen.Svc.AsyncCounterTrackerSegments
import Voxen.Lib.FinSizes

/-!
# What queries of the tracker tell

A completed value is either covered by the fully completed value of its list or
by a segment, and only values whose completion has begun are.  A query reads the
fully completed value before it locks the segments, so it misses a counter whose
segment is collapsed in between; otherwise it tells the truth.
-/

namespace Voxen.Svc.AsyncCounterTracker

open Function (update update_of_ne update_self update_apply)

/-! ## Answers and the condition on steps -/

/-- A query told the truth about a counter. -/
def Verdict (returnedBefore begun : List Nat) (counter : Nat) (found : Bool) : Prop :=
  (counter = 0 ∨ counter ∈ returnedBefore → found = true) ∧
  (numCompletionLists ≤ counter → counter ∉ begun → found = false)

/-- The query told about exactly the counters it was asked for, and the truth. -/
def Answer.Correct (answer : Answer) : Prop :=
  (answer.results.map Prod.fst).Perm answer.asked ∧
  ∀ counter found, (counter, found) ∈ answer.results →
    Verdict answer.returnedBefore answer.begun counter found

/-- The counter a call checks, where the check is, and `returnedBefore`. -/
def Call.checking : Call → Option (Nat × CheckPhase × List Nat)
  | .idle => none
  | .completeCounter _ _ => none
  | .isCounterComplete counter phase returnedBefore => some (counter, phase, returnedBefore)
  | .trimCompleteCounters _ counters i remaining phase returnedBefore =>
    if i < remaining then counters[i]?.map fun counter => (counter, phase, returnedBefore)
    else none

/-- The call has loaded the fully completed value and waits for the lock, to find
in the segment a counter whose completion had returned before the call began. -/
def Call.reliesOn (call : Call) (index : Nat) (segment : ValueSegment) : Bool :=
  match call.checking with
  | some (counter, .acquire, returnedBefore) =>
    counter % numCompletionLists = index ∧ segment.first ≤ counter / numCompletionLists ∧
      counter / numCompletionLists ≤ segment.last ∧ counter ∈ returnedBefore
  | _ => false

section Steps

variable {Thread : Type}

/-- The segment the next step of the thread moves into the fully completed value,
and the list it is in. -/
def collapsedSegment (state : State Thread) (thread : Thread) : Option (Nat × ValueSegment) :=
  match state.calls thread with
  | .completeCounter counter (.collapse expected) => do
      let list := state.listOf counter
      let segment ← list.outOfOrderSegments.getLast?
      if segment.first = expected + 1 ∧ list.fullyCompletedValue = expected then
        return (counter % numCompletionLists, segment)
      else none
  | _ => none

/-- No segment is collapsed that a query relies on, and no counter is the last
one of 64 bits. -/
def StepSafe (state : State Thread) : Action Thread → Prop
  | .allocate _ => state.nextAllocatedCounter + 1 < 2 ^ 64
  | .advance thread => ∀ collapsed ∈ collapsedSegment state thread,
      ∀ reader, (state.calls reader).reliesOn collapsed.1 collapsed.2 = false
  | _ => True

/-! ## The invariant -/

/-- The call holds the lock of this list. -/
def Call.lockedList : Call → Option Nat
  | .completeCounter counter (.insert _) => some (counter % numCompletionLists)
  | .completeCounter counter (.collapse _) => some (counter % numCompletionLists)
  | .completeCounter counter .release => some (counter % numCompletionLists)
  | call =>
    match call.checking with
    | some (counter, .scan, _) => some (counter % numCompletionLists)
    | some (counter, .release _, _) => some (counter % numCompletionLists)
    | _ => none

variable {call : Call} {counter i remaining : Nat} {phase : CheckPhase} {returnedBefore : List Nat}
  {state state' : State Thread} {list : CompletionList Thread} {thread : Thread}
  {asked counters : Array Nat}

theorem lockedList_of_checking (checking : call.checking = some (counter, phase, returnedBefore)) :
    call.lockedList = if phase = .scan ∨ ∃ found, phase = .release found then
      some (counter % numCompletionLists) else none := by
  cases call with
  | idle => cases checking
  | completeCounter => cases checking
  | isCounterComplete | trimCompleteCounters =>
    simp only [Call.lockedList, checking]
    cases phase <;> simp

theorem lockedList_trim_load (asked counters : Array Nat) (i remaining : Nat)
    (returnedBefore : List Nat) :
    (Call.trimCompleteCounters asked counters i remaining .load returnedBefore).lockedList =
      none := by
  cases checking :
    (Call.trimCompleteCounters asked counters i remaining .load returnedBefore).checking with
  | none => simp only [Call.lockedList, checking]
  | some check =>
    obtain ⟨counter, phase, before⟩ := check
    have load : phase = .load := by
      simp only [Call.checking] at checking
      split at checking
      · obtain ⟨_, -, equal⟩ := Option.map_eq_some_iff.mp checking
        cases equal
        rfl
      · cases checking
    rw [lockedList_of_checking checking, load]
    simp

/-- What a check knows about its counter. -/
def CheckInv (list : CompletionList Thread) (returnedBefore begun : List Nat) (counter : Nat) :
    CheckPhase → Prop
  | .load => True
  | .acquire | .scan => 0 < counter / numCompletionLists ∧
      (counter ∈ returnedBefore →
        Covers list.outOfOrderSegments (counter / numCompletionLists))
  | .release found | .done found => Verdict returnedBefore begun counter found

/-- A completion has recorded its value once it is past the insertion. -/
def CompleteInv (list : CompletionList Thread) (counter : Nat) : CompletePhase → Prop
  | .exchange | .acquire _ | .insert _ => True
  | .collapse _ | .release | .done => Recorded list (counter / numCompletionLists)

def CallInv (state : State Thread) : Call → Prop
  | .idle => True
  | .completeCounter counter phase =>
    counter ∈ state.begun ∧ CompleteInv (state.listOf counter) counter phase
  | .isCounterComplete counter phase returnedBefore =>
    returnedBefore ⊆ state.returned ∧
      CheckInv (state.listOf counter) returnedBefore state.begun counter phase
  | .trimCompleteCounters asked counters i remaining phase returnedBefore =>
    returnedBefore ⊆ state.returned ∧ counters.Perm asked ∧
    i ≤ remaining ∧ remaining ≤ counters.size ∧
    (∀ j counter, counters[j]? = some counter →
      (j < i → Verdict returnedBefore state.begun counter false) ∧
      (remaining ≤ j → Verdict returnedBefore state.begun counter true)) ∧
    (i < remaining → ∀ counter, counters[i]? = some counter →
      CheckInv (state.listOf counter) returnedBefore state.begun counter phase)

/-- A value `allocateCounter` returns before it runs out of 64-bit values. -/
def Allocatable (counter : Nat) : Prop := numCompletionLists ≤ counter ∧ counter < 2 ^ 64

/-- What holds in every state.
* `sound`: a recorded counter is one whose completion has begun;
* `complete`: a counter whose completion has returned is recorded. -/
structure Inv (state : State Thread) : Prop where
  next : Allocatable state.nextAllocatedCounter
  allocated : ∀ counter ∈ state.allocated, Allocatable counter
  begun : ∀ counter ∈ state.begun, Allocatable counter
  proper : ∀ index, Proper (state.completionLists index).outOfOrderSegments
  sound : ∀ counter, numCompletionLists ≤ counter →
    Recorded (state.listOf counter) (counter / numCompletionLists) → counter ∈ state.begun
  complete : ∀ counter ∈ state.returned,
    Recorded (state.listOf counter) (counter / numCompletionLists)
  locks : ∀ thread index, (state.calls thread).lockedList = some index →
    (state.completionLists index).lock = some thread
  calls : ∀ thread, CallInv state (state.calls thread)
  answers : ∀ answer ∈ state.answers, answer.Correct

theorem initial_inv : Inv ({} : State Thread) := by
  refine ⟨⟨Nat.le_refl _, show numCompletionLists < 2 ^ 64 by decide⟩, nofun, nofun, nofun, ?_,
    nofun, nofun, fun _ => trivial, nofun⟩
  rintro counter large (small | ⟨segment, mem, -⟩)
  · have positive : 0 < counter / numCompletionLists := Nat.div_pos large (by decide)
    exact absurd small (Nat.not_le.mpr positive)
  · cases mem

/-! ## Frames -/

/-- The later state knows at least as much. -/
structure Grows (state state' : State Thread) : Prop where
  begun : state.begun ⊆ state'.begun
  returned : state.returned ⊆ state'.returned
  recorded : ∀ counter, Recorded (state.listOf counter) (counter / numCompletionLists) →
    Recorded (state'.listOf counter) (counter / numCompletionLists)

theorem Verdict.mono {begun begun' : List Nat} {found : Bool}
    (verdict : Verdict returnedBefore begun counter found) (more : begun ⊆ begun') :
    Verdict returnedBefore begun' counter found :=
  ⟨verdict.1, fun large fresh => verdict.2 large fun old => fresh (more old)⟩

/-- The value a waiting or scanning call relies on stays in the segments. -/
def CoverKept (state state' : State Thread) (call : Call) : Prop :=
  ∀ counter phase returnedBefore, call.checking = some (counter, phase, returnedBefore) →
    phase = .acquire ∨ phase = .scan → counter ∈ returnedBefore →
    Covers (state.listOf counter).outOfOrderSegments (counter / numCompletionLists) →
    Covers (state'.listOf counter).outOfOrderSegments (counter / numCompletionLists)

theorem CheckInv.mono (grows : Grows state state')
    (kept : phase = .acquire ∨ phase = .scan → counter ∈ returnedBefore →
      Covers (state.listOf counter).outOfOrderSegments (counter / numCompletionLists) →
      Covers (state'.listOf counter).outOfOrderSegments (counter / numCompletionLists))
    (inv : CheckInv (state.listOf counter) returnedBefore state.begun counter phase) :
    CheckInv (state'.listOf counter) returnedBefore state'.begun counter phase := by
  cases phase with
  | load => trivial
  | acquire => exact ⟨inv.1, fun before => kept (Or.inl rfl) before (inv.2 before)⟩
  | scan => exact ⟨inv.1, fun before => kept (Or.inr rfl) before (inv.2 before)⟩
  | release found => exact Verdict.mono inv grows.begun
  | done found => exact Verdict.mono inv grows.begun

theorem CallInv.mono (grows : Grows state state') (kept : CoverKept state state' call)
    (inv : CallInv state call) : CallInv state' call := by
  cases call with
  | idle => trivial
  | completeCounter counter phase =>
    refine ⟨grows.begun inv.1, ?_⟩
    have recorded := inv.2
    cases phase with
    | exchange | acquire | insert => trivial
    | collapse | release | done => exact grows.recorded counter recorded
  | isCounterComplete counter phase returnedBefore =>
    exact ⟨fun _ before => grows.returned (inv.1 before),
      inv.2.mono grows (kept counter phase returnedBefore rfl)⟩
  | trimCompleteCounters asked counters i remaining phase returnedBefore =>
    obtain ⟨before, same, low, high, verdicts, check⟩ := inv
    refine ⟨fun _ mem => grows.returned (before mem), same, low, high, ?_, ?_⟩
    · intro j counter holds
      obtain ⟨incomplete, complete⟩ := verdicts j counter holds
      exact ⟨fun below => (incomplete below).mono grows.begun,
        fun above => (complete above).mono grows.begun⟩
    · intro inside counter holds
      refine (check inside counter holds).mono grows (kept counter phase returnedBefore ?_)
      simp only [Call.checking, if_pos inside, holds, Option.map_some]

/-! ## Steps -/

theorem listOf_setListOf (state : State Thread) (counter other : Nat)
    (list : CompletionList Thread) :
    (state.setListOf counter list).listOf other =
      if other % numCompletionLists = counter % numCompletionLists then list
      else state.listOf other := by
  unfold State.setListOf State.listOf
  exact update_apply ..

/-- What a step of a call may do to the list of its counter. -/
structure ListStep (state : State Thread) (thread : Thread) (counter : Nat)
    (list : CompletionList Thread) : Prop where
  proper : Proper list.outOfOrderSegments
  sound : ∀ value, 0 < value → Recorded list value →
    Recorded (state.listOf counter) value ∨
      value = counter / numCompletionLists ∧ counter ∈ state.begun
  recorded : ∀ value, Recorded (state.listOf counter) value → Recorded list value
  lock : ∀ other, other ≠ thread → (state.listOf counter).lock = some other →
    list.lock = some other
  covers : ∀ other, other ≠ thread → ∀ checked phase returnedBefore,
    (state.calls other).checking = some (checked, phase, returnedBefore) →
    phase = .acquire ∨ phase = .scan → checked ∈ returnedBefore →
    checked % numCompletionLists = counter % numCompletionLists →
    Covers (state.listOf counter).outOfOrderSegments (checked / numCompletionLists) →
    Covers list.outOfOrderSegments (checked / numCompletionLists)

variable [DecidableEq Thread]

/-- A step of a call on a list keeps the invariant if what it does to the list and
to the call does. -/
theorem Inv.setListOf (inv : Inv state) (listStep : ListStep state thread counter list)
    (locked : ∀ index, call.lockedList = some index →
      index = counter % numCompletionLists ∧ list.lock = some thread)
    (callInv : Grows state ((state.setListOf counter list).setCall thread call) →
      CallInv ((state.setListOf counter list).setCall thread call) call) :
    Inv ((state.setListOf counter list).setCall thread call) := by
  have lists := fun other => listOf_setListOf state counter other list
  have grows : Grows state ((state.setListOf counter list).setCall thread call) := by
    refine ⟨fun _ mem => mem, fun _ mem => mem, fun other recorded => ?_⟩
    change Recorded ((state.setListOf counter list).listOf other) _
    rw [lists other]
    split
    next same =>
      refine listStep.recorded _ ?_
      unfold State.listOf at recorded ⊢
      rwa [← same]
    next => exact recorded
  refine
    { inv with
      proper := ?_
      sound := ?_
      complete := ?_
      locks := ?_
      calls := ?_ }
  · intro index
    change Proper (update state.completionLists (counter % numCompletionLists) list
      index).outOfOrderSegments
    rw [update_apply]
    split
    · exact listStep.proper
    · exact inv.proper index
  · intro other large recorded
    change Recorded ((state.setListOf counter list).listOf other) _ at recorded
    rw [lists other] at recorded
    split at recorded
    next same =>
      have positive : 0 < other / numCompletionLists := Nat.div_pos large (by decide)
      rcases listStep.sound _ positive recorded with old | ⟨value, begun⟩
      · refine inv.sound other large ?_
        unfold State.listOf at old ⊢
        rwa [same]
      · have equal : other = counter := by
          rw [← Nat.div_add_mod other numCompletionLists, value, same, Nat.div_add_mod]
        rw [equal]
        exact begun
    next => exact inv.sound other large recorded
  · exact fun other mem => grows.recorded other (inv.complete other mem)
  · intro other index holds
    change (update state.completionLists (counter % numCompletionLists) list
      index).lock = some other
    change (update state.calls thread call other).lockedList = some index at holds
    rw [update_apply] at holds ⊢
    by_cases same : other = thread
    · rw [if_pos same] at holds
      obtain ⟨here, lock⟩ := locked index holds
      rw [if_pos here, same]
      exact lock
    · rw [if_neg same] at holds
      have lock := inv.locks other index holds
      split
      next here =>
        refine listStep.lock other same ?_
        unfold State.listOf
        rwa [← here]
      next => exact lock
  · intro other
    change CallInv _ (update state.calls thread call other)
    by_cases same : other = thread
    · rw [same, update_self]
      exact callInv grows
    · rw [update_of_ne same]
      refine (inv.calls other).mono grows ?_
      intro checked phase returnedBefore checking waits before covers
      change Covers ((state.setListOf counter list).listOf checked).outOfOrderSegments _
      rw [lists checked]
      split
      next here =>
        refine listStep.covers other same checked phase returnedBefore checking waits before
          here ?_
        unfold State.listOf at covers ⊢
        rwa [← here]
      next => exact covers

omit [DecidableEq Thread] in
theorem Inv.listStep_lock (inv : Inv state) {lock : Option Thread}
    (kept : ∀ other, other ≠ thread → (state.listOf counter).lock = some other →
      lock = some other) :
    ListStep state thread counter { state.listOf counter with lock := lock } :=
  ⟨inv.proper _, fun _ _ recorded => Or.inl recorded, fun _ recorded => recorded, kept,
    fun _ _ _ _ _ _ _ _ _ covers => covers⟩

omit [DecidableEq Thread] in
theorem Inv.lock_of_lockedList (inv : Inv state)
    (locked : (state.calls thread).lockedList = some (counter % numCompletionLists)) :
    (state.listOf counter).lock = some thread :=
  inv.locks thread _ locked

omit [DecidableEq Thread] in
theorem checkStep_spec (inv : Inv state) {phase' : CheckPhase}
    (locked : phase = .scan ∨ (∃ found, phase = .release found) →
      (state.calls thread).lockedList = some (counter % numCompletionLists))
    (before : returnedBefore ⊆ state.returned)
    (check : CheckInv (state.listOf counter) returnedBefore state.begun counter phase)
    (stepped : checkStep thread counter (state.listOf counter) phase = some (list, phase')) :
    ListStep state thread counter list ∧
    CheckInv list returnedBefore state.begun counter phase' ∧
    (phase' = .scan ∨ (∃ found, phase' = .release found) → list.lock = some thread) := by
  have same : ListStep state thread counter (state.listOf counter) :=
    inv.listStep_lock fun _ _ held => held
  cases phase with
  | load =>
    simp only [checkStep] at stepped
    split at stepped
    next complete =>
      cases stepped
      refine ⟨same, ⟨fun _ => rfl, fun large fresh => ?_⟩, by simp⟩
      exact absurd (inv.sound counter large (Or.inl complete)) fresh
    next incomplete =>
      cases stepped
      refine ⟨same, ⟨by omega, fun mem => ?_⟩, by simp⟩
      exact (inv.complete counter (before mem)).resolve_left incomplete
  | acquire =>
    simp only [checkStep] at stepped
    split at stepped
    next free =>
      cases stepped
      refine ⟨inv.listStep_lock fun other _ held => ?_, check, fun _ => rfl⟩
      rw [held] at free
      cases free
    next => cases stepped
  | scan =>
    cases stepped
    obtain ⟨positive, relies⟩ := check
    refine ⟨same, ⟨?_, fun large fresh => ?_⟩, fun _ => ?_⟩
    · rintro (rfl | mem)
      · exact absurd positive (by decide)
      · exact (scan_iff _ _).mpr (relies mem)
    · rw [← Bool.not_eq_true, scan_iff]
      exact fun covers => fresh (inv.sound counter large (Or.inr covers))
    · exact inv.lock_of_lockedList (locked (Or.inl rfl))
  | release found =>
    cases stepped
    refine ⟨inv.listStep_lock fun other differ held => ?_, check, by simp⟩
    rw [inv.lock_of_lockedList (locked (Or.inr ⟨found, rfl⟩))] at held
    exact absurd (Option.some.inj held).symm differ
  | done found => cases stepped

omit [DecidableEq Thread] in
theorem collapse_spec (inv : Inv state) (safe : StepSafe state (.advance thread)) {expected : Nat}
    (call : state.calls thread = .completeCounter counter (.collapse expected))
    {segment : ValueSegment}
    (last : (state.listOf counter).outOfOrderSegments.getLast? = some segment)
    (first : segment.first = expected + 1)
    (current : (state.listOf counter).fullyCompletedValue = expected) :
    ListStep state thread counter
      { state.listOf counter with
        fullyCompletedValue := segment.last
        outOfOrderSegments := (state.listOf counter).outOfOrderSegments.dropLast } := by
  have split := List.dropLast_append_getLast? segment last
  have proper : Proper (state.listOf counter).outOfOrderSegments := inv.proper _
  have members : ∀ other, other ∈ (state.listOf counter).outOfOrderSegments ↔
      other ∈ (state.listOf counter).outOfOrderSegments.dropLast ∨ other = segment := by
    intro other
    conv_lhs => rw [← split]
    simp
  have ordered := proper segment ((members segment).mpr (Or.inr rfl))
  refine ⟨fun other mem => proper other ((members other).mpr (Or.inl mem)), ?_, ?_,
    fun _ _ held => held, ?_⟩
  · rintro value - (below | ⟨other, mem, within⟩)
    · left
      rcases Nat.lt_or_ge expected value with above | atMost
      · exact Or.inr ⟨segment, (members segment).mpr (Or.inr rfl), by omega, below⟩
      · exact Or.inl (current ▸ atMost)
    · exact Or.inl (Or.inr ⟨other, (members other).mpr (Or.inl mem), within⟩)
  · rintro value (below | ⟨other, mem, within⟩)
    · exact Or.inl (Nat.le_trans below (show _ ≤ segment.last by omega))
    · rcases (members other).mp mem with kept | rfl
      · exact Or.inr ⟨other, kept, within⟩
      · exact Or.inl within.2
  · rintro other differ checked phase returnedBefore checking waits before here
      ⟨covering, mem, within⟩
    rcases (members covering).mp mem with kept | rfl
    · exact ⟨covering, kept, within⟩
    · exfalso
      rcases waits with rfl | rfl
      · -- a query that waits for the lock relies on the segment
        have collapsed : collapsedSegment state thread =
            some (counter % numCompletionLists, covering) := by
          unfold collapsedSegment
          simp [call, last, first, current]
        have relies := safe _ collapsed other
        simp [Call.reliesOn, checking, here, within.1, within.2, before] at relies
      · -- a query that scans holds the lock itself
        have own := inv.locks thread (counter % numCompletionLists) (by rw [call]; rfl)
        have others := inv.locks other (counter % numCompletionLists) (by
          rw [lockedList_of_checking checking, if_pos (Or.inl rfl), here])
        rw [own] at others
        exact differ (Option.some.inj others).symm

omit [DecidableEq Thread] in
theorem completeStep_spec (inv : Inv state) (safe : StepSafe state (.advance thread))
    {phase phase' : CompletePhase} (call : state.calls thread = .completeCounter counter phase)
    (stepped : completeStep thread counter (state.listOf counter) phase = some (list, phase')) :
    ListStep state thread counter list ∧ CompleteInv list counter phase' ∧
    (∀ index, (Call.completeCounter counter phase').lockedList = some index →
      index = counter % numCompletionLists ∧ list.lock = some thread) := by
  have same : ListStep state thread counter (state.listOf counter) :=
    inv.listStep_lock fun _ _ held => held
  obtain ⟨begun, complete⟩ : CallInv state (.completeCounter counter phase) := by
    rw [← call]
    exact inv.calls thread
  have large := inv.begun counter begun
  have locked : ∀ {index}, (Call.completeCounter counter phase).lockedList = some index →
      (state.completionLists index).lock = some thread := by
    intro index holds
    rw [← call] at holds
    exact inv.locks thread index holds
  cases phase with
  | exchange =>
    simp only [completeStep] at stepped
    split at stepped
    next inOrder =>
      cases stepped
      -- the exchange found the value right before the completed one
      have positive : 0 < counter / numCompletionLists := Nat.div_pos large.1 (by decide)
      have small := Nat.div_le_self counter numCompletionLists
      have bounded := large.2
      have previous : (state.listOf counter).fullyCompletedValue + 1 =
          counter / numCompletionLists := by omega
      refine ⟨⟨inv.proper _, fun value _ recorded => ?_, fun value recorded => ?_,
        fun _ _ held => held, fun _ _ _ _ _ _ _ _ _ covers => covers⟩,
        Or.inl (Nat.le_refl _), nofun⟩
      · rcases recorded with below | covers
        · rcases Nat.lt_or_eq_of_le below with less | equal
          · rw [← previous] at less
            exact Or.inl (Or.inl (Nat.le_of_lt_succ less))
          · exact Or.inr ⟨equal, begun⟩
        · exact Or.inl (Or.inr covers)
      · rcases recorded with below | covers
        · refine Or.inl (Nat.le_trans below ?_)
          rw [← previous]
          exact Nat.le_succ _
        · exact Or.inr covers
    next =>
      cases stepped
      exact ⟨same, trivial, nofun⟩
  | acquire expected =>
    simp only [completeStep] at stepped
    split at stepped
    next free =>
      cases stepped
      refine ⟨inv.listStep_lock fun other _ held => ?_, trivial, ?_⟩
      · rw [held] at free
        cases free
      · rintro index ⟨⟩
        exact ⟨rfl, rfl⟩
    next => cases stepped
  | insert expected =>
    cases stepped
    obtain ⟨proper, covers⟩ := addValue_adds (inv.proper (counter % numCompletionLists))
      (counter / numCompletionLists)
    refine ⟨⟨proper, fun value _ recorded => ?_, fun value recorded => ?_,
      fun _ _ held => held, fun _ _ _ _ _ _ _ _ _ old => (covers _).mpr (Or.inl old)⟩,
      Or.inr ((covers _).mpr (Or.inr rfl)), ?_⟩
    · rcases recorded with below | inSegments
      · exact Or.inl (Or.inl below)
      · rcases (covers value).mp inSegments with old | equal
        · exact Or.inl (Or.inr old)
        · exact Or.inr ⟨equal, begun⟩
    · exact recorded.imp id fun old => (covers value).mpr (Or.inl old)
    · rintro index ⟨⟩
      exact ⟨rfl, locked rfl⟩
  | collapse expected =>
    have held : ∀ next index,
        (Call.completeCounter counter (.collapse next)).lockedList = some index →
        index = counter % numCompletionLists ∧
          (state.listOf counter).lock = some thread := by
      rintro next index ⟨⟩
      exact ⟨rfl, locked rfl⟩
    simp only [completeStep] at stepped
    cases last : (state.listOf counter).outOfOrderSegments.getLast? with
    | none =>
      rw [last] at stepped
      cases stepped
      exact ⟨same, complete, held expected⟩
    | some segment =>
      simp only [last] at stepped
      split at stepped
      next =>
        cases stepped
        exact ⟨same, complete, held expected⟩
      next first =>
        split at stepped
        next current =>
          cases stepped
          have collapsed := collapse_spec inv safe call last (not_not.mp first) current
          exact ⟨collapsed, collapsed.recorded _ complete, held segment.last⟩
        next =>
          cases stepped
          exact ⟨same, complete, held _⟩
  | release =>
    cases stepped
    refine ⟨inv.listStep_lock fun other differ held => ?_, complete, nofun⟩
    have own := locked rfl
    rw [show (state.completionLists (counter % numCompletionLists)).lock = some other
      from held] at own
    exact absurd (Option.some.inj own) differ
  | done => cases stepped

theorem Inv.setCall (inv : Inv state) (thread : Thread)
    (locked : call.lockedList = none ∨ call.lockedList = (state.calls thread).lockedList)
    (callInv : CallInv state call) : Inv (state.setCall thread call) := by
  refine
    { inv with
      locks := ?_
      calls := ?_ }
  · intro other index holds
    change (update state.calls thread call other).lockedList = some index at holds
    by_cases same : other = thread
    · rw [same, update_self] at holds
      rw [same]
      rcases locked with free | kept
      · rw [free] at holds
        cases holds
      · exact inv.locks thread index (kept.symm.trans holds)
    · rw [update_of_ne same] at holds
      exact inv.locks other index holds
  · intro other
    change CallInv state (update state.calls thread call other)
    by_cases same : other = thread
    · rw [same, update_self]
      exact callInv
    · rw [update_of_ne same]
      exact inv.calls other

omit [DecidableEq Thread] in
theorem Inv.setHistory (inv : Inv state) (lists : state'.completionLists = state.completionLists)
    (calls : state'.calls = state.calls) (next : Allocatable state'.nextAllocatedCounter)
    (allocated : ∀ counter ∈ state'.allocated, Allocatable counter)
    (begun : ∀ counter ∈ state'.begun, Allocatable counter) (begunMore : state.begun ⊆ state'.begun)
    (returnedMore : state.returned ⊆ state'.returned) (complete : ∀ counter ∈ state'.returned,
      Recorded (state.listOf counter) (counter / numCompletionLists))
    (answers : ∀ answer ∈ state'.answers, answer.Correct) : Inv state' := by
  have listOf : ∀ counter, state'.listOf counter = state.listOf counter := by
    intro counter
    unfold State.listOf
    rw [lists]
  refine
    { next, allocated, begun
      proper := ?_
      sound := ?_
      complete := ?_
      locks := ?_
      calls := ?_
      answers := answers }
  · rw [lists]
    exact inv.proper
  · intro counter large recorded
    rw [listOf] at recorded
    exact begunMore (inv.sound counter large recorded)
  · intro counter mem
    rw [listOf]
    exact complete counter mem
  · rw [calls, lists]
    exact inv.locks
  · rw [calls]
    intro thread
    refine (inv.calls thread).mono ⟨begunMore, returnedMore, fun counter recorded => ?_⟩ ?_
    · rwa [listOf]
    · intro counter phase returnedBefore _ _ _ covers
      rwa [listOf]

omit [DecidableEq Thread] in
theorem trim_removes (inside : i < remaining) (holds : counters[i]? = some counter)
    (inv : CallInv state
      (.trimCompleteCounters asked counters i remaining (.done true) returnedBefore)) :
    CallInv state (.trimCompleteCounters asked (counters.swapIfInBounds i (remaining - 1)) i
      (remaining - 1) .load returnedBefore) := by
  obtain ⟨before, same, low, high, verdicts, check⟩ := inv
  have hi : i < counters.size := Nat.lt_of_lt_of_le inside high
  have hLast : remaining - 1 < counters.size := by omega
  have swapped : counters.swapIfInBounds i (remaining - 1) =
      counters.swap i (remaining - 1) hi hLast := by
    rw [Array.swapIfInBounds_def, dif_pos hi, dif_pos hLast]
  rw [swapped]
  refine ⟨before, (Array.swap_perm hi hLast).trans same, by omega, ?_, ?_,
    fun _ _ _ => trivial⟩
  · rw [Array.size_swap]
    omega
  · intro j other found
    rw [Array.getElem?_swap] at found
    constructor
    · intro below
      rw [if_neg (by omega), if_neg (by omega)] at found
      exact (verdicts j other found).1 below
    · intro above
      split at found
      next =>
        have value : counters[i] = counter :=
          Option.some.inj ((Array.getElem?_eq_getElem hi).symm.trans holds)
        rw [value] at found
        cases found
        exact check inside counter holds
      next =>
        rw [if_neg (by omega)] at found
        exact (verdicts j other found).2 (by omega)

omit [DecidableEq Thread] in
theorem trim_keeps (inside : i < remaining) (holds : counters[i]? = some counter)
    (inv : CallInv state
      (.trimCompleteCounters asked counters i remaining (.done false) returnedBefore)) :
    CallInv state
      (.trimCompleteCounters asked counters (i + 1) remaining .load returnedBefore) := by
  obtain ⟨before, same, low, high, verdicts, check⟩ := inv
  refine ⟨before, same, inside, high, fun j other found => ?_, fun _ _ _ => trivial⟩
  obtain ⟨incomplete, complete⟩ := verdicts j other found
  refine ⟨fun below => ?_, complete⟩
  rcases Nat.lt_or_eq_of_le (Nat.le_of_lt_succ below) with less | rfl
  · exact incomplete less
  · rw [holds] at found
    cases found
    exact check inside counter holds

omit [DecidableEq Thread] in
theorem trim_answers (passed : ¬ i < remaining) (inv : CallInv state
      (.trimCompleteCounters asked counters i remaining phase returnedBefore)) :
    Answer.Correct ⟨asked.toList,
      counters.toList.zipIdx.map fun (counter, j) => (counter, remaining ≤ j),
      returnedBefore, state.begun⟩ := by
  obtain ⟨-, same, low, high, verdicts, -⟩ := inv
  constructor
  · dsimp only
    rw [List.map_map]
    change (counters.toList.zipIdx.map Prod.fst).Perm asked.toList
    rw [List.zipIdx_map_fst]
    exact same.toList
  · intro counter found mem
    obtain ⟨⟨_, j⟩, indexed, equal⟩ := List.mem_map.mp mem
    cases equal
    have holds := List.mem_zipIdx_iff_getElem?.mp indexed
    rw [Array.getElem?_toList] at holds
    obtain ⟨incomplete, complete⟩ := verdicts j counter holds
    rcases Nat.lt_or_ge j remaining with below | above
    · rw [decide_eq_false (Nat.not_le.mpr below)]
      exact incomplete (by omega)
    · rw [decide_eq_true above]
      exact complete above

theorem Inv.check {state list} (inv : Inv state) {phase' : CheckPhase} (next : CheckPhase → Call)
    (checking : ∀ phase, (next phase).checking = some (counter, phase, returnedBefore))
    (call : state.calls thread = next phase) (before : returnedBefore ⊆ state.returned)
    (check : CheckInv (state.listOf counter) returnedBefore state.begun counter phase)
    (callInv : ∀ state', Grows state state' →
      CheckInv (state'.listOf counter) returnedBefore state'.begun counter phase' →
      CallInv state' (next phase'))
    (stepped : checkStep thread counter (state.listOf counter) phase = some (list, phase')) :
    Inv ((state.setListOf counter list).setCall thread (next phase')) := by
  obtain ⟨listStep, check', lock⟩ := checkStep_spec inv (by
    intro holds
    rw [call, lockedList_of_checking (checking phase), if_pos holds]) before check stepped
  refine inv.setListOf listStep ?_ ?_
  · intro index holds
    rw [lockedList_of_checking (checking phase')] at holds
    split at holds
    next scanning =>
      cases holds
      exact ⟨rfl, lock scanning⟩
    next => cases holds
  · intro grows
    refine callInv _ grows ?_
    change CheckInv ((state.setListOf counter list).listOf counter) _ _ _ _
    rw [listOf_setListOf, if_pos rfl]
    exact check'

theorem advance_inv (inv : Inv state) (safe : StepSafe state (.advance thread))
    (stepped : advance state thread = some state') :
    Inv state' := by
  have callInv := inv.calls thread
  have completeAdvances : ∀ counter phase, state.calls thread = .completeCounter counter phase →
      ((completeStep thread counter (state.listOf counter) phase).bind fun step =>
        some ((state.setListOf counter step.1).setCall thread
          (.completeCounter counter step.2))) = some state' → Inv state' := by
    intro counter phase call next
    obtain ⟨⟨list, phase'⟩, taken, equal⟩ := Option.bind_eq_some_iff.mp next
    cases equal
    obtain ⟨listStep, complete, locked⟩ := completeStep_spec inv safe call taken
    rw [call] at callInv
    refine inv.setListOf listStep locked fun grows => ⟨callInv.1, ?_⟩
    change CompleteInv ((state.setListOf counter list).listOf counter) _ _
    rw [listOf_setListOf, if_pos rfl]
    exact complete
  unfold advance at stepped
  cases call : state.calls thread with
  | idle =>
    rw [call] at stepped
    cases stepped
  | completeCounter counter phase =>
    cases phase with
    | done =>
      rw [call] at callInv stepped
      cases stepped
      have finished := inv.setCall thread (Or.inl rfl) (show CallInv state .idle from trivial)
      refine finished.setHistory rfl rfl inv.next inv.allocated inv.begun
        (fun _ mem => mem) (fun _ mem => List.mem_cons_of_mem _ mem) ?_ inv.answers
      intro other mem
      rcases List.mem_cons.mp mem with rfl | old
      · exact callInv.2
      · exact inv.complete other old
    | exchange | acquire | insert | collapse | release =>
      rw [call] at stepped
      exact completeAdvances counter _ call stepped
  | isCounterComplete counter phase returnedBefore =>
    rw [call] at callInv
    have checkAdvances :
        ((checkStep thread counter (state.listOf counter) phase).bind fun step =>
          some ((state.setListOf counter step.1).setCall thread
            (.isCounterComplete counter step.2 returnedBefore))) = some state' →
        Inv state' := by
      intro next
      obtain ⟨⟨list, phase'⟩, taken, equal⟩ := Option.bind_eq_some_iff.mp next
      cases equal
      exact inv.check (fun phase => .isCounterComplete counter phase returnedBefore)
        (fun _ => rfl) call callInv.1 callInv.2
        (fun state' grows check => ⟨fun _ mem => grows.returned (callInv.1 mem), check⟩) taken
    cases phase with
    | done found =>
      rw [call] at stepped
      cases stepped
      have finished := inv.setCall thread (Or.inl rfl) (show CallInv state .idle from trivial)
      refine finished.setHistory rfl rfl inv.next inv.allocated inv.begun
        (fun _ mem => mem) (fun _ mem => mem) inv.complete ?_
      intro answer mem
      rcases List.mem_cons.mp mem with rfl | old
      · refine ⟨List.Perm.refl _, fun other result isIn => ?_⟩
        cases List.mem_singleton.mp isIn
        exact callInv.2
      · exact inv.answers answer old
    | load | acquire | scan | release =>
      rw [call] at stepped
      exact checkAdvances stepped
  | trimCompleteCounters asked counters i remaining phase returnedBefore =>
    rw [call] at callInv
    simp only [call] at stepped
    split at stepped
    next inside =>
      obtain ⟨counter, holds, stepped⟩ := Option.bind_eq_some_iff.mp stepped
      have checkAdvances :
          ((checkStep thread counter (state.listOf counter) phase).bind fun step =>
            some ((state.setListOf counter step.1).setCall thread
              (.trimCompleteCounters asked counters i remaining step.2 returnedBefore))) =
            some state' → Inv state' := by
        intro next
        obtain ⟨⟨list, phase'⟩, taken, equal⟩ := Option.bind_eq_some_iff.mp next
        cases equal
        refine inv.check
          (fun phase => .trimCompleteCounters asked counters i remaining phase returnedBefore)
          (fun _ => ?_) call callInv.1 (callInv.2.2.2.2.2 inside counter holds) ?_ taken
        · simp only [Call.checking, if_pos inside, holds, Option.map_some]
        · intro state' grows check
          obtain ⟨before, same, low, high, verdicts, -⟩ := callInv
          refine ⟨fun _ mem => grows.returned (before mem), same, low, high, ?_, ?_⟩
          · intro j other found
            obtain ⟨incomplete, complete⟩ := verdicts j other found
            exact ⟨fun below => (incomplete below).mono grows.begun,
              fun above => (complete above).mono grows.begun⟩
          · intro _ other found
            rw [holds] at found
            cases found
            exact check
      cases phase with
      | done found =>
        cases found with
        | true =>
          cases stepped
          exact inv.setCall thread (Or.inl (lockedList_trim_load ..))
            (trim_removes inside holds callInv)
        | false =>
          cases stepped
          exact inv.setCall thread (Or.inl (lockedList_trim_load ..))
            (trim_keeps inside holds callInv)
      | load | acquire | scan | release => exact checkAdvances stepped
    next passed =>
      cases stepped
      have finished := inv.setCall thread (Or.inl rfl) (show CallInv state .idle from trivial)
      refine finished.setHistory rfl rfl inv.next inv.allocated inv.begun
        (fun _ mem => mem) (fun _ mem => mem) inv.complete ?_
      intro answer mem
      rcases List.mem_cons.mp mem with rfl | old
      · exact trim_answers passed callInv
      · exact inv.answers answer old

theorem step_inv (state : State Thread) (action : Action Thread) (state' : State Thread)
    (inv : Inv state) (safe : StepSafe state action) (stepped : step state action = some state') :
    Inv state' := by
  cases action with
  | allocate thread =>
    simp only [step] at stepped
    split at stepped
    next =>
      cases stepped
      have wraps : (state.nextAllocatedCounter + 1) % 2 ^ 64 =
          state.nextAllocatedCounter + 1 := Nat.mod_eq_of_lt safe
      refine inv.setHistory rfl rfl ?_ ?_ inv.begun (fun _ mem => mem) (fun _ mem => mem)
        inv.complete inv.answers
      · dsimp only
        rw [wraps]
        exact ⟨Nat.le_succ_of_le inv.next.1, safe⟩
      · intro counter mem
        rcases List.mem_cons.mp mem with rfl | old
        · exact inv.next
        · exact inv.allocated counter old
    next => cases stepped
  | beginComplete thread counter =>
    simp only [step] at stepped
    split at stepped
    next enabled =>
      cases stepped
      have begun : Inv { state with begun := counter :: state.begun } := by
        refine inv.setHistory rfl rfl inv.next inv.allocated ?_
          (fun _ mem => List.mem_cons_of_mem _ mem) (fun _ mem => mem) inv.complete inv.answers
        intro other mem
        rcases List.mem_cons.mp mem with rfl | old
        · exact inv.allocated _ enabled.2.1
        · exact inv.begun other old
      exact begun.setCall thread (Or.inl rfl) ⟨List.mem_cons_self, trivial⟩
    next => cases stepped
  | beginCheck thread counter =>
    simp only [step] at stepped
    split at stepped
    next =>
      cases stepped
      exact inv.setCall thread (Or.inl rfl) ⟨fun _ mem => mem, trivial⟩
    next => cases stepped
  | beginTrim thread counters =>
    simp only [step] at stepped
    split at stepped
    next =>
      cases stepped
      refine inv.setCall thread (Or.inl (lockedList_trim_load ..)) ⟨fun _ mem => mem,
        Array.Perm.refl counters, Nat.zero_le _, Nat.le_refl _, ?_, fun _ _ _ => trivial⟩
      intro j counter holds
      obtain ⟨inside, -⟩ := Array.getElem?_eq_some_iff.mp holds
      exact ⟨fun below => absurd below (Nat.not_lt_zero j),
        fun above => absurd inside (Nat.not_lt.mpr above)⟩
    next => cases stepped
  | advance thread => exact advance_inv inv safe stepped

/-- In every interleaving in which no segment is collapsed between the two reads of
a query that relies on it, queries tell the truth: true for zero and for counters
whose completion returned before the query began, false for counters whose
completion has not begun when it returns. -/
theorem run_answers_correct {actions : List (Action Thread)} {state : State Thread}
    (safe : Runs.StepsMeet step StepSafe {} actions) (reached : run actions = some state) :
    ∀ answer ∈ state.answers, answer.Correct :=
  (Runs.run_invariant step_inv initial_inv safe reached).answers

end Steps

/-- Two threads; one completes counters and the other one asks. -/
def completer : Fin 2 := 0

def asker : Fin 2 := 1

/-- A counter is completed, and asked for together with one that is not. -/
def inOrderActions : List (Action (Fin 2)) :=
  [.allocate completer, .allocate completer, .beginComplete completer 64, .advance completer,
    .advance completer, .beginTrim asker #[64, 65], .advance asker, .advance asker,
    .advance asker, .advance asker, .advance asker, .advance asker, .advance asker,
    .advance asker]

instance (state : State (Fin 2)) (action : Action (Fin 2)) : Decidable (StepSafe state action) :=
  match action with
  | .allocate _ => inferInstanceAs (Decidable (_ < _))
  | .advance _ => inferInstanceAs (Decidable (∀ _ ∈ _, ∀ _, _ = _))
  | .beginComplete _ _ => isTrue trivial
  | .beginCheck _ _ => isTrue trivial
  | .beginTrim _ _ => isTrue trivial

theorem inOrderActions_answers :
    ∃ state, run inOrderActions = some state ∧ ∀ answer ∈ state.answers, answer.Correct := by
  have runs : (run inOrderActions).isSome = true := by decide +kernel
  obtain ⟨state, reached⟩ := Option.isSome_iff_exists.mp runs
  exact ⟨state, reached, run_answers_correct (by decide +kernel) reached⟩

/-- Counter 128 is completed out of order.  A query loads the fully completed
value of its list; then 64 is completed in order and 192 out of order, which
collapses the segment; then the query locks the list and scans no segments. -/
def collapsedActions : List (Action (Fin 2)) :=
  List.replicate 129 (.allocate completer) ++
  .beginComplete completer 128 :: List.replicate 6 (.advance completer) ++
  .beginCheck asker 128 :: .advance asker ::
  .beginComplete completer 64 :: List.replicate 2 (.advance completer) ++
  .beginComplete completer 192 :: List.replicate 7 (.advance completer) ++
  List.replicate 4 (.advance asker)

/-- The query tells that 128 is incomplete, which it was not when the query began. -/
theorem collapsedActions_answer_false :
    ∃ state, run collapsedActions = some state ∧ ∃ answer ∈ state.answers, ¬ answer.Correct := by
  have answers : (run collapsedActions).map State.answers =
      some [⟨[128], [(128, false)], [128], [192, 64, 128]⟩] := by decide +kernel
  obtain ⟨state, reached, answers⟩ := Option.map_eq_some_iff.mp answers
  refine ⟨state, reached, ⟨[128], [(128, false)], [128], [192, 64, 128]⟩, ?_, ?_⟩
  · rw [answers]
    exact List.mem_singleton_self _
  · rintro ⟨-, verdicts⟩
    have verdict := verdicts 128 false (List.mem_singleton_self _)
    cases verdict.1 (Or.inr (List.mem_singleton_self _))

end Voxen.Svc.AsyncCounterTracker
