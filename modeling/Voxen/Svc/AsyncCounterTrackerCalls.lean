import Voxen.Svc.AsyncCounterTrackerOrder

/-!
# Calls of the async counter tracker, one after another

A call takes its steps without another call between them.  The segments then stay in
order above `fully_completed_value`, and the two tell exactly what was completed.
-/

namespace Voxen.Svc.AsyncCounterTracker

variable {Thread : Type}

/-! ## Whole calls -/

/-- The steps of a `completeCounter` call from a phase to its end, if there are not more
of them than fuel. -/
def completeFrom (thread : Thread) (counter : Nat) :
    Nat → CompletionList Thread → CompletePhase → Option (CompletionList Thread)
  | _, list, .done => some list
  | 0, _, _ => none
  | fuel + 1, list, phase => do
      let (list, phase) ← completeStep thread counter list phase
      completeFrom thread counter fuel list phase

/-- The steps of the check of a counter. -/
def checkFrom (thread : Thread) (counter : Nat) :
    Nat → CompletionList Thread → CheckPhase → Option (CompletionList Thread × Bool)
  | _, list, .done found => some (list, found)
  | 0, _, _ => none
  | fuel + 1, list, phase => do
      let (list, phase) ← checkStep thread counter list phase
      checkFrom thread counter fuel list phase

/-- `completeCounter`. -/
def completeCounter (fuel : Nat) (thread : Thread) (lists : Nat → CompletionList Thread)
    (counter : Nat) : Option (Nat → CompletionList Thread) := do
  let index := counter % numCompletionLists
  let list ← completeFrom thread counter fuel (lists index) .exchange
  return Function.update lists index list

/-- `isCounterComplete`: loading, locking, scanning, unlocking. -/
def isCounterComplete (thread : Thread) (lists : Nat → CompletionList Thread) (counter : Nat) :
    Option ((Nat → CompletionList Thread) × Bool) := do
  let index := counter % numCompletionLists
  let (list, found) ← checkFrom thread counter 4 (lists index) .load
  return (Function.update lists index list, found)

/-- The loop of `trimCompleteCounters`; a round either takes a counter away or goes on to
the next one. -/
def trimLoop (thread : Thread) : Nat → (Nat → CompletionList Thread) → Array Nat → Nat → Nat →
    Option ((Nat → CompletionList Thread) × Array Nat × Nat)
  | 0, _, _, _, _ => none
  | fuel + 1, lists, counters, i, remaining =>
    if i < remaining then do
      let counter ← counters[i]?
      let (lists, complete) ← isCounterComplete thread lists counter
      if complete then
        trimLoop thread fuel lists (counters.swapIfInBounds i (remaining - 1)) i (remaining - 1)
      else
        trimLoop thread fuel lists counters (i + 1) remaining
    else some (lists, counters, remaining)

/-- `trimCompleteCounters`: the lists, the counters, and the number returned. -/
def trimCompleteCounters (thread : Thread) (lists : Nat → CompletionList Thread)
    (counters : Array Nat) : Option ((Nat → CompletionList Thread) × Array Nat × Nat) :=
  trimLoop thread (counters.size + 1) lists counters 0 counters.size

/-- The lists, and the counters completed so far. -/
structure Tracker (Thread : Type) where
  lists : Nat → CompletionList Thread := fun _ => {}
  completed : List Nat := []

/-- A `completeCounter` call on a counter that `allocateCounter` may have returned and that
was not completed before. -/
def complete (fuel : Nat) (tracker : Tracker Thread) (call : Thread × Nat) :
    Option (Tracker Thread) :=
  if numCompletionLists ≤ call.2 ∧ call.2 < 2 ^ 64 ∧ call.2 ∉ tracker.completed then do
    let lists ← completeCounter fuel call.1 tracker.lists call.2
    return ⟨lists, call.2 :: tracker.completed⟩
  else none

/-! ## One list -/

/-- A list between calls. -/
structure Settled (list : CompletionList Thread) : Prop where
  descending : Descending list.outOfOrderSegments
  above : ∀ segment ∈ list.outOfOrderSegments, list.fullyCompletedValue < segment.first
  unlocked : list.lock = none

variable {list : CompletionList Thread} {thread : Thread} {counter : Nat}

theorem completeFrom_succ (fuel : Nat) {phase : CompletePhase} (going : phase ≠ .done) :
    completeFrom thread counter (fuel + 1) list phase =
      (completeStep thread counter list phase).bind fun next =>
        completeFrom thread counter fuel next.1 next.2 := by
  cases phase with
  | done => exact absurd rfl going
  | _ => rfl

/-- The first exchange succeeds if the value before this one is the last completed one. -/
theorem completeStep_exchange (thread : Thread) (list : CompletionList Thread)
    (positive : 0 < counter / numCompletionLists)
    (bounded : counter / numCompletionLists < 2 ^ 64) :
    completeStep thread counter list .exchange =
      if list.fullyCompletedValue = counter / numCompletionLists - 1 then
        some ({ list with fullyCompletedValue := counter / numCompletionLists }, .done)
      else some (list, .acquire list.fullyCompletedValue) := by
  have expected : (counter / numCompletionLists + (2 ^ 64 - 1)) % 2 ^ 64 =
      counter / numCompletionLists - 1 := by omega
  simp only [completeStep, expected]

theorem completeFrom_mono {fuel more : Nat} {phase : CompletePhase}
    {list' : CompletionList Thread} (enough : fuel ≤ more)
    (done : completeFrom thread counter fuel list phase = some list') :
    completeFrom thread counter more list phase = some list' := by
  by_cases ended : phase = .done
  · subst ended
    cases fuel <;> cases more <;> exact done
  induction fuel generalizing more list phase with
  | zero => cases phase <;> first | exact absurd rfl ended | cases done
  | succ fuel ih =>
    obtain ⟨more, rfl⟩ : ∃ k, more = k + 1 := ⟨more - 1, by omega⟩
    rw [completeFrom_succ _ ended] at done ⊢
    obtain ⟨next, stepped, rest⟩ := Option.bind_eq_some_iff.mp done
    refine Option.bind_eq_some_iff.mpr ⟨next, stepped, ?_⟩
    by_cases last : next.2 = .done
    · rw [last] at rest ⊢
      cases fuel <;> cases more <;> exact rest
    · exact ih (by omega) rest last

/-- The loop that collapses segments ends after two rounds: what follows a collapsed
segment has a gap before it. -/
theorem collapseFrom_spec (thread : Thread) (counter : Nat)
    (descending : Descending list.outOfOrderSegments)
    (above : ∀ segment ∈ list.outOfOrderSegments, list.fullyCompletedValue < segment.first) :
    ∃ list', (∀ fuel, completeFrom thread counter (fuel + 3) list
        (.collapse list.fullyCompletedValue) = some list') ∧
      Settled list' ∧ ∀ value, Recorded list' value ↔ Recorded list value := by
  rcases List.eq_nil_or_concat list.outOfOrderSegments with empty | ⟨front, segment, split⟩
  · refine ⟨{ list with lock := none }, fun fuel => ?_, ⟨descending, above, rfl⟩, fun _ => Iff.rfl⟩
    simp [completeFrom, completeStep, empty]
  rw [List.concat_eq_append] at split
  by_cases next : segment.first = list.fullyCompletedValue + 1
  · have gaps : ∀ other ∈ front, segment.last + 1 < other.first := by
      rw [split] at descending
      exact descending.gap_later
    have proper : segment.first ≤ segment.last := descending.proper segment (by rw [split]; simp)
    refine ⟨{ list with
      fullyCompletedValue := segment.last, outOfOrderSegments := front, lock := none },
      fun fuel => ?_, ⟨?_, fun other mem => ?_, rfl⟩, fun value => ?_⟩
    · rcases List.eq_nil_or_concat front with rfl | ⟨others, other, rfl⟩
      · simp [completeFrom, completeStep, split, next]
      · have gap := gaps other (by simp)
        have apart : other.first ≠ segment.last + 1 := by omega
        simp [completeFrom, completeStep, split, next, apart]
    · rw [split] at descending
      exact ⟨fun other mem => descending.proper other (List.mem_append_left _ mem),
        (List.pairwise_append.mp descending.gaps).1⟩
    · have gap := gaps other mem
      show segment.last < other.first
      omega
    · simp only [Recorded, Covers, split, List.mem_append, List.mem_singleton, or_and_right,
        exists_or, exists_eq_left, ValueSegment.Within]
      constructor
      · rintro (low | inFront)
        · omega
        · exact Or.inr (Or.inl inFront)
      · rintro (low | inFront | within)
        · omega
        · exact Or.inr inFront
        · omega
  · refine ⟨{ list with lock := none }, fun fuel => ?_, ⟨descending, above, rfl⟩, fun _ => Iff.rfl⟩
    simp [completeFrom, completeStep, split, next]

theorem completeFrom_spec (thread : Thread) (settled : Settled list)
    (positive : 0 < counter / numCompletionLists) (bounded : counter < 2 ^ 64)
    (fresh : ¬ Recorded list (counter / numCompletionLists)) :
    ∃ list', (∀ fuel, completeFrom thread counter (fuel + 6) list .exchange = some list') ∧
      Settled list' ∧ ∀ value,
        Recorded list' value ↔ Recorded list value ∨ value = counter / numCompletionLists := by
  have desired_lt : counter / numCompletionLists < 2 ^ 64 :=
    Nat.lt_of_le_of_lt (Nat.div_le_self _ _) bounded
  have exchange := completeStep_exchange thread list positive desired_lt
  have going : CompletePhase.exchange ≠ .done := nofun
  generalize desired_eq : counter / numCompletionLists = desired at *
  obtain ⟨unfinished, uncovered⟩ := not_or.mp fresh
  by_cases inOrder : list.fullyCompletedValue = desired - 1
  · refine ⟨{ list with fullyCompletedValue := desired }, fun fuel => ?_,
      ⟨settled.descending, fun segment mem => ?_, settled.unlocked⟩, fun value => ?_⟩
    · rw [completeFrom_succ _ going, exchange, if_pos inOrder]
      rfl
    · have low := settled.above segment mem
      have proper := settled.descending.proper segment mem
      have apart : segment.first ≠ desired := by
        rintro rfl
        exact uncovered ⟨segment, mem, Nat.le_refl _, proper⟩
      show desired < segment.first
      omega
    · simp only [Recorded, inOrder]
      constructor
      · rintro (low | covered)
        · omega
        · exact Or.inl (Or.inr covered)
      · rintro ((low | covered) | same)
        · omega
        · exact Or.inr covered
        · omega
  · obtain ⟨proper, covers⟩ := addValue_adds settled.descending.proper desired
    have descending := addValue_descending settled.descending uncovered
    let added : CompletionList Thread :=
      { list with
        outOfOrderSegments := addValue list.outOfOrderSegments desired, lock := some thread }
    have above : ∀ segment ∈ added.outOfOrderSegments,
        added.fullyCompletedValue < segment.first := by
      intro segment mem
      rcases (covers segment.first).mp ⟨segment, mem, Nat.le_refl _, proper segment mem⟩ with
        ⟨old, oldMem, within⟩ | same
      · exact Nat.lt_of_lt_of_le (settled.above old oldMem) within.1
      · rw [same]
        exact Nat.lt_of_not_le unfinished
    obtain ⟨list', done, settled', recorded⟩ :=
      collapseFrom_spec thread counter descending above
    refine ⟨list', fun fuel => ?_, settled', fun value => ?_⟩
    · rw [← done fuel]
      rw [completeFrom_succ _ going, exchange, if_neg inOrder]
      simp [completeFrom, completeStep, desired_eq, settled.unlocked, added]
    · rw [recorded, Recorded, Recorded, covers, or_assoc]

/-! ## Queries -/

/-- The counter is complete as far as the lists tell. -/
def CompleteIn (lists : Nat → CompletionList Thread) (counter : Nat) : Prop :=
  Recorded (lists (counter % numCompletionLists)) (counter / numCompletionLists)

variable {lists : Nat → CompletionList Thread}

theorem isCounterComplete_spec (settled : ∀ index, Settled (lists index)) (thread : Thread)
    (counter : Nat) : ∃ found, isCounterComplete thread lists counter = some (lists, found) ∧
      (found = true ↔ CompleteIn lists counter) := by
  simp only [CompleteIn]
  generalize same : lists (counter % numCompletionLists) = list
  have unlocked : list.lock = none := by rw [← same]; exact (settled _).unlocked
  have unchanged : Function.update lists (counter % numCompletionLists) list = lists := by
    rw [← same, Function.update_eq_self]
  by_cases low : list.fullyCompletedValue ≥ counter / numCompletionLists
  · refine ⟨true, ?_, iff_of_true rfl (Or.inl low)⟩
    simp [isCounterComplete, checkFrom, checkStep, same, low, unchanged]
  · refine ⟨scan list.outOfOrderSegments (counter / numCompletionLists), ?_, ?_⟩
    · have kept : { list with lock := none } = list := by rw [← unlocked]
      simp [isCounterComplete, checkFrom, checkStep, same, low, unlocked, kept, unchanged]
    · rw [scan_iff, Recorded, or_iff_right low]

/-- What the loop keeps: the counters before `i` are incomplete, those from `remaining` on
are complete. -/
structure Trimmed (lists : Nat → CompletionList Thread) (counters : Array Nat)
    (i remaining : Nat) : Prop where
  le : i ≤ remaining
  size : remaining ≤ counters.size
  incomplete : ∀ j counter, counters[j]? = some counter → j < i → ¬ CompleteIn lists counter
  complete : ∀ j counter, counters[j]? = some counter → remaining ≤ j → CompleteIn lists counter

namespace Trimmed

variable {counters : Array Nat} {i remaining counter : Nat}

theorem keeps (trimmed : Trimmed lists counters i remaining) (inside : i < remaining)
    (holds : counters[i]? = some counter) (found : ¬ CompleteIn lists counter) :
    Trimmed lists counters (i + 1) remaining where
  le := inside
  size := trimmed.size
  incomplete j other holds' below := by
    rcases Nat.lt_or_eq_of_le (Nat.le_of_lt_succ below) with less | rfl
    · exact trimmed.incomplete j other holds' less
    · rw [holds] at holds'
      cases holds'
      exact found
  complete := trimmed.complete

theorem removes (trimmed : Trimmed lists counters i remaining) (inside : i < remaining)
    (holds : counters[i]? = some counter) (found : CompleteIn lists counter) :
    (counters.swapIfInBounds i (remaining - 1)).Perm counters ∧
      Trimmed lists (counters.swapIfInBounds i (remaining - 1)) i (remaining - 1) := by
  have size := trimmed.size
  have hi : i < counters.size := by omega
  have hLast : remaining - 1 < counters.size := by omega
  have value : counters[i] = counter :=
    Option.some.inj ((Array.getElem?_eq_getElem hi).symm.trans holds)
  rw [Array.swapIfInBounds_def, dif_pos hi, dif_pos hLast]
  refine ⟨Array.swap_perm hi hLast, by omega, ?_, fun j other holds' below => ?_,
    fun j other holds' above => ?_⟩
  · rw [Array.size_swap]
    omega
  · rw [Array.getElem?_swap, if_neg (by omega), if_neg (by omega)] at holds'
    exact trimmed.incomplete j other holds' below
  · rw [Array.getElem?_swap] at holds'
    split at holds'
    next =>
      rw [value] at holds'
      cases holds'
      exact found
    next =>
      rw [if_neg (by omega)] at holds'
      exact trimmed.complete j other holds' (by omega)

end Trimmed

theorem trimLoop_spec (settled : ∀ index, Settled (lists index)) (thread : Thread)
    {fuel i remaining : Nat} {counters : Array Nat} (trimmed : Trimmed lists counters i remaining)
    (enough : remaining - i < fuel) :
    ∃ counters' count, trimLoop thread fuel lists counters i remaining =
        some (lists, counters', count) ∧
      counters'.Perm counters ∧ Trimmed lists counters' count count := by
  induction fuel generalizing counters i remaining with
  | zero => omega
  | succ fuel ih =>
    by_cases inside : i < remaining
    · have hi : i < counters.size := Nat.lt_of_lt_of_le inside trimmed.size
      have holds : counters[i]? = some counters[i] := Array.getElem?_eq_getElem hi
      obtain ⟨found, checked, found_iff⟩ := isCounterComplete_spec settled thread counters[i]
      cases found with
      | true =>
        obtain ⟨perm, rest⟩ := trimmed.removes inside holds (found_iff.mp rfl)
        obtain ⟨counters', count, done, perm', split⟩ := ih rest (by omega)
        refine ⟨counters', count, ?_, perm'.trans perm, split⟩
        simp [trimLoop, inside, holds, checked, done]
      | false =>
        have rest := trimmed.keeps inside holds fun complete => by
          cases found_iff.mpr complete
        obtain ⟨counters', count, done, perm', split⟩ := ih rest (by omega)
        refine ⟨counters', count, ?_, perm', split⟩
        simp [trimLoop, inside, holds, checked, done]
    · have same : i = remaining := Nat.le_antisymm trimmed.le (Nat.le_of_not_lt inside)
      subst same
      refine ⟨counters, i, ?_, Array.Perm.refl _, trimmed⟩
      simp [trimLoop]

/-! ## Runs -/

/-- What holds between calls. -/
structure Accurate (tracker : Tracker Thread) : Prop where
  settled : ∀ index, Settled (tracker.lists index)
  completed : ∀ counter, numCompletionLists ≤ counter →
    (counter ∈ tracker.completed ↔ CompleteIn tracker.lists counter)

/-- Zero is the quotient of the values that are never allocated, and complete. -/
theorem recorded_zero (list : CompletionList Thread) : Recorded list 0 :=
  Or.inl (Nat.zero_le _)

theorem initial_accurate : Accurate ({} : Tracker Thread) where
  settled _ := ⟨⟨nofun, List.Pairwise.nil⟩, nofun, rfl⟩
  completed counter allocated := by
    have positive : 0 < counter / numCompletionLists :=
      Nat.div_pos allocated (by decide)
    refine iff_of_false nofun ?_
    rintro (low | ⟨segment, mem, -⟩)
    · exact Nat.not_le_of_lt positive low
    · cases mem

variable {tracker tracker' : Tracker Thread} {fuel : Nat}

theorem Accurate.complete_spec (accurate : Accurate tracker) (thread : Thread) {counter : Nat}
    (allocated : numCompletionLists ≤ counter) (bounded : counter < 2 ^ 64)
    (fresh : counter ∉ tracker.completed) :
    ∃ tracker', (∀ fuel, complete (fuel + 6) tracker (thread, counter) = some tracker') ∧
      Accurate tracker' ∧ tracker'.completed = counter :: tracker.completed := by
  obtain ⟨list', done, settled', recorded⟩ := completeFrom_spec thread
    (accurate.settled (counter % numCompletionLists)) (Nat.div_pos allocated (by decide)) bounded
    (fun recorded => fresh ((accurate.completed counter allocated).mpr recorded))
  refine ⟨⟨Function.update tracker.lists (counter % numCompletionLists) list',
    counter :: tracker.completed⟩, fun fuel => ?_, ⟨fun index => ?_, fun other otherAllocated => ?_⟩,
    rfl⟩
  · rw [complete, if_pos ⟨allocated, bounded, fresh⟩]
    simp [completeCounter, done]
  · by_cases same : index = counter % numCompletionLists
    · subst same
      simpa only [Function.update_self] using settled'
    · simp only [Function.update_of_ne same]
      exact accurate.settled index
  · rw [List.mem_cons, accurate.completed other otherAllocated, CompleteIn, CompleteIn]
    by_cases same : other % numCompletionLists = counter % numCompletionLists
    · dsimp only
      rw [same, Function.update_self, recorded, or_comm]
      refine or_congr Iff.rfl ⟨fun equal => by rw [equal], fun equal => ?_⟩
      rw [← Nat.div_add_mod other numCompletionLists, equal, same, Nat.div_add_mod]
    · dsimp only
      rw [Function.update_of_ne same]
      exact or_iff_right fun equal => same (by rw [equal])

theorem complete_mono {more : Nat} {call : Thread × Nat} (enough : fuel ≤ more)
    (called : complete fuel tracker call = some tracker') :
    complete more tracker call = some tracker' := by
  simp only [complete] at called ⊢
  split at called
  next may =>
    rw [if_pos may]
    obtain ⟨lists, completed, same⟩ := Option.bind_eq_some_iff.mp called
    obtain ⟨list, stepped, same'⟩ := Option.bind_eq_some_iff.mp completed
    refine Option.bind_eq_some_iff.mpr ⟨lists, ?_, same⟩
    exact Option.bind_eq_some_iff.mpr ⟨list, completeFrom_mono enough stepped, same'⟩
  next => cases called

theorem complete_accurate (tracker : Tracker Thread) (call : Thread × Nat)
    (tracker' : Tracker Thread) (accurate : Accurate tracker)
    (called : complete fuel tracker call = some tracker') : Accurate tracker' := by
  obtain ⟨thread, counter⟩ := call
  have may : numCompletionLists ≤ counter ∧ counter < 2 ^ 64 ∧ counter ∉ tracker.completed := by
    by_contra may
    rw [complete, if_neg may] at called
    cases called
  obtain ⟨done, spec, accurate', -⟩ := accurate.complete_spec thread may.1 may.2.1 may.2.2
  have same := (complete_mono (Nat.le_add_right fuel 6) called).symm.trans (spec fuel)
  cases same
  exact accurate'

/-- The tracker tells the truth about every counter. -/
structure Truthful (tracker : Tracker Thread) : Prop where
  in_order : ∀ index, Proper (tracker.lists index).outOfOrderSegments ∧
    (tracker.lists index).outOfOrderSegments.Pairwise
      fun later earlier => earlier.last + 1 < later.first
  above : ∀ index, ∀ segment ∈ (tracker.lists index).outOfOrderSegments,
    (tracker.lists index).fullyCompletedValue < segment.first
  completed : ∀ counter, numCompletionLists ≤ counter →
    (counter ∈ tracker.completed ↔
      Recorded (tracker.lists (counter % numCompletionLists)) (counter / numCompletionLists))
  check : ∀ thread counter, ∃ found,
    isCounterComplete thread tracker.lists counter = some (tracker.lists, found) ∧
      (found = true ↔ counter < numCompletionLists ∨ counter ∈ tracker.completed)
  trim : ∀ thread counters, ∃ counters' count,
    trimCompleteCounters thread tracker.lists counters = some (tracker.lists, counters', count) ∧
      counters'.Perm counters ∧ count ≤ counters.size ∧
      ∀ j counter, counters'[j]? = some counter →
        (j < count ↔ ¬ (counter < numCompletionLists ∨ counter ∈ tracker.completed))
  returns : ∀ thread counter, numCompletionLists ≤ counter → counter < 2 ^ 64 →
    counter ∉ tracker.completed → ∃ fuel tracker', ∀ more, fuel ≤ more →
      complete more tracker (thread, counter) = some tracker'

theorem Accurate.completeIn_iff (accurate : Accurate tracker) (counter : Nat) :
    CompleteIn tracker.lists counter ↔
      counter < numCompletionLists ∨ counter ∈ tracker.completed := by
  by_cases low : counter < numCompletionLists
  · refine iff_of_true ?_ (Or.inl low)
    rw [CompleteIn, Nat.div_eq_of_lt low]
    exact recorded_zero _
  · rw [← accurate.completed counter (Nat.le_of_not_lt low), or_iff_right low]

theorem Accurate.truthful (accurate : Accurate tracker) : Truthful tracker where
  in_order index := ⟨(accurate.settled index).descending.proper,
    (accurate.settled index).descending.gaps⟩
  above index := (accurate.settled index).above
  completed := accurate.completed
  check thread counter := by
    rw [← accurate.completeIn_iff]
    exact isCounterComplete_spec accurate.settled thread counter
  trim thread counters := by
    have start : Trimmed tracker.lists counters 0 counters.size := by
      refine ⟨Nat.zero_le _, Nat.le_refl _, fun j counter _ below => ?_,
        fun j counter holds above => ?_⟩
      · cases below
      · obtain ⟨inside, -⟩ := Array.getElem?_eq_some_iff.mp holds
        omega
    obtain ⟨counters', count, done, perm, split⟩ :=
      trimLoop_spec accurate.settled thread start (Nat.lt_succ_self _)
    refine ⟨counters', count, done, perm, perm.size_eq ▸ split.size, fun j counter holds => ?_⟩
    rw [← accurate.completeIn_iff]
    exact ⟨split.incomplete j counter holds, fun incomplete =>
      Nat.lt_of_not_le fun above => incomplete (split.complete j counter holds above)⟩
  returns thread counter allocated bounded fresh := by
    obtain ⟨tracker', done, -⟩ := accurate.complete_spec thread allocated bounded fresh
    refine ⟨6, tracker', fun more enough => ?_⟩
    obtain ⟨fuel, rfl⟩ := Nat.exists_eq_add_of_le' enough
    exact done fuel

/-- After every call the tracker tells the truth. -/
theorem run_truthful {calls : List (Thread × Nat)}
    (reached : Runs.run (complete fuel) {} calls = some tracker) : Truthful tracker :=
  (Runs.run_preserved complete_accurate initial_accurate reached).truthful

/-- Out of order, with two segments joined and collapsed, and one left over. -/
theorem run_truthful_out_of_order :
    ∃ tracker : Tracker Unit,
      Runs.run (complete 6) {} [((), 192), ((), 320), ((), 256), ((), 448), ((), 64)] =
        some tracker ∧
      (tracker.lists 0).outOfOrderSegments = [⟨7, 7⟩, ⟨3, 5⟩] ∧ Truthful tracker := by
  have segments : (Runs.run (complete 6) ({} : Tracker Unit)
      [((), 192), ((), 320), ((), 256), ((), 448), ((), 64)]).map
        (fun tracker => (tracker.lists 0).outOfOrderSegments) = some [⟨7, 7⟩, ⟨3, 5⟩] := by decide
  obtain ⟨tracker, reached, same⟩ := Option.map_eq_some_iff.mp segments
  exact ⟨tracker, reached, same, run_truthful reached⟩

end Voxen.Svc.AsyncCounterTracker
