import Mathlib.Data.List.TakeWhile
import Voxen.Svc.AsyncCounterTrackerSegments

/-!
# The order of the segments of a list

The segments go down with a gap between any two of them.  A completed value that is
not in a segment yet keeps that, whichever segments it extends or joins.
-/

namespace Voxen.Svc.AsyncCounterTracker

/-- A segment lies below one before it, with a gap. -/
def ValueSegment.Gap (later earlier : ValueSegment) : Prop := earlier.last + 1 < later.first

/-- Strictly descending, disjoint and not adjacent. -/
structure Descending (segments : List ValueSegment) : Prop where
  proper : Proper segments
  gaps : segments.Pairwise ValueSegment.Gap

variable {segments : List ValueSegment}

theorem split_at {i : Nat} {segment : ValueSegment} (holds : segments[i]? = some segment) :
    ∃ later earlier, segments = later ++ segment :: earlier ∧ later.length = i := by
  obtain ⟨inside, same⟩ := List.getElem?_eq_some_iff.mp holds
  refine ⟨segments.take i, segments.drop (i + 1), ?_, List.length_take_of_le (Nat.le_of_lt inside)⟩
  rw [← same, ← List.drop_eq_getElem_cons inside, List.take_append_drop]

namespace Descending

variable {later earlier : List ValueSegment} {segment next : ValueSegment} {desired : Nat}

theorem gap_later (descending : Descending (later ++ segment :: earlier)) :
    ∀ other ∈ later, segment.last + 1 < other.first := fun other mem =>
  (List.pairwise_append.mp descending.gaps).2.2 other mem segment List.mem_cons_self

theorem gap_earlier (descending : Descending (later ++ segment :: earlier)) :
    ∀ other ∈ earlier, other.last + 1 < segment.first :=
  (List.pairwise_cons.mp (List.pairwise_append.mp descending.gaps).2.1).1

theorem replace {middle : List ValueSegment} {new : ValueSegment}
    (descending : Descending (later ++ middle ++ earlier)) (new_proper : new.first ≤ new.last)
    (above : ∀ other ∈ later, new.last + 1 < other.first)
    (below : ∀ other ∈ earlier, other.last + 1 < new.first) :
    Descending (later ++ new :: earlier) where
  proper other mem := by
    rcases List.mem_append.mp mem with mem | mem
    · exact descending.proper other (List.mem_append_left _ (List.mem_append_left _ mem))
    · rcases List.mem_cons.mp mem with rfl | mem
      · exact new_proper
      · exact descending.proper other (List.mem_append_right _ mem)
  gaps := by
    obtain ⟨front, gaps_earlier, across⟩ := List.pairwise_append.mp descending.gaps
    obtain ⟨gaps_later, -, -⟩ := List.pairwise_append.mp front
    refine List.pairwise_append.mpr
      ⟨gaps_later, List.pairwise_cons.mpr ⟨below, gaps_earlier⟩, fun other mem other' mem' => ?_⟩
    rcases List.mem_cons.mp mem' with rfl | mem'
    · exact above other mem
    · exact across other (List.mem_append_left _ mem) other' mem'

/-- The value below a segment, unless the next one ends right before it. -/
theorem extend_first (descending : Descending (later ++ segment :: earlier))
    (below : desired + 1 = segment.first)
    (apart : ∀ next, earlier.head? = some next → next.last + 1 ≠ desired) :
    Descending (later ++ ⟨desired, segment.last⟩ :: earlier) := by
  have proper : segment.first ≤ segment.last := descending.proper segment (by simp)
  have split : Descending (later ++ [segment] ++ earlier) := by simpa using descending
  refine split.replace (show desired ≤ segment.last by omega) descending.gap_later
    fun other mem => ?_
  have gap := descending.gap_earlier other mem
  cases earlier with
  | nil => cases mem
  | cons next rest =>
    have next_apart := apart next rfl
    have next_gap := descending.gap_earlier next List.mem_cons_self
    have next_proper : next.first ≤ next.last := descending.proper next (by simp)
    rcases List.mem_cons.mp mem with rfl | mem
    · show other.last + 1 < desired
      omega
    · have shifted : Descending ((later ++ [segment]) ++ next :: rest) := by
        simpa using descending
      have rest_gap := shifted.gap_earlier other mem
      show other.last + 1 < desired
      omega

/-- The value above a segment, unless the one before it starts right after it. -/
theorem extend_last (descending : Descending (later ++ segment :: earlier))
    (above : desired = segment.last + 1)
    (apart : ∀ previous, later.getLast? = some previous → previous.first ≠ desired + 1) :
    Descending (later ++ ⟨segment.first, desired⟩ :: earlier) := by
  have proper : segment.first ≤ segment.last := descending.proper segment (by simp)
  have split : Descending (later ++ [segment] ++ earlier) := by simpa using descending
  refine split.replace (show segment.first ≤ desired by omega) (fun other mem => ?_)
    descending.gap_earlier
  have gap := descending.gap_later other mem
  rcases List.eq_nil_or_concat later with rfl | ⟨front, previous, rfl⟩
  · cases mem
  · rw [List.concat_eq_append] at *
    have previous_apart := apart previous (by simp)
    have previous_gap := descending.gap_later previous (by simp)
    have previous_proper : previous.first ≤ previous.last := descending.proper previous (by simp)
    show desired + 1 < other.first
    rcases List.mem_append.mp mem with mem | mem
    · have shifted : Descending (front ++ previous :: (segment :: earlier)) := by
        simpa using descending
      have front_gap := shifted.gap_later other mem
      omega
    · rw [List.mem_singleton.mp mem] at *
      omega

theorem join (descending : Descending (later ++ segment :: next :: earlier)) :
    Descending (later ++ ⟨next.first, segment.last⟩ :: earlier) := by
  have shifted : Descending ((later ++ [segment]) ++ next :: earlier) := by simpa using descending
  have split : Descending (later ++ [segment, next] ++ earlier) := by simpa using descending
  have gap := descending.gap_earlier next List.mem_cons_self
  have proper : segment.first ≤ segment.last := descending.proper segment (by simp)
  have next_proper : next.first ≤ next.last := descending.proper next (by simp)
  exact split.replace (show next.first ≤ segment.last by omega) descending.gap_later
    shifted.gap_earlier

end Descending

theorem appendToSegment_descending {segments' : List ValueSegment}
    (descending : Descending segments) {desired i : Nat}
    (appended : appendToSegment segments desired i = some segments') : Descending segments' := by
  unfold appendToSegment at appended
  cases holds : segments[i]? with
  | none =>
    rw [holds] at appended
    cases appended
  | some segment =>
    simp only [holds, Option.bind_eq_bind, Option.bind_some, Option.pure_def] at appended
    obtain ⟨later, earlier, rfl, rfl⟩ := split_at holds
    split at appended
    next below =>
      cases earlier with
      | nil =>
        simp only [List.length_append, List.length_cons, List.length_nil, Nat.zero_add,
          Nat.lt_irrefl, not_false_eq_true, getElem?_neg, Std.le_refl,
          List.set_append_right, Nat.sub_self, List.set_cons_zero,
          Option.some.injEq] at appended
        subst appended
        exact descending.extend_first below (by simp)
      | cons next rest =>
        simp only [List.length_append, List.length_cons, Nat.add_lt_add_iff_left,
          Nat.lt_add_left_iff_pos, Nat.zero_lt_succ, getElem?_pos, Nat.le_add_right,
          List.getElem_append_right, Nat.add_sub_cancel_left, List.getElem_cons_succ,
          List.getElem_cons_zero, Std.le_refl, List.set_append_right, Nat.sub_self,
          List.set_cons_zero] at appended
        split at appended
        next adjacent =>
          cases appended
          simpa [List.eraseIdx_append_of_length_le] using descending.join
        next apart =>
          cases appended
          exact descending.extend_first below (by simpa using apart)
    next =>
      split at appended
      next above =>
        rcases List.eq_nil_or_concat later with rfl | ⟨front, previous, rfl⟩
        · simp at appended
          subst appended
          exact descending.extend_last above (by simp)
        · rw [List.concat_eq_append] at *
          simp only [List.length_append, List.length_cons, List.length_nil, Nat.zero_add,
            Nat.zero_lt_succ, ↓reduceIte, List.append_assoc, List.cons_append, List.nil_append,
            Nat.add_one_sub_one, Nat.lt_add_right_iff_pos, Nat.lt_add_left_iff_pos,
            getElem?_pos, Std.le_refl, List.getElem_append_right, Nat.sub_self,
            List.getElem_cons_zero, List.set_append_right, List.set_cons_zero,
            Nat.le_add_right, Nat.add_sub_cancel_left, List.set_cons_succ] at appended
          split at appended
          next adjacent =>
            cases appended
            have shifted : Descending (front ++ previous :: segment :: earlier) := by
              simpa using descending
            simpa [List.eraseIdx_append_of_length_le] using shifted.join
          next apart =>
            cases appended
            simpa using descending.extend_last above (by simpa using apart)
      next => cases appended

theorem apart_of_appendToSegment {desired : Nat}
    (rejected : (List.range segments.length).findSome? (appendToSegment segments desired) = none)
    {segment : ValueSegment} (mem : segment ∈ segments) :
    desired + 1 ≠ segment.first ∧ desired ≠ segment.last + 1 := by
  obtain ⟨i, inside, holds⟩ := List.mem_iff_getElem.mp mem
  have none_here := List.findSome?_eq_none_iff.mp rejected i (List.mem_range.mpr inside)
  have found : segments[i]? = some segment := by rw [List.getElem?_eq_getElem inside, holds]
  unfold appendToSegment at none_here
  simp only [found, Option.bind_eq_bind, Option.bind_some, Option.pure_def] at none_here
  split at none_here
  next below =>
    repeat' split at none_here
    all_goals cases none_here
  next not_below =>
    split at none_here
    next above =>
      repeat' split at none_here
      all_goals cases none_here
    next not_above => exact ⟨not_below, not_above⟩

theorem addValue_descending (descending : Descending segments) {desired : Nat}
    (fresh : ¬ Covers segments desired) :
    Descending (addValue segments desired) := by
  unfold addValue
  cases appended : (List.range segments.length).findSome? (appendToSegment segments desired) with
  | some segments' =>
    obtain ⟨i, -, found⟩ := List.exists_of_findSome?_eq_some appended
    exact appendToSegment_descending descending found
  | none =>
    dsimp only
    generalize later_eq : segments.takeWhile (fun segment => segment.last > desired) = later
    generalize earlier_eq :
      segments.dropWhile (fun segment => segment.last > desired) = earlier
    have split : later ++ earlier = segments := by
      rw [← later_eq, ← earlier_eq, List.takeWhile_append_dropWhile]
    have away : ∀ other ∈ segments, other.first ≤ other.last ∧
        (other.last + 1 < desired ∨ desired + 1 < other.first) := fun other mem => by
      have proper := descending.proper other mem
      have apart := apart_of_appendToSegment appended mem
      have outside : ¬ (other.first ≤ desired ∧ desired ≤ other.last) := fun within =>
        fresh ⟨other, mem, within⟩
      omega
    have whole : Descending (later ++ [] ++ earlier) := by rwa [List.append_nil, split]
    refine whole.replace (Nat.le_refl desired) (fun other mem => ?_) fun other mem => ?_
    · have high : desired < other.last := by
        rw [← later_eq] at mem
        simpa using List.mem_takeWhile_imp mem
      have := away other (split ▸ List.mem_append_left _ mem)
      show desired + 1 < other.first
      omega
    · -- the first segment that is not above the value, and those behind it
      show other.last + 1 < desired
      cases earlier with
      | nil => cases mem
      | cons first rest =>
        have low : ¬ first.last > desired := by
          have head := List.head?_dropWhile_not (fun segment => decide (segment.last > desired))
            segments
          rw [earlier_eq] at head
          simpa using head
        have first_away := away first (by rw [← split]; simp)
        have other_away := away other (split ▸ List.mem_append_right _ mem)
        rcases List.mem_cons.mp mem with rfl | mem
        · omega
        · have shifted : Descending (later ++ first :: rest) := by rwa [split]
          have gap := shifted.gap_earlier other mem
          omega

end Voxen.Svc.AsyncCounterTracker
