import Voxen.Svc.AsyncCounterTracker

/-!
# The values the segments of a list cover

Adding a value to the segments adds it to the values they cover and no other
one, whichever segments it extends or joins.
-/

namespace Voxen.Svc.AsyncCounterTracker

/-! ## Segments as sets of values -/

def ValueSegment.Within (segment : ValueSegment) (value : Nat) : Prop :=
  segment.first ≤ value ∧ value ≤ segment.last

/-- The value is in one of the segments. -/
def Covers (segments : List ValueSegment) (value : Nat) : Prop :=
  ∃ segment ∈ segments, segment.Within value

/-- No segment is empty. -/
def Proper (segments : List ValueSegment) : Prop :=
  ∀ segment ∈ segments, segment.first ≤ segment.last

theorem scan_iff (segments : List ValueSegment) (value : Nat) :
    scan segments value = true ↔ Covers segments value := by
  unfold scan Covers ValueSegment.Within
  simp

variable {i desired : Nat} {new old : ValueSegment} {segments : List ValueSegment}

theorem mem_set {segment : ValueSegment} (holds : segments[i]? = some old) :
    segment ∈ segments.set i new ↔
      segment = new ∨ ∃ j, j ≠ i ∧ segments[j]? = some segment := by
  obtain ⟨inside, -⟩ := List.getElem?_eq_some_iff.mp holds
  rw [List.mem_iff_getElem?]
  constructor
  · rintro ⟨j, found⟩
    rw [List.getElem?_set] at found
    by_cases same : i = j
    · rw [if_pos same, if_pos inside] at found
      exact Or.inl (Option.some.inj found).symm
    · rw [if_neg same] at found
      exact Or.inr ⟨j, fun eq => same eq.symm, found⟩
  · rintro (rfl | ⟨j, differ, found⟩)
    · exact ⟨i, List.getElem?_set_self inside⟩
    · exact ⟨j, by rw [List.getElem?_set_ne fun eq => differ eq.symm, found]⟩

theorem mem_set_eraseIdx {k : Nat} {segment : ValueSegment} (holds : segments[i]? = some old)
    (apart : i ≠ k) :
    segment ∈ (segments.set i new).eraseIdx k ↔
      segment = new ∨ ∃ j, j ≠ i ∧ j ≠ k ∧ segments[j]? = some segment := by
  obtain ⟨inside, -⟩ := List.getElem?_eq_some_iff.mp holds
  rw [List.mem_eraseIdx_iff_getElem?]
  constructor
  · rintro ⟨j, kept, found⟩
    rw [List.getElem?_set] at found
    by_cases same : i = j
    · rw [if_pos same, if_pos inside] at found
      exact Or.inl (Option.some.inj found).symm
    · rw [if_neg same] at found
      exact Or.inr ⟨j, fun eq => same eq.symm, kept, found⟩
  · rintro (rfl | ⟨j, differ, kept, found⟩)
    · exact ⟨i, apart, List.getElem?_set_self inside⟩
    · exact ⟨j, kept, by rw [List.getElem?_set_ne fun eq => differ eq.symm, found]⟩

/-- What adding a value to the segments has to do. -/
def Adds (segments segments' : List ValueSegment) (desired : Nat) : Prop :=
  Proper segments' ∧ ∀ value, Covers segments' value ↔ Covers segments value ∨ value = desired

theorem adds_extend (proper : Proper segments) (holds : segments[i]? = some old)
    (newProper : new.first ≤ new.last)
    (extended : ∀ value, new.Within value ↔ old.Within value ∨ value = desired) :
    Adds segments (segments.set i new) desired := by
  constructor
  · intro segment mem
    rcases (mem_set holds).mp mem with rfl | ⟨j, -, found⟩
    · exact newProper
    · exact proper segment (List.mem_of_getElem? found)
  · intro value
    constructor
    · rintro ⟨segment, mem, within⟩
      rcases (mem_set holds).mp mem with rfl | ⟨j, -, found⟩
      · rcases (extended value).mp within with inOld | same
        · exact Or.inl ⟨old, List.mem_of_getElem? holds, inOld⟩
        · exact Or.inr same
      · exact Or.inl ⟨segment, List.mem_of_getElem? found, within⟩
    · rintro (⟨segment, mem, within⟩ | same)
      · obtain ⟨j, found⟩ := List.mem_iff_getElem?.mp mem
        by_cases same : j = i
        · rw [same, holds] at found
          cases found
          exact ⟨new, (mem_set holds).mpr (Or.inl rfl), (extended value).mpr (Or.inl within)⟩
        · exact ⟨segment, (mem_set holds).mpr (Or.inr ⟨j, same, found⟩), within⟩
      · exact ⟨new, (mem_set holds).mpr (Or.inl rfl), (extended value).mpr (Or.inr same)⟩

theorem adds_join (proper : Proper segments) {k : Nat} {other : ValueSegment}
    (holds : segments[i]? = some old) (otherHolds : segments[k]? = some other) (apart : i ≠ k)
    (newProper : new.first ≤ new.last) (joined : ∀ value,
      new.Within value ↔ old.Within value ∨ other.Within value ∨ value = desired) :
    Adds segments ((segments.set i new).eraseIdx k) desired := by
  constructor
  · intro segment mem
    rcases (mem_set_eraseIdx holds apart).mp mem with rfl | ⟨j, -, -, found⟩
    · exact newProper
    · exact proper segment (List.mem_of_getElem? found)
  · have newMem : new ∈ (segments.set i new).eraseIdx k :=
      (mem_set_eraseIdx holds apart).mpr (Or.inl rfl)
    intro value
    constructor
    · rintro ⟨segment, mem, within⟩
      rcases (mem_set_eraseIdx holds apart).mp mem with rfl | ⟨j, -, -, found⟩
      · rcases (joined value).mp within with inOld | inOther | same
        · exact Or.inl ⟨old, List.mem_of_getElem? holds, inOld⟩
        · exact Or.inl ⟨other, List.mem_of_getElem? otherHolds, inOther⟩
        · exact Or.inr same
      · exact Or.inl ⟨segment, List.mem_of_getElem? found, within⟩
    · rintro (⟨segment, mem, within⟩ | same)
      · obtain ⟨j, found⟩ := List.mem_iff_getElem?.mp mem
        by_cases atOld : j = i
        · rw [atOld, holds] at found
          cases found
          exact ⟨new, newMem, (joined value).mpr (Or.inl within)⟩
        by_cases atOther : j = k
        · rw [atOther, otherHolds] at found
          cases found
          exact ⟨new, newMem, (joined value).mpr (Or.inr (Or.inl within))⟩
        exact ⟨segment,
          (mem_set_eraseIdx holds apart).mpr (Or.inr ⟨j, atOld, atOther, found⟩), within⟩
      · exact ⟨new, newMem, (joined value).mpr (Or.inr (Or.inr same))⟩

theorem appendToSegment_adds {segments' : List ValueSegment} (proper : Proper segments)
    (appended : appendToSegment segments desired i = some segments') :
    Adds segments segments' desired := by
  unfold appendToSegment at appended
  cases holds : segments[i]? with
  | none =>
    rw [holds] at appended
    cases appended
  | some segment =>
    have segmentProper := proper segment (List.mem_of_getElem? holds)
    simp only [holds, Option.bind_eq_bind, Option.bind_some, Option.pure_def] at appended
    have extendLeft : desired + 1 = segment.first →
        Adds segments (segments.set i ⟨desired, segment.last⟩) desired := by
      intro next
      refine adds_extend proper holds (by dsimp only; omega) fun value => ?_
      simp only [ValueSegment.Within]
      omega
    have extendRight : desired = segment.last + 1 →
        Adds segments (segments.set i ⟨segment.first, desired⟩) desired := by
      intro next
      refine adds_extend proper holds (by dsimp only; omega) fun value => ?_
      simp only [ValueSegment.Within]
      omega
    split at appended
    next left =>
      split at appended
      next next nextHolds =>
        have nextProper := proper next (List.mem_of_getElem? nextHolds)
        split at appended
        next adjacent =>
          cases appended
          refine adds_join proper holds nextHolds (Nat.ne_of_lt (Nat.lt_succ_self i))
            (by dsimp only; omega) fun value => ?_
          simp only [ValueSegment.Within]
          omega
        next =>
          cases appended
          exact extendLeft left
      next =>
        cases appended
        exact extendLeft left
    next =>
      split at appended
      next right =>
        split at appended
        next previous previousHolds =>
          split at previousHolds
          next positive =>
            have previousProper := proper previous (List.mem_of_getElem? previousHolds)
            split at appended
            next adjacent =>
              cases appended
              refine adds_join proper previousHolds holds (by omega)
                (by dsimp only; omega) fun value => ?_
              simp only [ValueSegment.Within]
              omega
            next =>
              cases appended
              exact extendRight right
          next => cases previousHolds
        next =>
          cases appended
          exact extendRight right
      next => cases appended

theorem addValue_adds (proper : Proper segments) (desired : Nat) :
    Adds segments (addValue segments desired) desired := by
  unfold addValue
  cases appended : (List.range segments.length).findSome? (appendToSegment segments desired) with
  | some segments' =>
    obtain ⟨i, -, found⟩ := List.exists_of_findSome?_eq_some appended
    exact appendToSegment_adds proper found
  | none =>
    have members : ∀ segment, segment ∈
        segments.takeWhile (fun segment => segment.last > desired) ++
          ⟨desired, desired⟩ :: segments.dropWhile (fun segment => segment.last > desired) ↔
        segment ∈ segments ∨ segment = ⟨desired, desired⟩ := by
      intro segment
      conv_rhs => rw [← @List.takeWhile_append_dropWhile _ (fun segment =>
        decide (segment.last > desired)) segments]
      simp only [List.mem_append, List.mem_cons]
      tauto
    dsimp only
    constructor
    · intro segment mem
      rcases (members segment).mp mem with old | rfl
      · exact proper segment old
      · exact Nat.le_refl desired
    · intro value
      constructor
      · rintro ⟨segment, mem, within⟩
        rcases (members segment).mp mem with old | rfl
        · exact Or.inl ⟨segment, old, within⟩
        · exact Or.inr (Nat.le_antisymm within.2 within.1)
      · rintro (⟨segment, mem, within⟩ | rfl)
        · exact ⟨segment, (members segment).mpr (Or.inl mem), within⟩
        · exact ⟨_, (members _).mpr (Or.inr rfl), Nat.le_refl _, Nat.le_refl _⟩

/-- The value is completed as far as the list tells. -/
def Recorded {Thread : Type} (list : CompletionList Thread) (value : Nat) : Prop :=
  value ≤ list.fullyCompletedValue ∨ Covers list.outOfOrderSegments value

end Voxen.Svc.AsyncCounterTracker
