import Mathlib.Data.List.Sort
import Mathlib.Data.List.TakeWhile

/-!
# Lists sorted by a key

Entries in strictly increasing order of a key: what is in front of and from the lower bound
of a key on, the entry of a key, and what a walk of an ever advancing cursor finds.
-/

namespace SortedEntries

variable {α κ : Type} [LinearOrder κ] (key : α → κ)

/-- Strictly increasing keys. -/
def Sorted (entries : List α) : Prop := entries.Pairwise fun first second => key first < key second

/-- The entries in front of `std::lower_bound`. -/
def below (entries : List α) (target : κ) : List α :=
  entries.takeWhile fun entry => decide (key entry < target)

/-- The entries from `std::lower_bound` on. -/
def fromBound (entries : List α) (target : κ) : List α :=
  entries.dropWhile fun entry => decide (key entry < target)

/-- The entries from `std::upper_bound` on. -/
def after (entries : List α) (target : κ) : List α :=
  match fromBound key entries target with
  | [] => []
  | entry :: rest => if key entry = target then rest else entry :: rest

/-- Replace the entry of a key, or what is not there, at the lower bound of the key. -/
def alter (entries : List α) (target : κ) (change : Option α → Option α) : List α :=
  below key entries target ++
    match fromBound key entries target with
    | [] => (change none).toList
    | entry :: rest =>
      if key entry = target then (change (some entry)).toList ++ rest
      else (change none).toList ++ entry :: rest

/-- The entry of a key. -/
def lookup (entries : List α) (target : κ) : Option α :=
  entries.find? fun entry => decide (key entry = target)

variable {key} {entries : List α} {target : κ} {entry : α}

theorem below_append_fromBound (entries : List α) (target : κ) :
    below key entries target ++ fromBound key entries target = entries :=
  List.takeWhile_append_dropWhile

theorem Sorted.fromBound (sorted : Sorted key entries) (target : κ) :
    Sorted key (fromBound key entries target) :=
  sorted.sublist (List.dropWhile_sublist _)

theorem lt_of_mem_below (mem : entry ∈ below key entries target) : key entry < target := by
  simpa using List.mem_takeWhile_imp mem

theorem fromBound_cons (entry : α) (rest : List α) (target : κ) :
    SortedEntries.fromBound key (entry :: rest) target =
      if key entry < target then SortedEntries.fromBound key rest target else entry :: rest := by
  by_cases less : key entry < target <;> simp [SortedEntries.fromBound, less]

theorem below_cons (entry : α) (rest : List α) (target : κ) :
    below key (entry :: rest) target =
      if key entry < target then entry :: below key rest target else [] := by
  by_cases less : key entry < target <;> simp [below, less]

theorem lookup_cons (entry : α) (rest : List α) (target : κ) :
    lookup key (entry :: rest) target =
      if key entry = target then some entry else lookup key rest target := by
  by_cases here : key entry = target <;> simp [lookup, here]

theorem le_of_mem_fromBound (sorted : Sorted key entries)
    (mem : entry ∈ SortedEntries.fromBound key entries target) : target ≤ key entry := by
  induction entries with
  | nil => exact absurd mem List.not_mem_nil
  | cons first rest ih =>
    obtain ⟨above, restSorted⟩ := List.pairwise_cons.mp sorted
    rw [fromBound_cons] at mem
    split at mem
    · exact ih restSorted mem
    · rename_i notLess
      rcases List.mem_cons.mp mem with rfl | inRest
      · exact not_lt.mp notLess
      · exact le_trans (not_lt.mp notLess) (above entry inRest).le

theorem mem_below_iff (sorted : Sorted key entries) :
    entry ∈ below key entries target ↔ entry ∈ entries ∧ key entry < target := by
  constructor
  · intro mem
    exact ⟨(List.takeWhile_sublist _).subset mem, lt_of_mem_below mem⟩
  · rintro ⟨mem, less⟩
    have parts : below key entries target ++ SortedEntries.fromBound key entries target = entries :=
      below_append_fromBound entries target
    rw [← parts] at mem
    rcases List.mem_append.mp mem with inFront | behind
    · exact inFront
    · exact absurd less (not_lt.mpr (le_of_mem_fromBound sorted behind))

theorem lookup_eq_some_iff (sorted : Sorted key entries) :
    lookup key entries target = some entry ↔ entry ∈ entries ∧ key entry = target := by
  induction entries with
  | nil => simp [lookup]
  | cons first rest ih =>
    obtain ⟨above, restSorted⟩ := List.pairwise_cons.mp sorted
    unfold lookup at ih ⊢
    by_cases here : key first = target
    · rw [List.find?_cons, decide_eq_true here]
      constructor
      · rintro ⟨⟩
        exact ⟨List.mem_cons_self, here⟩
      · rintro ⟨mem, same⟩
        rcases List.mem_cons.mp mem with rfl | inRest
        · rfl
        · exact absurd (here.trans same.symm) (above entry inRest).ne
    · rw [List.find?_cons, decide_eq_false here]
      refine (ih restSorted).trans (and_congr_left fun same => ?_)
      constructor
      · exact List.mem_cons_of_mem _
      · intro mem
        rcases List.mem_cons.mp mem with rfl | inRest
        · exact absurd same here
        · exact inRest

theorem lookup_eq_none_iff :
    lookup key entries target = none ↔ ∀ entry ∈ entries, key entry ≠ target := by
  simp [lookup]

/-- A cursor that moved up to a key loses no entry of that key or a later one. -/
theorem lookup_fromBound {later : κ} (notBefore : target ≤ later) :
    lookup key (SortedEntries.fromBound key entries target) later = lookup key entries later := by
  induction entries with
  | nil => rfl
  | cons first rest ih =>
    rw [fromBound_cons]
    by_cases less : key first < target
    · rw [if_pos less, ih, lookup, lookup, List.find?_cons,
        decide_eq_false (lt_of_lt_of_le less notBefore).ne]
    · rw [if_neg less]

theorem lookup_eq_head (sorted : Sorted key entries) :
    lookup key entries target =
      (SortedEntries.fromBound key entries target).head?.filter
        fun entry => decide (key entry = target) := by
  rw [← lookup_fromBound (le_refl target)]
  have bounded : ∀ entry ∈ SortedEntries.fromBound key entries target, target ≤ key entry :=
    fun _ => le_of_mem_fromBound sorted
  have restSorted := sorted.fromBound target
  cases from_ : SortedEntries.fromBound key entries target with
  | nil => rfl
  | cons first rest =>
    rw [from_] at restSorted bounded
    rw [lookup, List.find?_cons, List.head?_cons, Option.filter_some]
    by_cases here : key first = target
    · rw [decide_eq_true here, if_pos rfl]
    · have above : target < key first :=
        lt_of_le_of_ne (bounded first List.mem_cons_self) (Ne.symm here)
      rw [decide_eq_false here]
      refine List.find?_eq_none.mpr fun entry mem => ?_
      have later := (List.pairwise_cons.mp restSorted).1 entry mem
      simpa using (above.trans later).ne'

/-- At the lower bound of a key is its entry, if it has one. -/
theorem fromBound_eq (sorted : Sorted key entries) :
    SortedEntries.fromBound key entries target =
      (lookup key entries target).toList ++ after key entries target := by
  rw [lookup_eq_head sorted, after]
  cases SortedEntries.fromBound key entries target with
  | nil => rfl
  | cons first rest =>
    by_cases here : key first = target <;> simp [here, Option.filter_some]

theorem after_sublist (entries : List α) (target : κ) :
    (after key entries target).Sublist entries := by
  refine List.Sublist.trans ?_ (List.dropWhile_sublist fun entry => decide (key entry < target))
  rw [after, SortedEntries.fromBound]
  split
  · exact List.nil_sublist _
  · rename_i first rest from_
    rw [from_]
    split
    · exact List.sublist_cons_self first rest
    · exact List.Sublist.refl _

theorem Sorted.after (sorted : Sorted key entries) (target : κ) :
    Sorted key (SortedEntries.after key entries target) :=
  sorted.sublist (after_sublist entries target)

theorem lt_of_mem_after (sorted : Sorted key entries)
    (mem : entry ∈ SortedEntries.after key entries target) : target < key entry := by
  have restSorted := sorted.fromBound target
  have bounded : ∀ entry ∈ SortedEntries.fromBound key entries target, target ≤ key entry :=
    fun _ => le_of_mem_fromBound sorted
  rw [SortedEntries.after] at mem
  split at mem
  · exact absurd mem List.not_mem_nil
  · rename_i first rest from_
    rw [from_] at restSorted bounded
    obtain ⟨above, -⟩ := List.pairwise_cons.mp restSorted
    have start := bounded first List.mem_cons_self
    split at mem
    · exact lt_of_le_of_lt start (above entry mem)
    · rename_i other
      rcases List.mem_cons.mp mem with rfl | inRest
      · exact lt_of_le_of_ne start (Ne.symm other)
      · exact lt_of_le_of_lt start (above entry inRest)

theorem eq_below_after (sorted : Sorted key entries) (target : κ) :
    entries = below key entries target ++
      ((lookup key entries target).toList ++ SortedEntries.after key entries target) := by
  rw [← fromBound_eq sorted, below_append_fromBound]

theorem lookup_after (sorted : Sorted key entries) {later : κ} (less : target < later) :
    lookup key (SortedEntries.after key entries target) later = lookup key entries later := by
  have bounded : lookup key (SortedEntries.fromBound key entries target) later = _ :=
    lookup_fromBound less.le
  rw [← bounded, fromBound_eq sorted]
  cases found : lookup key entries target with
  | none => rfl
  | some first =>
    obtain ⟨-, here⟩ := (lookup_eq_some_iff sorted).mp found
    have other : key first ≠ later := by
      rw [here]
      exact less.ne
    rw [Option.toList_some, List.singleton_append, lookup_cons, if_neg other]

/-- What `alter` puts in place of the entries from the lower bound on. -/
theorem alter_eq (sorted : Sorted key entries) (change : Option α → Option α) :
    alter key entries target change =
      below key entries target ++ ((change (lookup key entries target)).toList ++
        SortedEntries.after key entries target) := by
  rw [alter, lookup_eq_head sorted, SortedEntries.after]
  cases SortedEntries.fromBound key entries target with
  | nil => simp
  | cons first rest =>
    by_cases here : key first = target <;> simp [here, Option.filter_some]

theorem Sorted.alter (sorted : Sorted key entries) {change : Option α → Option α}
    (sameKey : ∀ entry, change (lookup key entries target) = some entry → key entry = target) :
    Sorted key (SortedEntries.alter key entries target change) := by
  rw [alter_eq sorted]
  refine List.pairwise_append.mpr ⟨sorted.sublist (List.takeWhile_sublist _),
    List.pairwise_append.mpr ⟨?_, sorted.after target, ?_⟩, ?_⟩
  · cases change (lookup key entries target) <;> simp
  · intro first inChange second mem
    rw [sameKey first (Option.mem_toList.mp inChange)]
    exact lt_of_mem_after sorted mem
  · intro first inFront second mem
    have less := lt_of_mem_below inFront
    rcases List.mem_append.mp mem with inChange | mem
    · rw [sameKey second (Option.mem_toList.mp inChange)]
      exact less
    · exact less.trans (lt_of_mem_after sorted mem)

/-- The entries afterwards: those of other keys, and the new one. -/
theorem mem_alter_iff (sorted : Sorted key entries) {change : Option α → Option α} :
    entry ∈ SortedEntries.alter key entries target change ↔
      (entry ∈ entries ∧ key entry ≠ target) ∨
        change (lookup key entries target) = some entry := by
  have front : entry ∈ below key entries target → key entry ≠ target :=
    fun mem => (lt_of_mem_below mem).ne
  have back : entry ∈ SortedEntries.after key entries target → key entry ≠ target :=
    fun mem => (lt_of_mem_after sorted mem).ne'
  have middle : lookup key entries target = some entry → key entry = target :=
    fun found => ((lookup_eq_some_iff sorted).mp found).2
  have split : entry ∈ entries ↔ entry ∈ below key entries target ∨
      lookup key entries target = some entry ∨
        entry ∈ SortedEntries.after key entries target := by
    conv_lhs => rw [eq_below_after sorted target]
    rw [List.mem_append, List.mem_append, Option.mem_toList]
  rw [alter_eq sorted, List.mem_append, List.mem_append, Option.mem_toList, split]
  tauto

end SortedEntries
