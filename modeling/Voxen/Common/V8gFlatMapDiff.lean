import Voxen.Common.V8gFlatMap

/-!
# Visiting the differences of two flat maps

`visitDiff` walks the items of two versions of a map with one cursor each. What a visitor
answers to a call may depend on all calls that it got.
-/

namespace Voxen.Common.V8gFlatMap

open SortedEntries (Sorted below fromBound after lookup)

variable {Key Value : Type} [LinearOrder Key]

/-- A call of the visitor: the key, the new and the old value; null is `none`. -/
structure Call (Key Value : Type) where
  key : Key
  newValue : Option Value
  oldValue : Option Value
  deriving DecidableEq

/-- The visitor's answer to the last of the calls that it got: whether to proceed. -/
abbrev Visitor (Key Value : Type) : Type := List (Call Key Value) → Bool

/-! ## The two cursors -/

/-- The inner loop: old items in front of `key` were removed. The rest of the old items and
the calls made until now; whether to proceed. -/
def visitRemoved (visitor : Visitor Key Value) (key : Key) :
    List (Item Key Value) → List (Call Key Value) →
      (List (Item Key Value) × List (Call Key Value)) × Bool
  | [], calls => (([], calls), true)
  | oldItem :: oldItems, calls =>
    if oldItem.key < key then
      let calls := calls ++ [⟨oldItem.key, none, some oldItem.value⟩]
      if visitor calls then visitRemoved visitor key oldItems calls
      else ((oldItem :: oldItems, calls), false)
    else ((oldItem :: oldItems, calls), true)

/-- The loop of `visitDiff` over the items of this map. -/
def visitItems (visitor : Visitor Key Value) :
    List (Item Key Value) → List (Item Key Value) → List (Call Key Value) →
      List (Call Key Value) × Bool
  | [], _, calls => (calls, true)
  | item :: items, oldItems, calls =>
    match visitRemoved visitor item.key oldItems calls with
    | ((_, calls), false) => (calls, false)
    | (([], calls), true) =>
      let calls := calls ++ [⟨item.key, some item.value, none⟩]
      if visitor calls then visitItems visitor items [] calls else (calls, false)
    | ((oldItem :: oldItems, calls), true) =>
      if oldItem.key = item.key then
        if oldItem.version ≠ item.version then
          let calls := calls ++ [⟨item.key, some item.value, some oldItem.value⟩]
          if visitor calls then visitItems visitor items oldItems calls else (calls, false)
        else visitItems visitor items oldItems calls
      else
        let calls := calls ++ [⟨item.key, some item.value, none⟩]
        if visitor calls then visitItems visitor items (oldItem :: oldItems) calls
        else (calls, false)

/-- `visitDiff(old, visitor)`: the calls that are made. -/
def visitDiff (map : V8gFlatMap Key Value) (old : Option (V8gFlatMap Key Value))
    (visitor : Visitor Key Value) : List (Call Key Value) :=
  (visitItems visitor map.items (itemsOf old) []).1

/-! ## The differences -/

/-- The key is in one of the maps only, or in both with different versions. -/
def Differs (new old : List (Item Key Value)) (key : Key) : Prop :=
  (lookup Item.key new key).map Item.version ≠ (lookup Item.key old key).map Item.version

instance (new old : List (Item Key Value)) (key : Key) : Decidable (Differs new old key) :=
  inferInstanceAs (Decidable (_ ≠ _))

/-- The call for a key: the values that the two maps have for it. -/
def callAt (new old : List (Item Key Value)) (key : Key) : Call Key Value where
  key := key
  newValue := (lookup Item.key new key).map Item.value
  oldValue := (lookup Item.key old key).map Item.value

/-- One call for every key that differs, in increasing order, and no other. -/
structure ExactDiff (new old : List (Item Key Value)) (calls : List (Call Key Value)) : Prop where
  sorted : Sorted Call.key calls
  mem_iff : ∀ call, call ∈ calls ↔ Differs new old call.key ∧ call = callAt new old call.key

/-- The visitor is called until it returns false. -/
def visitAll (visitor : Visitor Key Value) :
    List (Call Key Value) → List (Call Key Value) → List (Call Key Value) × Bool
  | [], calls => (calls, true)
  | call :: rest, calls =>
    if visitor (calls ++ [call]) then visitAll visitor rest (calls ++ [call])
    else (calls ++ [call], false)

omit [LinearOrder Key] in
theorem visitAll_append (visitor : Visitor Key Value) (first second calls : List (Call Key Value)) :
    visitAll visitor (first ++ second) calls =
      match visitAll visitor first calls with
      | (calls, true) => visitAll visitor second calls
      | (calls, false) => (calls, false) := by
  induction first generalizing calls with
  | nil => rfl
  | cons call first ih =>
    rw [List.cons_append, visitAll, visitAll]
    split
    · exact ih _
    · rfl

omit [LinearOrder Key] in
theorem prefix_visitAll (visitor : Visitor Key Value) (todo calls : List (Call Key Value)) :
    calls <+: (visitAll visitor todo calls).1 := by
  induction todo generalizing calls with
  | nil => exact List.prefix_refl calls
  | cons call todo ih =>
    have extended : calls <+: calls ++ [call] := List.prefix_append calls [call]
    rw [visitAll]
    split
    · exact extended.trans (ih _)
    · exact extended

omit [LinearOrder Key] in
theorem visitAll_cons_ne (visitor : Visitor Key Value) (call : Call Key Value)
    (todo calls : List (Call Key Value)) : (visitAll visitor (call :: todo) calls).1 ≠ calls := by
  intro same
  have made : calls ++ [call] <+: (visitAll visitor (call :: todo) calls).1 := by
    rw [visitAll]
    split
    · exact prefix_visitAll visitor todo _
    · exact List.prefix_refl _
  have shorter := made.length_le
  rw [same, List.length_append, List.length_singleton] at shorter
  omega

/-! ## What the loop calls -/

/-- The call for an item that was removed. -/
def removedCall (oldItem : Item Key Value) : Call Key Value :=
  ⟨oldItem.key, none, some oldItem.value⟩

/-- The calls of the loop with a visitor that never stops. -/
def loopCalls : List (Item Key Value) → List (Item Key Value) → List (Call Key Value)
  | [], _ => []
  | item :: items, oldItems =>
    (below Item.key oldItems item.key).map removedCall ++
      match fromBound Item.key oldItems item.key with
      | [] => ⟨item.key, some item.value, none⟩ :: loopCalls items []
      | oldItem :: oldItems =>
        if oldItem.key = item.key then
          if oldItem.version ≠ item.version then
            ⟨item.key, some item.value, some oldItem.value⟩ :: loopCalls items oldItems
          else loopCalls items oldItems
        else ⟨item.key, some item.value, none⟩ :: loopCalls items (oldItem :: oldItems)

theorem visitRemoved_eq (visitor : Visitor Key Value) (key : Key)
    (oldItems : List (Item Key Value)) (calls : List (Call Key Value)) :
    ∃ rest, visitRemoved visitor key oldItems calls =
      match visitAll visitor ((below Item.key oldItems key).map removedCall) calls with
      | (calls, true) => ((fromBound Item.key oldItems key, calls), true)
      | (calls, false) => ((rest, calls), false) := by
  induction oldItems generalizing calls with
  | nil => exact ⟨[], rfl⟩
  | cons oldItem oldItems ih =>
    rw [visitRemoved, SortedEntries.fromBound_cons, SortedEntries.below_cons]
    by_cases less : oldItem.key < key
    · obtain ⟨rest, removed⟩ := ih (calls ++ [removedCall oldItem])
      rw [if_pos less, if_pos less, if_pos less, List.map_cons, visitAll]
      by_cases proceeds : visitor (calls ++ [removedCall oldItem])
      · refine ⟨rest, ?_⟩
        rw [if_pos proceeds]
        exact (if_pos proceeds).trans removed
      · refine ⟨oldItem :: oldItems, ?_⟩
        rw [if_neg proceeds]
        exact if_neg proceeds
    · refine ⟨[], ?_⟩
      rw [if_neg less, if_neg less, if_neg less]
      rfl

theorem visitItems_eq (visitor : Visitor Key Value) (items oldItems : List (Item Key Value))
    (calls : List (Call Key Value)) :
    visitItems visitor items oldItems calls =
      visitAll visitor (loopCalls items oldItems) calls := by
  induction items generalizing oldItems calls with
  | nil => rfl
  | cons item items ih =>
    obtain ⟨rest, removed⟩ := visitRemoved_eq visitor item.key oldItems calls
    rw [visitItems, removed, loopCalls, visitAll_append]
    rcases visitAll visitor ((below Item.key oldItems item.key).map removedCall) calls with
      ⟨calls, _ | _⟩
    · rfl
    · cases fromBound Item.key oldItems item.key with
      | nil => simp only [visitAll, ih]
      | cons oldItem oldItems =>
        by_cases sameKey : oldItem.key = item.key
        · by_cases changed : oldItem.version ≠ item.version
          · simp only [sameKey, changed, if_true, visitAll, ih, ne_eq, not_false_eq_true]
          · simp only [sameKey, changed, if_true, if_false, ih]
        · simp only [sameKey, if_false, visitAll, ih]

/-! ## They are the differences -/

/-- The calls for one item of this map, given the old item of its key. -/
def itemCalls (item : Item Key Value) : Option (Item Key Value) → List (Call Key Value)
  | none => [⟨item.key, some item.value, none⟩]
  | some oldItem =>
    if oldItem.version ≠ item.version then [⟨item.key, some item.value, some oldItem.value⟩]
    else []

theorem loopCalls_cons (item : Item Key Value) (items : List (Item Key Value))
    {oldItems : List (Item Key Value)} (sorted : Sorted Item.key oldItems) :
    loopCalls (item :: items) oldItems =
      (below Item.key oldItems item.key).map removedCall ++
        (itemCalls item (lookup Item.key oldItems item.key) ++
          loopCalls items (after Item.key oldItems item.key)) := by
  rw [loopCalls, after, SortedEntries.lookup_eq_head sorted]
  congr 1
  cases fromBound Item.key oldItems item.key with
  | nil => rfl
  | cons oldItem oldItems =>
    by_cases sameKey : oldItem.key = item.key
    · by_cases changed : oldItem.version ≠ item.version <;>
        simp [sameKey, changed, itemCalls, Option.filter_some]
    · simp [sameKey, itemCalls, Option.filter_some]

variable {items oldItems : List (Item Key Value)}

theorem exists_item_of_differs {key : Key} (differs : Differs items oldItems key) :
    (∃ item ∈ items, item.key = key) ∨ ∃ item ∈ oldItems, item.key = key := by
  by_contra nowhere
  obtain ⟨notNew, notOld⟩ := not_or.mp nowhere
  refine differs ?_
  rw [SortedEntries.lookup_eq_none_iff.mpr fun item mem same => notNew ⟨item, mem, same⟩,
    SortedEntries.lookup_eq_none_iff.mpr fun item mem same => notOld ⟨item, mem, same⟩]

theorem lt_of_differs {target key : Key} (above : ∀ item ∈ items, target < item.key)
    (oldAbove : ∀ item ∈ oldItems, target < item.key) (differs : Differs items oldItems key) :
    target < key := by
  rcases exists_item_of_differs differs with ⟨item, mem, rfl⟩ | ⟨item, mem, rfl⟩
  · exact above item mem
  · exact oldAbove item mem

variable {call : Call Key Value}

theorem lt_of_mem_removedCalls {target : Key}
    (mem : call ∈ (below Item.key oldItems target).map removedCall) : call.key < target := by
  obtain ⟨oldItem, inFront, rfl⟩ := List.mem_map.mp mem
  have less : oldItem.key < target := SortedEntries.lt_of_mem_below inFront
  exact less

omit [LinearOrder Key] in
theorem key_of_mem_itemCalls {item : Item Key Value} {oldItem : Option (Item Key Value)}
    (mem : call ∈ itemCalls item oldItem) : call.key = item.key := by
  unfold itemCalls at mem
  split at mem
  · rw [List.mem_singleton.mp mem]
  · split at mem
    · rw [List.mem_singleton.mp mem]
    · exact absurd mem List.not_mem_nil

theorem mem_itemCalls_iff {item : Item Key Value} :
    call ∈ itemCalls item (lookup Item.key oldItems item.key) ↔
      Differs (item :: items) oldItems item.key ∧
        call = callAt (item :: items) oldItems item.key := by
  rw [Differs, callAt, SortedEntries.lookup_cons, if_pos rfl]
  cases lookup Item.key oldItems item.key with
  | none => simp [itemCalls]
  | some oldItem =>
    by_cases same : item.version = oldItem.version
    · simp [itemCalls, same]
    · simp [itemCalls, same, Ne.symm same]

/-- Calls for removed items are the differences at keys that the new items do not have. -/
theorem mem_removedCalls_iff {removedItems : List (Item Key Value)}
    (oldSorted : Sorted Item.key oldItems)
    (here : ∀ oldItem, oldItem.key = call.key → (oldItem ∈ removedItems ↔ oldItem ∈ oldItems))
    (absent : lookup Item.key items call.key = none) :
    call ∈ removedItems.map removedCall ↔
      Differs items oldItems call.key ∧ call = callAt items oldItems call.key := by
  rw [List.mem_map, Differs, callAt, absent]
  constructor
  · rintro ⟨oldItem, mem, rfl⟩
    have found := (SortedEntries.lookup_eq_some_iff oldSorted).mpr ⟨(here oldItem rfl).mp mem, rfl⟩
    simp [removedCall, found]
  · rintro ⟨differs, made⟩
    cases found : lookup Item.key oldItems call.key with
    | none => exact absurd (by rw [found]) differs
    | some oldItem =>
      obtain ⟨mem, same⟩ := (SortedEntries.lookup_eq_some_iff oldSorted).mp found
      refine ⟨oldItem, (here oldItem same).mpr mem, ?_⟩
      rw [made, found, removedCall, same]
      rfl

/-- The loop calls for the differing keys that are not greater than all new ones. -/
theorem mem_loopCalls_iff (sorted : Sorted Item.key items) (oldSorted : Sorted Item.key oldItems)
    (call : Call Key Value) :
    call ∈ loopCalls items oldItems ↔ (∃ item ∈ items, call.key ≤ item.key) ∧
      Differs items oldItems call.key ∧ call = callAt items oldItems call.key := by
  induction items generalizing oldItems with
  | nil => simp [loopCalls]
  | cons item items ih =>
    obtain ⟨above, restSorted⟩ := List.pairwise_cons.mp sorted
    have later := ih restSorted (oldSorted.after item.key)
    have afterItem : call ∈ loopCalls items (after Item.key oldItems item.key) →
        item.key < call.key := by
      intro mem
      obtain ⟨-, differs, -⟩ := later.mp mem
      exact lt_of_differs above (fun _ => SortedEntries.lt_of_mem_after oldSorted) differs
    have beforeItem : call ∈ (below Item.key oldItems item.key).map removedCall →
        call.key < item.key := lt_of_mem_removedCalls
    have atItem : call ∈ itemCalls item (lookup Item.key oldItems item.key) →
        call.key = item.key := key_of_mem_itemCalls
    rw [loopCalls_cons item items oldSorted, List.mem_append, List.mem_append]
    rcases lt_trichotomy call.key item.key with less | same | greater
    · have absent : lookup Item.key (item :: items) call.key = none := by
        refine SortedEntries.lookup_eq_none_iff.mpr fun other mem equal => ?_
        rcases List.mem_cons.mp mem with rfl | inRest
        · exact less.ne' equal
        · exact (less.trans (above other inRest)).ne' equal
      have inFront : ∀ oldItem, oldItem.key = call.key →
          (oldItem ∈ below Item.key oldItems item.key ↔ oldItem ∈ oldItems) := by
        intro oldItem same
        rw [SortedEntries.mem_below_iff oldSorted]
        exact and_iff_left (same ▸ less)
      rw [← mem_removedCalls_iff oldSorted inFront absent,
        and_iff_right ⟨item, List.mem_cons_self, less.le⟩]
      refine or_iff_left ?_
      rintro (here | behind)
      · exact less.ne (atItem here)
      · exact less.not_gt (afterItem behind)
    · rw [and_iff_right ⟨item, List.mem_cons_self, same.le⟩, same, ← mem_itemCalls_iff]
      constructor
      · rintro (inFront | here | behind)
        · exact absurd same (beforeItem inFront).ne
        · exact here
        · exact absurd same (afterItem behind).ne'
      · exact fun here => Or.inr (Or.inl here)
    · have absentHere : lookup Item.key (item :: items) call.key = lookup Item.key items call.key :=
        (SortedEntries.lookup_cons item items call.key).trans (if_neg greater.ne)
      have sameOld := SortedEntries.lookup_after oldSorted greater
      have reaches : (∃ other ∈ item :: items, call.key ≤ other.key) ↔
          ∃ other ∈ items, call.key ≤ other.key := by
        rw [List.exists_mem_cons_iff]
        exact or_iff_right greater.not_ge
      have tail : call ∈ loopCalls items (after Item.key oldItems item.key) ↔
          (∃ other ∈ item :: items, call.key ≤ other.key) ∧
            Differs (item :: items) oldItems call.key ∧
              call = callAt (item :: items) oldItems call.key := by
        rw [later, reaches, Differs, Differs, callAt, callAt, absentHere, sameOld]
      rw [← tail]
      constructor
      · rintro (inFront | here | behind)
        · exact absurd (beforeItem inFront) greater.not_gt
        · exact absurd (atItem here) greater.ne'
        · exact behind
      · exact fun behind => Or.inr (Or.inr behind)

theorem loopCalls_sorted (sorted : Sorted Item.key items)
    (oldSorted : Sorted Item.key oldItems) : Sorted Call.key (loopCalls items oldItems) := by
  induction items generalizing oldItems with
  | nil => exact List.Pairwise.nil
  | cons item items ih =>
    obtain ⟨above, restSorted⟩ := List.pairwise_cons.mp sorted
    have afterSorted := oldSorted.after item.key
    have afterItem : ∀ call ∈ loopCalls items (after Item.key oldItems item.key),
        item.key < call.key := by
      intro call mem
      obtain ⟨-, differs, -⟩ := (mem_loopCalls_iff restSorted afterSorted call).mp mem
      exact lt_of_differs above (fun _ => SortedEntries.lt_of_mem_after oldSorted) differs
    have removedSorted : Sorted Call.key ((below Item.key oldItems item.key).map removedCall) :=
      List.pairwise_map.mpr (oldSorted.sublist (List.takeWhile_sublist _))
    have itemSorted :
        Sorted Call.key (itemCalls item (lookup Item.key oldItems item.key)) := by
      unfold itemCalls
      split
      · exact List.pairwise_singleton _ _
      · split
        · exact List.pairwise_singleton _ _
        · exact List.Pairwise.nil
    rw [loopCalls_cons item items oldSorted]
    refine List.pairwise_append.mpr ⟨removedSorted,
      List.pairwise_append.mpr ⟨itemSorted, ih restSorted afterSorted, ?_⟩, ?_⟩
    · intro first here second behind
      rw [key_of_mem_itemCalls here]
      exact afterItem second behind
    · intro first inFront second mem
      have less := lt_of_mem_removedCalls inFront
      rcases List.mem_append.mp mem with here | behind
      · rw [key_of_mem_itemCalls here]
        exact less
      · exact less.trans (afterItem second behind)

/-- The old items that are greater than every new one. -/
def beyond (items oldItems : List (Item Key Value)) : List (Item Key Value) :=
  oldItems.filter fun oldItem => decide (∀ item ∈ items, item.key < oldItem.key)

theorem mem_beyond_iff {oldItem : Item Key Value} :
    oldItem ∈ beyond items oldItems ↔
      oldItem ∈ oldItems ∧ ∀ item ∈ items, item.key < oldItem.key := by
  rw [beyond, List.mem_filter, decide_eq_true_iff]

/-- The differences are those that the loop calls for, and the removed items beyond it. -/
theorem exactDiff_append (sorted : Sorted Item.key items)
    (oldSorted : Sorted Item.key oldItems) :
    ExactDiff items oldItems
      (loopCalls items oldItems ++ (beyond items oldItems).map removedCall) where
  sorted := by
    refine List.pairwise_append.mpr ⟨loopCalls_sorted sorted oldSorted,
      List.pairwise_map.mpr (oldSorted.sublist List.filter_sublist), ?_⟩
    intro call inLoop other mem
    obtain ⟨⟨item, inItems, reaches⟩, -⟩ := (mem_loopCalls_iff sorted oldSorted call).mp inLoop
    obtain ⟨oldItem, outside, rfl⟩ := List.mem_map.mp mem
    exact lt_of_le_of_lt reaches ((mem_beyond_iff.mp outside).2 item inItems)
  mem_iff call := by
    rw [List.mem_append, mem_loopCalls_iff sorted oldSorted]
    by_cases reaches : ∃ item ∈ items, call.key ≤ item.key
    · rw [and_iff_right reaches]
      refine or_iff_left fun mem => ?_
      obtain ⟨item, inItems, notLess⟩ := reaches
      obtain ⟨oldItem, outside, rfl⟩ := List.mem_map.mp mem
      exact notLess.not_gt ((mem_beyond_iff.mp outside).2 item inItems)
    · have above : ∀ item ∈ items, item.key < call.key :=
        fun item mem => not_le.mp fun notLess => reaches ⟨item, mem, notLess⟩
      have absent : lookup Item.key items call.key = none :=
        SortedEntries.lookup_eq_none_iff.mpr fun item mem => (above item mem).ne
      have outside : ∀ oldItem, oldItem.key = call.key →
          (oldItem ∈ beyond items oldItems ↔ oldItem ∈ oldItems) := by
        intro oldItem same
        rw [mem_beyond_iff]
        exact and_iff_left (same ▸ above)
      rw [← mem_removedCalls_iff oldSorted outside absent]
      exact or_iff_right fun inLoop => reaches inLoop.1

/-- The differences that are not beyond the new items are those of the loop. -/
theorem filter_append_eq (sorted : Sorted Item.key items)
    (oldSorted : Sorted Item.key oldItems) :
    ((loopCalls items oldItems ++ (beyond items oldItems).map removedCall).filter fun call =>
      decide (∃ item ∈ items, call.key ≤ item.key)) = loopCalls items oldItems := by
  have kept : (loopCalls items oldItems).filter
      (fun call => decide (∃ item ∈ items, call.key ≤ item.key)) = loopCalls items oldItems :=
    List.filter_eq_self.mpr fun call mem =>
      decide_eq_true ((mem_loopCalls_iff sorted oldSorted call).mp mem).1
  have dropped : ((beyond items oldItems).map removedCall).filter
      (fun call => decide (∃ item ∈ items, call.key ≤ item.key)) = [] := by
    refine List.filter_eq_nil_iff.mpr fun call mem => ?_
    obtain ⟨oldItem, outside, rfl⟩ := List.mem_map.mp mem
    rw [decide_eq_true_iff]
    rintro ⟨item, inItems, reaches⟩
    exact reaches.not_gt ((mem_beyond_iff.mp outside).2 item inItems)
  rw [List.filter_append, kept, dropped, List.append_nil]

/-- The visitor gets the differences, up to the first that it answers with false, exactly if
no old key is greater than every new one, or if it stops at a difference before such keys. -/
theorem visitDiff_exact_iff (map : V8gFlatMap Key Value) (old : Option (V8gFlatMap Key Value))
    (visitor : Visitor Key Value) :
    ∃ calls, ExactDiff map.items (itemsOf old) calls ∧
      (visitDiff map old visitor = (visitAll visitor calls []).1 ↔
        (∀ oldItem ∈ itemsOf old, ∃ item ∈ map.items, oldItem.key ≤ item.key) ∨
          (visitAll visitor (calls.filter fun call =>
            decide (∃ item ∈ map.items, call.key ≤ item.key)) []).2 = false) := by
  have oldSorted := itemsOf_sorted old
  refine ⟨_, exactDiff_append map.sorted oldSorted, ?_⟩
  have noneBeyond : (∀ oldItem ∈ itemsOf old, ∃ item ∈ map.items, oldItem.key ≤ item.key) ↔
      beyond map.items (itemsOf old) = [] := by
    rw [List.eq_nil_iff_forall_not_mem]
    refine forall_congr' fun oldItem => ?_
    rw [mem_beyond_iff, not_and]
    refine imp_congr_right fun _ => ?_
    push Not
    exact Iff.rfl
  rw [filter_append_eq map.sorted oldSorted, noneBeyond, visitDiff, visitItems_eq, visitAll_append]
  cases walked : visitAll visitor (loopCalls map.items (itemsOf old)) [] with
  | mk calls proceeds =>
    cases proceeds with
    | false => simp
    | true =>
      simp only [Bool.true_eq_false, or_false]
      cases beyond map.items (itemsOf old) with
      | nil => simp [visitAll]
      | cons oldItem rest =>
        refine iff_of_false (fun same => ?_) (List.cons_ne_nil _ _)
        exact visitAll_cons_ne visitor (removedCall oldItem) (rest.map removedCall) calls same.symm

/-- A map with one key that was copied, lost the key and was copied again. -/
def emptied : V8gFlatMap Nat Nat × V8gFlatMap Nat Nat :=
  let construct := fun (value : Nat) (_ : Option Nat) => value
  let origin : V8gFlatMap Nat Nat := V8gFlatMap.insert {} 1 7 100
  let old := ofMutable construct origin none
  (ofMutable construct (origin.erase 7) (some old), old)

/-- The removed key is not visited. -/
theorem emptied_notVisited :
    ¬∃ calls, ExactDiff emptied.1.items emptied.2.items calls ∧
      visitDiff emptied.1 (some emptied.2) (fun _ => true) =
        (visitAll (fun _ => true) calls []).1 := by
  rintro ⟨calls, exact, visited⟩
  have removed : (⟨7, none, some 100⟩ : Call Nat Nat) ∈ calls :=
    (exact.mem_iff _).mpr ⟨by decide +kernel, by decide +kernel⟩
  have nothing : visitDiff emptied.1 (some emptied.2) (fun _ => true) = [] := by decide +kernel
  rw [nothing] at visited
  cases calls with
  | nil => exact absurd removed List.not_mem_nil
  | cons call rest => exact visitAll_cons_ne _ call rest [] visited.symm

end Voxen.Common.V8gFlatMap
