import Voxen.Lib.Runs
import Voxen.Lib.SortedEntries

/-!
# The flat versioned map

Items in the order of their keys, each with the timeline of its last change. A mutable map is
changed in place; an immutable one is copied from it and takes the values of unchanged items
from an older copy.
-/

namespace Voxen.Common

open SortedEntries (Sorted fromBound lookup alter)

namespace V8gFlatMap

/-- `V8gMapItem`. A value stands for the pointer to it, which is never null here. -/
structure Item (Key Value : Type) where
  version : BitVec 64
  key : Key
  value : Value
  deriving DecidableEq

end V8gFlatMap

/-- The container: its items are sorted by their keys. -/
structure V8gFlatMap (Key Value : Type) [LinearOrder Key] where
  items : List (V8gFlatMap.Item Key Value) := []
  sorted : Sorted V8gFlatMap.Item.key items := by exact List.Pairwise.nil

namespace V8gFlatMap

variable {Key Value MutValue : Type} [LinearOrder Key]

/-! ## The mutable map -/

/-- `insert(timeline, key, value)`, of a pointer or of a value. -/
def insert (map : V8gFlatMap Key Value) (timeline : BitVec 64) (key : Key) (value : Value) :
    V8gFlatMap Key Value where
  items := alter Item.key map.items key fun _ => some ⟨timeline, key, value⟩
  sorted := by
    refine map.sorted.alter ?_
    rintro entry ⟨⟩
    rfl

/-- `erase(key)`. -/
def erase (map : V8gFlatMap Key Value) (key : Key) : V8gFlatMap Key Value where
  items := alter Item.key map.items key fun _ => none
  sorted := map.sorted.alter fun _ none => nomatch none

/-- `erase(iter)`, the iterator being a position. -/
def eraseAt (map : V8gFlatMap Key Value) (iter : Nat) : V8gFlatMap Key Value where
  items := map.items.eraseIdx iter
  sorted := map.sorted.sublist (List.eraseIdx_sublist _ _)

/-- `find(timeline, key)`, and what the caller then does with the value. -/
def mutate (map : V8gFlatMap Key Value) (timeline : BitVec 64) (key : Key)
    (change : Value → Value) : V8gFlatMap Key Value where
  items := alter Item.key map.items key fun found =>
    found.map fun iter => { iter with version := timeline, value := change iter.value }
  sorted := by
    refine map.sorted.alter fun entry changed => ?_
    obtain ⟨iter, found, rfl⟩ := Option.map_eq_some_iff.mp changed
    exact ((SortedEntries.lookup_eq_some_iff map.sorted).mp found).2

/-- `find(key)`. -/
def find (map : V8gFlatMap Key Value) (key : Key) : Option (Item Key Value) :=
  match fromBound Item.key map.items key with
  | [] => none
  | iter :: _ => if iter.key = key then some iter else none

theorem find_eq_lookup (map : V8gFlatMap Key Value) (key : Key) :
    map.find key = lookup Item.key map.items key := by
  rw [SortedEntries.lookup_eq_head map.sorted, find]
  cases fromBound Item.key map.items key with
  | nil => rfl
  | cons iter rest => simp [Option.filter_some]

variable {item : Item Key Value} {key : Key} {map : V8gFlatMap Key Value}

theorem mem_insert_iff {timeline : BitVec 64} {value : Value} :
    item ∈ (map.insert timeline key value).items ↔
      (item ∈ map.items ∧ item.key ≠ key) ∨ item = ⟨timeline, key, value⟩ := by
  have altered : item ∈ alter Item.key map.items key (fun _ => some ⟨timeline, key, value⟩) ↔ _ :=
    SortedEntries.mem_alter_iff map.sorted
  exact altered.trans (or_congr_right (by rw [Option.some_inj, eq_comm]))

theorem mem_erase_iff :
    item ∈ (map.erase key).items ↔ item ∈ map.items ∧ item.key ≠ key := by
  have altered : item ∈ alter Item.key map.items key (fun _ => none) ↔ _ :=
    SortedEntries.mem_alter_iff map.sorted
  exact altered.trans (or_iff_left nofun)

theorem mem_mutate_iff {timeline : BitVec 64} {change : Value → Value} :
    item ∈ (map.mutate timeline key change).items ↔
      (item ∈ map.items ∧ item.key ≠ key) ∨
        ∃ iter ∈ map.items, iter.key = key ∧ item = ⟨timeline, key, change iter.value⟩ := by
  refine (SortedEntries.mem_alter_iff map.sorted).trans (or_congr_right ?_)
  rw [Option.map_eq_some_iff]
  constructor
  · rintro ⟨iter, found, rfl⟩
    obtain ⟨mem, rfl⟩ := (SortedEntries.lookup_eq_some_iff map.sorted).mp found
    exact ⟨iter, mem, rfl, rfl⟩
  · rintro ⟨iter, mem, rfl, rfl⟩
    exact ⟨iter, (SortedEntries.lookup_eq_some_iff map.sorted).mpr ⟨mem, rfl⟩, rfl⟩

/-! ## Immutable copies -/

/-- The loop of the copy constructor over the mutable items, with the rest of the old ones
ahead of the cursor. `construct` is the constructor of the immutable value from the mutable
one and the address of an old one, which may be null. -/
def copyItems (construct : MutValue → Option Value → Value) :
    List (Item Key MutValue) → List (Item Key Value) → List (Item Key Value)
  | [], _ => []
  | mutItem :: mutItems, oldItems =>
    let oldItems := fromBound Item.key oldItems mutItem.key
    let newValue :=
      match oldItems with
      | [] => construct mutItem.value none
      | oldItem :: _ =>
        if oldItem.key = mutItem.key then
          if oldItem.version = mutItem.version then oldItem.value
          else construct mutItem.value (some oldItem.value)
        else construct mutItem.value none
    ⟨mutItem.version, mutItem.key, newValue⟩ :: copyItems construct mutItems oldItems

/-- The items of `old`, which may be null. -/
def itemsOf : Option (V8gFlatMap Key Value) → List (Item Key Value)
  | none => []
  | some old => old.items

theorem itemsOf_sorted (old : Option (V8gFlatMap Key Value)) : Sorted Item.key (itemsOf old) := by
  cases old with
  | none => exact List.Pairwise.nil
  | some old => exact old.sorted

/-- The value that an item is copied to, given the old item of its key. -/
def copiedValue (construct : MutValue → Option Value → Value) (mutItem : Item Key MutValue) :
    Option (Item Key Value) → Value
  | none => construct mutItem.value none
  | some oldItem =>
    if oldItem.version = mutItem.version then oldItem.value
    else construct mutItem.value (some oldItem.value)

theorem copyItems_eq (construct : MutValue → Option Value → Value)
    {mutItems : List (Item Key MutValue)} {oldItems : List (Item Key Value)}
    (mutSorted : Sorted Item.key mutItems) (oldSorted : Sorted Item.key oldItems) :
    copyItems construct mutItems oldItems = mutItems.map fun mutItem =>
      ⟨mutItem.version, mutItem.key,
        copiedValue construct mutItem (lookup Item.key oldItems mutItem.key)⟩ := by
  induction mutItems generalizing oldItems with
  | nil => rfl
  | cons mutItem mutItems ih =>
    obtain ⟨above, restSorted⟩ := List.pairwise_cons.mp mutSorted
    have here : lookup Item.key oldItems mutItem.key = _ :=
      SortedEntries.lookup_eq_head oldSorted
    rw [copyItems, List.map_cons, ih restSorted (oldSorted.fromBound mutItem.key)]
    congr 1
    · rw [here]
      cases fromBound Item.key oldItems mutItem.key with
      | nil => rfl
      | cons oldItem oldItems =>
        by_cases same : oldItem.key = mutItem.key <;>
          simp [same, copiedValue, Option.filter_some]
    · refine List.map_congr_left fun later mem => ?_
      rw [SortedEntries.lookup_fromBound (above later mem).le]

/-- `V8gFlatMap(mut, old)`. -/
def ofMutable (construct : MutValue → Option Value → Value) (mutMap : V8gFlatMap Key MutValue)
    (old : Option (V8gFlatMap Key Value)) : V8gFlatMap Key Value where
  items := copyItems construct mutMap.items (itemsOf old)
  sorted := by
    rw [copyItems_eq construct mutMap.sorted (itemsOf_sorted old)]
    exact List.pairwise_map.mpr mutMap.sorted

end V8gFlatMap

end Voxen.Common
