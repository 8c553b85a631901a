import Voxen.Common.V8gFlatMap

/-!
# Runs of a flat map and its copies

A mutable map is changed and copied in any order. The versions of an older copy tell which of
its values are still those of the map, as long as every change after a copy has a timeline
that is greater than all that were used before it.
-/

namespace Voxen.Common.V8gFlatMap

open SortedEntries (Sorted lookup)

variable {Key Value MutValue : Type} [LinearOrder Key]

/-- A mutable map with the copies that were made of it, the timelines that were passed to it,
and those passed before the last copy. -/
structure Session (Key MutValue Value : Type) [LinearOrder Key] where
  map : V8gFlatMap Key MutValue := {}
  copies : List (V8gFlatMap Key Value) := []
  used : List (BitVec 64) := []
  usedBefore : List (BitVec 64) := []

inductive Action (Key MutValue : Type)
  | insert (timeline : BitVec 64) (key : Key) (value : MutValue)
  | erase (key : Key)
  | eraseAt (iter : Nat)
  | mutate (timeline : BitVec 64) (key : Key) (change : MutValue → MutValue)
  /-- An immutable copy is made, with the copy of this number passed as the old one. -/
  | copy (old : Option Nat)

namespace Session

/-- The map is copied. -/
def copied (construct : MutValue → Option Value → Value) (session : Session Key MutValue Value)
    (old : Option (V8gFlatMap Key Value)) : Session Key MutValue Value :=
  { session with
    copies := session.copies ++ [ofMutable construct session.map old]
    usedBefore := session.used }

def step (construct : MutValue → Option Value → Value) (session : Session Key MutValue Value) :
    Action Key MutValue → Option (Session Key MutValue Value)
  | .insert timeline key value => some { session with
      map := session.map.insert timeline key value
      used := timeline :: session.used }
  | .erase key => some { session with map := session.map.erase key }
  | .eraseAt iter => some { session with map := session.map.eraseAt iter }
  | .mutate timeline key change => some { session with
      map := session.map.mutate timeline key change
      used := timeline :: session.used }
  | .copy none => some (session.copied construct none)
  | .copy (some old) => session.copies[old]?.map fun old => session.copied construct (some old)

/-- The timeline of a change is greater than all that were used before the last copy. -/
def Timely (session : Session Key MutValue Value) : Action Key MutValue → Prop
  | .insert timeline _ _ | .mutate timeline _ _ => ∀ used ∈ session.usedBefore, used < timeline
  | .erase _ | .eraseAt _ | .copy _ => True

/-- A version that a copy and the map both have for a key stands for the same value. -/
structure Inv (construct : MutValue → Option Value → Value)
    (session : Session Key MutValue Value) : Prop where
  within : ∀ version ∈ session.usedBefore, version ∈ session.used
  versions : ∀ item ∈ session.map.items, item.version ∈ session.used
  copyVersions : ∀ copy ∈ session.copies, ∀ item ∈ copy.items, item.version ∈ session.usedBefore
  conversions : ∀ copy ∈ session.copies, ∀ item ∈ copy.items,
    ∃ value, item.value = construct value none
  agree : ∀ copy ∈ session.copies, ∀ old ∈ copy.items, ∀ item ∈ session.map.items,
    old.key = item.key → old.version = item.version → old.value = construct item.value none

variable {construct : MutValue → Option Value → Value}
  {session session' : Session Key MutValue Value}

theorem inv_start : Inv construct ({} : Session Key MutValue Value) where
  within := nofun
  versions := nofun
  copyVersions := nofun
  conversions := nofun
  agree := nofun

/-- Items that were there are kept, the others are new at a timely timeline. -/
theorem Inv.change (inv : Inv construct session) {map : V8gFlatMap Key MutValue}
    {used : List (BitVec 64)} {timeline : BitVec 64}
    (timely : ∀ before ∈ session.usedBefore, before < timeline)
    (grows : ∀ version ∈ session.used, version ∈ used) (passed : timeline ∈ used)
    (items : ∀ item ∈ map.items, item ∈ session.map.items ∨ item.version = timeline) :
    Inv construct { session with map := map, used := used } where
  within version before := grows version (inv.within version before)
  versions item mem := by
    rcases items item mem with kept | new
    · exact grows _ (inv.versions item kept)
    · rw [new]
      exact passed
  copyVersions := inv.copyVersions
  conversions := inv.conversions
  agree copy isCopy old inCopy item mem sameKey sameVersion := by
    rcases items item mem with kept | new
    · exact inv.agree copy isCopy old inCopy item kept sameKey sameVersion
    · -- the old version was used before the copy, the new one is greater
      have less := timely old.version (inv.copyVersions copy isCopy old inCopy)
      rw [sameVersion, new] at less
      exact absurd less (BitVec.lt_irrefl _)

theorem Inv.shrink (inv : Inv construct session) {map : V8gFlatMap Key MutValue}
    (items : ∀ item ∈ map.items, item ∈ session.map.items) :
    Inv construct { session with map := map } where
  within := inv.within
  versions item mem := inv.versions item (items item mem)
  copyVersions := inv.copyVersions
  conversions := inv.conversions
  agree copy isCopy old inCopy item mem :=
    inv.agree copy isCopy old inCopy item (items item mem)

theorem Inv.ofMutable_items (inv : Inv construct session)
    (reuses : ∀ value earlier, construct value (some (construct earlier none)) =
      construct value none)
    {old : Option (V8gFlatMap Key Value)}
    (isCopy : ∀ copy, old = some copy → copy ∈ session.copies) :
    (ofMutable construct session.map old).items = session.map.items.map fun item =>
      ⟨item.version, item.key, construct item.value none⟩ := by
  refine (copyItems_eq construct session.map.sorted (itemsOf_sorted old)).trans ?_
  refine List.map_congr_left fun item mem => ?_
  congr 1
  cases found : lookup Item.key (itemsOf old) item.key with
  | none => rfl
  | some oldItem =>
    obtain ⟨inOld, sameKey⟩ :=
      (SortedEntries.lookup_eq_some_iff (itemsOf_sorted old)).mp found
    cases old with
    | none => exact absurd inOld List.not_mem_nil
    | some copy =>
      have known := isCopy copy rfl
      rw [copiedValue]
      split
      · rename_i sameVersion
        exact inv.agree copy known oldItem inOld item mem sameKey sameVersion
      · obtain ⟨earlier, converted⟩ := inv.conversions copy known oldItem inOld
        rw [converted]
        exact reuses item.value earlier

theorem Inv.copied (inv : Inv construct session)
    (reuses : ∀ value earlier, construct value (some (construct earlier none)) =
      construct value none)
    {old : Option (V8gFlatMap Key Value)}
    (isCopy : ∀ copy, old = some copy → copy ∈ session.copies) :
    Inv construct (session.copied construct old) := by
  have converted : ∀ item ∈ (ofMutable construct session.map old).items,
      ∃ source ∈ session.map.items, item = ⟨source.version, source.key,
        construct source.value none⟩ := by
    intro item mem
    rw [inv.ofMutable_items reuses isCopy] at mem
    obtain ⟨source, inMap, rfl⟩ := List.mem_map.mp mem
    exact ⟨source, inMap, rfl⟩
  have known : ∀ copy ∈ (session.copied construct old).copies,
      copy ∈ session.copies ∨ copy = ofMutable construct session.map old := by
    intro copy mem
    rcases List.mem_append.mp mem with earlier | new
    · exact Or.inl earlier
    · exact Or.inr (List.mem_singleton.mp new)
  refine {
    within := fun _ mem => mem
    versions := inv.versions
    copyVersions := ?copyVersions
    conversions := ?conversions
    agree := ?agree }
  case copyVersions =>
    intro copy mem item inCopy
    rcases known copy mem with earlier | rfl
    · exact inv.within _ (inv.copyVersions copy earlier item inCopy)
    · obtain ⟨source, inMap, rfl⟩ := converted item inCopy
      exact inv.versions source inMap
  case conversions =>
    intro copy mem item inCopy
    rcases known copy mem with earlier | rfl
    · exact inv.conversions copy earlier item inCopy
    · obtain ⟨source, -, rfl⟩ := converted item inCopy
      exact ⟨source.value, rfl⟩
  case agree =>
    intro copy mem oldItem inCopy item inMap sameKey sameVersion
    rcases known copy mem with earlier | rfl
    · exact inv.agree copy earlier oldItem inCopy item inMap sameKey sameVersion
    · -- the keys of the map are distinct, so this is the item that was copied
      obtain ⟨source, inMap', rfl⟩ := converted oldItem inCopy
      have found := (SortedEntries.lookup_eq_some_iff session.map.sorted).mpr ⟨inMap', sameKey⟩
      have found' := (SortedEntries.lookup_eq_some_iff session.map.sorted).mpr ⟨inMap, rfl⟩
      rw [Option.some.inj (found.symm.trans found')]

theorem Inv.step (inv : Inv construct session)
    (reuses : ∀ value earlier, construct value (some (construct earlier none)) =
      construct value none)
    {action : Action Key MutValue} (timely : session.Timely action)
    (stepped : session.step construct action = some session') : Inv construct session' := by
  cases action with
  | insert timeline key value =>
    cases stepped
    refine inv.change timely (fun _ => List.mem_cons_of_mem _) List.mem_cons_self ?_
    intro item mem
    rcases mem_insert_iff.mp mem with ⟨kept, -⟩ | rfl
    · exact Or.inl kept
    · exact Or.inr rfl
  | erase key =>
    cases stepped
    exact inv.shrink fun item mem => (mem_erase_iff.mp mem).1
  | eraseAt iter =>
    cases stepped
    exact inv.shrink fun item mem => List.mem_of_mem_eraseIdx mem
  | mutate timeline key change =>
    cases stepped
    refine inv.change timely (fun _ => List.mem_cons_of_mem _) List.mem_cons_self ?_
    intro item mem
    rcases mem_mutate_iff.mp mem with ⟨kept, -⟩ | ⟨iter, -, -, rfl⟩
    · exact Or.inl kept
    · exact Or.inr rfl
  | copy old =>
    cases old with
    | none =>
      cases stepped
      exact inv.copied reuses nofun
    | some old =>
      obtain ⟨copy, chosen, rfl⟩ := Option.map_eq_some_iff.mp stepped
      refine inv.copied reuses ?_
      rintro other ⟨⟩
      exact List.mem_of_getElem? chosen

/-- A copy of the map after any run of timely changes and copies has the keys and versions of
the map and the conversions of its values, whichever older copy is passed. -/
theorem run_ofMutable (construct : MutValue → Option Value → Value)
    (reuses : ∀ value earlier, construct value (some (construct earlier none)) =
      construct value none)
    {actions : List (Action Key MutValue)} {session : Session Key MutValue Value}
    (timely : Runs.StepsMeet (step construct) Timely {} actions)
    (reached : Runs.run (step construct) {} actions = some session)
    (old : Option (V8gFlatMap Key Value))
    (isCopy : ∀ copy, old = some copy → copy ∈ session.copies) :
    (ofMutable construct session.map old).items = session.map.items.map fun item =>
      ⟨item.version, item.key, construct item.value none⟩ := by
  have inv := Runs.run_invariant (fun _ _ _ inv meets => Inv.step inv reuses meets) inv_start
    timely reached
  exact inv.ofMutable_items reuses isCopy

/-- Two keys, a copy, then one is removed, one inserted and one changed. -/
def sharedRun : List (Action Nat Nat) :=
  [.insert 5 10 2, .insert 5 3 7, .copy none, .insert 6 15 1, .erase 3, .mutate 6 15 (· + 1)]

/-- A conversion that does not need the old value. -/
def doubled (value : Nat) (_ : Option Nat) : Nat := 2 * value

theorem sharedRun_ofMutable :
    ∃ session copy, Runs.run (step doubled) {} sharedRun = some session ∧
      session.copies[0]? = some copy ∧
      (ofMutable doubled session.map (some copy)).items =
        session.map.items.map fun item => ⟨item.version, item.key, doubled item.value none⟩ := by
  have oneCopy : (Runs.run (step doubled) {} sharedRun).map (fun session => session.copies.length)
      = some 1 := by
    decide +kernel
  obtain ⟨session, reached, one⟩ := Option.map_eq_some_iff.mp oneCopy
  have copyAt : session.copies[0]? = some session.copies[0] := List.getElem?_eq_getElem _
  refine ⟨session, session.copies[0], reached, copyAt, ?_⟩
  have timely : Runs.StepsMeet (step doubled) Timely {} sharedRun := by
    simp [Runs.StepsMeet, sharedRun, step, Timely, copied]
  refine run_ofMutable doubled (fun _ _ => rfl) timely reached _ ?_
  rintro copy ⟨⟩
  exact List.mem_of_getElem? copyAt

end Session

end Voxen.Common.V8gFlatMap
