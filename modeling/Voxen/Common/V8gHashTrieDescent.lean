import Voxen.Common.V8gHashTrieShape

/-!
# Descending the trie by the bits of a hash

A node with `levels` levels left holds keys that share all but the last
`6 * levels` bits of their hash.  Insertion and erasure change the result of
the lookup for their own key only.
-/

namespace Voxen.Common.V8gHashTrie

open PackedArray (popcount rank bit)

variable {K V : Type} (hash : K → BitVec 64)

/-- The hash bits not consumed yet when `levels` levels are left. -/
def remaining (levels : Nat) (key : K) : BitVec 64 :=
  hash key <<< (64 - 6 * levels)

/-- The hash bits consumed when `levels` levels are left. -/
def prefixOf (levels : Nat) (key : K) : Nat :=
  (hash key).toNat / 2 ^ (6 * levels)

theorem prefixOf_succ (levels : Nat) (key : K) :
    prefixOf hash (levels + 1) key = prefixOf hash levels key / 64 := by
  unfold prefixOf
  rw [Nat.div_div_eq_div_mul, Nat.mul_succ, Nat.pow_add]

variable {levels : Nat}

theorem remaining_succ (bound : 6 * (levels + 1) ≤ 64) (key : K) :
    remaining hash (levels + 1) key <<< 6 = remaining hash levels key := by
  unfold remaining
  rw [← BitVec.shiftLeft_add]
  congr 1
  omega

theorem slotOf_remaining (bound : 6 * (levels + 1) ≤ 64) (key : K) :
    slotOf (remaining hash (levels + 1) key) = prefixOf hash levels key % 64 := by
  unfold slotOf remaining prefixOf
  rw [BitVec.toNat_ushiftRight, BitVec.toNat_shiftLeft, Nat.shiftRight_eq_div_pow,
    Nat.shiftLeft_eq]
  generalize (hash key).toNat = bits
  have whole : 2 ^ 64 = 2 ^ (6 * levels + 6) * 2 ^ (64 - 6 * (levels + 1)) := by
    rw [← Nat.pow_add]
    congr 1
    omega
  have lower : 2 ^ (64 - 6) = 2 ^ (6 * levels) * 2 ^ (64 - 6 * (levels + 1)) := by
    rw [← Nat.pow_add]
    congr 1
    omega
  rw [whole, Nat.mul_mod_mul_right, lower,
    Nat.mul_div_mul_right _ _ (Nat.two_pow_pos _), Nat.pow_add,
    Nat.mod_mul_right_div_self]

theorem prefixOf_eq {pfx : Nat} {key : K} (owned : prefixOf hash (levels + 1) key = pfx) :
    prefixOf hash levels key = pfx * 64 + prefixOf hash levels key % 64 := by
  rw [prefixOf_succ] at owned
  omega

namespace Node

variable {layout : ItemLayout}

/-- The invariant of the subtree below a node: `pfx` is the hash prefix all
its keys have. -/
def WellFormed (layout : ItemLayout) (hash : K → BitVec 64) :
    Nat → Nat → Node K V → Prop
  | 0, _, _ => False
  | levels + 1, pfx, node =>
    Shape layout (levels + 1) node ∧
    (∀ slot item, node.itemAt slot = some item →
      prefixOf hash levels item.key = pfx * 64 + slot) ∧
    (∀ slot child, node.childAt slot = some child →
      WellFormed layout hash levels (pfx * 64 + slot) child.2)

variable {hash}

variable {levels pfx slot : Nat} {node node' : Node K V} {item : Option (Item K V)} {key : K}

theorem WellFormed.shape (wf : WellFormed layout hash (levels + 1) pfx node) :
    Shape layout (levels + 1) node := wf.1

theorem WellFormed.bound (wf : WellFormed layout hash (levels + 1) pfx node) :
    6 * (levels + 1) ≤ 64 := by
  have depth := wf.shape.consumed
  omega

theorem WellFormed.levels_pos (wf : WellFormed layout hash levels pfx node) :
    ∃ lower, levels = lower + 1 := by
  cases levels with
  | zero => exact wf.elim
  | succ lower => exact ⟨lower, rfl⟩

/-- Replacing one slot by content of its own prefix keeps the invariant. -/
theorem WellFormed.replace {child : Option (NodeItem K V)}
    (wf : WellFormed layout hash (levels + 1) pfx node) (shape : Shape layout (levels + 1) node')
    (replaced : Replaces node node' slot item child) (itemOwned : ∀ stored, item = some stored →
      prefixOf hash levels stored.key = pfx * 64 + slot) (childWf : ∀ stored, child = some stored →
      WellFormed layout hash levels (pfx * 64 + slot) stored.2) :
    WellFormed layout hash (levels + 1) pfx node' := by
  refine ⟨shape, ?_, ?_⟩
  · intro other stored holds
    rw [replaced.items] at holds
    split at holds
    · rename_i same
      rw [same]
      exact itemOwned stored holds
    · exact wf.2.1 other stored holds
  · intro other stored holds
    rw [replaced.children] at holds
    split at holds
    · rename_i same
      rw [same]
      exact childWf stored holds
    · exact wf.2.2 other stored holds

theorem allocateNode_wellFormed {consumed address : Nat} (pfx : Nat)
    (depth : consumed + 6 * (levels + 1) = 64) :
    WellFormed layout hash (levels + 1) pfx
      (allocateNode layout address consumed : Node K V) := by
  refine ⟨allocateNode_shape depth, ?_, ?_⟩
  · intro slot item holds
    simp [itemAt, allocateNode, PackedArray.get?] at holds
  · intro slot child holds
    simp [childAt, allocateNode, PackedArray.get?] at holds

theorem makeUnique_spec {nodeItem : NodeItem K V} (shape : Shape layout levels nodeItem.2)
    (timeline : BitVec 64) (freeAddress slot : Nat) :
    ∃ node freeAddress', makeUnique timeline freeAddress nodeItem =
        ((timeline, node), freeAddress') ∧
      Shape layout levels node ∧
      Replaces nodeItem.2 node slot (nodeItem.2.itemAt slot) (nodeItem.2.childAt slot) := by
  unfold makeUnique
  by_cases same : nodeItem.1 = timeline
  · rw [if_neg (not_not_intro same)]
    exact ⟨nodeItem.2, freeAddress, by rw [← same], shape,
      Replaces.unchanged (fun _ => rfl) (fun _ => rfl) slot⟩
  · rw [if_pos same]
    refine ⟨copyNode freeAddress nodeItem.2, _, rfl,
      copyWithCapacity_shape shape (Nat.le_refl _) shape.capacity_le, ?_⟩
    exact Replaces.unchanged
      (fun other => itemAt_copyWithCapacity freeAddress _ other nodeItem.2)
      (fun other => childAt_copyWithCapacity freeAddress _ other nodeItem.2) slot

/-! ## Finding a key -/

variable [DecidableEq K]

/-- What the descent returns from the content of the selected slot. -/
def findInSlot (key : K) (levels : Nat) (item : Option (Item K V))
    (child : Option (NodeItem K V)) (hashBits : BitVec 64) :
    Option (Option (Item K V)) :=
  match item, child with
  | some item, _ => some (if item.key = key then some item else none)
  | none, some child => find key levels child.2 hashBits
  | none, none => some none

theorem find_eq (shape : Shape layout (levels + 1) node) (key : K) (hashBits : BitVec 64) :
    find key (levels + 1) node hashBits =
      findInSlot key levels (node.itemAt (slotOf hashBits)) (node.childAt (slotOf hashBits))
        (hashBits <<< 6) := by
  have hs := slotOf_lt hashBits
  simp only [find, selectBit_eq]
  generalize slotOf hashBits = slot at hs ⊢
  have itemTest := PackedArray.and_bit_ne_zero node.itemBitmap slot
  have childTest := PackedArray.and_bit_ne_zero node.nodeBitmap slot
  cases shape.slotHolds slot with
  | item item set clear items children =>
    rw [if_pos (itemTest.mpr set), refItemBit_of_item hs items, items]
    rfl
  | child child set clear items children =>
    rw [if_neg (fun taken => by simp [itemTest.mp taken] at clear),
      if_neg (childTest.mpr set), refNodeBit_of_child hs children, items, children]
    rfl
  | free clear itemClear items children =>
    rw [if_neg (fun taken => by simp [itemTest.mp taken] at itemClear),
      if_pos (not_not.mp fun taken => by simp [childTest.mp taken] at clear),
      items, children]
    rfl

/-- Lookup of a key below a node with `levels` levels left. -/
def lookup (hash : K → BitVec 64) (levels : Nat) (node : Node K V) (key : K) :
    Option (Option (Item K V)) :=
  find key levels node (remaining hash levels key)

theorem lookup_eq (wf : WellFormed layout hash (levels + 1) pfx node)
    (owned : prefixOf hash levels key % 64 = slot) :
    lookup hash (levels + 1) node key =
      findInSlot key levels (node.itemAt slot) (node.childAt slot)
        (remaining hash levels key) := by
  rw [lookup, find_eq wf.shape, slotOf_remaining hash wf.bound,
    remaining_succ hash wf.bound, owned]

theorem lookup_total (wf : WellFormed layout hash levels pfx node) (key : K) :
    ∃ found, lookup hash levels node key = some found := by
  induction levels generalizing pfx node with
  | zero => exact wf.elim
  | succ levels ih =>
    rw [lookup_eq wf rfl]
    cases wf.shape.slotHolds (prefixOf hash levels key % 64) with
    | item item set clear items children =>
      rw [items]
      exact ⟨_, rfl⟩
    | child child set clear items children =>
      rw [items, children]
      exact ih (wf.2.2 _ _ children)
    | free clear itemClear items children =>
      rw [items, children]
      exact ⟨_, rfl⟩

/-- A replacement in the slot of `key` that changes the lookup there for `key`
only changes the lookup below the node for `key` only. -/
theorem lookup_replaced {child : Option (NodeItem K V)}
    (wf : WellFormed layout hash (levels + 1) pfx node)
    (wf' : WellFormed layout hash (levels + 1) pfx node')
    (replaced : Replaces node node' slot item child)
    (owned : prefixOf hash levels key = pfx * 64 + slot) (hs : slot < 64)
    {result : Option (Option (Item K V))}
    (inSlot : ∀ other, prefixOf hash levels other = pfx * 64 + slot →
      findInSlot other levels item child (remaining hash levels other) =
        if other = key then result
        else findInSlot other levels (node.itemAt slot) (node.childAt slot)
          (remaining hash levels other)) :
    ∀ other, prefixOf hash (levels + 1) other = pfx →
      lookup hash (levels + 1) node' other =
        if other = key then result else lookup hash (levels + 1) node other := by
  intro other inside
  have longer := prefixOf_eq hash inside
  by_cases same : prefixOf hash levels other % 64 = slot
  · rw [same] at longer
    rw [lookup_eq wf' same, lookup_eq wf same, replaced.itemAt_slot, replaced.childAt_slot]
    exact inSlot other longer
  · have differ : other ≠ key := by
      rintro rfl
      apply same
      rw [owned, Nat.add_comm, Nat.add_mul_mod_self_right, Nat.mod_eq_of_lt hs]
    rw [if_neg differ, lookup_eq wf' rfl, lookup_eq wf rfl, replaced.itemAt_other same,
      replaced.childAt_other same]

/-! ## Inserting a key -/

theorem promoteItemToNode_spec (wf : WellFormed layout hash (levels + 2) pfx node) {item : Item K V}
    (hs : slot < 64) (items : node.itemAt slot = some item) (freeAddress : Nat) :
    ∃ node' child, node.promoteItemToNode layout hash freeAddress (bit 64 slot) = some node' ∧
      Shape layout (levels + 2) node' ∧
      Replaces node node' slot none (some (item.version, child)) ∧
      WellFormed layout hash (levels + 1) (pfx * 64 + slot) child ∧
      (∀ other, child.childAt other = none) ∧
      ∀ other, prefixOf hash (levels + 1) other = pfx * 64 + slot →
        lookup hash (levels + 1) child other =
          findInSlot other (levels + 1) (some item) none
            (remaining hash (levels + 1) other) := by
  have small := layout.nodeItem_le
  have owned := wf.2.1 slot item items
  have depth := wf.shape.consumed
  have consumed : node.consumedHashBits + 6 = 64 - 6 * (levels + 1) := by omega
  -- the new child, before and after it takes the item
  have emptyWf : WellFormed layout hash (levels + 1) (pfx * 64 + slot)
      (allocateNode layout freeAddress (node.consumedHashBits + 6) : Node K V) :=
    allocateNode_wellFormed _ (by omega)
  have childSlot : (1#64 <<< ((hash item.key <<< (node.consumedHashBits + 6)) >>>
      (64 - 6)).toNat) = bit 64 (prefixOf hash levels item.key % 64) := by
    rw [← slotOf_remaining hash (by omega), ← selectBit_eq, consumed]
    rfl
  have low : prefixOf hash levels item.key % 64 < 64 := Nat.mod_lt _ (by decide)
  obtain ⟨child, inserted, childShape, childReplaced⟩ :=
    insertItem_spec emptyWf.shape low (by simp [allocateNode]) (by simp [allocateNode])
      (by
        have capacity := emptyWf.shape.capacity_ge
        unfold initialCapacity at capacity
        simp only [allocateNode] at capacity ⊢
        omega) item
  have childWf : WellFormed layout hash (levels + 1) (pfx * 64 + slot) child := by
    refine emptyWf.replace childShape childReplaced ?_ ?_
    · rintro stored ⟨rfl⟩
      exact prefixOf_eq hash owned
    · rintro stored ⟨⟩
  -- the item leaves this node, the child takes its slot
  cases wf.shape.slotHolds slot with
  | child other set clear empty _ =>
    rw [empty] at items
    cases items
  | free _ _ empty _ =>
    rw [empty] at items
    cases items
  | item stored set clear _ _ =>
    obtain ⟨erasedShape, erasedUsed, erased⟩ := eraseItem_spec wf.shape set clear
    have fits := wf.shape.fits
    obtain ⟨node', result, shape', replaced⟩ :=
      insertNode_spec erasedShape hs
        ((childAt_eq_none_iff erasedShape slot).mp erased.childAt_slot)
        ((itemAt_eq_none_iff erasedShape slot).mp erased.itemAt_slot)
        (by
          have capacity : (node.eraseItem layout (bit 64 slot)).capacityBytes =
            node.capacityBytes := rfl
          rw [capacity]
          change _ + 24 ≤ _
          omega) (item.version, child)
    refine ⟨node', child, ?_, shape', erased.trans replaced, childWf, ?_, ?_⟩
    · rw [promoteItemToNode, refItemBit_of_item hs items]
      simp only [Option.bind_eq_bind, Option.bind_some]
      rw [childSlot, inserted]
      simp only [Option.bind_some]
      exact result
    · intro other
      rw [childReplaced.children]
      split
      · rfl
      · exact PackedArray.get?_of_clear BitVec.getLsbD_zero _
    · intro other inside
      rw [lookup_eq childWf rfl, childReplaced.items, childReplaced.children]
      by_cases same : prefixOf hash levels other % 64 = prefixOf hash levels item.key % 64
      · rw [if_pos same, if_pos same]
        rfl
      · have differ : item.key ≠ other := by
          rintro rfl
          exact same rfl
        rw [if_neg same, if_neg same]
        simp [findInSlot, differ, allocateNode, itemAt, childAt, PackedArray.get?]

/-- How a call changes a node: one slot loses or keeps its child, or gets one that was made
by the call, from the old child or from a node without children. -/
inductive Changed (timeline : BitVec 64) : Nat → Node K V → Node K V → Prop
  | slot {levels slot : Nat} {node node' : Node K V} {item : Option (Item K V)}
      {stored : Option (NodeItem K V)} (replaced : Replaces node node' slot item stored)
      (kept : stored = none ∨ stored = node.childAt slot) : Changed timeline (levels + 1) node node'
  | child {levels slot : Nat} {node node' child child' : Node K V} {item : Option (Item K V)}
      (replaced : Replaces node node' slot item (some (timeline, child')))
      (origin : (∃ first, node.childAt slot = some (first, child)) ∨
        ∀ other, child.childAt other = none)
      (below : Changed timeline levels child child') : Changed timeline (levels + 1) node node'

/-- What insertion of `key` leaves behind. -/
structure Inserted (layout : ItemLayout) (hash : K → BitVec 64) (timeline : BitVec 64)
    (key : K) (valuePtr : V) (levels pfx : Nat) (node node' : Node K V) (added : Bool) :
    Prop where
  wellFormed : WellFormed layout hash levels pfx node'
  lookups : ∀ other, prefixOf hash levels other = pfx →
    lookup hash levels node' other =
      if other = key then some (some ⟨timeline, key, valuePtr⟩)
      else lookup hash levels node other
  added_iff : added = true ↔ lookup hash levels node key = some none

/-- Insertion below a child of the slot of `key` carries over to the node. -/
theorem Inserted.ofChild {timeline : BitVec 64} {valuePtr : V} {middle child child' : Node K V}
    {added : Bool} {stored : Option (NodeItem K V)}
    (wf : WellFormed layout hash (levels + 1) pfx node) (shape : Shape layout (levels + 1) middle)
    (reached : Replaces node middle slot item stored) (set : middle.nodeBitmap.getLsbD slot = true)
    (owned : prefixOf hash levels key = pfx * 64 + slot) (hs : slot < 64)
    (same : ∀ other, prefixOf hash levels other = pfx * 64 + slot →
      lookup hash levels child other =
        findInSlot other levels (node.itemAt slot) (node.childAt slot)
          (remaining hash levels other))
    (inserted : Inserted layout hash timeline key valuePtr levels (pfx * 64 + slot)
      child child' added) (origin : (∃ first, node.childAt slot = some (first, child)) ∨
      ∀ other, child.childAt other = none) (below : Changed timeline levels child child') :
    Inserted layout hash timeline key valuePtr (levels + 1) pfx node
        (middle.assignNodeBit (bit 64 slot) (timeline, child')) added ∧
      Changed timeline (levels + 1) node
        (middle.assignNodeBit (bit 64 slot) (timeline, child')) := by
  obtain ⟨shape', assigned⟩ := assignNodeBit_spec shape set (timeline, child')
  have replaced := reached.trans assigned
  have wf' := wf.replace shape' replaced nofun (by
    rintro stored ⟨rfl⟩
    exact inserted.wellFormed)
  have low : prefixOf hash levels key % 64 = slot := by
    rw [owned, Nat.add_comm, Nat.add_mul_mod_self_right, Nat.mod_eq_of_lt hs]
  refine ⟨⟨wf', ?_, ?_⟩, .child replaced origin below⟩
  · apply lookup_replaced wf wf' replaced owned hs
    intro other inside
    rw [← same other inside]
    exact inserted.lookups other inside
  · rw [lookup_eq wf low, ← same key owned]
    exact inserted.added_iff

/-- Insertion returns, keeps the invariant, changes the lookup of its key only,
and reports whether the key is new.  It changes no other slots than those of its key. -/
theorem insert_spec (unique : Function.Injective hash) (timeline : BitVec 64) (key : K)
    (valuePtr : V) {nodeItem : NodeItem K V} (wf : WellFormed layout hash levels pfx nodeItem.2)
    (owned : prefixOf hash levels key = pfx) (freeAddress : Nat) :
    ∃ node' freeAddress' added,
      insert layout hash timeline key valuePtr levels nodeItem (remaining hash levels key)
          freeAddress = some ((timeline, node'), freeAddress', added) ∧
      Inserted layout hash timeline key valuePtr levels pfx nodeItem.2 node' added ∧
      Changed timeline levels nodeItem.2 node' := by
  induction levels generalizing pfx nodeItem freeAddress with
  | zero => exact wf.elim
  | succ levels ih =>
    obtain ⟨slot, slotKey⟩ : ∃ slot, prefixOf hash levels key % 64 = slot := ⟨_, rfl⟩
    have hs : slot < 64 := by
      rw [← slotKey]
      exact Nat.mod_lt _ (by decide)
    have longer := prefixOf_eq hash owned
    rw [slotKey] at longer
    obtain ⟨node, freeAddress₁, unshared, shape, copied⟩ :=
      makeUnique_spec wf.shape timeline freeAddress slot
    have itemTest := PackedArray.and_bit_ne_zero node.itemBitmap slot
    have childTest := PackedArray.and_bit_ne_zero node.nodeBitmap slot
    rw [insert, unshared]
    simp only [selectBit_eq, slotOf_remaining hash wf.bound key, slotKey,
      remaining_succ hash wf.bound]
    cases shape.slotHolds slot with
    | child child set clear items children =>
      have children₀ := copied.childAt_slot.symm.trans children
      have items₀ := copied.itemAt_slot.symm.trans items
      obtain ⟨child', freeAddress₂, added, inserted, spec, changed⟩ :=
        ih (wf.2.2 slot child children₀) longer freeAddress₁
      rw [if_pos (childTest.mpr set), refNodeBit_of_child hs children]
      simp only [Option.bind_eq_bind, Option.bind_some, inserted, Option.pure_def]
      refine ⟨_, _, _, rfl, Inserted.ofChild wf shape copied set longer hs ?_ spec
        (.inl ⟨_, children₀⟩) changed⟩
      intro other inside
      rw [items₀, children₀]
      rfl
    | item item set clear items children =>
      have items₀ := copied.itemAt_slot.symm.trans items
      have children₀ := copied.childAt_slot.symm.trans children
      have itemOwned := wf.2.1 slot item items₀
      rw [if_neg (fun taken => by simp [childTest.mp taken] at clear),
        if_pos (itemTest.mpr set), refItemBit_of_item hs items]
      simp only [Option.bind_eq_bind, Option.bind_some, Option.pure_def]
      by_cases same : item.key = key
      · rw [if_pos same]
        obtain ⟨shape', assigned⟩ := assignItemBit_spec shape set clear
          { item with version := timeline, valuePtr := valuePtr }
        have replaced := copied.trans assigned
        have wf' := wf.replace shape' replaced (by
          rintro stored ⟨rfl⟩
          exact itemOwned) nofun
        refine ⟨_, _, _, rfl, ⟨wf', ?_, ?_⟩, .slot replaced (.inl rfl)⟩
        · apply lookup_replaced wf wf' replaced longer hs
          intro other inside
          rw [items₀, children₀]
          by_cases here : other = key
          · simp [findInSlot, same, here]
          · have apart : item.key ≠ other := fun eq => here (eq.symm.trans same)
            simp [findInSlot, here, apart]
        · rw [lookup_eq wf slotKey, items₀, children₀]
          simp [findInSlot, same]
      · rw [if_neg same]
        -- both keys reach this slot, so their hashes differ further down
        obtain ⟨lower, rfl⟩ : ∃ lower, levels = lower + 1 := by
          cases levels with
          | zero =>
            refine absurd (unique (BitVec.eq_of_toNat_eq ?_)) same
            have equal := itemOwned.trans longer.symm
            simpa [prefixOf] using equal
          | succ lower => exact ⟨lower, rfl⟩
        have wfNode : WellFormed layout hash (lower + 2) pfx node :=
          wf.replace shape copied (by
            rw [items₀]
            rintro stored ⟨rfl⟩
            exact itemOwned) (by
            rw [children₀]
            rintro stored ⟨⟩)
        obtain ⟨promoted, child, promotion, shape', replaced, childWf, noChild, lookups⟩ :=
          promoteItemToNode_spec wfNode hs items freeAddress₁
        obtain ⟨child', freeAddress₂, added, inserted, spec, changed⟩ :=
          @ih _ (item.version, child) childWf longer (freeAddress₁ + 1)
        have set' : promoted.nodeBitmap.getLsbD slot = true := by
          by_contra unset
          have empty := (childAt_eq_none_iff shape' slot).mpr (by simpa using unset)
          rw [replaced.childAt_slot] at empty
          cases empty
        rw [promotion]
        simp only [Option.bind_some, refNodeBit_of_child hs replaced.childAt_slot, inserted]
        refine ⟨_, _, _, rfl, Inserted.ofChild wf shape' (copied.trans replaced) set'
          longer hs ?_ spec (.inr noChild) changed⟩
        intro other inside
        rw [items₀, children₀]
        exact lookups other inside
    | free clear itemClear items children =>
      have items₀ := copied.itemAt_slot.symm.trans items
      have children₀ := copied.childAt_slot.symm.trans children
      rw [if_neg (fun taken => by simp [childTest.mp taken] at clear),
        if_neg (fun taken => by simp [itemTest.mp taken] at itemClear)]
      obtain ⟨roomyShape, room, expanded⟩ :=
        makeRoom_spec shape hs clear itemClear freeAddress₁
      obtain ⟨node', stored, shape', inserted⟩ := insertItem_spec roomyShape hs
        ((childAt_eq_none_iff roomyShape slot).mp expanded.childAt_slot)
        ((itemAt_eq_none_iff roomyShape slot).mp expanded.itemAt_slot) room
        ⟨timeline, key, valuePtr⟩
      have replaced := (copied.trans expanded).trans inserted
      have wf' := wf.replace shape' replaced (by
        rintro stored ⟨rfl⟩
        exact longer) nofun
      simp only [Option.bind_eq_bind, stored, Option.bind_some, Option.pure_def]
      refine ⟨_, _, _, rfl, ⟨wf', ?_, ?_⟩, .slot replaced (.inl rfl)⟩
      · apply lookup_replaced wf wf' replaced longer hs
        intro other inside
        rw [items₀, children₀]
        by_cases here : other = key
        · simp [findInSlot, here]
        · have apart : key ≠ other := fun eq => here eq.symm
          simp [findInSlot, here, apart]
      · rw [lookup_eq wf slotKey, items₀, children₀]
        simp [findInSlot]

/-! ## Erasing a key -/

/-- Shrinking a child keeps every lookup: an empty child holds nothing, and the
only item of a child is found in its parent just as well. -/
theorem tryShrinkChildNode_spec {child : NodeItem K V} (shape : Shape layout (levels + 1) node)
    (children : node.childAt slot = some child) (hs : slot < 64)
    (childWf : WellFormed layout hash levels (pfx * 64 + slot) child.2) :
    ∃ node' item stored, node.tryShrinkChildNode layout (bit 64 slot) = some node' ∧
      Shape layout (levels + 1) node' ∧ Replaces node node' slot item stored ∧
      (stored = none ∨ stored = some child) ∧
      (∀ held, item = some held → prefixOf hash levels held.key = pfx * 64 + slot) ∧
      (∀ held, stored = some held →
        WellFormed layout hash levels (pfx * 64 + slot) held.2) ∧
      ∀ other, prefixOf hash levels other = pfx * 64 + slot →
        findInSlot other levels item stored (remaining hash levels other) =
          lookup hash levels child.2 other := by
  have set : node.nodeBitmap.getLsbD slot = true := by
    by_contra unset
    rw [(childAt_eq_none_iff shape slot).mpr (by simpa using unset)] at children
    cases children
  have itemClear := shape.disjoint slot set
  have items := (itemAt_eq_none_iff shape slot).mpr itemClear
  have kept : Replaces node node slot none (some child) := by
    rw [← items, ← children]
    exact Replaces.unchanged (fun _ => rfl) (fun _ => rfl) slot
  have keptWf : ∀ held, some child = some held →
      WellFormed layout hash levels (pfx * 64 + slot) held.2 := by
    rintro held ⟨rfl⟩
    exact childWf
  obtain ⟨lower, rfl⟩ := childWf.levels_pos
  obtain ⟨erasedShape, erasedUsed, erased⟩ := eraseNode_spec shape set
  rw [tryShrinkChildNode, refNodeBit_of_child hs children]
  simp only [Option.bind_eq_bind, Option.bind_some, Option.pure_def]
  by_cases nested : child.2.nodeBitmap = 0#64
  · have noChild : ∀ other, child.2.childAt other = none := fun other => by
      rw [childAt_eq_none_iff childWf.shape, nested]
      simp
    rw [if_neg (not_not_intro nested)]
    by_cases empty : child.2.itemBitmap = 0#64
    · rw [if_pos empty]
      refine ⟨_, none, none, rfl, erasedShape, erased, Or.inl rfl, nofun, nofun, ?_⟩
      intro other inside
      have noItem : ∀ other, child.2.itemAt other = none := fun other => by
        rw [itemAt_eq_none_iff childWf.shape, empty]
        simp
      rw [lookup_eq childWf rfl, noItem, noChild]
      rfl
    · rw [if_neg empty]
      by_cases narrow : node.capacityBytes - node.usedBytes + nodeItemSize < layout.itemSize
      · rw [if_pos narrow]
        exact ⟨_, none, some child, rfl, shape, kept, Or.inr rfl, nofun, keptWf, fun _ _ => rfl⟩
      · rw [if_neg narrow]
        by_cases single : child.2.itemBitmap &&& (child.2.itemBitmap - 1#64) = 0#64
        · rw [if_pos single]
          obtain ⟨only, honly, mask⟩ := PackedArray.eq_bit_of_and_sub_one empty single
          have onlySet : child.2.itemBitmap.getLsbD only = true := by
            rw [mask, PackedArray.getLsbD_bit honly]
            simp
          -- the only item is stored at index 0 and found in slot `only`
          obtain ⟨item, stored⟩ :=
            PackedArray.exists_of_set childWf.shape.itemsPacked onlySet
          have childItem : child.2.itemAt only = some item := by
            rw [itemAt, PackedArray.get?_of_set onlySet, stored]
          rw [mask, PackedArray.rank_bit honly, if_neg (Nat.lt_irrefl only)] at stored
          have owned := childWf.2.1 only item childItem
          have longer : prefixOf hash (lower + 1) item.key = pfx * 64 + slot := by
            rw [prefixOf_succ, owned]
            omega
          have room : (node.eraseNode (bit 64 slot)).usedBytes + layout.itemSize ≤
              (node.eraseNode (bit 64 slot)).capacityBytes := by
            have fits := shape.fits
            have capacity : (node.eraseNode (bit 64 slot)).capacityBytes =
              node.capacityBytes := rfl
            rw [capacity]
            omega
          obtain ⟨node', result, shape', inserted⟩ := insertItem_spec erasedShape hs
            ((childAt_eq_none_iff erasedShape slot).mp erased.childAt_slot)
            ((itemAt_eq_none_iff erasedShape slot).mp erased.itemAt_slot) room item
          rw [stored]
          refine ⟨node', some item, none, result, shape', erased.trans inserted, Or.inl rfl, ?_,
            nofun, ?_⟩
          · rintro held ⟨rfl⟩
            exact longer
          · intro other inside
            rw [lookup_eq childWf rfl, noChild]
            by_cases here : prefixOf hash lower other % 64 = only
            · rw [here, childItem]
              rfl
            · have apart : item.key ≠ other := by
                rintro rfl
                apply here
                rw [owned, Nat.add_comm, Nat.add_mul_mod_self_right, Nat.mod_eq_of_lt honly]
              have nothing : child.2.itemAt (prefixOf hash lower other % 64) = none := by
                rw [itemAt_eq_none_iff childWf.shape, mask, PackedArray.getLsbD_bit honly]
                simpa using fun same => here same.symm
              rw [nothing]
              simp [findInSlot, apart]
        · rw [if_neg single]
          exact ⟨_, none, some child, rfl, shape, kept, Or.inr rfl, nofun, keptWf, fun _ _ => rfl⟩
  · rw [if_pos nested]
    exact ⟨_, none, some child, rfl, shape, kept, Or.inr rfl, nofun, keptWf, fun _ _ => rfl⟩

/-- What erasing `key` leaves behind. -/
structure Erased (layout : ItemLayout) (hash : K → BitVec 64) (key : K)
    (levels pfx : Nat) (node node' : Node K V) (erased : Bool) : Prop where
  wellFormed : WellFormed layout hash levels pfx node'
  lookups : ∀ other, prefixOf hash levels other = pfx →
    lookup hash levels node' other =
      if other = key then some none else lookup hash levels node other
  erased_iff : erased = false ↔ lookup hash levels node key = some none

theorem Erased.absent (wf : WellFormed layout hash levels pfx node')
    (same : ∀ other, lookup hash levels node' other = lookup hash levels node other)
    (absent : lookup hash levels node key = some none) :
    Erased layout hash key levels pfx node node' false := by
  refine ⟨wf, ?_, iff_of_true rfl absent⟩
  intro other _
  rw [same]
  split
  · rename_i here
    rw [here, absent]
  · rfl

/-- Erasure returns, keeps the invariant, changes the lookup of its key only,
and reports whether the key was there.  It leaves the node alone or makes a new one. -/
theorem erase_spec (timeline : BitVec 64) (key : K) {levels pfx : Nat}
    {nodeItem : NodeItem K V} (wf : WellFormed layout hash levels pfx nodeItem.2)
    (owned : prefixOf hash levels key = pfx) (freeAddress : Nat) :
    ∃ nodeItem' freeAddress' erased,
      erase layout timeline key levels nodeItem (remaining hash levels key) freeAddress =
        some (nodeItem', freeAddress', erased) ∧
      Erased layout hash key levels pfx nodeItem.2 nodeItem'.2 erased ∧
      (nodeItem' = nodeItem ∨
        nodeItem'.1 = timeline ∧ Changed timeline levels nodeItem.2 nodeItem'.2) := by
  induction levels generalizing pfx nodeItem freeAddress with
  | zero => exact wf.elim
  | succ levels ih =>
    obtain ⟨slot, slotKey⟩ : ∃ slot, prefixOf hash levels key % 64 = slot := ⟨_, rfl⟩
    have hs : slot < 64 := by
      rw [← slotKey]
      exact Nat.mod_lt _ (by decide)
    have longer := prefixOf_eq hash owned
    rw [slotKey] at longer
    obtain ⟨node, freeAddress₁, unshared, shape, copied⟩ :=
      makeUnique_spec wf.shape timeline freeAddress slot
    have itemTest := PackedArray.and_bit_ne_zero nodeItem.2.itemBitmap slot
    have childTest := PackedArray.and_bit_ne_zero nodeItem.2.nodeBitmap slot
    rw [erase]
    simp only [selectBit_eq, slotOf_remaining hash wf.bound key, slotKey,
      remaining_succ hash wf.bound, unshared]
    cases wf.shape.slotHolds slot with
    | item item set clear items children =>
      rw [if_pos (itemTest.mpr set), refItemBit_of_item hs items]
      simp only [Option.bind_eq_bind, Option.bind_some, Option.pure_def]
      by_cases same : item.key = key
      · rw [if_neg (not_not_intro same)]
        have items' := copied.itemAt_slot.trans items
        have children' := copied.childAt_slot.trans children
        have set' : node.itemBitmap.getLsbD slot = true := by
          by_contra unset
          rw [(itemAt_eq_none_iff shape slot).mpr (by simpa using unset)] at items'
          cases items'
        obtain ⟨shape', -, erased⟩ := eraseItem_spec shape set'
          ((childAt_eq_none_iff shape slot).mp children')
        have replaced := copied.trans erased
        have wf' := wf.replace shape' replaced nofun nofun
        refine ⟨_, _, _, rfl, ⟨wf', ?_, ?_⟩, .inr ⟨rfl, .slot replaced (.inl rfl)⟩⟩
        · apply lookup_replaced wf wf' replaced longer hs
          intro other inside
          rw [items, children]
          by_cases here : other = key
          · simp [findInSlot, here]
          · have apart : item.key ≠ other := fun eq => here (eq.symm.trans same)
            simp [findInSlot, here, apart]
        · rw [lookup_eq wf slotKey, items, children]
          simp [findInSlot, same]
      · rw [if_pos same]
        refine ⟨_, _, _, rfl, Erased.absent wf (fun _ => rfl) ?_, .inl rfl⟩
        rw [lookup_eq wf slotKey, items, children]
        simp [findInSlot, same]
    | child child set clear items children =>
      rw [if_neg (fun taken => by simp [itemTest.mp taken] at clear),
        if_neg (childTest.mpr set)]
      have children' := copied.childAt_slot.trans children
      have set' : node.nodeBitmap.getLsbD slot = true := by
        by_contra unset
        rw [(childAt_eq_none_iff shape slot).mpr (by simpa using unset)] at children'
        cases children'
      obtain ⟨child', freeAddress₂, erased, result, spec, changed⟩ :=
        ih (wf.2.2 slot child children) longer freeAddress₁
      obtain ⟨assignedShape, assigned⟩ := assignNodeBit_spec shape set' child'
      have replaced := copied.trans assigned
      simp only [Option.bind_eq_bind, Option.bind_some, Option.pure_def,
        refNodeBit_of_child hs children', result]
      have inChild : ∀ other, prefixOf hash levels other = pfx * 64 + slot →
          lookup hash levels child'.2 other =
            if other = key then some none
            else findInSlot other levels (nodeItem.2.itemAt slot)
              (nodeItem.2.childAt slot) (remaining hash levels other) := by
        intro other inside
        rw [items, children]
        exact spec.lookups other inside
      have erasedIff : erased = false ↔
          lookup hash (levels + 1) nodeItem.2 key = some none := by
        rw [lookup_eq wf slotKey, items, children]
        exact spec.erased_iff
      have change : ∀ {stored : Option (NodeItem K V)}, stored = none ∨ stored = some child' →
          ∀ {item node'}, Replaces nodeItem.2 node' slot item stored →
          Changed timeline (levels + 1) nodeItem.2 node' := by
        rintro stored (rfl | rfl) item node' replaced
        · exact .slot replaced (.inl rfl)
        · rcases changed with rfl | ⟨made, below⟩
          · exact .slot replaced (.inr children.symm)
          · cases made
            exact .child replaced (.inl ⟨_, children⟩) below
      cases erased with
      | false =>
        have wf' := wf.replace assignedShape replaced nofun (by
          rintro stored ⟨rfl⟩
          exact spec.wellFormed)
        refine ⟨_, _, _, rfl, ⟨wf', ?_, erasedIff⟩, .inr ⟨rfl, change (.inr rfl) replaced⟩⟩
        exact lookup_replaced wf wf' replaced longer hs inChild
      | true =>
        obtain ⟨node', item, stored, shrunk, shape', shrink, isStored, itemOwned, storedWf,
          lookups⟩ := tryShrinkChildNode_spec assignedShape assigned.childAt_slot hs
            spec.wellFormed
        have shrinking := replaced.trans shrink
        have wf' := wf.replace shape' shrinking itemOwned storedWf
        simp only [if_true, shrunk, Option.bind_some]
        refine ⟨_, _, _, rfl, ⟨wf', ?_, erasedIff⟩,
          .inr ⟨rfl, change isStored shrinking⟩⟩
        apply lookup_replaced wf wf' shrinking longer hs
        intro other inside
        rw [lookups other inside]
        exact inChild other inside
    | free clear itemClear items children =>
      rw [if_neg (fun taken => by simp [itemTest.mp taken] at itemClear),
        if_pos (not_not.mp fun taken => by simp [childTest.mp taken] at clear)]
      refine ⟨_, _, _, rfl, Erased.absent wf (fun _ => rfl) ?_, .inl rfl⟩
      rw [lookup_eq wf slotKey, items, children]
      simp [findInSlot]

end Node

end Voxen.Common.V8gHashTrie
