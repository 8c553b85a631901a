import Voxen.Land.StorageTreeNodes

/-!
# Which keys a storage tree node holds

A lookup below a node says for every path whether its key is present.  The laws
stated here for a node type are proved for chunk nodes and carried from a child
type to the duoctree and triquadtree nodes over it, as long as no copied node
has a live key and no child is removed from a node without a free slot.
-/

namespace Voxen.Land.StorageTree

open PackedArray (popcount rank bit)
open PackedSlots (get?)
open StorageTreeUtils

variable {Ctx N C D : Type}

/-- A lookup of the path returns a user data block. -/
def Present (ops : NodeOps Ctx N D) (treePath : BitVec 64) (node : N) : Prop :=
  ∃ data, ops.lookup treePath node = some (some data)

/-- What the laws of a node type speak about.
* `valid` is the invariant of a node;
* `same` says that two paths lead to one key below a node;
* `keepsLiveKeys` says that copying the node loses no live key;
* `removesLast` says that removing the path leaves the node empty;
* `accessSafe` and `removeSafe` say that a call with this path and tick copies
  no node with a live key below this one, and removes no child from a node
  whose slots are all taken. -/
structure NodeView (N : Type) where
  valid : N → Prop
  same : BitVec 64 → BitVec 64 → Prop
  keepsLiveKeys : N → Prop
  removesLast : BitVec 64 → N → Prop
  accessSafe : BitVec 64 → Int → N → Prop
  removeSafe : BitVec 64 → Int → N → Prop

/-- The laws of a node type. -/
structure Lawful (ops : NodeOps Ctx N D) (view : NodeView N) : Prop where
  lookup_defined : ∀ {treePath node}, view.valid node →
    ∃ found, ops.lookup treePath node = some found
  create : ∀ {heap heap' minCoord node}, ops.create heap minCoord = (heap', some node) →
    view.valid node ∧
    (∀ query, Present ops query node → ∀ heap treePath tick, view.same treePath query ∧
      ∃ heap' node' data,
        ops.access heap treePath tick node = some (heap', node', some data)) ∧
    ∀ treePath tick, view.accessSafe treePath tick node
  copy : ∀ {heap heap' node node'}, view.valid node → view.keepsLiveKeys node →
    ops.copy heap node = (heap', some node') →
    view.valid node' ∧
    (∀ query, Present ops query node' ↔ Present ops query node) ∧
    (∀ treePath, view.removesLast treePath node' ↔ view.removesLast treePath node) ∧
    (∀ treePath tick, view.accessSafe treePath tick node →
      view.accessSafe treePath tick node') ∧
    ∀ treePath tick, view.removeSafe treePath tick node →
      view.removeSafe treePath tick node'
  access : ∀ heap {treePath tick node}, view.valid node →
    view.accessSafe treePath tick node →
    ∃ heap' node' result, ops.access heap treePath tick node = some (heap', node', result) ∧
      view.valid node' ∧
      ∀ query, Present ops query node' ↔
        Present ops query node ∨ result.isSome ∧ view.same treePath query
  remove : ∀ heap {treePath tick node}, view.valid node →
    view.removeSafe treePath tick node →
    ∃ heap' node' returned,
      ops.remove heap treePath tick node = some (heap', node', returned) ∧
      view.valid node' ∧
      (returned = true → (ops.empty node' = true ↔ view.removesLast treePath node)) ∧
      (returned = true → ops.empty node' = true →
        ∀ query, Present ops query node → view.same treePath query) ∧
      (¬ (returned = true ∧ ops.empty node' = true) →
        ∀ query, Present ops query node' ↔
          Present ops query node ∧ ¬ (returned = true ∧ view.same treePath query))

/-! ## Chunk nodes -/

def chunkView (D : Type) : NodeView (ChunkNode D) where
  valid _ := True
  same _ _ := True
  keepsLiveKeys _ := True
  removesLast _ _ := True
  accessSafe _ _ _ := True
  removeSafe _ _ _ := True

theorem chunk_present (ctl : StorageTreeControl Ctx D) (query : BitVec 64)
    (node : ChunkNode D) : Present (chunkOps ctl) query node :=
  ⟨node.userData, rfl⟩

theorem chunk_lawful (ctl : StorageTreeControl Ctx D) :
    Lawful (chunkOps ctl) (chunkView D) := by
  refine ⟨?_, ?_, ?_, ?_, ?_⟩
  · exact fun _ => ⟨_, rfl⟩
  · exact fun _ => ⟨trivial, fun _ _ _ _ _ => ⟨trivial, _, _, _, rfl⟩, fun _ _ => trivial⟩
  · intro heap heap' node node' _ _ _
    refine ⟨trivial, fun query => ?_, fun _ => Iff.rfl, fun _ _ _ => trivial,
      fun _ _ _ => trivial⟩
    exact iff_of_true (chunk_present ctl query node') (chunk_present ctl query node)
  · intro heap treePath tick node _ _
    refine ⟨_, _, _, rfl, trivial, fun query => ?_⟩
    have present := chunk_present ctl query node
    exact iff_of_true present (Or.inl present)
  · intro heap treePath tick node _ _
    refine ⟨_, _, _, rfl, trivial, fun _ => Iff.intro (fun _ => trivial) (fun _ => rfl),
      fun _ _ _ _ => trivial, fun absurd => ?_⟩
    exact (absurd ⟨rfl, rfl⟩).elim

/-! ## Child pointers -/

section Items

variable {w : Nat} {child : NodeOps Ctx C D} {view : NodeView C}

/-- Every taken slot holds a pointer to a valid node. -/
def ItemsValid (view : NodeView C) (mask : BitVec w) (storage : Nat → NodePtr C) : Prop :=
  ∀ slot ptr, get? mask storage slot = some ptr → ∃ node, ptr.node = some node ∧ view.valid node

/-- The key of the path is present below the child in a slot. -/
def PresentAt (child : NodeOps Ctx C D) (mask : BitVec w) (storage : Nat → NodePtr C)
    (slot : Nat) (treePath : BitVec 64) : Prop :=
  ∃ ptr node, get? mask storage slot = some ptr ∧ ptr.node = some node ∧
    Present child treePath node

/-- Reaching the node behind a pointer at a tick copies no live key. -/
def CopySafe (view : NodeView C) (tick : Int) (ptr : NodePtr C) (node : C) : Prop :=
  ptr.tick < tick → view.keepsLiveKeys node

def ItemAccessSafe (view : NodeView C) (mask : BitVec w) (storage : Nat → NodePtr C)
    (slot : Nat) (treePath : BitVec 64) (tick : Int) : Prop :=
  ∀ ptr node, get? mask storage slot = some ptr → ptr.node = some node →
    CopySafe view tick ptr node ∧ view.accessSafe treePath tick node

def ItemRemoveSafe (view : NodeView C) (capacity : Nat) (mask : BitVec w)
    (storage : Nat → NodePtr C) (slot : Nat) (treePath : BitVec 64) (tick : Int) : Prop :=
  ∀ ptr node, get? mask storage slot = some ptr → ptr.node = some node →
    CopySafe view tick ptr node ∧ view.removeSafe treePath tick node ∧
    (view.removesLast treePath node → popcount mask < capacity)

variable {mask : BitVec w} {slot : Nat} {storage : Nat → NodePtr C} {node : C} {tick : Int}
  {treePath : BitVec 64}

theorem presentAt_congr {v : Nat} {mask' : BitVec v} {storage' : Nat → NodePtr C} {slot' : Nat}
    (same : get? mask' storage' slot' = get? mask storage slot) (query : BitVec 64) :
    PresentAt child mask' storage' slot' query ↔ PresentAt child mask storage slot query := by
  unfold PresentAt
  rw [same]

theorem moo_spec (laws : Lawful child view) {ptr : NodePtr C} (holds : ptr.node = some node)
    (valid : view.valid node) (safe : CopySafe view tick ptr node) (heap : Heap Ctx) :
    (∃ heap', ptr.moo child heap tick = (heap', ptr, false)) ∨
    ∃ heap' tick' node', ptr.moo child heap tick =
        (heap', { tick := tick', node := some node' }, true) ∧
      view.valid node' ∧
      (∀ query, Present child query node' ↔ Present child query node) ∧
      (∀ treePath, view.removesLast treePath node' ↔ view.removesLast treePath node) ∧
      (∀ treePath, view.accessSafe treePath tick node →
        view.accessSafe treePath tick node') ∧
      ∀ treePath, view.removeSafe treePath tick node →
        view.removeSafe treePath tick node' := by
  obtain ⟨oldTick, oldNode⟩ := ptr
  dsimp only at holds
  subst holds
  unfold NodePtr.moo
  by_cases recent : oldTick ≥ tick
  · right
    rw [if_pos recent]
    exact ⟨heap, oldTick, node, rfl, valid, fun _ => Iff.rfl, fun _ => Iff.rfl,
      fun _ safe => safe, fun _ safe => safe⟩
  · rw [if_neg recent]
    rcases copied : child.copy heap node with ⟨heap', _ | node'⟩
    · left
      refine ⟨heap', ?_⟩
      simp only [copied]
    · right
      obtain ⟨valid', present, last, access, remove⟩ :=
        laws.copy valid (safe (Int.not_le.mp recent)) copied
      refine ⟨heap', tick, node', ?_, valid', present, last, fun treePath => access treePath tick,
        fun treePath => remove treePath tick⟩
      simp only [copied]

theorem accessThrough_spec (laws : Lawful child view) (valid : view.valid node)
    (safe : view.accessSafe treePath tick node) (heap : Heap Ctx) (storage : Nat → NodePtr C)
    (storageIndex : Nat) (ptrTick : Int) :
    ∃ heap' node' result,
      accessThrough child heap treePath tick storage storageIndex
          { tick := ptrTick, node := some node } =
        some (heap', Function.update storage storageIndex
          { tick := ptrTick, node := some node' }, result) ∧
      view.valid node' ∧
      ∀ query, Present child query node' ↔
        Present child query node ∨ result.isSome ∧ view.same treePath query := by
  obtain ⟨heap', node', result, outcome, valid', present⟩ := laws.access heap valid safe
  refine ⟨heap', node', result, ?_, valid', present⟩
  simp only [accessThrough, Option.bind_eq_bind, Option.bind_some, outcome, Option.pure_def]

/-- After a slot was given a pointer to `node`, it holds what is below `node`. -/
theorem presentAt_of_slot {ptr : NodePtr C} (holds : get? mask storage slot = some ptr)
    (points : ptr.node = some node) (query : BitVec 64) :
    PresentAt child mask storage slot query ↔ Present child query node := by
  constructor
  · rintro ⟨ptr', node', holds', points', present⟩
    rw [holds] at holds'
    cases holds'
    rw [points] at points'
    cases points'
    exact present
  · exact fun present => ⟨ptr, node, holds, points, present⟩

theorem not_presentAt_of_clear (clear : get? mask storage slot = none) (query : BitVec 64) :
    ¬ PresentAt child mask storage slot query := by
  rintro ⟨ptr, node, holds, -, -⟩
  rw [clear] at holds
  cases holds

/-- The items stay valid if one slot changes and holds a valid node after that. -/
theorem ItemsValid.replace {mask' : BitVec w} {storage' : Nat → NodePtr C}
    (valid : ItemsValid view mask storage) (slot : Nat)
    (others : ∀ other, other ≠ slot → get? mask' storage' other = get? mask storage other)
    (atSlot : ∀ ptr, get? mask' storage' slot = some ptr →
      ∃ node, ptr.node = some node ∧ view.valid node) :
    ItemsValid view mask' storage' := by
  intro other ptr holds
  by_cases same : other = slot
  · rw [same] at holds
    exact atSlot ptr holds
  · rw [others other same] at holds
    exact valid other ptr holds

/-- What `accessItem` does to the slots: the key of the path is present below the
selected slot if the call returns, and nothing else changes. -/
theorem accessItem_spec (laws : Lawful child view) {capacity : Nat} (hs : slot < w)
    (valid : ItemsValid view mask storage)
    (safe : ItemAccessSafe view mask storage slot treePath tick)
    (room : mask.getLsbD slot = false → popcount mask < capacity) (heap : Heap Ctx)
    (minCoord : IVec3) :
    ∃ heap' storage' set result,
      accessItem child capacity heap treePath tick minCoord storage (rank mask slot)
          (popcount mask - rank mask slot) (mask.getLsbD slot) =
        some (heap', storage', set, result) ∧
      ∃ mask', mask' = (if set then mask ||| bit w slot else mask) ∧
        ItemsValid view mask' storage' ∧
        (∀ other, other ≠ slot → get? mask' storage' other = get? mask storage other) ∧
        ∀ query, PresentAt child mask' storage' slot query ↔
          PresentAt child mask storage slot query ∨
            result.isSome ∧ view.same treePath query := by
  unfold accessItem
  cases present : mask.getLsbD slot with
  | true =>
    have holds := PackedSlots.get?_of_set present storage
    obtain ⟨node, points, nodeValid⟩ := valid slot _ holds
    obtain ⟨copySafe, accessSafe⟩ := safe _ _ holds points
    rw [if_pos rfl]
    rcases moo_spec laws points nodeValid copySafe heap with
      ⟨heap', thrown⟩ | ⟨heap₁, tick', node₁, copied, valid₁, same₁, -, safe₁, -⟩
    · simp only [thrown]
      refine ⟨_, _, _, _, rfl, mask, ?_, valid, fun _ _ => rfl, fun query => ?_⟩
      · rw [if_pos rfl, PackedArray.or_bit_of_set present]
      · simp
    · obtain ⟨heap', node', result, outcome, valid', present'⟩ :=
        accessThrough_spec laws valid₁ (safe₁ treePath accessSafe) heap₁ storage
          (rank mask slot) tick'
      simp only [copied, Option.bind_eq_bind, outcome, Option.bind_some, Option.pure_def]
      have others := PackedSlots.get?_update present storage
        ({ tick := tick', node := some node' } : NodePtr C)
      have atSlot := others slot
      rw [if_pos rfl] at atSlot
      have elsewhere : ∀ other, other ≠ slot → get? mask (Function.update storage
          (rank mask slot) { tick := tick', node := some node' }) other =
          get? mask storage other := fun other differ => by rw [others, if_neg differ]
      refine ⟨_, _, _, _, rfl, mask, ?_, ?_, elsewhere, fun query => ?_⟩
      · rw [if_pos rfl, PackedArray.or_bit_of_set present]
      · refine valid.replace slot elsewhere ?_
        intro ptr held
        rw [atSlot] at held
        cases held
        exact ⟨node', rfl, valid'⟩
      · rw [presentAt_of_slot atSlot rfl, presentAt_of_slot holds points, present', same₁]
  | false =>
    have clear := PackedSlots.get?_of_clear present storage
    have below := PackedArray.rank_le_popcount mask (Nat.le_of_lt hs)
    have inside : rank mask slot + (popcount mask - rank mask slot) < capacity := by
      rw [Nat.add_sub_cancel' below]
      exact room present
    rw [if_neg Bool.false_ne_true]
    simp only [constructItem, if_pos inside, Option.bind_eq_bind, Option.bind_some,
      NodePtr.init]
    rcases created : child.create heap minCoord with ⟨heap₁, _ | node⟩
    · -- the constructor threw, the opened gap is closed again
      have restored := PackedSlots.get?_closeGap_openGap mask hs storage ({} : NodePtr C)
      simp only [removeItem, if_pos inside, Option.bind_some, Option.pure_def]
      refine ⟨_, _, _, _, rfl, mask, rfl, ?_, fun other _ => restored _ other, fun query => ?_⟩
      · exact valid.replace slot (fun other _ => restored _ other) fun ptr held =>
          valid slot ptr ((restored _ slot).symm.trans held)
      · rw [presentAt_congr (restored _ slot)]
        simp
    · obtain ⟨nodeValid, fresh, accessSafe⟩ := laws.create created
      obtain ⟨heap', node', result, outcome, valid', present'⟩ :=
        accessThrough_spec laws nodeValid (accessSafe treePath tick) heap₁
          (PackedSlots.openGap storage (rank mask slot) (popcount mask - rank mask slot) {})
          (rank mask slot) tick
      simp only [outcome, Option.bind_some, Option.pure_def]
      have filled := PackedSlots.get?_update_openGap hs present storage ({} : NodePtr C)
        { tick := tick, node := some node' }
      have atSlot := filled slot
      rw [if_pos rfl] at atSlot
      refine ⟨_, _, _, _, rfl, mask ||| bit w slot, rfl, ?_, ?_, fun query => ?_⟩
      · refine valid.replace slot (fun other differ => ?_) fun ptr held => ?_
        · rw [filled, if_neg differ]
        · rw [atSlot] at held
          cases held
          exact ⟨node', rfl, valid'⟩
      · intro other differ
        rw [filled, if_neg differ]
      · rw [presentAt_of_slot atSlot rfl, present']
        have absent : ¬ PresentAt child mask storage slot query :=
          not_presentAt_of_clear clear query
        -- only a chunk node is there from its creation on, and its access returns
        have immediate : Present child query node →
            result.isSome = true ∧ view.same treePath query := by
          intro there
          obtain ⟨same, heap₂, node₂, data, returned⟩ := fresh query there heap₁ treePath tick
          simp only [accessThrough, Option.bind_eq_bind, Option.bind_some, returned,
            Option.pure_def, Option.some.injEq, Prod.mk.injEq] at outcome
          rw [← outcome.2.2]
          exact ⟨rfl, same⟩
        constructor
        · rintro (there | accessed)
          · exact Or.inr (immediate there)
          · exact Or.inr accessed
        · rintro (there | accessed)
          · exact absurd there absent
          · exact Or.inr accessed

/-- What `removeBelowItem` does to the slots: the key of the path is not present
below the selected slot any more if the call returns, and nothing else changes. -/
theorem removeBelowItem_spec (laws : Lawful child view) {capacity : Nat}
    (set : mask.getLsbD slot = true) (valid : ItemsValid view mask storage)
    (safe : ItemRemoveSafe view capacity mask storage slot treePath tick) (heap : Heap Ctx) :
    ∃ heap' storage' removed returned,
      removeBelowItem child capacity heap treePath tick storage (rank mask slot)
          (popcount mask - rank mask slot) =
        some (heap', storage', removed, returned) ∧
      ∃ mask', mask' = (if removed then mask ^^^ bit w slot else mask) ∧
        ItemsValid view mask' storage' ∧
        (∀ other, other ≠ slot → get? mask' storage' other = get? mask storage other) ∧
        (∀ query, PresentAt child mask' storage' slot query ↔
          PresentAt child mask storage slot query ∧
            ¬ (returned = true ∧ view.same treePath query)) ∧
        (returned = true → ∃ ptr node, get? mask storage slot = some ptr ∧
          ptr.node = some node ∧ (removed = true ↔ view.removesLast treePath node)) := by
  have holds := PackedSlots.get?_of_set set storage
  obtain ⟨node, points, nodeValid⟩ := valid slot _ holds
  obtain ⟨copySafe, removeSafe, room⟩ := safe _ _ holds points
  unfold removeBelowItem
  rcases moo_spec laws points nodeValid copySafe heap with
    ⟨heap', thrown⟩ | ⟨heap₁, tick', node₁, copied, valid₁, same₁, last₁, -, safe₁⟩
  · simp only [thrown]
    refine ⟨_, _, _, _, rfl, mask, rfl, valid, fun _ _ => rfl, fun query => ?_, nofun⟩
    simp
  · obtain ⟨heap', node', returned, outcome, valid', emptyIff, whenEmpty, otherwise⟩ :=
      laws.remove heap₁ valid₁ (safe₁ treePath removeSafe)
    simp only [copied, Option.bind_eq_bind, Option.bind_some, outcome]
    by_cases emptied : returned = true ∧ child.empty node' = true
    · -- the child is removed together with its last key
      have last := (last₁ treePath).mp ((emptyIff emptied.1).mp emptied.2)
      have below := PackedArray.rank_lt_popcount set
      have inside : rank mask slot + (popcount mask - rank mask slot) < capacity := by
        rw [Nat.add_sub_cancel' (Nat.le_of_lt below)]
        exact room last
      have closed := PackedSlots.get?_closeGap_update set storage
        (NodePtr.reset { tick := tick', node := some node' })
      have atSlot := closed slot
      rw [if_pos rfl] at atSlot
      rw [if_pos emptied]
      simp only [removeItem, if_pos inside, Option.bind_some, Option.pure_def]
      refine ⟨_, _, _, _, rfl, mask ^^^ bit w slot, rfl, ?_, ?_, fun query => ?_, ?_⟩
      · refine valid.replace slot (fun other differ => ?_) fun ptr held => ?_
        · rw [closed, if_neg differ]
        · rw [atSlot] at held
          cases held
      · intro other differ
        rw [closed, if_neg differ]
      · refine iff_of_false (not_presentAt_of_clear atSlot query) ?_
        rintro ⟨there, kept⟩
        rw [presentAt_of_slot holds points, ← same₁] at there
        exact kept ⟨rfl, whenEmpty emptied.1 emptied.2 query there⟩
      · exact fun _ => ⟨_, node, holds, points, iff_of_true rfl last⟩
    · have updated := PackedSlots.get?_update set storage
        ({ tick := tick', node := some node' } : NodePtr C)
      have atSlot := updated slot
      rw [if_pos rfl] at atSlot
      rw [if_neg emptied]
      simp only [Option.pure_def]
      refine ⟨_, _, _, _, rfl, mask, rfl, ?_, ?_, fun query => ?_, ?_⟩
      · refine valid.replace slot (fun other differ => ?_) fun ptr held => ?_
        · rw [updated, if_neg differ]
        · rw [atSlot] at held
          cases held
          exact ⟨node', rfl, valid'⟩
      · intro other differ
        rw [updated, if_neg differ]
      · rw [presentAt_of_slot atSlot rfl, presentAt_of_slot holds points, otherwise emptied,
          same₁]
      · intro normal
        refine ⟨_, node, holds, points, ?_⟩
        rw [← last₁ treePath, ← emptyIff normal]
        exact iff_of_false Bool.false_ne_true fun empty => emptied ⟨normal, empty⟩

end Items

end Voxen.Land.StorageTree
