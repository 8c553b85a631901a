import Voxen.Land.StorageTreeSlots

/-!
# What a removal leaves alone

A removal is compared with one that may only touch slots with constructed pointers.  Both do
the same, and leave all other keys with their blocks and all other child pointers as they were,
as long as no copied node loses another key and no child is taken out of its node: the count of
pointers to move then includes the one that is taken out.
-/

namespace Voxen.Land.StorageTree

open PackedArray (popcount rank bit)
open PackedSlots (get? Filled)
open StorageTreeUtils

variable {Ctx N C D : Type}

/-! ## Removals that touch constructed pointers only -/

/-- `DuoctreeNodeBase::remove`, undefined where it touches a slot without a constructed pointer. -/
def DuoctreeNode.removeConstructed (child : NodeOps Ctx C D) (level : Nat) (heap : Heap Ctx)
    (treePath : BitVec 64) (tick : Int) (node : DuoctreeNode C D) :
    Option (Heap Ctx × DuoctreeNode C D × Bool) :=
  let component := extractNodePathComponent level treePath
  let childBit := extractNodePathChildBit component
  if extractNodePathStopBit component then
    let mask := node.liveKeyMask &&& ~~~(extractNodeKeyMaskBit treePath component)
    some (heap, { node with liveKeyMask := mask }, true)
  else if node.childMask &&& childBit = 0#64 then
    some (heap, node, true)
  else do
    let (heap, storage, removed, returned) ←
      removeBelowItem child (popcount node.childMask) heap treePath tick node.storage
        (node.storageIndex childBit) (node.afterCount childBit)
    let mask := if removed then node.childMask ^^^ childBit else node.childMask
    return (heap, { node with storage := storage, childMask := mask }, returned)

/-- `TriquadtreeNodeBase::remove`, undefined where it touches a slot without a constructed
pointer. -/
def TriquadtreeNode.removeConstructed (child : NodeOps Ctx C D) (hilo : Bool) (level : Nat)
    (heap : Heap Ctx) (treePath : BitVec 64) (tick : Int) (node : TriquadtreeNode C) :
    Option (Heap Ctx × TriquadtreeNode C × Bool) :=
  let component := extractNodePathComponent level treePath
  let childBit := extractNodePathChildBit component
  let high := hilo && triquadtreeYNegative component
  if node.mask high &&& childBit = 0#64 then
    some (heap, node, true)
  else do
    let (heap, storage, removed, returned) ←
      removeBelowItem child (popcount node.childMask + popcount node.childMaskHigh) heap treePath
        tick node.storage (node.storageIndex high childBit) (node.afterCount hilo high childBit)
    let mask := if removed then node.mask high ^^^ childBit else node.mask high
    return (heap, { node.setMask high mask with storage := storage }, returned)

section Constructed

variable (ctl : StorageTreeControl Ctx D)

def duoctreeX4Constructed : NodeOps Ctx (DuoctreeX4Node D) D :=
  { duoctreeX4Ops ctl with remove := DuoctreeNode.removeConstructed (chunkOps ctl) 1 }
def duoctreeX16Constructed : NodeOps Ctx (DuoctreeX16Node D) D :=
  { duoctreeX16Ops ctl with remove := DuoctreeNode.removeConstructed (duoctreeX4Constructed ctl) 2 }
def duoctreeX64Constructed : NodeOps Ctx (DuoctreeX64Node D) D :=
  { duoctreeX64Ops ctl with
    remove := DuoctreeNode.removeConstructed (duoctreeX16Constructed ctl) 3 }
def duoctreeX256Constructed : NodeOps Ctx (DuoctreeX256Node D) D :=
  { duoctreeX256Ops ctl with
    remove := DuoctreeNode.removeConstructed (duoctreeX64Constructed ctl) 4 }
def triquadtreeBridgeConstructed : NodeOps Ctx (TriquadtreeBridgeNode D) D :=
  { triquadtreeBridgeOps ctl with
    remove := TriquadtreeNode.removeConstructed (duoctreeX256Constructed ctl) true 5 }
def triquadtreeRootConstructed : NodeOps Ctx (TriquadtreeRootNode D) D :=
  { triquadtreeRootOps ctl with
    remove := TriquadtreeNode.removeConstructed (triquadtreeBridgeConstructed ctl) false 6 }

end Constructed

/-- `StorageTree::remove` over these removals. -/
def removeConstructed (ctl : StorageTreeControl Ctx D) (heap : Heap Ctx) (treePath : BitVec 64)
    (tick : Int) (tree : StorageTree D) : Option (Heap Ctx × StorageTree D × Bool) :=
  let index := rootIndex treePath
  if index < numRootItems then
    let rootItem := tree.rootItems index
    let ops := triquadtreeRootConstructed ctl
    if rootItem.node.isNone then
      some (heap, tree, true)
    else
      match rootItem.moo ops heap tick with
      | (heap, rootItem, false) => some (heap, tree.setRootItem index rootItem, false)
      | (heap, rootItem, true) => do
          let node ← rootItem.node
          let (heap, node, returned) ← ops.remove heap treePath tick node
          let rootItem := { rootItem with node := some node }
          let rootItem := if returned ∧ ops.empty node then rootItem.reset else rootItem
          return (heap, tree.setRootItem index rootItem, returned)
  else none

/-! ## What the removal laws speak about -/

/-- What the removal laws of a node type speak about.
* `copyKeeps` says that a copy of the node loses no live key but that of the path;
* `keeps` says that a removal of the path with this tick copies no node below that loses
  another key, and takes no child out of this node or of one below;
* `stays` says that the removal does not leave the node empty;
* `frame` says that two nodes have the same child pointers, the one on the path apart, which
  points to nodes in the same relation. -/
structure RemoveView (N : Type) where
  copyKeeps : BitVec 64 → N → Prop
  keeps : BitVec 64 → Int → N → Prop
  stays : BitVec 64 → N → Prop
  frame : BitVec 64 → N → N → Prop

/-- The removal below `ready`, which is `node` or a copy of it, touches constructed pointers
only and leaves other keys and child pointers alone. -/
def RemovesOnly (ops : NodeOps Ctx N D)
    (constructed : Heap Ctx → BitVec 64 → Int → N → Option (Heap Ctx × N × Bool))
    (keys : NodeView N) (view : RemoveView N) (treePath : BitVec 64) (tick : Int) (node : N)
    (heap : Heap Ctx) (ready : N) : Prop :=
  ∃ heap' node' returned, ops.remove heap treePath tick ready = some (heap', node', returned) ∧
    constructed heap treePath tick ready = some (heap', node', returned) ∧
    (view.stays treePath node → ops.empty node' = false) ∧
    view.frame treePath node node' ∧
    ∀ query, ¬ (returned = true ∧ keys.same treePath query) →
      ops.lookup query node' = ops.lookup query node

structure RemoveLaws (ops : NodeOps Ctx N D)
    (constructed : Heap Ctx → BitVec 64 → Int → N → Option (Heap Ctx × N × Bool))
    (agrees : N → Prop) (keys : NodeView N) (view : RemoveView N) : Prop where
  frame_refl : ∀ treePath node, agrees node → view.frame treePath node node
  held : ∀ heap {treePath tick node}, agrees node → view.keeps treePath tick node →
    RemovesOnly ops constructed keys view treePath tick node heap node
  copied : ∀ {heap heap₁ treePath tick node made}, agrees node → view.copyKeeps treePath node →
    view.keeps treePath tick node → ops.copy heap node = (heap₁, some made) →
    RemovesOnly ops constructed keys view treePath tick node heap₁ made

/-! ## Child pointers -/

/-- What a lookup finds through a slot. -/
def lookupAt {w : Nat} (child : NodeOps Ctx C D) (mask : BitVec w) (storage : Nat → NodePtr C)
    (slot : Nat) (query : BitVec 64) : Option (Option D) :=
  match get? mask storage slot with
  | none => some none
  | some ptr => lookupThrough child query ptr

/-- All slots hold the same pointers, the given one apart, whose nodes are in the relation. -/
def SlotsFrame {w : Nat} (frame : C → C → Prop) (slot : Nat) (mask : BitVec w)
    (storage storage' : Nat → NodePtr C) : Prop :=
  (∀ other, other ≠ slot → get? mask storage' other = get? mask storage other) ∧
  ∀ ptr node, get? mask storage slot = some ptr → ptr.node = some node →
    ∃ ptr' node', get? mask storage' slot = some ptr' ∧ ptr'.node = some node' ∧ frame node node'

section Items

variable {w : Nat} {child : NodeOps Ctx C D}
  {constructed : Heap Ctx → BitVec 64 → Int → C → Option (Heap Ctx × C × Bool)}
  {agrees : C → Prop} {keys : NodeView C} {view : RemoveView C}

/-- The child on the path keeps all other keys and is not taken out. -/
def ItemRemoveKeeps (view : RemoveView C) (mask : BitVec w) (storage : Nat → NodePtr C)
    (slot : Nat) (treePath : BitVec 64) (tick : Int) : Prop :=
  ∀ ptr node, get? mask storage slot = some ptr → ptr.node = some node →
    (ptr.tick < tick → view.copyKeeps treePath node) ∧ view.keeps treePath tick node ∧
      view.stays treePath node

variable {mask : BitVec w} {storage : Nat → NodePtr C}

theorem SlotsFrame.refl (agree : ItemsAgree agrees mask storage) {frame : C → C → Prop}
    (refl : ∀ node, agrees node → frame node node) (slot : Nat) :
    SlotsFrame frame slot mask storage storage :=
  ⟨fun _ _ => rfl, fun ptr node holds points =>
    ⟨ptr, node, holds, points, refl node (agree.below slot ptr node holds points)⟩⟩

theorem SlotsFrame.congr {frame : C → C → Prop} {slot : Nat} {copied storage' : Nat → NodePtr C}
    (framed : SlotsFrame frame slot mask copied storage')
    (same : ∀ slot, get? mask copied slot = get? mask storage slot) :
    SlotsFrame frame slot mask storage storage' :=
  ⟨fun other differ => (framed.1 other differ).trans (same other),
    fun ptr node holds => framed.2 ptr node ((same slot).trans holds)⟩

theorem removeBelowItem_removesOnly (laws : RemoveLaws child constructed agrees keys view)
    {slot : Nat} (present : mask.getLsbD slot = true) (agree : ItemsAgree agrees mask storage)
    {treePath : BitVec 64} {tick : Int}
    (keeps : ItemRemoveKeeps view mask storage slot treePath tick) (heap : Heap Ctx) :
    ∃ heap' storage' returned,
      (∀ capacity, removeBelowItem child capacity heap treePath tick storage (rank mask slot)
        (popcount mask - rank mask slot) = some (heap', storage', false, returned)) ∧
      (∀ capacity, removeBelowItem { child with remove := constructed } capacity heap treePath tick
        storage (rank mask slot) (popcount mask - rank mask slot) =
          some (heap', storage', false, returned)) ∧
      SlotsFrame (view.frame treePath) slot mask storage storage' ∧
      ∀ other query, (other = slot → ¬ (returned = true ∧ keys.same treePath query)) →
        lookupAt child mask storage' other query = lookupAt child mask storage other query := by
  have holds := PackedSlots.get?_of_set present storage
  obtain ⟨node, points⟩ := agree.points slot _ holds
  obtain ⟨copyKeeps, nodeKeeps, stays⟩ := keeps _ _ holds points
  have nodeAgrees := agree.below slot _ _ holds points
  rcases moved : (storage (rank mask slot)).moo child heap tick with ⟨heap₁, ptr, done⟩
  have movedToo : (storage (rank mask slot)).moo { child with remove := constructed } heap tick =
      (heap₁, ptr, done) := moved
  obtain ⟨made, prepared, outcome⟩ := moo_cases ⟨node, points⟩ moved ⟨0, 0, 0⟩
  cases made with
  | none =>
    obtain ⟨rfl, rfl⟩ := outcome
    refine ⟨heap₁, storage, false, fun capacity => ?_, fun capacity => ?_,
      SlotsFrame.refl agree (fun node => laws.frame_refl treePath node) slot, fun _ _ _ => rfl⟩
    · simp only [removeBelowItem, moved]
    · simp only [removeBelowItem, movedToo]
  | some ready =>
    obtain ⟨pointsReady, rfl⟩ := outcome
    have only : RemovesOnly child constructed keys view treePath tick node heap₁ ready := by
      generalize storage (rank mask slot) = item at prepared points copyKeeps
      cases prepared with
      | recent points' recent =>
        cases points.symm.trans points'
        exact laws.held heap nodeAgrees nodeKeeps
      | copied points' stale copied =>
        cases points.symm.trans points'
        exact laws.copied nodeAgrees (copyKeeps stale) nodeKeeps copied
    obtain ⟨heap', node', returned, called, calledToo, nonempty, framed, finds⟩ := only
    have kept : ¬ (returned = true ∧ child.empty node' = true) := by
      rw [nonempty stays]
      exact fun both => Bool.false_ne_true both.2
    have updated := PackedSlots.get?_update present storage
      ({ ptr with node := some node' } : NodePtr C)
    refine ⟨heap', Function.update storage (rank mask slot) { ptr with node := some node' },
      returned, fun capacity => ?_, fun capacity => ?_, ⟨fun other differ => ?_, ?_⟩,
      fun other query free => ?_⟩
    · simp only [removeBelowItem, moved, pointsReady, called, Option.bind_eq_bind,
        Option.bind_some, if_neg kept, Option.pure_def]
    · simp only [removeBelowItem, movedToo, pointsReady, calledToo, Option.bind_eq_bind,
        Option.bind_some, if_neg kept, Option.pure_def]
    · rw [updated, if_neg differ]
    · intro held own holds' points'
      cases holds.symm.trans holds'
      cases points.symm.trans points'
      exact ⟨_, node', by rw [updated, if_pos rfl], rfl, framed⟩
    · unfold lookupAt
      rw [updated]
      by_cases same : other = slot
      · subst same
        rw [if_pos rfl, holds]
        simp only [lookupThrough, points, Option.bind_eq_bind, Option.bind_some]
        exact finds query (free rfl)
      · rw [if_neg same]

end Items

/-- A chunk node is always removed with its key. -/
def chunkRemoveView (D : Type) : RemoveView (ChunkNode D) where
  copyKeeps _ _ := True
  keeps _ _ _ := True
  stays _ _ := False
  frame _ _ _ := True

theorem chunk_removeLaws (ctl : StorageTreeControl Ctx D) :
    RemoveLaws (chunkOps ctl) (chunkOps ctl).remove (fun _ => True) (chunkView D)
      (chunkRemoveView D) := by
  refine ⟨fun _ _ _ => trivial, fun heap treePath tick node _ _ => ?_, ?_⟩
  · exact ⟨heap, node, true, rfl, rfl, nofun, trivial,
      fun query free => absurd ⟨rfl, trivial⟩ free⟩
  · intro heap heap₁ treePath tick node made _ _ _ _
    exact ⟨heap₁, made, true, rfl, rfl, nofun, trivial,
      fun query free => absurd ⟨rfl, trivial⟩ free⟩

/-! ## Duoctree nodes -/

section Duoctree

variable {level : Nat} {child : NodeOps Ctx C D}
  {constructed : Heap Ctx → BitVec 64 → Int → C → Option (Heap Ctx × C × Bool)}
  {agrees : C → Prop} {keys : NodeView C} {view : RemoveView C}

def duoctreeRemoveView (level : Nat) (view : RemoveView C) : RemoveView (DuoctreeNode C D) where
  copyKeeps treePath node :=
    if pathStop level treePath then
      node.liveKeyMask &&& ~~~(bit 32 (keyIndex level treePath)) = 0#32
    else node.liveKeyMask = 0#32
  keeps treePath tick node := pathStop level treePath = false →
    ItemRemoveKeeps view node.childMask node.storage (pathSlot level treePath) treePath tick
  stays treePath node :=
    if pathStop level treePath then
      ¬ (node.liveKeyMask &&& ~~~(bit 32 (keyIndex level treePath)) = 0#32 ∧
        node.childMask = 0#64)
    else ¬ (node.liveKeyMask = 0#32 ∧ node.childMask = 0#64)
  frame treePath node node' := node'.childMask = node.childMask ∧
    if pathStop level treePath then
      ∀ slot, get? node.childMask node'.storage slot = get? node.childMask node.storage slot
    else SlotsFrame (view.frame treePath) (pathSlot level treePath) node.childMask node.storage
      node'.storage

theorem DuoctreeNode.removeConstructed_eq (heap : Heap Ctx) (treePath : BitVec 64) (tick : Int)
    (node : DuoctreeNode C D) :
    node.removeConstructed child level heap treePath tick =
      if pathStop level treePath then
        some (heap, { node with
          liveKeyMask := node.liveKeyMask &&& ~~~bit 32 (keyIndex level treePath) }, true)
      else if node.childMask.getLsbD (pathSlot level treePath) = false then
        some (heap, node, true)
      else
        (removeBelowItem child (popcount node.childMask) heap treePath tick node.storage
          (rank node.childMask (pathSlot level treePath))
          (popcount node.childMask - rank node.childMask (pathSlot level treePath))).bind
        fun (heap, storage, removed, returned) =>
          some (heap, { node with
            storage := storage,
            childMask := (if removed then node.childMask ^^^ bit 64 (pathSlot level treePath)
              else node.childMask) }, returned) := by
  have low := pathSlot_lt level treePath
  unfold DuoctreeNode.removeConstructed
  simp only [childBit_eq, keyMaskBit_eq, PackedArray.and_bit_eq_zero, storageIndex, afterCount,
    PackedArray.popcount_and_below _ low, PackedArray.popcount_and_above _ low]
  rfl

theorem DuoctreeNode.lookup_eq_lookupAt (query : BitVec 64) (node : DuoctreeNode C D) :
    node.lookup child level query =
      if pathStop level query then
        if node.liveKeyMask.getLsbD (keyIndex level query) then some (some node.userData)
        else some none
      else lookupAt child node.childMask node.storage (pathSlot level query) query :=
  DuoctreeNode.lookup_eq query node

theorem getLsbD_removed_key {treePath query : BitVec 64} (mask : BitVec 32)
    (stop : pathStop level treePath = true) (stopQuery : pathStop level query = true)
    (free : ¬ (true = true ∧ DuoctreeSame level keys treePath query)) :
    (mask &&& ~~~(bit 32 (keyIndex level treePath))).getLsbD (keyIndex level query) =
      mask.getLsbD (keyIndex level query) := by
  have differ : keyIndex level treePath ≠ keyIndex level query := fun same =>
    free ⟨rfl, Or.inl ⟨stop, stopQuery, same⟩⟩
  rw [PackedArray.getLsbD_and_not_bit _ (keyIndex_lt level treePath)]
  simp [differ]

theorem duoctree_removesOnly_held (ctl : StorageTreeControl Ctx D)
    (laws : RemoveLaws child constructed agrees keys view) (heap : Heap Ctx)
    {treePath : BitVec 64} {tick : Int} {node : DuoctreeNode C D}
    (agree : DuoctreeAgrees agrees node)
    (keeps : (duoctreeRemoveView level view).keeps treePath tick node) :
    RemovesOnly (duoctreeOps ctl level child)
      (DuoctreeNode.removeConstructed { child with remove := constructed } level)
      (duoctreeView level keys) (duoctreeRemoveView level view) treePath tick node heap node := by
  unfold RemovesOnly
  change ∃ heap' node' returned,
    node.remove child level heap treePath tick = some (heap', node', returned) ∧
    node.removeConstructed { child with remove := constructed } level heap treePath tick =
      some (heap', node', returned) ∧
    _ ∧ _ ∧ ∀ query, _ → node'.lookup child level query = node.lookup child level query
  rw [DuoctreeNode.remove_eq, DuoctreeNode.removeConstructed_eq]
  cases stop : pathStop level treePath with
  | true =>
    refine ⟨heap, { node with
      liveKeyMask := node.liveKeyMask &&& ~~~bit 32 (keyIndex level treePath) }, true,
      if_pos rfl, if_pos rfl, ?_, ⟨rfl, ?_⟩, ?_⟩
    · intro stays
      change ite _ _ _ at stays
      rw [stop, if_pos rfl] at stays
      exact decide_eq_false stays
    · rw [stop, if_pos rfl]
      exact fun _ => rfl
    · intro query free
      rw [DuoctreeNode.lookup_eq_lookupAt, DuoctreeNode.lookup_eq_lookupAt]
      cases stopQuery : pathStop level query with
      | true => rw [if_pos rfl, if_pos rfl, getLsbD_removed_key _ stop stopQuery free]
      | false => rfl
  | false =>
    have unstopped : ∀ node' : DuoctreeNode C D, node'.liveKeyMask = node.liveKeyMask →
        node'.childMask = node.childMask →
        (duoctreeRemoveView level view).stays treePath node → node'.empty = false := by
      intro node' liveKeys children stays
      change ite _ _ _ at stays
      rw [stop, if_neg Bool.false_ne_true] at stays
      unfold DuoctreeNode.empty
      rw [liveKeys, children]
      exact decide_eq_false stays
    cases present : node.childMask.getLsbD (pathSlot level treePath) with
    | false =>
      refine ⟨heap, node, true, rfl, rfl, unstopped node rfl rfl, ⟨rfl, ?_⟩, fun _ _ => rfl⟩
      rw [stop, if_neg Bool.false_ne_true]
      exact SlotsFrame.refl agree (fun node => laws.frame_refl treePath node) _
    | true =>
      obtain ⟨heap', storage', returned, removes, removesToo, framed, finds⟩ :=
        removeBelowItem_removesOnly laws present agree (keeps stop) heap
      refine ⟨heap', { node with storage := storage' }, returned, ?_, ?_,
        unstopped _ rfl rfl, ⟨rfl, ?_⟩, ?_⟩
      · rw [if_neg Bool.false_ne_true, if_neg (by simp), removes]
        rfl
      · rw [if_neg Bool.false_ne_true, if_neg (by simp), removesToo]
        rfl
      · rw [stop, if_neg Bool.false_ne_true]
        exact framed
      · intro query free
        rw [DuoctreeNode.lookup_eq_lookupAt, DuoctreeNode.lookup_eq_lookupAt]
        cases stopQuery : pathStop level query with
        | true => rfl
        | false =>
          rw [if_neg Bool.false_ne_true, if_neg Bool.false_ne_true]
          exact finds _ query fun here both =>
            free ⟨both.1, Or.inr ⟨stop, stopQuery, here.symm, both.2⟩⟩

theorem duoctree_removeLaws (ctl : StorageTreeControl Ctx D) (keepsAgree : AgreeLaws child agrees)
    (laws : RemoveLaws child constructed agrees keys view) :
    RemoveLaws (duoctreeOps ctl level child)
      (DuoctreeNode.removeConstructed { child with remove := constructed } level)
      (DuoctreeAgrees agrees) (duoctreeView level keys) (duoctreeRemoveView level view) := by
  refine ⟨fun treePath node agree => ⟨rfl, ?_⟩, fun heap treePath tick node agree keeps =>
    duoctree_removesOnly_held ctl laws heap agree keeps, ?_⟩
  · split
    · exact fun _ => rfl
    · exact SlotsFrame.refl agree (fun node => laws.frame_refl treePath node) _
  · intro heap heap₁ treePath tick node made agree copyKeeps keeps copied
    have madeAgrees := (duoctree_agreeLaws ctl keepsAgree).copy agree copied
    obtain ⟨data, rfl⟩ := duoctree_copy copied
    have same := get?_copyNode heap.freeAddress data node
    have madeKeeps : (duoctreeRemoveView level view).keeps treePath tick
        (node.copyNode heap.freeAddress data) := fun goesOn ptr held holds =>
      keeps goesOn ptr held ((same _).symm.trans holds)
    obtain ⟨heap', node', returned, called, calledToo, nonempty, ⟨children, framed⟩, finds⟩ :=
      duoctree_removesOnly_held ctl laws heap₁ madeAgrees madeKeeps
    change ite _ _ _ at copyKeeps
    refine ⟨heap', node', returned, called, calledToo, fun stays => nonempty ?_,
      ⟨children, ?_⟩, fun query free => (finds query free).trans ?_⟩
    · change ite _ _ _ at stays ⊢
      split
      · rename_i stop
        rw [if_pos stop] at stays copyKeeps
        exact fun both => stays ⟨copyKeeps, both.2⟩
      · rename_i goesOn
        rw [if_neg goesOn] at stays copyKeeps
        exact fun both => stays ⟨copyKeeps, both.2⟩
    · split
      · rename_i stop
        rw [if_pos stop] at framed
        exact fun slot => (framed slot).trans (same slot)
      · rename_i goesOn
        rw [if_neg goesOn] at framed
        exact framed.congr same
    · -- the copy has no live key, and the node has no other one than that of the path
      have noOther : pathStop level query = true →
          node.liveKeyMask.getLsbD (keyIndex level query) = false := by
        intro stopQuery
        cases stop : pathStop level treePath with
        | true =>
          rw [stop, if_pos rfl] at copyKeeps
          change DuoctreeNode.remove child level _ treePath tick _ = _ at called
          rw [DuoctreeNode.remove_eq, if_pos stop] at called
          cases called
          rw [← getLsbD_removed_key _ stop stopQuery free, copyKeeps]
          simp
        | false =>
          rw [stop, if_neg Bool.false_ne_true] at copyKeeps
          rw [copyKeeps]
          simp
      change DuoctreeNode.lookup child level query _ = DuoctreeNode.lookup child level query node
      rw [DuoctreeNode.lookup_eq_lookupAt, DuoctreeNode.lookup_eq_lookupAt]
      split
      · rename_i stopQuery
        rw [noOther stopQuery]
        simp [DuoctreeNode.copyNode]
      · unfold lookupAt
        rw [same]

end Duoctree

/-! ## Triquadtree nodes -/

section Triquadtree

variable {hilo : Bool} {level : Nat} {child : NodeOps Ctx C D}
  {constructed : Heap Ctx → BitVec 64 → Int → C → Option (Heap Ctx × C × Bool)}
  {agrees : C → Prop} {keys : NodeView C} {view : RemoveView C}

def triquadtreeRemoveView (hilo : Bool) (level : Nat) (view : RemoveView C) :
    RemoveView (TriquadtreeNode C) where
  copyKeeps _ _ := True
  keeps treePath tick node :=
    ItemRemoveKeeps view node.wholeMask node.storage (triquadtreeSlot hilo level treePath) treePath
      tick
  stays _ node := node.wholeMask ≠ 0#(64 + 64)
  frame treePath node node' := node'.wholeMask = node.wholeMask ∧
    SlotsFrame (view.frame treePath) (triquadtreeSlot hilo level treePath) node.wholeMask
      node.storage node'.storage

theorem TriquadtreeNode.removeConstructed_eq (heap : Heap Ctx) (treePath : BitVec 64) (tick : Int)
    {node : TriquadtreeNode C} (single : hilo = false → node.childMaskHigh = 0#64) :
    node.removeConstructed child hilo level heap treePath tick =
      if node.wholeMask.getLsbD (triquadtreeSlot hilo level treePath) = false then
        some (heap, node, true)
      else
        (removeBelowItem child (popcount node.wholeMask) heap treePath tick node.storage
          (rank node.wholeMask (triquadtreeSlot hilo level treePath))
          (popcount node.wholeMask -
            rank node.wholeMask (triquadtreeSlot hilo level treePath))).bind
        fun (heap, storage, removed, returned) =>
          some (heap, { node.setMask (pathHigh hilo level treePath)
            (if removed then node.mask (pathHigh hilo level treePath) ^^^
              bit 64 (pathSlot level treePath)
            else node.mask (pathHigh hilo level treePath)) with storage := storage },
            returned) := by
  rw [← afterCount_eq single, ← storageIndex_eq, getLsbD_wholeMask, TriquadtreeNode.wholeMask,
    PackedSlots.popcount_append]
  unfold TriquadtreeNode.removeConstructed
  simp only [childBit_eq, PackedArray.and_bit_eq_zero]
  rfl

theorem TriquadtreeNode.lookup_eq_lookupAt (query : BitVec 64) (node : TriquadtreeNode C) :
    node.lookup child hilo level query =
      lookupAt child node.wholeMask node.storage (triquadtreeSlot hilo level query) query :=
  TriquadtreeNode.lookup_eq query node

theorem triquadtree_removesOnly_held
    (laws : RemoveLaws child constructed agrees keys view) (heap : Heap Ctx)
    {treePath : BitVec 64} {tick : Int} {node : TriquadtreeNode C}
    (agree : TriquadtreeAgrees hilo agrees node)
    (keeps : (triquadtreeRemoveView hilo level view).keeps treePath tick node) :
    RemovesOnly (triquadtreeOps hilo level child)
      (TriquadtreeNode.removeConstructed { child with remove := constructed } hilo level)
      (triquadtreeView hilo level keys) (triquadtreeRemoveView hilo level view) treePath tick node
      heap node := by
  unfold RemovesOnly
  change ∃ heap' node' returned,
    node.remove child hilo level heap treePath tick = some (heap', node', returned) ∧
    node.removeConstructed { child with remove := constructed } hilo level heap treePath tick =
      some (heap', node', returned) ∧
    _ ∧ _ ∧ ∀ query, _ → node'.lookup child hilo level query = node.lookup child hilo level query
  rw [TriquadtreeNode.remove_eq _ _ _ agree.1, TriquadtreeNode.removeConstructed_eq _ _ _ agree.1]
  have unstopped : ∀ node' : TriquadtreeNode C, node'.wholeMask = node.wholeMask →
      (triquadtreeRemoveView hilo level view).stays treePath node → node'.empty = false := by
    intro node' children stays
    rw [Bool.eq_false_iff]
    intro empty
    exact stays (children.symm.trans ((triquadtree_empty_iff node').mp empty))
  cases present : node.wholeMask.getLsbD (triquadtreeSlot hilo level treePath) with
  | false =>
    exact ⟨heap, node, true, rfl, rfl, unstopped node rfl,
      ⟨rfl, SlotsFrame.refl agree.2 (fun node => laws.frame_refl treePath node) _⟩,
      fun _ _ => rfl⟩
  | true =>
    obtain ⟨heap', storage', returned, removes, removesToo, framed, finds⟩ :=
      removeBelowItem_removesOnly laws present agree.2 keeps heap
    have whole : ({ node with storage := storage' } : TriquadtreeNode C).wholeMask =
        node.wholeMask := rfl
    refine ⟨heap', { node with storage := storage' }, returned, ?_, ?_, unstopped _ whole,
      ⟨whole, framed⟩, ?_⟩
    · rw [if_neg (by simp), removes, Option.bind_some]
      simp only [Bool.false_eq_true, if_false, setMask_mask]
    · rw [if_neg (by simp), removesToo, Option.bind_some]
      simp only [Bool.false_eq_true, if_false, setMask_mask]
    · intro query free
      rw [TriquadtreeNode.lookup_eq_lookupAt, TriquadtreeNode.lookup_eq_lookupAt]
      exact finds _ query fun here both => free ⟨both.1, here.symm, both.2⟩

theorem triquadtree_removeLaws (keepsAgree : AgreeLaws child agrees)
    (laws : RemoveLaws child constructed agrees keys view) :
    RemoveLaws (triquadtreeOps hilo level child)
      (TriquadtreeNode.removeConstructed { child with remove := constructed } hilo level)
      (TriquadtreeAgrees hilo agrees) (triquadtreeView hilo level keys)
      (triquadtreeRemoveView hilo level view) := by
  have nodeLaws : AgreeLaws (triquadtreeOps hilo level child) (TriquadtreeAgrees hilo agrees) :=
    triquadtree_agreeLaws keepsAgree
  refine ⟨fun treePath node agree =>
    ⟨rfl, SlotsFrame.refl agree.2 (fun node => laws.frame_refl treePath node) _⟩,
    fun heap treePath tick node agree keeps => triquadtree_removesOnly_held laws heap agree keeps,
    ?_⟩
  intro heap heap₁ treePath tick node made agree _ keeps copied
  have madeAgrees := nodeLaws.copy agree copied
  simp only [triquadtreeOps, Prod.mk.injEq, Option.some.injEq] at copied
  obtain ⟨-, rfl⟩ := copied
  have same := get?_triquadtree_copyNode heap.freeAddress node
  obtain ⟨heap', node', returned, called, calledToo, nonempty, ⟨children, framed⟩, finds⟩ :=
    triquadtree_removesOnly_held laws heap₁ madeAgrees
      (fun ptr held holds => keeps ptr held ((same _).symm.trans holds))
  refine ⟨heap', node', returned, called, calledToo, nonempty, ⟨children, framed.congr same⟩,
    fun query free => (finds query free).trans ?_⟩
  change TriquadtreeNode.lookup child hilo level query _ =
    TriquadtreeNode.lookup child hilo level query node
  rw [TriquadtreeNode.lookup_eq_lookupAt, TriquadtreeNode.lookup_eq_lookupAt]
  unfold lookupAt
  rw [same]

end Triquadtree

/-! ## The tree -/

section Views

variable (D)

def duoctreeX4RemoveView : RemoveView (DuoctreeX4Node D) :=
  duoctreeRemoveView 1 (chunkRemoveView D)
def duoctreeX16RemoveView : RemoveView (DuoctreeX16Node D) :=
  duoctreeRemoveView 2 (duoctreeX4RemoveView D)
def duoctreeX64RemoveView : RemoveView (DuoctreeX64Node D) :=
  duoctreeRemoveView 3 (duoctreeX16RemoveView D)
def duoctreeX256RemoveView : RemoveView (DuoctreeX256Node D) :=
  duoctreeRemoveView 4 (duoctreeX64RemoveView D)
def triquadtreeBridgeRemoveView : RemoveView (TriquadtreeBridgeNode D) :=
  triquadtreeRemoveView true 5 (duoctreeX256RemoveView D)
def triquadtreeRootRemoveView : RemoveView (TriquadtreeRootNode D) :=
  triquadtreeRemoveView false 6 (triquadtreeBridgeRemoveView D)

end Views

theorem triquadtreeRoot_removeLaws (ctl : StorageTreeControl Ctx D) :
    RemoveLaws (triquadtreeRootOps ctl) (triquadtreeRootConstructed ctl).remove
      (triquadtreeRootAgrees D) (triquadtreeRootView D) (triquadtreeRootRemoveView D) := by
  have x4 : RemoveLaws (duoctreeX4Ops ctl) (duoctreeX4Constructed ctl).remove (duoctreeX4Agrees D)
      (duoctreeX4View D) (duoctreeX4RemoveView D) :=
    duoctree_removeLaws ctl (chunk_agreeLaws ctl) (chunk_removeLaws ctl)
  have x16 : RemoveLaws (duoctreeX16Ops ctl) (duoctreeX16Constructed ctl).remove
      (duoctreeX16Agrees D) (duoctreeX16View D) (duoctreeX16RemoveView D) :=
    duoctree_removeLaws ctl (duoctreeX4_agreeLaws ctl) x4
  have x64 : RemoveLaws (duoctreeX64Ops ctl) (duoctreeX64Constructed ctl).remove
      (duoctreeX64Agrees D) (duoctreeX64View D) (duoctreeX64RemoveView D) :=
    duoctree_removeLaws ctl (duoctreeX16_agreeLaws ctl) x16
  have x256 : RemoveLaws (duoctreeX256Ops ctl) (duoctreeX256Constructed ctl).remove
      (duoctreeX256Agrees D) (duoctreeX256View D) (duoctreeX256RemoveView D) :=
    duoctree_removeLaws ctl (duoctreeX64_agreeLaws ctl) x64
  have bridge : RemoveLaws (triquadtreeBridgeOps ctl) (triquadtreeBridgeConstructed ctl).remove
      (triquadtreeBridgeAgrees D) (triquadtreeBridgeView D) (triquadtreeBridgeRemoveView D) :=
    triquadtree_removeLaws (duoctreeX256_agreeLaws ctl) x256
  exact triquadtree_removeLaws (triquadtreeBridge_agreeLaws ctl) bridge

/-- The removal copies no node that loses another key, and takes no child out of its node. -/
def RemoveKeeps (treePath : BitVec 64) (tick : Int) (tree : StorageTree D) : Prop :=
  ∀ node, (tree.rootItems (rootIndex treePath)).node = some node →
    (triquadtreeRootRemoveView D).keeps treePath tick node

/-- All root items are the same, that of the path apart: its node has the same child pointers
in the same sense, or was empty and is gone. -/
def TreeFrame (treePath : BitVec 64) (tree tree' : StorageTree D) : Prop :=
  (∀ other, other ≠ rootIndex treePath → tree'.rootItems other = tree.rootItems other) ∧
  match (tree.rootItems (rootIndex treePath)).node with
  | none => (tree'.rootItems (rootIndex treePath)).node = none
  | some node => (∃ node', (tree'.rootItems (rootIndex treePath)).node = some node' ∧
        (triquadtreeRootRemoveView D).frame treePath node node') ∨
      node.empty = true ∧ (tree'.rootItems (rootIndex treePath)).node = none

/-- The removal is defined, touches slots with constructed pointers only, and leaves the blocks
of all other keys and all other child pointers as they were. -/
def RemovesOwnOnly (ctl : StorageTreeControl Ctx D) (state : RunState Ctx D)
    (treePath : BitVec 64) (tick : Int) : Prop :=
  ∃ heap' tree' returned,
    state.tree.remove ctl state.heap treePath tick = some (heap', tree', returned) ∧
    state.tree.removeConstructed ctl state.heap treePath tick = some (heap', tree', returned) ∧
    TreeFrame treePath state.tree tree' ∧
    ∀ query, ValidPath query → query ≠ treePath →
      tree'.lookup ctl query = state.tree.lookup ctl query

theorem moo_congr {ops ops' : NodeOps Ctx N D} (same : ops'.copy = ops.copy) (heap : Heap Ctx)
    (tick : Int) (ptr : NodePtr N) : ptr.moo ops' heap tick = ptr.moo ops heap tick := by
  unfold NodePtr.moo
  rw [same]

variable {treePath : BitVec 64}

theorem rootItem_removesOnly (ctl : StorageTreeControl Ctx D) {tree : StorageTree D}
    (agree : MasksAgree tree) {tick : Int} (keeps : RemoveKeeps treePath tick tree)
    {own : TriquadtreeRootNode D} (points : (tree.rootItems (rootIndex treePath)).node = some own)
    {heap heap₁ : Heap Ctx} {ready : TriquadtreeRootNode D}
    (prepared : Prepared (triquadtreeRootOps ctl) heap tick
      (calcRootItemMinCoord (rootIndex treePath)) (some (tree.rootItems (rootIndex treePath)))
      heap₁ (some ready)) :
    RemovesOnly (triquadtreeRootOps ctl) (triquadtreeRootConstructed ctl).remove
      (triquadtreeRootView D) (triquadtreeRootRemoveView D) treePath tick own heap₁ ready := by
  have laws := triquadtreeRoot_removeLaws ctl
  have ownAgrees := agree _ own points
  have ownKeeps := keeps own points
  generalize tree.rootItems (rootIndex treePath) = item at prepared points
  cases prepared with
  | recent points' recent =>
    cases points.symm.trans points'
    exact laws.held heap ownAgrees ownKeeps
  | copied points' stale copied =>
    cases points.symm.trans points'
    exact laws.copied ownAgrees trivial ownKeeps copied

theorem lookup_eq_root {ctl : StorageTreeControl Ctx D} {query : BitVec 64}
    (valid : ValidPath query) (tree : StorageTree D) :
    tree.lookup ctl query = match (tree.rootItems (rootIndex query)).node with
      | none => some none
      | some node => (triquadtreeRootOps ctl).lookup query node := by
  unfold StorageTree.lookup
  dsimp only
  exact if_pos (rootIndex_lt valid)

theorem triquadtreeRoot_lookup_of_empty (ctl : StorageTreeControl Ctx D) (query : BitVec 64)
    {node : TriquadtreeRootNode D} (empty : node.empty = true) :
    (triquadtreeRootOps ctl).lookup query node = some none := by
  change TriquadtreeNode.lookup (triquadtreeBridgeOps ctl) false 6 query node = _
  rw [TriquadtreeNode.lookup_eq, (triquadtree_empty_iff node).mp empty,
    PackedSlots.get?_of_clear (by simp)]

/-- The tree with the new root item, which is reset if the removal left its node empty. -/
theorem setRootItem_removesOnly (ctl : StorageTreeControl Ctx D) {tree : StorageTree D}
    (valid : ValidPath treePath) {own node' : TriquadtreeRootNode D}
    (points : (tree.rootItems (rootIndex treePath)).node = some own) {returned : Bool}
    (framed : (triquadtreeRootRemoveView D).frame treePath own node')
    (finds : ∀ query, ¬ (returned = true ∧ (triquadtreeRootView D).same treePath query) →
      (triquadtreeRootOps ctl).lookup query node' = (triquadtreeRootOps ctl).lookup query own)
    (item : NodePtr (TriquadtreeRootNode D)) (points' : item.node = some node') :
    let tree' := tree.setRootItem (rootIndex treePath)
      (if returned ∧ (triquadtreeRootOps ctl).empty node' then item.reset else item)
    TreeFrame treePath tree tree' ∧ ∀ query, ValidPath query → query ≠ treePath →
      tree'.lookup ctl query = tree.lookup ctl query := by
  refine ⟨⟨fun other differ => setRootItem_of_ne _ _ differ, ?_⟩, fun query validQuery differ => ?_⟩
  · rw [points, setRootItem_apply]
    dsimp only
    by_cases emptied : returned = true ∧ (triquadtreeRootOps ctl).empty node' = true
    · rw [if_pos emptied]
      refine Or.inr ⟨?_, rfl⟩
      rw [triquadtree_empty_iff, ← framed.1]
      exact (triquadtree_empty_iff node').mp emptied.2
    · rw [if_neg emptied]
      exact Or.inl ⟨node', points', framed⟩
  · rw [lookup_eq_root validQuery, lookup_eq_root validQuery]
    by_cases same : rootIndex query = rootIndex treePath
    · have free : ¬ (returned = true ∧ (triquadtreeRootView D).same treePath query) :=
        fun both => differ ((sameKey_iff valid validQuery).mp ⟨same.symm, both.2⟩).symm
      rw [same, setRootItem_apply, points]
      dsimp only
      rw [← finds query free]
      by_cases emptied : returned = true ∧ (triquadtreeRootOps ctl).empty node' = true
      · rw [if_pos emptied, triquadtreeRoot_lookup_of_empty ctl query emptied.2]
        rfl
      · rw [if_neg emptied, points']
    · rw [setRootItem_of_ne _ _ same]

theorem remove_removesOwnOnly (ctl : StorageTreeControl Ctx D) {state : RunState Ctx D}
    (agree : MasksAgree state.tree) (valid : ValidPath treePath) {tick : Int}
    (keeps : RemoveKeeps treePath tick state.tree) : RemovesOwnOnly ctl state treePath tick := by
  obtain ⟨heap, tree, log⟩ := state
  unfold RemovesOwnOnly StorageTree.remove removeConstructed
  dsimp only at agree keeps ⊢
  rw [if_pos (rootIndex_lt valid), if_pos (rootIndex_lt valid)]
  cases points : (tree.rootItems (rootIndex treePath)).node with
  | none =>
    refine ⟨heap, tree, true, rfl, rfl, ⟨fun _ _ => rfl, ?_⟩, fun _ _ _ => rfl⟩
    rw [points]
  | some own =>
    rw [Option.isNone_some, if_neg Bool.false_ne_true, if_neg Bool.false_ne_true]
    rcases moved : (tree.rootItems (rootIndex treePath)).moo (triquadtreeRootOps ctl) heap tick
      with ⟨heap₁, item, done⟩
    have movedToo : (tree.rootItems (rootIndex treePath)).moo (triquadtreeRootConstructed ctl)
        heap tick = (heap₁, item, done) := by
      have sameCopy : (triquadtreeRootConstructed ctl).copy = (triquadtreeRootOps ctl).copy := rfl
      rw [moo_congr sameCopy, moved]
    rw [movedToo]
    obtain ⟨made, prepared, outcome⟩ := moo_cases ⟨own, points⟩ moved
      (calcRootItemMinCoord (rootIndex treePath))
    cases made with
    | none =>
      obtain ⟨rfl, rfl⟩ := outcome
      refine ⟨heap₁, tree, false, ?_, ?_, ⟨fun _ _ => rfl, ?_⟩, fun _ _ _ => rfl⟩
      · dsimp only
        rw [setRootItem_self]
      · dsimp only
        rw [setRootItem_self]
      rw [points]
      exact Or.inl ⟨own, rfl,
        (triquadtreeRoot_removeLaws ctl).frame_refl treePath own (agree _ own points)⟩
    | some ready =>
      obtain ⟨pointsReady, rfl⟩ := outcome
      obtain ⟨heap', node', returned, called, calledToo, -, framed, finds⟩ :=
        rootItem_removesOnly ctl agree keeps points prepared
      have sameEmpty : (triquadtreeRootConstructed ctl).empty =
          (triquadtreeRootOps ctl).empty := rfl
      obtain ⟨frame, others⟩ := setRootItem_removesOnly ctl valid points framed finds
        { item with node := some node' } rfl
      refine ⟨heap', _, returned, ?_, ?_, frame, others⟩
      · simp only [pointsReady, called, Option.bind_eq_bind, Option.bind_some, Option.pure_def]
      · simp only [pointsReady, calledToo, sameEmpty, Option.bind_eq_bind, Option.bind_some,
          Option.pure_def]

end Voxen.Land.StorageTree
