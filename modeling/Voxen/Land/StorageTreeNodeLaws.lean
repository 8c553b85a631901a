import Voxen.Land.StorageTreePresence

/-!
# The laws of duoctree and triquadtree nodes

A duoctree node holds the keys its live key mask names and those below its
children; a triquadtree node holds those below its children.
-/

namespace Voxen.Land.StorageTree

open PackedArray (popcount rank bit)
open PackedSlots (get?)
open StorageTreeUtils

variable {Ctx N C D : Type}

/-! ## Path components -/

/-- The path stops at this level. -/
def pathStop (level : Nat) (treePath : BitVec 64) : Bool :=
  extractNodePathStopBit (extractNodePathComponent level treePath)

/-- Slot of the child the path goes on with. -/
def pathSlot (level : Nat) (treePath : BitVec 64) : Nat :=
  childIndex (extractNodePathComponent level treePath)

/-- Position in the live key mask of the key a stopping path means. -/
def keyIndex (level : Nat) (treePath : BitVec 64) : Nat :=
  if extractNodePathComponent level treePath &&& 64#64 ≠ 0#64 then (treePath &&& 7#64).toNat
  else 8

theorem pathSlot_lt (level : Nat) (treePath : BitVec 64) : pathSlot level treePath < 64 := by
  unfold pathSlot childIndex
  rw [BitVec.toNat_and]
  exact Nat.lt_succ_of_le Nat.and_le_right

theorem keyIndex_lt (level : Nat) (treePath : BitVec 64) : keyIndex level treePath < 32 := by
  unfold keyIndex
  split
  · rw [BitVec.toNat_and]
    exact Nat.lt_of_le_of_lt Nat.and_le_right (by decide)
  · decide

theorem childBit_eq (level : Nat) (treePath : BitVec 64) :
    extractNodePathChildBit (extractNodePathComponent level treePath) =
      bit 64 (pathSlot level treePath) := by
  rw [bit, BitVec.twoPow_eq]
  rfl

theorem keyMaskBit_eq (level : Nat) (treePath : BitVec 64) :
    extractNodeKeyMaskBit treePath (extractNodePathComponent level treePath) =
      bit 32 (keyIndex level treePath) := by
  unfold extractNodeKeyMaskBit keyIndex
  split
  · rw [bit, BitVec.twoPow_eq]
  · rfl

/-! ## Duoctree nodes -/

section Duoctree

variable (ctl : StorageTreeControl Ctx D) (level : Nat)

/-- Two paths mean one key of this node, or one key below one child. -/
def DuoctreeSame (view : NodeView C) (treePath query : BitVec 64) : Prop :=
  (pathStop level treePath = true ∧ pathStop level query = true ∧
    keyIndex level treePath = keyIndex level query) ∨
  (pathStop level treePath = false ∧ pathStop level query = false ∧
    pathSlot level treePath = pathSlot level query ∧ view.same treePath query)

/-- The removed key is the only live key of a node without children, or the last
one below the only child of a node without live keys. -/
def DuoctreeRemovesLast (view : NodeView C) (treePath : BitVec 64) (node : DuoctreeNode C D) :
    Prop :=
  if pathStop level treePath then
    node.liveKeyMask &&& ~~~(bit 32 (keyIndex level treePath)) = 0#32 ∧ node.childMask = 0#64
  else
    node.liveKeyMask = 0#32 ∧
    match get? node.childMask node.storage (pathSlot level treePath) with
    | none => node.childMask = 0#64
    | some ptr => node.childMask = bit 64 (pathSlot level treePath) ∧
        ∃ child, ptr.node = some child ∧ view.removesLast treePath child

def duoctreeView (view : NodeView C) : NodeView (DuoctreeNode C D) where
  valid node := ItemsValid view node.childMask node.storage
  same := DuoctreeSame level view
  keepsLiveKeys node := node.liveKeyMask = 0#32
  removesLast := DuoctreeRemovesLast level view
  accessSafe treePath tick node := pathStop level treePath = false →
    ItemAccessSafe view node.childMask node.storage (pathSlot level treePath) treePath tick
  removeSafe treePath tick node := pathStop level treePath = false →
    ItemRemoveSafe view 64 node.childMask node.storage (pathSlot level treePath) treePath tick

variable {ctl} {level} {child : NodeOps Ctx C D} {view : NodeView C}

theorem lookupThrough_present (treePath : BitVec 64) (ptr : NodePtr C) :
    (∃ data, lookupThrough child treePath ptr = some (some data)) ↔
      ∃ node, ptr.node = some node ∧ Present child treePath node := by
  unfold lookupThrough Present
  cases ptr.node with
  | none => simp
  | some node => simp

theorem DuoctreeNode.access_eq (heap : Heap Ctx) (treePath : BitVec 64) (tick : Int)
    (node : DuoctreeNode C D) :
    node.access child level heap treePath tick =
      if pathStop level treePath then
        some (heap, { node with
          liveKeyMask := node.liveKeyMask ||| bit 32 (keyIndex level treePath) },
          some node.userData)
      else
        (accessItem child 64 heap treePath tick
          (calcDuoctreeChildMinCoord child.nodeSizeChunks node.key
            (extractNodePathComponent level treePath)) node.storage
          (rank node.childMask (pathSlot level treePath))
          (popcount node.childMask - rank node.childMask (pathSlot level treePath))
          (node.childMask.getLsbD (pathSlot level treePath))).bind
        fun (heap, storage, set, result) =>
          some (heap, { node with
            storage := storage,
            childMask := (if set then node.childMask ||| bit 64 (pathSlot level treePath)
              else node.childMask) }, result) := by
  have low := pathSlot_lt level treePath
  unfold DuoctreeNode.access
  simp only [childBit_eq, keyMaskBit_eq, PackedArray.and_bit_ne_zero, storageIndex, afterCount,
    PackedArray.popcount_and_below _ low, PackedArray.popcount_and_above _ low,
    Bool.decide_eq_true]
  rfl

theorem DuoctreeNode.remove_eq (heap : Heap Ctx) (treePath : BitVec 64) (tick : Int)
    (node : DuoctreeNode C D) :
    node.remove child level heap treePath tick =
      if pathStop level treePath then
        some (heap, { node with
          liveKeyMask := node.liveKeyMask &&& ~~~bit 32 (keyIndex level treePath) }, true)
      else if node.childMask.getLsbD (pathSlot level treePath) = false then
        some (heap, node, true)
      else
        (removeBelowItem child 64 heap treePath tick node.storage
          (rank node.childMask (pathSlot level treePath))
          (popcount node.childMask - rank node.childMask (pathSlot level treePath))).bind
        fun (heap, storage, removed, returned) =>
          some (heap, { node with
            storage := storage,
            childMask := (if removed then node.childMask ^^^ bit 64 (pathSlot level treePath)
              else node.childMask) }, returned) := by
  have low := pathSlot_lt level treePath
  unfold DuoctreeNode.remove
  simp only [childBit_eq, keyMaskBit_eq, PackedArray.and_bit_eq_zero, storageIndex, afterCount,
    PackedArray.popcount_and_below _ low, PackedArray.popcount_and_above _ low]
  rfl

theorem DuoctreeNode.lookup_eq (treePath : BitVec 64) (node : DuoctreeNode C D) :
    node.lookup child level treePath =
      if pathStop level treePath then
        if node.liveKeyMask.getLsbD (keyIndex level treePath) then some (some node.userData)
        else some none
      else
        match get? node.childMask node.storage (pathSlot level treePath) with
        | none => some none
        | some ptr => lookupThrough child treePath ptr := by
  have low := pathSlot_lt level treePath
  unfold DuoctreeNode.lookup get?
  simp only [childBit_eq, keyMaskBit_eq, PackedArray.and_bit_ne_zero, PackedArray.and_bit_eq_zero,
    storageIndex, PackedArray.popcount_and_below _ low]
  cases node.childMask.getLsbD (pathSlot level treePath) <;> rfl

theorem duoctree_present_iff (query : BitVec 64) (node : DuoctreeNode C D) :
    Present (duoctreeOps ctl level child) query node ↔
      if pathStop level query then node.liveKeyMask.getLsbD (keyIndex level query) = true
      else PresentAt child node.childMask node.storage (pathSlot level query) query := by
  change (∃ data, node.lookup child level query = some (some data)) ↔ _
  rw [DuoctreeNode.lookup_eq]
  cases pathStop level query with
  | true => cases node.liveKeyMask.getLsbD (keyIndex level query) <;> simp
  | false =>
    simp only [Bool.false_eq_true, if_false, PresentAt]
    cases get? node.childMask node.storage (pathSlot level query) with
    | none => simp
    | some ptr => simpa using lookupThrough_present query ptr

variable {node : DuoctreeNode C D} {heap heap' : Heap Ctx}

theorem duoctree_lookup_defined (laws : Lawful child view) {query : BitVec 64}
    (valid : (duoctreeView level view).valid node) :
    ∃ found, (duoctreeOps ctl level child).lookup query node = some found := by
  change ∃ found, node.lookup child level query = some found
  rw [DuoctreeNode.lookup_eq]
  split
  · split <;> exact ⟨_, rfl⟩
  · cases holds : get? node.childMask node.storage (pathSlot level query) with
    | none => exact ⟨none, rfl⟩
    | some ptr =>
      obtain ⟨held, points, heldValid⟩ := valid _ ptr holds
      obtain ⟨found, finds⟩ := laws.lookup_defined heldValid
      refine ⟨found, ?_⟩
      simp only [lookupThrough, points, Option.bind_eq_bind, Option.bind_some]
      exact finds

theorem duoctree_create {minCoord : IVec3}
    (created : (duoctreeOps ctl level child).create heap minCoord = (heap', some node)) :
    node.liveKeyMask = 0#32 ∧ node.childMask = 0#64 := by
  simp only [duoctreeOps, Prod.mk.injEq, Option.map_eq_some_iff] at created
  obtain ⟨-, data, -, rfl⟩ := created
  exact ⟨rfl, rfl⟩

theorem duoctree_copy {node' : DuoctreeNode C D}
    (copied : (duoctreeOps ctl level child).copy heap node = (heap', some node')) :
    ∃ data, node' = node.copyNode heap.freeAddress data := by
  simp only [duoctreeOps, Prod.mk.injEq, Option.map_eq_some_iff] at copied
  obtain ⟨-, data, -, rfl⟩ := copied
  exact ⟨data, rfl⟩

theorem get?_copyNode (address : Nat) (data : D) (node : DuoctreeNode C D) (slot : Nat) :
    get? (node.copyNode address data).childMask (node.copyNode address data).storage slot =
      get? node.childMask node.storage slot :=
  PackedSlots.get?_congr (fun _ below => if_pos below) slot

theorem duoctree_copy_law {node' : DuoctreeNode C D} (valid : (duoctreeView level view).valid node)
    (keeps : (duoctreeView level view).keepsLiveKeys node)
    (copied : (duoctreeOps ctl level child).copy heap node = (heap', some node')) :
    (duoctreeView level view).valid node' ∧
    (∀ query, Present (duoctreeOps ctl level child) query node' ↔
      Present (duoctreeOps ctl level child) query node) ∧
    (∀ treePath, (duoctreeView level view).removesLast treePath node' ↔
      (duoctreeView level view).removesLast treePath node) ∧
    (∀ treePath tick, (duoctreeView level view).accessSafe treePath tick node →
      (duoctreeView level view).accessSafe treePath tick node') ∧
    ∀ treePath tick, (duoctreeView level view).removeSafe treePath tick node →
      (duoctreeView level view).removeSafe treePath tick node' := by
  obtain ⟨data, rfl⟩ := duoctree_copy copied
  have same := get?_copyNode heap.freeAddress data node
  change node.liveKeyMask = 0#32 at keeps
  refine ⟨?_, ?_, ?_, ?_, ?_⟩
  · intro slot ptr holds
    exact valid slot ptr ((same slot).symm.trans holds)
  · intro query
    rw [duoctree_present_iff, duoctree_present_iff, keeps, presentAt_congr (same _)]
    rfl
  · intro treePath
    change DuoctreeRemovesLast level view treePath _ ↔ DuoctreeRemovesLast level view treePath node
    unfold DuoctreeRemovesLast
    rw [same, keeps]
    rfl
  · intro treePath tick safe descends ptr held holds
    exact safe descends ptr held ((same _).symm.trans holds)
  · intro treePath tick safe descends ptr held holds
    exact safe descends ptr held ((same _).symm.trans holds)

theorem duoctree_access_law (laws : Lawful child view) (heap : Heap Ctx) {treePath : BitVec 64}
    {tick : Int} (valid : (duoctreeView level view).valid node)
    (safe : (duoctreeView level view).accessSafe treePath tick node) :
    ∃ heap' node' result,
      (duoctreeOps ctl level child).access heap treePath tick node =
        some (heap', node', result) ∧
      (duoctreeView level view).valid node' ∧
      ∀ query, Present (duoctreeOps ctl level child) query node' ↔
        Present (duoctreeOps ctl level child) query node ∨
          result.isSome ∧ DuoctreeSame level view treePath query := by
  change ∃ heap' node' result, node.access child level heap treePath tick =
    some (heap', node', result) ∧ _
  rw [DuoctreeNode.access_eq]
  cases stop : pathStop level treePath with
  | true =>
    rw [if_pos rfl]
    refine ⟨_, _, _, rfl, valid, fun query => ?_⟩
    rw [duoctree_present_iff, duoctree_present_iff]
    unfold DuoctreeSame
    cases stopQuery : pathStop level query with
    | true =>
      dsimp only
      rw [PackedArray.getLsbD_or_bit _ (keyIndex_lt level treePath)]
      simp [stop]
    | false => simp [stop]
  | false =>
    rw [if_neg Bool.false_ne_true]
    have low := pathSlot_lt level treePath
    obtain ⟨heap', storage', set, result, outcome, mask', mask, valid', others, present⟩ :=
      accessItem_spec laws low valid (safe stop)
        (fun clear => by
          have room : popcount node.childMask + popcount (0#64) < 64 :=
            PackedArray.popcount_add_lt low (fun _ _ => by simp) clear (by simp)
          exact Nat.lt_of_le_of_lt (Nat.le_add_right _ _) room) heap
        (calcDuoctreeChildMinCoord child.nodeSizeChunks node.key
          (extractNodePathComponent level treePath))
    rw [outcome]
    rw [Option.bind_some]
    dsimp only
    rw [← mask]
    refine ⟨_, _, _, rfl, valid', fun query => ?_⟩
    rw [duoctree_present_iff, duoctree_present_iff]
    unfold DuoctreeSame
    cases stopQuery : pathStop level query with
    | true => simp [stop]
    | false =>
      by_cases here : pathSlot level query = pathSlot level treePath
      · simp [stop, here, present]
      · have apart : pathSlot level treePath ≠ pathSlot level query := fun eq => here eq.symm
        simp [stop, apart, presentAt_congr (others _ here)]

theorem duoctree_remove_law (laws : Lawful child view) (heap : Heap Ctx) {treePath : BitVec 64}
    {tick : Int} (valid : (duoctreeView level view).valid node)
    (safe : (duoctreeView level view).removeSafe treePath tick node) :
    ∃ heap' node' returned,
      (duoctreeOps ctl level child).remove heap treePath tick node =
        some (heap', node', returned) ∧
      (duoctreeView level view).valid node' ∧
      (returned = true →
        (node'.empty = true ↔ DuoctreeRemovesLast level view treePath node)) ∧
      ∀ query, Present (duoctreeOps ctl level child) query node' ↔
        Present (duoctreeOps ctl level child) query node ∧
          ¬ (returned = true ∧ DuoctreeSame level view treePath query) := by
  change ∃ heap' node' returned, node.remove child level heap treePath tick =
    some (heap', node', returned) ∧ _
  rw [DuoctreeNode.remove_eq]
  unfold DuoctreeRemovesLast
  cases stop : pathStop level treePath with
  | true =>
    rw [if_pos rfl]
    refine ⟨_, _, _, rfl, valid, fun _ => ?_, fun query => ?_⟩
    · simp [DuoctreeNode.empty]
    · rw [duoctree_present_iff, duoctree_present_iff]
      unfold DuoctreeSame
      cases stopQuery : pathStop level query with
      | true =>
        dsimp only
        rw [PackedArray.getLsbD_and_not_bit _ (keyIndex_lt level treePath)]
        simp [stop]
      | false => simp [stop]
  | false =>
    rw [if_neg Bool.false_ne_true]
    cases taken : node.childMask.getLsbD (pathSlot level treePath) with
    | false =>
      have clear := PackedSlots.get?_of_clear taken node.storage
      rw [if_pos rfl, clear]
      refine ⟨_, _, _, rfl, valid, fun _ => ?_, fun query => ?_⟩
      · simp [DuoctreeNode.empty]
      · rw [duoctree_present_iff]
        unfold DuoctreeSame
        cases stopQuery : pathStop level query with
        | true => simp [stop]
        | false =>
          have absent : ∀ query, ¬ PresentAt child node.childMask node.storage
              (pathSlot level treePath) query := not_presentAt_of_clear clear
          by_cases here : pathSlot level treePath = pathSlot level query
          · simp [← here, absent]
          · simp [stop, here]
    | true =>
      rw [if_neg (by simp)]
      obtain ⟨heap', storage', removed, returned, outcome, mask', mask, valid', others,
        present, emptied⟩ := removeBelowItem_spec laws taken valid (safe stop) heap
      rw [outcome, Option.bind_some]
      dsimp only
      rw [← mask]
      refine ⟨_, _, _, rfl, valid', fun normal => ?_, fun query => ?_⟩
      · obtain ⟨ptr, held, holds, points, last⟩ := emptied normal
        rw [if_neg Bool.false_ne_true, holds]
        have nonempty : node.childMask ≠ 0#64 := by
          intro zero
          rw [zero] at taken
          simp at taken
        simp only [DuoctreeNode.empty, Bool.decide_and, Bool.and_eq_true, decide_eq_true_eq,
          points, Option.some.injEq, exists_eq_left']
        apply and_congr_right
        intro _
        rw [mask, ← last]
        cases removed with
        | true => simp
        | false => simp [nonempty]
      · rw [duoctree_present_iff, duoctree_present_iff]
        unfold DuoctreeSame
        cases stopQuery : pathStop level query with
        | true => simp [stop]
        | false =>
          by_cases here : pathSlot level query = pathSlot level treePath
          · simp [stop, here, present]
          · have apart : pathSlot level treePath ≠ pathSlot level query :=
              fun eq => here eq.symm
            simp [stop, apart, presentAt_congr (others _ here)]

theorem duoctree_not_present_of_empty (empty : node.empty = true) (query : BitVec 64) :
    ¬ Present (duoctreeOps ctl level child) query node := by
  simp only [DuoctreeNode.empty, Bool.decide_and, Bool.and_eq_true, decide_eq_true_eq] at empty
  rw [duoctree_present_iff, empty.1, empty.2]
  split
  · simp
  · exact not_presentAt_of_clear (PackedSlots.get?_of_clear (by simp) _) query

theorem duoctree_lawful (laws : Lawful child view) :
    Lawful (duoctreeOps ctl level child) (duoctreeView level view) := by
  refine ⟨duoctree_lookup_defined laws, ?_, duoctree_copy_law, ?_, ?_⟩
  · intro heap heap' minCoord node created
    obtain ⟨noKey, noChild⟩ := duoctree_create created
    have clear : ∀ slot, get? node.childMask node.storage slot = none := fun slot =>
      PackedSlots.get?_of_clear (by rw [noChild]; simp) _
    refine ⟨?_, ?_, ?_⟩
    · intro slot ptr holds
      rw [clear] at holds
      cases holds
    · intro query present
      refine absurd present (duoctree_not_present_of_empty ?_ query)
      simp [DuoctreeNode.empty, noKey, noChild]
    · intro treePath tick _ ptr held holds
      rw [clear] at holds
      cases holds
  · exact fun heap _ _ _ valid safe => duoctree_access_law laws heap valid safe
  · intro heap treePath tick node valid safe
    obtain ⟨heap', node', returned, outcome, valid', last, present⟩ :=
      duoctree_remove_law laws heap valid safe
    refine ⟨heap', node', returned, outcome, valid', last, ?_, fun _ => present⟩
    intro normal empty query there
    by_contra differ
    refine duoctree_not_present_of_empty empty query ((present query).mpr ⟨there, ?_⟩)
    exact fun both => differ both.2

end Duoctree

/-! ## Triquadtree nodes -/

section Triquadtree

variable (hilo : Bool) (level : Nat)

/-- The component selects the mask for negative Y. -/
def pathHigh (treePath : BitVec 64) : Bool :=
  hilo && triquadtreeYNegative (extractNodePathComponent level treePath)

/-- Slot of the child a path goes on with, those of the second mask last. -/
def triquadtreeSlot (treePath : BitVec 64) : Nat :=
  if pathHigh hilo level treePath then 64 + pathSlot level treePath
  else pathSlot level treePath

/-- Both child masks, the second one on top. -/
def TriquadtreeNode.wholeMask (node : TriquadtreeNode C) : BitVec (64 + 64) :=
  node.childMaskHigh ++ node.childMask

/-- The only key of the node is the last one below its only child. -/
def TriquadtreeRemovesLast (view : NodeView C) (treePath : BitVec 64)
    (node : TriquadtreeNode C) : Prop :=
  match get? node.wholeMask node.storage (triquadtreeSlot hilo level treePath) with
  | none => node.wholeMask = 0#(64 + 64)
  | some ptr => node.wholeMask = bit (64 + 64) (triquadtreeSlot hilo level treePath) ∧
      ∃ child, ptr.node = some child ∧ view.removesLast treePath child

def triquadtreeView (view : NodeView C) : NodeView (TriquadtreeNode C) where
  valid node := (hilo = false → node.childMaskHigh = 0#64) ∧
    ItemsValid view node.wholeMask node.storage
  same treePath query :=
    triquadtreeSlot hilo level treePath = triquadtreeSlot hilo level query ∧
      view.same treePath query
  keepsLiveKeys _ := True
  removesLast := TriquadtreeRemovesLast hilo level view
  accessSafe treePath tick node :=
    ItemAccessSafe view node.wholeMask node.storage (triquadtreeSlot hilo level treePath)
      treePath tick
  removeSafe treePath tick node :=
    ItemRemoveSafe view (TriquadtreeNode.capacity hilo) node.wholeMask node.storage
      (triquadtreeSlot hilo level treePath) treePath tick

variable {hilo} {level} {child : NodeOps Ctx C D} {view : NodeView C}

theorem triquadtreeSlot_lt (treePath : BitVec 64) :
    triquadtreeSlot hilo level treePath < 64 + 64 := by
  have low := pathSlot_lt level treePath
  unfold triquadtreeSlot
  split <;> omega

theorem getLsbD_wholeMask (node : TriquadtreeNode C) (treePath : BitVec 64) :
    node.wholeMask.getLsbD (triquadtreeSlot hilo level treePath) =
      (node.mask (pathHigh hilo level treePath)).getLsbD (pathSlot level treePath) := by
  have low := pathSlot_lt level treePath
  unfold TriquadtreeNode.wholeMask triquadtreeSlot TriquadtreeNode.mask
  rw [BitVec.getLsbD_append]
  cases pathHigh hilo level treePath with
  | true =>
    simp only [if_true]
    rw [if_neg (by omega), Nat.add_sub_cancel_left]
  | false =>
    simp only [Bool.false_eq_true, if_false]
    rw [if_pos low]

theorem storageIndex_eq (node : TriquadtreeNode C) (treePath : BitVec 64) :
    node.storageIndex (pathHigh hilo level treePath) (bit 64 (pathSlot level treePath)) =
      rank node.wholeMask (triquadtreeSlot hilo level treePath) := by
  have low := pathSlot_lt level treePath
  unfold TriquadtreeNode.wholeMask triquadtreeSlot TriquadtreeNode.storageIndex
  rw [PackedArray.popcount_and_below _ low]
  unfold TriquadtreeNode.mask
  cases pathHigh hilo level treePath with
  | true => simp only [if_true, PackedSlots.rank_append_high]
  | false =>
    simp only [Bool.false_eq_true, if_false, Nat.zero_add]
    rw [PackedSlots.rank_append_low _ _ (Nat.le_of_lt low)]

variable {node : TriquadtreeNode C} {treePath : BitVec 64}

theorem afterCount_eq (single : hilo = false → node.childMaskHigh = 0#64) (treePath : BitVec 64) :
    node.afterCount hilo (pathHigh hilo level treePath) (bit 64 (pathSlot level treePath)) =
      popcount node.wholeMask - rank node.wholeMask (triquadtreeSlot hilo level treePath) := by
  have low := pathSlot_lt level treePath
  unfold TriquadtreeNode.wholeMask triquadtreeSlot TriquadtreeNode.afterCount
  rw [PackedArray.popcount_and_above _ low, PackedSlots.popcount_append]
  unfold TriquadtreeNode.mask
  cases high : pathHigh hilo level treePath with
  | true =>
    simp only [if_true, PackedSlots.rank_append_high]
    simp only [not_true_eq_false, and_false, if_false, Nat.zero_add]
    exact (Nat.add_sub_add_left _ _ _).symm
  | false =>
    have below := PackedArray.rank_le_popcount node.childMask (Nat.le_of_lt low)
    simp only [Bool.false_eq_true, if_false, not_false_eq_true, and_true]
    rw [PackedSlots.rank_append_low _ _ (Nat.le_of_lt low)]
    cases hilo with
    | true =>
      simp only [if_true]
      omega
    | false =>
      rw [single rfl]
      simp [popcount]

theorem bit_triquadtreeSlot (treePath : BitVec 64) :
    bit (64 + 64) (triquadtreeSlot hilo level treePath) =
      if pathHigh hilo level treePath then bit 64 (pathSlot level treePath) ++ 0#64
      else 0#64 ++ bit 64 (pathSlot level treePath) := by
  have low := pathSlot_lt level treePath
  apply BitVec.eq_of_getLsbD_eq
  intro i _
  rw [PackedArray.getLsbD_bit (triquadtreeSlot_lt treePath)]
  unfold triquadtreeSlot
  cases pathHigh hilo level treePath with
  | true =>
    simp only [if_true, BitVec.getLsbD_append]
    by_cases lower : i < 64
    · simp [lower, show 64 + pathSlot level treePath ≠ i by omega]
    · rw [if_neg lower, PackedArray.getLsbD_bit low]
      congr 1
      exact propext (by omega)
  | false =>
    simp only [Bool.false_eq_true, if_false, BitVec.getLsbD_append]
    by_cases lower : i < 64
    · rw [if_pos lower, PackedArray.getLsbD_bit low]
    · simp [lower, show pathSlot level treePath ≠ i by omega]

theorem wholeMask_or (node : TriquadtreeNode C) (treePath : BitVec 64) :
    (node.setMask (pathHigh hilo level treePath)
      (node.mask (pathHigh hilo level treePath) ||| bit 64 (pathSlot level treePath))).wholeMask =
      node.wholeMask ||| bit (64 + 64) (triquadtreeSlot hilo level treePath) := by
  rw [bit_triquadtreeSlot]
  unfold TriquadtreeNode.wholeMask TriquadtreeNode.setMask TriquadtreeNode.mask
  cases pathHigh hilo level treePath <;>
    simp only [Bool.false_eq_true, if_true, if_false, BitVec.or_append, BitVec.or_zero]

theorem wholeMask_xor (node : TriquadtreeNode C) (treePath : BitVec 64) :
    (node.setMask (pathHigh hilo level treePath)
      (node.mask (pathHigh hilo level treePath) ^^^ bit 64 (pathSlot level treePath))).wholeMask =
      node.wholeMask ^^^ bit (64 + 64) (triquadtreeSlot hilo level treePath) := by
  rw [bit_triquadtreeSlot]
  unfold TriquadtreeNode.wholeMask TriquadtreeNode.setMask TriquadtreeNode.mask
  cases pathHigh hilo level treePath <;>
    simp only [Bool.false_eq_true, if_true, if_false, BitVec.xor_append, BitVec.xor_zero]

theorem TriquadtreeNode.access_eq (heap : Heap Ctx) (treePath : BitVec 64) (tick : Int)
    (single : hilo = false → node.childMaskHigh = 0#64) :
    node.access child hilo level heap treePath tick =
      (accessItem child (capacity hilo) heap treePath tick
        (calcTriquadtreeChildMinCoord child.nodeSizeChunks node.minX node.minZ
          (extractNodePathComponent level treePath)) node.storage
        (rank node.wholeMask (triquadtreeSlot hilo level treePath))
        (popcount node.wholeMask - rank node.wholeMask (triquadtreeSlot hilo level treePath))
        (node.wholeMask.getLsbD (triquadtreeSlot hilo level treePath))).bind
      fun (heap, storage, set, result) =>
        some (heap, { node.setMask (pathHigh hilo level treePath)
          (if set then node.mask (pathHigh hilo level treePath) |||
            bit 64 (pathSlot level treePath)
          else node.mask (pathHigh hilo level treePath)) with storage := storage }, result) := by
  rw [← afterCount_eq single, ← storageIndex_eq, getLsbD_wholeMask]
  unfold TriquadtreeNode.access
  simp only [childBit_eq, PackedArray.and_bit_ne_zero, Bool.decide_eq_true]
  rfl

theorem TriquadtreeNode.remove_eq (heap : Heap Ctx) (treePath : BitVec 64) (tick : Int)
    (single : hilo = false → node.childMaskHigh = 0#64) :
    node.remove child hilo level heap treePath tick =
      if node.wholeMask.getLsbD (triquadtreeSlot hilo level treePath) = false then
        some (heap, node, true)
      else
        (removeBelowItem child (capacity hilo) heap treePath tick node.storage
          (rank node.wholeMask (triquadtreeSlot hilo level treePath))
          (popcount node.wholeMask -
            rank node.wholeMask (triquadtreeSlot hilo level treePath))).bind
        fun (heap, storage, removed, returned) =>
          some (heap, { node.setMask (pathHigh hilo level treePath)
            (if removed then node.mask (pathHigh hilo level treePath) ^^^
              bit 64 (pathSlot level treePath)
            else node.mask (pathHigh hilo level treePath)) with storage := storage },
            returned) := by
  rw [← afterCount_eq single, ← storageIndex_eq, getLsbD_wholeMask]
  unfold TriquadtreeNode.remove
  simp only [childBit_eq, PackedArray.and_bit_eq_zero]
  rfl

theorem TriquadtreeNode.lookup_eq (treePath : BitVec 64) (node : TriquadtreeNode C) :
    node.lookup child hilo level treePath =
      match get? node.wholeMask node.storage (triquadtreeSlot hilo level treePath) with
      | none => some none
      | some ptr => lookupThrough child treePath ptr := by
  unfold get?
  rw [← storageIndex_eq, getLsbD_wholeMask]
  unfold TriquadtreeNode.lookup
  simp only [childBit_eq, PackedArray.and_bit_eq_zero]
  change (if (node.mask (pathHigh hilo level treePath)).getLsbD (pathSlot level treePath) = false
    then _ else _) = _
  cases (node.mask (pathHigh hilo level treePath)).getLsbD (pathSlot level treePath) <;> rfl

theorem wholeMask_storage (node : TriquadtreeNode C) (storage : Nat → NodePtr C) :
    ({ node with storage := storage } : TriquadtreeNode C).wholeMask = node.wholeMask := rfl

theorem setMask_mask (node : TriquadtreeNode C) (high : Bool) :
    node.setMask high (node.mask high) = node := by
  cases high <;> rfl

theorem wholeMask_access (node : TriquadtreeNode C) (treePath : BitVec 64) (set : Bool) :
    (node.setMask (pathHigh hilo level treePath) (if set then
        node.mask (pathHigh hilo level treePath) ||| bit 64 (pathSlot level treePath)
        else node.mask (pathHigh hilo level treePath))).wholeMask =
      if set then node.wholeMask ||| bit (64 + 64) (triquadtreeSlot hilo level treePath)
      else node.wholeMask := by
  cases set with
  | true => exact wholeMask_or node treePath
  | false => exact congrArg _ (setMask_mask node _)

theorem wholeMask_remove (node : TriquadtreeNode C) (treePath : BitVec 64) (removed : Bool) :
    (node.setMask (pathHigh hilo level treePath) (if removed then
        node.mask (pathHigh hilo level treePath) ^^^ bit 64 (pathSlot level treePath)
        else node.mask (pathHigh hilo level treePath))).wholeMask =
      if removed then node.wholeMask ^^^ bit (64 + 64) (triquadtreeSlot hilo level treePath)
      else node.wholeMask := by
  cases removed with
  | true => exact wholeMask_xor node treePath
  | false => exact congrArg _ (setMask_mask node _)

theorem setMask_single (single : hilo = false → node.childMaskHigh = 0#64)
    (treePath mask : BitVec 64) (storage : Nat → NodePtr C) (base : hilo = false) :
    ({ node.setMask (pathHigh hilo level treePath) mask with
      storage := storage } : TriquadtreeNode C).childMaskHigh = 0#64 := by
  subst base
  exact single rfl

theorem triquadtree_present_iff (query : BitVec 64) (node : TriquadtreeNode C) :
    Present (triquadtreeOps hilo level child) query node ↔
      PresentAt child node.wholeMask node.storage (triquadtreeSlot hilo level query) query := by
  change (∃ data, node.lookup child hilo level query = some (some data)) ↔ _
  rw [TriquadtreeNode.lookup_eq]
  unfold PresentAt
  cases get? node.wholeMask node.storage (triquadtreeSlot hilo level query) with
  | none => simp
  | some ptr => simpa using lookupThrough_present query ptr

theorem triquadtree_empty_iff (node : TriquadtreeNode C) :
    node.empty = true ↔ node.wholeMask = 0#(64 + 64) := by
  simp only [TriquadtreeNode.empty, Bool.decide_and, Bool.and_eq_true, decide_eq_true_eq,
    TriquadtreeNode.wholeMask]
  constructor
  · rintro ⟨low, high⟩
    rw [low, high, BitVec.zero_append_zero]
  · intro zero
    have bits : ∀ i, (node.childMaskHigh ++ node.childMask).getLsbD i = false := fun i => by
      rw [zero]
      simp
    refine ⟨BitVec.eq_of_getLsbD_eq fun i hi => ?_, BitVec.eq_of_getLsbD_eq fun i hi => ?_⟩
    · have low := bits i
      rw [BitVec.getLsbD_append, if_pos hi] at low
      simpa using low
    · have high := bits (64 + i)
      rw [BitVec.getLsbD_append, if_neg (by omega), Nat.add_sub_cancel_left] at high
      simpa using high

theorem triquadtree_not_present_of_empty (empty : node.empty = true) (query : BitVec 64) :
    ¬ Present (triquadtreeOps hilo level child) query node := by
  rw [triquadtree_present_iff, (triquadtree_empty_iff node).mp empty]
  exact not_presentAt_of_clear (PackedSlots.get?_of_clear (by simp) _) query

/-- A free slot of the mask a component selects leaves room in the storage. -/
theorem triquadtree_room (single : hilo = false → node.childMaskHigh = 0#64)
    (clear : node.wholeMask.getLsbD (triquadtreeSlot hilo level treePath) = false) :
    popcount node.wholeMask < TriquadtreeNode.capacity hilo := by
  cases hilo with
  | true =>
    have room : popcount node.wholeMask + popcount (0#(64 + 64)) < 64 + 64 :=
      PackedArray.popcount_add_lt (triquadtreeSlot_lt treePath) (fun _ _ => by simp) clear
        (by simp)
    exact Nat.lt_of_le_of_lt (Nat.le_add_right _ _) room
  | false =>
    rw [getLsbD_wholeMask] at clear
    have room : popcount node.childMask + popcount (0#64) < 64 :=
      PackedArray.popcount_add_lt (pathSlot_lt level treePath) (fun _ _ => by simp) clear
        (by simp)
    rw [TriquadtreeNode.wholeMask, PackedSlots.popcount_append, single rfl]
    exact room

theorem triquadtree_access_law (laws : Lawful child view) (heap : Heap Ctx) {tick : Int}
    (valid : (triquadtreeView hilo level view).valid node)
    (safe : (triquadtreeView hilo level view).accessSafe treePath tick node) :
    ∃ heap' node' result,
      (triquadtreeOps hilo level child).access heap treePath tick node =
        some (heap', node', result) ∧
      (triquadtreeView hilo level view).valid node' ∧
      ∀ query, Present (triquadtreeOps hilo level child) query node' ↔
        Present (triquadtreeOps hilo level child) query node ∨
          result.isSome ∧ (triquadtreeView hilo level view).same treePath query := by
  change ∃ heap' node' result, node.access child hilo level heap treePath tick =
    some (heap', node', result) ∧ _
  rw [TriquadtreeNode.access_eq _ _ _ valid.1]
  obtain ⟨heap', storage', set, result, outcome, mask', mask, valid', others, present⟩ :=
    accessItem_spec laws (triquadtreeSlot_lt treePath) valid.2 safe (triquadtree_room valid.1)
      heap (calcTriquadtreeChildMinCoord child.nodeSizeChunks node.minX node.minZ
        (extractNodePathComponent level treePath))
  rw [outcome, Option.bind_some]
  refine ⟨_, _, _, rfl, ⟨setMask_single valid.1 treePath _ _, ?_⟩, ?_⟩
  all_goals
    have whole : (node.setMask (pathHigh hilo level treePath) (if set then
        node.mask (pathHigh hilo level treePath) ||| bit 64 (pathSlot level treePath)
        else node.mask (pathHigh hilo level treePath))).wholeMask = mask' :=
      (wholeMask_access node treePath set).trans mask.symm
    dsimp only
  · rw [wholeMask_storage, whole]
    exact valid'
  · intro query
    rw [triquadtree_present_iff, triquadtree_present_iff, wholeMask_storage, whole]
    by_cases here : triquadtreeSlot hilo level query = triquadtreeSlot hilo level treePath
    · simp [triquadtreeView, here, present]
    · have apart : triquadtreeSlot hilo level treePath ≠ triquadtreeSlot hilo level query :=
        fun eq => here eq.symm
      simp [triquadtreeView, apart, presentAt_congr (others _ here)]

theorem triquadtree_remove_law (laws : Lawful child view) (heap : Heap Ctx) {tick : Int}
    (valid : (triquadtreeView hilo level view).valid node)
    (safe : (triquadtreeView hilo level view).removeSafe treePath tick node) :
    ∃ heap' node' returned,
      (triquadtreeOps hilo level child).remove heap treePath tick node =
        some (heap', node', returned) ∧
      (triquadtreeView hilo level view).valid node' ∧
      (returned = true →
        (node'.empty = true ↔ TriquadtreeRemovesLast hilo level view treePath node)) ∧
      ∀ query, Present (triquadtreeOps hilo level child) query node' ↔
        Present (triquadtreeOps hilo level child) query node ∧
          ¬ (returned = true ∧ (triquadtreeView hilo level view).same treePath query) := by
  change ∃ heap' node' returned, node.remove child hilo level heap treePath tick =
    some (heap', node', returned) ∧ _
  rw [TriquadtreeNode.remove_eq _ _ _ valid.1]
  unfold TriquadtreeRemovesLast
  cases taken : node.wholeMask.getLsbD (triquadtreeSlot hilo level treePath) with
  | false =>
    have clear := PackedSlots.get?_of_clear taken node.storage
    rw [if_pos rfl, clear]
    refine ⟨_, _, _, rfl, valid, fun _ => triquadtree_empty_iff node, fun query => ?_⟩
    rw [triquadtree_present_iff]
    have absent : ∀ query, ¬ PresentAt child node.wholeMask node.storage
        (triquadtreeSlot hilo level treePath) query := not_presentAt_of_clear clear
    by_cases here : triquadtreeSlot hilo level treePath = triquadtreeSlot hilo level query
    · simp [← here, absent]
    · simp [triquadtreeView, here]
  | true =>
    rw [if_neg (by simp)]
    obtain ⟨heap', storage', removed, returned, outcome, mask', mask, valid', others, present,
      emptied⟩ := removeBelowItem_spec laws taken valid.2 safe heap
    rw [outcome, Option.bind_some]
    have whole : (node.setMask (pathHigh hilo level treePath) (if removed then
        node.mask (pathHigh hilo level treePath) ^^^ bit 64 (pathSlot level treePath)
        else node.mask (pathHigh hilo level treePath))).wholeMask = mask' :=
      (wholeMask_remove node treePath removed).trans mask.symm
    refine ⟨_, _, _, rfl, ⟨setMask_single valid.1 treePath _ _, ?_⟩, fun normal => ?_,
      fun query => ?_⟩
    · dsimp only
      rw [wholeMask_storage, whole]
      exact valid'
    · obtain ⟨ptr, held, holds, points, last⟩ := emptied normal
      have nonempty : node.wholeMask ≠ 0#(64 + 64) := by
        intro zero
        rw [zero] at taken
        simp at taken
      rw [triquadtree_empty_iff]
      dsimp only
      rw [wholeMask_storage, whole, holds]
      simp only [points, Option.some.injEq, exists_eq_left']
      rw [mask, ← last]
      cases removed with
      | true => simp
      | false => simp [nonempty]
    · dsimp only
      rw [triquadtree_present_iff, triquadtree_present_iff, wholeMask_storage, whole]
      by_cases here : triquadtreeSlot hilo level query = triquadtreeSlot hilo level treePath
      · simp [triquadtreeView, here, present]
      · have apart : triquadtreeSlot hilo level treePath ≠ triquadtreeSlot hilo level query :=
          fun eq => here eq.symm
        simp [triquadtreeView, apart, presentAt_congr (others _ here)]

theorem get?_triquadtree_copyNode (address : Nat) (node : TriquadtreeNode C) (slot : Nat) :
    get? (node.copyNode address).wholeMask (node.copyNode address).storage slot =
      get? node.wholeMask node.storage slot := by
  apply PackedSlots.get?_congr
  intro k below
  rw [TriquadtreeNode.wholeMask, PackedSlots.popcount_append] at below
  exact if_pos below

theorem triquadtree_lawful (laws : Lawful child view) :
    Lawful (triquadtreeOps hilo level child) (triquadtreeView hilo level view) := by
  refine ⟨?_, ?_, ?_, ?_, ?_⟩
  · intro query node valid
    change ∃ found, node.lookup child hilo level query = some found
    rw [TriquadtreeNode.lookup_eq]
    cases holds : get? node.wholeMask node.storage (triquadtreeSlot hilo level query) with
    | none => exact ⟨none, rfl⟩
    | some ptr =>
      obtain ⟨held, points, heldValid⟩ := valid.2 _ ptr holds
      obtain ⟨found, finds⟩ := laws.lookup_defined heldValid
      refine ⟨found, ?_⟩
      simp only [lookupThrough, points, Option.bind_eq_bind, Option.bind_some]
      exact finds
  · intro heap heap' minCoord node created
    simp only [triquadtreeOps, Prod.mk.injEq, Option.some.injEq] at created
    obtain ⟨-, rfl⟩ := created
    refine ⟨⟨fun _ => rfl, ?_⟩, ?_, ?_⟩
    · intro slot ptr holds
      rw [PackedSlots.get?_of_clear (by simp [TriquadtreeNode.wholeMask])] at holds
      cases holds
    · intro query present
      refine absurd present (triquadtree_not_present_of_empty ?_ query)
      simp [TriquadtreeNode.empty]
    · intro treePath tick ptr held holds
      rw [PackedSlots.get?_of_clear (by simp [TriquadtreeNode.wholeMask])] at holds
      cases holds
  · intro heap heap' node node' valid _ copied
    simp only [triquadtreeOps, Prod.mk.injEq, Option.some.injEq] at copied
    obtain ⟨-, rfl⟩ := copied
    have same := get?_triquadtree_copyNode heap.freeAddress node
    refine ⟨⟨valid.1, ?_⟩, ?_, ?_, ?_, ?_⟩
    · intro slot ptr holds
      exact valid.2 slot ptr ((same slot).symm.trans holds)
    · intro query
      rw [triquadtree_present_iff, triquadtree_present_iff, presentAt_congr (same _)]
    · intro treePath
      change TriquadtreeRemovesLast hilo level view treePath _ ↔
        TriquadtreeRemovesLast hilo level view treePath node
      unfold TriquadtreeRemovesLast
      rw [same]
      rfl
    · intro treePath tick safe ptr held holds
      exact safe ptr held ((same _).symm.trans holds)
    · intro treePath tick safe ptr held holds
      exact safe ptr held ((same _).symm.trans holds)
  · exact fun heap _ _ _ valid safe => triquadtree_access_law laws heap valid safe
  · intro heap treePath tick node valid safe
    obtain ⟨heap', node', returned, outcome, valid', last, present⟩ :=
      triquadtree_remove_law laws heap valid safe
    refine ⟨heap', node', returned, outcome, valid', last, ?_, fun _ => present⟩
    intro normal empty query there
    by_contra differ
    refine triquadtree_not_present_of_empty empty query ((present query).mpr ⟨there, ?_⟩)
    exact fun both => differ both.2

end Triquadtree

end Voxen.Land.StorageTree
