import Voxen.Land.StorageTreeSlots

/-!
# Accesses that throw

A user constructor may throw at any level of an access.  The nodes made and copied before stay,
the child masks agree with the slots, and a later access of the path finds its way.  Keys are
lost only where a duoctree node with a live key was copied on the way to the level that threw.
-/

namespace Voxen.Land.StorageTree

open PackedArray (popcount rank bit)
open PackedSlots (get? Filled)
open StorageTreeUtils

variable {Ctx N C D : Type}

/-! ## Accesses that return -/

/-- No user constructor throws. -/
structure NeverThrows (ctl : StorageTreeControl Ctx D) : Prop where
  chunkDefault : ∀ ctx key, (ctl.chunkUserDataDefaultCtor ctx key).2.isSome
  chunkCopy : ∀ ctx key data, (ctl.chunkUserDataCopyCtor ctx key data).2.isSome
  duoctreeDefault : ∀ ctx key, (ctl.duoctreeUserDataDefaultCtor ctx key).2.isSome
  duoctreeCopy : ∀ ctx key data, (ctl.duoctreeUserDataCopyCtor ctx key data).2.isSome

/-- Every call of the node type returns. -/
structure ReturnLaws (ops : NodeOps Ctx N D) (agrees : N → Prop) : Prop where
  create : ∀ heap minCoord, ∃ heap' node, ops.create heap minCoord = (heap', some node)
  copy : ∀ heap node, ∃ heap' node', ops.copy heap node = (heap', some node')
  access : ∀ heap treePath tick {node}, agrees node →
    ∃ heap' node' data, ops.access heap treePath tick node = some (heap', node', some data)

section Items

variable {w : Nat} {child : NodeOps Ctx C D} {agrees : C → Prop}

theorem accessThrough_returns (laws : ReturnLaws child agrees) {node : C} (agree : agrees node)
    (heap : Heap Ctx) (treePath : BitVec 64) (tick : Int) (storage : Nat → NodePtr C)
    (index : Nat) {ptr : NodePtr C} (points : ptr.node = some node) :
    ∃ heap' storage' data, accessThrough child heap treePath tick storage index ptr =
      some (heap', storage', some data) := by
  obtain ⟨heap', node', data, outcome⟩ := laws.access heap treePath tick agree
  refine ⟨heap', Function.update storage index { ptr with node := some node' }, data, ?_⟩
  simp only [accessThrough, points, outcome, Option.bind_eq_bind, Option.bind_some,
    Option.pure_def]

theorem accessItem_returns (keeps : AgreeLaws child agrees) (laws : ReturnLaws child agrees)
    {mask : BitVec w} {storage : Nat → NodePtr C} {slot capacity : Nat} (hs : slot < w)
    (agree : ItemsAgree agrees mask storage)
    (room : mask.getLsbD slot = false → popcount mask < capacity) (heap : Heap Ctx)
    (treePath : BitVec 64) (tick : Int) (minCoord : IVec3) :
    ∃ heap' storage' set data,
      accessItem child capacity heap treePath tick minCoord storage (rank mask slot)
        (popcount mask - rank mask slot) (mask.getLsbD slot) =
          some (heap', storage', set, some data) := by
  unfold accessItem
  cases present : mask.getLsbD slot with
  | true =>
    have holds := PackedSlots.get?_of_set present storage
    obtain ⟨node, points⟩ := agree.points slot _ holds
    rw [if_pos rfl]
    rcases moved : (storage (rank mask slot)).moo child heap tick with ⟨heap₁, ptr, done⟩
    obtain ⟨made, prepared, outcome⟩ := moo_cases ⟨node, points⟩ moved minCoord
    cases made with
    | none =>
      -- the copy of a node does not throw
      cases prepared with
      | copied points stale copied =>
        obtain ⟨heap₂, node', returns⟩ := laws.copy heap node
        cases points.symm.trans ‹(storage (rank mask slot)).node = some node›
        rw [returns] at copied
        cases copied
    | some ready =>
      obtain ⟨pointsReady, rfl⟩ := outcome
      have readyAgrees := keeps.prepared (fun ptr node held points =>
        agree.below slot ptr node (holds.trans held) points) prepared
      obtain ⟨heap₂, storage₂, data, through⟩ := accessThrough_returns laws readyAgrees heap₁
        treePath tick storage (rank mask slot) pointsReady
      simp only [through, Option.bind_eq_bind, Option.bind_some, Option.pure_def]
      exact ⟨_, _, _, _, rfl⟩
  | false =>
    have below := PackedArray.rank_le_popcount mask (Nat.le_of_lt hs)
    have inside : rank mask slot + (popcount mask - rank mask slot) < capacity := by
      rw [Nat.add_sub_cancel' below]
      exact room present
    obtain ⟨heap₁, node, created⟩ := laws.create heap minCoord
    obtain ⟨heap₂, storage₂, data, through⟩ := accessThrough_returns laws (keeps.create created)
      heap₁ treePath tick
      (PackedSlots.openGap storage (rank mask slot) (popcount mask - rank mask slot) {})
      (rank mask slot) (show ({ tick := tick, node := some node } : NodePtr C).node = _ from rfl)
    rw [if_neg Bool.false_ne_true]
    simp only [constructItem, if_pos inside, Option.bind_eq_bind, Option.bind_some, NodePtr.init,
      created, through, Option.pure_def]
    exact ⟨_, _, _, _, rfl⟩

end Items

variable {ctl : StorageTreeControl Ctx D} {level : Nat}

theorem chunk_returnLaws (never : NeverThrows ctl) :
    ReturnLaws (chunkOps ctl) (fun _ => True) := by
  refine ⟨fun heap minCoord => ?_, fun heap node => ?_, fun heap treePath tick node _ => ?_⟩
  · obtain ⟨data, made⟩ := Option.isSome_iff_exists.mp
      (never.chunkDefault heap.ctx (ChunkKey.ofBase minCoord))
    exact ⟨_, _, Prod.ext rfl (congrArg (Option.map _) made)⟩
  · obtain ⟨data, made⟩ := Option.isSome_iff_exists.mp
      (never.chunkCopy heap.ctx node.key node.userData)
    exact ⟨_, _, Prod.ext rfl (congrArg (Option.map _) made)⟩
  · exact ⟨heap, node, node.userData, rfl⟩

theorem duoctree_returnLaws (never : NeverThrows ctl) {child : NodeOps Ctx C D} {agrees : C → Prop}
    (keeps : AgreeLaws child agrees) (laws : ReturnLaws child agrees) :
    ReturnLaws (duoctreeOps ctl level child) (DuoctreeAgrees agrees) := by
  refine ⟨fun heap minCoord => ?_, fun heap node => ?_, fun heap treePath tick node agree => ?_⟩
  · obtain ⟨data, made⟩ := Option.isSome_iff_exists.mp
      (never.duoctreeDefault heap.ctx (ChunkKey.ofBase minCoord (2 * level)))
    exact ⟨_, _, Prod.ext rfl (congrArg (Option.map _) made)⟩
  · obtain ⟨data, made⟩ := Option.isSome_iff_exists.mp
      (never.duoctreeCopy heap.ctx node.key node.userData)
    exact ⟨_, _, Prod.ext rfl (congrArg (Option.map _) made)⟩
  · change ∃ heap' node' data, node.access child level heap treePath tick =
      some (heap', node', some data)
    rw [DuoctreeNode.access_eq]
    split
    · exact ⟨_, _, _, rfl⟩
    · have low := pathSlot_lt level treePath
      have room : node.childMask.getLsbD (pathSlot level treePath) = false →
          popcount node.childMask < 64 := by
        intro clear
        have both : popcount node.childMask + popcount (0#64) < 64 :=
          PackedArray.popcount_add_lt low (fun _ _ => by simp) clear (by simp)
        exact Nat.lt_of_le_of_lt (Nat.le_add_right _ _) both
      obtain ⟨heap', storage', set, data, outcome⟩ := accessItem_returns keeps laws low agree room
        heap treePath tick (calcDuoctreeChildMinCoord child.nodeSizeChunks node.key
          (extractNodePathComponent level treePath))
      rw [outcome]
      exact ⟨_, _, _, rfl⟩

theorem triquadtree_returnLaws {hilo : Bool} {child : NodeOps Ctx C D} {agrees : C → Prop}
    (keeps : AgreeLaws child agrees) (laws : ReturnLaws child agrees) :
    ReturnLaws (triquadtreeOps hilo level child) (TriquadtreeAgrees hilo agrees) := by
  refine ⟨fun heap minCoord => ⟨_, _, rfl⟩, fun heap node => ⟨_, _, rfl⟩,
    fun heap treePath tick node agree => ?_⟩
  change ∃ heap' node' data, node.access child hilo level heap treePath tick =
    some (heap', node', some data)
  rw [TriquadtreeNode.access_eq heap treePath tick agree.1]
  obtain ⟨heap', storage', set, data, outcome⟩ := accessItem_returns keeps laws
    (triquadtreeSlot_lt treePath) agree.2 (triquadtree_room agree.1) heap treePath tick
    (calcTriquadtreeChildMinCoord child.nodeSizeChunks node.minX node.minZ
      (extractNodePathComponent level treePath))
  rw [outcome]
  exact ⟨_, _, _, rfl⟩

theorem triquadtreeRoot_returnLaws (never : NeverThrows ctl) :
    ReturnLaws (triquadtreeRootOps ctl) (triquadtreeRootAgrees D) := by
  have x4 : ReturnLaws (duoctreeX4Ops ctl) (duoctreeX4Agrees D) :=
    duoctree_returnLaws never (chunk_agreeLaws ctl) (chunk_returnLaws never)
  have x16 : ReturnLaws (duoctreeX16Ops ctl) (duoctreeX16Agrees D) :=
    duoctree_returnLaws never (duoctreeX4_agreeLaws ctl) x4
  have x64 : ReturnLaws (duoctreeX64Ops ctl) (duoctreeX64Agrees D) :=
    duoctree_returnLaws never (duoctreeX16_agreeLaws ctl) x16
  have x256 : ReturnLaws (duoctreeX256Ops ctl) (duoctreeX256Agrees D) :=
    duoctree_returnLaws never (duoctreeX64_agreeLaws ctl) x64
  exact triquadtree_returnLaws (triquadtreeBridge_agreeLaws ctl)
    (triquadtree_returnLaws (duoctreeX256_agreeLaws ctl) x256)

/-- With constructors that do not throw, a path into the tree can always be accessed. -/
theorem access_returns (never : NeverThrows ctl) {tree : StorageTree D} (agree : MasksAgree tree)
    {treePath : BitVec 64} (bounded : rootIndex treePath < numRootItems) (heap : Heap Ctx)
    (tick : Int) :
    ∃ heap' tree' data, tree.access ctl heap treePath tick = some (heap', tree', some data) := by
  have laws := triquadtreeRoot_returnLaws never
  have keeps := triquadtreeRoot_agreeLaws ctl
  unfold StorageTree.access
  dsimp only
  rw [if_pos bounded]
  rcases ready : (if (tree.rootItems (rootIndex treePath)).node.isNone then
      (tree.rootItems (rootIndex treePath)).init (triquadtreeRootOps ctl) heap tick
        (calcRootItemMinCoord (rootIndex treePath))
    else (tree.rootItems (rootIndex treePath)).moo (triquadtreeRootOps ctl) heap tick) with
    ⟨heap₁, item, done⟩
  obtain ⟨made, prepared, outcome⟩ := rootItem_cases ready
  cases made with
  | none =>
    -- neither a new root node nor a copy of one throws
    generalize heldItem tree (rootIndex treePath) = held at prepared
    cases prepared with
    | @copied ptr node _ _ points stale copied =>
      obtain ⟨heap₂, node', returns⟩ := laws.copy heap node
      rw [returns] at copied
      cases copied
    | created created =>
      obtain ⟨heap₂, node', returns⟩ :=
        laws.create heap (calcRootItemMinCoord (rootIndex treePath))
      rw [returns] at created
      cases created
  | some node =>
    obtain ⟨points, rfl⟩ := outcome
    have readyAgrees := keeps.prepared agree.held prepared
    obtain ⟨heap₂, node', data, returns⟩ := laws.access heap₁ treePath tick readyAgrees
    simp only [points, returns, Option.bind_eq_bind, Option.bind_some, Option.pure_def]
    exact ⟨_, _, _, rfl⟩

/-! ## Accesses that do not return -/

/-- What the failure laws of a node type speak about.
* `copyKeeps` says that a copy of the node on the way of the path loses no live key;
* `failSafe` says that a call with this path and tick copies no node on its way that has a live
  key, the node the path stops at apart. -/
structure FailView (N : Type) where
  copyKeeps : BitVec 64 → N → Prop
  failSafe : BitVec 64 → Int → N → Prop

/-- What is present below a node after an access that threw. -/
structure FailLaws (ops : NodeOps Ctx N D) (agrees : N → Prop) (view : FailView N) : Prop where
  recent : ∀ {heap heap' treePath tick node node'}, agrees node →
    view.failSafe treePath tick node →
    ops.access heap treePath tick node = some (heap', node', none) →
    ∀ query, Present ops query node' ↔ Present ops query node
  copied : ∀ {heap heap₁ heap' treePath tick node made node'}, agrees node →
    view.copyKeeps treePath node → view.failSafe treePath tick node →
    ops.copy heap node = (heap₁, some made) →
    ops.access heap₁ treePath tick made = some (heap', node', none) →
    ∀ query, Present ops query node' ↔ Present ops query node
  created : ∀ {heap heap₁ heap' minCoord treePath tick made node'},
    ops.create heap minCoord = (heap₁, some made) →
    ops.access heap₁ treePath tick made = some (heap', node', none) →
    ∀ query, ¬ Present ops query node'

section Items

variable {w : Nat} {child : NodeOps Ctx C D} {agrees : C → Prop} {view : FailView C}

/-- The child on the path is safe, and so is a copy of it if one is made. -/
def ItemFailSafe (view : FailView C) (mask : BitVec w) (storage : Nat → NodePtr C) (slot : Nat)
    (treePath : BitVec 64) (tick : Int) : Prop :=
  ∀ ptr node, get? mask storage slot = some ptr → ptr.node = some node →
    (ptr.tick < tick → view.copyKeeps treePath node) ∧ view.failSafe treePath tick node

theorem accessItem_fails (laws : FailLaws child agrees view) {mask : BitVec w}
    {storage storage' : Nat → NodePtr C} {slot capacity : Nat} (hs : slot < w)
    (agree : ItemsAgree agrees mask storage) {heap heap' : Heap Ctx} {treePath : BitVec 64}
    {tick : Int} (safe : ItemFailSafe view mask storage slot treePath tick) {minCoord : IVec3}
    {set : Bool}
    (accessed : accessItem child capacity heap treePath tick minCoord storage (rank mask slot)
      (popcount mask - rank mask slot) (mask.getLsbD slot) = some (heap', storage', set, none))
    (other : Nat) (query : BitVec 64) :
    PresentAt child (if set then mask ||| bit w slot else mask) storage' other query ↔
      PresentAt child mask storage other query := by
  obtain ⟨mask', rfl, -, others, heap₁, made, prepared, outcome⟩ :=
    accessItem_cases hs (agree.points slot) accessed
  by_cases same : other = slot
  · subst same
    cases made with
    | none => exact presentAt_congr outcome.2.2 query
    | some ready =>
      obtain ⟨node', ptr', called, holds', points'⟩ := outcome
      rw [presentAt_of_slot holds' points']
      generalize held : get? mask storage other = item at prepared
      cases prepared with
      | recent points recent =>
        rw [presentAt_of_slot held points]
        exact laws.recent (agree.below other _ _ held points) (safe _ _ held points).2 called
          query
      | copied points stale copied =>
        rw [presentAt_of_slot held points]
        exact laws.copied (agree.below other _ _ held points)
          ((safe _ _ held points).1 stale) (safe _ _ held points).2 copied called query
      | created created =>
        exact iff_of_false (laws.created created called query)
          (not_presentAt_of_clear held query)
  · exact presentAt_congr (others other same) query

end Items

theorem chunk_failLaws (ctl : StorageTreeControl Ctx D) :
    FailLaws (chunkOps ctl) (fun _ => True) ⟨fun _ _ => True, fun _ _ _ => True⟩ := by
  refine ⟨?_, ?_, ?_⟩
  · intro heap heap' treePath tick node node' _ _ accessed
    cases accessed
  · intro heap heap₁ heap' treePath tick node made node' _ _ _ _ accessed
    cases accessed
  · intro heap heap₁ heap' minCoord treePath tick made node' _ accessed
    cases accessed

/-- A duoctree node the path goes past must have no live key to be copied. -/
def duoctreeFailView (level : Nat) (view : FailView C) : FailView (DuoctreeNode C D) where
  copyKeeps treePath node := pathStop level treePath = false → node.liveKeyMask = 0#32
  failSafe treePath tick node := pathStop level treePath = false →
    ItemFailSafe view node.childMask node.storage (pathSlot level treePath) treePath tick

theorem duoctree_failLaws (ctl : StorageTreeControl Ctx D) {child : NodeOps Ctx C D}
    {agrees : C → Prop} {view : FailView C} (agreeLaws : AgreeLaws child agrees)
    (laws : FailLaws child agrees view) :
    FailLaws (duoctreeOps ctl level child) (DuoctreeAgrees agrees)
      (duoctreeFailView level view) := by
  have fails : ∀ {heap heap' : Heap Ctx} {treePath : BitVec 64} {tick : Int}
      {node node' : DuoctreeNode C D}, DuoctreeAgrees agrees node →
      (duoctreeFailView level view).failSafe treePath tick node →
      node.access child level heap treePath tick = some (heap', node', none) →
      pathStop level treePath = false ∧ ∀ query,
        Present (duoctreeOps ctl level child) query node' ↔
          Present (duoctreeOps ctl level child) query node := by
    intro heap heap' treePath tick node node' agree safe accessed
    rw [DuoctreeNode.access_eq] at accessed
    cases stop : pathStop level treePath with
    | true =>
      rw [stop, if_pos rfl] at accessed
      cases accessed
    | false =>
      rw [stop, if_neg Bool.false_ne_true, Option.bind_eq_some_iff] at accessed
      obtain ⟨⟨heap₁, storage', set, found⟩, outcome, ends⟩ := accessed
      cases ends
      refine ⟨rfl, fun query => ?_⟩
      rw [duoctree_present_iff, duoctree_present_iff]
      split
      · rfl
      · exact accessItem_fails laws (pathSlot_lt level treePath) agree (safe stop) outcome _ query
  refine ⟨fun agree safe accessed => (fails agree safe accessed).2, ?_, ?_⟩
  · intro heap heap₁ heap' treePath tick node made node' agree keeps safe copied accessed query
    have copyAgrees := (duoctree_agreeLaws ctl agreeLaws).copy agree copied
    obtain ⟨data, rfl⟩ := duoctree_copy copied
    have same := get?_copyNode heap.freeAddress data node
    obtain ⟨goesOn, unchanged⟩ := fails copyAgrees (fun goesOn ptr held holds =>
      safe goesOn ptr held ((same _).symm.trans holds)) accessed
    rw [unchanged, duoctree_present_iff, duoctree_present_iff, keeps goesOn,
      presentAt_congr (same _)]
    rfl
  · intro heap heap₁ heap' minCoord treePath tick made node' created accessed query present
    obtain ⟨noKey, noChild⟩ := duoctree_create created
    have madeAgrees := (duoctree_agreeLaws ctl agreeLaws).create created
    have vacuous : (duoctreeFailView level view).failSafe treePath tick made := by
      intro _ ptr held holds
      rw [noChild, PackedSlots.get?_of_clear (by simp)] at holds
      cases holds
    rw [(fails madeAgrees vacuous accessed).2] at present
    exact duoctree_not_present_of_empty (by simp [DuoctreeNode.empty, noKey, noChild]) query present

/-- Copies of triquadtree nodes lose nothing. -/
def triquadtreeFailView (hilo : Bool) (level : Nat) (view : FailView C) :
    FailView (TriquadtreeNode C) where
  copyKeeps _ _ := True
  failSafe treePath tick node :=
    ItemFailSafe view node.wholeMask node.storage (triquadtreeSlot hilo level treePath) treePath
      tick

theorem triquadtree_failLaws {hilo : Bool} {child : NodeOps Ctx C D} {agrees : C → Prop}
    {view : FailView C} (agreeLaws : AgreeLaws child agrees) (laws : FailLaws child agrees view) :
    FailLaws (triquadtreeOps hilo level child) (TriquadtreeAgrees hilo agrees)
      (triquadtreeFailView hilo level view) := by
  have nodeLaws : AgreeLaws (triquadtreeOps hilo level child) (TriquadtreeAgrees hilo agrees) :=
    triquadtree_agreeLaws agreeLaws
  have fails : ∀ {heap heap' : Heap Ctx} {treePath : BitVec 64} {tick : Int}
      {node node' : TriquadtreeNode C}, TriquadtreeAgrees hilo agrees node →
      (triquadtreeFailView hilo level view).failSafe treePath tick node →
      node.access child hilo level heap treePath tick = some (heap', node', none) →
      ∀ query, Present (triquadtreeOps hilo level child) query node' ↔
        Present (triquadtreeOps hilo level child) query node := by
    intro heap heap' treePath tick node node' agree safe accessed query
    rw [TriquadtreeNode.access_eq heap treePath tick agree.1, Option.bind_eq_some_iff] at accessed
    obtain ⟨⟨heap₁, storage', set, found⟩, outcome, ends⟩ := accessed
    cases ends
    rw [triquadtree_present_iff, triquadtree_present_iff, wholeMask_storage,
      wholeMask_access node treePath set]
    exact accessItem_fails laws (triquadtreeSlot_lt treePath) agree.2 safe outcome _ query
  refine ⟨fun agree safe accessed => fails agree safe accessed, ?_, ?_⟩
  · intro heap heap₁ heap' treePath tick node made node' agree _ safe copied accessed query
    have copyAgrees := nodeLaws.copy agree copied
    simp only [triquadtreeOps, Prod.mk.injEq, Option.some.injEq] at copied
    obtain ⟨-, rfl⟩ := copied
    have same := get?_triquadtree_copyNode heap.freeAddress node
    rw [fails copyAgrees (fun ptr held holds => safe ptr held ((same _).symm.trans holds))
      accessed, triquadtree_present_iff, triquadtree_present_iff, presentAt_congr (same _)]
  · intro heap heap₁ heap' minCoord treePath tick made node' created accessed query present
    have madeAgrees := nodeLaws.create created
    simp only [triquadtreeOps, Prod.mk.injEq, Option.some.injEq] at created
    obtain ⟨-, rfl⟩ := created
    rw [fails madeAgrees (fun ptr held holds => ?_) accessed] at present
    · exact triquadtree_not_present_of_empty (by simp [TriquadtreeNode.empty]) query present
    · rw [PackedSlots.get?_of_clear (by simp [TriquadtreeNode.wholeMask])] at holds
      cases holds

section Views

variable (D)

def duoctreeX4FailView : FailView (DuoctreeX4Node D) :=
  duoctreeFailView 1 ⟨fun _ _ => True, fun _ _ _ => True⟩
def duoctreeX16FailView : FailView (DuoctreeX16Node D) := duoctreeFailView 2 (duoctreeX4FailView D)
def duoctreeX64FailView : FailView (DuoctreeX64Node D) :=
  duoctreeFailView 3 (duoctreeX16FailView D)
def duoctreeX256FailView : FailView (DuoctreeX256Node D) :=
  duoctreeFailView 4 (duoctreeX64FailView D)
def triquadtreeBridgeFailView : FailView (TriquadtreeBridgeNode D) :=
  triquadtreeFailView true 5 (duoctreeX256FailView D)
def triquadtreeRootFailView : FailView (TriquadtreeRootNode D) :=
  triquadtreeFailView false 6 (triquadtreeBridgeFailView D)

end Views

theorem triquadtreeRoot_failLaws (ctl : StorageTreeControl Ctx D) :
    FailLaws (triquadtreeRootOps ctl) (triquadtreeRootAgrees D) (triquadtreeRootFailView D) := by
  have x4 : FailLaws (duoctreeX4Ops ctl) (duoctreeX4Agrees D) (duoctreeX4FailView D) :=
    duoctree_failLaws ctl (chunk_agreeLaws ctl) (chunk_failLaws ctl)
  have x16 : FailLaws (duoctreeX16Ops ctl) (duoctreeX16Agrees D) (duoctreeX16FailView D) :=
    duoctree_failLaws ctl (duoctreeX4_agreeLaws ctl) x4
  have x64 : FailLaws (duoctreeX64Ops ctl) (duoctreeX64Agrees D) (duoctreeX64FailView D) :=
    duoctree_failLaws ctl (duoctreeX16_agreeLaws ctl) x16
  have x256 : FailLaws (duoctreeX256Ops ctl) (duoctreeX256Agrees D) (duoctreeX256FailView D) :=
    duoctree_failLaws ctl (duoctreeX64_agreeLaws ctl) x64
  exact triquadtree_failLaws (triquadtreeBridge_agreeLaws ctl)
    (triquadtree_failLaws (duoctreeX256_agreeLaws ctl) x256)

/-! ## The tree after an access that threw -/

/-- No duoctree node with a live key that is older than the tick lies on the path, the node it
stops at apart. -/
def FailSafe (treePath : BitVec 64) (tick : Int) (tree : StorageTree D) : Prop :=
  ∀ node, (tree.rootItems (rootIndex treePath)).node = some node →
    (triquadtreeRootFailView D).failSafe treePath tick node

/-- If the access throws, every lookup finds what it found before, the masks agree with the
slots, and the path can be accessed later. -/
def ThrowsCleanly (ctl : StorageTreeControl Ctx D) (state : RunState Ctx D) (treePath : BitVec 64)
    (tick : Int) : Prop :=
  ∀ heap' tree', state.tree.access ctl state.heap treePath tick = some (heap', tree', none) →
    (∀ query, PresentKey ctl query tree' ↔ PresentKey ctl query state.tree) ∧ MasksAgree tree' ∧
    ∀ later : StorageTreeControl Ctx D, NeverThrows later → ∀ heap'' tick',
      ∃ heap₃ tree₃ data,
        tree'.access later heap'' treePath tick' = some (heap₃, tree₃, some data)

theorem presentKey_iff_root (query : BitVec 64) (tree : StorageTree D) :
    PresentKey ctl query tree ↔ rootIndex query < numRootItems ∧
      ∃ node, (tree.rootItems (rootIndex query)).node = some node ∧
        Present (triquadtreeRootOps ctl) query node := by
  unfold PresentKey StorageTree.lookup Present
  dsimp only
  by_cases bounded : rootIndex query < numRootItems
  · rw [if_pos bounded]
    cases (tree.rootItems (rootIndex query)).node with
    | none => simp
    | some node => simp [bounded]
  · rw [if_neg bounded]
    simp [bounded]

theorem access_fails {tree tree' : StorageTree D} (agree : MasksAgree tree) {heap heap' : Heap Ctx}
    {treePath : BitVec 64} {tick : Int} (safe : FailSafe treePath tick tree)
    (accessed : tree.access ctl heap treePath tick = some (heap', tree', none))
    (query : BitVec 64) :
    PresentKey ctl query tree' ↔ PresentKey ctl query tree := by
  have laws := triquadtreeRoot_failLaws ctl
  obtain ⟨-, others, heap₁, made, prepared, outcome⟩ := access_cases accessed
  rw [presentKey_iff_root, presentKey_iff_root]
  refine and_congr_right fun _ => ?_
  by_cases same : rootIndex query = rootIndex treePath
  · rw [same]
    cases made with
    | none => rw [outcome.2.2]
    | some ready =>
      obtain ⟨node', called, points'⟩ := outcome
      generalize held : heldItem tree (rootIndex treePath) = item at prepared
      simp only [points', Option.some.injEq, exists_eq_left']
      cases prepared with
      | recent points recent =>
        obtain ⟨-, rfl⟩ := heldItem_eq_some.mp held
        simp only [points, Option.some.injEq, exists_eq_left']
        exact laws.recent (agree _ _ points) (safe _ points) called query
      | copied points stale copied =>
        obtain ⟨-, rfl⟩ := heldItem_eq_some.mp held
        simp only [points, Option.some.injEq, exists_eq_left']
        exact laws.copied (agree _ _ points) trivial (safe _ points) copied called query
      | created created =>
        refine iff_of_false (laws.created created called query) ?_
        rintro ⟨node, points, -⟩
        rw [heldItem, points] at held
        cases held
  · rw [others _ same]

/-- Chunks are never made. -/
def noChunkControl : StorageTreeControl Unit Unit :=
  { unitControl with chunkUserDataDefaultCtor := fun ctx _ => (ctx, none) }

end Voxen.Land.StorageTree
