import Voxen.Land.StorageTreeAncestors
import Voxen.Land.StorageTreeSlots

/-!
# The keys user data is made for

User constructors are told the key of the node they are called for. Here they are recorded:
whatever calls came before, an access calls them for nodes on its path only, and each time
with the ancestor of the path's key that has the scale of the node.
-/

namespace Voxen.Land.StorageTree

open PackedArray (popcount rank bit)
open PackedSlots (get?)
open StorageTreeUtils

variable {Ctx N C D : Type}

/-! ## Recorded constructors -/

/-- The result of a call with the given key, the data with the key and the key recorded. -/
def recordCall (key : ChunkKey) (keys : List ChunkKey) (result : Ctx × Option D) :
    (Ctx × List ChunkKey) × Option (D × ChunkKey) :=
  ((result.1, keys ++ [key]), result.2.map fun data => (data, key))

/-- The control with a context that also lists the keys of the calls, and blocks that also
tell the key they were made for. -/
def recorded (ctl : StorageTreeControl Ctx D) :
    StorageTreeControl (Ctx × List ChunkKey) (D × ChunkKey) where
  chunkUserDataDefaultCtor ctx key :=
    recordCall key ctx.2 (ctl.chunkUserDataDefaultCtor ctx.1 key)
  chunkUserDataCopyCtor ctx key data :=
    recordCall key ctx.2 (ctl.chunkUserDataCopyCtor ctx.1 key data.1)
  duoctreeUserDataDefaultCtor ctx key :=
    recordCall key ctx.2 (ctl.duoctreeUserDataDefaultCtor ctx.1 key)
  duoctreeUserDataCopyCtor ctx key data :=
    recordCall key ctx.2 (ctl.duoctreeUserDataCopyCtor ctx.1 key data.1)

/-- What the key laws of a node type speak about, for a node with the given corner.
* `own` are the keys of the user constructors that are called when the node is made;
* `keyed` says that the keys stored in the node and below it are those of the corner;
* `below` are the keys on the path below the node;
* `final` is the key of the block the path leads to. -/
structure KeyView (N : Type) where
  own : IVec3 → List ChunkKey
  keyed : IVec3 → N → Prop
  below : BitVec 64 → IVec3 → List ChunkKey
  final : BitVec 64 → IVec3 → ChunkKey

/-- A call has recorded some of the keys, in their order. -/
def Records (heap heap' : Heap (Ctx × List ChunkKey)) (keys : List ChunkKey) : Prop :=
  ∃ new, heap'.ctx.2 = heap.ctx.2 ++ new ∧ new.Sublist keys

theorem Records.nothing (heap : Heap (Ctx × List ChunkKey)) (keys : List ChunkKey) :
    Records heap heap keys := ⟨[], (List.append_nil _).symm, List.nil_sublist _⟩

variable {heap : Heap (Ctx × List ChunkKey)}

variable {first : List ChunkKey} {component component' : BitVec 64} {own : ChunkKey}

theorem Records.append {heap₁ heap₂ : Heap (Ctx × List ChunkKey)} {second : List ChunkKey}
    (left : Records heap heap₁ first) (right : Records heap₁ heap₂ second) :
    Records heap heap₂ (first ++ second) := by
  obtain ⟨new, grown, part⟩ := left
  obtain ⟨new', grown', part'⟩ := right
  exact ⟨new ++ new', by rw [grown', grown, List.append_assoc], part.append part'⟩

theorem Records.left {heap' : Heap (Ctx × List ChunkKey)} (records : Records heap heap' first)
    (second : List ChunkKey) :
    Records heap heap' (first ++ second) := by
  obtain ⟨new, grown, part⟩ := records
  exact ⟨new, grown, part.trans (List.sublist_append_left _ _)⟩

/-- The key laws of a node type. -/
structure KeyLaws (ops : NodeOps (Ctx × List ChunkKey) N (D × ChunkKey)) (view : KeyView N) :
    Prop where
  create : ∀ {heap heap' minCoord made}, ops.create heap minCoord = (heap', made) →
    Records heap heap' (view.own minCoord) ∧ ∀ node, made = some node → view.keyed minCoord node
  copy : ∀ {heap heap' minCoord node made}, view.keyed minCoord node →
    ops.copy heap node = (heap', made) →
    Records heap heap' (view.own minCoord) ∧ ∀ node, made = some node → view.keyed minCoord node
  access : ∀ {heap heap' minCoord treePath tick node node' result}, view.keyed minCoord node →
    ops.access heap treePath tick node = some (heap', node', result) →
    view.keyed minCoord node' ∧ Records heap heap' (view.below treePath minCoord) ∧
    ∀ data, result = some data → data.2 = view.final treePath minCoord
  remove : ∀ {heap heap' minCoord treePath tick node node' returned}, view.keyed minCoord node →
    ops.remove heap treePath tick node = some (heap', node', returned) →
    view.keyed minCoord node'

/-! ## Chunk nodes -/

def chunkKeyView (D : Type) : KeyView (ChunkNode (D × ChunkKey)) where
  own minCoord := [ChunkKey.ofBase minCoord]
  keyed minCoord node :=
    node.key = ChunkKey.ofBase minCoord ∧ node.userData.2 = ChunkKey.ofBase minCoord
  below _ _ := []
  final _ minCoord := ChunkKey.ofBase minCoord

theorem chunk_keyLaws (ctl : StorageTreeControl Ctx D) :
    KeyLaws (chunkOps (recorded ctl)) (chunkKeyView D) := by
  refine ⟨?_, ?_, ?_, ?_⟩
  · intro heap heap' minCoord made created
    simp only [chunkOps, recorded, recordCall, Prod.mk.injEq] at created
    obtain ⟨rfl, rfl⟩ := created
    refine ⟨⟨_, rfl, List.Sublist.refl _⟩, fun node some => ?_⟩
    simp only [Option.map_map, Option.map_eq_some_iff] at some
    obtain ⟨data, -, rfl⟩ := some
    exact ⟨rfl, rfl⟩
  · intro heap heap' minCoord node made keyed copied
    simp only [chunkOps, recorded, recordCall, Prod.mk.injEq] at copied
    obtain ⟨rfl, rfl⟩ := copied
    refine ⟨⟨_, rfl, by rw [keyed.1]; exact List.Sublist.refl _⟩, fun node' some => ?_⟩
    simp only [Option.map_map, Option.map_eq_some_iff] at some
    obtain ⟨data, -, rfl⟩ := some
    exact ⟨keyed.1, keyed.1⟩
  · intro heap heap' minCoord treePath tick node node' result keyed accessed
    cases accessed
    refine ⟨keyed, Records.nothing heap _, fun data same => ?_⟩
    cases same
    exact keyed.2
  · intro heap heap' minCoord treePath tick node node' returned keyed removed
    cases removed
    exact keyed

/-! ## Child pointers -/

section Items

variable {w : Nat} {child : NodeOps (Ctx × List ChunkKey) C (D × ChunkKey)} {view : KeyView C}

/-- The node is keyed for every corner of its slot. -/
def KeyedAt (view : KeyView C) (corners : IVec3 → Prop) (node : C) : Prop :=
  ∀ corner, corners corner → view.keyed corner node

/-- Every taken slot holds a pointer to a node that is keyed for the corners of the slot. -/
def ItemsKeyed (view : KeyView C) (corners : Nat → IVec3 → Prop) (mask : BitVec w)
    (storage : Nat → NodePtr C) : Prop :=
  ∀ slot ptr, get? mask storage slot = some ptr →
    ∃ node, ptr.node = some node ∧ KeyedAt view (corners slot) node

variable {corners : Nat → IVec3 → Prop} {mask : BitVec w} {storage storage' : Nat → NodePtr C}
  {heap heap' : Heap (Ctx × List ChunkKey)} {tick : Int}

theorem ItemsKeyed.replace {mask' : BitVec w} (keyed : ItemsKeyed view corners mask storage)
    (slot : Nat)
    (others : ∀ other, other ≠ slot → get? mask' storage' other = get? mask storage other)
    (atSlot : ∀ ptr, get? mask' storage' slot = some ptr →
      ∃ node, ptr.node = some node ∧ KeyedAt view (corners slot) node) :
    ItemsKeyed view corners mask' storage' := by
  intro other ptr holds
  by_cases same : other = slot
  · rw [same] at holds
    exact same ▸ atSlot ptr holds
  · rw [others other same] at holds
    exact keyed other ptr holds

theorem ItemsKeyed.points (keyed : ItemsKeyed view corners mask storage) (slot : Nat)
    (ptr : NodePtr C) (holds : get? mask storage slot = some ptr) : Points ptr :=
  (keyed slot ptr holds).imp fun _ both => both.1

variable {minCoord : IVec3} {capacity slot : Nat}

theorem KeyLaws.prepared_held (laws : KeyLaws child view) {corners : IVec3 → Prop} {ptr : NodePtr C}
    (keyed : ∃ node, ptr.node = some node ∧ KeyedAt view corners node) {made : C}
    (prepared : Prepared child heap tick minCoord (some ptr) heap' (some made)) :
    KeyedAt view corners made := by
  obtain ⟨node, points, nodeKeyed⟩ := keyed
  cases prepared with
  | recent points' recent =>
    cases points.symm.trans points'
    exact nodeKeyed
  | copied points' stale copied =>
    cases points.symm.trans points'
    exact fun corner isCorner => (laws.copy (nodeKeyed corner isCorner) copied).2 made rfl

theorem KeyLaws.prepared (laws : KeyLaws child view) {corners : IVec3 → Prop}
    (corner : corners minCoord)
    (alike : ∀ other node, corners other → view.keyed minCoord node → view.keyed other node)
    {held : Option (NodePtr C)}
    (keyed : ∀ ptr, held = some ptr → ∃ node, ptr.node = some node ∧ KeyedAt view corners node)
    {made : Option C} (prepared : Prepared child heap tick minCoord held heap' made) :
    Records heap heap' (view.own minCoord) ∧ ∀ node, made = some node →
      KeyedAt view corners node := by
  cases prepared with
  | recent points recent =>
    refine ⟨Records.nothing _ _, fun node same => ?_⟩
    cases same
    obtain ⟨own, points', nodeKeyed⟩ := keyed _ rfl
    cases points.symm.trans points'
    exact nodeKeyed
  | copied points stale copied =>
    obtain ⟨node, points', nodeKeyed⟩ := keyed _ rfl
    cases points.symm.trans points'
    exact ⟨(laws.copy (nodeKeyed minCoord corner) copied).1, fun node same other isCorner =>
      (laws.copy (nodeKeyed other isCorner) copied).2 node same⟩
  | created created =>
    obtain ⟨records, known⟩ := laws.create created
    exact ⟨records, fun node made' other isCorner =>
      alike other node isCorner (known node made')⟩

/-- An access of a child keeps the slots keyed, and records keys of the path only. -/
theorem accessItem_keyed (laws : KeyLaws child view) (hs : slot < w)
    (keyed : ItemsKeyed view corners mask storage) (minCoord : IVec3)
    (corner : corners slot minCoord)
    (alike : ∀ other node, corners slot other → view.keyed minCoord node → view.keyed other node)
    {treePath : BitVec 64} {set : Bool} {result : Option (D × ChunkKey)}
    (accessed : accessItem child capacity heap treePath tick minCoord storage (rank mask slot)
      (popcount mask - rank mask slot) (mask.getLsbD slot) = some (heap', storage', set, result)) :
    ItemsKeyed view corners (if set then mask ||| bit w slot else mask) storage' ∧
      Records heap heap' (view.own minCoord ++ view.below treePath minCoord) ∧
      ∀ data, result = some data → data.2 = view.final treePath minCoord := by
  obtain ⟨mask', rfl, -, others, heap₁, made, prepared, outcome⟩ :=
    accessItem_cases hs (keyed.points slot) accessed
  obtain ⟨own, known⟩ := laws.prepared corner alike (keyed slot) prepared
  cases made with
  | none =>
    obtain ⟨rfl, rfl, kept⟩ := outcome
    refine ⟨keyed.replace slot others fun ptr holds => ?_, own.left _, nofun⟩
    exact keyed slot ptr (kept.symm.trans holds)
  | some node =>
    obtain ⟨node', ptr, called, holds, points⟩ := outcome
    have nodeKeyed := known node rfl
    obtain ⟨-, below, final⟩ := laws.access (nodeKeyed minCoord corner) called
    refine ⟨keyed.replace slot others fun other same => ?_, own.append below, final⟩
    rw [holds] at same
    cases same
    exact ⟨node', points, fun other isCorner => (laws.access (nodeKeyed other isCorner) called).1⟩

theorem removeBelowItem_keyed (laws : KeyLaws child view) (present : mask.getLsbD slot = true)
    (keyed : ItemsKeyed view corners mask storage) {treePath : BitVec 64} {removed returned : Bool}
    (done : removeBelowItem child capacity heap treePath tick storage (rank mask slot)
      (popcount mask - rank mask slot) = some (heap', storage', removed, returned)) :
    ItemsKeyed view corners (if removed then mask ^^^ bit w slot else mask) storage' := by
  obtain ⟨mask', rfl, -, others, heap₁, made, prepared, outcome⟩ :=
    removeBelowItem_cases present (keyed.points slot) done ⟨0, 0, 0⟩
  have taken := PackedSlots.get?_of_set present storage
  cases made with
  | none =>
    obtain ⟨-, rfl, rfl, -⟩ := outcome
    exact keyed
  | some node =>
    obtain ⟨node', called, outcome⟩ := outcome
    refine keyed.replace slot others fun other same => ?_
    split at outcome
    · rw [outcome.2] at same
      cases same
    · obtain ⟨-, ptr, holds, points⟩ := outcome
      rw [holds] at same
      cases same
      exact ⟨node', points, fun corner isCorner =>
        laws.remove (laws.prepared_held (keyed slot _ taken) (taken ▸ prepared) corner isCorner)
          called⟩

end Items

/-! ## Duoctree nodes -/

/-- The bits a mask of the low six bits selects are those of the child index. -/
theorem and_congr_childIndex (same : childIndex component = childIndex component')
    (mask : BitVec 64) (low : 63#64 &&& mask = mask) :
    component &&& mask = component' &&& mask := by
  have equal : component &&& 63#64 = component' &&& 63#64 := BitVec.eq_of_toNat_eq same
  rw [← low, ← BitVec.and_assoc, ← BitVec.and_assoc, equal]

theorem calcDuoctreeChildMinCoord_congr (same : childIndex component = childIndex component')
    (childSize : Nat) (key : ChunkKey) :
    calcDuoctreeChildMinCoord childSize key component =
      calcDuoctreeChildMinCoord childSize key component' := by
  unfold calcDuoctreeChildMinCoord
  rw [and_congr_childIndex same 0b010000#64 (by decide),
    and_congr_childIndex same 0b010#64 (by decide),
    and_congr_childIndex same 0b100000#64 (by decide),
    and_congr_childIndex same 0b100#64 (by decide),
    and_congr_childIndex same 0b001000#64 (by decide),
    and_congr_childIndex same 0b001#64 (by decide)]

section Duoctree

variable (level childSize : Nat) (view : KeyView C)

/-- The corner of the children in a slot. -/
def DuoctreeCorner (key : ChunkKey) (slot : Nat) (corner : IVec3) : Prop :=
  ∃ component, childIndex component = slot ∧
    corner = calcDuoctreeChildMinCoord childSize key component

/-- The corner of the child the path goes on with. -/
def duoctreePathCorner (treePath : BitVec 64) (minCoord : IVec3) : IVec3 :=
  calcDuoctreeChildMinCoord childSize (ChunkKey.ofBase minCoord (2 * level))
    (extractNodePathComponent level treePath)

def duoctreeKeyView : KeyView (DuoctreeNode C (D × ChunkKey)) where
  own minCoord := [ChunkKey.ofBase minCoord (2 * level)]
  keyed minCoord node :=
    node.key = ChunkKey.ofBase minCoord (2 * level) ∧
      node.userData.2 = ChunkKey.ofBase minCoord (2 * level) ∧
      ItemsKeyed view (DuoctreeCorner childSize node.key) node.childMask node.storage
  below treePath minCoord :=
    if pathStop level treePath then []
    else view.own (duoctreePathCorner level childSize treePath minCoord) ++
      view.below treePath (duoctreePathCorner level childSize treePath minCoord)
  final treePath minCoord :=
    if pathStop level treePath then ChunkKey.ofBase minCoord (2 * level)
    else view.final treePath (duoctreePathCorner level childSize treePath minCoord)

variable {level} {view} {child : NodeOps (Ctx × List ChunkKey) C (D × ChunkKey)}

theorem duoctree_keyLaws (ctl : StorageTreeControl Ctx D) (laws : KeyLaws child view) :
    KeyLaws (duoctreeOps (recorded ctl) level child)
      (duoctreeKeyView level child.nodeSizeChunks view) := by
  refine ⟨?_, ?_, ?_, ?_⟩
  · intro heap heap' minCoord made created
    simp only [duoctreeOps, recorded, recordCall, Prod.mk.injEq] at created
    obtain ⟨rfl, rfl⟩ := created
    refine ⟨⟨_, rfl, List.Sublist.refl _⟩, fun node some => ?_⟩
    simp only [Option.map_map, Option.map_eq_some_iff] at some
    obtain ⟨data, -, rfl⟩ := some
    refine ⟨rfl, rfl, fun slot ptr holds => ?_⟩
    rw [PackedSlots.get?_of_clear (by simp)] at holds
    cases holds
  · intro heap heap' minCoord node made keyed copied
    obtain ⟨own, block, items⟩ := keyed
    simp only [duoctreeOps, recorded, recordCall, Prod.mk.injEq] at copied
    obtain ⟨rfl, rfl⟩ := copied
    refine ⟨⟨_, rfl, by rw [own]; exact List.Sublist.refl _⟩, fun node' some => ?_⟩
    simp only [Option.map_map, Option.map_eq_some_iff] at some
    obtain ⟨data, -, rfl⟩ := some
    refine ⟨own, own, fun slot ptr holds => items slot ptr ?_⟩
    exact (get?_copyNode _ _ node slot).symm.trans holds
  · intro heap heap' minCoord treePath tick node node' result keyed accessed
    obtain ⟨own, block, items⟩ := keyed
    change node.access child level heap treePath tick = some (heap', node', result) at accessed
    rw [DuoctreeNode.access_eq] at accessed
    unfold duoctreeKeyView
    dsimp only
    cases stop : pathStop level treePath with
    | true =>
      rw [stop, if_pos rfl] at accessed
      cases accessed
      refine ⟨⟨own, block, items⟩, Records.nothing heap _, fun data same => ?_⟩
      cases same
      exact block
    | false =>
      rw [stop, if_neg Bool.false_ne_true, Option.bind_eq_some_iff] at accessed
      obtain ⟨⟨heap₁, storage', set, found⟩, outcome, ends⟩ := accessed
      cases ends
      rw [own] at outcome
      obtain ⟨items', records, final⟩ := accessItem_keyed laws (pathSlot_lt level treePath) items
        (duoctreePathCorner level child.nodeSizeChunks treePath minCoord)
        ⟨_, rfl, by rw [own]; rfl⟩ (by
          rintro other held ⟨component, index, rfl⟩ heldKeyed
          rw [own, calcDuoctreeChildMinCoord_congr index]
          exact heldKeyed) outcome
      exact ⟨⟨own, block, items'⟩, records, final⟩
  · intro heap heap' minCoord treePath tick node node' returned keyed removed
    obtain ⟨own, block, items⟩ := keyed
    change node.remove child level heap treePath tick = some (heap', node', returned) at removed
    rw [DuoctreeNode.remove_eq] at removed
    split at removed
    · cases removed
      exact ⟨own, block, items⟩
    · split at removed
      · cases removed
        exact ⟨own, block, items⟩
      · rename_i occupied
        rw [Option.bind_eq_some_iff] at removed
        obtain ⟨⟨heap₁, storage', gone, normal⟩, outcome, ends⟩ := removed
        cases ends
        exact ⟨own, block, removeBelowItem_keyed laws (by simpa using occupied) items outcome⟩

end Duoctree

/-! ## Triquadtree nodes -/

section Triquadtree

variable (hilo : Bool) (level childSize : Nat) (view : KeyView C)

/-- The corner of the children in a slot, those for negative Y in the slots of the second
mask. -/
def TriquadtreeCorner (minX minZ : BitVec 32) (slot : Nat) (corner : IVec3) : Prop :=
  ∃ component, (if hilo && triquadtreeYNegative component then 64 + childIndex component
      else childIndex component) = slot ∧
    corner = calcTriquadtreeChildMinCoord childSize minX minZ component

/-- The corner of the child the path goes on with. -/
def triquadtreePathCorner (treePath : BitVec 64) (minCoord : IVec3) : IVec3 :=
  calcTriquadtreeChildMinCoord childSize minCoord.x minCoord.z
    (extractNodePathComponent level treePath)

def triquadtreeKeyView : KeyView (TriquadtreeNode C) where
  own _ := []
  keyed minCoord node :=
    node.minX = minCoord.x ∧ node.minZ = minCoord.z ∧
      (hilo = false → node.childMaskHigh = 0#64) ∧
      ItemsKeyed view (TriquadtreeCorner hilo childSize node.minX node.minZ) node.wholeMask
        node.storage
  below treePath minCoord :=
    view.own (triquadtreePathCorner level childSize treePath minCoord) ++
      view.below treePath (triquadtreePathCorner level childSize treePath minCoord)
  final treePath minCoord :=
    view.final treePath (triquadtreePathCorner level childSize treePath minCoord)

/-- Nodes of this type do not know their height. -/
def ColumnOnly (view : KeyView C) : Prop :=
  ∀ corner corner' node, corner.x = corner'.x → corner.z = corner'.z →
    view.keyed corner node → view.keyed corner' node

theorem triquadtree_columnOnly :
    ColumnOnly (triquadtreeKeyView hilo level childSize view) := by
  rintro corner corner' node x z ⟨minX, minZ, single, items⟩
  exact ⟨minX.trans x, minZ.trans z, single, items⟩

variable {hilo} {level} {view} {child : NodeOps (Ctx × List ChunkKey) C (D × ChunkKey)}

/-- The column of a child depends on its index only, the height on the mask bit. -/
theorem calcTriquadtreeChildMinCoord_congr {component component' : BitVec 64}
    (same : childIndex component = childIndex component') (minX minZ : BitVec 32) :
    calcTriquadtreeChildMinCoord childSize minX minZ component =
      { calcTriquadtreeChildMinCoord childSize minX minZ component' with
        y := if triquadtreeYNegative component then -BitVec.ofNat 32 childSize else 0#32 } := by
  unfold calcTriquadtreeChildMinCoord
  rw [and_congr_childIndex same 0b100000#64 (by decide),
    and_congr_childIndex same 0b1000#64 (by decide), and_congr_childIndex same 0b10#64 (by decide),
    and_congr_childIndex same 0b010000#64 (by decide),
    and_congr_childIndex same 0b0100#64 (by decide), and_congr_childIndex same 0b01#64 (by decide)]

theorem triquadtreeCorner_alike (column : hilo = false → ColumnOnly view) {minX minZ : BitVec 32}
    {treePath : BitVec 64} {corner : IVec3} {node : C}
    (isCorner : TriquadtreeCorner hilo childSize minX minZ (triquadtreeSlot hilo level treePath)
      corner)
    (keyed : view.keyed (calcTriquadtreeChildMinCoord childSize minX minZ
      (extractNodePathComponent level treePath)) node) : view.keyed corner node := by
  obtain ⟨component, index, rfl⟩ := isCorner
  have low := pathSlot_lt level treePath
  have low' : childIndex component < 64 := by
    unfold childIndex
    rw [BitVec.toNat_and]
    exact Nat.lt_succ_of_le Nat.and_le_right
  have same : childIndex component = pathSlot level treePath := by
    unfold triquadtreeSlot at index
    split at index <;> split at index <;> omega
  rw [calcTriquadtreeChildMinCoord_congr childSize same]
  cases hilo with
  | false => exact column rfl _ _ node (by rfl) (by rfl) keyed
  | true =>
    have high : triquadtreeYNegative component =
        triquadtreeYNegative (extractNodePathComponent level treePath) := by
      unfold triquadtreeSlot pathHigh at index
      rw [Bool.true_and, Bool.true_and] at index
      cases first : triquadtreeYNegative component <;>
        cases second : triquadtreeYNegative (extractNodePathComponent level treePath) <;>
        simp only [first, second, if_true, if_false, Bool.false_eq_true] at index ⊢ <;> omega
    rw [high]
    exact keyed

theorem setMask_minX (node : TriquadtreeNode C) (high : Bool) (mask : BitVec 64) :
    (node.setMask high mask).minX = node.minX := by
  cases high <;> rfl

theorem setMask_minZ (node : TriquadtreeNode C) (high : Bool) (mask : BitVec 64) :
    (node.setMask high mask).minZ = node.minZ := by
  cases high <;> rfl

theorem triquadtree_keyLaws (column : hilo = false → ColumnOnly view)
    (laws : KeyLaws child view) :
    KeyLaws (triquadtreeOps hilo level child)
      (triquadtreeKeyView hilo level child.nodeSizeChunks view) := by
  refine ⟨?_, ?_, ?_, ?_⟩
  · intro heap heap' minCoord made created
    simp only [triquadtreeOps, Prod.mk.injEq] at created
    obtain ⟨rfl, rfl⟩ := created
    refine ⟨⟨[], (List.append_nil _).symm, List.nil_sublist _⟩, fun node some => ?_⟩
    cases some
    refine ⟨rfl, rfl, fun _ => rfl, fun slot ptr holds => ?_⟩
    rw [PackedSlots.get?_of_clear (by simp [TriquadtreeNode.wholeMask])] at holds
    cases holds
  · intro heap heap' minCoord node made keyed copied
    obtain ⟨minX, minZ, single, items⟩ := keyed
    simp only [triquadtreeOps, Prod.mk.injEq] at copied
    obtain ⟨rfl, rfl⟩ := copied
    refine ⟨⟨[], (List.append_nil _).symm, List.nil_sublist _⟩, fun node' some => ?_⟩
    cases some
    refine ⟨minX, minZ, single, fun slot ptr holds => items slot ptr ?_⟩
    exact (get?_triquadtree_copyNode _ node slot).symm.trans holds
  · intro heap heap' minCoord treePath tick node node' result keyed accessed
    obtain ⟨minX, minZ, single, items⟩ := keyed
    change node.access child hilo level heap treePath tick = some (heap', node', result) at accessed
    rw [TriquadtreeNode.access_eq heap treePath tick single, Option.bind_eq_some_iff] at accessed
    obtain ⟨⟨heap₁, storage', set, found⟩, outcome, ends⟩ := accessed
    cases ends
    rw [minX, minZ] at outcome
    obtain ⟨items', records, final⟩ := accessItem_keyed laws (triquadtreeSlot_lt treePath) items
      (triquadtreePathCorner level child.nodeSizeChunks treePath minCoord)
      ⟨_, rfl, by rw [minX, minZ]; rfl⟩ (by
        intro other held isCorner heldKeyed
        rw [minX, minZ] at isCorner
        exact triquadtreeCorner_alike child.nodeSizeChunks column isCorner heldKeyed) outcome
    rw [← wholeMask_access node treePath set] at items'
    refine ⟨⟨?_, ?_, setMask_single single treePath _ _, ?_⟩, records, final⟩
    · exact (setMask_minX node _ _).trans minX
    · exact (setMask_minZ node _ _).trans minZ
    · dsimp only
      rw [setMask_minX, setMask_minZ]
      exact items'
  · intro heap heap' minCoord treePath tick node node' returned keyed removed
    obtain ⟨minX, minZ, single, items⟩ := keyed
    change node.remove child hilo level heap treePath tick = some (heap', node', returned)
      at removed
    rw [TriquadtreeNode.remove_eq heap treePath tick single] at removed
    split at removed
    · cases removed
      exact ⟨minX, minZ, single, items⟩
    · rename_i occupied
      rw [Option.bind_eq_some_iff] at removed
      obtain ⟨⟨heap₁, storage', gone, normal⟩, outcome, ends⟩ := removed
      cases ends
      have items' := removeBelowItem_keyed laws (by simpa using occupied) items outcome
      rw [← wholeMask_remove node treePath gone] at items'
      refine ⟨?_, ?_, setMask_single single treePath _ _, ?_⟩
      · exact (setMask_minX node _ _).trans minX
      · exact (setMask_minZ node _ _).trans minZ
      · dsimp only
        rw [setMask_minX, setMask_minZ]
        exact items'

end Triquadtree

/-! ## The tree -/

section Tree

variable (D)

def duoctreeX4KeyView : KeyView (DuoctreeX4Node (D × ChunkKey)) :=
  duoctreeKeyView 1 (2 ^ 0) (chunkKeyView D)
def duoctreeX16KeyView : KeyView (DuoctreeX16Node (D × ChunkKey)) :=
  duoctreeKeyView 2 (2 ^ 2) (duoctreeX4KeyView D)
def duoctreeX64KeyView : KeyView (DuoctreeX64Node (D × ChunkKey)) :=
  duoctreeKeyView 3 (2 ^ 4) (duoctreeX16KeyView D)
def duoctreeX256KeyView : KeyView (DuoctreeX256Node (D × ChunkKey)) :=
  duoctreeKeyView 4 (2 ^ 6) (duoctreeX64KeyView D)
def triquadtreeBridgeKeyView : KeyView (TriquadtreeBridgeNode (D × ChunkKey)) :=
  triquadtreeKeyView true 5 (2 ^ 8) (duoctreeX256KeyView D)
def triquadtreeRootKeyView : KeyView (TriquadtreeRootNode (D × ChunkKey)) :=
  triquadtreeKeyView false 6 (2 ^ 11) (triquadtreeBridgeKeyView D)

variable {D}

theorem triquadtreeRoot_keyLaws (ctl : StorageTreeControl Ctx D) :
    KeyLaws (triquadtreeRootOps (recorded ctl)) (triquadtreeRootKeyView D) := by
  have x4 : KeyLaws (duoctreeX4Ops (recorded ctl)) (duoctreeX4KeyView D) :=
    duoctree_keyLaws ctl (chunk_keyLaws ctl)
  have x16 : KeyLaws (duoctreeX16Ops (recorded ctl)) (duoctreeX16KeyView D) :=
    duoctree_keyLaws ctl x4
  have x64 : KeyLaws (duoctreeX64Ops (recorded ctl)) (duoctreeX64KeyView D) :=
    duoctree_keyLaws ctl x16
  have x256 : KeyLaws (duoctreeX256Ops (recorded ctl)) (duoctreeX256KeyView D) :=
    duoctree_keyLaws ctl x64
  have bridge : KeyLaws (triquadtreeBridgeOps (recorded ctl)) (triquadtreeBridgeKeyView D) :=
    triquadtree_keyLaws nofun x256
  exact triquadtree_keyLaws (fun _ => triquadtree_columnOnly _ _ _ _) bridge

/-- Every node of the tree has the key of its place. -/
def TreeKeyed (tree : StorageTree (D × ChunkKey)) : Prop :=
  ∀ index node, (tree.rootItems index).node = some node →
    (triquadtreeRootKeyView D).keyed (calcRootItemMinCoord index) node

/-- A root item has one corner only. -/
def RootCorner (index : Nat) (corner : IVec3) : Prop := corner = calcRootItemMinCoord index

variable {tree : StorageTree (D × ChunkKey)}

theorem TreeKeyed.held (keyed : TreeKeyed tree) {index : Nat}
    (ptr : NodePtr (TriquadtreeRootNode (D × ChunkKey))) (held : heldItem tree index = some ptr) :
    ∃ node, ptr.node = some node ∧
      KeyedAt (triquadtreeRootKeyView D) (RootCorner index) node := by
  obtain ⟨⟨node, points⟩, rfl⟩ := heldItem_eq_some.mp held
  refine ⟨node, points, fun corner here => ?_⟩
  rw [show corner = calcRootItemMinCoord index from here]
  exact keyed index node points

variable {tree' : StorageTree (D × ChunkKey)}

/-- An access keeps the keys of the places, and records keys of the path only. -/
theorem access_keyed (ctl : StorageTreeControl Ctx D) (keyed : TreeKeyed tree)
    {heap heap' : Heap (Ctx × List ChunkKey)} {treePath : BitVec 64} {tick : Int}
    {result : Option (D × ChunkKey)}
    (accessed : tree.access (recorded ctl) heap treePath tick = some (heap', tree', result)) :
    TreeKeyed tree' ∧
      Records heap heap' ((triquadtreeRootKeyView D).below treePath
        (calcRootItemMinCoord (rootIndex treePath))) ∧
      ∀ data, result = some data → data.2 =
        (triquadtreeRootKeyView D).final treePath (calcRootItemMinCoord (rootIndex treePath)) := by
  have laws := triquadtreeRoot_keyLaws ctl
  obtain ⟨-, others, heap₁, made, prepared, outcome⟩ := access_cases accessed
  have corner : RootCorner (rootIndex treePath) (calcRootItemMinCoord (rootIndex treePath)) := rfl
  obtain ⟨own, known⟩ := laws.prepared corner (fun other node here nodeKeyed => by
    rw [show other = calcRootItemMinCoord (rootIndex treePath) from here]
    exact nodeKeyed) keyed.held prepared
  have elsewhere : ∀ index node, index ≠ rootIndex treePath →
      (tree'.rootItems index).node = some node →
      (triquadtreeRootKeyView D).keyed (calcRootItemMinCoord index) node := by
    intro index node differ points
    rw [others index differ] at points
    exact keyed index node points
  cases made with
  | none =>
    obtain ⟨rfl, rfl, kept⟩ := outcome
    refine ⟨fun index node points => ?_, own.left _, nofun⟩
    by_cases same : index = rootIndex treePath
    · subst same
      rw [kept] at points
      exact keyed _ node points
    · exact elsewhere index node same points
  | some ready =>
    obtain ⟨node', called, points'⟩ := outcome
    obtain ⟨keyed', below, final⟩ := laws.access (known ready rfl _ corner) called
    refine ⟨fun index node points => ?_, own.append below, final⟩
    by_cases same : index = rootIndex treePath
    · subst same
      cases points'.symm.trans points
      exact keyed'
    · exact elsewhere index node same points

theorem remove_keyed (ctl : StorageTreeControl Ctx D) (keyed : TreeKeyed tree)
    {heap heap' : Heap (Ctx × List ChunkKey)} {treePath : BitVec 64} {tick : Int} {returned : Bool}
    (removed : tree.remove (recorded ctl) heap treePath tick = some (heap', tree', returned)) :
    TreeKeyed tree' := by
  have laws := triquadtreeRoot_keyLaws ctl
  obtain ⟨-, others, ⟨-, -, rfl, -⟩ | ⟨ptr, heap₁, made, held, prepared, outcome⟩⟩ :=
    remove_cases removed
  · exact keyed
  · intro index node points
    by_cases same : index = rootIndex treePath
    · subst same
      cases made with
      | none =>
        rw [outcome.2.2] at points
        exact keyed _ node points
      | some ready =>
        obtain ⟨node', called, points'⟩ := outcome
        rw [points'] at points
        split at points
        · cases points
        · cases points
          have ready := laws.prepared_held (keyed.held ptr held) prepared
          exact laws.remove (ready _ (show RootCorner _ _ from rfl)) called
    · rw [others index same] at points
      exact keyed index node points

end Tree

/-! ## The keys on a valid path -/

/-- The ancestors of the key that duoctree levels hold, from the level `stop + more` down. -/
def ancestorsFrom (key : ChunkKey) (stop : Nat) : Nat → List ChunkKey
  | 0 => [key.ancestor (2 * stop)]
  | more + 1 => key.ancestor (2 * (stop + more + 1)) :: ancestorsFrom key stop more

/-- The level the path of the key stops at. -/
def stopLevel (key : ChunkKey) : Nat := (key.scaleLog2.toNat + 1) / 2

/-- The keys of the nodes with user data on the path of the key. -/
def pathAncestors (key : ChunkKey) : List ChunkKey :=
  ancestorsFrom key (stopLevel key) (4 - stopLevel key)

/-- From a node of the level on, the keys on the path are the ancestors of its key. -/
def AncestorsOnPath (treePath : BitVec 64) (key : ChunkKey) (level : Nat) (view : KeyView N) :
    Prop :=
  stopLevel key ≤ level →
    view.own (roundedBase key (2 * level)) ++ view.below treePath (roundedBase key (2 * level)) =
        ancestorsFrom key (stopLevel key) (level - stopLevel key) ∧
      view.final treePath (roundedBase key (2 * level)) = key.ancestor (2 * stopLevel key)

section Path

variable {treePath : BitVec 64} {key : ChunkKey} (path : PathOf treePath key)
  (isValid : key.valid)

include isValid

theorem ofBase_ancestor {scale : Nat} (above : key.scaleLog2.toNat ≤ scale) (small : scale < 16) :
    ChunkKey.ofBase (roundedBase key scale) scale = key.ancestor scale :=
  ofBase_roundedBase small (ChunkKey.ancestor_roundedTo isValid above small)

theorem chunk_ancestorsOnPath : AncestorsOnPath treePath key 0 (chunkKeyView D) := by
  intro stops
  have bottom : stopLevel key = 0 := Nat.le_zero.mp stops
  have scale : key.scaleLog2.toNat = 0 := by
    unfold stopLevel at bottom
    omega
  have own : ChunkKey.ofBase (roundedBase key 0) = key.ancestor 0 :=
    ofBase_ancestor isValid (by omega) (by decide)
  rw [bottom]
  exact ⟨congrArg (fun key => [key]) own, own⟩

include path

theorem duoctree_ancestorsOnPath {level : Nat} (small : level < 4) {view : KeyView C}
    (below : AncestorsOnPath treePath key level view) :
    AncestorsOnPath treePath key (level + 1)
      (duoctreeKeyView (D := D) (level + 1) (2 ^ (2 * level)) view) := by
  intro stops
  have above : key.scaleLog2.toNat ≤ 2 * (level + 1) := by
    unfold stopLevel at stops
    omega
  have own := ofBase_ancestor isValid above (by omega)
  have rounded := ChunkKey.ancestor_roundedTo isValid above (by omega)
  have stop : pathStop (level + 1) treePath = decide (stopLevel key = level + 1) := by
    rw [pathStop_eq]
    exact path.stop_bit (Nat.succ_pos level) (by omega)
  unfold duoctreeKeyView duoctreePathCorner
  dsimp only
  rw [own, stop]
  by_cases here : stopLevel key = level + 1
  · rw [decide_eq_true here, if_pos rfl, if_pos rfl, here, Nat.sub_self]
    exact ⟨rfl, rfl⟩
  · obtain ⟨keys, final⟩ := below (by omega)
    rw [decide_eq_false here, if_neg Bool.false_ne_true, if_neg Bool.false_ne_true,
      path.calcDuoctreeChildMinCoord_eq small rounded, keys, final,
      show level + 1 - stopLevel key = level - stopLevel key + 1 by omega]
    refine ⟨?_, rfl⟩
    rw [ancestorsFrom, show stopLevel key + (level - stopLevel key) + 1 = level + 1 by omega]
    rfl

theorem root_ancestorsOnPath (inWorld : InWorld key) (unique : InUniqueRange key) :
    (triquadtreeRootKeyView D).below treePath (calcRootItemMinCoord (rootIndex treePath)) =
        pathAncestors key ∧
      (triquadtreeRootKeyView D).final treePath (calcRootItemMinCoord (rootIndex treePath)) =
        key.ancestor (2 * stopLevel key) := by
  have x4 : AncestorsOnPath treePath key 1 (duoctreeX4KeyView D) :=
    duoctree_ancestorsOnPath path isValid (by decide) (chunk_ancestorsOnPath isValid)
  have x16 : AncestorsOnPath treePath key 2 (duoctreeX16KeyView D) :=
    duoctree_ancestorsOnPath path isValid (by decide) x4
  have x64 : AncestorsOnPath treePath key 3 (duoctreeX64KeyView D) :=
    duoctree_ancestorsOnPath path isValid (by decide) x16
  have x256 : AncestorsOnPath treePath key 4 (duoctreeX256KeyView D) :=
    duoctree_ancestorsOnPath path isValid (by decide) x64
  have scale := path.scale
  have stops : stopLevel key ≤ 4 := by
    unfold stopLevel
    omega
  obtain ⟨rootX, rootZ⟩ := path.calcRootItemMinCoord_eq unique
  -- the corner of the bridge node, whose height is not used
  have bridge : (triquadtreePathCorner 6 (2 ^ 11) treePath
        (calcRootItemMinCoord (rootIndex treePath))).x = (roundedBase key 11).x ∧
      (triquadtreePathCorner 6 (2 ^ 11) treePath
        (calcRootItemMinCoord (rootIndex treePath))).z = (roundedBase key 11).z := by
    unfold triquadtreePathCorner
    rw [rootX, rootZ]
    exact path.calcTriquadtreeChildMinCoord_eq (l := 1) (by decide)
  have largest : triquadtreePathCorner 5 (2 ^ 8) treePath (triquadtreePathCorner 6 (2 ^ 11) treePath
      (calcRootItemMinCoord (rootIndex treePath))) = roundedBase key 8 := by
    have column := path.calcTriquadtreeChildMinCoord_eq (l := 0) (by decide)
    have height := path.calcTriquadtreeChildMinCoord_y inWorld (roundedBase key 11).x
      (roundedBase key 11).z
    have corner : ∀ {a b : IVec3}, a.x = b.x → a.y = b.y → a.z = b.z → a = b := by
      rintro ⟨x, y, z⟩ ⟨x', y', z'⟩ sameX sameY sameZ
      exact IVec3.mk.injEq .. ▸ ⟨sameX, sameY, sameZ⟩
    rw [triquadtreePathCorner, bridge.1, bridge.2]
    exact corner column.1 height column.2
  obtain ⟨keys, final⟩ := x256 stops
  unfold triquadtreeRootKeyView triquadtreeBridgeKeyView triquadtreeKeyView
  dsimp only
  rw [largest]
  exact ⟨keys, final⟩

end Path

theorem RoundedTo_inUniqueRange {key around : ChunkKey} {scale : Nat} (small : scale ≤ 14)
    (unique : InUniqueRange key) (rounded : key.RoundedTo scale around) : InUniqueRange around := by
  have coordinate : ∀ {a b least most : Int}, least ≤ a ∧ a ≤ most → (2 ^ 14 : Int) ∣ least →
      b = a / 2 ^ scale * 2 ^ scale → least ≤ b ∧ b ≤ most := by
    rintro a b least most ⟨low, high⟩ corner rfl
    have positive : (0 : Int) < 2 ^ scale := by positivity
    have below : a / 2 ^ scale * 2 ^ scale ≤ a := Int.ediv_mul_le a positive.ne'
    obtain ⟨q, rfl⟩ := (pow_dvd_pow (2 : Int) small).trans corner
    have quotient : q ≤ a / 2 ^ scale := by
      rw [Int.le_ediv_iff_mul_le positive, mul_comm]
      exact low
    have above := mul_le_mul_of_nonneg_right quotient positive.le
    rw [mul_comm q] at above
    exact ⟨above, below.trans high⟩
  exact ⟨coordinate unique.x (by decide) rounded.x, coordinate unique.z (by decide) rounded.z⟩

/-- The key of a larger scale around another one, on the grid of its scale and where the
wraparound has not begun. -/
structure AncestorOf (own key : ChunkKey) : Prop where
  above : own.scaleLog2.toNat ≤ key.scaleLog2.toNat
  even : key.scaleLog2.toNat % 2 = 0
  eq : key = own.ancestor key.scaleLog2.toNat
  valid : key.valid
  unique : InUniqueRange key

theorem ancestorOf (isValid : own.valid) (unique : InUniqueRange own) {level : Nat}
    (above : stopLevel own ≤ level) (small : level ≤ 4) :
    AncestorOf own (own.ancestor (2 * level)) := by
  have larger : own.scaleLog2.toNat ≤ 2 * level := by
    unfold stopLevel at above
    omega
  have rounded := ChunkKey.ancestor_roundedTo isValid larger (by omega)
  refine ⟨?_, ?_, ?_, rounded.valid, RoundedTo_inUniqueRange (by omega) unique rounded⟩ <;>
    rw [rounded.size]
  · exact larger
  · exact Nat.mul_mod_right 2 level

theorem mem_pathAncestors {key : ChunkKey} (isValid : own.valid) (unique : InUniqueRange own)
    (mem : key ∈ pathAncestors own) (small : own.scaleLog2.toNat ≤ 8) : AncestorOf own key := by
  have steps : ∀ more, stopLevel own + more ≤ 4 →
      key ∈ ancestorsFrom own (stopLevel own) more → AncestorOf own key := by
    intro more
    induction more with
    | zero =>
      intro bound mem
      rw [List.mem_singleton.mp mem]
      exact ancestorOf isValid unique (Nat.le_refl _) bound
    | succ more ih =>
      intro bound mem
      rcases List.mem_cons.mp mem with rfl | mem
      · exact ancestorOf isValid unique (by omega) bound
      · exact ih (by omega) mem
  refine steps _ ?_ mem
  unfold stopLevel
  omega

/-! ## Runs -/

theorem run_keyed (ctl : StorageTreeControl Ctx D) {operations : List Operation}
    {state : RunState (Ctx × List ChunkKey) (D × ChunkKey)}
    (reached : run (recorded ctl) heap operations = some state) : TreeKeyed state.tree :=
  run_tree_invariant nofun (fun keyed accessed => (access_keyed ctl keyed accessed).1)
    (fun keyed removed => remove_keyed ctl keyed removed) reached

/-- Whatever calls came before, an access calls user constructors with ancestors of the path's
key only, each one with the scale of its node, and the block it returns was made for the
smallest of them: the key itself if its scale is even. -/
theorem run_keys_are_ancestors (ctl : StorageTreeControl Ctx D)
    {heap : Heap (Ctx × List ChunkKey)} {operations : List Operation}
    {state : RunState (Ctx × List ChunkKey) (D × ChunkKey)}
    (reached : run (recorded ctl) heap operations = some state) {treePath : BitVec 64}
    (valid : ValidPath treePath) {tick : Int} {heap' : Heap (Ctx × List ChunkKey)}
    {tree' : StorageTree (D × ChunkKey)} {result : Option (D × ChunkKey)}
    (accessed : state.tree.access (recorded ctl) state.heap treePath tick =
      some (heap', tree', result)) :
    (∃ keys, heap'.ctx.2 = state.heap.ctx.2 ++ keys ∧
      keys.Sublist (pathAncestors (treePathToKey treePath)) ∧
      ∀ key ∈ keys, AncestorOf (treePathToKey treePath) key) ∧
    ∀ data, result = some data →
      data.2 = (treePathToKey treePath).ancestor (2 * stopLevel (treePathToKey treePath)) ∧
      ((treePathToKey treePath).scaleLog2.toNat % 2 = 0 → data.2 = treePathToKey treePath) := by
  have own := keyToTreePath_treePathToKey valid
  have path := pathOf_of_keyToTreePath own
  have inWorld := (keyToTreePath_isSome_iff (treePathToKey treePath)).mp (by rw [own]; rfl)
  have unique : InUniqueRange (treePathToKey treePath) :=
    (treePathToKey_restores own).inUniqueRange
  have isValid : (treePathToKey treePath).valid :=
    (ChunkKey.valid_iff _).mpr ⟨inWorld.x, inWorld.y, inWorld.z⟩
  obtain ⟨keys, final⟩ := root_ancestorsOnPath (D := D) path isValid inWorld unique
  obtain ⟨-, ⟨new, grown, part⟩, block⟩ := access_keyed ctl (run_keyed ctl reached) accessed
  rw [keys] at part
  rw [final] at block
  refine ⟨⟨new, grown, part, fun key mem =>
    mem_pathAncestors isValid unique (part.subset mem) inWorld.scale⟩, fun data returned =>
      ⟨block data returned, fun even => ?_⟩⟩
  rw [block data returned]
  have level : 2 * stopLevel (treePathToKey treePath) =
      (treePathToKey treePath).scaleLog2.toNat := by
    unfold stopLevel
    omega
  rw [level]
  unfold ChunkKey.ancestor
  rw [Nat.sub_self]
  rfl

/-- A new tree with recorded calls, after an access of the key of scale 2 at the origin. -/
theorem chunkAccess_keys : ∃ state heap' tree' data,
    run (recorded unitControl) { ctx := ((), []) } [.access scaleTwoPath 1] = some state ∧
      state.tree.access (recorded unitControl) state.heap chunkPath 2 =
        some (heap', tree', some data) ∧ data.2 = treePathToKey chunkPath := by
  have returns : ((run (recorded unitControl) { ctx := ((), []) }
      [.access scaleTwoPath 1]).bind fun state =>
        (state.tree.access (recorded unitControl) state.heap chunkPath 2).bind
          fun accessed => accessed.2.2).isSome := by decide +kernel
  obtain ⟨data, returned⟩ := Option.isSome_iff_exists.mp returns
  obtain ⟨state, reached, returned⟩ := Option.bind_eq_some_iff.mp returned
  obtain ⟨⟨heap', tree', result⟩, accessed, returned⟩ := Option.bind_eq_some_iff.mp returned
  cases returned
  have even : (treePathToKey chunkPath).scaleLog2.toNat % 2 = 0 := by decide +kernel
  exact ⟨state, heap', tree', data, reached, accessed,
    ((run_keys_are_ancestors unitControl reached chunkPath_valid accessed).2 data rfl).2 even⟩

/-- Path of the key of scale 1 at the origin, a subnode of a duoctree node. -/
def subnodePath : BitVec 64 := 0x320000000000C000#64

theorem subnodePath_valid : ValidPath subnodePath :=
  ⟨ChunkKey.ofBase ⟨0, 0, 0⟩ 1, by decide +kernel⟩

/-- A subnode shares the block of its node, which was made for a key twice as large. -/
theorem subnode_shares_key : ¬ ∀ treePath tick heap' tree' data, ValidPath treePath →
    ({} : StorageTree (Unit × ChunkKey)).access (recorded unitControl) { ctx := ((), []) }
      treePath tick = some (heap', tree', some data) → data.2 = treePathToKey treePath := by
  intro own
  have differs : ((({} : StorageTree (Unit × ChunkKey)).access (recorded unitControl)
      { ctx := ((), []) } subnodePath 1).bind fun accessed => accessed.2.2).map
        (fun data => decide (data.2 = treePathToKey subnodePath)) = some false := by
    decide +kernel
  obtain ⟨data, returned, other⟩ := Option.map_eq_some_iff.mp differs
  obtain ⟨⟨heap', tree', result⟩, accessed, returned⟩ := Option.bind_eq_some_iff.mp returned
  cases returned
  exact of_decide_eq_false other (own subnodePath 1 heap' tree' data subnodePath_valid accessed)

end Voxen.Land.StorageTree
