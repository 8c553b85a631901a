import Voxen.Land.StorageTreeRuns

/-!
# What a call does to the slots of a node

Calls are taken apart here, whether they return or throw and whatever they copy: the child on
the path is made ready and called, and its slot changes with it.  In every state of a run the
child masks of all nodes agree with the slots that hold constructed pointers.
-/

namespace Voxen.Land.StorageTree

open PackedArray (popcount rank bit)
open PackedSlots (get? Filled)
open StorageTreeUtils

variable {Ctx N C D : Type}

/-- The pointer points to a node. -/
def Points (ptr : NodePtr N) : Prop := ∃ node, ptr.node = some node

/-- How a node on the path is made ready for a call: what is held there is recent enough or is
copied, and if nothing is held a node is made.  Nothing is ready if a user constructor threw. -/
inductive Prepared (ops : NodeOps Ctx N D) (heap : Heap Ctx) (tick : Int) (minCoord : IVec3) :
    Option (NodePtr N) → Heap Ctx → Option N → Prop where
  | recent {ptr : NodePtr N} {node : N} (points : ptr.node = some node)
      (recent : tick ≤ ptr.tick) : Prepared ops heap tick minCoord (some ptr) heap (some node)
  | copied {ptr : NodePtr N} {node : N} {heap' : Heap Ctx} {made : Option N}
      (points : ptr.node = some node) (stale : ptr.tick < tick)
      (copied : ops.copy heap node = (heap', made)) :
      Prepared ops heap tick minCoord (some ptr) heap' made
  | created {heap' : Heap Ctx} {made : Option N}
      (created : ops.create heap minCoord = (heap', made)) :
      Prepared ops heap tick minCoord none heap' made

variable {ops : NodeOps Ctx N D} {level : Nat}

theorem moo_cases {ptr ptr' : NodePtr N} (points : Points ptr) {heap heap' : Heap Ctx} {tick : Int}
    {done : Bool} (moved : ptr.moo ops heap tick = (heap', ptr', done)) (minCoord : IVec3) :
    ∃ made, Prepared ops heap tick minCoord (some ptr) heap' made ∧
      match made with
      | none => ptr' = ptr ∧ done = false
      | some node => ptr'.node = some node ∧ done = true := by
  obtain ⟨node, points⟩ := points
  unfold NodePtr.moo at moved
  rw [points] at moved
  by_cases recent : ptr.tick ≥ tick
  · rw [if_pos recent] at moved
    cases moved
    exact ⟨some node, .recent points recent, points, rfl⟩
  · rw [if_neg recent] at moved
    dsimp only at moved
    rcases copied : ops.copy heap node with ⟨heap₁, _ | node'⟩ <;> rw [copied] at moved <;>
      cases moved
    · exact ⟨none, .copied points (Int.not_le.mp recent) copied, rfl, rfl⟩
    · exact ⟨some node', .copied points (Int.not_le.mp recent) copied, rfl, rfl⟩

section Items

variable {w : Nat} {child : NodeOps Ctx C D}

variable {storage storage' : Nat → NodePtr C}

variable {result : Option D} {capacity slot : Nat} {mask : BitVec w}

theorem accessThrough_cases {ptr : NodePtr C} {node : C} (points : ptr.node = some node)
    {heap heap' : Heap Ctx} {treePath : BitVec 64} {tick : Int} {index : Nat}
    (accessed : accessThrough child heap treePath tick storage index ptr =
      some (heap', storage', result)) :
    ∃ node', child.access heap treePath tick node = some (heap', node', result) ∧
      storage' = Function.update storage index { ptr with node := some node' } := by
  unfold accessThrough at accessed
  rw [points] at accessed
  simp only [Option.bind_eq_bind, Option.bind_some, Option.bind_eq_some_iff, Option.pure_def,
    Option.some.injEq, Prod.mk.injEq, Prod.exists] at accessed
  obtain ⟨heap₁, node', found, outcome, rfl, rfl, rfl⟩ := accessed
  exact ⟨node', outcome, rfl⟩

/-- What `accessItem` does: the child of the slot is made ready and accessed. -/
theorem accessItem_cases (hs : slot < w)
    (points : ∀ ptr, get? mask storage slot = some ptr → Points ptr) {heap heap' : Heap Ctx}
    {treePath : BitVec 64} {tick : Int} {minCoord : IVec3} {set : Bool}
    (accessed : accessItem child capacity heap treePath tick minCoord storage (rank mask slot)
      (popcount mask - rank mask slot) (mask.getLsbD slot) = some (heap', storage', set, result)) :
    ∃ mask', mask' = (if set then mask ||| bit w slot else mask) ∧
      (Filled Points storage (popcount mask) → Filled Points storage' (popcount mask')) ∧
      (∀ other, other ≠ slot → get? mask' storage' other = get? mask storage other) ∧
      ∃ heap₁ made, Prepared child heap tick minCoord (get? mask storage slot) heap₁ made ∧
        match made with
        | none =>
          heap' = heap₁ ∧ result = none ∧ get? mask' storage' slot = get? mask storage slot
        | some node => ∃ node' ptr,
            child.access heap₁ treePath tick node = some (heap', node', result) ∧
              get? mask' storage' slot = some ptr ∧ ptr.node = some node' := by
  unfold accessItem at accessed
  cases present : mask.getLsbD slot with
  | true =>
    have holds := PackedSlots.get?_of_set present storage
    have inside := PackedArray.rank_lt_popcount present
    rw [present, if_pos rfl] at accessed
    rcases moved : (storage (rank mask slot)).moo child heap tick with ⟨heap₁, ptr, done⟩
    obtain ⟨made, prepared, outcome⟩ := moo_cases (points _ holds) moved minCoord
    rw [moved] at accessed
    cases made with
    | none =>
      obtain ⟨rfl, rfl⟩ := outcome
      cases accessed
      refine ⟨mask, ?_, id, fun _ _ => rfl, heap', none, holds ▸ prepared, rfl, rfl, rfl⟩
      rw [if_pos rfl, PackedArray.or_bit_of_set present]
    | some node =>
      obtain ⟨pointsReady, rfl⟩ := outcome
      simp only [Option.bind_eq_bind, Option.bind_eq_some_iff, Option.pure_def,
        Option.some.injEq, Prod.mk.injEq, Prod.exists] at accessed
      obtain ⟨heap₂, storage₂, found, through, rfl, rfl, rfl, rfl⟩ := accessed
      obtain ⟨node', called, rfl⟩ := accessThrough_cases pointsReady through
      have used : Points { ptr with node := some node' } := ⟨node', rfl⟩
      refine ⟨mask, ?_, fun filled => filled.update inside used,
        fun other differ => ?_, heap₁, some node, holds ▸ prepared, node',
        { ptr with node := some node' }, called, ?_, rfl⟩
      · rw [if_pos rfl, PackedArray.or_bit_of_set present]
      · rw [PackedSlots.get?_update present, if_neg differ]
      · rw [PackedSlots.get?_update present, if_pos rfl]
  | false =>
    have clear := PackedSlots.get?_of_clear present storage
    have below := PackedArray.rank_le_popcount mask (Nat.le_of_lt hs)
    rw [present, if_neg Bool.false_ne_true] at accessed
    simp only [Option.bind_eq_bind, Option.bind_eq_some_iff, constructItem] at accessed
    obtain ⟨opened, room, accessed⟩ := accessed
    split at room
    · rename_i inside
      cases room
      unfold NodePtr.init at accessed
      rcases created : child.create heap minCoord with ⟨heap₁, _ | node⟩
      · -- the constructor threw, the opened gap is closed again
        rw [created] at accessed
        simp only [removeItem, if_pos inside, Option.bind_some, Option.pure_def,
          Option.some.injEq, Prod.mk.injEq] at accessed
        obtain ⟨rfl, rfl, rfl, rfl⟩ := accessed
        have restored := PackedSlots.get?_closeGap_openGap mask hs storage ({} : NodePtr C)
        have unused : ¬ Points (PackedSlots.openGap storage (rank mask slot)
            (popcount mask - rank mask slot) ({} : NodePtr C) (rank mask slot)) := by
          rw [PackedSlots.openGap_apply, if_neg (Nat.lt_irrefl _), if_pos rfl]
          rintro ⟨_, points⟩
          cases points
        refine ⟨mask, rfl, fun filled => filled.closeGap_openGap below unused _,
          fun other _ => restored _ other, heap₁, none, clear ▸ .created created, rfl, rfl,
          restored _ slot⟩
      · rw [created] at accessed
        simp only [Option.bind_eq_some_iff, Option.pure_def, Option.some.injEq, Prod.mk.injEq,
          Prod.exists] at accessed
        obtain ⟨heap₂, storage₂, found, through, rfl, rfl, rfl, rfl⟩ := accessed
        obtain ⟨node', called, rfl⟩ := accessThrough_cases rfl through
        have filled := PackedSlots.get?_update_openGap hs present storage ({} : NodePtr C)
          { tick := tick, node := some node' }
        refine ⟨mask ||| bit w slot, by rw [if_pos rfl], fun whole => ?_, fun other differ => ?_,
          heap₁, some node, clear ▸ .created created, node',
          { tick := tick, node := some node' }, called, ?_, rfl⟩
        · rw [PackedArray.popcount_or_bit hs present]
          exact whole.openGap below (show Points ⟨tick, some node'⟩ from ⟨node', rfl⟩) _
        · rw [filled, if_neg differ]
        · rw [filled, if_pos rfl]
    · cases room

/-- What `removeBelowItem` does: the child of the slot is made ready and called, and taken out
if that leaves it empty. -/
theorem removeBelowItem_cases (present : mask.getLsbD slot = true)
    (points : ∀ ptr, get? mask storage slot = some ptr → Points ptr) {heap heap' : Heap Ctx}
    {treePath : BitVec 64} {tick : Int} {removed returned : Bool}
    (done : removeBelowItem child capacity heap treePath tick storage (rank mask slot)
      (popcount mask - rank mask slot) = some (heap', storage', removed, returned))
    (minCoord : IVec3) :
    ∃ mask', mask' = (if removed then mask ^^^ bit w slot else mask) ∧
      (Filled Points storage (popcount mask) → Filled Points storage' (popcount mask')) ∧
      (∀ other, other ≠ slot → get? mask' storage' other = get? mask storage other) ∧
      ∃ heap₁ made, Prepared child heap tick minCoord (get? mask storage slot) heap₁ made ∧
        match made with
        | none => heap' = heap₁ ∧ storage' = storage ∧ removed = false ∧ returned = false
        | some node => ∃ node',
            child.remove heap₁ treePath tick node = some (heap', node', returned) ∧
            if returned ∧ child.empty node' then removed = true ∧ get? mask' storage' slot = none
            else removed = false ∧
              ∃ ptr, get? mask' storage' slot = some ptr ∧ ptr.node = some node' := by
  have holds := PackedSlots.get?_of_set present storage
  have inside := PackedArray.rank_lt_popcount present
  unfold removeBelowItem at done
  rcases moved : (storage (rank mask slot)).moo child heap tick with ⟨heap₁, ptr, copied⟩
  obtain ⟨made, prepared, outcome⟩ := moo_cases (points _ holds) moved minCoord
  rw [moved] at done
  cases made with
  | none =>
    obtain ⟨rfl, rfl⟩ := outcome
    cases done
    exact ⟨mask, rfl, id, fun _ _ => rfl, heap', none, holds ▸ prepared, rfl, rfl, rfl, rfl⟩
  | some node =>
    obtain ⟨pointsReady, rfl⟩ := outcome
    simp only [pointsReady, Option.bind_eq_bind, Option.bind_some, Option.bind_eq_some_iff,
      Prod.exists] at done
    obtain ⟨heap₂, node', normal, called, done⟩ := done
    split at done
    · -- the child is removed together with its last key
      rename_i emptied
      simp only [removeItem] at done
      split at done
      · cases done
        obtain ⟨rfl, empty⟩ := emptied
        have closed := PackedSlots.get?_closeGap_update present storage
          (NodePtr.reset { ptr with node := some node' })
        refine ⟨mask ^^^ bit w slot, by rw [if_pos rfl], fun filled => ?_, fun other differ => ?_,
          heap₁, some node, holds ▸ prepared, node', called, ?_⟩
        · rw [← Nat.add_sub_cancel (popcount (mask ^^^ bit w slot)) 1,
            PackedArray.popcount_xor_bit present]
          refine filled.closeGap inside ?_
          rintro ⟨_, points⟩
          cases points
        · rw [closed, if_neg differ]
        · rw [if_pos ⟨rfl, empty⟩]
          exact ⟨rfl, by rw [closed, if_pos rfl]⟩
      · cases done
    · rename_i kept
      cases done
      have used : Points { ptr with node := some node' } := ⟨node', rfl⟩
      refine ⟨mask, rfl, fun filled => filled.update inside used, fun other differ => ?_,
        heap₁, some node, holds ▸ prepared, node', called, ?_⟩
      · rw [PackedSlots.get?_update present, if_neg differ]
      · rw [if_neg kept]
        exact ⟨rfl, _, by rw [PackedSlots.get?_update present, if_pos rfl], rfl⟩

end Items

/-! ## Masks agree with slots -/

/-- What a node type keeps true of its nodes through every call. -/
structure AgreeLaws (ops : NodeOps Ctx N D) (agrees : N → Prop) : Prop where
  create : ∀ {heap heap' minCoord node}, ops.create heap minCoord = (heap', some node) →
    agrees node
  copy : ∀ {heap heap' node node'}, agrees node → ops.copy heap node = (heap', some node') →
    agrees node'
  access : ∀ {heap heap' treePath tick node node' result}, agrees node →
    ops.access heap treePath tick node = some (heap', node', result) → agrees node'
  remove : ∀ {heap heap' treePath tick node node' returned}, agrees node →
    ops.remove heap treePath tick node = some (heap', node', returned) → agrees node'

theorem AgreeLaws.prepared {agrees : N → Prop} (laws : AgreeLaws ops agrees) {heap heap₁ : Heap Ctx}
    {tick : Int} {minCoord : IVec3} {held : Option (NodePtr N)} {node : N}
    (agree : ∀ ptr node, held = some ptr → ptr.node = some node → agrees node)
    (prepared : Prepared ops heap tick minCoord held heap₁ (some node)) : agrees node := by
  cases prepared with
  | recent points recent => exact agree _ _ rfl points
  | copied points stale copied => exact laws.copy (agree _ _ rfl points) copied
  | created created => exact laws.create created

/-- The slots below the number of children hold constructed pointers and no others do, and the
children agree. -/
structure ItemsAgree {w : Nat} (agrees : C → Prop) (mask : BitVec w) (storage : Nat → NodePtr C) :
    Prop where
  filled : Filled Points storage (popcount mask)
  below : ∀ slot ptr node, get? mask storage slot = some ptr → ptr.node = some node → agrees node

theorem ItemsAgree.points {w : Nat} {agrees : C → Prop} {mask : BitVec w}
    {storage : Nat → NodePtr C} (agree : ItemsAgree agrees mask storage) (slot : Nat)
    (ptr : NodePtr C) (holds : get? mask storage slot = some ptr) : Points ptr := by
  have set := PackedSlots.set_of_get? holds
  rw [PackedSlots.get?_of_set set, Option.some_inj] at holds
  rw [← holds]
  exact (agree.filled _).mpr (PackedArray.rank_lt_popcount set)

theorem ItemsAgree.empty {w : Nat} (agrees : C → Prop) :
    ItemsAgree agrees (0#w) (fun _ => ({} : NodePtr C)) := by
  refine ⟨fun k => ?_, fun slot ptr node holds => ?_⟩
  · rw [PackedArray.popcount_zero]
    exact iff_of_false (fun ⟨_, points⟩ => nomatch points) (Nat.not_lt_zero k)
  · rw [PackedSlots.get?_of_clear (by simp)] at holds
    cases holds

theorem ItemsAgree.copied {w : Nat} {agrees : C → Prop} {mask : BitVec w}
    {storage storage' : Nat → NodePtr C} (agree : ItemsAgree agrees mask storage)
    (same : ∀ k, storage' k = if k < popcount mask then storage k else {}) :
    ItemsAgree agrees mask storage' := by
  refine ⟨fun k => ?_, fun slot ptr node holds points => ?_⟩
  · rw [same]
    split
    · exact agree.filled k
    · rename_i outside
      exact iff_of_false (fun ⟨_, points⟩ => nomatch points) outside
  · have kept : ∀ k, k < popcount mask → storage' k = storage k := fun k below => by
      rw [same, if_pos below]
    rw [PackedSlots.get?_congr kept] at holds
    exact agree.below slot ptr node holds points

section Items

variable {w : Nat} {child : NodeOps Ctx C D} {agrees : C → Prop}

variable {capacity slot : Nat} {mask : BitVec w}

theorem accessItem_agree (laws : AgreeLaws child agrees) {storage storage' : Nat → NodePtr C}
    (hs : slot < w) (agree : ItemsAgree agrees mask storage) {heap heap' : Heap Ctx}
    {treePath : BitVec 64} {tick : Int} {minCoord : IVec3} {set : Bool} {result : Option D}
    (accessed : accessItem child capacity heap treePath tick minCoord storage (rank mask slot)
      (popcount mask - rank mask slot) (mask.getLsbD slot) = some (heap', storage', set, result)) :
    ItemsAgree agrees (if set then mask ||| bit w slot else mask) storage' := by
  obtain ⟨mask', rfl, filled, others, heap₁, made, prepared, outcome⟩ :=
    accessItem_cases hs (agree.points slot) accessed
  refine ⟨filled agree.filled, fun other ptr node holds points => ?_⟩
  by_cases same : other = slot
  · subst same
    cases made with
    | none =>
      obtain ⟨-, -, kept⟩ := outcome
      exact agree.below other ptr node (kept.symm.trans holds) points
    | some ready =>
      obtain ⟨node', ptr', called, holds', points'⟩ := outcome
      rw [holds'] at holds
      cases holds
      rw [points'] at points
      cases points
      exact laws.access (laws.prepared (agree.below other) prepared) called
  · exact agree.below other ptr node ((others other same).symm.trans holds) points

theorem removeBelowItem_agree (laws : AgreeLaws child agrees) {storage storage' : Nat → NodePtr C}
    (present : mask.getLsbD slot = true) (agree : ItemsAgree agrees mask storage)
    {heap heap' : Heap Ctx} {treePath : BitVec 64} {tick : Int} {removed returned : Bool}
    (done : removeBelowItem child capacity heap treePath tick storage (rank mask slot)
      (popcount mask - rank mask slot) = some (heap', storage', removed, returned)) :
    ItemsAgree agrees (if removed then mask ^^^ bit w slot else mask) storage' := by
  obtain ⟨mask', rfl, filled, others, heap₁, made, prepared, outcome⟩ :=
    removeBelowItem_cases present (agree.points slot) done ⟨0, 0, 0⟩
  refine ⟨filled agree.filled, fun other ptr node holds points => ?_⟩
  by_cases same : other = slot
  · subst same
    cases made with
    | none =>
      obtain ⟨-, rfl, rfl, -⟩ := outcome
      exact agree.below other ptr node holds points
    | some ready =>
      obtain ⟨node', called, outcome⟩ := outcome
      split at outcome
      · rw [outcome.2] at holds
        cases holds
      · obtain ⟨-, ptr', holds', points'⟩ := outcome
        rw [holds'] at holds
        cases holds
        rw [points'] at points
        cases points
        exact laws.remove (laws.prepared (agree.below other) prepared) called
  · exact agree.below other ptr node ((others other same).symm.trans holds) points

end Items

theorem chunk_agreeLaws (ctl : StorageTreeControl Ctx D) :
    AgreeLaws (chunkOps ctl) (fun _ => True) :=
  ⟨fun _ => trivial, fun _ _ => trivial, fun _ _ => trivial, fun _ _ => trivial⟩

def DuoctreeAgrees (agrees : C → Prop) (node : DuoctreeNode C D) : Prop :=
  ItemsAgree agrees node.childMask node.storage

theorem duoctree_agreeLaws (ctl : StorageTreeControl Ctx D) {child : NodeOps Ctx C D}
    {agrees : C → Prop} (laws : AgreeLaws child agrees) :
    AgreeLaws (duoctreeOps ctl level child) (DuoctreeAgrees agrees) := by
  refine ⟨?_, ?_, ?_, ?_⟩
  · intro heap heap' minCoord node created
    simp only [duoctreeOps, Prod.mk.injEq, Option.map_eq_some_iff] at created
    obtain ⟨-, data, -, rfl⟩ := created
    exact ItemsAgree.empty agrees
  · intro heap heap' node node' agree copied
    obtain ⟨data, rfl⟩ := duoctree_copy copied
    exact agree.copied fun _ => rfl
  · intro heap heap' treePath tick node node' result agree accessed
    change node.access child level heap treePath tick = some (heap', node', result) at accessed
    rw [DuoctreeNode.access_eq] at accessed
    split at accessed
    · cases accessed
      exact agree
    · rw [Option.bind_eq_some_iff] at accessed
      obtain ⟨⟨heap₁, storage', set, found⟩, outcome, ends⟩ := accessed
      cases ends
      exact accessItem_agree laws (pathSlot_lt level treePath) agree outcome
  · intro heap heap' treePath tick node node' returned agree removed
    change node.remove child level heap treePath tick = some (heap', node', returned) at removed
    rw [DuoctreeNode.remove_eq] at removed
    split at removed
    · cases removed
      exact agree
    · split at removed
      · cases removed
        exact agree
      · rename_i occupied
        rw [Option.bind_eq_some_iff] at removed
        obtain ⟨⟨heap₁, storage', gone, normal⟩, outcome, ends⟩ := removed
        cases ends
        exact removeBelowItem_agree laws (by simpa using occupied) agree outcome

def TriquadtreeAgrees (hilo : Bool) (agrees : C → Prop) (node : TriquadtreeNode C) : Prop :=
  (hilo = false → node.childMaskHigh = 0#64) ∧ ItemsAgree agrees node.wholeMask node.storage

theorem triquadtree_agreeLaws {hilo : Bool} {child : NodeOps Ctx C D} {agrees : C → Prop}
    (laws : AgreeLaws child agrees) :
    AgreeLaws (triquadtreeOps hilo level child) (TriquadtreeAgrees hilo agrees) := by
  refine ⟨?_, ?_, ?_, ?_⟩
  · intro heap heap' minCoord node created
    simp only [triquadtreeOps, Prod.mk.injEq, Option.some.injEq] at created
    obtain ⟨-, rfl⟩ := created
    refine ⟨fun _ => rfl, ?_⟩
    change ItemsAgree agrees (0#64 ++ 0#64) _
    rw [BitVec.zero_append_zero]
    exact ItemsAgree.empty agrees
  · intro heap heap' node node' agree copied
    simp only [triquadtreeOps, Prod.mk.injEq, Option.some.injEq] at copied
    obtain ⟨-, rfl⟩ := copied
    refine ⟨agree.1, agree.2.copied fun k => ?_⟩
    rw [TriquadtreeNode.wholeMask, PackedSlots.popcount_append]
    rfl
  · intro heap heap' treePath tick node node' result agree accessed
    change node.access child hilo level heap treePath tick = some (heap', node', result) at accessed
    rw [TriquadtreeNode.access_eq heap treePath tick agree.1, Option.bind_eq_some_iff] at accessed
    obtain ⟨⟨heap₁, storage', set, found⟩, outcome, ends⟩ := accessed
    cases ends
    have items := accessItem_agree laws (triquadtreeSlot_lt treePath) agree.2 outcome
    rw [← wholeMask_access node treePath set] at items
    exact ⟨setMask_single agree.1 treePath _ _, items⟩
  · intro heap heap' treePath tick node node' returned agree removed
    change node.remove child hilo level heap treePath tick = some (heap', node', returned)
      at removed
    rw [TriquadtreeNode.remove_eq heap treePath tick agree.1] at removed
    split at removed
    · cases removed
      exact agree
    · rename_i occupied
      rw [Option.bind_eq_some_iff] at removed
      obtain ⟨⟨heap₁, storage', gone, normal⟩, outcome, ends⟩ := removed
      cases ends
      have items := removeBelowItem_agree laws (by simpa using occupied) agree.2 outcome
      rw [← wholeMask_remove node treePath gone] at items
      exact ⟨setMask_single agree.1 treePath _ _, items⟩

section Agrees

variable (D)

def duoctreeX4Agrees : DuoctreeX4Node D → Prop := DuoctreeAgrees fun _ => True
def duoctreeX16Agrees : DuoctreeX16Node D → Prop := DuoctreeAgrees (duoctreeX4Agrees D)
def duoctreeX64Agrees : DuoctreeX64Node D → Prop := DuoctreeAgrees (duoctreeX16Agrees D)
def duoctreeX256Agrees : DuoctreeX256Node D → Prop := DuoctreeAgrees (duoctreeX64Agrees D)
def triquadtreeBridgeAgrees : TriquadtreeBridgeNode D → Prop :=
  TriquadtreeAgrees true (duoctreeX256Agrees D)
def triquadtreeRootAgrees : TriquadtreeRootNode D → Prop :=
  TriquadtreeAgrees false (triquadtreeBridgeAgrees D)

end Agrees

section NodeTypes

variable (ctl : StorageTreeControl Ctx D)

theorem duoctreeX4_agreeLaws : AgreeLaws (duoctreeX4Ops ctl) (duoctreeX4Agrees D) :=
  duoctree_agreeLaws ctl (chunk_agreeLaws ctl)

theorem duoctreeX16_agreeLaws : AgreeLaws (duoctreeX16Ops ctl) (duoctreeX16Agrees D) :=
  duoctree_agreeLaws ctl (duoctreeX4_agreeLaws ctl)

theorem duoctreeX64_agreeLaws : AgreeLaws (duoctreeX64Ops ctl) (duoctreeX64Agrees D) :=
  duoctree_agreeLaws ctl (duoctreeX16_agreeLaws ctl)

theorem duoctreeX256_agreeLaws : AgreeLaws (duoctreeX256Ops ctl) (duoctreeX256Agrees D) :=
  duoctree_agreeLaws ctl (duoctreeX64_agreeLaws ctl)

theorem triquadtreeBridge_agreeLaws :
    AgreeLaws (triquadtreeBridgeOps ctl) (triquadtreeBridgeAgrees D) :=
  triquadtree_agreeLaws (duoctreeX256_agreeLaws ctl)

theorem triquadtreeRoot_agreeLaws :
    AgreeLaws (triquadtreeRootOps ctl) (triquadtreeRootAgrees D) :=
  triquadtree_agreeLaws (triquadtreeBridge_agreeLaws ctl)

end NodeTypes

/-! ## Calls on the tree -/

/-- The pointer of a root item that holds a node. -/
def heldItem (tree : StorageTree D) (index : Nat) : Option (NodePtr (TriquadtreeRootNode D)) :=
  (tree.rootItems index).node.map fun _ => tree.rootItems index

theorem heldItem_eq_some {tree : StorageTree D} {index : Nat}
    {ptr : NodePtr (TriquadtreeRootNode D)} :
    heldItem tree index = some ptr ↔ Points ptr ∧ tree.rootItems index = ptr := by
  unfold heldItem Points
  rw [Option.map_eq_some_iff]
  constructor
  · rintro ⟨node, points, rfl⟩
    exact ⟨⟨node, points⟩, rfl⟩
  · rintro ⟨⟨node, points⟩, rfl⟩
    exact ⟨node, points, rfl⟩

section Calls

variable {ctl : StorageTreeControl Ctx D} {tree tree' : StorageTree D} {heap heap' : Heap Ctx}
  {treePath : BitVec 64} {tick : Int}

variable {index : Nat}

theorem rootItem_cases {item : NodePtr (TriquadtreeRootNode D)} {ready : Bool}
    (prepared : (if (tree.rootItems index).node.isNone then
        (tree.rootItems index).init (triquadtreeRootOps ctl) heap tick (calcRootItemMinCoord index)
      else (tree.rootItems index).moo (triquadtreeRootOps ctl) heap tick) =
        (heap', item, ready)) :
    ∃ made, Prepared (triquadtreeRootOps ctl) heap tick (calcRootItemMinCoord index)
        (heldItem tree index) heap' made ∧
      match made with
      | none => item = tree.rootItems index ∧ ready = false
      | some node => item.node = some node ∧ ready = true := by
  unfold heldItem
  cases points : (tree.rootItems index).node with
  | none =>
    rw [points, Option.isNone_none, if_pos rfl] at prepared
    unfold NodePtr.init at prepared
    rcases created : (triquadtreeRootOps ctl).create heap (calcRootItemMinCoord index) with
      ⟨heap₁, _ | node⟩ <;> rw [created] at prepared <;> cases prepared
    · exact ⟨none, .created created, rfl, rfl⟩
    · exact ⟨some node, .created created, rfl, rfl⟩
  | some own =>
    rw [points, Option.isNone_some, if_neg Bool.false_ne_true] at prepared
    obtain ⟨made, ready, outcome⟩ := moo_cases ⟨own, points⟩ prepared
      (calcRootItemMinCoord index)
    refine ⟨made, ready, ?_⟩
    cases made <;> exact outcome

theorem setRootItem_apply (tree : StorageTree D) (index : Nat)
    (item : NodePtr (TriquadtreeRootNode D)) :
    (tree.setRootItem index item).rootItems index = item := by
  unfold StorageTree.setRootItem
  exact Function.update_self ..

theorem setRootItem_of_ne (tree : StorageTree D) {other : Nat}
    (item : NodePtr (TriquadtreeRootNode D)) (differ : other ≠ index) :
    (tree.setRootItem index item).rootItems other = tree.rootItems other := by
  unfold StorageTree.setRootItem
  exact Function.update_of_ne differ ..

variable {result : Option D} {returned : Bool} {operations : List Operation}
  {state : RunState Ctx D}

/-- What an access of the tree does: its root item is made ready and accessed. -/
theorem access_cases (accessed : tree.access ctl heap treePath tick = some (heap', tree', result)) :
    rootIndex treePath < numRootItems ∧
    (∀ other, other ≠ rootIndex treePath → tree'.rootItems other = tree.rootItems other) ∧
    ∃ heap₁ made, Prepared (triquadtreeRootOps ctl) heap tick
        (calcRootItemMinCoord (rootIndex treePath)) (heldItem tree (rootIndex treePath)) heap₁
        made ∧
      match made with
      | none => heap' = heap₁ ∧ result = none ∧
          tree'.rootItems (rootIndex treePath) = tree.rootItems (rootIndex treePath)
      | some node => ∃ node', (triquadtreeRootOps ctl).access heap₁ treePath tick node =
            some (heap', node', result) ∧
          (tree'.rootItems (rootIndex treePath)).node = some node' := by
  unfold StorageTree.access at accessed
  dsimp only at accessed
  split at accessed
  · rename_i bounded
    split at accessed <;> rename_i heap₁ item ready <;>
      obtain ⟨made, prepared, outcome⟩ := rootItem_cases ready
    · cases accessed
      refine ⟨bounded, fun other differ => setRootItem_of_ne _ _ differ, heap', made, prepared, ?_⟩
      cases made with
      | none => exact ⟨rfl, rfl, (setRootItem_apply ..).trans outcome.1⟩
      | some node => exact absurd outcome.2 Bool.false_ne_true
    · cases made with
      | none => exact absurd outcome.2.symm Bool.false_ne_true
      | some node =>
        simp only [outcome.1, Option.bind_eq_bind, Option.bind_some, Option.bind_eq_some_iff,
          Option.pure_def, Option.some.injEq, Prod.mk.injEq, Prod.exists] at accessed
        obtain ⟨heap₂, node', found, called, rfl, rfl, rfl⟩ := accessed
        refine ⟨bounded, fun other differ => setRootItem_of_ne _ _ differ, heap₁, some node,
          prepared, node', called, ?_⟩
        rw [setRootItem_apply]
  · cases accessed

theorem remove_cases
    (removed : tree.remove ctl heap treePath tick = some (heap', tree', returned)) :
    rootIndex treePath < numRootItems ∧
    (∀ other, other ≠ rootIndex treePath → tree'.rootItems other = tree.rootItems other) ∧
    ((heldItem tree (rootIndex treePath) = none ∧ heap' = heap ∧ tree' = tree ∧ returned = true) ∨
      ∃ ptr heap₁ made, heldItem tree (rootIndex treePath) = some ptr ∧
        Prepared (triquadtreeRootOps ctl) heap tick (calcRootItemMinCoord (rootIndex treePath))
          (some ptr) heap₁ made ∧
        match made with
        | none => heap' = heap₁ ∧ returned = false ∧
            tree'.rootItems (rootIndex treePath) = tree.rootItems (rootIndex treePath)
        | some node => ∃ node', (triquadtreeRootOps ctl).remove heap₁ treePath tick node =
              some (heap', node', returned) ∧
            (tree'.rootItems (rootIndex treePath)).node =
              if returned ∧ (triquadtreeRootOps ctl).empty node' then none else some node') := by
  unfold StorageTree.remove at removed
  dsimp only at removed
  split at removed
  · rename_i bounded
    cases points : (tree.rootItems (rootIndex treePath)).node with
    | none =>
      rw [points, Option.isNone_none, if_pos rfl] at removed
      cases removed
      exact ⟨bounded, fun _ _ => rfl, Or.inl ⟨by rw [heldItem, points]; rfl, rfl, rfl, rfl⟩⟩
    | some own =>
      have held : heldItem tree (rootIndex treePath) =
          some (tree.rootItems (rootIndex treePath)) := heldItem_eq_some.mpr ⟨⟨own, points⟩, rfl⟩
      rw [points, Option.isNone_some, if_neg Bool.false_ne_true] at removed
      split at removed <;> rename_i heap₁ item moved <;>
        obtain ⟨made, prepared, outcome⟩ := moo_cases ⟨own, points⟩ moved
          (calcRootItemMinCoord (rootIndex treePath))
      · cases removed
        refine ⟨bounded, fun other differ => setRootItem_of_ne _ _ differ, Or.inr ⟨_, heap', made,
          held, prepared, ?_⟩⟩
        cases made with
        | none => exact ⟨rfl, rfl, (setRootItem_apply ..).trans outcome.1⟩
        | some node => exact absurd outcome.2 Bool.false_ne_true
      · cases made with
        | none => exact absurd outcome.2.symm Bool.false_ne_true
        | some node =>
          simp only [outcome.1, Option.bind_eq_bind, Option.bind_some, Option.bind_eq_some_iff,
            Option.pure_def, Option.some.injEq, Prod.mk.injEq, Prod.exists] at removed
          obtain ⟨heap₂, node', normal, called, rfl, rfl, rfl⟩ := removed
          refine ⟨bounded, fun other differ => setRootItem_of_ne _ _ differ, Or.inr ⟨_, heap₁,
            some node, held, prepared, node', called, ?_⟩⟩
          rw [setRootItem_apply]
          split <;> rfl
  · cases removed

/-- The child masks of all nodes of the tree agree with the slots that hold pointers. -/
def MasksAgree (tree : StorageTree D) : Prop :=
  ∀ index node, (tree.rootItems index).node = some node → triquadtreeRootAgrees D node

theorem MasksAgree.held (agree : MasksAgree tree) (ptr : NodePtr (TriquadtreeRootNode D))
    (node : TriquadtreeRootNode D) (held : heldItem tree index = some ptr)
    (points : ptr.node = some node) :
    triquadtreeRootAgrees D node := by
  obtain ⟨-, rfl⟩ := heldItem_eq_some.mp held
  exact agree index node points

theorem access_agree (agree : MasksAgree tree)
    (accessed : tree.access ctl heap treePath tick = some (heap', tree', result)) :
    MasksAgree tree' := by
  have laws := triquadtreeRoot_agreeLaws ctl
  obtain ⟨-, others, heap₁, made, prepared, outcome⟩ := access_cases accessed
  intro index node points
  by_cases same : index = rootIndex treePath
  · subst same
    cases made with
    | none =>
      rw [outcome.2.2] at points
      exact agree _ node points
    | some ready =>
      obtain ⟨node', called, points'⟩ := outcome
      rw [points'] at points
      cases points
      exact laws.access (laws.prepared agree.held prepared) called
  · rw [others index same] at points
    exact agree index node points

theorem remove_agree (agree : MasksAgree tree)
    (removed : tree.remove ctl heap treePath tick = some (heap', tree', returned)) :
    MasksAgree tree' := by
  have laws := triquadtreeRoot_agreeLaws ctl
  obtain ⟨-, others, ⟨-, -, rfl, -⟩ | ⟨ptr, heap₁, made, held, prepared, outcome⟩⟩ :=
    remove_cases removed
  · exact agree
  · intro index node points
    by_cases same : index = rootIndex treePath
    · subst same
      cases made with
      | none =>
        rw [outcome.2.2] at points
        exact agree _ node points
      | some ready =>
        obtain ⟨node', called, points'⟩ := outcome
        rw [points'] at points
        split at points
        · cases points
        · cases points
          exact laws.remove (laws.prepared (held ▸ agree.held) prepared) called
    · rw [others index same] at points
      exact agree index node points

/-- What both calls keep true of the tree holds in every state of a run. -/
theorem run_tree_invariant {Inv : StorageTree D → Prop} (start : Inv {})
    (access : ∀ {tree heap treePath tick heap' tree' result}, Inv tree →
      tree.access ctl heap treePath tick = some (heap', tree', result) → Inv tree')
    (remove : ∀ {tree heap treePath tick heap' tree' returned}, Inv tree →
      tree.remove ctl heap treePath tick = some (heap', tree', returned) → Inv tree')
    (reached : run ctl heap operations = some state) : Inv state.tree := by
  induction operations using List.reverseRecOn generalizing state with
  | nil =>
    cases reached
    exact start
  | append_singleton operations operation ih =>
    unfold run at reached ih
    rw [List.foldlM_append, Option.bind_eq_bind, Option.bind_eq_some_iff] at reached
    obtain ⟨before, earlier, last⟩ := reached
    rw [List.foldlM_cons, Option.bind_eq_bind, Option.bind_eq_some_iff] at last
    obtain ⟨after, last, same⟩ := last
    cases same
    cases operation with
    | access treePath tick =>
      simp only [step, Option.bind_eq_bind, Option.bind_eq_some_iff, Option.pure_def,
        Option.some.injEq, Prod.exists] at last
      obtain ⟨heap', tree', result, accessed, rfl⟩ := last
      exact access (ih earlier) accessed
    | remove treePath tick =>
      simp only [step, Option.bind_eq_bind, Option.bind_eq_some_iff, Option.pure_def,
        Option.some.injEq, Prod.exists] at last
      obtain ⟨heap', tree', returned, removed, rfl⟩ := last
      exact remove (ih earlier) removed

theorem run_agree (reached : run ctl heap operations = some state) : MasksAgree state.tree :=
  run_tree_invariant nofun (fun agree accessed => access_agree agree accessed)
    (fun agree removed => remove_agree agree removed) reached

end Calls

end Voxen.Land.StorageTree
