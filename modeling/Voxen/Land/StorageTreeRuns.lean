import Voxen.Land.StorageTreePathKeys

/-!
# Runs of the storage tree

Over a run of accesses and removals a lookup finds exactly the keys whose last
access was not followed by a removal, as long as no step copies a duoctree node
that has a live key: the copy constructor leaves the live key mask behind.
-/

namespace Voxen.Land.StorageTree

open StorageTreeUtils

variable {Ctx D : Type}

/-! ## The node types of the tree -/

section Views

variable (D)

def duoctreeX4View : NodeView (DuoctreeX4Node D) := duoctreeView 1 (chunkView D)
def duoctreeX16View : NodeView (DuoctreeX16Node D) := duoctreeView 2 (duoctreeX4View D)
def duoctreeX64View : NodeView (DuoctreeX64Node D) := duoctreeView 3 (duoctreeX16View D)
def duoctreeX256View : NodeView (DuoctreeX256Node D) := duoctreeView 4 (duoctreeX64View D)
def triquadtreeBridgeView : NodeView (TriquadtreeBridgeNode D) :=
  triquadtreeView true 5 (duoctreeX256View D)
def triquadtreeRootView : NodeView (TriquadtreeRootNode D) :=
  triquadtreeView false 6 (triquadtreeBridgeView D)

end Views

theorem triquadtreeRoot_lawful (ctl : StorageTreeControl Ctx D) :
    Lawful (triquadtreeRootOps ctl) (triquadtreeRootView D) := by
  have x4 : Lawful (duoctreeX4Ops ctl) (duoctreeX4View D) := duoctree_lawful (chunk_lawful ctl)
  have x16 : Lawful (duoctreeX16Ops ctl) (duoctreeX16View D) := duoctree_lawful x4
  have x64 : Lawful (duoctreeX64Ops ctl) (duoctreeX64View D) := duoctree_lawful x16
  have x256 : Lawful (duoctreeX256Ops ctl) (duoctreeX256View D) := duoctree_lawful x64
  exact triquadtree_lawful (triquadtree_lawful x256)

/-! ## Valid paths mean different keys -/

variable {query : BitVec 64} {tree : StorageTree D}

theorem rootIndex_bits {treePath : BitVec 64} (same : rootIndex treePath = rootIndex query)
    {i : Nat} (high : 56 ≤ i) : treePath.getLsbD i = query.getLsbD i := by
  have equal := congrArg (fun mask => mask.getLsbD (i - 56)) (BitVec.eq_of_toNat_eq same)
  simp only [BitVec.getLsbD_ushiftRight] at equal
  rwa [show 64 - 8 + (i - 56) = i by omega] at equal

/-- Both paths stop at a duoctree level with one key, or both go on to one child. -/
theorem duoctreeSame_cases {N : Type} {view : NodeView N} {treePath : BitVec 64}
    {key other : ChunkKey} (path : PathOf treePath key) (path' : PathOf query other) (l : Nat)
    (hl : l < 4) (same : DuoctreeSame (l + 1) view treePath query) :
    ((key.scaleLog2.toNat + 1) / 2 = l + 1 ∧ (other.scaleLog2.toNat + 1) / 2 = l + 1 ∧
      keyIndex (l + 1) treePath = keyIndex (l + 1) query) ∨
    ((key.scaleLog2.toNat + 1) / 2 ≠ l + 1 ∧ (other.scaleLog2.toNat + 1) / 2 ≠ l + 1 ∧
      (∀ b, b < 6 → treePath.getLsbD (8 * (l + 1) + b) = query.getLsbD (8 * (l + 1) + b)) ∧
      view.same treePath query) := by
  have stops : ∀ {path : BitVec 64} {key : ChunkKey}, PathOf path key →
      pathStop (l + 1) path = decide ((key.scaleLog2.toNat + 1) / 2 = l + 1) := by
    intro path key pathOf
    rw [pathStop_eq]
    exact pathOf.stop_bit (Nat.succ_pos l) (by omega)
  rcases same with ⟨stop, stop', index⟩ | ⟨goes, goes', slot, below⟩
  · rw [stops path, decide_eq_true_eq] at stop
    rw [stops path', decide_eq_true_eq] at stop'
    exact Or.inl ⟨stop, stop', index⟩
  · rw [stops path, decide_eq_false_iff_not] at goes
    rw [stops path', decide_eq_false_iff_not] at goes'
    exact Or.inr ⟨goes, goes', fun b hb => bits_of_pathSlot slot hb, below⟩

/-- Two paths lead to one key of the tree. -/
def SameKey (D : Type) (treePath query : BitVec 64) : Prop :=
  rootIndex treePath = rootIndex query ∧ (triquadtreeRootView D).same treePath query

theorem duoctreeSame_refl {N : Type} {view : NodeView N} {level : Nat} {treePath : BitVec 64}
    (refl : view.same treePath treePath) : DuoctreeSame level view treePath treePath := by
  cases stop : pathStop level treePath with
  | true => exact Or.inl ⟨stop, stop, rfl⟩
  | false => exact Or.inr ⟨stop, stop, rfl, refl⟩

theorem sameKey_refl (treePath : BitVec 64) : SameKey D treePath treePath :=
  ⟨rfl, rfl, rfl, duoctreeSame_refl (duoctreeSame_refl (duoctreeSame_refl
    (duoctreeSame_refl trivial)))⟩

theorem slots_of_triquadtreeSlot {treePath : BitVec 64} {level : Nat}
    (same : triquadtreeSlot true level treePath = triquadtreeSlot true level query) :
    pathSlot level treePath = pathSlot level query ∧
    treePath.getLsbD (8 * level + 6) = query.getLsbD (8 * level + 6) := by
  have low := pathSlot_lt level treePath
  have low' := pathSlot_lt level query
  unfold triquadtreeSlot at same
  rw [← pathHigh_eq, ← pathHigh_eq]
  revert same
  cases pathHigh true level treePath <;> cases pathHigh true level query <;>
    simp only [Bool.false_eq_true, if_true, if_false] <;> intro same
  · exact ⟨same, trivial⟩
  · omega
  · omega
  · exact ⟨by omega, trivial⟩

theorem sameKey_iff {treePath : BitVec 64} (valid : ValidPath treePath) (valid' : ValidPath query) :
    SameKey D treePath query ↔ treePath = query := by
  constructor
  · rintro ⟨root, slot₆, slot₅, same₄⟩
    obtain ⟨key, path⟩ := valid
    obtain ⟨other, path'⟩ := valid'
    replace path := pathOf_of_keyToTreePath path
    replace path' := pathOf_of_keyToTreePath path'
    have small := path.scale
    have small' := path'.scale
    obtain ⟨bridge, sign⟩ := slots_of_triquadtreeSlot slot₅
    have triquadtree : ∀ l b, l < 2 → b < 6 →
        treePath.getLsbD (8 * (l + 5) + b) = query.getLsbD (8 * (l + 5) + b) := by
      intro l b hl hb
      interval_cases l
      · exact bits_of_pathSlot bridge hb
      · exact bits_of_pathSlot slot₆ hb
    have agree : ∀ level, (∀ l b, l < 4 → level < l + 1 → b < 6 →
        treePath.getLsbD (8 * (l + 1) + b) = query.getLsbD (8 * (l + 1) + b)) →
        AgreeAbove level treePath query := fun level duoctree =>
      ⟨fun i high => rootIndex_bits root high, triquadtree, sign, duoctree⟩
    -- descend until the level both paths stop at
    rcases duoctreeSame_cases path path' 3 (by decide) same₄ with
      ⟨stop, stop', index⟩ | ⟨goes₄, goes₄', bits₄, same₃⟩
    · refine eq_of_agreeAbove path path' stop stop' (agree 4 fun l b hl above hb => ?_)
        fun _ => index
      omega
    rcases duoctreeSame_cases path path' 2 (by decide) same₃ with
      ⟨stop, stop', index⟩ | ⟨goes₃, goes₃', bits₃, same₂⟩
    · refine eq_of_agreeAbove path path' stop stop' (agree 3 fun l b hl above hb => ?_)
        fun _ => index
      obtain rfl : l = 3 := by omega
      exact bits₄ b hb
    rcases duoctreeSame_cases path path' 1 (by decide) same₂ with
      ⟨stop, stop', index⟩ | ⟨goes₂, goes₂', bits₂, same₁⟩
    · refine eq_of_agreeAbove path path' stop stop' (agree 2 fun l b hl above hb => ?_)
        fun _ => index
      rcases (by omega : l = 2 ∨ l = 3) with rfl | rfl
      · exact bits₃ b hb
      · exact bits₄ b hb
    rcases duoctreeSame_cases path path' 0 (by decide) same₁ with
      ⟨stop, stop', index⟩ | ⟨goes₁, goes₁', bits₁, -⟩
    · refine eq_of_agreeAbove path path' stop stop' (agree 1 fun l b hl above hb => ?_)
        fun _ => index
      rcases (by omega : l = 1 ∨ l = 2 ∨ l = 3) with rfl | rfl | rfl
      · exact bits₂ b hb
      · exact bits₃ b hb
      · exact bits₄ b hb
    · have bottom : (key.scaleLog2.toNat + 1) / 2 = 0 := by omega
      have bottom' : (other.scaleLog2.toNat + 1) / 2 = 0 := by omega
      refine eq_of_agreeAbove path path' bottom bottom' (agree 0 fun l b hl above hb => ?_)
        fun nonzero => absurd rfl nonzero
      rcases (by omega : l = 0 ∨ l = 1 ∨ l = 2 ∨ l = 3) with rfl | rfl | rfl | rfl
      · exact bits₁ b hb
      · exact bits₂ b hb
      · exact bits₃ b hb
      · exact bits₄ b hb
  · rintro rfl
    exact sameKey_refl treePath

theorem rootIndex_lt {treePath : BitVec 64} (valid : ValidPath treePath) :
    rootIndex treePath < numRootItems := by
  obtain ⟨key, path⟩ := valid
  exact (pathOf_of_keyToTreePath path).rootIndex_lt

/-! ## Calls on the tree -/

/-- Every root item that is there points to a valid node. -/
def TreeValid (tree : StorageTree D) : Prop :=
  ∀ index node, (tree.rootItems index).node = some node → (triquadtreeRootView D).valid node

/-- An access copies no node with a live key. -/
def AccessSafe (treePath : BitVec 64) (tick : Int) (tree : StorageTree D) : Prop :=
  ∀ node, (tree.rootItems (rootIndex treePath)).node = some node →
    (triquadtreeRootView D).accessSafe treePath tick node

/-- A removal copies no node with a live key, and removes no child from a node
whose slots are all taken. -/
def RemoveSafe (treePath : BitVec 64) (tick : Int) (tree : StorageTree D) : Prop :=
  ∀ node, (tree.rootItems (rootIndex treePath)).node = some node →
    (triquadtreeRootView D).removeSafe treePath tick node

variable {ctl : StorageTreeControl Ctx D}

/-- The key of the path is present in the tree. -/
def PresentKey (ctl : StorageTreeControl Ctx D) (treePath : BitVec 64) (tree : StorageTree D) :
    Prop :=
  ∃ data, tree.lookup ctl treePath = some (some data)

theorem presentKey_iff {treePath : BitVec 64} (valid : ValidPath treePath)
    (tree : StorageTree D) :
    PresentKey ctl treePath tree ↔
      ∃ node, (tree.rootItems (rootIndex treePath)).node = some node ∧
        Present (triquadtreeRootOps ctl) treePath node := by
  unfold PresentKey StorageTree.lookup
  dsimp only
  rw [if_pos (rootIndex_lt valid)]
  cases (tree.rootItems (rootIndex treePath)).node with
  | none => simp
  | some node => simp [Present]

theorem lookup_defined (ctl : StorageTreeControl Ctx D) (treeValid : TreeValid tree)
    {treePath : BitVec 64} (valid : ValidPath treePath) :
    ∃ found, tree.lookup ctl treePath = some found := by
  unfold StorageTree.lookup
  dsimp only
  rw [if_pos (rootIndex_lt valid)]
  cases holds : (tree.rootItems (rootIndex treePath)).node with
  | none => exact ⟨none, rfl⟩
  | some node =>
    exact (triquadtreeRoot_lawful ctl).lookup_defined (treeValid _ node holds)

/-- Replacing the root item of a path by one below which only the key of the
path may change. -/
theorem setRootItem_spec (treeValid : TreeValid tree) {treePath : BitVec 64}
    (valid : ValidPath treePath) {item : NodePtr (TriquadtreeRootNode D)} (P : Prop → Prop → Prop)
    (keeps : ∀ before, P before False ↔ before)
    (itemValid : ∀ node, item.node = some node → (triquadtreeRootView D).valid node)
    (below : ∀ query,
      ((∃ node, item.node = some node ∧ Present (triquadtreeRootOps ctl) query node) ↔
        P (∃ node, (tree.rootItems (rootIndex treePath)).node = some node ∧
          Present (triquadtreeRootOps ctl) query node)
          ((triquadtreeRootView D).same treePath query))) :
    TreeValid (tree.setRootItem (rootIndex treePath) item) ∧
    ∀ query, ValidPath query →
      (PresentKey ctl query (tree.setRootItem (rootIndex treePath) item) ↔
        P (PresentKey ctl query tree) (treePath = query)) := by
  unfold StorageTree.setRootItem
  constructor
  · intro index node holds
    dsimp only at holds
    by_cases same : index = rootIndex treePath
    · rw [same, Function.update_self] at holds
      exact itemValid node holds
    · rw [Function.update_of_ne same] at holds
      exact treeValid index node holds
  · intro query validQuery
    rw [presentKey_iff validQuery, presentKey_iff validQuery, ← sameKey_iff valid validQuery]
    unfold SameKey
    dsimp only
    by_cases same : rootIndex query = rootIndex treePath
    · rw [same, Function.update_self]
      simpa using below query
    · have apart : rootIndex treePath ≠ rootIndex query := fun eq => same eq.symm
      rw [Function.update_of_ne same]
      simpa [apart] using (keeps _).symm

theorem setRootItem_self (tree : StorageTree D) (index : Nat) :
    tree.setRootItem index (tree.rootItems index) = tree := by
  unfold StorageTree.setRootItem
  rw [Function.update_eq_self]

theorem access_spec (ctl : StorageTreeControl Ctx D) (heap : Heap Ctx) (treeValid : TreeValid tree)
    {treePath : BitVec 64} (valid : ValidPath treePath) {tick : Int}
    (safe : AccessSafe treePath tick tree) :
    ∃ heap' tree' result,
      tree.access ctl heap treePath tick = some (heap', tree', result) ∧ TreeValid tree' ∧
      ∀ query, ValidPath query →
        (PresentKey ctl query tree' ↔
          PresentKey ctl query tree ∨ result.isSome ∧ treePath = query) := by
  have laws := triquadtreeRoot_lawful ctl
  unfold StorageTree.access
  dsimp only
  rw [if_pos (rootIndex_lt valid)]
  cases points : (tree.rootItems (rootIndex treePath)).node with
  | none =>
    simp only [Option.isNone_none, if_true, NodePtr.init]
    rcases created : (triquadtreeRootOps ctl).create heap
      (calcRootItemMinCoord (rootIndex treePath)) with ⟨heap₁, _ | node⟩
    · dsimp only
      rw [setRootItem_self]
      exact ⟨_, _, _, rfl, treeValid, fun query _ => by simp⟩
    · obtain ⟨nodeValid, fresh, accessSafe⟩ := laws.create created
      obtain ⟨heap', node', result, outcome, valid', present⟩ :=
        laws.access heap₁ nodeValid (accessSafe treePath tick)
      simp only [Option.bind_eq_bind, Option.bind_some, outcome, Option.pure_def]
      refine ⟨_, _, _, rfl, setRootItem_spec treeValid valid
        (fun before same => before ∨ result.isSome ∧ same) (fun before => by simp) ?_ ?_⟩
      · intro other holds
        cases holds
        exact valid'
      · intro query
        have immediate : Present (triquadtreeRootOps ctl) query node →
            result.isSome = true ∧ (triquadtreeRootView D).same treePath query := by
          intro there
          obtain ⟨same, heap₂, node₂, data, returned⟩ := fresh query there heap₁ treePath tick
          rw [outcome] at returned
          cases returned
          exact ⟨rfl, same⟩
        simpa [points, present query] using immediate
  | some node =>
    simp only [Option.isNone_some, Bool.false_eq_true, if_false]
    rcases moo_spec laws points (treeValid _ node points)
      (show CopySafe _ tick _ _ from fun _ => trivial) heap with
      ⟨heap', thrown⟩ | ⟨heap₁, tick', node₁, copied, valid₁, same₁, -, safe₁, -⟩
    · simp only [thrown]
      rw [setRootItem_self]
      exact ⟨_, _, _, rfl, treeValid, fun query _ => by simp⟩
    · obtain ⟨heap', node', result, outcome, valid', present⟩ :=
        laws.access heap₁ valid₁ (safe₁ treePath (safe node points))
      simp only [copied, Option.bind_eq_bind, Option.bind_some, outcome, Option.pure_def]
      refine ⟨_, _, _, rfl, setRootItem_spec treeValid valid
        (fun before same => before ∨ result.isSome ∧ same) (fun before => by simp) ?_ ?_⟩
      · intro other holds
        cases holds
        exact valid'
      · intro query
        simp [points, present query, same₁ query]

/-- A removal undefines its key if it returns, and no other key changes. -/
theorem remove_spec (ctl : StorageTreeControl Ctx D) (heap : Heap Ctx) (treeValid : TreeValid tree)
    {treePath : BitVec 64} (valid : ValidPath treePath) {tick : Int}
    (safe : RemoveSafe treePath tick tree) :
    ∃ heap' tree' returned,
      tree.remove ctl heap treePath tick = some (heap', tree', returned) ∧ TreeValid tree' ∧
      ∀ query, ValidPath query →
        (PresentKey ctl query tree' ↔
          PresentKey ctl query tree ∧ ¬ (returned = true ∧ treePath = query)) := by
  have laws := triquadtreeRoot_lawful ctl
  unfold StorageTree.remove
  dsimp only
  rw [if_pos (rootIndex_lt valid)]
  cases points : (tree.rootItems (rootIndex treePath)).node with
  | none =>
    refine ⟨_, _, _, rfl, treeValid, fun query validQuery => ?_⟩
    have absent : treePath = query → ¬ PresentKey ctl query tree := by
      rintro rfl
      rw [presentKey_iff valid, points]
      simp
    tauto
  | some node =>
    simp only [Option.isNone_some, Bool.false_eq_true, if_false]
    rcases moo_spec laws points (treeValid _ node points)
      (show CopySafe _ tick _ _ from fun _ => trivial) heap with
      ⟨heap', thrown⟩ | ⟨heap₁, tick', node₁, copied, valid₁, same₁, -, -, safe₁⟩
    · simp only [thrown]
      rw [setRootItem_self]
      exact ⟨_, _, _, rfl, treeValid, fun query _ => by simp⟩
    · obtain ⟨heap', node', returned, outcome, valid', -, whenEmpty, otherwise⟩ :=
        laws.remove heap₁ valid₁ (safe₁ treePath (safe node points))
      simp only [copied, Option.bind_eq_bind, Option.bind_some, outcome, Option.pure_def]
      refine ⟨_, _, _, rfl, setRootItem_spec treeValid valid
        (fun before same => before ∧ ¬ (returned = true ∧ same)) (fun before => by simp) ?_ ?_⟩
      · intro other holds
        split at holds
        · cases holds
        · cases holds
          exact valid'
      · intro query
        by_cases emptied : returned = true ∧ (triquadtreeRootOps ctl).empty node' = true
        · have gone := whenEmpty emptied.1 emptied.2 query
          rw [same₁ query] at gone
          rw [if_pos emptied]
          simpa [NodePtr.reset, points, emptied.1] using gone
        · rw [if_neg emptied]
          simp [points, otherwise emptied query, same₁ query]

/-! ## Runs -/

inductive Operation where
  | access (treePath : BitVec 64) (tick : Int)
  | remove (treePath : BitVec 64) (tick : Int)
  deriving DecidableEq

def Operation.treePath : Operation → BitVec 64
  | .access treePath _ => treePath
  | .remove treePath _ => treePath

def Operation.tick : Operation → Int
  | .access _ tick => tick
  | .remove _ tick => tick

/-- The tree, what its user constructors see, and the calls that have returned.
A call whose user constructor threw has not. -/
structure RunState (Ctx D : Type) where
  heap : Heap Ctx
  tree : StorageTree D := {}
  returned : List Operation := []

variable (ctl)

def step (state : RunState Ctx D) : Operation → Option (RunState Ctx D)
  | .access treePath tick => do
      let (heap, tree, result) ← state.tree.access ctl state.heap treePath tick
      return {
        heap := heap
        tree := tree
        returned := if result.isSome then state.returned ++ [.access treePath tick]
          else state.returned }
  | .remove treePath tick => do
      let (heap, tree, returned) ← state.tree.remove ctl state.heap treePath tick
      return {
        heap := heap
        tree := tree
        returned := if returned then state.returned ++ [.remove treePath tick]
          else state.returned }

/-- Calls one after another on a new tree; `none` if one is undefined behaviour. -/
def run (heap : Heap Ctx) (operations : List Operation) : Option (RunState Ctx D) :=
  operations.foldlM (step ctl) { heap := heap }

variable {ctl}

/-- The path was accessed, and not removed after that. -/
def LiveAfter (returned : List Operation) (treePath : BitVec 64) : Prop :=
  ∃ before after tick, returned = before ++ .access treePath tick :: after ∧
    ∀ tick', .remove treePath tick' ∉ after

/-- The call copies no duoctree node with a live key, and removes no child from
a node whose slots are all taken. -/
def StepSafe : Operation → StorageTree D → Prop
  | .access treePath tick, tree => AccessSafe treePath tick tree
  | .remove treePath tick, tree => RemoveSafe treePath tick tree

/-- Every call of the run is safe in the state it finds. -/
def StepsSafe (ctl : StorageTreeControl Ctx D) (heap : Heap Ctx) (operations : List Operation) :
    Prop :=
  ∀ before operation after state, operations = before ++ operation :: after →
    run ctl heap before = some state → StepSafe operation state.tree

/-- The run has no undefined behaviour, and a lookup in its last state finds
exactly the live paths. -/
def LookupsTellLive (ctl : StorageTreeControl Ctx D) (heap : Heap Ctx)
    (operations : List Operation) : Prop :=
  ∃ state, run ctl heap operations = some state ∧
    ∀ treePath, ValidPath treePath →
      ∃ found, state.tree.lookup ctl treePath = some found ∧
        (found.isSome ↔ LiveAfter state.returned treePath)

theorem liveAfter_append_access (returned : List Operation) (treePath query : BitVec 64)
    (tick : Int) :
    LiveAfter (returned ++ [.access treePath tick]) query ↔
      LiveAfter returned query ∨ treePath = query := by
  constructor
  · rintro ⟨before, after, tick', split, kept⟩
    rcases List.eq_nil_or_concat after with rfl | ⟨rest, last, rfl⟩
    · obtain ⟨-, same⟩ := List.append_inj' split rfl
      cases same
      exact Or.inr rfl
    · rw [List.concat_eq_append, ← List.cons_append, ← List.append_assoc] at split
      obtain ⟨same, -⟩ := List.append_inj' split rfl
      exact Or.inl ⟨before, rest, tick', same, fun tick'' removed =>
        kept tick'' (by simp [removed])⟩
  · rintro (⟨before, after, tick', rfl, kept⟩ | rfl)
    · refine ⟨before, after ++ [.access treePath tick], tick', by simp, ?_⟩
      simpa using kept
    · exact ⟨returned, [], tick, rfl, by simp⟩

theorem liveAfter_append_remove (returned : List Operation) (treePath query : BitVec 64)
    (tick : Int) :
    LiveAfter (returned ++ [.remove treePath tick]) query ↔
      LiveAfter returned query ∧ treePath ≠ query := by
  constructor
  · rintro ⟨before, after, tick', split, kept⟩
    rcases List.eq_nil_or_concat after with rfl | ⟨rest, last, rfl⟩
    · obtain ⟨-, same⟩ := List.append_inj' split rfl
      cases same
    · rw [List.concat_eq_append, ← List.cons_append, ← List.append_assoc] at split
      obtain ⟨same, final⟩ := List.append_inj' split rfl
      cases final
      refine ⟨⟨before, rest, tick', same, fun tick'' removed =>
        kept tick'' (by simp [removed])⟩, ?_⟩
      rintro rfl
      exact kept tick (by simp)
  · rintro ⟨⟨before, after, tick', rfl, kept⟩, differ⟩
    refine ⟨before, after ++ [.remove treePath tick], tick', by simp, fun tick'' removed => ?_⟩
    rcases List.mem_append.mp removed with early | last
    · exact kept tick'' early
    · cases List.mem_singleton.mp last
      exact differ rfl

/-- What the run keeps true from call to call. -/
structure Tells (ctl : StorageTreeControl Ctx D) (state : RunState Ctx D) : Prop where
  treeValid : TreeValid state.tree
  present : ∀ query, ValidPath query →
    (PresentKey ctl query state.tree ↔ LiveAfter state.returned query)

theorem tells_initial (heap : Heap Ctx) : Tells ctl ({ heap := heap } : RunState Ctx D) := by
  refine ⟨nofun, fun query valid => ?_⟩
  rw [presentKey_iff valid]
  refine iff_of_false (fun ⟨_, holds, _⟩ => nomatch holds) ?_
  rintro ⟨before, after, tick, split, -⟩
  simp at split

theorem step_tells {state : RunState Ctx D} (tells : Tells ctl state) {operation : Operation}
    (valid : ValidPath operation.treePath) (safe : StepSafe operation state.tree) :
    ∃ state', step ctl state operation = some state' ∧ Tells ctl state' := by
  cases operation with
  | access treePath tick =>
    change ValidPath treePath at valid
    obtain ⟨heap', tree', result, outcome, treeValid', present⟩ :=
      access_spec ctl state.heap tells.treeValid valid safe
    simp only [step, outcome, Option.bind_eq_bind, Option.bind_some, Option.pure_def]
    refine ⟨_, rfl, treeValid', fun query validQuery => ?_⟩
    rw [present query validQuery, tells.present query validQuery]
    cases result with
    | none => simp
    | some data =>
      rw [Option.isSome_some, if_pos rfl, liveAfter_append_access]
      simp
  | remove treePath tick =>
    change ValidPath treePath at valid
    obtain ⟨heap', tree', returned, outcome, treeValid', present⟩ :=
      remove_spec ctl state.heap tells.treeValid valid safe
    simp only [step, outcome, Option.bind_eq_bind, Option.bind_some, Option.pure_def]
    refine ⟨_, rfl, treeValid', fun query validQuery => ?_⟩
    rw [present query validQuery, tells.present query validQuery]
    cases returned with
    | false => simp
    | true =>
      rw [if_pos rfl, liveAfter_append_remove]
      simp

theorem run_tells (heap : Heap Ctx) {operations : List Operation}
    (valid : ∀ operation ∈ operations, ValidPath operation.treePath)
    (safe : StepsSafe ctl heap operations) :
    ∃ state, run ctl heap operations = some state ∧ Tells ctl state := by
  induction operations using List.reverseRecOn with
  | nil => exact ⟨_, rfl, tells_initial heap⟩
  | append_singleton operations operation ih =>
    obtain ⟨state, reached, tells⟩ :=
      ih (fun other mem => valid other (List.mem_append_left _ mem))
        (fun before other after state split =>
          safe before other (after ++ [operation]) state (by simp [split]))
    obtain ⟨state', stepped, tells'⟩ := step_tells tells
      (valid operation (by simp)) (safe operations operation [] state rfl reached)
    refine ⟨state', ?_, tells'⟩
    unfold run at reached ⊢
    rw [List.foldlM_append, reached]
    simpa using stepped

/-- User data that is made and copied without a failure. -/
def unitControl : StorageTreeControl Unit Unit where
  chunkUserDataDefaultCtor ctx _ := (ctx, some ())
  chunkUserDataCopyCtor ctx _ _ := (ctx, some ())
  duoctreeUserDataDefaultCtor ctx _ := (ctx, some ())
  duoctreeUserDataCopyCtor ctx _ _ := (ctx, some ())

/-- Path of the key of scale 2 at the origin. -/
def scaleTwoPath : BitVec 64 := 0x3200000000008000#64

/-- Path of the chunk key at the origin. -/
def chunkPath : BitVec 64 := 0x3200000000000080#64

/-- Path of a chunk key below another root item. -/
def distantPath : BitVec 64 := 0x162A020210000080#64

theorem scaleTwoPath_valid : ValidPath scaleTwoPath :=
  ⟨ChunkKey.ofBase ⟨0, 0, 0⟩ 2, by decide +kernel⟩

theorem chunkPath_valid : ValidPath chunkPath :=
  ⟨ChunkKey.ofBase ⟨0, 0, 0⟩, by decide +kernel⟩

theorem distantPath_valid : ValidPath distantPath :=
  ⟨ChunkKey.ofBase ⟨-100000, 0, 0⟩, by decide +kernel⟩

/-- One access and a removal elsewhere at a later tick. -/
def distantOperations : List Operation := [.access scaleTwoPath 1, .remove distantPath 2]

theorem distantOperations_valid :
    ∀ operation ∈ distantOperations, ValidPath operation.treePath := by
  intro operation mem
  rcases List.mem_cons.mp mem with rfl | mem
  · exact scaleTwoPath_valid
  · cases List.mem_singleton.mp mem
    exact distantPath_valid

theorem distantOperations_safe : StepsSafe unitControl { ctx := () } distantOperations := by
  intro before operation after state split reached
  rcases before with _ | ⟨first, _ | ⟨second, rest⟩⟩
  · cases split
    cases reached
    exact nofun
  · cases split
    intro node holds
    have noNode : ((run unitControl { ctx := () } [.access scaleTwoPath 1]).map fun state =>
        (state.tree.rootItems (rootIndex distantPath)).node.isNone) = some true := by
      decide +kernel
    rw [reached] at noNode
    simp [holds] at noNode
  · simp [distantOperations] at split

/-- The second access copies the duoctree node that holds the first key. -/
def copyingOperations : List Operation := [.access scaleTwoPath 1, .access chunkPath 2]

end Voxen.Land.StorageTree
