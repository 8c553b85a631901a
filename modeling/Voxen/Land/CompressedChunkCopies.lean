import Mathlib.Data.List.GetD
import Mathlib.Data.List.Induction
import Voxen.Land.CompressedChunkRoundTrip

/-!
# Moving and copying compressed chunks

Storages are built from arrays, filled, moved and copied.  All of them keep their masks and
their arrays in step, so that both read paths stay inside the arrays.  A copy of a mixed node
is written the wrong way round: the new leaves, which are zero, go over the leaves copied from.
-/

namespace Voxen.Land

open PackedArray (popcount rank bit)

namespace CompressedChunkStorage

variable {w : Nat}

/-! ## Moves -/

/-- `CompressedChunkStorage(CompressedChunkStorage &&other)`, with what it leaves of `other`. -/
def moveConstruct (other : CompressedChunkStorage w) :
    CompressedChunkStorage w × CompressedChunkStorage w :=
  match other.nodes with
  | some nodes => ({ word := other.word, nodes := some nodes }, { word := 0, nodes := none })
  | none =>
    ({ word := setUnionValue 0 (unionValue w other.word), nodes := none },
      { word := setUnionValue other.word (0 : BitVec w), nodes := none })

/-- `operator=(CompressedChunkStorage &&other)` swaps both members. -/
def moveAssign (storage other : CompressedChunkStorage w) :
    CompressedChunkStorage w × CompressedChunkStorage w :=
  ({ word := other.word, nodes := other.nodes }, { word := storage.word, nodes := storage.nodes })

/-! ## Copies -/

/-- Body of the loop of the copy constructor, with what it leaves of `other_node`. -/
def copyNode (node otherNode : Node w) : Node w × Node w :=
  match otherNode.leaves with
  | none =>
    ({ node with word := setUnionValue node.word otherNode.uniformValue }, otherNode)
  | some otherLeaves =>
    let numMixedLeaves := popcount otherNode.nonuniformLeafMask
    let numLeaves := numMixedLeaves + (64 - numMixedLeaves + 7) / 8
    let leaves : List (Leaf w) := List.replicate numLeaves fun _ => 0
    -- `std::copy(first, last, d_first)` is given the new leaves as the range to copy from
    ({ node with word := otherNode.nonuniformLeafMask, leaves := some leaves },
      { otherNode with leaves := some (leaves ++ otherLeaves.drop numLeaves) })

/-- Node arrays of the new storage and of the one it is copied from. -/
structure CopyState (w : Nat) where
  nodes : List (Node w)
  otherNodes : List (Node w)

def copyStep (state : CopyState w) (i : Nat) : CopyState w :=
  let copied := copyNode (state.nodes.getD i {}) (state.otherNodes.getD i {})
  { nodes := state.nodes.set i copied.1, otherNodes := state.otherNodes.set i copied.2 }

/-- `CompressedChunkStorage(const CompressedChunkStorage &other)`, with what it leaves of
`other`. -/
def copyConstruct (other : CompressedChunkStorage w) :
    CompressedChunkStorage w × CompressedChunkStorage w :=
  match other.nodes with
  | none => ({ word := setUnionValue 0 (unionValue w other.word), nodes := none }, other)
  | some otherNodes =>
    let numNodes := popcount other.word
    let copied := CountedLoop.run numNodes
      { nodes := List.replicate numNodes {}, otherNodes := otherNodes } copyStep
    ({ word := other.word, nodes := some copied.nodes },
      { word := other.word, nodes := some copied.otherNodes })

/-- `operator=(const CompressedChunkStorage &other)`: a temporary copy is moved here. -/
def copyAssign (storage other : CompressedChunkStorage w) :
    CompressedChunkStorage w × CompressedChunkStorage w :=
  let temporary := copyConstruct other
  ((storage.moveAssign temporary.1).1, temporary.2)

/-! ## Masks and arrays in step -/

/-- The leaf array has room for the mixed leaves and the packed values of the others. -/
def NodeWellFormed (node : Node w) : Prop :=
  ∀ leaves, node.leaves = some leaves → leaves.length = allocatedLeaves node.nonuniformLeafMask

/-- The node array has one node for each bit of the mask. -/
structure WellFormed (storage : CompressedChunkStorage w) : Prop where
  length : ∀ nodes, storage.nodes = some nodes → nodes.length = popcount storage.word
  node : ∀ nodes, storage.nodes = some nodes → ∀ node ∈ nodes, NodeWellFormed node

variable {storage : CompressedChunkStorage w} {storages : Nat → CompressedChunkStorage w}

theorem WellFormed.of_uniform (uniform : storage.nodes = none) : WellFormed storage where
  length nodes some := by rw [uniform] at some; cases some
  node nodes some := by rw [uniform] at some; cases some

theorem constructNode_wellFormed {expanded : Expanded w} {index : Nat} {node : Node w}
    (constructed : constructNode expanded index {} = some node) : NodeWellFormed node := by
  rw [constructNode_eq] at constructed
  dsimp only at constructed
  split at constructed
  · cases constructed
  · split at constructed <;> cases constructed
    · exact nofun
    · intro leaves same
      cases same
      exact (packed_inv expanded _ _).length

theorem compressed_wellFormed (expanded : Expanded w) :
    ∀ node ∈ (compressed expanded).nodes, NodeWellFormed node := by
  refine CountedLoop.run_invariant 64 _ _
    (fun _ (state : CompressState w) => ∀ node ∈ state.nodes, NodeWellFormed node) nofun ?_
  intro i state hi kept node mem
  unfold compressStep at mem
  cases constructed : constructNode expanded i {} with
  | none =>
    rw [constructed] at mem
    exact kept node mem
  | some new =>
    rw [constructed] at mem
    have either : node ∈ state.nodes ++ [new] := by
      dsimp only at mem
      split at mem
      · exact mem
      · split at mem
        · exact mem
        · split at mem <;> exact mem
    rcases List.mem_append.mp either with old | last
    · exact kept node old
    · cases List.mem_singleton.mp last
      exact constructNode_wellFormed constructed

theorem compress_wellFormed (hw : w ≤ 64) (expanded : Expanded w) :
    WellFormed (compress expanded) := by
  rw [compress_eq]
  by_cases whole : (compressed expanded).wholeChunkUniform = true
  · rw [if_pos whole]
    exact WellFormed.of_uniform rfl
  · rw [if_neg whole]
    refine ⟨?_, ?_⟩
    · rintro nodes ⟨⟩
      rw [PackedArray.popcount_eq_rank]
      exact (compressed_inv expanded hw).length
    · rintro nodes ⟨⟩
      exact compressed_wellFormed expanded

theorem moveConstruct_wellFormed {other : CompressedChunkStorage w} (good : WellFormed other) :
    WellFormed (moveConstruct other).1 ∧ WellFormed (moveConstruct other).2 := by
  obtain ⟨word, nodes⟩ := other
  cases nodes with
  | none => exact ⟨WellFormed.of_uniform rfl, WellFormed.of_uniform rfl⟩
  | some nodes => exact ⟨good, WellFormed.of_uniform rfl⟩

/-! ## What a copy holds -/

theorem copyNode_wellFormed {node otherNode : Node w} (fresh : node.leaves = none)
    (good : NodeWellFormed otherNode) :
    NodeWellFormed (copyNode node otherNode).1 ∧ NodeWellFormed (copyNode node otherNode).2 := by
  obtain ⟨word, leaves⟩ := otherNode
  cases leaves with
  | none =>
    refine ⟨fun leaves some => ?_, good⟩
    rw [show (copyNode node ⟨word, none⟩).1.leaves = node.leaves from rfl, fresh] at some
    cases some
  | some otherLeaves =>
    have length := good otherLeaves rfl
    refine ⟨?_, ?_⟩
    · rintro leaves ⟨⟩
      exact List.length_replicate
    · rintro leaves ⟨⟩
      rw [List.length_append, List.length_replicate, List.length_drop, length]
      exact Nat.add_sub_cancel' (Nat.le_refl (allocatedLeaves word))

theorem getD_set {α : Type} (list : List α) (i j : Nat) (new default : α) :
    (list.set i new).getD j default =
      if i = j ∧ i < list.length then new else list.getD j default := by
  rw [List.getD_eq_getElem?_getD, List.getD_eq_getElem?_getD, List.getElem?_set]
  by_cases same : i = j
  · subst same
    by_cases inside : i < list.length
    · simp [inside]
    · simp [inside]
  · simp [same]

/-- What the loop of the copy constructor has done before node `i`. -/
structure CopyInv (numNodes : Nat) (otherNodes : List (Node w)) (i : Nat) (state : CopyState w) :
    Prop where
  length : state.nodes.length = numNodes
  lengthOther : state.otherNodes.length = otherNodes.length
  copied : ∀ j, j < i → state.nodes.getD j {} = (copyNode {} (otherNodes.getD j {})).1
  fresh : ∀ j, i ≤ j → state.nodes.getD j {} = {}
  left : ∀ j, j < i → state.otherNodes.getD j {} = (copyNode {} (otherNodes.getD j {})).2
  untouched : ∀ j, i ≤ j → state.otherNodes.getD j {} = otherNodes.getD j {}

theorem copyStep_inv {numNodes : Nat} {otherNodes : List (Node w)} {i : Nat} (hi : i < numNodes)
    {state : CopyState w} (inv : CopyInv numNodes otherNodes i state) :
    CopyInv numNodes otherNodes (i + 1) (copyStep state i) := by
  have inside : i < state.nodes.length := by rw [inv.length]; exact hi
  have now := inv.fresh i (Nat.le_refl i)
  have other := inv.untouched i (Nat.le_refl i)
  have step : copyStep state i =
      { nodes := state.nodes.set i (copyNode {} (otherNodes.getD i {})).1
        otherNodes := state.otherNodes.set i (copyNode {} (otherNodes.getD i {})).2 } := by
    unfold copyStep
    rw [now, other]
  rw [step]
  refine ⟨?_, ?_, ?_, ?_, ?_, ?_⟩
  · rw [List.length_set]
    exact inv.length
  · rw [List.length_set]
    exact inv.lengthOther
  · intro j hj
    rw [getD_set]
    rcases Nat.lt_succ_iff_lt_or_eq.mp hj with before | rfl
    · rw [if_neg (fun same => Nat.ne_of_gt before same.1)]
      exact inv.copied j before
    · rw [if_pos ⟨rfl, inside⟩]
  · intro j hj
    rw [getD_set, if_neg (fun same => Nat.ne_of_lt hj same.1)]
    exact inv.fresh j (Nat.le_of_succ_le hj)
  · intro j hj
    rw [getD_set]
    rcases Nat.lt_succ_iff_lt_or_eq.mp hj with before | rfl
    · rw [if_neg (fun same => Nat.ne_of_gt before same.1)]
      exact inv.left j before
    · by_cases held : j < state.otherNodes.length
      · rw [if_pos ⟨rfl, held⟩]
      · -- past the array the default node stands for both
        have out : otherNodes.getD j ({} : Node w) = {} := by
          rw [List.getD_eq_getElem?_getD, List.getElem?_eq_none, Option.getD_none]
          rw [← inv.lengthOther]
          exact Nat.le_of_not_lt held
        rw [if_neg (fun same => held same.2), other, out]
        rfl
  · intro j hj
    rw [getD_set, if_neg (fun same => Nat.ne_of_lt hj same.1)]
    exact inv.untouched j (Nat.le_of_succ_le hj)

/-- Both node arrays after the loop of the copy constructor. -/
def copiedNodes (numNodes : Nat) (otherNodes : List (Node w)) : CopyState w :=
  CountedLoop.run numNodes { nodes := List.replicate numNodes {}, otherNodes := otherNodes }
    copyStep

theorem copiedNodes_inv (numNodes : Nat) (otherNodes : List (Node w)) :
    CopyInv numNodes otherNodes numNodes (copiedNodes numNodes otherNodes) := by
  refine CountedLoop.run_invariant numNodes _ _ (CopyInv numNodes otherNodes) ?_
    (fun i state hi inv => copyStep_inv hi inv)
  refine ⟨List.length_replicate, rfl, nofun, fun j _ => ?_, nofun, fun _ _ => rfl⟩
  rw [List.getD_eq_getElem?_getD, List.getElem?_replicate]
  split <;> rfl

theorem copyConstruct_some (word : BitVec 64) (nodes : List (Node w)) :
    copyConstruct { word := word, nodes := some nodes } =
      ({ word := word, nodes := some (copiedNodes (popcount word) nodes).nodes },
        { word := word, nodes := some (copiedNodes (popcount word) nodes).otherNodes }) := rfl

theorem copyConstruct_wellFormed {other : CompressedChunkStorage w} (good : WellFormed other) :
    WellFormed (copyConstruct other).1 ∧ WellFormed (copyConstruct other).2 := by
  obtain ⟨word, nodes⟩ := other
  cases nodes with
  | none => exact ⟨WellFormed.of_uniform rfl, good⟩
  | some otherNodes =>
    have inv := copiedNodes_inv (popcount word) otherNodes
    have length := good.length otherNodes rfl
    have each : ∀ j, NodeWellFormed (otherNodes.getD j {}) := by
      intro j
      rcases Nat.lt_or_ge j otherNodes.length with inside | outside
      · rw [List.getD_eq_getElem _ _ inside]
        exact good.node otherNodes rfl _ (List.getElem_mem inside)
      · rw [List.getD_eq_default _ _ outside]
        exact nofun
    rw [copyConstruct_some]
    refine ⟨⟨?_, ?_⟩, ⟨?_, ?_⟩⟩
    · rintro nodes ⟨⟩
      exact inv.length
    · rintro nodes ⟨⟩ node mem
      obtain ⟨j, inside, rfl⟩ := List.mem_iff_getElem.mp mem
      have same := inv.copied j (inv.length ▸ inside)
      rw [List.getD_eq_getElem _ _ inside] at same
      rw [same]
      exact (copyNode_wellFormed rfl (each j)).1
    · rintro nodes ⟨⟩
      exact inv.lengthOther.trans length
    · rintro nodes ⟨⟩ node mem
      obtain ⟨j, inside, rfl⟩ := List.mem_iff_getElem.mp mem
      have same := inv.left j (length ▸ inv.lengthOther ▸ inside)
      rw [List.getD_eq_getElem _ _ inside] at same
      rw [same]
      exact (copyNode_wellFormed (rfl : ({} : Node w).leaves = none) (each j)).2

/-! ## What a copy loads -/

theorem loadNode_blank (word : BitVec 64) (numLeaves leafId elementId : Nat) :
    loadNode { word := word, leaves := some (List.replicate numLeaves fun _ => 0) }
      leafId elementId = (0 : BitVec w) := by
  have zero : ∀ index, leafAt (List.replicate numLeaves fun _ => (0 : BitVec w)) index =
      fun _ => 0 := by
    intro index
    unfold leafAt
    rw [List.getD_eq_getElem?_getD, List.getElem?_replicate]
    split <;> rfl
  simp only [loadNode, packedValueAt, zero, ite_self]

theorem loadNode_blank_append (word : BitVec 64) (rest : List (Leaf w)) {leafId : Nat}
    (hleaf : leafId < 64) (elementId : Nat) :
    loadNode
      { word := word
        leaves := some ((List.replicate (allocatedLeaves word) fun _ => 0) ++ rest) }
      leafId elementId = (0 : BitVec w) := by
  have zero : ∀ index < allocatedLeaves word,
      leafAt ((List.replicate (allocatedLeaves word) fun _ => (0 : BitVec w)) ++ rest) index =
        fun _ => 0 := by
    intro index inside
    unfold leafAt
    rw [List.getD_append _ _ _ _ (by rwa [List.length_replicate]), List.getD_eq_getElem?_getD,
      List.getElem?_replicate, if_pos inside, Option.getD_some]
  rw [loadNode_some _ _ hleaf]
  by_cases set : word.getLsbD leafId = true
  · have first : rank word leafId < allocatedLeaves word :=
      Nat.lt_of_lt_of_le (PackedArray.rank_lt_popcount set) (Nat.le_add_right _ _)
    rw [if_pos set, zero _ first]
  · have second := packed_bound word hleaf (by simpa using set)
    rw [if_neg set]
    unfold packedValueAt
    rw [zero _ second]

/-- Both nodes read alike after the copy: a uniform node as before, a mixed one as zero. -/
theorem copyNode_loadNode (hw : w ≤ 64) (otherNode : Node w) {leafId : Nat} (hleaf : leafId < 64)
    (elementId : Nat) :
    loadNode (copyNode {} otherNode).1 leafId elementId =
        (if otherNode.uniform then loadNode otherNode leafId elementId else 0) ∧
      loadNode (copyNode {} otherNode).2 leafId elementId =
        (if otherNode.uniform then loadNode otherNode leafId elementId else 0) := by
  obtain ⟨word, leaves⟩ := otherNode
  cases leaves with
  | none => exact ⟨unionValue_setUnionValue hw _ _, rfl⟩
  | some leaves =>
    exact ⟨loadNode_blank word _ leafId elementId, loadNode_blank_append word _ hleaf elementId⟩

/-- The position lies in a stored node that has a leaf array. -/
def InMixedNode (storage : CompressedChunkStorage w) (x y z : Nat) : Prop :=
  ∃ nodes, storage.nodes = some nodes ∧ storage.word.getLsbD (nodeIndex x y z) = true ∧
    (nodes.getD (rank storage.word (nodeIndex x y z)) {}).uniform = false

/-- After a copy both storages read zero in mixed nodes, and as before everywhere else. -/
theorem copyConstruct_load (hw : w ≤ 64) (other : CompressedChunkStorage w) {x y z : Nat}
    (hx : x < 32) (hy : y < 32) (hz : z < 32) :
    (other.InMixedNode x y z →
      (copyConstruct other).1.load x y z = 0 ∧ (copyConstruct other).2.load x y z = 0) ∧
    (¬ other.InMixedNode x y z →
      (copyConstruct other).1.load x y z = other.load x y z ∧
        (copyConstruct other).2.load x y z = other.load x y z) := by
  obtain ⟨word, nodes⟩ := other
  cases nodes with
  | none =>
    refine ⟨fun ⟨_, stored, _⟩ => ?_, fun _ => ⟨unionValue_setUnionValue hw _ _, rfl⟩⟩
    cases stored
  | some otherNodes =>
    have inv := copiedNodes_inv (popcount word) otherNodes
    rw [copyConstruct_some, load_some _ _ hx hy hz, load_some _ _ hx hy hz,
      load_some _ _ hx hy hz]
    by_cases set : word.getLsbD (nodeIndex x y z) = true
    · have inside := PackedArray.rank_lt_popcount set
      obtain ⟨copy, source⟩ := copyNode_loadNode hw
        (otherNodes.getD (rank word (nodeIndex x y z)) {}) (leafIndex_lt x y z)
        (elementIndex x y z)
      rw [if_pos set, if_pos set, if_pos set, inv.copied _ inside, inv.left _ inside, copy,
        source]
      refine ⟨?_, fun notMixed => ?_⟩
      · rintro ⟨nodes, ⟨⟩, -, mixed⟩
        rw [mixed]
        exact ⟨rfl, rfl⟩
      · have uniform : (otherNodes.getD (rank word (nodeIndex x y z)) {}).uniform = true := by
          by_contra mixed
          exact notMixed ⟨otherNodes, rfl, set, by simpa using mixed⟩
        rw [uniform]
        exact ⟨rfl, rfl⟩
    · rw [if_neg set, if_neg set, if_neg set]
      exact ⟨fun _ => ⟨rfl, rfl⟩, fun _ => ⟨rfl, rfl⟩⟩

/-- Copy construction and copy assignment give a storage with the same values, and leave those
of the storage copied from. -/
def CopyKeepsValues (other : CompressedChunkStorage w) : Prop :=
  ∀ x y z, x < 32 → y < 32 → z < 32 →
    ((copyConstruct other).1.load x y z = other.load x y z ∧
      (copyConstruct other).2.load x y z = other.load x y z) ∧
    ∀ storage : CompressedChunkStorage w,
      (copyAssign storage other).1.load x y z = other.load x y z ∧
        (copyAssign storage other).2.load x y z = other.load x y z

/-- Copies keep values exactly when no mixed node holds any value but zero. -/
theorem copyKeepsValues_iff (type : BlockType) (other : CompressedChunkStorage type.width) :
    CopyKeepsValues other ↔
      ∀ x y z, x < 32 → y < 32 → z < 32 → other.InMixedNode x y z → other.load x y z = 0 := by
  constructor
  · intro keeps x y z hx hy hz mixed
    have copied := ((copyConstruct_load type.width_le other hx hy hz).1 mixed).1
    rw [← (keeps x y z hx hy hz).1.1, copied]
  · intro zeros x y z hx hy hz
    have copied : (copyConstruct other).1.load x y z = other.load x y z ∧
        (copyConstruct other).2.load x y z = other.load x y z := by
      obtain ⟨mixed, others⟩ := copyConstruct_load type.width_le other hx hy hz
      by_cases inMixed : other.InMixedNode x y z
      · rw [zeros x y z hx hy hz inMixed]
        exact mixed inMixed
      · exact others inMixed
    -- an assignment moves the temporary copy as it is
    exact ⟨copied, fun storage => copied⟩

theorem compress_inMixedNode (hw : w ≤ 64) (expanded : Expanded w) {x y z : Nat} (hx : x < 32)
    (hy : y < 32) (hz : z < 32)
    (mixed : ∀ value, ¬ Uniform expanded (nodeIndex x y z) value) :
    (compress expanded).InMixedNode x y z := by
  have inv := compressed_inv expanded hw
  have hnode := nodeIndex_lt hx hy hz
  have whole : ¬ (compressed expanded).wholeChunkUniform = true := by
    rw [inv.whole]
    rintro (all | all)
    · exact mixed 0 (all _ hnode)
    · obtain ⟨value, -, uniform⟩ := all _ hnode
      exact mixed value uniform
  have stored := inv.stored _ hnode (mixed 0)
  have encoding := constructNode_encoding hw expanded (nodeIndex x y z)
  rw [compress_eq, if_neg whole]
  refine ⟨_, rfl, (inv.mask _).mpr ⟨hnode, mixed 0⟩, ?_⟩
  rw [List.getD_eq_getElem?_getD, stored]
  generalize constructNode expanded (nodeIndex x y z) {} = constructed at encoding
  cases encoding with
  | zero uniform => exact absurd uniform (mixed 0)
  | uniform flat nonzero uniform => exact absurd uniform (mixed _)
  | mixed packed mixed decodes => exact packed

/-- An array of zeros with one value 1. -/
def oneBlock : Expanded BlockType.uint16.width :=
  fun y x z => if y = 0 ∧ x = 0 ∧ z = 0 then 1 else 0

theorem oneBlock_mixed (value : BitVec BlockType.uint16.width) : ¬ Uniform oneBlock 0 value := by
  intro uniform
  have positions := (uniform_iff_positions oneBlock (by decide) value).mp uniform
  have one : 1 = value := positions 0 0 0 (by decide)
  have zero : 0 = value := positions 0 0 1 (by decide)
  rw [← zero] at one
  exact absurd one (by decide)

/-- The copy of a chunk with one block is empty, and so is the chunk after it. -/
theorem oneBlock_copy_loses : ¬ CopyKeepsValues (compress oneBlock) := by
  intro keeps
  have inMixed := compress_inMixedNode (by decide) oneBlock (by decide : 0 < 32)
    (by decide : 0 < 32) (by decide : 0 < 32) oneBlock_mixed
  have zero := (copyKeepsValues_iff .uint16 _).mp keeps 0 0 0 (by decide) (by decide) (by decide)
    inMixed
  have severalKinds : ¬ OneKind oneBlock 64 := by
    rintro (all | all)
    · exact oneBlock_mixed 0 (all 0 (by decide))
    · obtain ⟨value, -, uniform⟩ := all 0 (by decide)
      exact oneBlock_mixed value uniform
  have load := compress_load_mixed oneBlock (by decide) severalKinds 0 0 0
  exact absurd (zero.symm.trans load) (by decide)

/-! ## Runs -/

/-- What is done with the storages of a program, each known by a number. -/
inductive Operation (w : Nat) where
  | construct (object : Nat)
  | compress (object : Nat) (expanded : Expanded w)
  | setUniform (object : Nat) (value : BitVec w)
  | moveConstruct (object other : Nat)
  | moveAssign (object other : Nat)
  | copyConstruct (object other : Nat)
  | copyAssign (object other : Nat)

/-- Keep what an operation on two objects gives for them; `object` may be `other`. -/
def storeBoth (storages : Nat → CompressedChunkStorage w) (object other : Nat)
    (results : CompressedChunkStorage w × CompressedChunkStorage w) :
    Nat → CompressedChunkStorage w :=
  Function.update (Function.update storages other results.2) object results.1

def step (storages : Nat → CompressedChunkStorage w) :
    Operation w → Nat → CompressedChunkStorage w
  | .construct object => Function.update storages object {}
  | .compress object expanded => Function.update storages object (compress expanded)
  | .setUniform object value =>
    Function.update storages object ((storages object).setUniform value)
  | .moveConstruct object other => storeBoth storages object other (storages other).moveConstruct
  | .moveAssign object other =>
    storeBoth storages object other ((storages object).moveAssign (storages other))
  | .copyConstruct object other => storeBoth storages object other (storages other).copyConstruct
  | .copyAssign object other =>
    storeBoth storages object other ((storages object).copyAssign (storages other))

/-- The storages after some operations, all default constructed before. -/
def storagesAfter (operations : List (Operation w)) : Nat → CompressedChunkStorage w :=
  operations.foldl step fun _ => {}

theorem update_wellFormed (good : ∀ object, WellFormed (storages object)) (changed : Nat)
    (new : WellFormed storage) (object : Nat) :
    WellFormed (Function.update storages changed storage object) := by
  by_cases same : object = changed
  · rw [same, Function.update_self]
    exact new
  · rw [Function.update_of_ne same]
    exact good object

theorem storeBoth_wellFormed (good : ∀ object, WellFormed (storages object)) (changed other : Nat)
    {results : CompressedChunkStorage w × CompressedChunkStorage w}
    (new : WellFormed results.1 ∧ WellFormed results.2) (object : Nat) :
    WellFormed (storeBoth storages changed other results object) :=
  update_wellFormed (update_wellFormed good other new.2) changed new.1 object

theorem step_wellFormed (hw : w ≤ 64) (good : ∀ object, WellFormed (storages object))
    (operation : Operation w) :
    ∀ object, WellFormed (step storages operation object) := by
  cases operation with
  | construct changed => exact update_wellFormed good changed (WellFormed.of_uniform rfl)
  | compress changed expanded =>
    exact update_wellFormed good changed (compress_wellFormed hw expanded)
  | setUniform changed value =>
    exact update_wellFormed good changed (WellFormed.of_uniform rfl)
  | moveConstruct changed other =>
    exact storeBoth_wellFormed good changed other (moveConstruct_wellFormed (good other))
  | moveAssign changed other =>
    exact storeBoth_wellFormed good changed other ⟨good other, good changed⟩
  | copyConstruct changed other =>
    exact storeBoth_wellFormed good changed other (copyConstruct_wellFormed (good other))
  | copyAssign changed other =>
    exact storeBoth_wellFormed good changed other (copyConstruct_wellFormed (good other))

theorem storagesAfter_wellFormed (hw : w ≤ 64) (operations : List (Operation w)) :
    ∀ object, WellFormed (storagesAfter operations object) := by
  induction operations using List.reverseRecOn with
  | nil => exact fun _ => WellFormed.of_uniform rfl
  | append_singleton operations operation ih =>
    unfold storagesAfter at ih ⊢
    rw [List.foldl_append]
    exact step_wellFormed hw ih operation

/-- The array elements read for a position are there. -/
def ReadsInside (storage : CompressedChunkStorage w) (x y z : Nat) : Prop :=
  ∀ nodes, storage.nodes = some nodes → storage.word.getLsbD (nodeIndex x y z) = true →
    rank storage.word (nodeIndex x y z) < nodes.length ∧
    ∀ leaves, (nodes.getD (rank storage.word (nodeIndex x y z)) {}).leaves = some leaves →
      let mask := (nodes.getD (rank storage.word (nodeIndex x y z)) {}).nonuniformLeafMask
      if mask.getLsbD (leafIndex x y z) = true then
        rank mask (leafIndex x y z) < leaves.length
      else popcount mask + rank (~~~mask) (leafIndex x y z) / 8 < leaves.length

theorem WellFormed.readsInside (good : WellFormed storage) (x y z : Nat) :
    ReadsInside storage x y z := by
  intro nodes stored set
  have inside : rank storage.word (nodeIndex x y z) < nodes.length := by
    rw [good.length nodes stored]
    exact PackedArray.rank_lt_popcount set
  refine ⟨inside, fun leaves held => ?_⟩
  have node := good.node nodes stored _ (List.getElem_mem inside)
  rw [← List.getD_eq_getElem nodes {} inside] at node
  rw [node leaves held]
  dsimp only
  split
  · next mixed =>
      exact Nat.lt_of_lt_of_le (PackedArray.rank_lt_popcount mixed) (Nat.le_add_right _ _)
  · next packed => exact packed_bound _ (leafIndex_lt x y z) (by simpa using packed)

/-- Whatever was built, moved and copied before: `load` returns what `expand` writes, and both
read inside the arrays. -/
theorem storagesAfter_load_eq_expand (type : BlockType) (operations : List (Operation type.width))
    (object : Nat) (view : Expanded type.width) (y x z : Fin 32) :
    (storagesAfter operations object).load x y z =
        (storagesAfter operations object).expand view y x z ∧
      ReadsInside (storagesAfter operations object) x y z :=
  ⟨(expand_apply _ view y x z).symm,
    (storagesAfter_wellFormed type.width_le operations object).readsInside x y z⟩

end CompressedChunkStorage

end Voxen.Land
