import Voxen.Land.CompressedChunkStorage

/-!
# Both read paths of a compressed chunk agree

`expand` walks the stored nodes and leaves with cursors, `load` recomputes the
positions with population counts.  The cursors always equal the ranks, so both
read the same value everywhere, whatever the storage holds.
-/

namespace Voxen.Land

open PackedArray (popcount rank bit)

/-! ## Node, leaf and element numbers of a position -/

def nodeIndex (x y z : Nat) : Nat := z / 8 + (x / 8) * 4 + (y / 8) * 16

def leafIndex (x y z : Nat) : Nat := z % 8 / 2 + (x % 8 / 2) * 4 + (y % 8 / 2) * 16

def elementIndex (x y z : Nat) : Nat := z % 2 + (x % 2) * 2 + (y % 2) * 4

theorem nodeBaseOffset_eq {i : Nat} (hi : i < 64) :
    nodeBaseOffset i = ⟨i / 4 % 4 * 8, i / 16 * 8, i % 4 * 8⟩ := by
  have table : ∀ i : Fin 64,
      nodeBaseOffset i = ⟨i.val / 4 % 4 * 8, i.val / 16 * 8, i.val % 4 * 8⟩ := by decide
  exact table ⟨i, hi⟩

theorem leafBaseOffset_eq (base : UVec3) {i : Nat} (hi : i < 64) :
    leafBaseOffset base i =
      ⟨base.x + i / 4 % 4 * 2, base.y + i / 16 * 2, base.z + i % 4 * 2⟩ := by
  have table : ∀ i : Fin 64,
      leafBaseOffset ⟨0, 0, 0⟩ i = ⟨i.val / 4 % 4 * 2, i.val / 16 * 2, i.val % 4 * 2⟩ := by
    decide
  have entry := table ⟨i, hi⟩
  simp only [leafBaseOffset, UVec3.mk.injEq, Nat.zero_add] at entry ⊢
  omega

theorem nodeIndex_lt {x y z : Nat} (hx : x < 32) (hy : y < 32) (hz : z < 32) :
    nodeIndex x y z < 64 := by
  unfold nodeIndex
  omega

theorem leafIndex_lt (x y z : Nat) : leafIndex x y z < 64 := by
  unfold leafIndex
  omega

theorem elementIndex_lt (x y z : Nat) : elementIndex x y z < 8 := by
  unfold elementIndex
  omega

theorem inside_node_iff {x y z : Nat} (hx : x < 32) (hz : z < 32) {i : Nat} (hi : i < 64) :
    CubeArray.Inside (nodeBaseOffset i) 8 x y z ↔ nodeIndex x y z = i := by
  rw [nodeBaseOffset_eq hi]
  unfold CubeArray.Inside nodeIndex
  dsimp only
  constructor <;> intro inside <;> omega

theorem inside_leaf_iff {x y z : Nat} (hx : x < 32) (hz : z < 32) {i j : Nat}
    (hi : i < 64) (hj : j < 64) :
    CubeArray.Inside (leafBaseOffset (nodeBaseOffset i) j) 2 x y z ↔
      nodeIndex x y z = i ∧ leafIndex x y z = j := by
  rw [leafBaseOffset_eq _ hj, nodeBaseOffset_eq hi]
  unfold CubeArray.Inside nodeIndex leafIndex
  dsimp only
  constructor
  · intro inside
    constructor <;> omega
  · rintro ⟨node, leaf⟩
    omega

theorem leafBase_offset {x y z : Nat} (hx : x < 32) (hy : y < 32) (hz : z < 32) :
    let base := leafBaseOffset (nodeBaseOffset (nodeIndex x y z)) (leafIndex x y z)
    x = base.x + x % 2 ∧ y = base.y + y % 2 ∧ z = base.z + z % 2 := by
  rw [leafBaseOffset_eq _ (leafIndex_lt x y z), nodeBaseOffset_eq (nodeIndex_lt hx hy hz)]
  unfold nodeIndex leafIndex
  dsimp only
  refine ⟨?_, ?_, ?_⟩ <;> omega

theorem Leaf.toCube_load {w : Nat} (leaf : Leaf w) {x y z : Nat} (base : UVec3)
    (hx : x = base.x + x % 2) (hy : y = base.y + y % 2) (hz : z = base.z + z % 2) :
    leaf.toCube.load (x - base.x) (y - base.y) (z - base.z) =
      leaf (Fin.ofNat 8 (elementIndex x y z)) := by
  have index : 4 * ((y - base.y) % 2) + 2 * ((x - base.x) % 2) + (z - base.z) % 2 =
      elementIndex x y z := by
    unfold elementIndex
    omega
  simp only [Leaf.toCube, CubeArray.load, Fin.val_ofNat, index]

namespace CompressedChunkStorage

variable {w : Nat}

theorem rank_not_succ (mask : BitVec 64) {j : Nat} (hj : j < 64) :
    rank (~~~mask) (j + 1) =
      if mask.getLsbD j = true then rank (~~~mask) j else rank (~~~mask) j + 1 := by
  rw [PackedArray.rank_succ, BitVec.getLsbD_not]
  cases mask.getLsbD j <;> simp [hj]

theorem rank_succ_eq (mask : BitVec 64) (j : Nat) :
    rank mask (j + 1) = if mask.getLsbD j = true then rank mask j + 1 else rank mask j := by
  rw [PackedArray.rank_succ]
  cases mask.getLsbD j <;> simp

theorem loadNode_some (word : BitVec 64) (leaves : List (Leaf w)) {leafId : Nat}
    (hleaf : leafId < 64) (elementId : Nat) :
    loadNode { word := word, leaves := some leaves } leafId elementId =
      if word.getLsbD leafId = true then
        leafAt leaves (rank word leafId) (Fin.ofNat 8 elementId)
      else packedValueAt leaves (popcount word) (rank (~~~word) leafId) := by
  simp only [loadNode, Node.nonuniformLeafMask, PackedArray.and_bit_ne_zero,
    PackedArray.popcount_and_below _ hleaf]

/-- What the inner loop of `expand` has done before leaf `j`. -/
structure LeafExpandInv (index : Nat) (mask : BitVec 64) (leaves : List (Leaf w))
    (view : Expanded w) (j : Nat) (state : LeafExpandState w) : Prop where
  nonuniform : state.nonuniformLeaf = rank mask j
  uniform : state.uniformLeaf = rank (~~~mask) j
  values : ∀ y x z : Fin 32, state.view y x z =
    if nodeIndex x y z = index ∧ leafIndex x y z < j then
      loadNode { word := mask, leaves := some leaves } (leafIndex x y z) (elementIndex x y z)
    else view y x z

theorem expandLeafStep_inv {index : Nat} (hindex : index < 64) (mask : BitVec 64)
    (leaves : List (Leaf w)) (view : Expanded w) {j : Nat} (hj : j < 64)
    {state : LeafExpandState w} (inv : LeafExpandInv index mask leaves view j state) :
    LeafExpandInv index mask leaves view (j + 1)
      (expandLeafStep (nodeBaseOffset index) mask leaves state j) := by
  -- positions of the current leaf are the only ones written
  have written : ∀ y x z : Fin 32,
      (expandLeafStep (nodeBaseOffset index) mask leaves state j).view y x z =
        if nodeIndex x y z = index ∧ leafIndex x y z = j then
          loadNode { word := mask, leaves := some leaves } (leafIndex x y z) (elementIndex x y z)
        else state.view y x z := by
    intro y x z
    have inside := @inside_leaf_iff x y z x.isLt z.isLt index j hindex hj
    by_cases here : nodeIndex x y z = index ∧ leafIndex x y z = j
    · have offset := leafBase_offset x.isLt y.isLt z.isLt
      rw [here.1, here.2] at offset
      rw [if_pos here, here.2, loadNode_some _ _ hj]
      unfold expandLeafStep
      by_cases set : mask.getLsbD j = true
      · rw [if_pos ((PackedArray.and_bit_ne_zero mask j).mpr set), if_pos set]
        simp only [CubeArray.fillFrom, if_pos (inside.mpr here), inv.nonuniform]
        exact Leaf.toCube_load _ _ offset.1 offset.2.1 offset.2.2
      · rw [if_neg (fun nonzero => set ((PackedArray.and_bit_ne_zero mask j).mp nonzero)),
          if_neg set]
        simp only [CubeArray.fill, if_pos (inside.mpr here), inv.uniform]
    · rw [if_neg here]
      unfold expandLeafStep
      split <;> simp only [CubeArray.fillFrom, CubeArray.fill, if_neg (mt inside.mp here)]
  refine ⟨?_, ?_, ?_⟩
  · rw [rank_succ_eq, ← inv.nonuniform]
    simp only [expandLeafStep, PackedArray.and_bit_ne_zero]
    split <;> rfl
  · rw [rank_not_succ mask hj, ← inv.uniform]
    simp only [expandLeafStep, PackedArray.and_bit_ne_zero]
    split <;> rfl
  · intro y x z
    rw [written, inv.values]
    by_cases node : nodeIndex x y z = index
    · rcases Nat.lt_trichotomy (leafIndex x y z) j with before | here | after
      · simp [node, before, Nat.lt_succ_of_lt before, Nat.ne_of_lt before]
      · simp [node, here]
      · simp [node, show ¬ leafIndex x y z < j by omega,
          show ¬ leafIndex x y z < j + 1 by omega, show ¬ leafIndex x y z = j by omega]
    · simp [node]

/-- Expanding a node writes its `load` values to its own cube and nothing else. -/
theorem expandNode_apply (node : Node w) {index : Nat} (hindex : index < 64)
    (view : Expanded w) (y x z : Fin 32) :
    expandNode node (nodeBaseOffset index) view y x z =
      if nodeIndex x y z = index then
        loadNode node (leafIndex x y z) (elementIndex x y z)
      else view y x z := by
  obtain ⟨word, leaves⟩ := node
  cases leaves with
  | none =>
    simp only [expandNode, loadNode, CubeArray.fill,
      inside_node_iff x.isLt z.isLt hindex]
  | some leaves =>
    have final := CountedLoop.run_invariant 64
      ({ view := view } : LeafExpandState w)
      (expandLeafStep (nodeBaseOffset index) word leaves)
      (LeafExpandInv index word leaves view)
      ⟨rfl, rfl, fun y x z => by simp⟩
      (fun j state hj inv => expandLeafStep_inv hindex word leaves view hj inv)
    have value := final.values y x z
    simpa only [expandNode, Node.nonuniformLeafMask, leafIndex_lt, and_true] using value

/-- What the outer loop of `expand` has done before node `i`. -/
structure ExpandInv (mask : BitVec 64) (nodes : List (Node w)) (view : Expanded w)
    (i : Nat) (state : ExpandState w) : Prop where
  node : state.node = rank mask i
  values : ∀ y x z : Fin 32, state.view y x z =
    if nodeIndex x y z < i then
      ({ word := mask, nodes := some nodes } : CompressedChunkStorage w).load x y z
    else view y x z

theorem load_some (mask : BitVec 64) (nodes : List (Node w)) {x y z : Nat}
    (hx : x < 32) (hy : y < 32) (hz : z < 32) :
    ({ word := mask, nodes := some nodes } : CompressedChunkStorage w).load x y z =
      if mask.getLsbD (nodeIndex x y z) = true then
        loadNode (nodes.getD (rank mask (nodeIndex x y z)) {})
          (leafIndex x y z) (elementIndex x y z)
      else 0 := by
  have hnode := nodeIndex_lt hx hy hz
  change (if mask &&& bit 64 (nodeIndex x y z) = 0#64 then 0
    else loadNode (nodes.getD
        (popcount (mask &&& (bit 64 (nodeIndex x y z) - 1#64))) {})
      (leafIndex x y z) (elementIndex x y z)) = _
  rw [PackedArray.popcount_and_below _ hnode]
  by_cases set : mask.getLsbD (nodeIndex x y z) = true
  · rw [if_neg ((PackedArray.and_bit_ne_zero mask _).mpr set), if_pos set]
  · rw [if_pos ((PackedArray.and_bit_eq_zero mask _).mpr (by simpa using set)), if_neg set]

theorem expandStep_inv (mask : BitVec 64) (nodes : List (Node w)) (view : Expanded w)
    {i : Nat} (hi : i < 64) {state : ExpandState w}
    (inv : ExpandInv mask nodes view i state) :
    ExpandInv mask nodes view (i + 1) (expandStep mask nodes state i) := by
  have written : ∀ y x z : Fin 32, (expandStep mask nodes state i).view y x z =
      if nodeIndex x y z = i then
        ({ word := mask, nodes := some nodes } : CompressedChunkStorage w).load x y z
      else state.view y x z := by
    intro y x z
    rw [load_some mask nodes x.isLt y.isLt z.isLt]
    unfold expandStep
    by_cases set : mask.getLsbD i = true
    · rw [if_neg ((PackedArray.and_bit_ne_zero mask i).mpr set)]
      simp only [expandNode_apply _ hi, inv.node]
      by_cases here : nodeIndex x y z = i
      · simp [here, set]
      · simp [here]
    · have clear : mask.getLsbD i = false := by simpa using set
      rw [if_pos ((PackedArray.and_bit_eq_zero mask i).mpr clear)]
      simp only [CubeArray.fill, inside_node_iff x.isLt z.isLt hi]
      by_cases here : nodeIndex x y z = i
      · simp [here, clear]
      · simp [here]
  refine ⟨?_, ?_⟩
  · rw [rank_succ_eq, ← inv.node]
    unfold expandStep
    by_cases set : mask.getLsbD i = true
    · rw [if_neg ((PackedArray.and_bit_ne_zero mask i).mpr set), if_pos set]
    · rw [if_pos ((PackedArray.and_bit_eq_zero mask i).mpr (by simpa using set)), if_neg set]
  · intro y x z
    rw [written, inv.values]
    rcases Nat.lt_trichotomy (nodeIndex x y z) i with before | here | after
    · simp [before, Nat.lt_succ_of_lt before, Nat.ne_of_lt before]
    · simp [here]
    · simp [show ¬ nodeIndex x y z < i by omega, show ¬ nodeIndex x y z < i + 1 by omega,
        show ¬ nodeIndex x y z = i by omega]

/-- `expand` writes at every position the value `load` returns there, whatever
the view held before. -/
theorem expand_apply (storage : CompressedChunkStorage w) (view : Expanded w)
    (y x z : Fin 32) : storage.expand view y x z = storage.load x y z := by
  obtain ⟨word, nodes⟩ := storage
  cases nodes with
  | none =>
    have inside : CubeArray.Inside ⟨0, 0, 0⟩ chunkSizeBlocks x y z := by
      simp only [CubeArray.Inside, Nat.zero_le, Nat.zero_add, true_and]
      exact ⟨x.isLt, y.isLt, z.isLt⟩
    simp only [expand, load, CubeArray.fill, if_pos inside]
  | some nodes =>
    have final := CountedLoop.run_invariant 64
      ({ view := view } : ExpandState w) (expandStep word nodes) (ExpandInv word nodes view)
      ⟨rfl, fun y x z => by simp⟩
      (fun i state hi inv => expandStep_inv word nodes view hi inv)
    have value := final.values y x z
    rwa [if_pos (nodeIndex_lt x.isLt y.isLt z.isLt)] at value

end CompressedChunkStorage

end Voxen.Land
