import Voxen.Land.CompressedChunkLoad

/-!
# Compressing a chunk array and reading it back

Every node is encoded so that it decodes to the array's own values.  The whole
chunk is then classified by the three kinds of nodes met so far; the flag that
should remember the first uniform node is only set by zero nodes.
-/

namespace Voxen.Land

open PackedArray (popcount rank bit)

theorem unionValue_setUnionValue {w : Nat} (hw : w ≤ 64) (word : BitVec 64) (value : BitVec w) :
    unionValue w (setUnionValue word value) = value := by
  apply BitVec.eq_of_getLsbD_eq
  intro i hi
  simp only [unionValue, setUnionValue, BitVec.getLsbD_setWidth, BitVec.getLsbD_or,
    BitVec.getLsbD_shiftLeft, BitVec.getLsbD_ushiftRight]
  simp [hi, show i < 64 by omega]

theorem Leaf.uniform_iff {w : Nat} (leaf : Leaf w) :
    leaf.uniform = true ↔ ∀ j, leaf j = leaf 0 := by
  simp [Leaf.uniform]

/-! ## Leaf storage of one node -/

section LeafStorage

variable {w : Nat} (leaves : List (Leaf w))

theorem leafAt_set {index : Nat} (bound : index < leaves.length) (leaf : Leaf w) (other : Nat) :
    leafAt (leaves.set index leaf) other = if other = index then leaf else leafAt leaves other := by
  unfold leafAt
  by_cases same : other = index
  · subst same
    simp [List.getD, bound]
  · simp [List.getD, same, List.getElem?_set_ne (Ne.symm same)]

theorem length_storePackedValue (base offset : Nat) (value : BitVec w) :
    (storePackedValue leaves base offset value).length = leaves.length := by
  simp [storePackedValue]

theorem leafAt_storePackedValue {base offset : Nat}
    (bound : base + offset / 8 < leaves.length) (value : BitVec w) (other : Nat) :
    leafAt (storePackedValue leaves base offset value) other =
      if other = base + offset / 8 then
        Function.update (leafAt leaves other) (Fin.ofNat 8 offset) value
      else leafAt leaves other := by
  unfold leafAt storePackedValue
  by_cases same : other = base + offset / 8
  · subst same
    simp [List.getD, List.getElem?_modify_eq, List.getElem?_eq_getElem bound]
  · simp [List.getD, same, Ne.symm same]

theorem packedValueAt_storePackedValue {base offset : Nat}
    (bound : base + offset / 8 < leaves.length) (value : BitVec w) (other : Nat) :
    packedValueAt (storePackedValue leaves base offset value) base other =
      if other = offset then value else packedValueAt leaves base other := by
  unfold packedValueAt
  rw [leafAt_storePackedValue leaves bound]
  by_cases same : other = offset
  · subst same
    simp
  · rw [if_neg same]
    by_cases sameLeaf : base + other / 8 = base + offset / 8
    · have distinct : Fin.ofNat 8 other ≠ Fin.ofNat 8 offset := by
        intro heq
        have := congrArg Fin.val heq
        simp only [Fin.val_ofNat] at this
        omega
      rw [if_pos sameLeaf, Function.update_of_ne distinct]
    · rw [if_neg sameLeaf]

end LeafStorage

namespace CompressedChunkStorage

variable {w : Nat}

theorem rank_add_rank_not (mask : BitVec 64) {j : Nat} (hj : j ≤ 64) :
    rank mask j + rank (~~~mask) j = j := by
  induction j with
  | zero => rfl
  | succ j ih =>
    have prior := ih (Nat.le_of_succ_le hj)
    rw [rank_succ_eq, rank_not_succ mask hj]
    split <;> omega

/-! ## First loop of `construct_node` -/

section Gather

variable (expanded : Expanded w) (base : UVec3)

/-- All values of leaf `j` of the node equal `value`. -/
def LeafHolds (j : Nat) (value : BitVec w) : Prop :=
  ∀ element, gatherLeaf expanded base j element = value

/-- All values of the node equal `value`. -/
def NodeHolds (value : BitVec w) : Prop :=
  ∀ j, j < 64 → LeafHolds expanded base j value

/-- What the first loop knows before leaf `i`. -/
structure GatherInv (i : Nat) (state : GatherState w) : Prop where
  mask : ∀ j, state.nonuniformLeafMask.getLsbD j =
    (decide (j < i) && !(gatherLeaf expanded base j).uniform)
  met : state.metUniformLeaf = true ↔ ∃ j, j < i ∧ (gatherLeaf expanded base j).uniform = true
  first : state.metUniformLeaf = true →
    ∃ j, j < i ∧ LeafHolds expanded base j state.nodeUniformValue
  whole : state.wholeNodeUniform = true ↔
    ∃ value, ∀ j, j < i → LeafHolds expanded base j value

theorem leafHolds_of_uniform {j : Nat} (uniform : (gatherLeaf expanded base j).uniform = true) :
    LeafHolds expanded base j (gatherLeaf expanded base j 0) :=
  fun element => (Leaf.uniform_iff _).mp uniform element

theorem LeafHolds.uniform {j : Nat} {value : BitVec w}
    (holds : LeafHolds expanded base j value) :
    (gatherLeaf expanded base j).uniform = true :=
  (Leaf.uniform_iff _).mpr fun element => (holds element).trans (holds 0).symm

theorem LeafHolds.unique {j : Nat} {first second : BitVec w}
    (left : LeafHolds expanded base j first) (right : LeafHolds expanded base j second) :
    first = second :=
  (left 0).symm.trans (right 0)

theorem exists_lt_succ_iff {P : Nat → Prop} (i : Nat) :
    (∃ j, j < i + 1 ∧ P j) ↔ (∃ j, j < i ∧ P j) ∨ P i := by
  constructor
  · rintro ⟨j, hj, holds⟩
    rcases Nat.lt_succ_iff_lt_or_eq.mp hj with before | rfl
    · exact Or.inl ⟨j, before, holds⟩
    · exact Or.inr holds
  · rintro (⟨j, hj, holds⟩ | holds)
    · exact ⟨j, Nat.lt_succ_of_lt hj, holds⟩
    · exact ⟨i, Nat.lt_succ_self i, holds⟩

theorem gatherStep_inv {i : Nat} (hi : i < 64) {state : GatherState w}
    (inv : GatherInv expanded base i state) :
    GatherInv expanded base (i + 1) (gatherStep expanded base state i) := by
  have below : ∀ j, decide (j < i + 1) = (decide (j < i) || decide (i = j)) := by
    intro j
    rw [Bool.eq_iff_iff]
    simp only [decide_eq_true_eq, Bool.or_eq_true]
    omega
  have shorter : (∃ value, ∀ j, j < i + 1 → LeafHolds expanded base j value) →
      ∃ value, ∀ j, j < i → LeafHolds expanded base j value :=
    fun ⟨value, all⟩ => ⟨value, fun j hj => all j (Nat.lt_succ_of_lt hj)⟩
  by_cases uniform : (gatherLeaf expanded base i).uniform = true
  · have holds := leafHolds_of_uniform expanded base uniform
    have mask : ∀ j, state.nonuniformLeafMask.getLsbD j =
        (decide (j < i + 1) && !(gatherLeaf expanded base j).uniform) := by
      intro j
      rw [inv.mask, below]
      by_cases same : i = j
      · subst same
        simp [uniform]
      · simp [same]
    by_cases met : state.metUniformLeaf = true
    · obtain ⟨k, hk, first⟩ := inv.first met
      have metNext : state.metUniformLeaf = true ↔
          ∃ j, j < i + 1 ∧ (gatherLeaf expanded base j).uniform = true := by
        rw [exists_lt_succ_iff]
        exact ⟨fun _ => Or.inr uniform, fun _ => met⟩
      have firstNext : state.metUniformLeaf = true →
          ∃ j, j < i + 1 ∧ LeafHolds expanded base j state.nodeUniformValue :=
        fun _ => ⟨k, Nat.lt_succ_of_lt hk, first⟩
      by_cases agree : state.nodeUniformValue = gatherLeaf expanded base i 0
      · have step : gatherStep expanded base state i = state := by
          simp [gatherStep, uniform, met, agree]
        rw [step]
        refine ⟨mask, metNext, firstNext, ?_⟩
        rw [inv.whole]
        refine ⟨?_, shorter⟩
        rintro ⟨value, all⟩
        have same := LeafHolds.unique expanded base (all k hk) first
        refine ⟨value, fun j hj => ?_⟩
        rcases Nat.lt_succ_iff_lt_or_eq.mp hj with before | rfl
        · exact all j before
        · rw [same, agree]
          exact holds
      · have step : gatherStep expanded base state i =
            { state with wholeNodeUniform := false } := by
          simp [gatherStep, uniform, met, agree]
        rw [step]
        refine ⟨mask, metNext, firstNext, ?_⟩
        simp only [Bool.false_eq_true, false_iff]
        rintro ⟨value, all⟩
        have left := LeafHolds.unique expanded base (all k (Nat.lt_succ_of_lt hk)) first
        have right := LeafHolds.unique expanded base (all i (Nat.lt_succ_self i)) holds
        exact agree (left.symm.trans right)
    · -- the first uniform leaf sets the value
      have step : gatherStep expanded base state i =
          { state with
            nodeUniformValue := gatherLeaf expanded base i 0, metUniformLeaf := true } := by
        simp [gatherStep, uniform, met]
      rw [step]
      refine ⟨mask, ?_, fun _ => ⟨i, Nat.lt_succ_self i, holds⟩, ?_⟩
      · rw [exists_lt_succ_iff]
        exact ⟨fun _ => Or.inr uniform, fun _ => rfl⟩
      · rw [inv.whole]
        refine ⟨?_, shorter⟩
        rintro ⟨value, all⟩
        -- an earlier leaf with that value would already have been met
        have start : i = 0 := by
          by_contra later
          have early := all 0 (Nat.pos_of_ne_zero later)
          exact met (inv.met.mpr
            ⟨0, Nat.pos_of_ne_zero later, LeafHolds.uniform expanded base early⟩)
        refine ⟨gatherLeaf expanded base i 0, fun j hj => ?_⟩
        obtain rfl : j = i := by omega
        exact holds
  · have step : gatherStep expanded base state i =
        { state with
          nonuniformLeafMask := state.nonuniformLeafMask ||| bit 64 i
          wholeNodeUniform := false } := by
      simp [gatherStep, uniform]
    rw [step]
    refine ⟨?_, ?_, ?_, ?_⟩
    · intro j
      rw [PackedArray.getLsbD_or_bit _ hi, inv.mask, below]
      by_cases same : i = j
      · subst same
        simp [uniform]
      · simp [same]
    · rw [exists_lt_succ_iff, inv.met]
      simp [uniform]
    · intro met
      obtain ⟨k, hk, first⟩ := inv.first met
      exact ⟨k, Nat.lt_succ_of_lt hk, first⟩
    · simp only [Bool.false_eq_true, false_iff]
      rintro ⟨value, all⟩
      exact uniform (LeafHolds.uniform expanded base (all i (Nat.lt_succ_self i)))

/-- State of `construct_node` after all leaves were gathered. -/
def gathered : GatherState w := CountedLoop.run 64 {} (gatherStep expanded base)

theorem gathered_inv : GatherInv expanded base 64 (gathered expanded base) := by
  apply CountedLoop.run_invariant 64 _ _ (GatherInv expanded base)
  · exact ⟨by simp, by simp, by simp, by simp⟩
  · exact fun i state hi inv => gatherStep_inv expanded base hi inv

theorem gathered_whole_iff :
    (gathered expanded base).wholeNodeUniform = true ↔
      NodeHolds expanded base (gathered expanded base).nodeUniformValue := by
  have inv := gathered_inv expanded base
  rw [inv.whole]
  constructor
  · rintro ⟨value, all⟩
    have met := inv.met.mpr
      ⟨0, by decide, LeafHolds.uniform expanded base (all 0 (by decide))⟩
    obtain ⟨k, hk, first⟩ := inv.first met
    rw [← LeafHolds.unique expanded base (all k hk) first]
    exact all
  · exact fun all => ⟨_, all⟩

theorem gathered_mixed (mixed : ¬ (gathered expanded base).wholeNodeUniform = true)
    (value : BitVec w) : ¬ NodeHolds expanded base value :=
  fun all => mixed ((gathered_inv expanded base).whole.mpr ⟨value, all⟩)

end Gather

/-! ## Second loop of `construct_node` -/

section Pack

variable (expanded : Expanded w) (base : UVec3) (mask : BitVec 64)

/-- Size of the leaf allocation of a node with this mask. -/
def allocatedLeaves : Nat := popcount mask + (64 - popcount mask + 7) / 8

theorem packed_bound {j : Nat} (hj : j < 64) (clear : mask.getLsbD j = false) :
    popcount mask + rank (~~~mask) j / 8 < allocatedLeaves mask := by
  have set : (~~~mask).getLsbD j = true := by
    rw [BitVec.getLsbD_not, clear]
    simp [hj]
  have lower := PackedArray.rank_lt_rank set hj
  have total := rank_add_rank_not mask (Nat.le_refl 64)
  have count := PackedArray.popcount_eq_rank mask
  unfold allocatedLeaves
  omega

/-- What the second loop has stored before leaf `i`. -/
structure PackInv (i : Nat) (state : PackState w) : Prop where
  length : state.leaves.length = allocatedLeaves mask
  nonuniform : state.outputNonuniform = rank mask i
  uniform : state.outputUniform = rank (~~~mask) i
  mixed : ∀ j, j < i → mask.getLsbD j = true →
    leafAt state.leaves (rank mask j) = gatherLeaf expanded base j
  packed : ∀ j, j < i → mask.getLsbD j = false →
    packedValueAt state.leaves (popcount mask) (rank (~~~mask) j) = gatherLeaf expanded base j 0

theorem packStep_inv {i : Nat} (hi : i < 64) {state : PackState w}
    (inv : PackInv expanded base mask i state) :
    PackInv expanded base mask (i + 1) (packStep expanded base mask state i) := by
  by_cases set : mask.getLsbD i = true
  · have step : packStep expanded base mask state i =
        { state with
          leaves := state.leaves.set (rank mask i) (gatherLeaf expanded base i)
          outputNonuniform := state.outputNonuniform + 1 } := by
      unfold packStep
      rw [if_pos ((PackedArray.and_bit_ne_zero mask i).mpr set), inv.nonuniform]
    have lower := PackedArray.rank_lt_popcount set
    have bound : rank mask i < state.leaves.length := by
      rw [inv.length]
      unfold allocatedLeaves
      omega
    rw [step]
    refine ⟨?_, ?_, ?_, ?_, ?_⟩
    · rw [List.length_set]
      exact inv.length
    · rw [rank_succ_eq, if_pos set, inv.nonuniform]
    · rw [rank_not_succ mask hi, if_pos set, inv.uniform]
    · intro j hj occupied
      rw [leafAt_set _ bound]
      rcases Nat.lt_succ_iff_lt_or_eq.mp hj with before | rfl
      · have distinct := Nat.ne_of_lt (PackedArray.rank_lt_rank occupied before)
        rw [if_neg distinct]
        exact inv.mixed j before occupied
      · rw [if_pos rfl]
    · intro j hj clear
      rcases Nat.lt_succ_iff_lt_or_eq.mp hj with before | rfl
      · rw [← inv.packed j before clear]
        unfold packedValueAt
        rw [leafAt_set _ bound, if_neg (by omega)]
      · rw [set] at clear
        cases clear
  · have clear : mask.getLsbD i = false := by simpa using set
    have step : packStep expanded base mask state i =
        { state with
          leaves := storePackedValue state.leaves (popcount mask) (rank (~~~mask) i)
            (gatherLeaf expanded base i 0)
          outputUniform := state.outputUniform + 1 } := by
      unfold packStep
      rw [if_neg (fun nonzero => set ((PackedArray.and_bit_ne_zero mask i).mp nonzero)),
        inv.uniform]
    have bound : popcount mask + rank (~~~mask) i / 8 < state.leaves.length := by
      rw [inv.length]
      exact packed_bound mask hi clear
    rw [step]
    refine ⟨?_, ?_, ?_, ?_, ?_⟩
    · rw [length_storePackedValue]
      exact inv.length
    · rw [rank_succ_eq, if_neg set, inv.nonuniform]
    · rw [rank_not_succ mask hi, if_neg set, inv.uniform]
    · intro j hj occupied
      rcases Nat.lt_succ_iff_lt_or_eq.mp hj with before | rfl
      · have lower := PackedArray.rank_lt_popcount occupied
        rw [leafAt_storePackedValue _ bound, if_neg (by omega)]
        exact inv.mixed j before occupied
      · exact absurd occupied set
    · intro j hj free
      rw [packedValueAt_storePackedValue _ bound]
      rcases Nat.lt_succ_iff_lt_or_eq.mp hj with before | rfl
      · have occupied : (~~~mask).getLsbD j = true := by
          rw [BitVec.getLsbD_not, free]
          simp [show j < 64 by omega]
        rw [if_neg (Nat.ne_of_lt (PackedArray.rank_lt_rank occupied before))]
        exact inv.packed j before free
      · rw [if_pos rfl]

/-- Leaf storage of `construct_node` after the second loop. -/
def packed : PackState w :=
  CountedLoop.run 64 { leaves := List.replicate (allocatedLeaves mask) fun _ => 0 }
    (packStep expanded base mask)

theorem packed_inv : PackInv expanded base mask 64 (packed expanded base mask) := by
  apply CountedLoop.run_invariant 64 _ _ (PackInv expanded base mask)
  · refine ⟨List.length_replicate, rfl, rfl, ?_, ?_⟩ <;>
      exact fun j hj => absurd hj (Nat.not_lt_zero j)
  · exact fun i state hi inv => packStep_inv expanded base mask hi inv

end Pack

/-! ## Nodes -/

/-- Element `element` of leaf `leaf` of node `index` of an array. -/
def nodeValue (expanded : Expanded w) (index leaf element : Nat) : BitVec w :=
  gatherLeaf expanded (nodeBaseOffset index) leaf (Fin.ofNat 8 element)

theorem nodeValue_apply (expanded : Expanded w) (y x z : Fin 32) :
    nodeValue expanded (nodeIndex x y z) (leafIndex x y z) (elementIndex x y z) =
      expanded y x z := by
  obtain ⟨hx, hy, hz⟩ := leafBase_offset x.isLt y.isLt z.isLt
  generalize hbase : leafBaseOffset (nodeBaseOffset (nodeIndex x y z)) (leafIndex x y z) = base
    at hx hy hz
  have element : elementIndex x y z % 8 = elementIndex x y z :=
    Nat.mod_eq_of_lt (elementIndex_lt _ _ _)
  have ex : elementIndex x y z / 2 % 2 = x.val % 2 := by unfold elementIndex; omega
  have ey : elementIndex x y z / 4 = y.val % 2 := by unfold elementIndex; omega
  have ez : elementIndex x y z % 2 = z.val % 2 := by unfold elementIndex; omega
  simp only [nodeValue, gatherLeaf, hbase, Leaf.ofCube, CubeArray.extractTo, Fin.val_ofNat,
    element, ex, ey, ez, CubeArray.load, Nat.mod_mod]
  rw [← hx, ← hy, ← hz]
  exact CubeArray.load_val expanded y x z

/-- The whole node `index` of an array has the value `value`. -/
def Uniform (expanded : Expanded w) (index : Nat) (value : BitVec w) : Prop :=
  NodeHolds expanded (nodeBaseOffset index) value

variable {index leaf : Nat}

theorem Uniform.nodeValue_eq {expanded : Expanded w} {value : BitVec w}
    (uniform : Uniform expanded index value) (hleaf : leaf < 64) (element : Nat) :
    nodeValue expanded index leaf element = value :=
  uniform leaf hleaf _

theorem Uniform.unique {expanded : Expanded w} {first second : BitVec w}
    (left : Uniform expanded index first) (right : Uniform expanded index second) :
    first = second :=
  LeafHolds.unique _ _ (left 0 (by decide)) (right 0 (by decide))

/-- What `construct_node` may return for a node. -/
inductive NodeEncoding (expanded : Expanded w) (index : Nat) : Option (Node w) → Prop where
  | zero (uniform : Uniform expanded index 0) : NodeEncoding expanded index none
  | uniform {node : Node w} (flat : node.uniform = true) (nonzero : node.uniformValue ≠ 0)
      (uniform : Uniform expanded index node.uniformValue) :
      NodeEncoding expanded index (some node)
  | mixed {node : Node w} (packed : node.uniform = false)
      (mixed : ∀ value, ¬ Uniform expanded index value)
      (decodes : ∀ leaf element, leaf < 64 →
        loadNode node leaf element = nodeValue expanded index leaf element) :
      NodeEncoding expanded index (some node)

theorem constructNode_eq (expanded : Expanded w) (index : Nat) :
    constructNode expanded index {} =
      let base := nodeBaseOffset index
      let state := gathered expanded base
      if state.wholeNodeUniform && state.nodeUniformValue == 0 then none
      else if state.wholeNodeUniform then
        some { word := setUnionValue 0 state.nodeUniformValue, leaves := none }
      else
        some { word := state.nonuniformLeafMask
               leaves := some (packed expanded base state.nonuniformLeafMask).leaves } := rfl

/-- The mask and leaves stored for a mixed node decode to the node's own values. -/
theorem packed_decodes (expanded : Expanded w) (index : Nat) (hleaf : leaf < 64) (element : Nat) :
    let base := nodeBaseOffset index
    let mask := (gathered expanded base).nonuniformLeafMask
    loadNode { word := mask, leaves := some (packed expanded base mask).leaves } leaf element =
      nodeValue expanded index leaf element := by
  intro base mask
  have inv := packed_inv expanded base mask
  have maskBit := (gathered_inv expanded base).mask leaf
  rw [loadNode_some _ _ hleaf]
  by_cases set : mask.getLsbD leaf = true
  · rw [if_pos set, inv.mixed leaf hleaf set]
    rfl
  · have clear : mask.getLsbD leaf = false := by simpa using set
    rw [if_neg set, inv.packed leaf hleaf clear]
    -- a leaf outside the mask is uniform
    have flat : (gatherLeaf expanded base leaf).uniform = true := by
      rw [show (gathered expanded base).nonuniformLeafMask = mask from rfl, clear] at maskBit
      simpa [hleaf] using maskBit.symm
    exact ((Leaf.uniform_iff _).mp flat _).symm

theorem constructNode_encoding (hw : w ≤ 64) (expanded : Expanded w) (index : Nat) :
    NodeEncoding expanded index (constructNode expanded index {}) := by
  have whole := gathered_whole_iff expanded (nodeBaseOffset index)
  rw [constructNode_eq]
  dsimp only
  by_cases flag : (gathered expanded (nodeBaseOffset index)).wholeNodeUniform = true
  · have holds := whole.mp flag
    by_cases zero : (gathered expanded (nodeBaseOffset index)).nodeUniformValue = 0
    · rw [if_pos (by simp [flag, zero])]
      rw [zero] at holds
      exact NodeEncoding.zero holds
    · rw [if_neg (by simpa [flag] using zero), if_pos flag]
      have value := unionValue_setUnionValue hw 0
        (gathered expanded (nodeBaseOffset index)).nodeUniformValue
      refine NodeEncoding.uniform rfl ?_ ?_ <;> unfold Node.uniformValue <;> rw [value]
      · exact zero
      · exact holds
  · rw [if_neg (by simp [flag]), if_neg flag]
    exact NodeEncoding.mixed rfl (gathered_mixed expanded _ flag)
      fun leaf element hleaf => packed_decodes expanded index hleaf element

theorem gatherLeaf_position (expanded : Expanded w) (hindex : index < 64) (hleaf : leaf < 64)
    (element : Fin 8) :
    ∃ y x z : Fin 32, nodeIndex x y z = index ∧
      gatherLeaf expanded (nodeBaseOffset index) leaf element = expanded y x z := by
  have place := leafBaseOffset_eq (nodeBaseOffset index) hleaf
  have corner := nodeBaseOffset_eq hindex
  generalize hbase : nodeBaseOffset index = base at place corner
  have xBound : (leafBaseOffset base leaf).x + element.val / 2 % 2 < base.x + 8 := by
    rw [place]
    dsimp only
    omega
  have yBound : (leafBaseOffset base leaf).y + element.val / 4 < base.y + 8 := by
    rw [place]
    dsimp only
    omega
  have zBound : (leafBaseOffset base leaf).z + element.val % 2 < base.z + 8 := by
    rw [place]
    dsimp only
    omega
  have low : base.x ≤ (leafBaseOffset base leaf).x ∧ base.y ≤ (leafBaseOffset base leaf).y ∧
      base.z ≤ (leafBaseOffset base leaf).z := by
    rw [place]
    exact ⟨Nat.le_add_right _ _, Nat.le_add_right _ _, Nat.le_add_right _ _⟩
  have fits : base.x + 8 ≤ 32 ∧ base.y + 8 ≤ 32 ∧ base.z + 8 ≤ 32 := by
    rw [corner]
    dsimp only
    omega
  generalize hleafBase : leafBaseOffset base leaf = leafBase at xBound yBound zBound low
  refine ⟨⟨leafBase.y + element.val / 4, by omega⟩, ⟨leafBase.x + element.val / 2 % 2, by omega⟩,
    ⟨leafBase.z + element.val % 2, by omega⟩, ?_, ?_⟩
  · refine (inside_node_iff (by dsimp only; omega) (by dsimp only; omega) hindex).mp ?_
    rw [hbase]
    unfold CubeArray.Inside
    dsimp only
    omega
  · have ey : element.val / 4 % 2 = element.val / 4 := Nat.mod_eq_of_lt (by omega)
    simp only [gatherLeaf, hleafBase, Leaf.ofCube, CubeArray.load, CubeArray.extractTo,
      Fin.val_ofNat, Nat.mod_mod, ey]
    have fin : ∀ {n : Nat} (hn : n < 32), Fin.ofNat chunkSizeBlocks n = ⟨n, hn⟩ :=
      fun hn => Fin.ext (Nat.mod_eq_of_lt hn)
    rw [fin (by omega), fin (by omega), fin (by omega)]

/-- A node is uniform exactly when all its positions in the array agree. -/
theorem uniform_iff_positions (expanded : Expanded w) (hindex : index < 64) (value : BitVec w) :
    Uniform expanded index value ↔
      ∀ y x z : Fin 32, nodeIndex x y z = index → expanded y x z = value := by
  constructor
  · intro uniform y x z node
    rw [← nodeValue_apply expanded y x z, node]
    exact uniform.nodeValue_eq (leafIndex_lt x y z) _
  · intro all leaf hleaf element
    obtain ⟨y, x, z, node, value⟩ := gatherLeaf_position expanded hindex hleaf element
    rw [value]
    exact all y x z node

/-- All values of an array are equal. -/
def AllEqual (expanded : Expanded w) : Prop :=
  ∀ y x z y' x' z', expanded y x z = expanded y' x' z'

theorem allEqual_iff (expanded : Expanded w) :
    AllEqual expanded ↔ ∃ value, ∀ index, index < 64 → Uniform expanded index value := by
  constructor
  · intro equal
    refine ⟨expanded 0 0 0, fun index hindex => ?_⟩
    exact (uniform_iff_positions expanded hindex _).mpr fun y x z _ => equal y x z 0 0 0
  · rintro ⟨value, all⟩ y x z y' x' z'
    have at_value : ∀ y x z : Fin 32, expanded y x z = value := fun y x z =>
      (uniform_iff_positions expanded (nodeIndex_lt x.isLt y.isLt z.isLt) value).mp
        (all _ (nodeIndex_lt x.isLt y.isLt z.isLt)) y x z rfl
    rw [at_value, at_value]

/-! ## The whole chunk -/

section Chunk

variable (expanded : Expanded w)

/-- The first `i` nodes are all zero, or all uniform and non-zero. -/
def OneKind (i : Nat) : Prop :=
  (∀ j, j < i → Uniform expanded j 0) ∨ (∀ j, j < i → ∃ value, value ≠ 0 ∧ Uniform expanded j value)

/-- What the constructor knows before node `i`. -/
structure CompressInv (i : Nat) (state : CompressState w) : Prop where
  mask : ∀ j, state.nonzeroNodeMask.getLsbD j = true ↔ j < i ∧ ¬ Uniform expanded j 0
  length : state.nodes.length = rank state.nonzeroNodeMask i
  stored : ∀ j, j < i → ¬ Uniform expanded j 0 →
    state.nodes[rank state.nonzeroNodeMask j]? = constructNode expanded j {}
  met : state.metUniformNode = true ↔ ∃ j, j < i ∧ Uniform expanded j 0
  whole : state.wholeChunkUniform = true ↔ OneKind expanded i
  initial : i = 0 → state.chunkUniformValue = 0
  last : state.wholeChunkUniform = true → ∀ j, i = j + 1 →
    Uniform expanded j state.chunkUniformValue

variable {i : Nat} {state : CompressState w} {node : Node w}

theorem OneKind.shorter (kind : OneKind expanded (i + 1)) : OneKind expanded i :=
  kind.imp (fun all j hj => all j (Nat.lt_succ_of_lt hj))
    (fun all j hj => all j (Nat.lt_succ_of_lt hj))

/-- Nodes of one kind stay of that kind when another node of it follows. -/
theorem OneKind.extend {value : BitVec w} (kind : OneKind expanded i)
    (uniform : Uniform expanded i value) (same : ∀ j, j < i → (Uniform expanded j 0 ↔ value = 0)) :
    OneKind expanded (i + 1) := by
  by_cases zero : value = 0
  · refine Or.inl fun j hj => ?_
    rcases Nat.lt_succ_iff_lt_or_eq.mp hj with before | rfl
    · exact (same j before).mpr zero
    · exact zero ▸ uniform
  · refine Or.inr fun j hj => ?_
    rcases Nat.lt_succ_iff_lt_or_eq.mp hj with before | rfl
    · rcases kind with all | all
      · exact absurd ((same j before).mp (all j before)) zero
      · exact all j before
    · exact ⟨value, zero, uniform⟩

/-- While one kind was met, the remembered value tells which kind it is. -/
theorem CompressInv.zero_iff (inv : CompressInv expanded i state)
    (whole : state.wholeChunkUniform = true) {j : Nat} (hj : j < i) :
    Uniform expanded j 0 ↔ state.chunkUniformValue = 0 := by
  obtain ⟨k, rfl⟩ : ∃ k, i = k + 1 := ⟨i - 1, by omega⟩
  have last := inv.last whole k rfl
  rcases inv.whole.mp whole with all | all
  · exact ⟨fun _ => (last.unique (all k (Nat.lt_succ_self k))), fun _ => all j hj⟩
  · constructor
    · intro zero
      obtain ⟨value, nonzero, uniform⟩ := all j hj
      exact absurd (uniform.unique zero) nonzero
    · intro zero
      obtain ⟨value, nonzero, uniform⟩ := all k (Nat.lt_succ_self k)
      exact absurd ((uniform.unique last).trans zero) nonzero

theorem CompressInv.push (hi : i < 64) (inv : CompressInv expanded i state)
    (constructed : constructNode expanded i {} = some node) (nonzero : ¬ Uniform expanded i 0) :
    (∀ j, (state.nonzeroNodeMask ||| bit 64 i).getLsbD j = true ↔
      j < i + 1 ∧ ¬ Uniform expanded j 0) ∧
    (state.nodes ++ [node]).length = rank (state.nonzeroNodeMask ||| bit 64 i) (i + 1) ∧
    ∀ j, j < i + 1 → ¬ Uniform expanded j 0 →
      (state.nodes ++ [node])[rank (state.nonzeroNodeMask ||| bit 64 i) j]? =
        constructNode expanded j {} := by
  have clear : state.nonzeroNodeMask.getLsbD i = false := by
    have := inv.mask i
    simpa [Nat.lt_irrefl] using this
  have ranks := PackedArray.rank_or_bit hi clear
  refine ⟨?_, ?_, ?_⟩
  · intro j
    rw [PackedArray.getLsbD_or_bit _ hi, Bool.or_eq_true, inv.mask, decide_eq_true_eq]
    constructor
    · rintro (⟨before, mixed⟩ | rfl)
      · exact ⟨Nat.lt_succ_of_lt before, mixed⟩
      · exact ⟨Nat.lt_succ_self i, nonzero⟩
    · rintro ⟨hj, mixed⟩
      rcases Nat.lt_succ_iff_lt_or_eq.mp hj with before | rfl
      · exact Or.inl ⟨before, mixed⟩
      · exact Or.inr rfl
  · rw [ranks, if_pos (Nat.lt_succ_self i), PackedArray.rank_succ, clear,
      List.length_append, inv.length]
    rfl
  · intro j hj mixed
    rw [ranks, if_neg (by omega)]
    rcases Nat.lt_succ_iff_lt_or_eq.mp hj with before | rfl
    · have set := (inv.mask j).mpr ⟨before, mixed⟩
      have bound : rank state.nonzeroNodeMask j < state.nodes.length := by
        rw [inv.length]
        exact PackedArray.rank_lt_rank set before
      rw [List.getElem?_append_left bound]
      exact inv.stored j before mixed
    · rw [← inv.length, constructed]
      simp

/-- A zero node is not stored; it breaks the chunk if the value so far is another one. -/
theorem CompressInv.zeroNode (inv : CompressInv expanded i state)
    (hnode : constructNode expanded i {} = none) (uniform : Uniform expanded i 0) :
    CompressInv expanded (i + 1) (compressStep expanded state i) := by
  have clear : ¬ state.nonzeroNodeMask.getLsbD i = true := by
    rw [inv.mask]
    exact fun set => Nat.lt_irrefl i set.1
  have step : compressStep expanded state i =
      { state with
        metUniformNode := true
        wholeChunkUniform :=
          if state.chunkUniformValue != 0 then false else state.wholeChunkUniform } := by
    unfold compressStep
    rw [hnode]
  rw [step]
  refine ⟨?_, ?_, ?_, ?_, ?_, ?_, ?_⟩
  · intro j
    rw [inv.mask]
    constructor
    · exact fun set => ⟨Nat.lt_succ_of_lt set.1, set.2⟩
    · rintro ⟨hj, nonzero⟩
      rcases Nat.lt_succ_iff_lt_or_eq.mp hj with before | rfl
      · exact ⟨before, nonzero⟩
      · exact absurd uniform nonzero
  · rw [rank_succ_eq, if_neg clear]
    exact inv.length
  · intro j hj nonzero
    rcases Nat.lt_succ_iff_lt_or_eq.mp hj with before | rfl
    · exact inv.stored j before nonzero
    · exact absurd uniform nonzero
  · rw [exists_lt_succ_iff]
    exact ⟨fun _ => Or.inr uniform, fun _ => rfl⟩
  · by_cases value : state.chunkUniformValue = 0
    · simp only [value, bne_self_eq_false, Bool.false_eq_true, if_false]
      constructor
      · intro whole
        exact (inv.whole.mp whole).extend expanded uniform fun j hj =>
          (inv.zero_iff expanded whole hj).trans ⟨fun _ => rfl, fun _ => value⟩
      · exact fun kind => inv.whole.mpr kind.shorter
    · simp only [bne_iff_ne, ne_eq, value, not_false_eq_true, if_true,
        Bool.false_eq_true, false_iff]
      intro kind
      have whole := inv.whole.mpr kind.shorter
      have later : i ≠ 0 := fun start => value (inv.initial start)
      have first := inv.zero_iff expanded whole (Nat.pos_of_ne_zero later)
      rcases kind with all | all
      · exact value (first.mp (all 0 (Nat.succ_pos i)))
      · obtain ⟨other, nonzero, here⟩ := all i (Nat.lt_succ_self i)
        exact nonzero (here.unique uniform)
  · exact fun absurdity => absurd absurdity (Nat.succ_ne_zero i)
  · intro whole j hj
    obtain rfl : i = j := Nat.succ.inj hj
    by_cases value : state.chunkUniformValue = 0
    · rw [value]
      exact uniform
    · have both : state.chunkUniformValue = 0 ∧ state.wholeChunkUniform = true := by
        simpa using whole
      exact absurd both.1 value

theorem CompressInv.uniformNode (hi : i < 64) (inv : CompressInv expanded i state)
    (hnode : constructNode expanded i {} = some node) (flat : node.uniform = true)
    (nonzero : node.uniformValue ≠ 0) (uniform : Uniform expanded i node.uniformValue) :
    CompressInv expanded (i + 1) (compressStep expanded state i) := by
  have nonzeroNode : ¬ Uniform expanded i 0 := fun zero => nonzero (uniform.unique zero)
  obtain ⟨mask, length, stored⟩ := inv.push expanded hi hnode nonzeroNode
  have met : state.metUniformNode = true ↔ ∃ j, j < i + 1 ∧ Uniform expanded j 0 := by
    rw [exists_lt_succ_iff, inv.met]
    exact ⟨Or.inl, fun some => some.resolve_right nonzeroNode⟩
  by_cases metZero : state.metUniformNode = true
  · obtain ⟨k, hk, zero⟩ := inv.met.mp metZero
    have twoKinds : ¬ OneKind expanded (i + 1) := by
      rintro (all | all)
      · exact nonzeroNode (all i (Nat.lt_succ_self i))
      · obtain ⟨value, other, here⟩ := all k (Nat.lt_succ_of_lt hk)
        exact other (here.unique zero)
    have broken : state.chunkUniformValue = node.uniformValue →
        ¬ state.wholeChunkUniform = true := by
      intro agree whole
      exact nonzero (agree ▸ (inv.zero_iff expanded whole hk).mp zero)
    by_cases agree : state.chunkUniformValue = node.uniformValue
    · have step : compressStep expanded state i =
          { state with
            nonzeroNodeMask := state.nonzeroNodeMask ||| bit 64 i
            nodes := state.nodes ++ [node] } := by
        unfold compressStep
        rw [hnode]
        simp [flat, metZero, agree]
      rw [step]
      exact ⟨mask, length, stored, met,
        ⟨fun whole => absurd whole (broken agree), fun kind => absurd kind twoKinds⟩,
        fun absurdity => absurd absurdity (Nat.succ_ne_zero i),
        fun whole => absurd whole (broken agree)⟩
    · have step : compressStep expanded state i =
          { state with
            wholeChunkUniform := false
            nonzeroNodeMask := state.nonzeroNodeMask ||| bit 64 i
            nodes := state.nodes ++ [node] } := by
        unfold compressStep
        rw [hnode]
        simp [flat, metZero, agree]
      rw [step]
      exact ⟨mask, length, stored, met,
        ⟨fun whole => by simp at whole, fun kind => absurd kind twoKinds⟩,
        fun absurdity => absurd absurdity (Nat.succ_ne_zero i),
        fun whole => by simp at whole⟩
  · -- no zero node yet: the value is overwritten by every uniform node
    have step : compressStep expanded state i =
        { state with
          chunkUniformValue := node.uniformValue
          nonzeroNodeMask := state.nonzeroNodeMask ||| bit 64 i
          nodes := state.nodes ++ [node] } := by
      unfold compressStep
      rw [hnode]
      simp [flat, metZero]
    rw [step]
    refine
      { mask, length, stored, met
        whole := ?_
        initial := fun absurdity => absurd absurdity (Nat.succ_ne_zero i)
        last := ?_ }
    · rw [inv.whole]
      refine ⟨fun kind => ?_, fun kind => kind.shorter⟩
      refine kind.extend expanded uniform fun j hj => ⟨fun zero => ?_, fun zero => ?_⟩
      · exact absurd (inv.met.mpr ⟨j, hj, zero⟩) metZero
      · exact absurd zero nonzero
    · intro _ j hj
      obtain rfl : i = j := Nat.succ.inj hj
      exact uniform

theorem CompressInv.mixedNode (hi : i < 64) (inv : CompressInv expanded i state)
    (hnode : constructNode expanded i {} = some node) (packed : node.uniform = false)
    (mixed : ∀ value, ¬ Uniform expanded i value) :
    CompressInv expanded (i + 1) (compressStep expanded state i) := by
  obtain ⟨mask, length, stored⟩ := inv.push expanded hi hnode (mixed 0)
  have step : compressStep expanded state i =
      { state with
        wholeChunkUniform := false
        nonzeroNodeMask := state.nonzeroNodeMask ||| bit 64 i
        nodes := state.nodes ++ [node] } := by
    unfold compressStep
    rw [hnode]
    simp [packed]
  rw [step]
  refine
    { mask, length, stored
      met := ?_
      whole := ?_
      initial := fun absurdity => absurd absurdity (Nat.succ_ne_zero i)
      last := fun whole => by simp at whole }
  · rw [exists_lt_succ_iff, inv.met]
    exact ⟨Or.inl, fun some => some.resolve_right (mixed 0)⟩
  · simp only [Bool.false_eq_true, false_iff]
    rintro (all | all)
    · exact mixed 0 (all i (Nat.lt_succ_self i))
    · obtain ⟨value, _, uniform⟩ := all i (Nat.lt_succ_self i)
      exact mixed value uniform

theorem compressStep_inv (hw : w ≤ 64) (hi : i < 64) (inv : CompressInv expanded i state) :
    CompressInv expanded (i + 1) (compressStep expanded state i) := by
  have encoding := constructNode_encoding hw expanded i
  generalize hnode : constructNode expanded i {} = constructed at encoding
  cases encoding with
  | zero uniform => exact inv.zeroNode expanded hnode uniform
  | @uniform node flat nonzero uniform =>
    exact inv.uniformNode expanded hi hnode flat nonzero uniform
  | @mixed node packed mixed decodes => exact inv.mixedNode expanded hi hnode packed mixed

/-- State of the constructor after all nodes were constructed. -/
def compressed : CompressState w := CountedLoop.run 64 {} (compressStep expanded)

theorem compressed_inv (hw : w ≤ 64) : CompressInv expanded 64 (compressed expanded) := by
  apply CountedLoop.run_invariant 64 _ _ (CompressInv expanded)
  · refine ⟨by simp, rfl, by simp, by simp, ?_, fun _ => rfl, by simp⟩
    exact ⟨fun _ => Or.inl fun j hj => absurd hj (Nat.not_lt_zero j), fun _ => rfl⟩
  · exact fun i state hi inv => compressStep_inv expanded hw hi inv

theorem compress_eq :
    compress expanded =
      if (compressed expanded).wholeChunkUniform then
        { word := setUnionValue (compressed expanded).nonzeroNodeMask
            (compressed expanded).chunkUniformValue
          nodes := none }
      else
        { word := (compressed expanded).nonzeroNodeMask
          nodes := some (compressed expanded).nodes } := rfl

/-- The chunk is stored as uniform exactly when its nodes are of one kind. -/
theorem compress_uniform_iff (hw : w ≤ 64) :
    (compress expanded).uniform = true ↔ OneKind expanded 64 := by
  rw [← (compressed_inv expanded hw).whole, compress_eq]
  by_cases whole : (compressed expanded).wholeChunkUniform = true <;> simp [whole, uniform]

theorem NodeEncoding.loadNode_eq {index : Nat} (encoding : NodeEncoding expanded index (some node))
    {leaf : Nat} (hleaf : leaf < 64) (element : Nat) :
    loadNode node leaf element = nodeValue expanded index leaf element := by
  cases encoding with
  | uniform flat nonzero uniform =>
    rw [uniform.nodeValue_eq hleaf]
    simp only [Node.uniform, Option.isNone_iff_eq_none] at flat
    simp only [loadNode, flat]
  | mixed packed mixed decodes => exact decodes leaf element hleaf

theorem compress_load_mixed (hw : w ≤ 64) (mixed : ¬ OneKind expanded 64) (y x z : Fin 32) :
    (compress expanded).load x y z = expanded y x z := by
  have inv := compressed_inv expanded hw
  have whole : ¬ (compressed expanded).wholeChunkUniform = true := mt inv.whole.mp mixed
  have hnode := nodeIndex_lt x.isLt y.isLt z.isLt
  rw [compress_eq, if_neg whole, load_some _ _ x.isLt y.isLt z.isLt,
    ← nodeValue_apply expanded y x z]
  by_cases zero : Uniform expanded (nodeIndex x y z) 0
  · rw [if_neg (fun set => ((inv.mask _).mp set).2 zero),
      zero.nodeValue_eq (leafIndex_lt x y z)]
  · rw [if_pos ((inv.mask _).mpr ⟨hnode, zero⟩)]
    have stored := inv.stored _ hnode zero
    have encoding := constructNode_encoding hw expanded (nodeIndex x y z)
    generalize constructNode expanded (nodeIndex x y z) {} = constructed at stored encoding
    cases constructed with
    | none =>
      cases encoding with
      | zero uniform => exact absurd uniform zero
    | some node =>
      rw [List.getD, stored]
      exact encoding.loadNode_eq expanded (leafIndex_lt x y z) _

theorem compress_load_uniform (hw : w ≤ 64) (kind : OneKind expanded 64) :
    ∃ value, Uniform expanded 63 value ∧
      ∀ x y z, (compress expanded).load x y z = value := by
  have inv := compressed_inv expanded hw
  have whole := inv.whole.mpr kind
  refine ⟨_, inv.last whole 63 rfl, fun x y z => ?_⟩
  rw [compress_eq, if_pos whole]
  exact unionValue_setUnionValue hw _ _

end Chunk

end CompressedChunkStorage

/-! ## When compression is lossless -/

namespace CompressedChunkStorage

/-- Expanding a compressed array gives the array back, and the storage reports
itself uniform exactly for arrays of equal values. -/
def LosesNothing (type : BlockType) (expanded : Expanded type.width) : Prop :=
  (∀ view, (compress expanded).expand view = expanded) ∧
    ((compress expanded).uniform = true ↔ AllEqual expanded)

/-- Every 8x8x8 node holds one non-zero value, but not the same one in all nodes. -/
def UnequalUniformNodes {w : Nat} (expanded : Expanded w) : Prop :=
  (∀ index, index < 64 → ∃ value, value ≠ 0 ∧
    ∀ y x z : Fin 32, nodeIndex x y z = index → expanded y x z = value) ∧
  ¬ AllEqual expanded

theorem unequalUniformNodes_oneKind {w : Nat} {expanded : Expanded w}
    (unequal : UnequalUniformNodes expanded) : OneKind expanded 64 := by
  refine Or.inr fun index hindex => ?_
  obtain ⟨value, nonzero, holds⟩ := unequal.1 index hindex
  exact ⟨value, nonzero, (uniform_iff_positions expanded hindex value).mpr holds⟩

/-- Apart from arrays of unequal uniform nodes, only arrays of equal values have
nodes of one kind. -/
theorem allEqual_of_oneKind {w : Nat} {expanded : Expanded w}
    (good : ¬ UnequalUniformNodes expanded) (kind : OneKind expanded 64) :
    AllEqual expanded := by
  rcases kind with all | all
  · exact (allEqual_iff expanded).mpr ⟨0, all⟩
  · by_contra unequal
    refine good ⟨fun index hindex => ?_, unequal⟩
    obtain ⟨value, nonzero, uniform⟩ := all index hindex
    exact ⟨value, nonzero, (uniform_iff_positions expanded hindex value).mp uniform⟩

theorem oneKind_of_allEqual {w : Nat} {expanded : Expanded w}
    (equal : AllEqual expanded) : OneKind expanded 64 := by
  obtain ⟨value, all⟩ := (allEqual_iff expanded).mp equal
  by_cases zero : value = 0
  · exact Or.inl fun j hj => zero ▸ all j hj
  · exact Or.inr fun j hj => ⟨value, zero, all j hj⟩

/-- Compression loses nothing exactly when the array is not made of uniform
non-zero nodes of several values. -/
theorem compress_losesNothing_iff (type : BlockType) (expanded : Expanded type.width) :
    LosesNothing type expanded ↔ ¬ UnequalUniformNodes expanded := by
  have hw := type.width_le
  constructor
  · intro lossless unequal
    have uniform := (compress_uniform_iff expanded hw).mpr (unequalUniformNodes_oneKind unequal)
    exact unequal.2 (lossless.2.mp uniform)
  · intro good
    refine ⟨fun view => ?_, ?_⟩
    · funext y x z
      rw [expand_apply]
      by_cases kind : OneKind expanded 64
      · obtain ⟨value, last, load⟩ := compress_load_uniform expanded hw kind
        have equal := allEqual_of_oneKind good kind
        rw [load, equal y x z 31 31 31]
        exact ((uniform_iff_positions expanded (by decide) value).mp last 31 31 31 rfl).symm
      · exact compress_load_mixed expanded hw kind y x z
    · rw [compress_uniform_iff expanded hw]
      exact ⟨allEqual_of_oneKind good, oneKind_of_allEqual⟩

/-- An array whose first node holds 5 and whose other nodes hold 7. -/
def fiveThenSeven : Expanded BlockType.uint16.width :=
  fun y x z => if nodeIndex x y z = 0 then 5 else 7

theorem fiveThenSeven_unequal : UnequalUniformNodes fiveThenSeven := by
  refine ⟨fun index _ => ?_, fun equal => ?_⟩
  · by_cases first : index = 0
    · exact ⟨5, by decide, fun y x z node => by simp [fiveThenSeven, node, first]⟩
    · exact ⟨7, by decide, fun y x z node => by simp [fiveThenSeven, node, first]⟩
  · have differ : fiveThenSeven 0 0 0 ≠ fiveThenSeven 31 31 31 := by decide
    exact differ (equal 0 0 0 31 31 31)

/-- The chunk of `fiveThenSeven` is stored as uniform, so its first node is lost. -/
theorem fiveThenSeven_loses : ¬ LosesNothing .uint16 fiveThenSeven := by
  intro lossless
  have kind := unequalUniformNodes_oneKind fiveThenSeven_unequal
  have uniform := (compress_uniform_iff fiveThenSeven (by decide)).mpr kind
  exact fiveThenSeven_unequal.2 (lossless.2.mp uniform)

end CompressedChunkStorage

end Voxen.Land
