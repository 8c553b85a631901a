import Voxen.Land.CompressedChunkLoad

/-!
# Compressed chunk storage of booleans

`CompressedChunkStorage<bool>` keeps two bits for each node and a 512-bit mask for
the nodes of both values.  The constructor packs a mask in YXZ order, while `load`
reads it leaf by leaf and `expand` runs past the end of the node, so only arrays
without mixed nodes are represented.
-/

namespace Voxen.Land

open PackedArray (popcount bit)

/-- A plain array of chunk booleans. -/
abbrev ExpandedBools := CubeArray Bool chunkSizeBlocks

/-- `*(cube.begin() + j)`; cubes are stored in YXZ order. -/
def CubeArray.element {T : Type} {N : Nat} [NeZero N] (cube : CubeArray T N) (j : Nat) : T :=
  cube.load (j / N % N) (j / (N * N)) (j % N)

/-- `view[uvec3(x, y, z)] = value`; there is no result for a position outside of the view. -/
def CubeArray.storeInside {T : Type} {N : Nat} (view : CubeArray T N) (x y z : Nat) (value : T) :
    Option (CubeArray T N) :=
  if x < N ∧ y < N ∧ z < N then some (view.store x y z value) else none

/-- `1u << amount`, which is undefined when the amount is not below the width. -/
def shiftedOne (amount : Nat) : Option (BitVec 32) :=
  if amount < 32 then some (bit 32 amount) else none

/-- `CompressedChunkStorage<bool>`. -/
structure CompressedBoolStorage where
  nonuniformNodeMask : BitVec 64 := 0
  uniformValueMask : BitVec 64 := 0
  /-- `m_nodes`, every node being the array `m_leaf_mask`. -/
  nodes : Option (List (Fin 64 → BitVec 8)) := none

namespace CompressedBoolStorage

/-- `CompressedChunkStorage<bool>::Node`, its array `m_leaf_mask`. -/
abbrev Node := Fin 64 → BitVec 8

/-- `node->m_leaf_mask[index]`; there is no result past the end of the array. -/
def Node.leafByte (node : Node) (index : Nat) : Option (BitVec 8) :=
  if inside : index < 64 then some (node ⟨index, inside⟩) else none

/-! ## Compression -/

/-- The node being packed and the flags of the values met in it. -/
structure PackState where
  leafMask : Node := fun _ => 0
  hasFalse : Bool := false
  hasTrue : Bool := false

/-- Body of the loop over the values of a node. -/
def packStep (bools : CubeArray Bool 8) (state : PackState) (j : Nat) : PackState :=
  if bools.element j then
    let byte := Fin.ofNat 64 (j / 8)
    { state with
      leafMask := Function.update state.leafMask byte (state.leafMask byte ||| bit 8 (j % 8))
      hasTrue := true }
  else { state with hasFalse := true }

/-- Pack node `i` of a plain array. -/
def packNode (expanded : ExpandedBools) (i : Nat) : PackState :=
  CountedLoop.run 512 {} (packStep (expanded.extractTo (nodeBaseOffset i) 8))

/-- Locals of the constructor after some of the nodes were packed. -/
structure CompressState where
  nonuniformNodeMask : BitVec 64 := 0
  uniformValueMask : BitVec 64 := 0
  /-- The used prefix of the local `nodes` array. -/
  nodes : List Node := []

def compressStep (expanded : ExpandedBools) (state : CompressState) (i : Nat) : CompressState :=
  let packed := packNode expanded i
  if packed.hasFalse && packed.hasTrue then
    { state with
      nonuniformNodeMask := state.nonuniformNodeMask ||| bit 64 i
      nodes := state.nodes ++ [packed.leafMask] }
  else if packed.hasTrue then
    { state with uniformValueMask := state.uniformValueMask ||| bit 64 i }
  else state

/-- Locals of the constructor after its loop. -/
def compressed (expanded : ExpandedBools) : CompressState :=
  CountedLoop.run 64 {} (compressStep expanded)

/-- `CompressedChunkStorage(ConstExpandedView expanded)`. -/
def compress (expanded : ExpandedBools) : CompressedBoolStorage :=
  let state := compressed expanded
  { nonuniformNodeMask := state.nonuniformNodeMask
    uniformValueMask := state.uniformValueMask
    nodes := if 0 < state.nodes.length then some state.nodes else none }

/-! ## Decompression -/

/-- Output view and bit counter of the inner loops of `expand`. -/
structure BitExpandState where
  view : ExpandedBools
  j : Nat := 0

/-- Body of the innermost loop of `expand`. -/
def expandBit (node : Node) (x y z : Nat) (state : BitExpandState) : Option BitExpandState := do
  let byte ← Node.leafByte node (state.j / 8)
  let mask ← shiftedOne state.j
  let view ← state.view.storeInside x y z (byte.setWidth 32 &&& mask != 0#32)
  return { view := view, j := state.j + 1 }

/-- What the three inner loops of `expand` write for a mixed node; their conditions are
`y <= base.y + 8`, `x <= base.x + 8` and `z <= base.z + 8`. -/
def expandNode (node : Node) (base : UVec3) (view : ExpandedBools) : Option ExpandedBools :=
  (CountedLoop.runM 9 { view := view : BitExpandState } fun state dy =>
    CountedLoop.runM 9 state fun state dx =>
      CountedLoop.runM 9 state fun state dz =>
        expandBit node (base.x + dx) (base.y + dy) (base.z + dz) state).map (·.view)

/-- Body of the outer loop of `expand`; the pointer `node` stays at the first node. -/
def expandStep (storage : CompressedBoolStorage) (view : ExpandedBools) (i : Nat) :
    Option ExpandedBools :=
  let base := nodeBaseOffset i
  if storage.nonuniformNodeMask &&& bit 64 i = 0#64 then
    some (view.fill base 8 (storage.uniformValueMask &&& bit 64 i != 0#64))
  else do
    let nodes ← storage.nodes
    let node ← nodes[0]?
    expandNode node base view

/-- `expand(expanded)`. -/
def expand (storage : CompressedBoolStorage) (view : ExpandedBools) : Option ExpandedBools :=
  CountedLoop.runM 64 view (expandStep storage)

/-- `load(x, y, z)`; there is no result when the node read is not stored. -/
def load (storage : CompressedBoolStorage) (x y z : Nat) : Option Bool :=
  let nodeBit := bit 64 (z / 8 + (x / 8) * 4 + (y / 8) * 16)
  match storage.nodes with
  | none => some (storage.uniformValueMask &&& nodeBit != 0#64)
  | some nodes => do
      let node ← nodes[popcount (storage.nonuniformNodeMask &&& (nodeBit - 1#64))]?
      let leafId := z % 8 / 2 + (x % 8 / 2) * 4 + (y % 8 / 2) * 16
      let mask ← shiftedOne (z % 2 + (x % 2) * 2 + (y % 2) * 4)
      return (node (Fin.ofNat 64 leafId)).setWidth 32 &&& mask != 0#32

/-! ## What the constructor stores -/

section Compress

variable (expanded : ExpandedBools)

/-- Value `j` of node `i`. -/
def nodeValue (i j : Nat) : Bool := (expanded.extractTo (nodeBaseOffset i) 8).element j

theorem packNode_hasFalse (i : Nat) :
    (packNode expanded i).hasFalse = true ↔ ∃ j < 512, nodeValue expanded i j = false := by
  refine (CountedLoop.run_collects (fun state : PackState => state.hasFalse = true)
    (fun j => nodeValue expanded i j = false) fun state j _ => ?_).trans (by simp)
  unfold packStep nodeValue
  cases CubeArray.element (expanded.extractTo (nodeBaseOffset i) 8) j <;> simp

theorem packNode_hasTrue (i : Nat) :
    (packNode expanded i).hasTrue = true ↔ ∃ j < 512, nodeValue expanded i j = true := by
  refine (CountedLoop.run_collects (fun state : PackState => state.hasTrue = true)
    (fun j => nodeValue expanded i j = true) fun state j _ => ?_).trans (by simp)
  unfold packStep nodeValue
  cases CubeArray.element (expanded.extractTo (nodeBaseOffset i) 8) j <;> simp

/-- Node `i` holds both values. -/
def Mixed (i : Nat) : Prop :=
  (∃ j < 512, nodeValue expanded i j = false) ∧ ∃ j < 512, nodeValue expanded i j = true

/-- Node `i` holds ones only. -/
def Ones (i : Nat) : Prop :=
  ¬ Mixed expanded i ∧ ∃ j < 512, nodeValue expanded i j = true

theorem packNode_mixed (i : Nat) :
    ((packNode expanded i).hasFalse && (packNode expanded i).hasTrue) = true ↔
      Mixed expanded i := by
  rw [Bool.and_eq_true, packNode_hasFalse, packNode_hasTrue]
  rfl

/-- What one iteration of the constructor does, by the values of its node. -/
theorem compressStep_cases (state : CompressState) (i : Nat) :
    (Mixed expanded i ∧ ∃ node, compressStep expanded state i =
      { state with
        nonuniformNodeMask := state.nonuniformNodeMask ||| bit 64 i
        nodes := state.nodes ++ [node] }) ∨
    (Ones expanded i ∧ compressStep expanded state i =
      { state with uniformValueMask := state.uniformValueMask ||| bit 64 i }) ∨
    (¬ Mixed expanded i ∧ ¬ Ones expanded i ∧ compressStep expanded state i = state) := by
  unfold compressStep
  by_cases mixed : Mixed expanded i
  · exact Or.inl ⟨mixed, _, if_pos ((packNode_mixed expanded i).mpr mixed)⟩
  · have notBoth := (packNode_mixed expanded i).not.mpr mixed
    by_cases met : ∃ j < 512, nodeValue expanded i j = true
    · have flag := (packNode_hasTrue expanded i).mpr met
      exact Or.inr (Or.inl ⟨⟨mixed, met⟩, (if_neg notBoth).trans (if_pos flag)⟩)
    · have flag := (packNode_hasTrue expanded i).not.mpr met
      exact Or.inr (Or.inr ⟨mixed, fun ones => met ones.2,
        (if_neg notBoth).trans (if_neg flag)⟩)

theorem compressed_collects (Holds : CompressState → Prop) (adds : Nat → Prop)
    (step : ∀ state, ∀ i < 64, Holds (compressStep expanded state i) ↔ Holds state ∨ adds i) :
    Holds (compressed expanded) ↔ Holds {} ∨ ∃ i < 64, adds i :=
  CountedLoop.run_collects Holds adds step

theorem getLsbD_or_bit_iff (mask : BitVec 64) {i : Nat} (hi : i < 64) (n : Nat) :
    (mask ||| bit 64 i).getLsbD n = true ↔ mask.getLsbD n = true ∨ i = n := by
  rw [PackedArray.getLsbD_or_bit mask hi]
  simp only [Bool.or_eq_true, decide_eq_true_eq]

theorem compress_mixed {n : Nat} (hn : n < 64) :
    (compress expanded).nonuniformNodeMask.getLsbD n = true ↔ Mixed expanded n := by
  have adds : ∀ state : CompressState, ∀ i < 64,
      (compressStep expanded state i).nonuniformNodeMask.getLsbD n = true ↔
        state.nonuniformNodeMask.getLsbD n = true ∨ (i = n ∧ Mixed expanded i) := by
    intro state i hi
    rcases compressStep_cases expanded state i with ⟨mixed, node, stepped⟩ | ⟨ones, stepped⟩ |
      ⟨mixed, _, stepped⟩
    · simp only [stepped, getLsbD_or_bit_iff _ hi, mixed, and_true]
    · simp only [stepped, ones.1, and_false, or_false]
    · simp only [stepped, mixed, and_false, or_false]
  simp only [compress]
  rw [compressed_collects expanded (fun state => state.nonuniformNodeMask.getLsbD n = true) _ adds]
  simpa using fun _ => hn

theorem compress_ones {n : Nat} (hn : n < 64) :
    (compress expanded).uniformValueMask.getLsbD n = true ↔ Ones expanded n := by
  have adds : ∀ state : CompressState, ∀ i < 64,
      (compressStep expanded state i).uniformValueMask.getLsbD n = true ↔
        state.uniformValueMask.getLsbD n = true ∨ (i = n ∧ Ones expanded i) := by
    intro state i hi
    rcases compressStep_cases expanded state i with ⟨mixed, node, stepped⟩ | ⟨ones, stepped⟩ |
      ⟨_, ones, stepped⟩
    · have both : ¬ Ones expanded i := fun ones => ones.1 mixed
      simp only [stepped, both, and_false, or_false]
    · simp only [stepped, getLsbD_or_bit_iff _ hi, ones, and_true]
    · simp only [stepped, ones, and_false, or_false]
  simp only [compress]
  rw [compressed_collects expanded (fun state => state.uniformValueMask.getLsbD n = true) _ adds]
  simpa using fun _ => hn

theorem compressed_stored :
    0 < (compressed expanded).nodes.length ↔ ∃ i < 64, Mixed expanded i := by
  refine (CountedLoop.run_collects (fun state : CompressState => 0 < state.nodes.length)
    (Mixed expanded) fun state i hi => ?_).trans (by simp)
  rcases compressStep_cases expanded state i with ⟨mixed, node, stepped⟩ | ⟨ones, stepped⟩ |
    ⟨mixed, _, stepped⟩
  · simp [stepped, mixed]
  · simp [stepped, ones.1]
  · simp [stepped, mixed]

theorem run_packStep_leafMask (bools : CubeArray Bool 8) {byte : Fin 64} (n : Nat)
    (clear : ∀ j < n, Fin.ofNat 64 (j / 8) = byte → bools.element j = false) :
    (CountedLoop.run n {} (packStep bools)).leafMask byte = 0 := by
  induction n with
  | zero => rfl
  | succ n ih =>
    have before := ih fun j bound => clear j (Nat.lt_succ_of_lt bound)
    rw [CountedLoop.run_succ, packStep]
    split
    · rename_i isSet
      have other : byte ≠ Fin.ofNat 64 (n / 8) := by
        intro same
        rw [clear n (Nat.lt_succ_self n) same.symm] at isSet
        exact Bool.false_ne_true isSet
      simp only [Function.update_of_ne other, before]
    · exact before

theorem compressed_head (mixed : Mixed expanded 0) :
    (compressed expanded).nodes[0]? = some (packNode expanded 0).leafMask := by
  refine (CountedLoop.run_invariant 64 {} (compressStep expanded)
    (fun n state => (n = 0 → state.nodes = []) ∧
      (0 < n → state.nodes[0]? = some (packNode expanded 0).leafMask))
    ⟨fun _ => rfl, nofun⟩ fun n state _ before => ⟨nofun, fun _ => ?_⟩).2 (by decide)
  rcases Nat.eq_zero_or_pos n with rfl | later
  · rw [compressStep, if_pos ((packNode_mixed expanded 0).mpr mixed), before.1 rfl]
    rfl
  · have stays := before.2 later
    rcases compressStep_cases expanded state n with ⟨-, node, stepped⟩ | ⟨-, stepped⟩ |
      ⟨-, -, stepped⟩
    · rw [stepped, List.getElem?_append_left (List.getElem?_eq_some_iff.mp stays).1, stays]
    · rw [stepped, stays]
    · rw [stepped, stays]

/-- Blocks of node 0 are loaded from its leaf mask, if the node is mixed. -/
theorem load_head (mixed : Mixed expanded 0) {x y z : Nat}
    (inNode : z / 8 + x / 8 * 4 + y / 8 * 16 = 0) :
    (compress expanded).load x y z = (shiftedOne (z % 2 + x % 2 * 2 + y % 2 * 4)).map fun mask =>
      ((packNode expanded 0).leafMask
        (Fin.ofNat 64 (z % 8 / 2 + x % 8 / 2 * 4 + y % 8 / 2 * 16))).setWidth 32 &&& mask !=
          0#32 := by
  have stored : (compress expanded).nodes = some (compressed expanded).nodes := by
    rw [compress, if_pos ((compressed_stored expanded).mpr ⟨0, by decide, mixed⟩)]
  have none_ : bit 64 0 - 1#64 = 0#64 := by decide
  have first : popcount (0#64) = 0 := by decide
  rw [load, stored, inNode, none_, BitVec.and_zero]
  simp only [first, compressed_head expanded mixed, Option.bind_eq_bind, Option.bind_some]
  generalize (packNode expanded 0).leafMask _ = byte
  cases shiftedOne (z % 2 + x % 2 * 2 + y % 2 * 4) <;> rfl

end Compress

/-! ## What the two read paths do -/

theorem expandBit_j {node : Node} {x y z : Nat} {state after : BitExpandState}
    (done : expandBit node x y z state = some after) : after.j = state.j + 1 ∧ state.j < 32 := by
  simp only [expandBit, shiftedOne, Option.bind_eq_bind, Option.bind_eq_some_iff] at done
  obtain ⟨byte, _, mask, shifted, view, _, rest⟩ := done
  have stepped : { view := view, j := state.j + 1 } = after := Option.some.inj rest
  refine ⟨stepped ▸ rfl, ?_⟩
  by_contra large
  rw [if_neg large] at shifted
  cases shifted

theorem expandNode_eq_none (node : Node) (base : UVec3) (view : ExpandedBools) :
    expandNode node base view = none := by
  -- every row advances the counter by 9 and has no result once it passed 32
  have row : ∀ {y x : Nat} {state after : BitExpandState},
      (CountedLoop.runM 9 state fun state dz => expandBit node x y (base.z + dz) state) =
        some after → after.j = state.j + 9 ∧ state.j + 9 ≤ 32 := by
    intro y x state after through
    have inv := CountedLoop.runM_invariant
      (fun n (now : BitExpandState) => now.j = state.j + n ∧ (0 < n → now.j ≤ 32))
      ⟨rfl, fun positive => absurd positive (Nat.lt_irrefl 0)⟩ ?_ through
    · exact ⟨inv.1, inv.1 ▸ inv.2 (by decide)⟩
    · intro n now next _ inv done
      have one := expandBit_j done
      omega
  have plane : ∀ {y : Nat} {state after : BitExpandState},
      (CountedLoop.runM 9 state fun state dx =>
        CountedLoop.runM 9 state fun state dz =>
          expandBit node (base.x + dx) y (base.z + dz) state) = some after → False := by
    intro y state after through
    have inv := CountedLoop.runM_invariant
      (fun n (now : BitExpandState) => now.j = state.j + n * 9 ∧ (0 < n → now.j ≤ 32))
      ⟨by simp, fun positive => absurd positive (Nat.lt_irrefl 0)⟩ ?_ through
    · omega
    · intro n now next _ inv done
      have nine := row done
      omega
  unfold expandNode
  rw [CountedLoop.runM_eq_none (by decide : 0 < 9), Option.map_none]
  intro state
  cases outcome : CountedLoop.runM 9 state fun state dx =>
      CountedLoop.runM 9 state fun state dz =>
        expandBit node (base.x + dx) (base.y + 0) (base.z + dz) state with
  | none => rfl
  | some after => exact (plane outcome).elim

/-- The storage of a plain array after the constructor, by the values of its nodes. -/
theorem compress_nodes (expanded : ExpandedBools) :
    (compress expanded).nodes = none ↔ ∀ i < 64, ¬ Mixed expanded i := by
  have stored := compressed_stored expanded
  rw [compress, ite_eq_right_iff]
  constructor
  · intro empty i hi mixed
    exact absurd (empty (stored.mpr ⟨i, hi, mixed⟩)) (Option.some_ne_none _)
  · intro uniform positive
    obtain ⟨i, hi, mixed⟩ := stored.mp positive
    exact absurd mixed (uniform i hi)

/-- Every 8x8x8 node of a plain array holds one value. -/
def NodesUniform (expanded : ExpandedBools) : Prop :=
  ∀ y x z y' x' z' : Fin 32, nodeIndex x y z = nodeIndex x' y' z' →
    expanded y x z = expanded y' x' z'

theorem nodeValue_eq (expanded : ExpandedBools) {i j : Nat} (hi : i < 64) (hj : j < 512) :
    nodeValue expanded i j =
      expanded.load (i / 4 % 4 * 8 + j / 8 % 8) (i / 16 * 8 + j / 64) (i % 4 * 8 + j % 8) := by
  unfold nodeValue CubeArray.element CubeArray.load CubeArray.extractTo CubeArray.load
  rw [nodeBaseOffset_eq hi]
  congr 1 <;> simp only [Fin.ext_iff, Fin.val_ofNat, chunkSizeBlocks] <;> omega

/-- Number of a position inside its node. -/
def nodeOffset (x y z : Nat) : Nat := y % 8 * 64 + x % 8 * 8 + z % 8

theorem nodeValue_position (expanded : ExpandedBools) (y x z : Fin 32) :
    nodeValue expanded (nodeIndex x y z) (nodeOffset x y z) = expanded y x z := by
  have bound : nodeOffset x y z < 512 := by
    unfold nodeOffset
    omega
  rw [nodeValue_eq expanded (nodeIndex_lt x.isLt y.isLt z.isLt) bound]
  have same : nodeIndex x y z / 4 % 4 * 8 + nodeOffset x y z / 8 % 8 = x ∧
      nodeIndex x y z / 16 * 8 + nodeOffset x y z / 64 = y ∧
      nodeIndex x y z % 4 * 8 + nodeOffset x y z % 8 = z := by
    have hx := x.isLt
    have hz := z.isLt
    unfold nodeIndex nodeOffset
    omega
  rw [same.1, same.2.1, same.2.2, CubeArray.load_val]

theorem nodeIndex_nodeValue {i j : Nat} (hi : i < 64) (hj : j < 512) :
    nodeIndex (Fin.ofNat chunkSizeBlocks (i / 4 % 4 * 8 + j / 8 % 8))
      (Fin.ofNat chunkSizeBlocks (i / 16 * 8 + j / 64))
      (Fin.ofNat chunkSizeBlocks (i % 4 * 8 + j % 8)) = i := by
  simp only [nodeIndex, Fin.val_ofNat, chunkSizeBlocks]
  have x : (i / 4 % 4 * 8 + j / 8 % 8) % 32 / 8 = i / 4 % 4 := by omega
  have y : (i / 16 * 8 + j / 64) % 32 / 8 = i / 16 := by omega
  have z : (i % 4 * 8 + j % 8) % 32 / 8 = i % 4 := by omega
  rw [x, y, z]
  omega

theorem nodesUniform_iff (expanded : ExpandedBools) :
    NodesUniform expanded ↔ ∀ i < 64, ¬ Mixed expanded i := by
  constructor
  · rintro uniform i hi ⟨⟨j, hj, isFalse⟩, k, hk, isTrue⟩
    rw [nodeValue_eq expanded hi hj] at isFalse
    rw [nodeValue_eq expanded hi hk] at isTrue
    unfold CubeArray.load at isFalse isTrue
    have same := (nodeIndex_nodeValue hi hj).trans (nodeIndex_nodeValue hi hk).symm
    rw [uniform _ _ _ _ _ _ same, isTrue] at isFalse
    cases isFalse
  · intro pure y x z y' x' z' same
    have bound : ∀ y x z : Nat, nodeOffset x y z < 512 := by
      intro y x z
      unfold nodeOffset
      omega
    have here := nodeValue_position expanded y x z
    have there := nodeValue_position expanded y' x' z'
    rw [same] at here
    have node := nodeIndex_lt x'.isLt y'.isLt z'.isLt
    cases first : expanded y x z <;> cases second : expanded y' x' z'
    · rfl
    · exact absurd ⟨⟨_, bound _ _ _, here.trans first⟩, _, bound _ _ _, there.trans second⟩
        (pure _ node)
    · exact absurd ⟨⟨_, bound _ _ _, there.trans second⟩, _, bound _ _ _, here.trans first⟩
        (pure _ node)
    · rfl

/-- Both read paths of the compressed array give the array back: `expand` writes it to any
view and nothing outside of it, and `load` reads every position. -/
def Represents (expanded : ExpandedBools) : Prop :=
  (∀ view, (compress expanded).expand view = some expanded) ∧
    ∀ y x z : Fin 32, (compress expanded).load x y z = some (expanded y x z)

theorem compress_bit {expanded : ExpandedBools} (uniform : NodesUniform expanded)
    (y x z : Fin 32) :
    ((compress expanded).uniformValueMask &&& bit 64 (nodeIndex x y z) != 0#64) =
      expanded y x z := by
  have node := nodeIndex_lt x.isLt y.isLt z.isLt
  have pure := (nodesUniform_iff expanded).mp uniform _ node
  have value := nodeValue_position expanded y x z
  have bound : nodeOffset x y z < 512 := by
    unfold nodeOffset
    omega
  rw [Bool.eq_iff_iff, bne_iff_ne, PackedArray.and_bit_ne_zero, compress_ones expanded node]
  constructor
  · rintro ⟨_, j, hj, isTrue⟩
    by_contra isFalse
    exact pure ⟨⟨_, bound, value.trans (Bool.eq_false_iff.mpr isFalse)⟩, j, hj, isTrue⟩
  · intro isTrue
    exact ⟨pure, _, bound, value.trans isTrue⟩

theorem expandStep_mixed {storage : CompressedBoolStorage} {i : Nat}
    (set : storage.nonuniformNodeMask.getLsbD i = true) (view : ExpandedBools) :
    expandStep storage view i = none := by
  have stepped : expandStep storage view i = storage.nodes.bind fun nodes =>
      nodes[0]?.bind fun node => expandNode node (nodeBaseOffset i) view :=
    if_neg ((PackedArray.and_bit_ne_zero _ i).mpr set)
  rw [stepped]
  simp only [expandNode_eq_none, Option.bind_fun_none]

theorem expandStep_uniform {storage : CompressedBoolStorage} {i : Nat}
    (clear : storage.nonuniformNodeMask.getLsbD i = false) (view : ExpandedBools) :
    expandStep storage view i =
      some (view.fill (nodeBaseOffset i) 8 (storage.uniformValueMask &&& bit 64 i != 0#64)) :=
  if_pos ((PackedArray.and_bit_eq_zero _ i).mpr clear)

/-- Without mixed nodes `expand` fills the nodes with the values of their mask bits. -/
theorem expand_uniform {expanded : ExpandedBools} (uniform : NodesUniform expanded)
    (view : ExpandedBools) : (compress expanded).expand view = some expanded := by
  have pure := (nodesUniform_iff expanded).mp uniform
  rw [expand, CountedLoop.runM_eq_run fun i hi view => expandStep_uniform
    (Bool.eq_false_iff.mpr fun set => pure i hi ((compress_mixed expanded hi).mp set)) view]
  -- the fill of node `i` writes the positions of this node
  have fills : ∀ i < 64, ∀ state : ExpandedBools,
      CountedLoop.Writes (fun (view : ExpandedBools) (p : Fin 32 × Fin 32 × Fin 32) =>
          view p.1 p.2.1 p.2.2)
        (fun p => expanded p.1 p.2.1 p.2.2) (fun p => nodeIndex p.2.1 p.1 p.2.2 = i) state
        (state.fill (nodeBaseOffset i) 8
          ((compress expanded).uniformValueMask &&& bit 64 i != 0#64)) := by
    rintro i hi state ⟨y, x, z⟩
    have inside := @inside_node_iff x y z x.isLt z.isLt i hi
    constructor
    · intro here
      refine (if_pos (inside.mpr here)).trans ?_
      rw [← here]
      exact compress_bit uniform y x z
    · intro elsewhere
      exact if_neg (mt inside.mp elsewhere)
  congr 1
  funext y x z
  exact (CountedLoop.run_writes fills (y, x, z)).1 ⟨_, nodeIndex_lt x.isLt y.isLt z.isLt, rfl⟩

theorem expand_mixed {expanded : ExpandedBools} {i : Nat} (hi : i < 64)
    (mixed : Mixed expanded i) (view : ExpandedBools) :
    (compress expanded).expand view = none :=
  CountedLoop.runM_eq_none hi (expandStep_mixed ((compress_mixed expanded hi).mpr mixed)) view

/-- A compressed array is read back exactly when none of its nodes holds both values. -/
theorem represents_iff (expanded : ExpandedBools) :
    Represents expanded ↔ NodesUniform expanded := by
  constructor
  · intro represents
    rw [nodesUniform_iff]
    intro i hi mixed
    have stuck := expand_mixed hi mixed expanded
    rw [represents.1] at stuck
    cases stuck
  · intro uniform
    refine ⟨expand_uniform uniform, fun y x z => ?_⟩
    have empty := (compress_nodes expanded).mpr ((nodesUniform_iff expanded).mp uniform)
    have loaded : (compress expanded).load x y z =
        some ((compress expanded).uniformValueMask &&& bit 64 (nodeIndex x y z) != 0#64) := by
      simp only [load, empty, nodeIndex]
    rw [loaded, compress_bit uniform]

/-- The array whose only block set is the one at `x = 1`. -/
def singleBlock : ExpandedBools := fun y x z => x == 1 && y == 0 && z == 0

/-- The block is not read back: `load` returns the first bit of another leaf of the node, and
`expand` shifts by 32. -/
theorem singleBlock_not_represented :
    ¬ Represents singleBlock ∧ (compress singleBlock).load 1 0 0 = some false ∧
      (compress singleBlock).expand singleBlock = none := by
  have mixed : Mixed singleBlock 0 := ⟨⟨0, by decide, by decide⟩, 8, by decide, by decide⟩
  have loaded : (compress singleBlock).load 1 0 0 = some false := by
    have clear : ∀ j < 512, Fin.ofNat 64 (j / 8) = (0 : Fin 64) →
        nodeValue singleBlock 0 j = false := by
      intro j bound inByte
      have low : j < 8 := by
        have value := congrArg Fin.val inByte
        simp only [Fin.ofNat, Fin.val_zero] at value
        omega
      exact (by decide : ∀ j < 8, nodeValue singleBlock 0 j = false) j low
    have leaf : (packNode singleBlock 0).leafMask (Fin.ofNat 64 0) = 0 := by
      rw [packNode]
      exact run_packStep_leafMask _ 512 clear
    rw [load_head singleBlock mixed (by decide), leaf]
    decide
  have expanded := expand_mixed (by decide) mixed singleBlock
  refine ⟨fun represents => ?_, loaded, expanded⟩
  have written := represents.1 singleBlock
  rw [expanded] at written
  cases written

end CompressedBoolStorage

end Voxen.Land
