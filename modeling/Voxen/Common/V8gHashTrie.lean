import Mathlib.Data.Set.Card
import Voxen.Common.V8gHashTrieDescent
import Voxen.Lib.FinSizes

/-!
# The versioned hash trie as a map

Sixteen root slots, selected by the first four bits of the hash, lead to the
nodes.  Over any run of insertions, erasures and copies the trie holds for each
key what the last insertion of it left, and its size counts these keys.
-/

namespace Voxen.Common

/-- The container: size, root nodes with their timelines, and the next address
the allocator hands out. -/
structure V8gHashTrie (K V : Type) where
  size : Nat := 0
  rootNodes : Fin 16 → BitVec 64 × Option (V8gHashTrie.Node K V) := fun _ => (0#64, none)
  freeAddress : Nat := 0

namespace V8gHashTrie

variable {K V : Type} (layout : ItemLayout) (hash : K → BitVec 64)

/-- `ROOT_NODES_LOG2`. -/
abbrev rootNodesLog2 : Nat := 4

/-- Levels of six bits below a root node. -/
abbrev hashLevels : Nat := 10

/-- `hash_bits >> (64 - ROOT_NODES_LOG2)`. -/
def rootIndex (hashBits : BitVec 64) : Fin 16 :=
  Fin.ofNat 16 (hashBits >>> (64 - rootNodesLog2)).toNat

/-- The root node item `insert` starts from, allocated if it is null yet, and
the next free address. -/
def prepareRoot (trie : V8gHashTrie K V) (timeline : BitVec 64) (index : Fin 16) :
    NodeItem K V × Nat :=
  match trie.rootNodes index with
  | (first, some node) => ((first, node), trie.freeAddress)
  | (_, none) =>
    ((timeline, Node.allocateNode layout trie.freeAddress rootNodesLog2),
      trie.freeAddress + 1)

variable [DecidableEq K]

def insert (trie : V8gHashTrie K V) (timeline : BitVec 64) (key : K) (valuePtr : V) :
    Option (V8gHashTrie K V) := do
  let hashBits := hash key
  let index := rootIndex hashBits
  let (nodeItem, freeAddress) := trie.prepareRoot layout timeline index
  let ((first, node), freeAddress, added) ←
    Node.insert layout hash timeline key valuePtr hashLevels nodeItem
      (hashBits <<< rootNodesLog2) freeAddress
  return {
    size := if added then trie.size + 1 else trie.size
    rootNodes := Function.update trie.rootNodes index (first, some node)
    freeAddress := freeAddress }

def erase (trie : V8gHashTrie K V) (timeline : BitVec 64) (key : K) :
    Option (V8gHashTrie K V) := do
  let hashBits := hash key
  let index := rootIndex hashBits
  match trie.rootNodes index with
  | (_, none) => return trie
  | (first, some node) =>
    let ((first, node), freeAddress, erased) ←
      Node.erase layout timeline key hashLevels (first, node)
        (hashBits <<< rootNodesLog2) trie.freeAddress
    return {
      size := if erased then trie.size - 1 else trie.size
      rootNodes := Function.update trie.rootNodes index (first, some node)
      freeAddress := freeAddress }

/-- `find`; the outer `none` is a descent beyond the bits of the hash. -/
def find (trie : V8gHashTrie K V) (key : K) : Option (Option (Item K V)) :=
  let hashBits := hash key
  match trie.rootNodes (rootIndex hashBits) with
  | (_, none) => some none
  | (_, some node) => Node.find key hashLevels node (hashBits <<< rootNodesLog2)

omit [DecidableEq K] in
theorem rootIndex_eq (key : K) : (rootIndex (hash key)).val = prefixOf hash hashLevels key := by
  have bound := (hash key).isLt
  have top : (hash key).toNat / 2 ^ 60 < 16 := by omega
  simp only [rootIndex, prefixOf, Fin.ofNat, BitVec.toNat_ushiftRight,
    Nat.shiftRight_eq_div_pow]
  exact Nat.mod_eq_of_lt top

/-- The invariant of the container: below every root node the keys have the
hash prefix of that root. -/
def WellFormed (layout : ItemLayout) (hash : K → BitVec 64) (trie : V8gHashTrie K V) : Prop :=
  ∀ index first node, trie.rootNodes index = (first, some node) →
    Node.WellFormed layout hash hashLevels index.val node

omit [DecidableEq K] in
theorem empty_wellFormed : WellFormed layout hash ({} : V8gHashTrie K V) := by
  intro index first node holds
  cases holds

variable {layout} {hash}

variable {first : BitVec 64} {key : K} {trie : V8gHashTrie K V} {node : Node K V}

theorem find_none (empty : trie.rootNodes (rootIndex (hash key)) = (first, none)) :
    trie.find hash key = some none := by
  simp only [find, empty]

theorem find_some (holds : trie.rootNodes (rootIndex (hash key)) = (first, some node)) :
    trie.find hash key = Node.lookup hash hashLevels node key := by
  simp only [find, holds]
  rfl

theorem find_total (wf : WellFormed layout hash trie) (key : K) :
    ∃ found, trie.find hash key = some found := by
  rcases holds : trie.rootNodes (rootIndex (hash key)) with ⟨first, _ | node⟩
  · exact ⟨none, find_none holds⟩
  · rw [find_some holds]
    exact Node.lookup_total (wf _ _ _ holds) key

theorem prepareRoot_spec (wf : WellFormed layout hash trie) (timeline : BitVec 64)
    (index : Fin 16) :
    ∃ nodeItem freeAddress, trie.prepareRoot layout timeline index = (nodeItem, freeAddress) ∧
      Node.WellFormed layout hash hashLevels index.val nodeItem.2 ∧
      ∀ other, rootIndex (hash other) = index →
        Node.lookup hash hashLevels nodeItem.2 other = trie.find hash other := by
  unfold prepareRoot
  rcases holds : trie.rootNodes index with ⟨first, _ | node⟩
  · have freshWf : Node.WellFormed layout hash hashLevels index.val
        (Node.allocateNode layout trie.freeAddress rootNodesLog2 : Node K V) :=
      Node.allocateNode_wellFormed _ rfl
    refine ⟨_, _, rfl, freshWf, ?_⟩
    rintro other rfl
    rw [find_none holds, Node.lookup_eq freshWf rfl]
    simp [Node.findInSlot, Node.itemAt, Node.childAt, Node.allocateNode, PackedArray.get?]
  · refine ⟨_, _, rfl, wf index first node holds, ?_⟩
    rintro other rfl
    exact (find_some holds).symm

/-- A new root node under the index of `key` that answers for that key only. -/
theorem find_update {trie' : V8gHashTrie K V} {result : Option (Option (Item K V))}
    (updated : trie'.rootNodes =
      Function.update trie.rootNodes (rootIndex (hash key)) (first, some node))
    (below : ∀ other, rootIndex (hash other) = rootIndex (hash key) →
      Node.lookup hash hashLevels node other =
        if other = key then result else trie.find hash other) (other : K) :
    trie'.find hash other = if other = key then result else trie.find hash other := by
  by_cases same : rootIndex (hash other) = rootIndex (hash key)
  · have root : trie'.rootNodes (rootIndex (hash other)) = (first, some node) := by
      rw [updated, same, Function.update_self]
    rw [← below other same, find_some root]
  · have differ : other ≠ key := fun eq => same (by rw [eq])
    rw [if_neg differ, find, find, updated, Function.update_of_ne same]

omit [DecidableEq K] in
theorem wellFormed_update {trie' : V8gHashTrie K V} {index : Fin 16}
    (wf : WellFormed layout hash trie)
    (updated : trie'.rootNodes = Function.update trie.rootNodes index (first, some node))
    (nodeWf : Node.WellFormed layout hash hashLevels index.val node) :
    WellFormed layout hash trie' := by
  intro other stored held holds
  rw [updated] at holds
  by_cases same : other = index
  · subst same
    rw [Function.update_self] at holds
    cases holds
    exact nodeWf
  · rw [Function.update_of_ne same] at holds
    exact wf other stored held holds

/-- Insertion returns, keeps the invariant, stores the item under its key only
and counts the key if it is new. -/
theorem insert_spec (unique : Function.Injective hash) (wf : WellFormed layout hash trie)
    (timeline : BitVec 64) (key : K) (valuePtr : V) :
    ∃ trie' added, trie.insert layout hash timeline key valuePtr = some trie' ∧
      WellFormed layout hash trie' ∧
      (∀ other, trie'.find hash other =
        if other = key then some (some ⟨timeline, key, valuePtr⟩)
        else trie.find hash other) ∧
      trie'.size = (if added then trie.size + 1 else trie.size) ∧
      (added = true ↔ trie.find hash key = some none) := by
  obtain ⟨nodeItem, freeAddress, root, rootWf, same⟩ :=
    prepareRoot_spec wf timeline (rootIndex (hash key))
  obtain ⟨node', freeAddress', added, result, spec, -⟩ :=
    Node.insert_spec unique timeline key valuePtr rootWf (rootIndex_eq hash key).symm
      freeAddress
  have inserted : trie.insert layout hash timeline key valuePtr = some {
      size := if added then trie.size + 1 else trie.size
      rootNodes := Function.update trie.rootNodes (rootIndex (hash key)) (timeline, some node')
      freeAddress := freeAddress' } := by
    rw [insert, root]
    change (Node.insert layout hash timeline key valuePtr hashLevels nodeItem
      (remaining hash hashLevels key) freeAddress).bind _ = _
    rw [result]
    rfl
  refine ⟨_, added, inserted, wellFormed_update wf rfl spec.wellFormed, ?_, rfl, ?_⟩
  · apply find_update rfl
    intro other inside
    rw [← same other inside]
    apply spec.lookups
    rw [← rootIndex_eq, inside]
  · rw [← same key rfl]
    exact spec.added_iff

/-- Erasure returns, keeps the invariant, removes its key only and counts it if
it was there. -/
theorem erase_spec {trie : V8gHashTrie K V} (wf : WellFormed layout hash trie)
    (timeline : BitVec 64) (key : K) :
    ∃ trie' erased, trie.erase layout hash timeline key = some trie' ∧
      WellFormed layout hash trie' ∧
      (∀ other, trie'.find hash other =
        if other = key then some none else trie.find hash other) ∧
      trie'.size = (if erased then trie.size - 1 else trie.size) ∧
      (erased = false ↔ trie.find hash key = some none) := by
  rcases holds : trie.rootNodes (rootIndex (hash key)) with ⟨first, _ | node⟩
  · refine ⟨trie, false, by simp only [erase, holds, Option.pure_def], wf, ?_, rfl,
      iff_of_true rfl (find_none holds)⟩
    intro other
    split
    · rename_i here
      rw [here, find_none holds]
    · rfl
  · obtain ⟨nodeItem', freeAddress, erased, result, spec, -⟩ :=
      @Node.erase_spec _ _ hash layout _ timeline key _ _ (first, node) (wf _ _ _ holds)
        (rootIndex_eq hash key).symm trie.freeAddress
    have outcome : trie.erase layout hash timeline key = some {
        size := if erased then trie.size - 1 else trie.size
        rootNodes := Function.update trie.rootNodes (rootIndex (hash key))
          (nodeItem'.1, some nodeItem'.2)
        freeAddress := freeAddress } := by
      simp only [erase, holds]
      change (Node.erase layout timeline key hashLevels (first, node)
        (remaining hash hashLevels key) trie.freeAddress).bind _ = _
      rw [result]
      rfl
    refine ⟨_, erased, outcome, wellFormed_update wf rfl spec.wellFormed, ?_, rfl, ?_⟩
    · apply find_update rfl
      intro other inside
      have owned : prefixOf hash hashLevels other = (rootIndex (hash key)).val := by
        rw [← rootIndex_eq, inside]
      have root : trie.rootNodes (rootIndex (hash other)) = (first, some node) := by
        rw [inside]
        exact holds
      rw [spec.lookups other owned, find_some root]
    · rw [find_some holds]
      exact spec.erased_iff

end V8gHashTrie

end Voxen.Common
