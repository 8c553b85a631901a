import Voxen.Common.V8gHashTrieRuns

/-!
# Visiting the differences of two versions of a trie

`visitDiff` descends two tries at once.  A visitor has a state of its own and says
whether to go on.
-/

namespace Voxen.Common.V8gHashTrie

variable {K V σ : Type}

/-- `DiffVisitorFn`: the new and the old item; whether to proceed. -/
abbrev Visitor (σ K V : Type) : Type :=
  σ → Option (Item K V) → Option (Item K V) → σ × Bool

/-- `visitor(first) && visitor(second)`. -/
def both (visitor : Visitor σ K V) (state : σ)
    (first second : Option (Item K V) × Option (Item K V)) : σ × Bool :=
  match visitor state first.1 first.2 with
  | (state, true) => visitor state second.1 second.2
  | (state, false) => (state, false)

/-- The loop over the set bits of a mask, from the least significant one on:
`while (mask) { bit = 1 << countr_zero(mask); ...; mask ^= bit; }`, with a body that
may return false. -/
def eachBit {τ : Type} (mask : BitVec 64) (body : Nat → τ → Option (τ × Bool)) :
    Nat → Nat → τ → Option (τ × Bool)
  | 0, _, state => some (state, true)
  | count + 1, slot, state =>
    if mask.getLsbD slot then do
      match ← body slot state with
      | (state, true) => eachBit mask body count (slot + 1) state
      | (state, false) => return (state, false)
    else eachBit mask body count (slot + 1) state

namespace Node

/-- What the loops of `visitUnary` and `visitDiffItem` do with `node_ptr` and
`item_ptr` at a slot that they visit for itself. -/
def visitSlot (visitChild : Node K V → σ → Option (σ × Bool))
    (visitItem : σ → Item K V → σ × Bool) (node : Node K V) (slot : Nat)
    (state : σ) (nodeIndex itemIndex : Nat) : Option ((σ × Nat × Nat) × Bool) :=
  if node.nodeBitmap.getLsbD slot then do
    let (_, child) ← node.nodes[nodeIndex]?
    let (state, proceed) ← visitChild child state
    return ((state, nodeIndex + 1, itemIndex), proceed)
  else do
    let item ← node.items[itemIndex]?
    let (state, proceed) := visitItem state item
    return ((state, nodeIndex, itemIndex + 1), proceed)

def visitUnary (visitor : σ → Item K V → σ × Bool) :
    Nat → Node K V → σ → Option (σ × Bool)
  | 0, _, _ => none
  | levels + 1, node, state => do
      let ((state, _), proceed) ←
        eachBit (node.nodeBitmap ||| node.itemBitmap)
          (fun slot (state, nodeIndex, itemIndex) =>
            node.visitSlot (visitUnary visitor levels) visitor slot state nodeIndex itemIndex)
          64 0 (state, 0, 0)
      return (state, proceed)

variable [DecidableEq K] (hash : K → BitVec 64)

def visitDiffItemOrdered (visitor : Visitor σ K V) (state : σ) (a b : Item K V) : σ × Bool :=
  if a.key = b.key then
    if a.version ≠ b.version then visitor state (some a) (some b) else (state, true)
  else if hash a.key < hash b.key then
    both visitor state (some a, none) (none, some b)
  else
    both visitor state (none, some b) (some a, none)

/-- One slot of the loop of `visitDiffItem`. -/
def visitDiffItemSlot (visitor : Visitor σ K V) (item : Item K V) (levels : Nat)
    (visitChild : Node K V → σ → Option (σ × Bool)) (node : Node K V) (itemSlot slot : Nat) :
    σ × Nat × Nat × Bool → Option ((σ × Nat × Nat × Bool) × Bool)
  | (state, nodeIndex, itemIndex, visitedItemBit) =>
    if slot = itemSlot then do
      let ((state, indices), proceed) ←
        node.visitSlot visitChild
          (fun state stored => visitDiffItemOrdered hash visitor state stored item)
          slot state nodeIndex itemIndex
      return ((state, indices.1, indices.2, true), proceed)
    else do
      let (state, proceed) :=
        if slot > itemSlot ∧ ¬ visitedItemBit then visitor state none (some item)
        else (state, true)
      let visitedItemBit := visitedItemBit || decide (slot > itemSlot)
      if ¬ proceed then
        return ((state, nodeIndex, itemIndex, visitedItemBit), false)
      let unaryAdapter state callee := visitor state (some callee) none
      let ((state, indices), proceed) ←
        node.visitSlot (visitUnary unaryAdapter levels) unaryAdapter slot state nodeIndex
          itemIndex
      return ((state, indices.1, indices.2, visitedItemBit), proceed)

/-- The items of the node against the one passed. -/
def visitDiffItem (visitor : Visitor σ K V) (item : Item K V) :
    Nat → Node K V → σ → Option (σ × Bool)
  | 0, _, _ => none
  | levels + 1, node, state => do
      let itemSlot := ((hash item.key <<< node.consumedHashBits) >>> (64 - 6)).toNat
      let ((state, _, _, visitedItemBit), proceed) ←
        eachBit (node.nodeBitmap ||| node.itemBitmap)
          (node.visitDiffItemSlot hash visitor item levels (visitDiffItem visitor item levels)
            itemSlot)
          64 0 (state, 0, 0, false)
      if ¬ proceed then
        return (state, false)
      return if visitedItemBit then (state, true) else visitor state none (some item)

/-- `handle_iteration`: a child, an item or nothing on either side. -/
def visitDiffSlot (visitor : Visitor σ K V) (levels : Nat)
    (visitNodes : Node K V → Node K V → σ → Option (σ × Bool)) (new old : Node K V)
    (slot : Nat) (state : σ) : Option (σ × Bool) :=
  let bit := PackedArray.bit 64 slot
  if new.nodeBitmap.getLsbD slot then do
    let (newFirst, newChild) ← new.refNodeBit bit
    if old.nodeBitmap.getLsbD slot then
      let (oldFirst, oldChild) ← old.refNodeBit bit
      if newFirst ≠ oldFirst then
        visitNodes newChild oldChild state
      else
        return (state, true)
    else if old.itemBitmap.getLsbD slot then
      visitDiffItem hash visitor (← old.refItemBit bit) levels newChild state
    else
      visitUnary (fun state item => visitor state (some item) none) levels newChild state
  else if new.itemBitmap.getLsbD slot then do
    let newItem ← new.refItemBit bit
    if old.nodeBitmap.getLsbD slot then
      let (_, oldChild) ← old.refNodeBit bit
      let adapter state nodeItem passedItem := visitor state passedItem nodeItem
      visitDiffItem hash adapter newItem levels oldChild state
    else if old.itemBitmap.getLsbD slot then
      return visitDiffItemOrdered hash visitor state newItem (← old.refItemBit bit)
    else
      return visitor state (some newItem) none
  else if old.nodeBitmap.getLsbD slot then do
    let (_, oldChild) ← old.refNodeBit bit
    visitUnary (fun state item => visitor state none (some item)) levels oldChild state
  else do
    return visitor state none (some (← old.refItemBit bit))

def visitDiff (visitor : Visitor σ K V) : Nat → Node K V → Node K V → σ → Option (σ × Bool)
  | 0, _, _, _ => none
  | levels + 1, new, old, state =>
    eachBit ((new.nodeBitmap ||| new.itemBitmap) ||| (old.nodeBitmap ||| old.itemBitmap))
      (visitDiffSlot hash visitor levels (visitDiff visitor levels) new old) 64 0 state

end Node

variable [DecidableEq K] (hash : K → BitVec 64)

/-- One root slot of `visitDiff`. -/
def visitDiffRoot (visitor : Visitor σ K V) (new old : BitVec 64 × Option (Node K V)) (state : σ) :
    Option (σ × Bool) :=
  if new.1 = old.1 then some (state, true)
  else match new.2, old.2 with
    | none, none => some (state, true)
    | none, some oldNode =>
      oldNode.visitUnary (fun state item => visitor state none (some item)) hashLevels state
    | some newNode, none =>
      newNode.visitUnary (fun state item => visitor state (some item) none) hashLevels state
    | some newNode, some oldNode =>
      Node.visitDiff hash visitor hashLevels newNode oldNode state

/-- The loop of `visitDiff` over these root slots. -/
def visitDiffRoots (trie old : V8gHashTrie K V) (visitor : Visitor σ K V) :
    List (Fin 16) → σ → Option σ
  | [], state => some state
  | index :: rest, state => do
      match ← visitDiffRoot hash visitor (trie.rootNodes index) (old.rootNodes index) state with
      | (state, true) => visitDiffRoots trie old visitor rest state
      | (state, false) => return state

/-- `visitDiff`, from the state of the visitor to its last one. -/
def visitDiff (trie old : V8gHashTrie K V) (visitor : Visitor σ K V) (state : σ) : Option σ :=
  trie.visitDiffRoots hash old visitor (List.finRange 16) state

end Voxen.Common.V8gHashTrie
