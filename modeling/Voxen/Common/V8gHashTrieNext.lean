import Voxen.Common.V8gHashTrieDiff

/-!
# The items of a trie in hash order

`findFirst` and `findNext` walk the items of a trie in the order of their hashes. The order
is that of the slots: a subtree has its items where its own slot is.
-/

namespace Voxen.Common.V8gHashTrie

open PackedArray (popcount rank bit)

variable {K V : Type}

namespace Node

/-- The loop over the slots of a mask, from the least one on, in `findFirstItem` and
`findNextItem`: an item is returned, a child node is asked for its first one. -/
def firstOfMask (findFirst : Node K V → Option (Option (Item K V)))
    (refItem : Nat → Option (Item K V)) (node : Node K V) (comboMask : BitVec 64) :
    Nat → Nat → Nat → Option (Option (Item K V))
  | 0, _, _ => some none
  | count + 1, slot, nodeIndex =>
    if comboMask.getLsbD slot then
      if node.itemBitmap.getLsbD slot then do
        let item ← refItem slot
        return some item
      else do
        let (_, child) ← node.nodes[nodeIndex]?
        match ← findFirst child with
        | some found => return some found
        | none => firstOfMask findFirst refItem node comboMask count (slot + 1) (nodeIndex + 1)
    else firstOfMask findFirst refItem node comboMask count (slot + 1) nodeIndex

/-- `findFirstItem`; the item is `refItemIndex(0)`. -/
def findFirstItem : Nat → Node K V → Option (Option (Item K V))
  | 0, _ => none
  | levels + 1, node =>
    node.firstOfMask (findFirstItem levels) (fun _ => node.items[0]?)
      (node.nodeBitmap ||| node.itemBitmap) 64 0 0

/-- What `findNextItem` returns from the child node indexed by `bit`. -/
def nextInChild (findNext : Node K V → BitVec 64 → Option (Option (Item K V)))
    (node : Node K V) (bit hashBits : BitVec 64) : Option (Option (Item K V)) :=
  if node.nodeBitmap &&& bit ≠ 0#64 then do
    let (_, child) ← node.refNodeBit bit
    findNext child (hashBits <<< 6)
  else some none

/-- What `findNextItem` returns from the item indexed by `bit`. -/
def nextHere (hash : K → BitVec 64) (node : Node K V) (bit hashBits : BitVec 64) :
    Option (Option (Item K V)) :=
  if node.itemBitmap &&& bit ≠ 0#64 then do
    let item ← node.refItemBit bit
    let itemHashBits := hash item.key <<< node.consumedHashBits
    return if hashBits < itemHashBits then some item else none
  else some none

/-- `findNextItem`; the item of the loop is `refItemBit(bit)`. -/
def findNextItem (hash : K → BitVec 64) :
    Nat → Node K V → BitVec 64 → Option (Option (Item K V))
  | 0, _, _ => none
  | levels + 1, node, hashBits => do
      let bit := selectBit hashBits
      match ← node.nextInChild (findNextItem hash levels) bit hashBits with
      | some found => return some found
      | none =>
        match ← node.nextHere hash bit hashBits with
        | some item => return some item
        | none =>
          -- Remove all entries at and below `bit`
          let comboMask :=
            (node.nodeBitmap ||| node.itemBitmap) &&& ~~~((bit <<< 1) - 1#64)
          let nodeIndex := popcount (node.nodeBitmap &&& ~~~comboMask)
          node.firstOfMask (findFirstItem levels)
            (fun slot => node.refItemBit (PackedArray.bit 64 slot)) comboMask 64 0 nodeIndex

end Node

/-- The loop over root nodes in `findFirst` and `findNext`. -/
def firstOfRoots (trie : V8gHashTrie K V) : List (Fin 16) → Option (Option (Item K V))
  | [] => some none
  | index :: rest =>
    match (trie.rootNodes index).2 with
    | none => firstOfRoots trie rest
    | some node => do
        match ← node.findFirstItem hashLevels with
        | some found => return some found
        | none => firstOfRoots trie rest

def findFirst (trie : V8gHashTrie K V) : Option (Option (Item K V)) :=
  trie.firstOfRoots (List.finRange 16)

def findNext (hash : K → BitVec 64) (trie : V8gHashTrie K V) (key : K) :
    Option (Option (Item K V)) := do
  let hashBits := hash key
  let index := rootIndex hashBits
  let inRoot ← match (trie.rootNodes index).2 with
    | none => some none
    | some node => node.findNextItem hash hashLevels (hashBits <<< rootNodesLog2)
  match inRoot with
  | some found => return some found
  | none => trie.firstOfRoots ((List.finRange 16).drop (index.val + 1))

/-- `for (item = findFirst(); item; item = findNext(item->key()))`, from the item it has come
to; `none` if it does not end within the fuel. -/
def enumerate (hash : K → BitVec 64) (trie : V8gHashTrie K V) :
    Nat → Option (Item K V) → Option (List (Item K V))
  | 0, _ => none
  | _ + 1, none => some []
  | fuel + 1, some item => do
      let next ← trie.findNext hash item.key
      let rest ← enumerate hash trie fuel next
      return item :: rest

/-! ## The items in the order of the slots -/

namespace Node

/-- The items of one slot. -/
def slotItems (below : Node K V → List (Item K V)) (node : Node K V) (slot : Nat) :
    List (Item K V) :=
  match node.itemAt slot, node.childAt slot with
  | some item, _ => [item]
  | none, some child => below child.2
  | none, none => []

/-- The items below a node. -/
def itemsBelow : Nat → Node K V → List (Item K V)
  | 0, _ => []
  | levels + 1, node => (List.range 64).flatMap (node.slotItems (itemsBelow levels))

variable {layout : ItemLayout} {hash : K → BitVec 64}

/-- The loop finds the first item of the slots from `lower` on, if its mask has exactly these,
the counter is that of the child nodes in front, and `refItem` is the item of a slot with none
in front of it. -/
theorem firstOfMask_eq {levels : Nat} {node : Node K V} (shape : Shape layout levels node)
    {findFirst : Node K V → Option (Option (Item K V))} {refItem : Nat → Option (Item K V)}
    {below : Node K V → List (Item K V)} {comboMask : BitVec 64} {lower : Nat}
    (mask : ∀ slot, comboMask.getLsbD slot =
      (decide (lower ≤ slot) && (node.nodeBitmap ||| node.itemBitmap).getLsbD slot))
    (ofChild : ∀ slot child, node.childAt slot = some child →
      findFirst child.2 = some (below child.2).head?)
    (ofItem : ∀ slot item, node.itemAt slot = some item →
      (∀ other, lower ≤ other → other < slot → node.itemBitmap.getLsbD other = false) →
      refItem slot = some item)
    {count slot nodeIndex : Nat} (whole : slot + count = 64) (inside : lower ≤ 64)
    (counted : nodeIndex = rank node.nodeBitmap (max lower slot))
    (noItem : ∀ other, lower ≤ other → other < slot → node.itemBitmap.getLsbD other = false) :
    node.firstOfMask findFirst refItem comboMask count slot nodeIndex =
      some ((List.range' (max lower slot) (64 - max lower slot)).flatMap
        (node.slotItems below)).head? := by
  induction count generalizing slot nodeIndex with
  | zero =>
    have done : max lower slot = 64 := by omega
    rw [firstOfMask, done]
    rfl
  | succ count ih =>
    rw [firstOfMask, mask slot, BitVec.getLsbD_or]
    rcases Nat.lt_or_ge slot lower with before | reached
    · -- the mask has no slot in front of `lower`
      have same : max lower (slot + 1) = max lower slot := by omega
      rw [decide_eq_false (by omega), Bool.false_and, if_neg Bool.false_ne_true, ← same]
      exact ih (by omega) (same ▸ counted) fun other above less => by omega
    · have here : max lower slot = slot := by omega
      have next : max lower (slot + 1) = slot + 1 := by omega
      have rest : List.range' slot (64 - slot) =
          slot :: List.range' (slot + 1) (64 - (slot + 1)) := by
        rw [← List.range'_succ]
        congr 1
        omega
      rw [here] at counted ⊢
      rw [decide_eq_true reached, Bool.true_and, rest, List.flatMap_cons, List.head?_append]
      have noItemNext : node.itemBitmap.getLsbD slot = false → ∀ other, lower ≤ other →
          other < slot + 1 → node.itemBitmap.getLsbD other = false := by
        intro clear other above less
        rcases Nat.lt_succ_iff_lt_or_eq.mp less with earlier | rfl
        · exact noItem other above earlier
        · exact clear
      cases shape.slotHolds slot with
      | item item set clear items children =>
        rw [set, Bool.or_true, if_pos rfl, if_pos rfl, ofItem slot item items noItem,
          slotItems, items]
        rfl
      | child child set clear items children =>
        have stored := children
        rw [childAt, PackedArray.get?_of_set set] at stored
        rw [set, Bool.true_or, if_pos rfl, clear, if_neg Bool.false_ne_true, counted, stored,
          slotItems, items, children]
        simp only [Option.bind_eq_bind, Option.bind_some, ofChild slot child children]
        cases (below child.2).head? with
        | some found => rfl
        | none =>
          have counted' : rank node.nodeBitmap slot + 1 =
              rank node.nodeBitmap (max lower (slot + 1)) := by
            rw [next, PackedArray.rank_succ, set]
            rfl
          have found := ih (by omega) counted' (noItemNext clear)
          rw [next] at found
          exact found
      | free clear itemClear items children =>
        have counted' : nodeIndex = rank node.nodeBitmap (max lower (slot + 1)) := by
          rw [next, PackedArray.rank_succ, clear]
          exact counted
        have found := ih (by omega) counted' (noItemNext itemClear)
        rw [next] at found
        rw [clear, itemClear, Bool.or_false, if_neg Bool.false_ne_true, found, slotItems,
          items, children]
        rfl

theorem findFirstItem_eq {levels pfx : Nat} {node : Node K V}
    (wf : WellFormed layout hash levels pfx node) :
    node.findFirstItem levels = some (itemsBelow levels node).head? := by
  induction levels generalizing pfx node with
  | zero => exact wf.elim
  | succ levels ih =>
    have shape := wf.shape
    refine (firstOfMask_eq shape ?_ (fun slot child children => ih (wf.2.2 slot child children))
      ?_ rfl (Nat.zero_le 64) rfl ?_).trans ?_
    · exact fun slot => rfl
    · intro slot item items noItem
      have set : node.itemBitmap.getLsbD slot = true := by
        rw [← Bool.not_eq_false]
        intro clear
        rw [(itemAt_eq_none_iff shape slot).mpr clear] at items
        cases items
      rw [itemAt, PackedArray.get?_of_set set,
        PackedArray.rank_eq_zero fun other less => noItem other (Nat.zero_le _) less] at items
      exact items
    · exact fun other _ less => absurd less (Nat.not_lt_zero other)
    · rw [itemsBelow, List.range_eq_range']
      rfl

variable {item : Item K V}

theorem prefixOf_of_mem_slotItems {levels pfx slot : Nat} {node : Node K V}
    {below : Node K V → List (Item K V)} (wf : WellFormed layout hash (levels + 1) pfx node)
    (owned : ∀ child, node.childAt slot = some child → ∀ item ∈ below child.2,
      prefixOf hash levels item.key = pfx * 64 + slot) (mem : item ∈ node.slotItems below slot) :
    prefixOf hash levels item.key = pfx * 64 + slot := by
  cases wf.shape.slotHolds slot with
  | item stored set clear items children =>
    rw [slotItems, items] at mem
    rw [List.mem_singleton.mp mem]
    exact wf.2.1 slot stored items
  | child child set clear items children =>
    rw [slotItems, items, children] at mem
    exact owned child children item mem
  | free clear itemClear items children =>
    rw [slotItems, items, children] at mem
    exact absurd mem List.not_mem_nil

theorem prefixOf_of_mem_itemsBelow {levels pfx : Nat} {node : Node K V}
    (wf : WellFormed layout hash levels pfx node) (mem : item ∈ itemsBelow levels node) :
    prefixOf hash levels item.key = pfx := by
  induction levels generalizing pfx node item with
  | zero => exact wf.elim
  | succ levels ih =>
    obtain ⟨slot, inRange, inSlot⟩ := List.mem_flatMap.mp mem
    have longer := prefixOf_of_mem_slotItems wf
      (fun child children item below => ih (wf.2.2 slot child children) below) inSlot
    have low := List.mem_range.mp inRange
    rw [prefixOf_succ, longer]
    omega

theorem slotItems_owned {levels pfx slot : Nat} {node : Node K V}
    (wf : WellFormed layout hash (levels + 1) pfx node)
    (mem : item ∈ node.slotItems (itemsBelow levels) slot) :
    prefixOf hash levels item.key = pfx * 64 + slot :=
  prefixOf_of_mem_slotItems wf
    (fun child children _ below => prefixOf_of_mem_itemsBelow (wf.2.2 slot child children) below) mem

theorem itemsBelow_sorted {levels pfx : Nat} {node : Node K V}
    (wf : WellFormed layout hash levels pfx node) :
    (itemsBelow levels node).Pairwise fun first second => hash first.key < hash second.key := by
  induction levels generalizing pfx node with
  | zero => exact wf.elim
  | succ levels ih =>
    rw [itemsBelow, List.pairwise_flatMap]
    constructor
    · intro slot _
      cases wf.shape.slotHolds slot with
      | item stored set clear items children =>
        rw [slotItems, items]
        exact List.pairwise_singleton _ _
      | child child set clear items children =>
        rw [slotItems, items, children]
        exact ih (wf.2.2 slot child children)
      | free clear itemClear items children =>
        rw [slotItems, items, children]
        exact List.Pairwise.nil
    · refine List.pairwise_lt_range.imp fun less first inFirst second inSecond => ?_
      have owned := slotItems_owned wf inFirst
      have owned' := slotItems_owned wf inSecond
      refine @hash_lt_of_prefix_lt _ _ levels _ _ ?_
      omega

theorem mem_itemsBelow_iff [DecidableEq K] {levels pfx : Nat} {node : Node K V}
    (wf : WellFormed layout hash levels pfx node) (item : Item K V) :
    item ∈ itemsBelow levels node ↔
      prefixOf hash levels item.key = pfx ∧ found hash levels node item.key = some item := by
  induction levels generalizing pfx node with
  | zero => exact wf.elim
  | succ levels ih =>
    have inSlot : ∀ slot, slot < 64 → prefixOf hash levels item.key = pfx * 64 + slot →
        (item ∈ node.slotItems (itemsBelow levels) slot ↔
          found hash (levels + 1) node item.key = some item) := by
      intro slot low owned
      cases wf.shape.slotHolds slot with
      | item stored set clear items children =>
        rw [found_item wf owned low items, slotItems, items, single]
        constructor
        · intro mem
          rw [List.mem_singleton.mp mem, if_pos rfl]
        · intro isFound
          split at isFound
          · rw [← Option.some.inj isFound]
            exact List.mem_singleton_self stored
          · cases isFound
      | child child set clear items children =>
        rw [found_child wf owned low items children, slotItems, items, children]
        exact (ih (wf.2.2 slot child children)).trans (and_iff_right owned)
      | free clear itemClear items children =>
        rw [found_free wf owned low items children, slotItems, items, children]
        simp
    rw [itemsBelow, List.mem_flatMap]
    constructor
    · rintro ⟨slot, inRange, mem⟩
      have low := List.mem_range.mp inRange
      have owned := slotItems_owned wf mem
      refine ⟨?_, (inSlot slot low owned).mp mem⟩
      rw [prefixOf_succ, owned]
      omega
    · rintro ⟨owned, isFound⟩
      have low : prefixOf hash levels item.key % 64 < 64 := Nat.mod_lt _ (by decide)
      exact ⟨_, List.mem_range.mpr low,
        (inSlot _ low (prefixOf_eq hash owned)).mpr isFound⟩

/-! ## The next item -/

/-- Among keys of one prefix the remaining bits are in the order of the hashes. -/
theorem remaining_lt_iff {levels : Nat} (bound : 6 * levels ≤ 64) {key key' : K}
    (samePrefix : prefixOf hash levels key = prefixOf hash levels key') :
    remaining hash levels key < remaining hash levels key' ↔ hash key < hash key' := by
  have whole : 2 ^ 64 = 2 ^ (6 * levels) * 2 ^ (64 - 6 * levels) := by
    rw [← Nat.pow_add]
    congr 1
    omega
  have value : ∀ key, (remaining hash levels key).toNat =
      (hash key).toNat % 2 ^ (6 * levels) * 2 ^ (64 - 6 * levels) := by
    intro key
    rw [remaining, BitVec.toNat_shiftLeft, Nat.shiftLeft_eq, whole, Nat.mul_mod_mul_right]
  unfold prefixOf at samePrefix
  have high := Nat.div_add_mod (hash key).toNat (2 ^ (6 * levels))
  have high' := Nat.div_add_mod (hash key').toNat (2 ^ (6 * levels))
  rw [samePrefix] at high
  rw [BitVec.lt_def, BitVec.lt_def, value, value,
    Nat.mul_lt_mul_right (Nat.two_pow_pos _)]
  omega

theorem find?_eq_head? {α : Type} {list : List α} {test : α → Bool}
    (all : ∀ entry ∈ list, test entry = true) : list.find? test = list.head? := by
  cases list with
  | nil => rfl
  | cons entry rest => rw [List.find?_cons, all entry List.mem_cons_self, List.head?_cons]

section Next

variable {levels pfx slot : Nat} {node : Node K V} {key : K}

theorem nextInChild_of_clear
    {findNext : Node K V → BitVec 64 → Option (Option (Item K V))} {hashBits : BitVec 64}
    (clear : node.nodeBitmap.getLsbD slot = false) :
    node.nextInChild findNext (bit 64 slot) hashBits = some none := by
  rw [nextInChild, if_neg (not_not_intro ((PackedArray.and_bit_eq_zero _ slot).mpr clear))]

theorem nextHere_of_clear {hashBits : BitVec 64}
    (clear : node.itemBitmap.getLsbD slot = false) :
    node.nextHere hash (bit 64 slot) hashBits = some none := by
  rw [nextHere, if_neg (not_not_intro ((PackedArray.and_bit_eq_zero _ slot).mpr clear))]

theorem nextHere_eq (wf : WellFormed layout hash (levels + 1) pfx node)
    (owned : prefixOf hash (levels + 1) key = pfx) (low : slot < 64) {item : Item K V}
    (items : node.itemAt slot = some item) (set : node.itemBitmap.getLsbD slot = true) :
    node.nextHere hash (bit 64 slot) (remaining hash (levels + 1) key) =
      some (if hash key < hash item.key then some item else none) := by
  have consumed := wf.shape.consumed
  have itemBits : hash item.key <<< node.consumedHashBits =
      remaining hash (levels + 1) item.key := by
    rw [remaining]
    congr 1
    omega
  have samePrefix : prefixOf hash (levels + 1) key = prefixOf hash (levels + 1) item.key := by
    rw [owned, prefixOf_succ, wf.2.1 slot item items]
    omega
  rw [nextHere, if_pos ((PackedArray.and_bit_ne_zero _ slot).mpr set),
    refItemBit_of_item low items]
  simp only [Option.bind_eq_bind, Option.bind_some, itemBits,
    remaining_lt_iff wf.bound samePrefix, Option.pure_def]

theorem itemAt_lt {item : Item K V} (items : node.itemAt slot = some item) : slot < 64 := by
  by_contra outside
  rw [itemAt, PackedArray.get?_of_clear
    (BitVec.getLsbD_of_ge _ _ (Nat.le_of_not_lt outside))] at items
  cases items

theorem firstAfter_eq (wf : WellFormed layout hash (levels + 1) pfx node) (low : slot < 64) :
    node.firstOfMask (findFirstItem levels) (fun other => node.refItemBit (bit 64 other))
        ((node.nodeBitmap ||| node.itemBitmap) &&& ~~~((bit 64 slot <<< 1) - 1#64)) 64 0
        (popcount (node.nodeBitmap &&& ~~~((node.nodeBitmap ||| node.itemBitmap) &&&
          ~~~((bit 64 slot <<< 1) - 1#64)))) =
      some ((List.range' (slot + 1) (64 - (slot + 1))).flatMap
        (node.slotItems (itemsBelow levels))).head? := by
  have shape := wf.shape
  have bits : ∀ other, ((node.nodeBitmap ||| node.itemBitmap) &&&
      ~~~((bit 64 slot <<< 1) - 1#64)).getLsbD other =
        (decide (slot + 1 ≤ other) && (node.nodeBitmap ||| node.itemBitmap).getLsbD other) := by
    intro other
    rw [BitVec.getLsbD_and, PackedArray.getLsbD_not_bit_shiftLeft_sub_one low, Bool.and_comm]
    by_cases inside : other < 64
    · rw [decide_eq_true inside, Bool.true_and]
      rfl
    · rw [BitVec.getLsbD_of_ge _ _ (Nat.le_of_not_lt inside), Bool.and_false, Bool.and_false]
  have counted : popcount (node.nodeBitmap &&& ~~~((node.nodeBitmap ||| node.itemBitmap) &&&
      ~~~((bit 64 slot <<< 1) - 1#64))) = rank node.nodeBitmap (slot + 1) := by
    refine PackedArray.popcount_of_below (by omega) fun other => ?_
    rw [BitVec.getLsbD_and, BitVec.getLsbD_not, bits, BitVec.getLsbD_or]
    cases set : node.nodeBitmap.getLsbD other with
    | false => rw [Bool.false_and, Bool.false_and]
    | true =>
      have inside : other < 64 := BitVec.lt_of_getLsbD set
      rw [decide_eq_true inside, Bool.true_or, Bool.and_true, Bool.true_and, Bool.true_and,
        Bool.true_and, ← decide_not]
      exact decide_eq_decide.mpr (by omega)
  have start : max (slot + 1) 0 = slot + 1 := Nat.max_eq_left (Nat.zero_le _)
  refine (firstOfMask_eq shape bits
    (fun other child children => findFirstItem_eq (wf.2.2 other child children))
    (fun other item items _ => refItemBit_of_item (itemAt_lt items) items) rfl (by omega)
    (counted.trans (by rw [start])) ?_).trans (by rw [start])
  exact fun other _ less => absurd less (Nat.not_lt_zero other)

theorem findNextItem_eq (wf : WellFormed layout hash levels pfx node)
    (owned : prefixOf hash levels key = pfx) :
    node.findNextItem hash levels (remaining hash levels key) =
      some ((itemsBelow levels node).find? fun item => decide (hash key < hash item.key)) := by
  induction levels generalizing pfx node with
  | zero => exact wf.elim
  | succ levels ih =>
    obtain ⟨slot, slotKey⟩ : ∃ slot, prefixOf hash levels key % 64 = slot := ⟨_, rfl⟩
    have low : slot < 64 := by
      rw [← slotKey]
      exact Nat.mod_lt _ (by decide)
    have longer := prefixOf_eq hash owned
    rw [slotKey] at longer
    have split : List.range 64 =
        List.range' 0 slot ++ slot :: List.range' (slot + 1) (64 - (slot + 1)) := by
      rw [← List.range'_succ, List.range_eq_range',
        show 64 - (slot + 1) + 1 = 64 - slot by omega]
      have joined : List.range' 0 slot ++ List.range' (0 + slot) (64 - slot) =
          List.range' 0 (slot + (64 - slot)) := List.range'_append_1
      rw [Nat.zero_add, Nat.add_sub_cancel' (Nat.le_of_lt low)] at joined
      exact joined.symm
    have before : ((List.range' 0 slot).flatMap (node.slotItems (itemsBelow levels))).find?
        (fun item => decide (hash key < hash item.key)) = none := by
      refine List.find?_eq_none.mpr fun item mem => ?_
      obtain ⟨other, inRange, inSlot⟩ := List.mem_flatMap.mp mem
      have less := (List.mem_range'_1.mp inRange).2
      have lower : hash item.key < hash key := by
        refine @hash_lt_of_prefix_lt _ _ levels _ _ ?_
        rw [slotItems_owned wf inSlot, longer]
        omega
      simpa using BitVec.le_of_lt lower
    have behind : ((List.range' (slot + 1) (64 - (slot + 1))).flatMap
        (node.slotItems (itemsBelow levels))).find?
          (fun item => decide (hash key < hash item.key)) =
        ((List.range' (slot + 1) (64 - (slot + 1))).flatMap
          (node.slotItems (itemsBelow levels))).head? := by
      refine find?_eq_head? fun item mem => ?_
      obtain ⟨other, inRange, inSlot⟩ := List.mem_flatMap.mp mem
      have above := (List.mem_range'_1.mp inRange).1
      refine decide_eq_true (@hash_lt_of_prefix_lt _ _ levels _ _ ?_)
      rw [slotItems_owned wf inSlot, longer]
      omega
    rw [findNextItem, itemsBelow, split, List.flatMap_append, List.flatMap_cons,
      List.find?_append, List.find?_append, before, behind, Option.none_or]
    simp only [selectBit_eq, slotOf_remaining hash wf.bound key, slotKey, firstAfter_eq wf low]
    cases wf.shape.slotHolds slot with
    | item item set clear items children =>
      rw [nextInChild_of_clear clear, nextHere_eq wf owned low items set, slotItems, items]
      by_cases less : hash key < hash item.key
      · simp [less]
      · simp [less]
    | child child set clear items children =>
      rw [nextInChild, if_pos ((PackedArray.and_bit_ne_zero _ slot).mpr set),
        refNodeBit_of_child low children, nextHere_of_clear clear, slotItems, items, children]
      simp only [Option.bind_eq_bind, Option.bind_some, remaining_succ hash wf.bound key,
        ih (wf.2.2 slot child children) longer]
      cases (itemsBelow levels child.2).find? fun item => decide (hash key < hash item.key) with
      | none => rfl
      | some found => rfl
    | free clear itemClear items children =>
      rw [nextInChild_of_clear clear, nextHere_of_clear itemClear, slotItems, items, children]
      rfl

end Next

end Node

/-! ## The whole trie -/

variable {layout : ItemLayout} {hash : K → BitVec 64}

/-- The items below a root node. -/
def rootItems (trie : V8gHashTrie K V) (index : Fin 16) : List (Item K V) :=
  match (trie.rootNodes index).2 with
  | none => []
  | some node => Node.itemsBelow hashLevels node

/-- The items of the trie in the order of their slots. -/
def orderedItems (trie : V8gHashTrie K V) : List (Item K V) :=
  (List.finRange 16).flatMap trie.rootItems

variable {trie : V8gHashTrie K V}

theorem rootItems_owned (wf : WellFormed layout hash trie) {index : Fin 16} {item : Item K V}
    (mem : item ∈ trie.rootItems index) :
    prefixOf hash hashLevels item.key = index.val := by
  unfold rootItems at mem
  rcases holds : trie.rootNodes index with ⟨first, _ | node⟩
  · rw [holds] at mem
    exact absurd mem List.not_mem_nil
  · rw [holds] at mem
    exact Node.prefixOf_of_mem_itemsBelow (wf index first node holds) mem

theorem orderedItems_sorted (wf : WellFormed layout hash trie) :
    trie.orderedItems.Pairwise fun first second => hash first.key < hash second.key := by
  rw [orderedItems, List.pairwise_flatMap]
  constructor
  · intro index _
    unfold rootItems
    rcases holds : trie.rootNodes index with ⟨first, _ | node⟩
    · exact List.Pairwise.nil
    · exact Node.itemsBelow_sorted (wf index first node holds)
  · refine (List.pairwise_lt_finRange 16).imp fun less first inFirst second inSecond => ?_
    refine @hash_lt_of_prefix_lt _ _ hashLevels _ _ ?_
    rw [rootItems_owned wf inFirst, rootItems_owned wf inSecond]
    exact less

theorem mem_orderedItems_iff [DecidableEq K] (wf : WellFormed layout hash trie) (item : Item K V) :
    item ∈ trie.orderedItems ↔ trie.find hash item.key = some (some item) := by
  have inRoot : item ∈ trie.rootItems (rootIndex (hash item.key)) ↔
      trie.find hash item.key = some (some item) := by
    unfold rootItems
    rcases holds : trie.rootNodes (rootIndex (hash item.key)) with ⟨first, _ | node⟩
    · rw [find_none holds]
      simp
    · rw [find_some holds]
      refine (Node.mem_itemsBelow_iff (wf _ first node holds) item).trans ?_
      rw [and_iff_right (rootIndex_eq hash item.key).symm, Node.found, Option.join_eq_some_iff]
  rw [← inRoot, orderedItems, List.mem_flatMap]
  constructor
  · rintro ⟨index, -, mem⟩
    have here : rootIndex (hash item.key) = index := by
      apply Fin.ext
      rw [rootIndex_eq, rootItems_owned wf mem]
    rw [here]
    exact mem
  · exact fun mem => ⟨_, List.mem_finRange _, mem⟩

theorem firstOfRoots_eq (wf : WellFormed layout hash trie) (indices : List (Fin 16)) :
    trie.firstOfRoots indices = some (indices.flatMap trie.rootItems).head? := by
  induction indices with
  | nil => rfl
  | cons index rest ih =>
    rw [firstOfRoots, List.flatMap_cons, List.head?_append, rootItems]
    rcases holds : trie.rootNodes index with ⟨first, _ | node⟩
    · exact ih
    · simp only [Node.findFirstItem_eq (wf index first node holds), Option.bind_eq_bind,
        Option.bind_some]
      cases (Node.itemsBelow hashLevels node).head? with
      | none => exact ih
      | some found => rfl

theorem findFirst_eq (wf : WellFormed layout hash trie) :
    trie.findFirst = some trie.orderedItems.head? :=
  firstOfRoots_eq wf _

theorem finRange_split : ∀ index : Fin 16, List.finRange 16 =
    (List.finRange 16).take index.val ++ index :: (List.finRange 16).drop (index.val + 1) := by
  decide

theorem lt_of_mem_take_finRange :
    ∀ index : Fin 16, ∀ other ∈ (List.finRange 16).take index.val, other < index := by
  decide

theorem lt_of_mem_drop_finRange :
    ∀ index : Fin 16, ∀ other ∈ (List.finRange 16).drop (index.val + 1), index < other := by
  decide

theorem findNext_eq (wf : WellFormed layout hash trie) (key : K) :
    trie.findNext hash key =
      some (trie.orderedItems.find? fun item => decide (hash key < hash item.key)) := by
  obtain ⟨index, indexKey⟩ : ∃ index, rootIndex (hash key) = index := ⟨_, rfl⟩
  have owned : prefixOf hash hashLevels key = index.val := by rw [← indexKey, rootIndex_eq]
  have before : (((List.finRange 16).take index.val).flatMap trie.rootItems).find?
      (fun item => decide (hash key < hash item.key)) = none := by
    refine List.find?_eq_none.mpr fun item mem => ?_
    obtain ⟨other, inFront, inRoot⟩ := List.mem_flatMap.mp mem
    have lower : hash item.key < hash key := by
      refine @hash_lt_of_prefix_lt _ _ hashLevels _ _ ?_
      rw [rootItems_owned wf inRoot, owned]
      exact lt_of_mem_take_finRange index other inFront
    simpa using BitVec.le_of_lt lower
  have behind : (((List.finRange 16).drop (index.val + 1)).flatMap trie.rootItems).find?
      (fun item => decide (hash key < hash item.key)) =
      (((List.finRange 16).drop (index.val + 1)).flatMap trie.rootItems).head? := by
    refine Node.find?_eq_head? fun item mem => ?_
    obtain ⟨other, after, inRoot⟩ := List.mem_flatMap.mp mem
    refine decide_eq_true (@hash_lt_of_prefix_lt _ _ hashLevels _ _ ?_)
    rw [rootItems_owned wf inRoot, owned]
    exact lt_of_mem_drop_finRange index other after
  rw [findNext, orderedItems, finRange_split index, List.flatMap_append, List.flatMap_cons,
    List.find?_append, List.find?_append, before, behind, Option.none_or, ← finRange_split index]
  simp only [indexKey, firstOfRoots_eq wf, rootItems]
  rcases holds : trie.rootNodes index with ⟨first, _ | node⟩
  · rfl
  · have next : node.findNextItem hash hashLevels (hash key <<< rootNodesLog2) = _ :=
      Node.findNextItem_eq (wf index first node holds) owned
    simp only [next, Option.bind_eq_bind, Option.bind_some]
    cases (Node.itemsBelow hashLevels node).find? fun item => decide (hash key < hash item.key) with
    | none => rfl
    | some found => rfl

/-! ## Enumeration -/

theorem enumerate_eq (wf : WellFormed layout hash trie) {front rest : List (Item K V)}
    (split : trie.orderedItems = front ++ rest) {fuel : Nat} (enough : rest.length < fuel) :
    trie.enumerate hash fuel rest.head? = some rest := by
  have sorted := orderedItems_sorted wf
  induction rest generalizing front fuel with
  | nil =>
    obtain ⟨less, rfl⟩ := Nat.exists_eq_add_of_lt enough
    rfl
  | cons item rest ih =>
    obtain ⟨fuel, rfl⟩ : ∃ lower, fuel = lower + 1 := ⟨fuel - 1, by omega⟩
    have next : trie.findNext hash item.key = some rest.head? := by
      rw [split] at sorted
      obtain ⟨-, restSorted, apart⟩ := List.pairwise_append.mp sorted
      have notBefore : front.find? (fun other => decide (hash item.key < hash other.key)) =
          none := by
        refine List.find?_eq_none.mpr fun other mem => ?_
        simpa using BitVec.le_of_lt (apart other mem item List.mem_cons_self)
      have allBehind : rest.find? (fun other => decide (hash item.key < hash other.key)) =
          rest.head? :=
        Node.find?_eq_head? fun other mem =>
          decide_eq_true ((List.pairwise_cons.mp restSorted).1 other mem)
      rw [findNext_eq wf, split, List.find?_append, notBefore, Option.none_or, List.find?_cons,
        decide_eq_false (BitVec.lt_irrefl _), allBehind]
    have advanced : trie.orderedItems = (front ++ [item]) ++ rest := by
      rw [split, List.append_assoc]
      rfl
    have later := ih advanced (Nat.lt_of_succ_lt_succ enough)
    simp only [List.head?_cons, enumerate, next, Option.bind_eq_bind, Option.bind_some, later]
    rfl

/-- In a sorted list the first item with a greater hash is the least such item. -/
theorem find?_next_iff {items : List (Item K V)}
    (sorted : items.Pairwise fun first second => hash first.key < hash second.key)
    {key : K} {item : Item K V} :
    items.find? (fun item => decide (hash key < hash item.key)) = some item ↔
      item ∈ items ∧ hash key < hash item.key ∧
        ∀ other ∈ items, hash key < hash other.key → hash item.key ≤ hash other.key := by
  have least : ∀ {found}, items.find? (fun item => decide (hash key < hash item.key)) =
      some found → hash key < hash found.key ∧
        ∀ other ∈ items, hash key < hash other.key →
          other = found ∨ hash found.key < hash other.key := by
    intro found finds
    obtain ⟨greater, front, rest, rfl, notBefore⟩ := List.find?_eq_some_iff_append.mp finds
    obtain ⟨-, restSorted, -⟩ := List.pairwise_append.mp sorted
    refine ⟨of_decide_eq_true greater, fun other mem otherGreater => ?_⟩
    rcases List.mem_append.mp mem with inFront | inRest
    · have less := notBefore other inFront
      simp [otherGreater] at less
    · rcases List.mem_cons.mp inRest with same | behind
      · exact Or.inl same
      · exact Or.inr ((List.pairwise_cons.mp restSorted).1 other behind)
  constructor
  · intro finds
    obtain ⟨greater, first⟩ := least finds
    refine ⟨List.mem_of_find?_eq_some finds, greater, fun other mem otherGreater => ?_⟩
    rcases first other mem otherGreater with rfl | less
    · exact BitVec.le_refl _
    · exact BitVec.le_of_lt less
  · rintro ⟨mem, greater, minimal⟩
    cases finds : items.find? fun item => decide (hash key < hash item.key) with
    | none => exact absurd (decide_eq_true greater) (List.find?_eq_none.mp finds item mem)
    | some found =>
      obtain ⟨foundGreater, first⟩ := least finds
      rcases first item mem greater with rfl | less
      · rfl
      · have notLess := minimal found (List.mem_of_find?_eq_some finds) foundGreater
        exact absurd less (BitVec.not_lt.mpr notLess)

theorem length_orderedItems [DecidableEq K] {operations : List (Operation K V)}
    (reflects : Reflects layout hash operations trie) :
    trie.orderedItems.length = trie.size := by
  have wf := reflects.wellFormed
  have distinct : (trie.orderedItems.map Item.key).Nodup := by
    refine List.pairwise_map.mpr ((orderedItems_sorted wf).imp fun less same => ?_)
    rw [same] at less
    exact BitVec.lt_irrefl _ less
  have keys : storedKeys hash trie = ((trie.orderedItems.map Item.key).toFinset : Set K) := by
    ext key
    rw [storedKeys, Set.mem_ofPred_eq, Finset.mem_coe, List.mem_toFinset, List.mem_map]
    obtain ⟨found, finds⟩ := find_total wf key
    rw [finds]
    constructor
    · intro stored
      cases found with
      | none => exact absurd rfl stored
      | some item =>
        have here := ((reflects.lookups key item).mp finds).1
        refine ⟨item, (mem_orderedItems_iff wf item).mpr ?_, here⟩
        rw [here]
        exact finds
    · rintro ⟨item, mem, rfl⟩ absent
      rw [(mem_orderedItems_iff wf item).mp mem] at finds
      rw [← finds] at absent
      cases absent
  rw [reflects.size, keys, Set.ncard_coe_finset, List.toFinset_card_of_nodup distinct,
    List.length_map]

/-- After any run the loop over `findFirst` and `findNext` ends after the stored items in
increasing order of their hashes, and from any key `findNext` returns the stored item with the
least greater hash. -/
theorem run_enumerate [DecidableEq K] (unique : Function.Injective hash)
    (operations : List (Operation K V)) :
    ∃ trie, run layout hash operations = some trie ∧
      (∃ first items, trie.findFirst = some first ∧
        trie.enumerate hash (trie.size + 1) first = some items ∧
        items.Pairwise (fun item later => hash item.key < hash later.key) ∧
        ∀ item, item ∈ items ↔ LastInsert operations item) ∧
      ∀ key, ∃ next, trie.findNext hash key = some next ∧
        (∀ item, next = some item ↔ LastInsert operations item ∧ hash key < hash item.key ∧
          ∀ other, LastInsert operations other → hash key < hash other.key →
            hash item.key ≤ hash other.key) ∧
        (next = none ↔ ∀ other, LastInsert operations other → ¬hash key < hash other.key) := by
  obtain ⟨trie, result, reflects⟩ : ∃ trie, run layout hash operations = some trie ∧
      Reflects layout hash operations trie := run_reflects unique operations
  have wf := reflects.wellFormed
  have sorted := orderedItems_sorted wf
  have stored : ∀ item, item ∈ trie.orderedItems ↔ LastInsert operations item := by
    intro item
    rw [mem_orderedItems_iff wf, reflects.lookups, and_iff_right rfl]
  refine ⟨trie, result, ⟨_, trie.orderedItems, findFirst_eq wf, ?_, sorted, stored⟩, ?_⟩
  · have whole : trie.orderedItems = [] ++ trie.orderedItems := rfl
    refine enumerate_eq wf whole ?_
    rw [length_orderedItems reflects]
    exact Nat.lt_succ_self _
  · intro key
    refine ⟨_, findNext_eq wf key, fun item => ?_, ?_⟩
    · rw [find?_next_iff sorted]
      simp only [stored]
    · rw [List.find?_eq_none]
      simp only [stored, decide_eq_true_iff]

/-- Keys under one root node and under another, one of them erased. -/
def spreadOperations : List (Operation (BitVec 64) Nat) :=
  [.insert 1 64 10, .insert 1 5 20, .copy, .insert 2 (7#64 <<< 60) 30, .insert 2 6 40, .erase 3 5]

theorem spreadOperations_enumerate :
    ∃ trie, run wordKeyLayout id spreadOperations = some trie ∧
      (∃ first items, trie.findFirst = some first ∧
        trie.enumerate id (trie.size + 1) first = some items ∧
        items.Pairwise (fun item later => id item.key < id later.key) ∧
        ∀ item, item ∈ items ↔ LastInsert spreadOperations item) ∧
      ∀ key, ∃ next, trie.findNext id key = some next ∧
        (∀ item, next = some item ↔ LastInsert spreadOperations item ∧ id key < id item.key ∧
          ∀ other, LastInsert spreadOperations other → id key < id other.key →
            id item.key ≤ id other.key) ∧
        (next = none ↔ ∀ other, LastInsert spreadOperations other → ¬id key < id other.key) :=
  run_enumerate Function.injective_id spreadOperations

end Voxen.Common.V8gHashTrie
