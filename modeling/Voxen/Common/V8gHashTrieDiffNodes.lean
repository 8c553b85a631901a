import Voxen.Common.V8gHashTrieDiff

/-!
# Visiting a node against an item or another node

An item that is alone on its side comes up in the loop over the slots of the node:
at its own slot, or before the first visited slot after it, or at the end.
-/

namespace Voxen.Common.V8gHashTrie

open PackedArray (popcount rank bit)

variable {K V σ : Type}

/-- Work that one step of a loop leaves to the next ones is done by the end. -/
theorem flatMap_carry {α : Type} {acts wanted carried : Nat → List α}
    (step : ∀ slot, slot < 64 → acts slot ++ carried (slot + 1) = carried slot ++ wanted slot)
    (count slot : Nat) (whole : slot + count = 64) :
    (List.range' slot count).flatMap acts ++ carried 64 =
      carried slot ++ (List.range' slot count).flatMap wanted := by
  induction count generalizing slot with
  | zero =>
    rw [← whole]
    exact (List.append_nil _).symm
  | succ count ih =>
    rw [List.range'_succ, List.flatMap_cons, List.flatMap_cons, List.append_assoc,
      ih (slot + 1) (by omega), ← List.append_assoc, step slot (by omega), List.append_assoc]

namespace Node

variable [DecidableEq K] {hash : K → BitVec 64} {layout : ItemLayout}

/-! ### An item against a node -/

/-- A slot from that of the item on has been visited. -/
def visitedFrom (mask : BitVec 64) (itemSlot slot : Nat) : Bool :=
  decide (rank mask itemSlot < rank mask slot)

/-- The call that is due for the item alone. -/
def lateCall (mask : BitVec 64) (item : Item K V) (itemSlot slot : Nat) : List (Call K V) :=
  if itemSlot < slot ∧ visitedFrom mask itemSlot slot = false then [(none, some item)] else []

variable {itemSlot slot : Nat} {mask : BitVec 64}

theorem visitedFrom_before (before : slot ≤ itemSlot) :
    visitedFrom mask itemSlot slot = false :=
  decide_eq_false (Nat.not_lt.mpr (PackedArray.rank_mono mask before))

theorem visitedFrom_succ_set (after : itemSlot ≤ slot) (set : mask.getLsbD slot = true) :
    visitedFrom mask itemSlot (slot + 1) = true := by
  refine decide_eq_true ?_
  have kept := PackedArray.rank_mono mask after
  rw [PackedArray.rank_succ, set, Bool.toNat_true]
  omega

theorem visitedFrom_succ_clear (clear : mask.getLsbD slot = false) :
    visitedFrom mask itemSlot (slot + 1) = visitedFrom mask itemSlot slot := by
  unfold visitedFrom
  rw [PackedArray.rank_succ, clear]
  rfl

omit [DecidableEq K] in
theorem lateCall_step {item : Item K V} {wanted : List (Call K V)}
    (unset : mask.getLsbD slot = false →
      wanted = if slot = itemSlot then [(none, some item)] else []) :
    (if mask.getLsbD slot then lateCall mask item itemSlot slot ++ wanted else []) ++
        lateCall mask item itemSlot (slot + 1) =
      lateCall mask item itemSlot slot ++ wanted := by
  unfold lateCall
  cases set : mask.getLsbD slot with
  | true =>
    rw [if_pos rfl]
    by_cases after : itemSlot ≤ slot
    · rw [visitedFrom_succ_set after set]
      simp
    · rw [if_neg (fun due : itemSlot < slot + 1 ∧ _ => after (Nat.le_of_lt_succ due.1))]
      exact List.append_nil _
  | false =>
    rw [if_neg Bool.false_ne_true, visitedFrom_succ_clear set, unset set]
    rcases Nat.lt_trichotomy slot itemSlot with before | rfl | after
    · rw [if_neg (by omega), if_neg (by omega), if_neg (by omega)]
    · rw [if_pos ⟨Nat.lt_succ_self _, visitedFrom_before (Nat.le_refl _)⟩,
        if_neg (fun due => Nat.lt_irrefl _ due.1), if_pos rfl]
    · rw [if_neg (Nat.ne_of_gt after), List.append_nil]
      simp [after, Nat.lt_succ_of_lt after]

/-- One slot of the loop makes the call that is due and those of the slot. -/
theorem visitDiffItemSlot_calls {levels : Nat} {node : Node K V}
    (shape : Shape layout (levels + 1) node) {visitor : Visitor σ K V} {item : Item K V}
    {visitChild : Node K V → σ → Option (σ × Bool)} {calls : List (Call K V)}
    (set : (node.nodeBitmap ||| node.itemBitmap).getLsbD slot = true) (here : slot = itemSlot →
      (∀ child, node.childAt slot = some child → ∀ state,
        visitChild child.2 state = some (runCalls visitor calls state)) ∧
      ∀ stored, node.itemAt slot = some stored → ∀ state,
        visitDiffItemOrdered hash visitor state stored item = runCalls visitor calls state)
    (elsewhere : slot ≠ itemSlot →
      (∀ child, node.childAt slot = some child → ∀ state,
        visitUnary (fun state callee => visitor state (some callee) none) levels child.2 state =
          some (runCalls visitor calls state)) ∧
      ∀ stored, node.itemAt slot = some stored → ∀ state,
        visitor state (some stored) none = runCalls visitor calls state) (state : σ) :
    let visited := visitedFrom (node.nodeBitmap ||| node.itemBitmap) itemSlot
    let due := lateCall (node.nodeBitmap ||| node.itemBitmap) item itemSlot slot
    ∃ rest, visitDiffItemSlot hash visitor item levels visitChild node itemSlot slot
        (state, (node.indices slot).1, (node.indices slot).2, visited slot) =
        some (((runCalls visitor (due ++ calls) state).1, rest),
          (runCalls visitor (due ++ calls) state).2) ∧
      ((runCalls visitor (due ++ calls) state).2 = true →
        rest = ((node.indices (slot + 1)).1, (node.indices (slot + 1)).2, visited (slot + 1))) := by
  intro visited due
  unfold visitDiffItemSlot
  dsimp only
  by_cases same : slot = itemSlot
  · obtain ⟨ofChild, ofItem⟩ := here same
    have nothing : due = [] := if_neg fun due => Nat.ne_of_gt due.1 same
    rw [if_pos same, visitSlot_calls shape set ofChild ofItem, nothing, List.nil_append]
    refine ⟨_, rfl, fun _ => ?_⟩
    rw [show visited (slot + 1) = true from visitedFrom_succ_set (Nat.le_of_eq same.symm) set]
  · obtain ⟨ofChild, ofItem⟩ := elsewhere same
    have first : (if slot > itemSlot ∧ ¬ visited slot then visitor state none (some item)
        else (state, true)) = runCalls visitor due state := by
      by_cases isDue : slot > itemSlot ∧ ¬ visited slot
      · rw [if_pos isDue, show due = [(none, some item)] from
          if_pos ⟨isDue.1, by simpa using isDue.2⟩, runCalls_single]
      · rw [if_neg isDue, show due = [] from
          if_neg fun due => isDue ⟨due.1, by simpa using due.2⟩]
        rfl
    have next : (visited slot || decide (slot > itemSlot)) = visited (slot + 1) := by
      rcases Nat.lt_or_gt_of_ne same with before | after
      · rw [show visited (slot + 1) = false from visitedFrom_before before,
          show visited slot = false from visitedFrom_before (Nat.le_of_lt before)]
        exact decide_eq_false (Nat.not_lt.mpr (Nat.le_of_lt before))
      · rw [show visited (slot + 1) = true from visitedFrom_succ_set (Nat.le_of_lt after) set,
          decide_eq_true after, Bool.or_true]
    rw [if_neg same, first, next, runCalls_append]
    rcases called : runCalls visitor due state with ⟨after, _ | _⟩
    · exact ⟨_, rfl, nofun⟩
    · dsimp only
      rw [if_neg (not_not_intro rfl), visitSlot_calls shape set ofChild ofItem]
      exact ⟨_, rfl, fun _ => rfl⟩

omit [DecidableEq K] in
theorem itemSlot_eq {levels pfx : Nat} {node : Node K V}
    (wf : WellFormed layout hash (levels + 1) pfx node) (key : K) :
    ((hash key <<< node.consumedHashBits) >>> (64 - 6)).toNat = prefixOf hash levels key % 64 := by
  have depth := wf.shape.consumed
  rw [← slotOf_remaining hash wf.bound, show node.consumedHashBits = 64 - 6 * (levels + 1) by omega]
  rfl

/-- The calls wanted at one slot of a node against an item of the same prefix. -/
theorem diffItemSlot_calls (unique : Function.Injective hash) {levels pfx slot : Nat}
    {node : Node K V} (wf : WellFormed layout hash (levels + 1) pfx node) {item : Item K V}
    (owned : prefixOf hash (levels + 1) item.key = pfx) (low : slot < 64)
    (below : slot = prefixOf hash levels item.key % 64 →
      ∀ child, node.childAt slot = some child → ∃ keys,
        DiffKeys hash (fun key => prefixOf hash levels key = pfx * 64 + slot)
          (found hash levels child.2) (single item) keys ∧
        ∀ (visitor : Visitor σ K V) state,
          visitDiffItem hash visitor item levels child.2 state =
            some (runCalls visitor (diffCalls (found hash levels child.2) (single item) keys)
              state)) :
    ∃ keys, DiffKeys hash (fun key => prefixOf hash levels key = pfx * 64 + slot)
        (found hash (levels + 1) node) (single item) keys ∧
      ((node.nodeBitmap ||| node.itemBitmap).getLsbD slot = false →
        diffCalls (found hash (levels + 1) node) (single item) keys =
          if slot = prefixOf hash levels item.key % 64 then [(none, some item)] else []) ∧
      ∀ visitor : Visitor σ K V,
        (slot = prefixOf hash levels item.key % 64 →
          (∀ child, node.childAt slot = some child → ∀ state,
            visitDiffItem hash visitor item levels child.2 state = some (runCalls visitor
              (diffCalls (found hash (levels + 1) node) (single item) keys) state)) ∧
          ∀ stored, node.itemAt slot = some stored → ∀ state,
            visitDiffItemOrdered hash visitor state stored item = runCalls visitor
              (diffCalls (found hash (levels + 1) node) (single item) keys) state) ∧
        (slot ≠ prefixOf hash levels item.key % 64 →
          (∀ child, node.childAt slot = some child → ∀ state,
            visitUnary (fun state callee => visitor state (some callee) none) levels child.2
              state = some (runCalls visitor
                (diffCalls (found hash (levels + 1) node) (single item) keys) state)) ∧
          ∀ stored, node.itemAt slot = some stored → ∀ state,
            visitor state (some stored) none = runCalls visitor
              (diffCalls (found hash (levels + 1) node) (single item) keys) state) := by
  have longer := prefixOf_eq hash owned
  by_cases here : slot = prefixOf hash levels item.key % 64
  · rw [← here] at longer
    rw [BitVec.getLsbD_or]
    simp only [if_pos here]
    cases wf.shape.slotHolds slot with
    | child child set clear items children =>
      obtain ⟨keys, diff, calls⟩ := below here child children
      obtain ⟨diff', same⟩ := diff.congr
        (fun key owned => found_child wf owned low items children) (fun _ _ => rfl)
      rw [set, items, children]
      refine ⟨keys, diff', nofun, fun visitor => ⟨fun _ => ⟨?_, nofun⟩, absurd here⟩⟩
      rintro _ ⟨rfl⟩ state
      rw [same]
      exact calls visitor state
    | item stored set clear items children =>
      obtain ⟨keys, diff, calls⟩ := @visitDiffItemOrdered_calls _ _ σ _ _ unique
        (fun key => prefixOf hash levels key = pfx * 64 + slot) stored item
        (wf.2.1 slot stored items) longer
      obtain ⟨diff', same⟩ := diff.congr
        (fun key owned => found_item wf owned low items) (fun _ _ => rfl)
      rw [set, Bool.or_true, items, children]
      refine ⟨keys, diff', nofun, fun visitor => ⟨fun _ => ⟨nofun, ?_⟩, absurd here⟩⟩
      rintro _ ⟨rfl⟩ state
      rw [same]
      exact calls visitor state
    | free clear itemClear items children =>
      have alone : DiffKeys hash (fun key => prefixOf hash levels key = pfx * 64 + slot)
          (single item) (fun _ => none) [item.key] := DiffKeys.single longer
      obtain ⟨diff, same⟩ := alone.swap.congr
        (fun key owned => found_free wf owned low items children) (fun _ _ => rfl)
      rw [items, children]
      refine ⟨[item.key], diff, fun _ => ?_, fun visitor => ⟨fun _ => ⟨nofun, nofun⟩,
        absurd here⟩⟩
      rw [same]
      change [(none, single item item.key)] = _
      rw [single_self]
  · obtain ⟨keys, diff, unset, calls⟩ := @unarySlot_calls _ _ σ _ _ _ _ _ _ _ wf low
      fun child children => visitUnary_calls (wf.2.2 slot child children)
    have absent : ∀ key, prefixOf hash levels key = pfx * 64 + slot → single item key = none := by
      intro key owned
      refine single_other ?_
      rintro rfl
      omega
    obtain ⟨diff', same⟩ := diff.congr (fun _ _ => rfl) absent
    refine ⟨keys, diff', fun clear => ?_, fun visitor => ⟨fun at_ => absurd at_ here,
      fun _ => ?_⟩⟩
    · rw [unset clear, if_neg here]
      rfl
    · rw [same]
      exact calls visitor

theorem visitDiffItem_calls (unique : Function.Injective hash) {levels pfx : Nat}
    {node : Node K V} (wf : WellFormed layout hash levels pfx node) {item : Item K V}
    (owned : prefixOf hash levels item.key = pfx) :
    ∃ keys, DiffKeys hash (fun key => prefixOf hash levels key = pfx)
        (found hash levels node) (single item) keys ∧
      ∀ (visitor : Visitor σ K V) state,
        visitDiffItem hash visitor item levels node state =
          some (runCalls visitor (diffCalls (found hash levels node) (single item) keys)
            state) := by
  induction levels generalizing pfx node with
  | zero => exact wf.elim
  | succ levels ih =>
    have longer := prefixOf_eq hash owned
    have slots := fun slot (low : slot < 64) =>
      @diffItemSlot_calls _ _ σ _ _ _ unique _ _ _ _ wf _ owned low
        fun here child children => ih (wf.2.2 slot child children) (here ▸ longer)
    choose! keysOf diff unset calls using slots
    refine ⟨(List.range 64).flatMap keysOf, DiffKeys.slots diff, fun visitor state => ?_⟩
    obtain ⟨itemSlot, isSlot⟩ : ∃ itemSlot, prefixOf hash levels item.key % 64 = itemSlot :=
      ⟨_, rfl⟩
    obtain ⟨mask, isMask⟩ : ∃ mask, node.nodeBitmap ||| node.itemBitmap = mask := ⟨_, rfl⟩
    have low : itemSlot < 64 := by omega
    rw [isMask] at unset
    rw [isSlot] at unset calls
    let wanted slot := diffCalls (found hash (levels + 1) node) (single item) (keysOf slot)
    let acts slot :=
      if mask.getLsbD slot then lateCall mask item itemSlot slot ++ wanted slot else []
    obtain ⟨rest, loop, viewed, goesOn⟩ := eachBit_calls visitor mask
      (node.visitDiffItemSlot hash visitor item levels (visitDiffItem hash visitor item levels)
        itemSlot)
      (fun slot state => (state, (node.indices slot).1, (node.indices slot).2,
        visitedFrom mask itemSlot slot))
      Prod.fst acts (fun _ _ => rfl)
      (fun slot low clear => by
        refine ⟨?_, if_neg (by rw [clear]; exact Bool.false_ne_true)⟩
        rw [visitedFrom_succ_clear clear, indices_skip (by rw [isMask]; exact clear)])
      (fun slot low set state => by
        rw [show acts slot = lateCall mask item itemSlot slot ++ wanted slot from if_pos set]
        subst isMask
        obtain ⟨rest, done, goesOn⟩ := visitDiffItemSlot_calls wf.shape set
          (calls slot low visitor).1 (calls slot low visitor).2 state
        exact ⟨_, done, rfl, fun proceed => by rw [goesOn proceed]⟩)
      64 0 rfl state
    have carried := flatMap_carry (fun slot low => lateCall_step (unset slot low)) 64 0 rfl
    rw [show lateCall mask item itemSlot 0 = [] from if_neg fun due => by omega,
      List.nil_append] at carried
    rw [List.range_eq_range', diffCalls_flatMap, ← carried, runCalls_append]
    unfold visitDiffItem
    simp only [itemSlot_eq wf, isSlot, isMask]
    have started : (state, (node.indices 0).1, (node.indices 0).2,
      visitedFrom mask itemSlot 0) = (state, 0, 0, false) := rfl
    rw [started] at loop
    rw [loop, Option.bind_eq_bind, Option.bind_some]
    rcases called : runCalls visitor ((List.range' 0 64).flatMap acts) state with
      ⟨after, _ | _⟩
    · rw [called] at viewed
      exact congrArg (fun state => some (state, false)) viewed
    · rw [called] at goesOn
      rw [goesOn rfl]
      dsimp only
      rw [if_neg (not_not_intro rfl)]
      unfold lateCall
      cases visited : visitedFrom mask itemSlot 64 with
      | true =>
        rw [if_pos rfl, if_neg (fun due => nomatch due.2)]
        rfl
      | false =>
        rw [if_neg Bool.false_ne_true, if_pos (And.intro low rfl), runCalls_single]
        rfl

/-! ### Two nodes -/

/-- Children at the same place with the same timeline are the same. -/
def PruneSafe : Nat → Node K V → Node K V → Prop
  | 0, _, _ => True
  | levels + 1, new, old => ∀ slot newChild oldChild, new.childAt slot = some newChild →
      old.childAt slot = some oldChild →
      if newChild.1 = oldChild.1 then newChild.2 = oldChild.2
      else PruneSafe levels newChild.2 oldChild.2

theorem visitDiffSlot_calls (unique : Function.Injective hash) {levels pfx slot : Nat}
    {new old : Node K V} (newWf : WellFormed layout hash (levels + 1) pfx new)
    (oldWf : WellFormed layout hash (levels + 1) pfx old) (low : slot < 64)
    {visitNodes : Visitor σ K V → Node K V → Node K V → σ → Option (σ × Bool)}
    (below : ∀ newChild oldChild, new.childAt slot = some newChild →
      old.childAt slot = some oldChild →
      if newChild.1 = oldChild.1 then newChild.2 = oldChild.2
      else ∃ keys, DiffKeys hash (fun key => prefixOf hash levels key = pfx * 64 + slot)
          (found hash levels newChild.2) (found hash levels oldChild.2) keys ∧
        ∀ visitor state, visitNodes visitor newChild.2 oldChild.2 state = some (runCalls visitor
          (diffCalls (found hash levels newChild.2) (found hash levels oldChild.2) keys) state)) :
    ∃ keys, DiffKeys hash (fun key => prefixOf hash levels key = pfx * 64 + slot)
        (found hash (levels + 1) new) (found hash (levels + 1) old) keys ∧
      (((new.nodeBitmap ||| new.itemBitmap) ||| (old.nodeBitmap ||| old.itemBitmap)).getLsbD slot
        = false → keys = []) ∧
      (((new.nodeBitmap ||| new.itemBitmap) ||| (old.nodeBitmap ||| old.itemBitmap)).getLsbD slot
        = true → ∀ (visitor : Visitor σ K V) state,
          visitDiffSlot hash visitor levels (visitNodes visitor) new old slot state =
            some (runCalls visitor
              (diffCalls (found hash (levels + 1) new) (found hash (levels + 1) old) keys)
              state)) := by
  rw [BitVec.getLsbD_or, BitVec.getLsbD_or, BitVec.getLsbD_or]
  unfold visitDiffSlot
  dsimp only
  cases newWf.shape.slotHolds slot with
  | child newChild newSet newClear newItems newChildren =>
    rw [newSet, refNodeBit_of_child low newChildren]
    cases oldWf.shape.slotHolds slot with
    | child oldChild oldSet oldClear oldItems oldChildren =>
      have both := below newChild oldChild newChildren oldChildren
      rw [oldSet, refNodeBit_of_child low oldChildren]
      by_cases same : newChild.1 = oldChild.1
      · rw [if_pos same] at both
        refine ⟨[], DiffKeys.nil fun key owned differs => ?_, nofun, fun _ visitor state => ?_⟩
        · unfold Differs at differs
          rw [found_child newWf owned low newItems newChildren,
            found_child oldWf owned low oldItems oldChildren, both] at differs
          exact differs rfl
        · simp only [if_true, Option.bind_eq_bind, Option.bind_some, same, ne_eq,
            not_true_eq_false, if_false]
          rfl
      · rw [if_neg same] at both
        obtain ⟨keys, diff, calls⟩ := both
        obtain ⟨diff', equal⟩ := diff.congr
          (fun key owned => found_child newWf owned low newItems newChildren)
          (fun key owned => found_child oldWf owned low oldItems oldChildren)
        refine ⟨keys, diff', nofun, fun _ visitor state => ?_⟩
        rw [equal, ← calls]
        simp only [if_true, Option.bind_eq_bind, Option.bind_some, same, ne_eq,
          not_false_eq_true]
    | item oldItem oldSet oldClear oldItems oldChildren =>
      obtain ⟨keys, diff, calls⟩ := @visitDiffItem_calls _ _ σ _ _ _ unique _ _ _
        (newWf.2.2 slot newChild newChildren) _ (oldWf.2.1 slot oldItem oldItems)
      obtain ⟨diff', equal⟩ := diff.congr
        (fun key owned => found_child newWf owned low newItems newChildren)
        (fun key owned => found_item oldWf owned low oldItems)
      refine ⟨keys, diff', nofun, fun _ visitor state => ?_⟩
      rw [equal, ← calls, oldSet, oldClear, refItemBit_of_item low oldItems]
      simp
    | free oldClear oldItemClear oldItems oldChildren =>
      obtain ⟨keys, diff, calls⟩ := @visitUnary_calls _ _ σ _ _ _ _ _ _
        (newWf.2.2 slot newChild newChildren)
      obtain ⟨diff', equal⟩ := diff.congr
        (fun key owned => found_child newWf owned low newItems newChildren)
        (fun key owned => found_free oldWf owned low oldItems oldChildren)
      refine ⟨keys, diff', nofun, fun _ visitor state => ?_⟩
      rw [equal, ← calls, oldClear, oldItemClear]
      simp
  | item newItem newSet newClear newItems newChildren =>
    have newOwned := newWf.2.1 slot newItem newItems
    rw [newSet, newClear, refItemBit_of_item low newItems]
    cases oldWf.shape.slotHolds slot with
    | child oldChild oldSet oldClear oldItems oldChildren =>
      obtain ⟨keys, diff, calls⟩ := @visitDiffItem_calls _ _ σ _ _ _ unique _ _ _
        (oldWf.2.2 slot oldChild oldChildren) _ newOwned
      obtain ⟨diff', equal⟩ := diff.swap.congr
        (fun key owned => found_item newWf owned low newItems)
        (fun key owned => found_child oldWf owned low oldItems oldChildren)
      refine ⟨keys, diff', nofun, fun _ visitor state => ?_⟩
      have swapped := calls (fun state nodeItem passedItem => visitor state passedItem nodeItem)
        state
      rw [runCalls_swap, diffCalls_swap] at swapped
      rw [equal, ← swapped, oldSet, refNodeBit_of_child low oldChildren]
      simp
    | item oldItem oldSet oldClear oldItems oldChildren =>
      obtain ⟨keys, diff, calls⟩ := @visitDiffItemOrdered_calls _ _ σ _ _ unique
        (fun key => prefixOf hash levels key = pfx * 64 + slot) newItem oldItem newOwned
        (oldWf.2.1 slot oldItem oldItems)
      obtain ⟨diff', equal⟩ := diff.congr
        (fun key owned => found_item newWf owned low newItems)
        (fun key owned => found_item oldWf owned low oldItems)
      refine ⟨keys, diff', nofun, fun _ visitor state => ?_⟩
      rw [equal, ← calls, oldSet, oldClear, refItemBit_of_item low oldItems]
      simp
    | free oldClear oldItemClear oldItems oldChildren =>
      obtain ⟨diff, equal⟩ := (DiffKeys.single newOwned).congr
        (fun key owned => found_item newWf owned low newItems)
        (fun key owned => found_free oldWf owned low oldItems oldChildren)
      refine ⟨[newItem.key], diff, nofun, fun _ visitor state => ?_⟩
      rw [equal, oldClear, oldItemClear]
      change _ = some (runCalls visitor [(single newItem newItem.key, none)] state)
      rw [single_self, runCalls_single]
      simp
  | free newClear newItemClear newItems newChildren =>
    rw [newClear, newItemClear]
    cases oldWf.shape.slotHolds slot with
    | child oldChild oldSet oldClear oldItems oldChildren =>
      obtain ⟨keys, diff, calls⟩ := @visitUnary_calls _ _ σ _ _ _ _ _ _
        (oldWf.2.2 slot oldChild oldChildren)
      obtain ⟨diff', equal⟩ := diff.swap.congr
        (fun key owned => found_free newWf owned low newItems newChildren)
        (fun key owned => found_child oldWf owned low oldItems oldChildren)
      rw [oldSet]
      refine ⟨keys, diff', nofun, fun _ visitor state => ?_⟩
      have swapped := calls (fun state first second => visitor state second first) state
      rw [runCalls_swap, diffCalls_swap] at swapped
      rw [equal, ← swapped, refNodeBit_of_child low oldChildren]
      simp
    | item oldItem oldSet oldClear oldItems oldChildren =>
      have alone : DiffKeys hash (fun key => prefixOf hash levels key = pfx * 64 + slot)
        (single oldItem) (fun _ => none) [oldItem.key] :=
          DiffKeys.single (oldWf.2.1 slot oldItem oldItems)
      obtain ⟨diff, equal⟩ := alone.swap.congr
        (fun key owned => found_free newWf owned low newItems newChildren)
        (fun key owned => found_item oldWf owned low oldItems)
      rw [oldSet, oldClear]
      refine ⟨[oldItem.key], diff, nofun, fun _ visitor state => ?_⟩
      rw [equal, refItemBit_of_item low oldItems]
      change _ = some (runCalls visitor [(none, single oldItem oldItem.key)] state)
      rw [single_self, runCalls_single]
      simp
    | free oldClear oldItemClear oldItems oldChildren =>
      rw [oldClear, oldItemClear]
      refine ⟨[], DiffKeys.nil fun key owned differs => ?_, fun _ => rfl, nofun⟩
      unfold Differs at differs
      rw [found_free newWf owned low newItems newChildren,
        found_free oldWf owned low oldItems oldChildren] at differs
      exact differs rfl

theorem visitDiff_calls (unique : Function.Injective hash) {levels pfx : Nat}
    {new old : Node K V} (newWf : WellFormed layout hash levels pfx new)
    (oldWf : WellFormed layout hash levels pfx old) (safe : PruneSafe levels new old) :
    ∃ keys, DiffKeys hash (fun key => prefixOf hash levels key = pfx)
        (found hash levels new) (found hash levels old) keys ∧
      ∀ (visitor : Visitor σ K V) state, visitDiff hash visitor levels new old state =
        some (runCalls visitor
          (diffCalls (found hash levels new) (found hash levels old) keys) state) := by
  induction levels generalizing pfx new old with
  | zero => exact newWf.elim
  | succ levels ih =>
    have slots := fun slot (low : slot < 64) =>
      @visitDiffSlot_calls _ _ σ _ _ _ unique _ _ _ _ _ newWf oldWf low
        (fun visitor => visitDiff hash visitor levels)
        (fun newChild oldChild newChildren oldChildren => by
          have here := safe slot newChild oldChild newChildren oldChildren
          split
          · rename_i same
            rw [if_pos same] at here
            exact here
          · rename_i differ
            rw [if_neg differ] at here
            exact ih (newWf.2.2 slot newChild newChildren) (oldWf.2.2 slot oldChild oldChildren)
              here)
    choose! keysOf diff unset calls using slots
    refine ⟨(List.range 64).flatMap keysOf, DiffKeys.slots diff, fun visitor state => ?_⟩
    obtain ⟨rest, loop, viewed, -⟩ := eachBit_calls visitor
      ((new.nodeBitmap ||| new.itemBitmap) ||| (old.nodeBitmap ||| old.itemBitmap))
      (visitDiffSlot hash visitor levels (visitDiff hash visitor levels) new old)
      (fun _ state => state) id
      (fun slot => diffCalls (found hash (levels + 1) new) (found hash (levels + 1) old)
        (keysOf slot))
      (fun _ _ => rfl)
      (fun slot low clear => ⟨rfl, by rw [unset slot low clear]; rfl⟩)
      (fun slot low set state => ⟨_, calls slot low set visitor state, rfl, fun _ => rfl⟩)
      64 0 rfl state
    rw [List.range_eq_range', diffCalls_flatMap]
    unfold visitDiff
    rw [loop]
    exact congrArg (fun state => some (state, _)) viewed

end Node

end Voxen.Common.V8gHashTrie
