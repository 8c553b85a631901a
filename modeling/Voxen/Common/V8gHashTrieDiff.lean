import Voxen.Common.V8gHashTrieVisit

/-!
# What visiting the differences calls

Every visit makes the calls of a list that does not depend on the visitor, up to the
first one that returns false.  The list has one call for each key whose items
differ, in the order of the hashes.
-/

namespace Voxen.Common.V8gHashTrie

open PackedArray (popcount rank bit)

variable {K V σ : Type}

/-! ## Lists of calls -/

/-- A call of the visitor: the new and the old item. -/
abbrev Call (K V : Type) : Type := Option (Item K V) × Option (Item K V)

/-- The visitor is called until it returns false. -/
def runCalls (visitor : Visitor σ K V) : List (Call K V) → σ → σ × Bool
  | [], state => (state, true)
  | call :: rest, state =>
    match visitor state call.1 call.2 with
    | (state, true) => runCalls visitor rest state
    | (state, false) => (state, false)

@[simp]
theorem runCalls_nil (visitor : Visitor σ K V) (state : σ) :
    runCalls visitor [] state = (state, true) := rfl

theorem runCalls_cons (visitor : Visitor σ K V) (call : Call K V) (rest : List (Call K V))
    (state : σ) : runCalls visitor (call :: rest) state =
      match visitor state call.1 call.2 with
      | (state, true) => runCalls visitor rest state
      | (state, false) => (state, false) := rfl

theorem runCalls_single (visitor : Visitor σ K V) (call : Call K V) (state : σ) :
    runCalls visitor [call] state = visitor state call.1 call.2 := by
  unfold runCalls
  rcases visitor state call.1 call.2 with ⟨state, _ | _⟩ <;> rfl

theorem runCalls_append (visitor : Visitor σ K V) (first second : List (Call K V)) (state : σ) :
    runCalls visitor (first ++ second) state =
      match runCalls visitor first state with
      | (state, true) => runCalls visitor second state
      | (state, false) => (state, false) := by
  induction first generalizing state with
  | nil => rfl
  | cons call rest ih =>
    rw [List.cons_append, runCalls_cons, runCalls_cons]
    rcases visitor state call.1 call.2 with ⟨state, _ | _⟩
    · rfl
    · exact ih state

theorem runCalls_pair (visitor : Visitor σ K V) (first second : Call K V) (state : σ) :
    runCalls visitor [first, second] state = both visitor state first second := by
  rw [show [first, second] = [first] ++ [second] from rfl, runCalls_append, runCalls_single]
  unfold both
  rcases visitor state first.1 first.2 with ⟨state, _ | _⟩
  · rfl
  · exact runCalls_single visitor second state

theorem runCalls_swap (visitor : Visitor σ K V) (calls : List (Call K V)) (state : σ) :
    runCalls (fun state first second => visitor state second first) calls state =
      runCalls visitor (calls.map Prod.swap) state := by
  induction calls generalizing state with
  | nil => rfl
  | cons call rest ih =>
    rw [List.map_cons, runCalls_cons, runCalls_cons]
    simp only [Prod.fst_swap, Prod.snd_swap]
    rcases visitor state call.2 call.1 with ⟨state, _ | _⟩
    · rfl
    · exact ih state

/-! ## Differences -/

variable (hash : K → BitVec 64)

/-- The items of a key are not both missing and do not have the same version. -/
def Differs (new old : K → Option (Item K V)) (key : K) : Prop :=
  (new key).map Item.version ≠ (old key).map Item.version

/-- The keys that differ inside a set, in the order of their hashes. -/
structure DiffKeys (inside : K → Prop) (new old : K → Option (Item K V)) (keys : List K) :
    Prop where
  sorted : keys.Pairwise fun first second => hash first < hash second
  mem_iff : ∀ key, key ∈ keys ↔ inside key ∧ Differs new old key

/-- The calls for these keys. -/
def diffCalls (new old : K → Option (Item K V)) (keys : List K) : List (Call K V) :=
  keys.map fun key => (new key, old key)

variable {hash} {inside : K → Prop} {new old : K → Option (Item K V)}

theorem DiffKeys.nil (same : ∀ key, inside key → ¬ Differs new old key) :
    DiffKeys hash inside new old [] := by
  refine ⟨List.Pairwise.nil, fun key => ⟨fun mem => absurd mem List.not_mem_nil, ?_⟩⟩
  exact fun ⟨here, differs⟩ => absurd differs (same key here)

theorem DiffKeys.swap {keys : List K} (diff : DiffKeys hash inside new old keys) :
    DiffKeys hash inside old new keys :=
  ⟨diff.sorted, fun key => (diff.mem_iff key).trans (and_congr_right fun _ => ne_comm)⟩

theorem diffCalls_swap (keys : List K) :
    (diffCalls new old keys).map Prod.swap = diffCalls old new keys := by
  unfold diffCalls
  rw [List.map_map]
  rfl

theorem DiffKeys.congr {new' old' : K → Option (Item K V)} {keys : List K}
    (sameNew : ∀ key, inside key → new' key = new key)
    (sameOld : ∀ key, inside key → old' key = old key)
    (diff : DiffKeys hash inside new old keys) :
    DiffKeys hash inside new' old' keys ∧ diffCalls new' old' keys = diffCalls new old keys := by
  refine ⟨⟨diff.sorted, fun key => (diff.mem_iff key).trans (and_congr_right fun here => ?_)⟩, ?_⟩
  · unfold Differs
    rw [sameNew key here, sameOld key here]
  · refine List.map_congr_left fun key mem => ?_
    have here := ((diff.mem_iff key).mp mem).1
    rw [sameNew key here, sameOld key here]

/-! ## Slots -/

theorem hash_lt_of_prefix_lt {levels : Nat} {key key' : K}
    (lower : prefixOf hash levels key < prefixOf hash levels key') : hash key < hash key' := by
  rw [BitVec.lt_def]
  unfold prefixOf at lower
  by_contra notLower
  exact Nat.not_lt.mpr (Nat.div_le_div_right (Nat.not_lt.mp notLower)) lower

/-- The differences of ordered parts one after the other are those of the whole. -/
theorem DiffKeys.flatMap {ι : Type} {parts : List ι} {part : ι → K → Prop} {keysOf : ι → List K}
    (diffs : ∀ i ∈ parts, DiffKeys hash (part i) new old (keysOf i))
    (ordered : parts.Pairwise fun i j => ∀ key key', part i key → part j key' →
      hash key < hash key')
    (covers : ∀ key, inside key ↔ ∃ i ∈ parts, part i key) :
    DiffKeys hash inside new old (parts.flatMap keysOf) := by
  refine ⟨List.pairwise_flatMap.mpr ⟨fun i mem => (diffs i mem).sorted, ?_⟩, fun key => ?_⟩
  · refine ordered.imp_of_mem fun inFirst inSecond lower first isFirst second isSecond => ?_
    exact lower first second (((diffs _ inFirst).mem_iff first).mp isFirst).1
      (((diffs _ inSecond).mem_iff second).mp isSecond).1
  · rw [List.mem_flatMap, covers]
    constructor
    · rintro ⟨i, mem, isKey⟩
      obtain ⟨here, differs⟩ := ((diffs i mem).mem_iff key).mp isKey
      exact ⟨⟨i, mem, here⟩, differs⟩
    · rintro ⟨⟨i, mem, here⟩, differs⟩
      exact ⟨i, mem, ((diffs i mem).mem_iff key).mpr ⟨here, differs⟩⟩

theorem DiffKeys.slots {levels pfx : Nat} {keysOf : Nat → List K}
    (slots : ∀ slot, slot < 64 →
      DiffKeys hash (fun key => prefixOf hash levels key = pfx * 64 + slot) new old
        (keysOf slot)) :
    DiffKeys hash (fun key => prefixOf hash (levels + 1) key = pfx) new old
      ((List.range 64).flatMap keysOf) := by
  refine DiffKeys.flatMap (fun slot mem => slots slot (List.mem_range.mp mem)) ?_ fun key => ?_
  · refine List.pairwise_lt_range.imp fun lower key key' owned owned' => ?_
    refine @hash_lt_of_prefix_lt _ _ levels _ _ ?_
    omega
  · rw [prefixOf_succ]
    constructor
    · intro owned
      refine ⟨_, List.mem_range.mpr (Nat.mod_lt (prefixOf hash levels key) (by decide)), ?_⟩
      omega
    · rintro ⟨slot, mem, owned⟩
      have low := List.mem_range.mp mem
      omega

theorem diffCalls_flatMap (slots : List Nat) (keysOf : Nat → List K) :
    diffCalls new old (slots.flatMap keysOf) =
      slots.flatMap fun slot => diffCalls new old (keysOf slot) := by
  unfold diffCalls
  rw [List.map_flatMap]

/-- The loop over the bits makes the calls of its slots one after the other.  When it
comes to a slot its state is `reaches` of that slot and of the state of the visitor, and
`view` gives the latter back. -/
theorem eachBit_calls {τ : Type} (visitor : Visitor σ K V) (mask : BitVec 64)
    (body : Nat → τ → Option (τ × Bool)) (reaches : Nat → σ → τ) (view : τ → σ)
    (calls : Nat → List (Call K V)) (views : ∀ slot state, view (reaches slot state) = state)
    (skip : ∀ slot, slot < 64 → mask.getLsbD slot = false →
      reaches (slot + 1) = reaches slot ∧ calls slot = [])
    (act : ∀ slot, slot < 64 → mask.getLsbD slot = true → ∀ state, ∃ rest,
      body slot (reaches slot state) = some (rest, (runCalls visitor (calls slot) state).2) ∧
      view rest = (runCalls visitor (calls slot) state).1 ∧
      ((runCalls visitor (calls slot) state).2 = true →
        rest = reaches (slot + 1) (runCalls visitor (calls slot) state).1))
    (count slot : Nat) (whole : slot + count = 64) (state : σ) :
    let called := runCalls visitor ((List.range' slot count).flatMap calls) state
    ∃ rest, eachBit mask body count slot (reaches slot state) = some (rest, called.2) ∧
      view rest = called.1 ∧ (called.2 = true → rest = reaches 64 called.1) := by
  induction count generalizing slot state with
  | zero =>
    refine ⟨reaches slot state, rfl, views slot state, fun _ => ?_⟩
    rw [← whole]
    rfl
  | succ count ih =>
    have low : slot < 64 := by omega
    rw [List.range'_succ, List.flatMap_cons, runCalls_append]
    unfold eachBit
    cases set : mask.getLsbD slot with
    | false =>
      obtain ⟨still, none⟩ := skip slot low set
      rw [if_neg Bool.false_ne_true, none, runCalls_nil, ← still]
      exact ih (slot + 1) (by omega) state
    | true =>
      obtain ⟨rest, acts, viewed, goesOn⟩ := act slot low set state
      rw [if_pos rfl, acts]
      rcases called : runCalls visitor (calls slot) state with ⟨after, _ | _⟩
      · rw [called] at viewed
        exact ⟨rest, rfl, viewed, nofun⟩
      · rw [called] at goesOn
        rw [goesOn rfl]
        exact ih (slot + 1) (by omega) after

/-! ## Nodes -/

/-- What is found if this is the only item. -/
def single [DecidableEq K] (item : Item K V) (key : K) : Option (Item K V) :=
  if item.key = key then some item else none

theorem single_self [DecidableEq K] (item : Item K V) : single item item.key = some item :=
  if_pos rfl

theorem single_other [DecidableEq K] {item : Item K V} {key : K} (other : key ≠ item.key) :
    single item key = none :=
  if_neg other.symm

theorem DiffKeys.single [DecidableEq K] {item : Item K V} (here : inside item.key) :
    DiffKeys hash inside (single item) (fun _ => none) [item.key] := by
  refine ⟨List.pairwise_singleton _ _, fun key => ?_⟩
  rw [List.mem_singleton]
  unfold Differs
  constructor
  · rintro rfl
    rw [single_self]
    exact ⟨here, nofun⟩
  · rintro ⟨-, differs⟩
    by_contra other
    rw [single_other other] at differs
    exact differs rfl

namespace Node

variable [DecidableEq K] {layout : ItemLayout}

/-- The item found below a node. -/
def found (hash : K → BitVec 64) (levels : Nat) (node : Node K V) (key : K) : Option (Item K V) :=
  (lookup hash levels node key).join

section Slot

variable {levels pfx slot : Nat} {node : Node K V}
  (wf : WellFormed layout hash (levels + 1) pfx node) {key : K}
  (owned : prefixOf hash levels key = pfx * 64 + slot) (low : slot < 64)

include wf owned low

theorem found_eq : found hash (levels + 1) node key =
    (findInSlot key levels (node.itemAt slot) (node.childAt slot)
      (remaining hash levels key)).join := by
  have here : prefixOf hash levels key % 64 = slot := by
    rw [owned, Nat.add_comm, Nat.add_mul_mod_self_right, Nat.mod_eq_of_lt low]
  unfold found
  rw [lookup_eq wf here]

theorem found_item {item : Item K V} (items : node.itemAt slot = some item) :
    found hash (levels + 1) node key = single item key := by
  rw [found_eq wf owned low, items]
  rfl

theorem found_child {child : NodeItem K V} (items : node.itemAt slot = none)
    (children : node.childAt slot = some child) :
    found hash (levels + 1) node key = found hash levels child.2 key := by
  rw [found_eq wf owned low, items, children]
  rfl

theorem found_free (items : node.itemAt slot = none) (children : node.childAt slot = none) :
    found hash (levels + 1) node key = none := by
  rw [found_eq wf owned low, items, children]
  rfl

end Slot

/-- The two counters of the loops when they come to a slot. -/
def indices (node : Node K V) (slot : Nat) : Nat × Nat :=
  (rank node.nodeBitmap slot, rank node.itemBitmap slot)

omit [DecidableEq K] in
theorem indices_skip {node : Node K V} {slot : Nat}
    (unset : (node.nodeBitmap ||| node.itemBitmap).getLsbD slot = false) :
    node.indices (slot + 1) = node.indices slot := by
  rw [BitVec.getLsbD_or, Bool.or_eq_false_iff] at unset
  unfold indices
  rw [PackedArray.rank_succ, PackedArray.rank_succ, unset.1, unset.2]
  rfl

omit [DecidableEq K] in
theorem visitSlot_calls {levels slot : Nat} {node : Node K V} (shape : Shape layout levels node)
    {visitor : Visitor σ K V} {visitChild : Node K V → σ → Option (σ × Bool)}
    {visitItem : σ → Item K V → σ × Bool} {calls : List (Call K V)}
    (set : (node.nodeBitmap ||| node.itemBitmap).getLsbD slot = true)
    (ofChild : ∀ child, node.childAt slot = some child → ∀ state,
      visitChild child.2 state = some (runCalls visitor calls state))
    (ofItem : ∀ item, node.itemAt slot = some item → ∀ state,
      visitItem state item = runCalls visitor calls state) (state : σ) :
    node.visitSlot visitChild visitItem slot state (node.indices slot).1 (node.indices slot).2 =
      some (((runCalls visitor calls state).1, node.indices (slot + 1)),
        (runCalls visitor calls state).2) := by
  unfold visitSlot indices
  rw [PackedArray.rank_succ, PackedArray.rank_succ]
  cases shape.slotHolds slot with
  | child child isSet clear items children =>
    have stored := children
    rw [childAt, PackedArray.get?_of_set isSet] at stored
    rw [if_pos isSet, stored, isSet, clear]
    simp only [Option.bind_eq_bind, Option.bind_some, ofChild child children]
    rfl
  | item item isSet clear items children =>
    have stored := items
    rw [itemAt, PackedArray.get?_of_set isSet] at stored
    rw [if_neg (fun taken => Bool.false_ne_true (clear.symm.trans taken)), stored, isSet, clear]
    simp only [Option.bind_eq_bind, Option.bind_some, ofItem item items]
    rfl
  | free clear itemClear items children =>
    rw [BitVec.getLsbD_or, clear, itemClear] at set
    cases set

/-- The calls a slot is visited with when the other side has nothing there. -/
theorem unarySlot_calls {levels pfx slot : Nat} {node : Node K V}
    (wf : WellFormed layout hash (levels + 1) pfx node) (low : slot < 64)
    (below : ∀ child, node.childAt slot = some child → ∃ keys,
      DiffKeys hash (fun key => prefixOf hash levels key = pfx * 64 + slot)
        (found hash levels child.2) (fun _ => none) keys ∧
      ∀ (visitor : Visitor σ K V) state,
        visitUnary (fun state item => visitor state (some item) none) levels child.2 state =
          some (runCalls visitor (diffCalls (found hash levels child.2) (fun _ => none) keys)
            state)) :
    ∃ keys, DiffKeys hash (fun key => prefixOf hash levels key = pfx * 64 + slot)
        (found hash (levels + 1) node) (fun _ => none) keys ∧
      ((node.nodeBitmap ||| node.itemBitmap).getLsbD slot = false → keys = []) ∧
      ∀ visitor : Visitor σ K V,
        (∀ child, node.childAt slot = some child → ∀ state,
          visitUnary (fun state item => visitor state (some item) none) levels child.2 state =
            some (runCalls visitor
              (diffCalls (found hash (levels + 1) node) (fun _ => none) keys) state)) ∧
        ∀ item, node.itemAt slot = some item → ∀ state,
          visitor state (some item) none = runCalls visitor
            (diffCalls (found hash (levels + 1) node) (fun _ => none) keys) state := by
  rw [BitVec.getLsbD_or]
  cases wf.shape.slotHolds slot with
  | child child set clear items children =>
    obtain ⟨keys, diff, calls⟩ := below child children
    obtain ⟨diff', same⟩ := diff.congr
      (fun key owned => found_child wf owned low items children) (fun _ _ => rfl)
    rw [set, items, children]
    refine ⟨keys, diff', nofun, fun visitor => ⟨?_, nofun⟩⟩
    rintro other ⟨rfl⟩ state
    rw [same]
    exact calls visitor state
  | item item set clear items children =>
    have owned := wf.2.1 slot item items
    obtain ⟨diff, same⟩ := (DiffKeys.single owned).congr
      (fun key owned => found_item wf owned low items) (fun _ _ => rfl)
    rw [set, Bool.or_true, items, children]
    refine ⟨[item.key], diff, nofun, fun visitor => ⟨nofun, ?_⟩⟩
    rintro _ ⟨rfl⟩ state
    rw [same]
    change _ = runCalls visitor [(single item item.key, none)] state
    rw [single_self, runCalls_single]
  | free clear itemClear items children =>
    rw [items, children]
    refine ⟨[], DiffKeys.nil fun key owned differs => ?_, fun _ => rfl,
      fun visitor => ⟨nofun, nofun⟩⟩
    unfold Differs at differs
    rw [found_free wf owned low items children] at differs
    exact differs rfl

theorem visitUnary_calls {levels pfx : Nat} {node : Node K V}
    (wf : WellFormed layout hash levels pfx node) :
    ∃ keys, DiffKeys hash (fun key => prefixOf hash levels key = pfx)
        (found hash levels node) (fun _ => none) keys ∧
      ∀ (visitor : Visitor σ K V) state,
        visitUnary (fun state item => visitor state (some item) none) levels node state =
          some (runCalls visitor (diffCalls (found hash levels node) (fun _ => none) keys)
            state) := by
  induction levels generalizing pfx node with
  | zero => exact wf.elim
  | succ levels ih =>
    have slots := fun slot (low : slot < 64) =>
      @unarySlot_calls _ _ σ _ _ _ _ _ _ _ wf low fun child children => ih (wf.2.2 slot child children)
    choose! keysOf diff unset calls using slots
    refine ⟨(List.range 64).flatMap keysOf, DiffKeys.slots diff, fun visitor state => ?_⟩
    unfold visitUnary
    obtain ⟨rest, loop, viewed, -⟩ := eachBit_calls visitor (node.nodeBitmap ||| node.itemBitmap)
      (fun slot place => node.visitSlot
        (visitUnary (fun state item => visitor state (some item) none) levels)
        (fun state item => visitor state (some item) none) slot place.1 place.2.1 place.2.2)
      (fun slot state => (state, node.indices slot)) Prod.fst
      (fun slot => diffCalls (found hash (levels + 1) node) (fun _ => none) (keysOf slot))
      (fun _ _ => rfl)
      (fun slot low clear => by
        refine ⟨by rw [indices_skip clear], ?_⟩
        rw [unset slot low clear]
        rfl)
      (fun slot low set state => ⟨_, visitSlot_calls wf.shape set
        (calls slot low visitor).1 (calls slot low visitor).2 state, rfl, fun _ => rfl⟩)
      64 0 rfl state
    rw [List.range_eq_range', diffCalls_flatMap]
    refine (congrArg (fun looped => Option.bind looped _) loop).trans ?_
    exact congrArg (fun state => some (state, _)) viewed

/-! ### An item on one side -/

theorem visitDiffItemOrdered_calls (unique : Function.Injective hash) {inside : K → Prop}
    {a b : Item K V} (insideA : inside a.key) (insideB : inside b.key) :
    ∃ keys, DiffKeys hash inside (single a) (single b) keys ∧
      ∀ (visitor : Visitor σ K V) state, visitDiffItemOrdered hash visitor state a b =
        runCalls visitor (diffCalls (single a) (single b) keys) state := by
  unfold visitDiffItemOrdered
  by_cases same : a.key = b.key
  · have onB : single b a.key = some b := by rw [same, single_self]
    have others : ∀ key, key ≠ a.key → ¬ Differs (single a) (single b) key := by
      intro key other differs
      unfold Differs at differs
      rw [single_other other, single_other (by rw [← same]; exact other)] at differs
      exact differs rfl
    by_cases versions : a.version = b.version
    · refine ⟨[], DiffKeys.nil fun key _ differs => ?_, fun visitor state => ?_⟩
      · by_cases here : key = a.key
        · unfold Differs at differs
          rw [here, single_self, onB, Option.map_some, Option.map_some, versions] at differs
          exact differs rfl
        · exact others key here differs
      · rw [if_pos same, if_neg (not_not_intro versions)]
        rfl
    · refine ⟨[a.key], ⟨List.pairwise_singleton _ _, fun key => ?_⟩, fun visitor state => ?_⟩
      · rw [List.mem_singleton]
        constructor
        · rintro rfl
          refine ⟨insideA, ?_⟩
          unfold Differs
          rw [single_self, onB, Option.map_some, Option.map_some]
          exact fun equal => versions (Option.some.inj equal)
        · rintro ⟨-, differs⟩
          by_contra other
          exact others key other differs
      · rw [if_pos same, if_pos versions]
        change _ = runCalls visitor [(single a a.key, single b a.key)] state
        rw [single_self, onB, runCalls_single]
  · have onA : single b a.key = none := single_other same
    have onB : single a b.key = none := single_other (Ne.symm same)
    have mem_iff : ∀ key, key = a.key ∨ key = b.key ↔
        inside key ∧ Differs (single a) (single b) key := by
      intro key
      unfold Differs
      constructor
      · rintro (rfl | rfl)
        · rw [single_self, onA]
          exact ⟨insideA, nofun⟩
        · rw [single_self, onB]
          exact ⟨insideB, nofun⟩
      · rintro ⟨-, differs⟩
        by_contra neither
        obtain ⟨notA, notB⟩ := not_or.mp neither
        rw [single_other notA, single_other notB] at differs
        exact differs rfl
    by_cases lower : hash a.key < hash b.key
    · refine ⟨[a.key, b.key], ⟨List.pairwise_pair.mpr lower, fun key => ?_⟩, fun visitor state => ?_⟩
      · rw [List.mem_cons, List.mem_singleton]
        exact mem_iff key
      · rw [if_neg same, if_pos lower]
        change _ = runCalls visitor
          [(single a a.key, single b a.key), (single a b.key, single b b.key)] state
        rw [single_self, onA, onB, single_self, runCalls_pair]
    · have higher : hash b.key < hash a.key := by
        rw [BitVec.lt_def] at lower ⊢
        refine Nat.lt_of_le_of_ne (Nat.not_lt.mp lower) fun equal => ?_
        exact same (unique (BitVec.eq_of_toNat_eq equal)).symm
      refine ⟨[b.key, a.key], ⟨List.pairwise_pair.mpr higher, fun key => ?_⟩, fun visitor state => ?_⟩
      · rw [List.mem_cons, List.mem_singleton, or_comm]
        exact mem_iff key
      · rw [if_neg same, if_neg lower]
        change _ = runCalls visitor
          [(single a b.key, single b b.key), (single a a.key, single b a.key)] state
        rw [single_self, onA, onB, single_self, runCalls_pair]

end Node

end Voxen.Common.V8gHashTrie
