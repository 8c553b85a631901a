import Voxen.Common.V8gHashTrieDiffNodes

/-!
# Differences of two snapshots

A trie that went on from a snapshot has the children of the snapshot where they still
have a timeline from before it, and made all others later.  This is what makes it
safe to stop at children of the same timeline, so the visitor is called for the keys
that differ between the two.
-/

namespace Voxen.Common.V8gHashTrie

open PackedArray (popcount rank bit)

variable {K V σ : Type}

namespace Node

/-! ## What the later calls leave of a snapshot -/

/-- The child in a slot of a node that may be missing. -/
def childOf (old : Option (Node K V)) (slot : Nat) : Option (NodeItem K V) :=
  old.bind fun node => node.childAt slot

/-- Every child is one of the old node at the same place or was made later. -/
def Derived (later : BitVec 64 → Prop) : Nat → Option (Node K V) → Node K V → Prop
  | 0, _, _ => True
  | levels + 1, old, new => ∀ slot child, new.childAt slot = some child →
      childOf old slot = some child ∨
      (later child.1 ∧ Derived later levels ((childOf old slot).map Prod.snd) child.2)

/-- No child was made later. -/
def Earlier (later : BitVec 64 → Prop) : Nat → Node K V → Prop
  | 0, _ => True
  | levels + 1, node => ∀ slot child, node.childAt slot = some child →
      ¬ later child.1 ∧ Earlier later levels child.2

variable {later : BitVec 64 → Prop}

theorem Derived.refl (levels : Nat) (node : Node K V) :
    Derived later levels (some node) node := by
  cases levels with
  | zero => trivial
  | succ levels => exact fun slot child children => Or.inl children

variable {levels : Nat} {node : Node K V} {old : Option (Node K V)}

theorem Derived.of_noChild (noChild : ∀ slot, node.childAt slot = none) :
    Derived later levels old node := by
  cases levels with
  | zero => trivial
  | succ levels =>
    intro slot child children
    rw [noChild] at children
    cases children

theorem Derived.child {slot : Nat} {child : NodeItem K V}
    (derived : Derived later (levels + 1) old node) (children : node.childAt slot = some child) :
    Derived later levels ((childOf old slot).map Prod.snd) child.2 := by
  rcases derived slot child children with same | ⟨-, below⟩
  · rw [same]
    exact Derived.refl levels child.2
  · exact below

theorem Derived.replace {slot : Nat} {node' : Node K V} {item : Option (Item K V)}
    {stored : Option (NodeItem K V)} (derived : Derived later (levels + 1) old node)
    (replaced : Replaces node node' slot item stored) (below : ∀ child, stored = some child →
      later child.1 ∧ Derived later levels ((childOf old slot).map Prod.snd) child.2) :
    Derived later (levels + 1) old node' := by
  intro other child children
  rw [replaced.children] at children
  split at children
  · rename_i same
    rw [same]
    exact Or.inr (below child children)
  · exact derived other child children

theorem Derived.pruneSafe {old new : Node K V} (derived : Derived later levels (some old) new)
    (earlier : Earlier later levels old) :
    PruneSafe levels new old := by
  induction levels generalizing old new with
  | zero => trivial
  | succ levels ih =>
    intro slot newChild oldChild newChildren oldChildren
    obtain ⟨notLater, below⟩ := earlier slot oldChild oldChildren
    have stored : childOf (some old) slot = some oldChild := oldChildren
    rcases derived slot newChild newChildren with same | ⟨isLater, derivedBelow⟩
    · rw [stored] at same
      cases same
      rw [if_pos rfl]
    · rw [stored] at derivedBelow
      rw [if_neg (fun equal : newChild.1 = oldChild.1 => notLater (equal ▸ isLater))]
      exact ih derivedBelow below

/-- What was made from nothing by calls that are not later has no later child. -/
theorem Derived.earlier (derived : Derived (fun timeline => ¬ later timeline) levels none node) :
    Earlier later levels node := by
  induction levels generalizing node with
  | zero => trivial
  | succ levels ih =>
    intro slot child children
    rcases derived slot child children with same | ⟨notLater, below⟩
    · cases same
    · exact ⟨notLater, ih below⟩

/-- A later call leaves the other children as they are and makes later ones. -/
theorem Changed.derived {timeline : BitVec 64} (isLater : later timeline) {node' : Node K V}
    (changed : Changed timeline levels node node') (derived : Derived later levels old node) :
    Derived later levels old node' := by
  induction changed generalizing old with
  | slot replaced kept =>
    intro other child children
    rw [replaced.children] at children
    split at children
    · rename_i here
      rw [here]
      rcases kept with rfl | rfl
      · cases children
      · exact derived _ child children
    · exact derived other child children
  | child replaced origin below ih =>
    refine derived.replace replaced ?_
    rintro _ ⟨rfl⟩
    refine ⟨isLater, ih ?_⟩
    rcases origin with ⟨first, children⟩ | noChild
    · exact derived.child children
    · exact Derived.of_noChild noChild

end Node

/-! ## Tries -/

/-- Every root node is the old one or was made later. -/
def Derived (later : BitVec 64 → Prop) (old new : V8gHashTrie K V) : Prop :=
  ∀ index, new.rootNodes index = old.rootNodes index ∨
    ∃ first node, new.rootNodes index = (first, some node) ∧ later first ∧
      Node.Derived later hashLevels (old.rootNodes index).2 node

/-- Neither a root node nor a child was made later. -/
def Earlier (later : BitVec 64 → Prop) (trie : V8gHashTrie K V) : Prop :=
  ∀ index, ¬ later (trie.rootNodes index).1 ∧
    ∀ node, (trie.rootNodes index).2 = some node → Node.Earlier later hashLevels node

variable {later : BitVec 64 → Prop}

theorem Derived.refl (trie : V8gHashTrie K V) : Derived later trie trie :=
  fun _ => Or.inl rfl

variable {trie old trie' : V8gHashTrie K V} {first : BitVec 64} {index : Fin 16} {node : Node K V}
  {key : K}

theorem Derived.earlier (zero : ¬ later 0)
    (derived : Derived (fun timeline => ¬ later timeline) {} trie) : Earlier later trie := by
  intro index
  rcases derived index with same | ⟨first, node, holds, notLater, below⟩
  · rw [same]
    exact ⟨zero, nofun⟩
  · rw [holds]
    refine ⟨notLater, ?_⟩
    rintro _ ⟨rfl⟩
    exact below.earlier

theorem Derived.update (derived : Derived later old trie)
    (updated : trie'.rootNodes = Function.update trie.rootNodes index (first, some node))
    (isLater : later first) (below : Node.Derived later hashLevels (old.rootNodes index).2 node) :
    Derived later old trie' := by
  intro other
  rw [updated]
  by_cases same : other = index
  · rw [same, Function.update_self]
    exact Or.inr ⟨first, node, rfl, isLater, below⟩
  · rw [Function.update_of_ne same]
    exact derived other

theorem Derived.root (derived : Derived later old trie)
    (holds : trie.rootNodes index = (first, some node)) :
    Node.Derived later hashLevels (old.rootNodes index).2 node := by
  rcases derived index with same | ⟨first', node', holds', -, below⟩
  · rw [← same, holds]
    exact Node.Derived.refl hashLevels node
  · rw [holds] at holds'
    cases holds'
    exact below

variable [DecidableEq K] {hash : K → BitVec 64} {layout : ItemLayout}

theorem Derived.insert (unique : Function.Injective hash) (derived : Derived later old trie)
    (wf : WellFormed layout hash trie) {timeline : BitVec 64} (isLater : later timeline)
    {valuePtr : V} (inserted : trie.insert layout hash timeline key valuePtr = some trie') :
    Derived later old trie' := by
  obtain ⟨nodeItem, freeAddress, root, rootWf, -⟩ :=
    prepareRoot_spec wf timeline (rootIndex (hash key))
  have rootDerived :
      Node.Derived later hashLevels (old.rootNodes (rootIndex (hash key))).2 nodeItem.2 := by
    unfold prepareRoot at root
    rcases holds : trie.rootNodes (rootIndex (hash key)) with ⟨first, _ | node⟩
    · rw [holds] at root
      cases root
      exact Node.Derived.of_noChild fun _ => PackedArray.get?_of_clear BitVec.getLsbD_zero _
    · rw [holds] at root
      cases root
      exact derived.root holds
  obtain ⟨node', freeAddress', added, result, -, changed⟩ :=
    Node.insert_spec unique timeline key valuePtr rootWf (rootIndex_eq hash key).symm freeAddress
  rw [V8gHashTrie.insert, root] at inserted
  change (Node.insert layout hash timeline key valuePtr hashLevels nodeItem
    (remaining hash hashLevels key) freeAddress).bind _ = _ at inserted
  rw [result] at inserted
  cases inserted
  exact derived.update rfl isLater (changed.derived isLater rootDerived)

theorem Derived.erase (derived : Derived later old trie) (wf : WellFormed layout hash trie)
    {timeline : BitVec 64} (isLater : later timeline)
    (erases : trie.erase layout hash timeline key = some trie') : Derived later old trie' := by
  rcases holds : trie.rootNodes (rootIndex (hash key)) with ⟨first, _ | node⟩
  · simp only [V8gHashTrie.erase, holds, Option.pure_def, Option.some.injEq] at erases
    exact erases ▸ derived
  · obtain ⟨nodeItem', freeAddress, erased, result, -, outcome⟩ :=
      @Node.erase_spec _ _ hash layout _ timeline key _ _ (first, node) (wf _ _ _ holds)
        (rootIndex_eq hash key).symm trie.freeAddress
    simp only [V8gHashTrie.erase, holds] at erases
    change (Node.erase layout timeline key hashLevels (first, node)
      (remaining hash hashLevels key) trie.freeAddress).bind _ = _ at erases
    rw [result] at erases
    cases erases
    rcases outcome with rfl | ⟨made, changed⟩
    · intro other
      change Function.update trie.rootNodes _ _ other = _ ∨ _
      rw [← holds, Function.update_eq_self]
      exact derived other
    · exact derived.update rfl (made ▸ isLater) (changed.derived isLater (derived.root holds))

/-- The timelines of calls, in order. -/
def timelines (operations : List (Operation K V)) : List (BitVec 64) :=
  operations.filterMap fun
    | .insert timeline _ _ | .erase timeline _ => some timeline
    | .copy => none

theorem run_derived (unique : Function.Injective hash) (before after : List (Operation K V))
    {old : V8gHashTrie K V} (ran : run layout hash before = some old)
    (later : BitVec 64 → Prop) (areLater : ∀ timeline ∈ timelines after, later timeline) :
    ∃ new, run layout hash (before ++ after) = some new ∧ Derived later old new := by
  induction after using List.reverseRecOn with
  | nil =>
    rw [List.append_nil]
    exact ⟨old, ran, Derived.refl old⟩
  | append_singleton after operation ih =>
    unfold timelines at areLater
    rw [List.filterMap_append] at areLater
    obtain ⟨new, ranNew, derived⟩ := ih fun timeline mem =>
      areLater timeline (List.mem_append_left _ mem)
    obtain ⟨next, ranNext, -⟩ := @run_reflects _ _ _ layout hash unique
      (before ++ (after ++ [operation]))
    obtain ⟨same, ranSame, reflects⟩ := @run_reflects _ _ _ layout hash unique (before ++ after)
    rw [ranNew] at ranSame
    cases ranSame
    refine ⟨next, ranNext, ?_⟩
    rw [← List.append_assoc, run_snoc, ranNew, Option.bind_some] at ranNext
    cases operation with
    | insert timeline key valuePtr =>
      exact derived.insert unique reflects.wellFormed
        (areLater timeline (List.mem_append_right _ (List.mem_singleton_self _))) ranNext
    | erase timeline key =>
      exact derived.erase reflects.wellFormed
        (areLater timeline (List.mem_append_right _ (List.mem_singleton_self _))) ranNext
    | copy =>
      cases ranNext
      exact derived

/-! ## Visiting the differences -/

/-- The item found in a trie. -/
def found (hash : K → BitVec 64) (trie : V8gHashTrie K V) (key : K) : Option (Item K V) :=
  (trie.find hash key).join

omit [DecidableEq K] in
theorem rootIndex_of_owned (owned : prefixOf hash hashLevels key = index.val) :
    rootIndex (hash key) = index :=
  Fin.ext ((rootIndex_eq hash key).trans owned)

theorem found_root (holds : trie.rootNodes index = (first, some node))
    (owned : prefixOf hash hashLevels key = index.val) :
    found hash trie key = Node.found hash hashLevels node key := by
  rw [found, find_some (by rw [rootIndex_of_owned owned]; exact holds)]
  rfl

theorem found_noRoot (holds : trie.rootNodes index = (first, none))
    (owned : prefixOf hash hashLevels key = index.val) : found hash trie key = none := by
  rw [found, find_none (by rw [rootIndex_of_owned owned]; exact holds)]
  rfl

theorem visitDiffRoot_calls (unique : Function.Injective hash) {old new : V8gHashTrie K V}
    (newWf : WellFormed layout hash new) (oldWf : WellFormed layout hash old)
    (derived : Derived later old new) (earlier : Earlier later old) (index : Fin 16) :
    ∃ keys, DiffKeys hash (fun key => prefixOf hash hashLevels key = index.val)
        (found hash new) (found hash old) keys ∧
      ∀ (visitor : Visitor σ K V) state,
        visitDiffRoot hash visitor (new.rootNodes index) (old.rootNodes index) state =
          some (runCalls visitor (diffCalls (found hash new) (found hash old) keys) state) := by
  unfold visitDiffRoot
  rcases derived index with same | ⟨first, node, holds, isLater, below⟩
  · refine ⟨[], DiffKeys.nil fun key owned differs => differs ?_, fun visitor state => ?_⟩
    · rcases holds : old.rootNodes index with ⟨first, _ | node⟩
      · rw [found_noRoot holds owned, found_noRoot (same.trans holds) owned]
      · rw [found_root holds owned, found_root (same.trans holds) owned]
    · rw [same, if_pos rfl]
      rfl
  · rw [holds]
    rcases oldHolds : old.rootNodes index with ⟨oldFirst, _ | oldNode⟩
    · have notLater := (earlier index).1
      rw [oldHolds] at notLater
      obtain ⟨keys, diff, calls⟩ := @Node.visitUnary_calls _ _ σ hash _ layout _ _ _
        (newWf index first node holds)
      obtain ⟨diff', equal⟩ := diff.congr (fun key owned => found_root holds owned)
        (fun key owned => found_noRoot oldHolds owned)
      refine ⟨keys, diff', fun visitor state => ?_⟩
      rw [if_neg (fun same : first = oldFirst => notLater (same ▸ isLater)), equal]
      exact calls visitor state
    · obtain ⟨notLater, nodeEarlier⟩ := earlier index
      rw [oldHolds] at notLater below nodeEarlier
      obtain ⟨keys, diff, calls⟩ := @Node.visitDiff_calls _ _ σ _ hash layout unique _ _ _ _
        (newWf index first node holds) (oldWf index oldFirst oldNode oldHolds)
        (below.pruneSafe (nodeEarlier oldNode rfl))
      obtain ⟨diff', equal⟩ := diff.congr (fun key owned => found_root holds owned)
        (fun key owned => found_root oldHolds owned)
      refine ⟨keys, diff', fun visitor state => ?_⟩
      rw [if_neg (fun same : first = oldFirst => notLater (same ▸ isLater)), equal]
      exact calls visitor state

theorem visitDiffRoots_calls {new : V8gHashTrie K V} {visitor : Visitor σ K V}
    {calls : Fin 16 → List (Call K V)} (roots : ∀ index state,
      visitDiffRoot hash visitor (new.rootNodes index) (old.rootNodes index) state =
        some (runCalls visitor (calls index) state)) (indices : List (Fin 16)) (state : σ) :
    new.visitDiffRoots hash old visitor indices state =
      some (runCalls visitor (indices.flatMap calls) state).1 := by
  induction indices generalizing state with
  | nil => rfl
  | cons index rest ih =>
    rw [List.flatMap_cons, runCalls_append, visitDiffRoots, roots]
    rcases called : runCalls visitor (calls index) state with ⟨after, _ | _⟩
    · rfl
    · exact ih after

/-- Between a trie and one derived from it the visitor is called for the keys that
differ, in the order of their hashes. -/
theorem visitDiff_calls (unique : Function.Injective hash) {old new : V8gHashTrie K V}
    (newWf : WellFormed layout hash new) (oldWf : WellFormed layout hash old)
    (derived : Derived later old new) (earlier : Earlier later old) :
    ∃ keys, DiffKeys hash (fun _ => True) (found hash new) (found hash old) keys ∧
      ∀ (visitor : Visitor σ K V) state, new.visitDiff hash old visitor state =
        some (runCalls visitor (diffCalls (found hash new) (found hash old) keys) state).1 := by
  choose keysOf diffs calls using
    @visitDiffRoot_calls _ _ σ _ _ hash layout unique _ _ newWf oldWf derived earlier
  refine ⟨(List.finRange 16).flatMap keysOf, ?_, fun visitor state => ?_⟩
  · refine DiffKeys.flatMap (fun index _ => diffs index) ?_ fun key => ?_
    · refine (List.pairwise_lt_finRange 16).imp fun lower key key' owned owned' => ?_
      refine @hash_lt_of_prefix_lt _ _ hashLevels _ _ ?_
      rw [owned, owned']
      exact lower
    · exact ⟨fun _ => ⟨rootIndex (hash key), List.mem_finRange _, (rootIndex_eq hash key).symm⟩,
        fun _ => trivial⟩
  · unfold visitDiff
    rw [visitDiffRoots_calls (fun index => calls index visitor)]
    unfold diffCalls
    rw [List.map_flatMap]

/-- Between two snapshots of one trie, with timelines that are positive and increase,
the visitor is called until it returns false: once for each key that is in one of them
only or has another version in each, with its items, in the order of the hashes. -/
theorem run_visitDiff (unique : Function.Injective hash) (before after : List (Operation K V))
    (positive : ∀ timeline ∈ timelines (before ++ after), 0 < timeline)
    (increasing : (timelines (before ++ after)).Pairwise (· < ·)) :
    ∃ old new, run layout hash before = some old ∧
      run layout hash (before ++ after) = some new ∧
      ∃ keys : List K, keys.Pairwise (fun first second => hash first < hash second) ∧
        (∀ key, key ∈ keys ↔
          (found hash new key).map Item.version ≠ (found hash old key).map Item.version) ∧
        ∀ (visitor : Visitor σ K V) state, new.visitDiff hash old visitor state =
          some (runCalls visitor
            (keys.map fun key => (found hash new key, found hash old key)) state).1 := by
  have split : timelines (before ++ after) = timelines before ++ timelines after :=
    List.filterMap_append
  rw [split] at positive increasing
  let later timeline := timeline ∈ timelines after
  obtain ⟨old, ranOld, oldReflects⟩ := @run_reflects _ _ _ layout hash unique before
  obtain ⟨new, ranNew, derived⟩ := run_derived unique before after ranOld later fun _ mem => mem
  obtain ⟨same, ranSame, newReflects⟩ := @run_reflects _ _ _ layout hash unique (before ++ after)
  rw [ranNew] at ranSame
  cases ranSame
  have earlier : Earlier later old := by
    obtain ⟨again, ranAgain, fromEmpty⟩ := @run_derived _ _ _ hash layout unique [] before {} rfl
      (fun timeline => ¬ later timeline) fun timeline mem isLater =>
        BitVec.lt_irrefl timeline ((List.pairwise_append.mp increasing).2.2 _ mem _ isLater)
    rw [List.nil_append, ranOld] at ranAgain
    cases ranAgain
    exact fromEmpty.earlier fun isLater =>
      BitVec.lt_irrefl 0 (positive 0 (List.mem_append_right _ isLater))
  obtain ⟨keys, diff, calls⟩ := @visitDiff_calls _ _ σ _ _ hash layout unique _ _
    newReflects.wellFormed oldReflects.wellFormed derived earlier
  exact ⟨old, new, ranOld, ranNew, keys, diff.sorted,
    fun key => (diff.mem_iff key).trans (Iff.of_eq (true_and _)), calls⟩

/-- Two keys that share a hash prefix, and then a third one in place of one of them. -/
def snapshotOperations : List (Operation (BitVec 64) Nat) :=
  [.insert 1 5 10, .insert 2 6 20, .copy]

def laterOperations : List (Operation (BitVec 64) Nat) :=
  [.insert 3 7 30, .erase 4 6]

theorem laterOperations_timelines :
    timelines (snapshotOperations ++ laterOperations) = [1, 2, 3, 4] := rfl

theorem laterOperations_visitDiff :
    ∃ old new, run wordKeyLayout id snapshotOperations = some old ∧
      run wordKeyLayout id (snapshotOperations ++ laterOperations) = some new ∧
      ∃ keys : List (BitVec 64), keys.Pairwise (fun first second => id first < id second) ∧
        (∀ key, key ∈ keys ↔
          (found id new key).map Item.version ≠ (found id old key).map Item.version) ∧
        ∀ (visitor : Visitor Nat (BitVec 64) Nat) state, new.visitDiff id old visitor state =
          some (runCalls visitor
            (keys.map fun key => (found id new key, found id old key)) state).1 :=
  run_visitDiff Function.injective_id snapshotOperations laterOperations
    (by simp [laterOperations_timelines]) (by simp [laterOperations_timelines])

end Voxen.Common.V8gHashTrie
