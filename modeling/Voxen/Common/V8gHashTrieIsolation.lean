import Voxen.Common.V8gHashTrieMemory
import Voxen.Common.V8gHashTrieRuns

/-!
# Isolation of the copies of a versioned hash trie

Every node that was there when a copy was made is referred to with a timeline used
by then.  A call with a later timeline copies each such node before it writes, so
it writes to addresses handed out later only, and the copy reads what it read.
-/

namespace Voxen.Common.V8gHashTrie.Memory

open PackedArray (popcount)

variable {K V : Type}

/-! ## Reading below a mark -/

section Reading

variable {heap heap' : SharedHeap (Cell K V)} {mark : Nat}

/-- The addresses a cell refers to. -/
def Cell.pointers (cell : Cell K V) : List Nat := cell.nodes.filterMap Prod.snd

theorem Cell.mem_pointers {cell : Cell K V} {ref : NodeRef} {pointer : Nat}
    (mem : ref ∈ cell.nodes) (points : ref.2 = some pointer) : pointer ∈ cell.pointers :=
  List.mem_filterMap.mpr ⟨ref, mem, points⟩

/-- The loop depends on the children only through what `descend` returns for them. -/
theorem Cell.firstOf_congr {cell : Cell K V} {descend descend' : Nat → Option (Option (Item K V))}
    (same : ∀ pointer ∈ cell.pointers, descend' pointer = descend pointer)
    (itemAt : BitVec 64 → Option (Item K V)) (bits : Nat) (comboMask : BitVec 64)
    (nodeIndex : Nat) :
    cell.firstOf descend' itemAt bits comboMask nodeIndex =
      cell.firstOf descend itemAt bits comboMask nodeIndex := by
  induction bits generalizing comboMask nodeIndex with
  | zero => rfl
  | succ bits ih =>
    unfold Cell.firstOf
    cases child : cell.nodes[nodeIndex]? with
    | none => rfl
    | some ref =>
      obtain ⟨first, node⟩ := ref
      cases node with
      | none => rfl
      | some pointer =>
        have known := same pointer (Cell.mem_pointers (List.mem_of_getElem? child) rfl)
        simp only [Option.bind_eq_bind, Option.bind_some, known, ih]

theorem Cell.firstIn_congr {cell : Cell K V} {descend descend' : Nat → Option (Option (Item K V))}
    (same : ∀ pointer ∈ cell.pointers, descend' pointer = descend pointer)
    (itemAt : BitVec 64 → Option (Item K V)) (comboMask : BitVec 64) (nodeIndex : Nat) :
    cell.firstIn descend' itemAt comboMask nodeIndex =
      cell.firstIn descend itemAt comboMask nodeIndex :=
  Cell.firstOf_congr same itemAt 64 comboMask nodeIndex

variable (closed : SharedHeap.ClosedBelow Cell.pointers mark heap)
  (same : SharedHeap.SameBelow mark heap heap')

include closed same

theorem findFrom_same [DecidableEq K] (key : K) (levels address : Nat) (hashBits : BitVec 64)
    (below : address < mark) :
    findFrom heap' key levels address hashBits = findFrom heap key levels address hashBits := by
  induction levels generalizing address hashBits with
  | zero => rfl
  | succ levels ih =>
    unfold findFrom
    rw [same address below]
    cases holds : heap.cells address with
    | none => rfl
    | some cell =>
      simp only [Option.bind_eq_bind, Option.bind_some]
      cases child : cell.refNodeBit (selectBit hashBits) with
      | none => rfl
      | some ref =>
        obtain ⟨first, node⟩ := ref
        cases node with
        | none => rfl
        | some pointer =>
          have inside := closed address cell below holds pointer
            (Cell.mem_pointers (List.mem_of_getElem? child) rfl)
          simp only [Option.bind_some, ih pointer (hashBits <<< 6) inside]

theorem findFirstItem_same (levels address : Nat) (below : address < mark) :
    findFirstItem heap' levels address = findFirstItem heap levels address := by
  induction levels generalizing address with
  | zero => rfl
  | succ levels ih =>
    unfold findFirstItem
    rw [same address below]
    cases holds : heap.cells address with
    | none => simp only [Option.bind_eq_bind, Option.bind_none]
    | some cell =>
      simp only [Option.bind_eq_bind, Option.bind_some]
      exact Cell.firstIn_congr
        (fun pointer mem => ih pointer (closed address cell below holds pointer mem)) ..

theorem findNextItem_same (hash : K → BitVec 64) (levels address : Nat) (hashBits : BitVec 64)
    (below : address < mark) :
    findNextItem heap' hash levels address hashBits =
      findNextItem heap hash levels address hashBits := by
  induction levels generalizing address hashBits with
  | zero => rfl
  | succ levels ih =>
    unfold findNextItem
    rw [same address below]
    cases holds : heap.cells address with
    | none => simp only [Option.bind_eq_bind, Option.bind_none]
    | some cell =>
      have first := fun comboMask nodeIndex => @Cell.firstIn_congr _ _ cell
        (findFirstItem heap levels) (findFirstItem heap' levels)
        (fun pointer mem => findFirstItem_same closed same levels pointer
          (closed address cell below holds pointer mem)) cell.refItemBit comboMask nodeIndex
      simp only [Option.bind_eq_bind, Option.bind_some, first]
      cases child : cell.refNodeBit (selectBit hashBits) with
      | none => simp only [Option.bind_none]
      | some ref =>
        obtain ⟨timeline, node⟩ := ref
        cases node with
        | none => simp only [Option.bind_some, Option.bind_none]
        | some pointer =>
          have inside := closed address cell below holds pointer
            (Cell.mem_pointers (List.mem_of_getElem? child) rfl)
          simp only [Option.bind_some, ih pointer (hashBits <<< 6) inside]

end Reading

/-! ## What the calls keep -/

/-- Where a heap was marked: the next address then, and what the timelines up to the
mark and all timelines are below. -/
structure Mark where
  address : Nat
  limit : Nat
  bound : Nat

variable (mark : Mark)

/-- A reference to a node with so many hash bits consumed; a node from below the
mark is referred to with a timeline from before the mark. -/
structure RefOk (heap : SharedHeap (Cell K V)) (consumed : Nat) (ref : NodeRef) : Prop where
  bound : ∀ pointer, ref.2 = some pointer → ref.1.toNat < mark.bound
  shared : ∀ pointer, ref.2 = some pointer → pointer < mark.address → ref.1.toNat < mark.limit
  level : ∀ pointer, ref.2 = some pointer → ∃ cell, heap.cells pointer = some cell ∧
    cell.consumedHashBits = consumed

structure CellOk (heap : SharedHeap (Cell K V)) (cell : Cell K V) : Prop where
  nodes : ∀ ref ∈ cell.nodes, RefOk mark heap (cell.consumedHashBits + 6) ref
  items : ∀ item ∈ cell.items, item.version.toNat < mark.bound

/-- The heap since the mark, which it was `old` at. -/
structure HeapOk (old heap : SharedHeap (Cell K V)) : Prop where
  same : SharedHeap.SameBelow mark.address old heap
  above : mark.address ≤ heap.freeAddress
  fresh : ∀ address cell, heap.cells address = some cell → address < heap.freeAddress
  cells : ∀ address cell, heap.cells address = some cell → CellOk mark heap cell

/-- Cells stay where they are, on their level. -/
structure Extends (heap heap' : SharedHeap (Cell K V)) : Prop where
  free : heap.freeAddress ≤ heap'.freeAddress
  level : ∀ address cell, heap.cells address = some cell →
    ∃ cell', heap'.cells address = some cell' ∧ cell'.consumedHashBits = cell.consumedHashBits

theorem Extends.refl (heap : SharedHeap (Cell K V)) : Extends heap heap :=
  ⟨Nat.le_refl _, fun _ cell holds => ⟨cell, holds, rfl⟩⟩

theorem Extends.trans {heap middle heap' : SharedHeap (Cell K V)} (first : Extends heap middle)
    (second : Extends middle heap') : Extends heap heap' := by
  refine ⟨Nat.le_trans first.free second.free, fun address cell holds => ?_⟩
  obtain ⟨between, inMiddle, same⟩ := first.level address cell holds
  obtain ⟨cell', inHeap', same'⟩ := second.level address between inMiddle
  exact ⟨cell', inHeap', same'.trans same⟩

section Invariant

variable {mark : Mark} {heap heap' old : SharedHeap (Cell K V)}

variable {ref : NodeRef} {cell : Cell K V}

theorem RefOk.extend (extends' : Extends heap heap') {consumed : Nat}
    (ok : RefOk mark heap consumed ref) : RefOk mark heap' consumed ref := by
  refine ⟨ok.bound, ok.shared, fun pointer points => ?_⟩
  obtain ⟨cell, holds, level⟩ := ok.level pointer points
  obtain ⟨cell', holds', same⟩ := extends'.level pointer cell holds
  exact ⟨cell', holds', same.trans level⟩

theorem CellOk.extend (extends' : Extends heap heap') (ok : CellOk mark heap cell) :
    CellOk mark heap' cell :=
  ⟨fun ref mem => (ok.nodes ref mem).extend extends', ok.items⟩

/-! ### One cell -/

theorem CellOk.initial (layout : ItemLayout) (consumed : Nat) :
    CellOk mark heap (Cell.initial layout consumed : Cell K V) :=
  ⟨fun _ mem => absurd mem List.not_mem_nil, fun _ mem => absurd mem List.not_mem_nil⟩

theorem CellOk.assignNodeBit (ok : CellOk mark heap cell) (bit : BitVec 64)
    (refOk : RefOk mark heap (cell.consumedHashBits + 6) ref) :
    CellOk mark heap (cell.assignNodeBit bit ref) := by
  refine ⟨fun other mem => ?_, ok.items⟩
  rcases List.mem_or_eq_of_mem_set mem with old | rfl
  · exact ok.nodes other old
  · exact refOk

theorem CellOk.assignItemBit (ok : CellOk mark heap cell) (bit : BitVec 64) {item : Item K V}
    (bound : item.version.toNat < mark.bound) :
    CellOk mark heap (cell.assignItemBit bit item) := by
  refine ⟨ok.nodes, fun other mem => ?_⟩
  rcases List.mem_or_eq_of_mem_set mem with old | rfl
  · exact ok.items other old
  · exact bound

theorem CellOk.insertNode {cell' : Cell K V} (ok : CellOk mark heap cell) {bit : BitVec 64}
    (refOk : RefOk mark heap (cell.consumedHashBits + 6) ref)
    (inserted : cell.insertNode bit ref = some cell') :
    CellOk mark heap cell' ∧ cell'.consumedHashBits = cell.consumedHashBits := by
  unfold Cell.insertNode at inserted
  split at inserted
  · cases inserted
    refine ⟨⟨fun other mem => ?_, ok.items⟩, rfl⟩
    rcases List.eq_or_mem_of_mem_insertIdx mem with rfl | old
    · exact refOk
    · exact ok.nodes other old
  · cases inserted

theorem CellOk.eraseNode (ok : CellOk mark heap cell) (bit : BitVec 64) :
    CellOk mark heap (cell.eraseNode bit) :=
  ⟨fun ref mem => ok.nodes ref (List.mem_of_mem_eraseIdx mem), ok.items⟩

theorem CellOk.insertItem {layout : ItemLayout} {cell' : Cell K V} (ok : CellOk mark heap cell)
    {bit : BitVec 64} {item : Item K V} (bound : item.version.toNat < mark.bound)
    (inserted : cell.insertItem layout bit item = some cell') :
    CellOk mark heap cell' ∧ cell'.consumedHashBits = cell.consumedHashBits := by
  unfold Cell.insertItem at inserted
  split at inserted
  · cases inserted
    refine ⟨⟨ok.nodes, fun other mem => ?_⟩, rfl⟩
    rcases List.eq_or_mem_of_mem_insertIdx mem with rfl | old
    · exact bound
    · exact ok.items other old
  · cases inserted

theorem CellOk.eraseItem (layout : ItemLayout) (ok : CellOk mark heap cell) (bit : BitVec 64) :
    CellOk mark heap (cell.eraseItem layout bit) :=
  ⟨ok.nodes, fun item mem => ok.items item (List.mem_of_mem_eraseIdx mem)⟩

/-! ### The heap -/

theorem Extends.write {address : Nat} {cell cell' : Cell K V}
    (holds : heap.cells address = some cell)
    (level : cell'.consumedHashBits = cell.consumedHashBits) :
    Extends heap (heap.write address cell') := by
  refine ⟨Nat.le_refl _, fun other found inside => ?_⟩
  by_cases same : other = address
  · subst same
    rw [holds] at inside
    cases inside
    exact ⟨cell', Function.update_self .., level⟩
  · exact ⟨found, (Function.update_of_ne same ..).trans inside, rfl⟩

theorem HeapOk.write (ok : HeapOk mark old heap) {address : Nat} {cell cell' : Cell K V}
    (above : mark.address ≤ address) (holds : heap.cells address = some cell)
    (level : cell'.consumedHashBits = cell.consumedHashBits) (cellOk : CellOk mark heap cell') :
    HeapOk mark old (heap.write address cell') := by
  have extends' := Extends.write holds level
  refine ⟨ok.same.write above cell', ok.above, fun other found inside => ?_,
    fun other found inside => ?_⟩
  · by_cases same : other = address
    · subst same
      exact ok.fresh other cell holds
    · exact ok.fresh other found ((Function.update_of_ne same ..).symm.trans inside)
  · rcases SharedHeap.write_cases inside with rfl | inside
    · exact cellOk.extend extends'
    · exact (ok.cells other found inside).extend extends'

theorem HeapOk.unallocated (ok : HeapOk mark old heap) {address : Nat}
    (holds : heap.cells address = some cell) : address ≠ heap.freeAddress :=
  Nat.ne_of_lt (ok.fresh address cell holds)

theorem HeapOk.extends_allocate (ok : HeapOk mark old heap) (cell : Cell K V) :
    Extends heap (heap.allocate cell) := by
  refine ⟨Nat.le_succ _, fun address found holds => ⟨found, ?_, rfl⟩⟩
  exact (Function.update_of_ne (ok.unallocated holds) ..).trans holds

theorem HeapOk.allocate (ok : HeapOk mark old heap) (cellOk : CellOk mark heap cell) :
    HeapOk mark old (heap.allocate cell) := by
  have extends' := ok.extends_allocate cell
  refine ⟨ok.same.allocate ok.above cell, Nat.le_succ_of_le ok.above,
    fun other found inside => ?_, fun other found inside => ?_⟩
  · by_cases same : other = heap.freeAddress
    · rw [same]
      exact Nat.lt_succ_self _
    · have before := (Function.update_of_ne same ..).symm.trans inside
      exact Nat.lt_succ_of_lt (ok.fresh other found before)
  · rcases SharedHeap.allocate_cases inside with rfl | inside
    · exact cellOk.extend extends'
    · exact (ok.cells other found inside).extend extends'

theorem HeapOk.allocate_refOk (ok : HeapOk mark old heap) (cell : Cell K V)
    {timeline : BitVec 64} (bound : timeline.toNat < mark.bound) :
    RefOk mark (heap.allocate cell) cell.consumedHashBits (timeline, some heap.freeAddress) := by
  refine ⟨fun _ _ => bound, ?_, ?_⟩
  · rintro _ ⟨⟩ below
    exact absurd below (Nat.not_lt.mpr ok.above)
  · rintro _ ⟨⟩
    exact ⟨cell, Function.update_self .., rfl⟩

end Invariant

/-! ### The memory of a call -/

structure MemoryOk (old : SharedHeap (Cell K V)) (memory : Mutable K V) : Prop where
  heap : HeapOk mark old memory.heap
  roots : ∀ index, RefOk mark memory.heap rootNodesLog2 (memory.rootNodes index)

/-- The place may be written to, and refers to a node with so many bits consumed. -/
def Place.At (memory : Mutable K V) (consumed : Nat) : Place → Prop
  | .root _ => consumed = rootNodesLog2
  | .child address _ => mark.address ≤ address ∧
      ∃ cell, memory.heap.cells address = some cell ∧ cell.consumedHashBits + 6 = consumed

theorem Place.at_root (memory : Mutable K V) (index : Fin 16) :
    (Place.root index).At mark memory rootNodesLog2 := rfl

def Place.isRoot : Place → Bool
  | .root _ => true
  | .child _ _ => false

/-- The node at the place may be written to. -/
def Place.Owned (memory : Mutable K V) (place : Place) : Prop :=
  ∀ ref pointer, memory.load place = some ref → ref.2 = some pointer → mark.address ≤ pointer

/-- A call at a place keeps the invariant and leaves everything above it alone. -/
structure Advances (old : SharedHeap (Cell K V)) (place : Place) (consumed : Nat)
    (memory memory' : Mutable K V) : Prop where
  ok : MemoryOk mark old memory'
  extends' : Extends memory.heap memory'.heap
  untouched : ∀ address cell, memory.heap.cells address = some cell →
    cell.consumedHashBits + 6 < consumed → memory'.heap.cells address = some cell
  roots : place.isRoot = false → memory'.rootNodes = memory.rootNodes

/-- The timeline of a call since the mark. -/
structure Later (timeline : BitVec 64) : Prop where
  later : mark.address = 0 ∨ mark.limit ≤ timeline.toNat
  bound : timeline.toNat < mark.bound

section Calls

variable {mark : Mark} {old : SharedHeap (Cell K V)} {memory memory' middle : Mutable K V}
  {place : Place} {consumed : Nat}

theorem Advances.refl (ok : MemoryOk mark old memory) (place : Place) (consumed : Nat) :
    Advances mark old place consumed memory memory :=
  ⟨ok, Extends.refl _, fun _ _ holds _ => holds, fun _ => rfl⟩

theorem Advances.trans (first : Advances mark old place consumed memory middle)
    (second : Advances mark old place consumed middle memory') :
    Advances mark old place consumed memory memory' := by
  refine ⟨second.ok, first.extends'.trans second.extends', fun address cell holds above => ?_,
    fun child => (second.roots child).trans (first.roots child)⟩
  exact second.untouched address cell (first.untouched address cell holds above) above

variable {address : Nat} {bit timeline : BitVec 64} {ref : NodeRef} {cell : Cell K V}

theorem Advances.outer
    (inner : Advances mark old (.child address bit) (consumed + 6) memory memory') :
    Advances mark old place consumed memory memory' := by
  refine ⟨inner.ok, inner.extends', fun other cell holds above => ?_, fun _ => inner.roots rfl⟩
  exact inner.untouched other cell holds (Nat.lt_of_lt_of_le above (Nat.le_add_right _ _))

theorem Place.At.extend (extends' : Extends memory.heap memory'.heap)
    (here : place.At mark memory consumed) : place.At mark memory' consumed := by
  cases place with
  | root index => exact here
  | child address bit =>
    obtain ⟨above, cell, holds, level⟩ := here
    obtain ⟨cell', holds', same⟩ := extends'.level address cell holds
    exact ⟨above, cell', holds', by rw [same, level]⟩

theorem MemoryOk.load_ok (ok : MemoryOk mark old memory) (here : place.At mark memory consumed)
    (loaded : memory.load place = some ref) :
    RefOk mark memory.heap consumed ref := by
  cases place with
  | root index =>
    cases loaded
    cases here
    exact ok.roots index
  | child address bit =>
    obtain ⟨-, cell, holds, rfl⟩ := here
    simp only [Mutable.load, holds, Option.bind_eq_bind, Option.bind_some] at loaded
    exact (ok.heap.cells address cell holds).nodes ref (List.mem_of_getElem? loaded)

theorem MemoryOk.node_ok (ok : MemoryOk mark old memory) (here : place.At mark memory consumed)
    (loaded : memory.load place = some ref) (points : ref.2 = some address)
    (holds : memory.heap.cells address = some cell) :
    CellOk mark memory.heap cell ∧ cell.consumedHashBits = consumed := by
  obtain ⟨found, holds', level⟩ := (ok.load_ok here loaded).level address points
  rw [holds] at holds'
  cases holds'
  exact ⟨ok.heap.cells address cell holds, level⟩

theorem MemoryOk.write (ok : MemoryOk mark old memory) {address : Nat} {cell cell' : Cell K V}
    (above : mark.address ≤ address) (holds : memory.heap.cells address = some cell)
    (level : cell.consumedHashBits = consumed) (cellOk : CellOk mark memory.heap cell')
    (same : cell'.consumedHashBits = consumed) {depth : Nat} (deep : depth ≤ consumed + 6) :
    Advances mark old place depth memory (memory.write address cell') := by
  have level' := same.trans level.symm
  have extends' := Extends.write holds level'
  refine ⟨⟨ok.heap.write above holds level' cellOk, fun index => (ok.roots index).extend extends'⟩,
    extends', fun other found inside higher => ?_, fun _ => rfl⟩
  refine (Function.update_of_ne ?_ ..).trans inside
  rintro rfl
  rw [holds] at inside
  cases inside
  omega

theorem MemoryOk.allocate (ok : MemoryOk mark old memory) (timeline : BitVec 64)
    (cellOk : CellOk mark memory.heap cell) :
    Advances mark old place consumed memory (memory.allocate timeline cell).1 := by
  have extends' := ok.heap.extends_allocate cell
  refine ⟨⟨ok.heap.allocate cellOk, fun index => (ok.roots index).extend extends'⟩, extends',
    fun address found holds _ => ?_, fun _ => rfl⟩
  exact (Function.update_of_ne (ok.heap.unallocated holds) ..).trans holds

theorem MemoryOk.store (ok : MemoryOk mark old memory) (here : place.At mark memory consumed)
    (refOk : RefOk mark memory.heap consumed ref) (stored : memory.store ref place = some memory') :
    Advances mark old place consumed memory memory' ∧
      ∀ ref', memory'.load place = some ref' → ref' = ref := by
  cases place with
  | root index =>
    cases stored
    cases here
    refine ⟨⟨⟨ok.heap, fun other => ?_⟩, Extends.refl _, fun _ _ holds _ => holds, nofun⟩,
      fun ref' loaded => ?_⟩
    · change RefOk mark memory.heap _ (Function.update memory.rootNodes index ref other)
      by_cases same : other = index
      · rw [same, Function.update_self]
        exact refOk
      · rw [Function.update_of_ne same]
        exact ok.roots other
    · change some (Function.update memory.rootNodes index ref index) = _ at loaded
      rw [Function.update_self] at loaded
      exact (Option.some.inj loaded).symm
  | child address bit =>
    obtain ⟨above, cell, holds, rfl⟩ := here
    simp only [Mutable.store, holds, Option.bind_eq_bind, Option.bind_some, Option.pure_def]
      at stored
    cases stored
    have cellOk := (ok.heap.cells address cell holds).assignNodeBit bit refOk
    have extends' := @Extends.write _ _ memory.heap _ _ (cell.assignNodeBit bit ref) holds rfl
    refine ⟨⟨⟨ok.heap.write above holds rfl cellOk, fun index => (ok.roots index).extend extends'⟩,
      extends', fun other found inside higher => ?_, fun _ => rfl⟩, fun ref' loaded => ?_⟩
    · refine (Function.update_of_ne ?_ ..).trans inside
      rintro rfl
      rw [holds] at inside
      cases inside
      exact absurd higher (Nat.lt_irrefl _)
    · have written : (memory.heap.write address (cell.assignNodeBit bit ref)).cells address =
          some (cell.assignNodeBit bit ref) := Function.update_self ..
      simp only [Mutable.load, written, Option.bind_eq_bind, Option.bind_some] at loaded
      change (cell.nodes.set (popcount (cell.nodeBitmap &&& (bit - 1#64))) ref)[
        popcount (cell.nodeBitmap &&& (bit - 1#64))]? = some ref' at loaded
      rw [List.getElem?_set_self'] at loaded
      obtain ⟨_, -, same⟩ := Option.map_eq_some_iff.mp loaded
      exact same.symm

theorem MemoryOk.makeUnique (ok : MemoryOk mark old memory) (here : place.At mark memory consumed)
    (later : Later mark timeline) (made : memory.makeUnique timeline place = some memory') :
    Advances mark old place consumed memory memory' ∧ place.Owned mark memory' := by
  unfold Mutable.makeUnique at made
  cases loaded : memory.load place with
  | none =>
    simp only [loaded, Option.bind_eq_bind, Option.bind_none] at made
    cases made
  | some ref =>
    obtain ⟨first, node⟩ := ref
    simp only [loaded, Option.bind_eq_bind, Option.bind_some, Option.pure_def] at made
    split at made
    next other =>
      cases node with
      | none => cases made
      | some address =>
        simp only [Option.bind_some] at made
        cases holds : memory.heap.cells address with
        | none =>
          simp only [holds, Option.bind_none] at made
          cases made
        | some cell =>
          simp only [holds, Option.bind_some] at made
          obtain ⟨cellOk, level⟩ := ok.node_ok here loaded rfl holds
          have copied : Advances mark old place consumed memory
              (memory.allocate timeline cell).1 := ok.allocate timeline cellOk
          have refOk := ok.heap.allocate_refOk cell later.bound
          rw [level] at refOk
          obtain ⟨stored, same⟩ := copied.ok.store (here.extend copied.extends') refOk made
          refine ⟨copied.trans stored, fun ref pointer loaded points => ?_⟩
          rw [same ref loaded] at points
          cases points
          exact ok.heap.above
    next same =>
      cases made
      refine ⟨Advances.refl ok place consumed, fun ref pointer loaded' points => ?_⟩
      rw [loaded] at loaded'
      cases loaded'
      rcases Nat.lt_or_ge pointer mark.address with below | above
      · have shared := (ok.load_ok here loaded).shared pointer points below
        rw [not_not.mp same] at shared
        rcases later.later with zero | after
        · rw [zero] at below
          exact absurd below (Nat.not_lt_zero pointer)
        · exact absurd after (Nat.not_le.mpr shared)
      · exact above

theorem MemoryOk.unique_node (ok : MemoryOk mark old memory) (here : place.At mark memory consumed)
    (owned : place.Owned mark memory) (loaded : memory.load place = some ref)
    (points : ref.2 = some address) (holds : memory.heap.cells address = some cell) :
    mark.address ≤ address ∧ CellOk mark memory.heap cell ∧ cell.consumedHashBits = consumed ∧
      ∀ bit, Place.At mark memory (consumed + 6) (.child address bit) := by
  obtain ⟨cellOk, level⟩ := ok.node_ok here loaded points holds
  have above := owned ref address loaded points
  exact ⟨above, cellOk, level, fun bit => ⟨above, cell, holds, by rw [level]⟩⟩

theorem MemoryOk.promoteItemToNode (ok : MemoryOk mark old memory) {layout : ItemLayout}
    {hash : K → BitVec 64} (above : mark.address ≤ address)
    (holds : memory.heap.cells address = some cell) (level : cell.consumedHashBits = consumed)
    (room : consumed + 6 < 2 ^ 8)
    (promoted : memory.promoteItemToNode layout hash address bit = some memory') :
    Advances mark old place consumed memory memory' := by
  have cellOk := ok.heap.cells address cell holds
  simp only [Mutable.promoteItemToNode, holds, Option.bind_eq_bind, Option.bind_some,
    Option.pure_def] at promoted
  obtain ⟨item, isItem, promoted⟩ := Option.bind_eq_some_iff.mp promoted
  obtain ⟨child, isChild, promoted⟩ := Option.bind_eq_some_iff.mp promoted
  obtain ⟨cell', inserted, promoted⟩ := Option.bind_eq_some_iff.mp promoted
  cases promoted
  have bound := cellOk.items item (List.mem_of_getElem? isItem)
  obtain ⟨childOk, childLevel⟩ := (CellOk.initial layout _).insertItem bound isChild
  have allocated : Advances mark old place consumed memory
      (memory.allocate item.version child).1 := ok.allocate item.version childOk
  have refOk := ok.heap.allocate_refOk child bound
  have initialLevel : child.consumedHashBits = consumed + 6 := by
    rw [childLevel]
    change (cell.consumedHashBits + 6) % 2 ^ 8 = _
    rw [level, Nat.mod_eq_of_lt room]
  have erasedOk := (cellOk.eraseItem layout bit).extend allocated.extends'
  rw [initialLevel, ← level] at refOk
  obtain ⟨insertedOk, insertedLevel⟩ := erasedOk.insertNode refOk inserted
  have still : (memory.allocate item.version child).1.heap.cells address = some cell :=
    (Function.update_of_ne (ok.heap.unallocated holds) ..).trans holds
  exact allocated.trans
    (allocated.ok.write above still level insertedOk (insertedLevel.trans level)
      (Nat.le_add_right _ _))

theorem MemoryOk.expand (ok : MemoryOk mark old memory) (here : place.At mark memory consumed)
    {layout : ItemLayout} (expanded : memory.expand layout place = some (memory', address)) :
    Advances mark old place consumed memory memory' ∧ mark.address ≤ address ∧
      ∀ cell, memory'.heap.cells address = some cell → cell.consumedHashBits = consumed := by
  unfold Mutable.expand at expanded
  obtain ⟨ref, loaded, expanded⟩ := Option.bind_eq_some_iff.mp expanded
  obtain ⟨first, node⟩ := ref
  obtain ⟨pointer, points, expanded⟩ := Option.bind_eq_some_iff.mp expanded
  obtain ⟨cell, holds, expanded⟩ := Option.bind_eq_some_iff.mp expanded
  obtain ⟨stored, isStored, expanded⟩ := Option.bind_eq_some_iff.mp expanded
  cases expanded
  obtain ⟨cellOk, level⟩ := ok.node_ok here loaded points holds
  have wide : CellOk mark memory.heap (cell.expanded layout) := ⟨cellOk.nodes, cellOk.items⟩
  have allocated : Advances mark old place consumed memory
      (memory.allocate first (cell.expanded layout)).1 := ok.allocate first wide
  have refOk := ok.heap.allocate_refOk (cell.expanded layout) ((ok.load_ok here loaded).bound pointer points)
  have wideLevel : (cell.expanded layout).consumedHashBits = consumed := level
  rw [wideLevel] at refOk
  obtain ⟨stores, -⟩ := allocated.ok.store (here.extend allocated.extends') refOk isStored
  refine ⟨allocated.trans stores, ok.heap.above, fun found inside => ?_⟩
  have placed : (memory.allocate first (cell.expanded layout)).1.heap.cells
      memory.heap.freeAddress = some (cell.expanded layout) := Function.update_self ..
  obtain ⟨kept, holds', same⟩ := stores.extends'.level _ _ placed
  rw [inside] at holds'
  cases holds'
  exact same.trans wideLevel

theorem MemoryOk.insert [DecidableEq K] {layout : ItemLayout} {hash : K → BitVec 64}
    (later : Later mark timeline) {key : K} {valuePtr : V} {levels : Nat}
    (ok : MemoryOk mark old memory) (here : place.At mark memory consumed)
    (deep : consumed + 6 * levels = 64) {hashBits : BitVec 64} {added : Bool}
    (inserted : memory.insert layout hash timeline key valuePtr levels place hashBits =
      some (memory', added)) :
    Advances mark old place consumed memory memory' := by
  induction levels generalizing memory place consumed hashBits with
  | zero => cases inserted
  | succ levels ih =>
    unfold Mutable.insert at inserted
    obtain ⟨unique, made, inserted⟩ := Option.bind_eq_some_iff.mp inserted
    obtain ⟨ref, loaded, inserted⟩ := Option.bind_eq_some_iff.mp inserted
    obtain ⟨first, node⟩ := ref
    obtain ⟨address, points, inserted⟩ := Option.bind_eq_some_iff.mp inserted
    obtain ⟨cell, holds, inserted⟩ := Option.bind_eq_some_iff.mp inserted
    obtain ⟨copies, owned⟩ := ok.makeUnique here later made
    obtain ⟨above, cellOk, level, below⟩ :=
      copies.ok.unique_node (here.extend copies.extends') owned loaded points holds
    refine copies.trans ?_
    have deeper : consumed + 6 + 6 * levels = 64 := by omega
    dsimp only at inserted
    split at inserted
    · exact (ih copies.ok (below _) deeper inserted).outer
    · split at inserted
      · obtain ⟨item, isItem, inserted⟩ := Option.bind_eq_some_iff.mp inserted
        split at inserted
        · cases inserted
          exact copies.ok.write above holds level (cellOk.assignItemBit _ later.bound) level
            (Nat.le_add_right _ _)
        · obtain ⟨promoted, isPromoted, inserted⟩ := Option.bind_eq_some_iff.mp inserted
          have promotes : Advances mark old place consumed unique promoted :=
            copies.ok.promoteItemToNode above holds level (by omega) isPromoted
          exact promotes.trans
            (ih promotes.ok ((below _).extend promotes.extends') deeper inserted).outer
      · split at inserted
        · obtain ⟨⟨expanded, wide⟩, isExpanded, inserted⟩ :=
            Option.bind_eq_some_iff.mp inserted
          obtain ⟨cell', holds', inserted⟩ := Option.bind_eq_some_iff.mp inserted
          obtain ⟨stored, isStored, inserted⟩ := Option.bind_eq_some_iff.mp inserted
          cases inserted
          obtain ⟨expands, aboveWide, levelWide⟩ :=
            copies.ok.expand (here.extend copies.extends') isExpanded
          obtain ⟨storedOk, storedLevel⟩ :=
            (expands.ok.heap.cells wide cell' holds').insertItem later.bound isStored
          exact expands.trans (expands.ok.write aboveWide holds' (levelWide cell' holds') storedOk
            (storedLevel.trans (levelWide cell' holds')) (Nat.le_add_right _ _))
        · obtain ⟨stored, isStored, inserted⟩ := Option.bind_eq_some_iff.mp inserted
          cases inserted
          obtain ⟨storedOk, storedLevel⟩ := cellOk.insertItem later.bound isStored
          exact copies.ok.write above holds level storedOk (storedLevel.trans level)
            (Nat.le_add_right _ _)

/-- The child that an item is moved out of is one that may be written to. -/
theorem MemoryOk.tryShrinkChildNode [Inhabited V] (ok : MemoryOk mark old memory)
    {layout : ItemLayout} (above : mark.address ≤ address)
    (holds : memory.heap.cells address = some cell) (level : cell.consumedHashBits = consumed)
    (owned : (Place.child address bit).Owned mark memory)
    (shrunk : memory.tryShrinkChildNode layout address bit = some memory') :
    Advances mark old (.child address bit) (consumed + 6) memory memory' := by
  have cellOk := ok.heap.cells address cell holds
  have below : Place.At mark memory (consumed + 6) (.child address bit) :=
    ⟨above, cell, holds, by rw [level]⟩
  simp only [Mutable.tryShrinkChildNode, holds, Option.bind_eq_bind, Option.bind_some,
    Option.pure_def] at shrunk
  obtain ⟨⟨first, node⟩, isRef, shrunk⟩ := Option.bind_eq_some_iff.mp shrunk
  obtain ⟨childAddress, points, shrunk⟩ := Option.bind_eq_some_iff.mp shrunk
  obtain ⟨child, isChild, shrunk⟩ := Option.bind_eq_some_iff.mp shrunk
  have loaded : memory.load (.child address bit) = some (first, node) := by
    simp only [Mutable.load, holds, Option.bind_eq_bind, Option.bind_some]
    exact isRef
  obtain ⟨childAbove, childOk, childLevel, -⟩ :=
    ok.unique_node below owned loaded points isChild
  split at shrunk
  · cases shrunk
    exact Advances.refl ok _ _
  · split at shrunk
    · cases shrunk
      exact ok.write above holds level (cellOk.eraseNode bit) level (Nat.le_refl _)
    · split at shrunk
      · cases shrunk
        exact Advances.refl ok _ _
      · split at shrunk
        · obtain ⟨item, isItem, shrunk⟩ := Option.bind_eq_some_iff.mp shrunk
          obtain ⟨cell', isStored, shrunk⟩ := Option.bind_eq_some_iff.mp shrunk
          cases shrunk
          have bound := childOk.items item (List.mem_of_getElem? isItem)
          have emptied : CellOk mark memory.heap
              { child with items := child.items.set 0 (Mutable.movedFrom item) } := by
            refine ⟨childOk.nodes, fun other mem => ?_⟩
            rcases List.mem_or_eq_of_mem_set mem with old | rfl
            · exact childOk.items other old
            · exact bound
          have moves : Advances mark old (.child address bit) (consumed + 6) memory
              (memory.write childAddress
                { child with items := child.items.set 0 (Mutable.movedFrom item) }) :=
            ok.write childAbove isChild childLevel emptied childLevel (Nat.le_add_right _ _)
          obtain ⟨storedOk, storedLevel⟩ :=
            ((cellOk.eraseNode bit).extend moves.extends').insertItem bound isStored
          have apart : address ≠ childAddress := by
            rintro rfl
            rw [holds] at isChild
            cases isChild
            omega
          have still : (memory.write childAddress { child with
              items := child.items.set 0 (Mutable.movedFrom item) }).heap.cells address =
              some cell := (Function.update_of_ne apart ..).trans holds
          exact moves.trans
            (moves.ok.write above still level storedOk (storedLevel.trans level) (Nat.le_refl _))
        · cases shrunk
          exact Advances.refl ok _ _

theorem Advances.load_same
    (inner : Advances mark old (.child address bit) (consumed + 6) memory memory')
    (here : place.At mark memory consumed) : memory'.load place = memory.load place := by
  cases place with
  | root index =>
    change some (memory'.rootNodes index) = some (memory.rootNodes index)
    rw [inner.roots rfl]
  | child outer outerBit =>
    obtain ⟨-, cell, holds, level⟩ := here
    have still := inner.untouched outer cell holds (by omega)
    simp only [Mutable.load, holds, still]

theorem Place.Owned.after (owned : place.Owned mark memory)
    (inner : Advances mark old (.child address bit) (consumed + 6) memory memory')
    (here : place.At mark memory consumed) : place.Owned mark memory' := by
  intro ref pointer loaded points
  rw [inner.load_same here] at loaded
  exact owned ref pointer loaded points

/-- `Node::erase`: if the key was there, the node is not one from below the mark. -/
theorem MemoryOk.erase [DecidableEq K] [Inhabited V] {layout : ItemLayout}
    (later : Later mark timeline) {key : K} {levels : Nat} (ok : MemoryOk mark old memory)
    (here : place.At mark memory consumed) {hashBits : BitVec 64} {erased : Bool}
    (erases : memory.erase layout timeline key levels place hashBits = some (memory', erased)) :
    Advances mark old place consumed memory memory' ∧
      (erased = true → place.Owned mark memory') := by
  induction levels generalizing memory memory' place consumed hashBits erased with
  | zero => cases erases
  | succ levels ih =>
    unfold Mutable.erase at erases
    obtain ⟨⟨first, node⟩, loaded, erases⟩ := Option.bind_eq_some_iff.mp erases
    obtain ⟨shared, points, erases⟩ := Option.bind_eq_some_iff.mp erases
    obtain ⟨cell, holds, erases⟩ := Option.bind_eq_some_iff.mp erases
    dsimp only at erases
    split at erases
    · obtain ⟨item, isItem, erases⟩ := Option.bind_eq_some_iff.mp erases
      split at erases
      · cases erases
        exact ⟨Advances.refl ok place consumed, nofun⟩
      · obtain ⟨unique, made, erases⟩ := Option.bind_eq_some_iff.mp erases
        obtain ⟨⟨first', node'⟩, loaded', erases⟩ := Option.bind_eq_some_iff.mp erases
        obtain ⟨address, points', erases⟩ := Option.bind_eq_some_iff.mp erases
        obtain ⟨cell', holds', erases⟩ := Option.bind_eq_some_iff.mp erases
        cases erases
        obtain ⟨copies, owned⟩ := ok.makeUnique here later made
        obtain ⟨above, cellOk, level, -⟩ :=
          copies.ok.unique_node (here.extend copies.extends') owned loaded' points' holds'
        have removes : Advances mark old (.child address 0#64) (consumed + 6) unique
            (unique.write address (cell'.eraseItem layout (selectBit hashBits))) :=
          copies.ok.write above holds' level (cellOk.eraseItem layout _) level (Nat.le_refl _)
        exact ⟨copies.trans removes.outer,
          fun _ => owned.after removes (here.extend copies.extends')⟩
    · split at erases
      · cases erases
        exact ⟨Advances.refl ok place consumed, nofun⟩
      · obtain ⟨unique, made, erases⟩ := Option.bind_eq_some_iff.mp erases
        obtain ⟨⟨first', node'⟩, loaded', erases⟩ := Option.bind_eq_some_iff.mp erases
        obtain ⟨address, points', erases⟩ := Option.bind_eq_some_iff.mp erases
        obtain ⟨⟨below, removed⟩, inner, erases⟩ := Option.bind_eq_some_iff.mp erases
        obtain ⟨copies, owned⟩ := ok.makeUnique here later made
        have here' := here.extend copies.extends'
        obtain ⟨cell', holds', level⟩ := (copies.ok.load_ok here' loaded').level address points'
        obtain ⟨above, -, -, inside⟩ :=
          copies.ok.unique_node here' owned loaded' points' holds'
        obtain ⟨removes, ownedBelow⟩ := ih copies.ok (inside _) inner
        dsimp only at erases
        split at erases
        next here'' =>
          obtain ⟨small, isSmall, erases⟩ := Option.bind_eq_some_iff.mp erases
          cases erases
          obtain ⟨kept, holdsKept, sameLevel⟩ := removes.extends'.level address cell' holds'
          have shrinks := removes.ok.tryShrinkChildNode above holdsKept
            (sameLevel.trans level) (ownedBelow here'') isSmall
          have changes := removes.trans shrinks
          exact ⟨copies.trans changes.outer, fun _ => owned.after changes here'⟩
        next =>
          cases erases
          exact ⟨copies.trans removes.outer, nofun⟩

end Calls

/-! ## Runs -/

section Runs

variable {Name : Type} {layout : ItemLayout} {hash : K → BitVec 64}

/-- The invariant of all tries together. -/
structure StateOk (mark : Mark) (old : SharedHeap (Cell K V)) (state : State Name K V) :
    Prop where
  heap : HeapOk mark old state.heap
  roots : ∀ name index,
    RefOk mark state.heap rootNodesLog2 ((state.tries name).rootNodes index)

variable {mark : Mark} {old : SharedHeap (Cell K V)} {state state' : State Name K V}

theorem StateOk.memory (ok : StateOk mark old state) (name : Name) :
    MemoryOk mark old ⟨state.heap, (state.tries name).rootNodes⟩ :=
  ⟨ok.heap, ok.roots name⟩

variable [DecidableEq Name]

variable {name : Name}

theorem StateOk.update (ok : StateOk mark old state) {memory' : Mutable K V} {place : Place}
    {consumed : Nat} (advances : Advances mark old place consumed
      ⟨state.heap, (state.tries name).rootNodes⟩ memory') (size : Nat) :
    StateOk mark old
      ⟨memory'.heap, Function.update state.tries name ⟨size, memory'.rootNodes⟩⟩ := by
  refine ⟨advances.ok.heap, fun other index => ?_⟩
  change RefOk mark memory'.heap _
    ((Function.update state.tries name ⟨size, memory'.rootNodes⟩ other).rootNodes index)
  by_cases same : other = name
  · rw [same, Function.update_self]
    exact advances.ok.roots index
  · rw [Function.update_of_ne same]
    exact (ok.roots other index).extend advances.extends'

theorem MemoryOk.prepareRoot {memory memory' : Mutable K V} (ok : MemoryOk mark old memory)
    {timeline : BitVec 64} (later : Later mark timeline) {index : Fin 16}
    (prepared : State.prepareRoot layout memory timeline index = some memory') :
    Advances mark old (.root index) rootNodesLog2 memory memory' := by
  unfold State.prepareRoot at prepared
  cases node : (memory.rootNodes index).2 with
  | some address =>
    simp only [node] at prepared
    cases prepared
    exact Advances.refl ok _ _
  | none =>
    simp only [node] at prepared
    have initialOk : CellOk mark memory.heap (Cell.initial layout rootNodesLog2 : Cell K V) :=
      CellOk.initial layout _
    have allocated : Advances mark old (.root index) rootNodesLog2 memory
        (memory.allocate timeline (Cell.initial layout rootNodesLog2)).1 :=
      ok.allocate timeline initialOk
    have refOk := ok.heap.allocate_refOk (Cell.initial layout rootNodesLog2) later.bound
    exact allocated.trans (allocated.ok.store (Place.at_root ..) refOk prepared).1

variable [DecidableEq K] [Inhabited V]

/-- What a call must not have: a timeline from before the mark. -/
def Operation.LaterThan (mark : Mark) (operation : Operation Name K V) : Prop :=
  ∀ timeline, operation.timeline = some timeline → Later mark timeline

theorem step_ok (state : State Name K V) (operation : Operation Name K V)
    (state' : State Name K V) (ok : StateOk mark old state)
    (later : operation.LaterThan mark)
    (stepped : state.step layout hash operation = some state') : StateOk mark old state' := by
  cases operation with
  | insert name timeline key valuePtr =>
    obtain ⟨prepared, isPrepared, stepped⟩ := Option.bind_eq_some_iff.mp stepped
    obtain ⟨⟨memory, added⟩, inserted, stepped⟩ := Option.bind_eq_some_iff.mp stepped
    cases stepped
    have prepares := (ok.memory name).prepareRoot (later timeline rfl) isPrepared
    exact ok.update (prepares.trans
      (prepares.ok.insert (later timeline rfl) (Place.at_root ..) rfl inserted)) _
  | erase name timeline key =>
    simp only [State.step, State.erase] at stepped
    split at stepped
    · cases stepped
      exact ok
    · obtain ⟨⟨memory, erased⟩, erases, stepped⟩ := Option.bind_eq_some_iff.mp stepped
      cases stepped
      exact ok.update ((ok.memory name).erase (later timeline rfl) (Place.at_root ..) erases).1 _
  | copy source target =>
    cases stepped
    refine ⟨ok.heap, fun name index => ?_⟩
    change RefOk mark state.heap _
      ((Function.update state.tries target (state.tries source) name).rootNodes index)
    by_cases same : name = target
    · rw [same, Function.update_self]
      exact ok.roots source index
    · rw [Function.update_of_ne same]
      exact ok.roots name index

theorem step_other {state state' : State Name K V} {operation : Operation Name K V}
    (other : operation.changes ≠ name) (stepped : state.step layout hash operation = some state') :
    state'.tries name = state.tries name := by
  cases operation with
  | insert called timeline key valuePtr =>
    obtain ⟨prepared, isPrepared, stepped⟩ := Option.bind_eq_some_iff.mp stepped
    obtain ⟨⟨memory, added⟩, inserted, stepped⟩ := Option.bind_eq_some_iff.mp stepped
    cases stepped
    exact Function.update_of_ne other.symm _ _
  | erase called timeline key =>
    simp only [State.step, State.erase] at stepped
    split at stepped
    · cases stepped
      rfl
    · obtain ⟨⟨memory, erased⟩, erases, stepped⟩ := Option.bind_eq_some_iff.mp stepped
      cases stepped
      exact Function.update_of_ne other.symm _ _
  | copy source target =>
    cases stepped
    exact Function.update_of_ne other.symm _ _

/-- What can be asked of a trie has the same answers in both states. -/
structure SameAnswers (hash : K → BitVec 64) (state : State Name K V) (name : Name)
    (state' : State Name K V) (name' : Name) : Prop where
  size : (state'.tries name').size = (state.tries name).size
  find : ∀ key, (state'.tries name').find hash state'.heap key =
    (state.tries name).find hash state.heap key
  findFirst : (state'.tries name').findFirst state'.heap =
    (state.tries name).findFirst state.heap
  findNext : ∀ key, (state'.tries name').findNext hash state'.heap key =
    (state.tries name).findNext hash state.heap key
  enumeration : ∀ count, (state'.tries name').enumeration hash state'.heap count =
    (state.tries name).enumeration hash state.heap count

omit [DecidableEq Name] [Inhabited V] in
/-- A trie whose nodes are all below the mark has the same answers in two heaps that
are the same below the mark. -/
theorem sameAnswers_of_sameBelow {name' : Name} {mark : Nat}
    (closed : SharedHeap.ClosedBelow Cell.pointers mark state.heap)
    (same : SharedHeap.SameBelow mark state.heap state'.heap)
    (sameTrie : state'.tries name' = state.tries name)
    (roots : ∀ index pointer, ((state.tries name).rootNodes index).2 = some pointer →
      pointer < mark) : SameAnswers hash state name state' name' := by
  have first : ∀ indices, (state.tries name).firstOfRoots state'.heap indices =
      (state.tries name).firstOfRoots state.heap indices := by
    intro indices
    induction indices with
    | nil => simp only [Trie.firstOfRoots]
    | cons index rest ih =>
      unfold Trie.firstOfRoots
      cases node : ((state.tries name).rootNodes index).2 with
      | none =>
        dsimp only
        exact ih
      | some pointer =>
        dsimp only
        rw [findFirstItem_same closed same _ _ (roots index pointer node), ih]
  have next : ∀ key, (state'.tries name').findNext hash state'.heap key =
      (state.tries name).findNext hash state.heap key := by
    intro key
    unfold Trie.findNext
    rw [sameTrie]
    dsimp only
    cases node : ((state.tries name).rootNodes (rootIndex (hash key))).2 with
    | none =>
      dsimp only
      simp only [first]
    | some pointer =>
      dsimp only
      rw [findNextItem_same closed same hash _ _ _ (roots _ pointer node)]
      simp only [first]
  have firstItem : (state'.tries name').findFirst state'.heap =
      (state.tries name).findFirst state.heap := by
    unfold Trie.findFirst
    rw [sameTrie]
    exact first _
  refine ⟨by rw [sameTrie], fun key => ?_, firstItem, next, fun count => ?_⟩
  · unfold Trie.find
    rw [sameTrie]
    cases node : ((state.tries name).rootNodes (rootIndex (hash key))).2 with
    | none => rfl
    | some pointer => exact findFrom_same closed same key _ _ _ (roots _ pointer node)
  · have follow : ∀ count item,
        Trie.enumeration.follow hash state'.heap (state'.tries name') count item =
          Trie.enumeration.follow hash state.heap (state.tries name) count item := by
      intro count
      induction count with
      | zero => exact fun _ => rfl
      | succ count ih =>
        intro item
        simp only [Trie.enumeration.follow, next, ih]
    simp only [Trie.enumeration, firstItem, follow]

omit [DecidableEq Name] [DecidableEq K] [Inhabited V] in
theorem exists_limit {before after : List (Operation Name K V)}
    (later : ∀ earlier ∈ before, ∀ operation ∈ after, ∀ first second,
      earlier.timeline = some first → operation.timeline = some second → first < second) :
    ∃ limit, (∀ operation ∈ before, ∀ timeline, operation.timeline = some timeline →
        timeline.toNat < limit) ∧
      ∀ operation ∈ after, ∀ timeline, operation.timeline = some timeline →
        limit ≤ timeline.toNat := by
  induction before with
  | nil => exact ⟨0, fun _ mem => absurd mem List.not_mem_nil, fun _ _ _ _ => Nat.zero_le _⟩
  | cons earlier before ih =>
    obtain ⟨limit, below, above⟩ := ih fun other mem =>
      later other (List.mem_cons_of_mem _ mem)
    cases time : earlier.timeline with
    | none =>
      refine ⟨limit, fun operation mem timeline used => ?_, above⟩
      rcases List.mem_cons.mp mem with rfl | mem
      · rw [time] at used
        cases used
      · exact below operation mem timeline used
    | some first =>
      refine ⟨max limit (first.toNat + 1), fun operation mem timeline used => ?_,
        fun operation mem timeline used => ?_⟩
      · rcases List.mem_cons.mp mem with rfl | mem
        · rw [time] at used
          cases used
          exact Nat.lt_of_lt_of_le (Nat.lt_succ_self _) (Nat.le_max_right _ _)
        · exact Nat.lt_of_lt_of_le (below operation mem timeline used) (Nat.le_max_left _ _)
      · have after' := later earlier List.mem_cons_self operation mem first timeline time used
        exact Nat.max_le.mpr ⟨above operation mem timeline used, BitVec.lt_def.mp after'⟩

omit [DecidableEq Name] [DecidableEq K] [Inhabited V] in
theorem initial_ok (limit : Nat) :
    StateOk ⟨0, limit, limit⟩ {} ({} : State Name K V) := by
  refine ⟨⟨fun _ _ => rfl, Nat.le_refl _, nofun, nofun⟩, fun _ _ => ⟨nofun, nofun, nofun⟩⟩

omit [DecidableEq Name] [DecidableEq K] [Inhabited V] in
theorem StateOk.now {limit : Nat} {old : SharedHeap (Cell K V)} {state : State Name K V}
    (ok : StateOk ⟨0, limit, limit⟩ old state) :
    StateOk ⟨state.heap.freeAddress, limit, 2 ^ 64⟩ state.heap state := by
  have refOk : ∀ consumed ref, RefOk ⟨0, limit, limit⟩ state.heap consumed ref →
      RefOk ⟨state.heap.freeAddress, limit, 2 ^ 64⟩ state.heap consumed ref :=
    fun consumed ref before => ⟨fun _ _ => ref.1.isLt, fun pointer points _ =>
      before.bound pointer points, before.level⟩
  refine ⟨⟨SharedHeap.SameBelow.refl _ _, Nat.le_refl _, ok.heap.fresh, fun address cell holds => ?_⟩,
    fun name index => refOk _ _ (ok.roots name index)⟩
  have before := ok.heap.cells address cell holds
  exact ⟨fun ref mem => refOk _ _ (before.nodes ref mem), fun item _ => item.version.isLt⟩

/-- A copy answers as the original did when it was copied, whatever is done to other
tries with timelines later than all those used up to then. -/
theorem run_copy_isolated {before after : List (Operation Name K V)} {source target : Name}
    {state copied final : State Name K V}
    (reached : State.run layout hash {} before = some state)
    (copies : state.step layout hash (.copy source target) = some copied)
    (continued : copied.run layout hash after = some final)
    (elsewhere : ∀ operation ∈ after, operation.changes ≠ target)
    (later : ∀ earlier ∈ before, ∀ operation ∈ after, ∀ first second,
      earlier.timeline = some first → operation.timeline = some second → first < second) :
    SameAnswers hash state source final target := by
  obtain ⟨limit, below, above⟩ := exists_limit later
  have stateOk : StateOk ⟨0, limit, limit⟩ {} state := by
    refine Runs.run_invariant step_ok (initial_ok limit) (Runs.stepsMeet_of_forall ?_ _) reached
    exact fun operation mem _ timeline used => ⟨Or.inl rfl, below operation mem timeline used⟩
  have marked := stateOk.now
  have copiedOk := step_ok state (.copy source target) copied marked nofun copies
  have preserved : ∀ (now : State Name K V) (operation : Operation Name K V) next,
      StateOk ⟨state.heap.freeAddress, limit, 2 ^ 64⟩ state.heap now ∧
        now.tries target = copied.tries target →
      operation.LaterThan ⟨state.heap.freeAddress, limit, 2 ^ 64⟩ ∧ operation.changes ≠ target →
      now.step layout hash operation = some next →
      StateOk ⟨state.heap.freeAddress, limit, 2 ^ 64⟩ state.heap next ∧
        next.tries target = copied.tries target := by
    intro now operation next ok meets stepped
    exact ⟨step_ok now operation next ok.1 meets.1 stepped,
      (step_other meets.2 stepped).trans ok.2⟩
  have kept := Runs.run_invariant preserved ⟨copiedOk, rfl⟩
    (Runs.stepsMeet_of_forall (fun operation mem _ =>
      ⟨fun timeline used => ⟨Or.inr (above operation mem timeline used), timeline.isLt⟩,
        elsewhere operation mem⟩) _) continued
  have inside : ∀ consumed ref pointer, RefOk ⟨0, limit, limit⟩ state.heap consumed ref →
      ref.2 = some pointer → pointer < state.heap.freeAddress := by
    intro consumed ref pointer ok points
    obtain ⟨cell, holds, -⟩ := ok.level pointer points
    exact stateOk.heap.fresh pointer cell holds
  refine sameAnswers_of_sameBelow ?_ kept.1.heap.same ?_
    fun index pointer points => inside _ _ pointer (stateOk.roots source index) points
  · intro address cell _ holds pointer mem
    obtain ⟨ref, isRef, points⟩ := List.mem_filterMap.mp mem
    exact inside _ ref pointer ((stateOk.heap.cells address cell holds).nodes ref isRef) points
  · cases copies
    exact kept.2.trans (Function.update_self ..)

end Runs

/-- Three keys, two of them in one slot of the root node. -/
def storedBefore : List (Operation (Fin 2) (BitVec 64) Nat) :=
  [.insert 0 1 5 10, .insert 0 1 6 20, .insert 0 2 (1#64 <<< 59) 30]

/-- An overwrite and an erasure that shrinks a node. -/
def changedAfter : List (Operation (Fin 2) (BitVec 64) Nat) :=
  [.insert 0 3 5 40, .erase 0 4 6, .erase 0 4 (1#64 <<< 59)]

theorem storedBefore_isolated : ∃ state copied final,
    State.run wordKeyLayout id {} storedBefore = some state ∧
    state.step wordKeyLayout id (.copy 0 1) = some copied ∧
    copied.run wordKeyLayout id changedAfter = some final ∧
    SameAnswers id state 0 final 1 := by
  have first : (State.run wordKeyLayout id {} storedBefore).isSome = true := by decide +kernel
  have second : (State.run wordKeyLayout id {}
      (storedBefore ++ .copy 0 1 :: changedAfter)).isSome = true := by decide +kernel
  obtain ⟨state, reached⟩ := Option.isSome_iff_exists.mp first
  obtain ⟨final, whole⟩ := Option.isSome_iff_exists.mp second
  unfold State.run at whole
  rw [Runs.run_append] at whole
  obtain ⟨state', reached', continued⟩ := Option.bind_eq_some_iff.mp whole
  have same : state' = state := Option.some.inj (reached'.symm.trans reached)
  subst same
  refine ⟨state', _, final, reached, rfl, continued,
    run_copy_isolated reached rfl continued (by decide) ?_⟩
  intro earlier isEarlier operation isLater timeline timeline' used used'
  simp only [storedBefore, changedAfter, List.mem_cons, List.not_mem_nil, or_false] at isEarlier isLater
  rcases isEarlier with rfl | rfl | rfl <;> rcases isLater with rfl | rfl | rfl <;>
    cases used <;> cases used' <;> decide

example : (State.run wordKeyLayout id {} (storedBefore ++ .copy 0 1 :: changedAfter)).bind
    (fun state => (state.tries 1).enumeration id state.heap 5) =
    some [⟨1, 5, 10⟩, ⟨1, 6, 20⟩, ⟨2, 1#64 <<< 59, 30⟩] := by decide +kernel

example : (State.run wordKeyLayout id {} (storedBefore ++ .copy 0 1 :: changedAfter)).bind
    (fun state => (state.tries 0).enumeration id state.heap 5) = some [⟨3, 5, 40⟩] := by
  decide +kernel

end Voxen.Common.V8gHashTrie.Memory
