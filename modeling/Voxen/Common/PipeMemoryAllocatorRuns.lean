import Voxen.Common.PipeMemoryAllocatorSlabs
import Voxen.Lib.FinSizes

/-!
# Runs of the pipe memory allocator

A slab whose control data count no live block has no block.  Only the thread that has a
slab can then make it count one again, so a slab that is in none of the threads stays
empty until it is reset or deleted.
-/

namespace Voxen.PipeMemoryAllocator

open Function (update update_of_ne update_self update_idem update_eq_self)

variable {Thread : Type}

/-- What holds while the call of a thread is under way. -/
def CallOk (state : State Thread) (thread : Thread) : ThreadCall → Prop
  | .idle => True
  | .replaceSlab size align => Request size align
  | .newSlab size align => Request size align ∧ state.threadSlab thread = none
  | .retry size align => Request size align ∧
      ∃ slab, state.threadSlab thread = some slab ∧ state.slabs slab = some {}
  | .deleteSlab => ∃ slab ctl, state.threadSlab thread = some slab ∧
      state.slabs slab = some ctl ∧ ctl.liveAllocations = 0
  | .putGarbageSlab => ∃ slab, state.threadSlab thread = some slab

/-- The call of a thread does not depend on the slabs of others, or on what is done to
a slab with live blocks. -/
theorem CallOk.frame {state state' : State Thread} {thread : Thread} {call : ThreadCall}
    (ok : CallOk state thread call) (same : state'.threadSlab thread = state.threadSlab thread)
    (keeps : ∀ slab ctl, state.threadSlab thread = some slab → state.slabs slab = some ctl →
      ctl.liveAllocations = 0 → state'.slabs slab = some ctl) : CallOk state' thread call := by
  cases call with
  | idle => trivial
  | replaceSlab size align => exact ok
  | newSlab size align => exact ⟨ok.1, same.trans ok.2⟩
  | retry size align =>
    obtain ⟨request, slab, hasSlab, empty⟩ := ok
    exact ⟨request, slab, same.trans hasSlab, keeps slab {} hasSlab empty rfl⟩
  | deleteSlab =>
    obtain ⟨slab, ctl, hasSlab, isSlab, noLive⟩ := ok
    exact ⟨slab, ctl, same.trans hasSlab, keeps slab ctl hasSlab isSlab noLive, noLive⟩
  | putGarbageSlab =>
    obtain ⟨slab, hasSlab⟩ := ok
    exact ⟨slab, same.trans hasSlab⟩

/-- `place` tells where the slabs are. -/
structure Inv (state : State Thread) (place : Nat → Option (Place Thread)) : Prop where
  memory : MemoryOk state.slabs state.blocks
  placed : Placed state.threadSlab state.gcSlabs state.freeSlabs place
  inMemory_iff : ∀ slab, state.slabs slab ≠ none ↔
    place slab ≠ none ∨ state.gc.slabToDelete = some slab
  deleting : ∀ slab, state.gc.slabToDelete = some slab →
    place slab = none ∧ state.slabs slab = some {}
  free : ∀ slab, place slab = some .free → state.slabs slab = some {}
  calls : ∀ thread, CallOk state thread (state.calls thread)
  released : ∀ entry ∈ state.released, entry.2 = []

theorem initial_inv : Inv ({} : State Thread) fun _ => none where
  memory := MemoryOk.initial
  placed := Placed.initial
  inMemory_iff _ := by simp [GcCall.slabToDelete]
  deleting _ isDeleting := by cases isDeleting
  free _ isFree := by cases isFree
  calls _ := trivial
  released _ mem := by cases mem

namespace Inv

variable {state : State Thread} {place : Nat → Option (Place Thread)} {thread : Thread}
  {slab : Nat}

theorem at_iff (inv : Inv state place) (slab : Nat) (here : Place Thread) :
    state.At slab here ↔ place slab = some here := by
  cases here with
  | thread thread => exact inv.placed.thread_iff thread slab
  | garbage => exact inv.placed.garbage_iff slab
  | free => exact inv.placed.free_iff slab

theorem correct (inv : Inv state place) : state.Correct where
  aligned := inv.memory.aligned
  inStorage := inv.memory.inStorage
  apart := inv.memory.apart
  released := inv.released
  onePlace slab inMemory notDeleting := by
    have isPlaced := ((inv.inMemory_iff slab).mp inMemory).resolve_right notDeleting
    obtain ⟨here, isHere⟩ := Option.ne_none_iff_exists'.mp isPlaced
    refine ⟨here, (inv.at_iff slab here).mpr isHere, ?_⟩
    intro other isAt
    have isOther := (inv.at_iff slab other).mp isAt
    exact Option.some.inj (isOther.symm.trans isHere)
  inMemory slab here isAt := by
    have isHere := (inv.at_iff slab here).mp isAt
    have isPlaced : place slab ≠ none := by
      rw [isHere]
      exact Option.some_ne_none here
    exact ⟨(inv.inMemory_iff slab).mpr (Or.inl isPlaced),
      fun isDeleting => isPlaced (inv.deleting slab isDeleting).1⟩
  once := ⟨inv.placed.gc_nodup, inv.placed.free_nodup⟩

/-! ## The memory changes -/

/-- The control data change of a slab with live blocks, of a garbage slab, or of the
slab of a thread that does not depend on it. -/
theorem setMemory (inv : Inv state place) {slabs : Nat → Option PipeMemorySlabControl}
    {blocks : List Block} {released : List (Nat × List Block)} (memory : MemoryOk slabs blocks)
    (same : ∀ slab, slabs slab ≠ none ↔ state.slabs slab ≠ none)
    (keeps : ∀ slab ctl, state.slabs slab = some ctl → ctl.liveAllocations = 0 →
      slabs slab = some ctl ∨ place slab = some .garbage ∨
        ∃ thread, state.calls thread = .idle ∧ place slab = some (.thread thread))
    (noLive : ∀ entry ∈ released, entry.2 = []) :
    Inv { state with slabs := slabs, blocks := blocks, released := released } place where
  memory := memory
  placed := inv.placed
  inMemory_iff slab := (same slab).trans (inv.inMemory_iff slab)
  deleting slab isDeleting := by
    obtain ⟨nowhere, empty⟩ := inv.deleting slab isDeleting
    refine ⟨nowhere, ?_⟩
    rcases keeps slab {} empty rfl with kept | isGarbage | ⟨thread, -, isThread⟩
    · exact kept
    · rw [nowhere] at isGarbage
      cases isGarbage
    · rw [nowhere] at isThread
      cases isThread
  free slab isFree := by
    rcases keeps slab {} (inv.free slab isFree) rfl with kept | isGarbage | ⟨thread, -, isThread⟩
    · exact kept
    · rw [isFree] at isGarbage
      cases isGarbage
    · rw [isFree] at isThread
      cases isThread
  calls thread := by
    by_cases calling : state.calls thread = .idle
    · simp only [calling]
      trivial
    · refine (inv.calls thread).frame rfl ?_
      intro slab ctl hasSlab isSlab noLive
      have isHere := (inv.placed.thread_iff thread slab).mp hasSlab
      rcases keeps slab ctl isSlab noLive with kept | isGarbage | ⟨other, isIdle, isOther⟩
      · exact kept
      · rw [isHere] at isGarbage
        cases isGarbage
      · rw [isHere] at isOther
        cases isOther
        exact absurd isIdle calling
  released := noLive

variable {state' : State Thread} {ctl : PipeMemorySlabControl} {align size : Nat}

theorem deallocate (inv : Inv state place) {address : Nat}
    (next : state.deallocate address = some state') : Inv state' place := by
  unfold State.deallocate at next
  split at next
  · cases next
    exact inv
  simp only [Option.bind_eq_bind, Option.bind_eq_some_iff, Option.some.injEq] at next
  obtain ⟨block, found, rfl⟩ := next
  have mem : block ∈ state.blocks := List.mem_of_find?_eq_some found
  have isBlock : block.address = address := by
    simpa using List.find?_some found
  have isSlab : alignDown address slabSize = block.slab := by
    rw [← isBlock, Block.slab]
  rw [isSlab]
  refine inv.setMemory (inv.memory.deallocate mem) ?_ ?_ inv.released
  · intro slab
    by_cases same : slab = block.slab
    · simp [same]
    · rw [update_of_ne same]
  · intro slab ctl inMemory noLive
    have notHere : slab ≠ block.slab := fun same =>
      inv.memory.not_mem inMemory noLive block mem same.symm
    exact Or.inl (by rwa [update_of_ne notHere])

theorem released_cons (inv : Inv state place) (isSlab : state.slabs slab = some ctl)
    (noLive : ctl.liveAllocations = 0) :
    ∀ entry ∈ (state.release slab).released, entry.2 = [] := by
  intro entry mem
  rcases List.mem_cons.mp mem with rfl | mem
  · exact List.filter_eq_nil_iff.mpr fun block mem => by
      simpa using inv.memory.not_mem isSlab noLive block mem
  · exact inv.released entry mem

theorem resetSlab (inv : Inv state place) (isGarbage : place slab = some .garbage)
    (isSlab : state.slabs slab = some ctl) (noLive : ctl.liveAllocations = 0) :
    Inv (state.resetSlab slab) place ∧ (state.resetSlab slab).slabs slab = some {} := by
  have reset : ctl.reset = {} := by
    rw [PipeMemorySlabControl.reset, noLive]
  have isEmpty : (state.slabs slab).map (·.reset) = some {} := by
    rw [isSlab, Option.map_some, reset]
  unfold State.resetSlab
  rw [isEmpty]
  constructor
  · refine inv.setMemory (inv.memory.resetSlab isSlab noLive) ?_ ?_
      (inv.released_cons isSlab noLive)
    · intro other
      by_cases same : other = slab
      · subst same
        simp [isSlab]
      · rw [update_of_ne same]
    · intro other ctl' isOther noLive'
      by_cases same : other = slab
      · subst same
        exact Or.inr (Or.inl isGarbage)
      · exact Or.inl (by rwa [update_of_ne same])
  · exact update_self _ _ _

theorem tryAllocate_eq {ctl' : PipeMemorySlabControl} {ptr : Nat}
    (hasSlab : state.threadSlab thread = some slab) (isSlab : state.slabs slab = some ctl)
    (got : ctl.tryAllocate slab size align = some (ptr, ctl')) :
    state.tryAllocate thread size align = some { state with
      slabs := update state.slabs slab (some ctl')
      blocks := ⟨ptr, size, align⟩ :: state.blocks } := by
  unfold State.tryAllocate
  simp only [Option.bind_eq_bind, Option.bind_eq_some_iff, Option.some.injEq, Prod.exists]
  exact ⟨slab, hasSlab, ctl, isSlab, ptr, ctl', got, rfl⟩

theorem tryAllocate (inv : Inv state place) (calling : state.calls thread = .idle)
    (request : Request size align) (got : state.tryAllocate thread size align = some state') :
    Inv state' place := by
  unfold State.tryAllocate at got
  simp only [Option.bind_eq_bind, Option.bind_eq_some_iff, Option.some.injEq, Prod.exists] at got
  obtain ⟨slab, hasSlab, ctl, isSlab, ptr, ctl', got, rfl⟩ := got
  have isHere := (inv.placed.thread_iff thread slab).mp hasSlab
  refine inv.setMemory (inv.memory.tryAllocate isSlab request got) ?_ ?_ inv.released
  · intro other
    by_cases same : other = slab
    · subst same
      simp [isSlab]
    · rw [update_of_ne same]
  · intro other ctl'' isOther noLive
    by_cases same : other = slab
    · subst same
      exact Or.inr (Or.inr ⟨thread, calling, isHere⟩)
    · exact Or.inl (by rwa [update_of_ne same])

variable [DecidableEq Thread]

/-! ## Calls of threads -/

theorem setCall (inv : Inv state place) {call : ThreadCall} (ok : CallOk state thread call) :
    Inv (state.setCall thread call) place where
  memory := inv.memory
  placed := inv.placed
  inMemory_iff := inv.inMemory_iff
  deleting := inv.deleting
  free := inv.free
  calls other := by
    by_cases same : other = thread
    · subst same
      simp only [State.setCall, update_self]
      exact ok.frame rfl fun _ _ _ isSlab _ => isSlab
    · simp only [State.setCall, update_of_ne same]
      exact (inv.calls other).frame rfl fun _ _ _ isSlab _ => isSlab
  released := inv.released

theorem allocate (inv : Inv state place) (calling : state.calls thread = .idle) {bits : Nat}
    (positive : 0 < size) : Inv (state.allocate thread size (2 ^ bits)) place := by
  unfold State.allocate
  split
  · exact inv
  · rename_i isSmall
    have request : Request size (2 ^ bits) :=
      { positive := positive
        small := Nat.le_of_not_lt fun large => isSmall (Or.inl large)
        alignSmall := Nat.le_of_not_lt fun large => isSmall (Or.inr large)
        power := ⟨bits, rfl⟩ }
    split
    · rename_i got
      exact inv.tryAllocate calling request got
    · exact inv.setCall request

theorem retry (inv : Inv state place) (calling : state.calls thread = .retry size align) :
    ∃ state', state.tryAllocate thread size align = some state' ∧
      Inv (state'.setCall thread .idle) place := by
  have ok := inv.calls thread
  rw [calling] at ok
  obtain ⟨request, slab, hasSlab, isEmpty⟩ := ok
  have base := (inv.memory.fits slab {} isEmpty).base
  obtain ⟨ptr, ctl, got⟩ := tryAllocate_empty base request
  have isIdle : (state.setCall thread .idle).calls thread = .idle := update_self _ _ _
  have idle : CallOk state thread .idle := trivial
  exact ⟨_, tryAllocate_eq hasSlab isEmpty got,
    (inv.setCall idle).tryAllocate isIdle request (tryAllocate_eq hasSlab isEmpty got)⟩

theorem calls_of_others (inv : Inv state place) (thread : Thread)
    (others : ∀ other, other ≠ thread →
      state'.threadSlab other = state.threadSlab other ∧ state'.calls other = state.calls other)
    (keeps : ∀ other slab ctl, other ≠ thread → place slab = some (.thread other) →
      state.slabs slab = some ctl → state'.slabs slab = some ctl)
    (ok : CallOk state' thread (state'.calls thread)) :
    ∀ other, CallOk state' other (state'.calls other) := by
  intro other
  by_cases same : other = thread
  · subst same
    exact ok
  · obtain ⟨slabSame, callSame⟩ := others other same
    rw [callSame]
    apply (inv.calls other).frame slabSame
    intro slab ctl hasSlab isSlab noLive
    exact keeps other slab ctl same ((inv.placed.thread_iff other slab).mp hasSlab) isSlab

omit [DecidableEq Thread] in
theorem update_ne_none {here there : Place Thread} (isHere : place slab = some here)
    (other : Nat) : update place slab (some there) other ≠ none ↔ place other ≠ none := by
  by_cases same : other = slab
  · subst same
    simp [isHere]
  · rw [update_of_ne same]

omit [DecidableEq Thread] in
theorem deleting_update (inv : Inv state place) {here : Place Thread}
    {there : Option (Place Thread)} (isHere : place slab = some here) (other : Nat)
    (isDeleting : state.gc.slabToDelete = some other) :
    update place slab there other = none ∧ state.slabs other = some {} := by
  obtain ⟨nowhere, isEmpty⟩ := inv.deleting other isDeleting
  have ne : other ≠ slab := by
    rintro rfl
    rw [nowhere] at isHere
    cases isHere
  rw [update_of_ne ne]
  exact ⟨nowhere, isEmpty⟩

omit [DecidableEq Thread] in
theorem free_update (inv : Inv state place) {there : Option (Place Thread)}
    (notFree : there ≠ some .free) (other : Nat)
    (isFree : update place slab there other = some .free) :
    state.slabs other = some {} := by
  by_cases same : other = slab
  · subst same
    rw [update_self] at isFree
    exact absurd isFree notFree
  · rw [update_of_ne same] at isFree
    exact inv.free other isFree

theorem putGarbage (inv : Inv state place) (hasSlab : state.threadSlab thread = some slab)
    {call : ThreadCall} (ok : CallOk (state.setThreadSlab thread none) thread call) :
    Inv { (state.setThreadSlab thread none).setCall thread call with
      gcSlabs := state.gcSlabs ++ [slab] } (update place slab (some .garbage)) := by
  have isHere := (inv.placed.thread_iff thread slab).mp hasSlab
  have placed := (inv.placed.take hasSlab).pushGarbage (update_self _ _ _)
  rw [update_idem] at placed
  refine
    { memory := inv.memory
      placed := placed
      inMemory_iff := ?_
      deleting := inv.deleting_update isHere
      free := inv.free_update (by simp)
      calls := ?_
      released := inv.released }
  · intro other
    rw [update_ne_none isHere]
    exact inv.inMemory_iff other
  · refine inv.calls_of_others thread ?_ (fun _ _ _ _ _ isSlab => isSlab) ?_
    · intro other ne
      simp [State.setCall, State.setThreadSlab, ne]
    · simp only [State.setCall, update_self]
      exact ok.frame rfl fun _ _ _ isSlab _ => isSlab

omit [DecidableEq Thread] in
theorem getLast?_perm {list : List Nat} (isLast : list.getLast? = some slab) :
    (slab :: list.dropLast).Perm list := by
  obtain ⟨front, rfl⟩ := List.getLast?_eq_some_iff.mp isLast
  rw [List.dropLast_concat]
  exact (List.perm_append_singleton slab front).symm

theorem takeFree (inv : Inv state place) (noSlab : state.threadSlab thread = none)
    (isLast : state.freeSlabs.getLast? = some slab) (request : Request size align) :
    Inv { (state.setThreadSlab thread (some slab)).setCall thread (.retry size align) with
      freeSlabs := state.freeSlabs.dropLast }
      (update place slab (some (.thread thread))) := by
  have removed := getLast?_perm isLast
  have isHere := (inv.placed.free_iff slab).mp (removed.mem_iff.mp List.mem_cons_self)
  have placed := (inv.placed.removeFree removed).give noSlab (update_self _ _ _)
  rw [update_idem] at placed
  refine
    { memory := inv.memory
      placed := placed
      inMemory_iff := ?_
      deleting := inv.deleting_update isHere
      free := inv.free_update (by simp)
      calls := ?_
      released := inv.released }
  · intro other
    rw [update_ne_none isHere]
    exact inv.inMemory_iff other
  · refine inv.calls_of_others thread ?_ (fun _ _ _ _ _ isSlab => isSlab) ?_
    · intro other ne
      simp [State.setCall, State.setThreadSlab, ne]
    · simp only [State.setCall, update_self]
      exact ⟨request, slab, update_self _ _ _, inv.free slab isHere⟩

theorem releaseSlab (inv : Inv state place) (calling : state.calls thread = .replaceSlab size align)
    (request : Request size align) :
    (state.releaseSlab thread).threadSlab thread = none ∧
      ∃ place', Inv (state.releaseSlab thread) place' := by
  unfold State.releaseSlab
  split
  · rename_i slab hasSlab
    refine ⟨update_self _ _ _, update place slab (some .garbage), ?_⟩
    have ok : CallOk (state.setThreadSlab thread none) thread (.replaceSlab size align) := request
    have inv' := inv.putGarbage hasSlab ok
    rw [← calling] at inv'
    simpa only [State.setCall, State.setThreadSlab, update_eq_self] using inv'
  · rename_i noSlab
    exact ⟨noSlab, place, inv⟩

theorem takeFreeSlab (inv : Inv state place) (noSlab : state.threadSlab thread = none)
    (request : Request size align) :
    ∃ place', Inv (state.takeFreeSlab thread size align) place' := by
  unfold State.takeFreeSlab
  split
  · rename_i slab isLast
    exact ⟨_, inv.takeFree noSlab isLast request⟩
  · exact ⟨place, inv.setCall ⟨request, noSlab⟩⟩

theorem newSlab (inv : Inv state place) (noSlab : state.threadSlab thread = none)
    (upstream : state.Upstream slab) (request : Request size align) :
    Inv { (state.setThreadSlab thread (some slab)).setCall thread (.retry size align) with
      slabs := update state.slabs slab (some {}) }
      (update place slab (some (.thread thread))) := by
  obtain ⟨aligned, notNull, bound, absent⟩ := upstream
  have outside : place slab = none ∧ state.gc.slabToDelete ≠ some slab := by
    have outside := (not_congr (inv.inMemory_iff slab)).mp (not_not_intro absent)
    rw [not_or, not_not] at outside
    exact outside
  have keeps : ∀ other ctl, state.slabs other = some ctl →
      update state.slabs slab (some {}) other = some ctl := by
    intro other ctl isSlab
    have ne : other ≠ slab := by
      rintro rfl
      rw [absent] at isSlab
      cases isSlab
    rwa [update_of_ne ne]
  refine
    { memory := inv.memory.newSlab ⟨aligned, notNull, bound⟩ absent
      placed := inv.placed.give noSlab outside.1
      inMemory_iff := ?_
      deleting := ?_
      free := ?_
      calls := ?_
      released := inv.released }
  · intro other
    by_cases same : other = slab
    · subst same
      simp
    · simp only [update_of_ne same]
      exact inv.inMemory_iff other
  · intro other isDeleting
    obtain ⟨nowhere, isEmpty⟩ := inv.deleting other isDeleting
    have ne : other ≠ slab := by
      rintro rfl
      exact outside.2 isDeleting
    rw [update_of_ne ne]
    exact ⟨nowhere, keeps other {} isEmpty⟩
  · intro other isFree
    exact keeps other {} (inv.free_update (by simp) other isFree)
  · refine inv.calls_of_others thread ?_ (fun _ other ctl _ _ => keeps other ctl) ?_
    · intro other ne
      simp [State.setCall, State.setThreadSlab, ne]
    · simp only [State.setCall, update_self]
      exact ⟨request, slab, update_self _ _ _, update_self _ _ _⟩

theorem deleteThreadSlab (inv : Inv state place) (hasSlab : state.threadSlab thread = some slab)
    (isSlab : state.slabs slab = some ctl) (noLive : ctl.liveAllocations = 0) :
    Inv (((state.deleteSlab slab).setThreadSlab thread none).setCall thread .idle)
      (update place slab none) := by
  have isHere := (inv.placed.thread_iff thread slab).mp hasSlab
  have keeps : ∀ other ctl, other ≠ slab → state.slabs other = some ctl →
      update state.slabs slab none other = some ctl := by
    intro other ctl ne isOther
    rwa [update_of_ne ne]
  have notDeleting : ∀ other, state.gc.slabToDelete = some other → other ≠ slab := by
    rintro other isDeleting rfl
    rw [(inv.deleting other isDeleting).1] at isHere
    cases isHere
  refine
    { memory := inv.memory.deleteSlab isSlab noLive
      placed := inv.placed.take hasSlab
      inMemory_iff := ?_
      deleting := ?_
      free := ?_
      calls := ?_
      released := inv.released_cons isSlab noLive }
  · intro other
    by_cases same : other = slab
    · subst same
      have kept := notDeleting other
      simpa [State.deleteSlab, State.setCall, State.setThreadSlab] using! kept
    · simp only [State.deleteSlab, State.setCall, State.setThreadSlab, update_of_ne same]
      exact inv.inMemory_iff other
  · intro other isDeleting
    obtain ⟨nowhere, isEmpty⟩ := inv.deleting_update isHere other isDeleting
    exact ⟨nowhere, keeps other {} (notDeleting other isDeleting) isEmpty⟩
  · intro other isFree
    have ne : other ≠ slab := by
      rintro rfl
      simp at isFree
    exact keeps other {} ne (inv.free_update (by simp) other isFree)
  · refine inv.calls_of_others thread ?_ ?_ ?_
    · intro other ne
      simp [State.setCall, State.setThreadSlab, ne, State.deleteSlab, State.release]
    · intro other otherSlab ctl' ne isThere isOther
      apply keeps otherSlab ctl' _ isOther
      rintro rfl
      rw [isHere] at isThere
      cases isThere
      exact ne rfl
    · simp only [State.setCall, update_self]
      trivial

/-! ## Collection passes -/

omit [DecidableEq Thread] in
theorem setGc (inv : Inv state place) {call : GcCall}
    (same : call.slabToDelete = state.gc.slabToDelete) : Inv { state with gc := call } place where
  memory := inv.memory
  placed := inv.placed
  inMemory_iff slab := by
    simp only [same]
    exact inv.inMemory_iff slab
  deleting slab isDeleting := inv.deleting slab (same ▸ isDeleting)
  free := inv.free
  calls thread := (inv.calls thread).frame rfl fun _ _ _ isSlab _ => isSlab
  released := inv.released

omit [DecidableEq Thread] in
theorem recycle (inv : Inv state place) {rest : List Nat} (isEmpty : state.slabs slab = some {})
    (removed : (slab :: rest).Perm state.gcSlabs) :
    Inv { state with gcSlabs := rest, freeSlabs := state.freeSlabs ++ [slab] }
      (update place slab (some .free)) := by
  have isHere := (inv.placed.garbage_iff slab).mp (removed.mem_iff.mp List.mem_cons_self)
  have placed := (inv.placed.removeGarbage removed).pushFree (update_self _ _ _)
  rw [update_idem] at placed
  refine
    { memory := inv.memory
      placed := placed
      inMemory_iff := ?_
      deleting := inv.deleting_update isHere
      free := ?_
      calls := fun thread => (inv.calls thread).frame rfl fun _ _ _ isSlab _ => isSlab
      released := inv.released }
  · intro other
    rw [update_ne_none isHere]
    exact inv.inMemory_iff other
  · intro other isFree
    by_cases same : other = slab
    · subst same
      exact isEmpty
    · rw [update_of_ne same] at isFree
      exact inv.free other isFree

omit [DecidableEq Thread] in
theorem takeToDelete (inv : Inv state place) (idle : state.gc = .idle)
    (isLast : state.freeSlabs.getLast? = some slab) :
    Inv { state with gc := .scan 0 (some slab), freeSlabs := state.freeSlabs.dropLast }
      (update place slab none) := by
  have removed := getLast?_perm isLast
  have isHere := (inv.placed.free_iff slab).mp (removed.mem_iff.mp List.mem_cons_self)
  have isEmpty := inv.free slab isHere
  refine
    { memory := inv.memory
      placed := inv.placed.removeFree removed
      inMemory_iff := ?_
      deleting := ?_
      free := inv.free_update (by simp)
      calls := fun thread => (inv.calls thread).frame rfl fun _ _ _ isSlab _ => isSlab
      released := inv.released }
  · intro other
    by_cases same : other = slab
    · subst same
      simp [isEmpty, GcCall.slabToDelete]
    · have before := inv.inMemory_iff other
      rw [idle] at before
      rw [update_of_ne same]
      simpa [GcCall.slabToDelete, Ne.symm same] using before
  · intro other isDeleting
    cases isDeleting
    exact ⟨update_self _ _ _, isEmpty⟩

omit [DecidableEq Thread] in
theorem reclaimFreedSlabs (inv : Inv state place) (idle : state.gc = .idle) (threshold : Nat) :
    ∃ place', Inv (state.reclaimFreedSlabs threshold) place' := by
  have noneToDelete : GcCall.slabToDelete (.scan 0 none) = state.gc.slabToDelete := by
    rw [idle]
    rfl
  unfold State.reclaimFreedSlabs
  split
  · rename_i many
    cases isLast : state.freeSlabs.getLast? with
    | none =>
      rw [List.getLast?_eq_none_iff.mp isLast] at many
      cases many
    | some slab => exact ⟨_, inv.takeToDelete idle isLast⟩
  · exact ⟨place, inv.setGc noneToDelete⟩

omit [DecidableEq Thread] in
theorem deleteFreeSlab (inv : Inv state place) (calling : state.gc = .deleteSlab slab) :
    Inv { state.deleteSlab slab with gc := .idle } place := by
  have isDeleting : state.gc.slabToDelete = some slab := by
    rw [calling]
    rfl
  obtain ⟨nowhere, isEmpty⟩ := inv.deleting slab isDeleting
  have keeps : ∀ other ctl, place other ≠ none → state.slabs other = some ctl →
      update state.slabs slab none other = some ctl := by
    intro other ctl isPlaced isOther
    have ne : other ≠ slab := by
      rintro rfl
      exact isPlaced nowhere
    rwa [update_of_ne ne]
  refine
    { memory := inv.memory.deleteSlab isEmpty rfl
      placed := inv.placed
      inMemory_iff := ?_
      deleting := ?_
      free := ?_
      calls := ?_
      released := inv.released_cons isEmpty rfl }
  · intro other
    by_cases same : other = slab
    · subst same
      simp [State.deleteSlab, nowhere, GcCall.slabToDelete]
    · have before := inv.inMemory_iff other
      rw [isDeleting] at before
      simpa [State.deleteSlab, update_of_ne same, GcCall.slabToDelete, Ne.symm same]
        using before
  · intro other isNone
    cases isNone
  · intro other isFree
    exact keeps other {} (by simp [isFree]) (inv.free other isFree)
  · intro thread
    refine (inv.calls thread).frame rfl ?_
    intro other ctl hasSlab isOther _
    have isThere := (inv.placed.thread_iff thread other).mp hasSlab
    exact keeps other ctl (by simp [isThere]) isOther

omit [DecidableEq Thread] in
theorem advanceGc (inv : Inv state place) (next : state.advanceGc = some state') :
    ∃ place', Inv state' place' := by
  unfold State.advanceGc at next
  cases calling : state.gc with
  | idle =>
    rw [calling] at next
    cases next
  | scan i slabToDelete =>
    simp only [calling] at next
    cases at_i : state.gcSlabs[i]? with
    | some slab =>
      simp only [at_i, Option.bind_eq_bind, Option.bind_eq_some_iff] at next
      obtain ⟨ctl, isSlab, next⟩ := next
      have removed := swapPop_perm at_i
      have isGarbage :=
        (inv.placed.garbage_iff slab).mp (removed.mem_iff.mp List.mem_cons_self)
      split at next
      · rename_i noLive
        cases next
        obtain ⟨inv', isEmpty⟩ := inv.resetSlab isGarbage isSlab noLive
        exact ⟨_, inv'.recycle isEmpty removed⟩
      · cases next
        exact ⟨place, inv.setGc (by rw [calling]; rfl)⟩
    | none =>
      simp only [at_i] at next
      cases slabToDelete with
      | some slab =>
        cases next
        exact ⟨place, inv.setGc (by rw [calling]; rfl)⟩
      | none =>
        cases next
        exact ⟨place, inv.setGc (by rw [calling]; rfl)⟩
  | deleteSlab slab =>
    simp only [calling] at next
    cases next
    exact ⟨place, inv.deleteFreeSlab calling⟩

/-! ## Runs -/

theorem advance (inv : Inv state place) {upstream : Option Nat}
    (next : state.advance thread upstream = some state') : ∃ place', Inv state' place' := by
  have ok := inv.calls thread
  unfold State.advance at next
  cases calling : state.calls thread with
  | idle =>
    rw [calling] at next
    cases next
  | replaceSlab size align =>
    rw [calling] at ok
    simp only [calling, Option.ite_none_left_eq_some] at next
    obtain ⟨-, next⟩ := next
    cases next
    obtain ⟨noSlab, place', inv'⟩ := inv.releaseSlab calling ok
    exact inv'.takeFreeSlab noSlab ok
  | newSlab size align =>
    rw [calling] at ok
    obtain ⟨request, noSlab⟩ := ok
    simp only [calling] at next
    cases upstream with
    | none =>
      cases next
      exact ⟨place, inv.setCall trivial⟩
    | some slab =>
      simp only [Option.ite_none_right_eq_some] at next
      obtain ⟨isUpstream, next⟩ := next
      cases next
      exact ⟨_, inv.newSlab noSlab isUpstream request⟩
  | retry size align =>
    obtain ⟨found, got, inv'⟩ := inv.retry calling
    simp only [calling, got] at next
    cases next
    exact ⟨place, inv'⟩
  | deleteSlab =>
    rw [calling] at ok
    obtain ⟨slab, ctl, hasSlab, isSlab, noLive⟩ := ok
    simp only [calling, hasSlab, Option.bind_eq_bind, Option.bind_some] at next
    cases next
    exact ⟨_, inv.deleteThreadSlab hasSlab isSlab noLive⟩
  | putGarbageSlab =>
    rw [calling] at ok
    obtain ⟨slab, hasSlab⟩ := ok
    simp only [calling, hasSlab, Option.bind_eq_bind, Option.bind_some,
      Option.ite_none_left_eq_some] at next
    obtain ⟨-, next⟩ := next
    cases next
    exact ⟨_, inv.putGarbage hasSlab trivial⟩

theorem exitThread (inv : Inv state place) (next : state.exitThread thread = some state') :
    Inv state' place := by
  unfold State.exitThread at next
  cases hasSlab : state.threadSlab thread with
  | none =>
    simp only [hasSlab] at next
    cases next
    exact inv
  | some slab =>
    simp only [hasSlab, Option.bind_eq_bind, Option.bind_eq_some_iff] at next
    obtain ⟨ctl, isSlab, next⟩ := next
    cases next
    apply inv.setCall
    split
    · rename_i noLive
      exact ⟨slab, ctl, hasSlab, isSlab, noLive⟩
    · exact ⟨slab, hasSlab⟩

theorem step {threshold : Nat} {action : Action Thread} (inv : Inv state place)
    {state' : State Thread} (next : step threshold state action = some state') :
    ∃ place', Inv state' place' := by
  cases action with
  | allocate thread size alignBits =>
    obtain ⟨⟨calling, positive⟩, next⟩ := Option.ite_none_right_eq_some.mp next
    cases next
    exact ⟨place, inv.allocate calling positive⟩
  | advance thread upstream => exact inv.advance next
  | deallocate address => exact ⟨place, inv.deallocate next⟩
  | exitThread thread =>
    obtain ⟨-, next⟩ := Option.ite_none_right_eq_some.mp next
    exact ⟨place, inv.exitThread next⟩
  | reclaimFreedSlabs =>
    obtain ⟨idle, next⟩ := Option.ite_none_right_eq_some.mp next
    cases next
    exact inv.reclaimFreedSlabs idle threshold
  | advanceGc => exact inv.advanceGc next

end Inv

variable [DecidableEq Thread]

/-- Whatever the threads and the collection passes do, in any order. -/
theorem run_blocks_correct {threshold : Nat} {actions : List (Action Thread)}
    {state : State Thread} (reached : run threshold actions = some state) : state.Correct := by
  have steps : Runs.StepsMeet (step threshold) (fun _ _ => True) ({} : State Thread) actions :=
    Runs.stepsMeet_of_forall (fun _ _ _ => trivial) _
  have preserved : ∀ (state : State Thread) action state', (∃ place, Inv state place) → True →
      step threshold state action = some state' → ∃ place, Inv state' place := by
    rintro state action state' ⟨place, inv⟩ - next
    exact inv.step next
  obtain ⟨place, inv⟩ := Runs.run_invariant preserved ⟨_, initial_inv⟩ steps reached
  exact inv.correct

/-- Thread 0 gets a slab and a block, and thread 1 another slab. -/
def startActions : List (Action (Fin 2)) :=
  [.allocate 0 (1024 * 1024) 8, .advance 0 none, .advance 0 (some slabSize), .advance 0 none,
    .allocate 1 24 3, .advance 1 none, .advance 1 (some (3 * slabSize)), .advance 1 none]

/-- The slab of thread 0 is full, and it takes a new one.  Thread 1 deallocates the block
in the first slab, and a collection pass that goes on meanwhile recycles that slab. -/
def recycleActions : List (Action (Fin 2)) :=
  startActions ++
    [.allocate 0 (1024 * 1024) 0, .reclaimFreedSlabs, .advanceGc, .advance 0 none,
      .advance 0 (some (4 * slabSize)), .advance 0 none, .reclaimFreedSlabs,
      .deallocate (slabSize + 1024 * 1024), .advanceGc, .advanceGc, .exitThread 1,
      .advance 1 none]

theorem recycleActions_correct :
    ∃ state, run 5 recycleActions = some state ∧ state.freeSlabs = [slabSize] ∧
      state.Correct := by
  have recycled : (run 5 recycleActions).map (fun state => state.freeSlabs) = some [slabSize] := by
    decide +kernel
  obtain ⟨state, reached, recycled⟩ := Option.map_eq_some_iff.mp recycled
  exact ⟨state, reached, recycled, run_blocks_correct reached⟩

end Voxen.PipeMemoryAllocator
