import Voxen.Common.PipeMemoryAllocator

/-!
# The slabs of the pipe memory allocator

The blocks of a slab lie above its allocation top and are counted by it.  A slab is
looked for where it was put last, so it is in one set at a time.
-/

namespace Voxen.PipeMemoryAllocator

open Function (update update_of_ne update_self)

/-! ## One slab -/

theorem slabSize_eq : slabSize = 2 ^ 21 := rfl

/-- What `allocate` lets through and its callers promise. -/
structure Request (size align : Nat) : Prop where
  positive : 0 < size
  small : size ≤ maxAllocSize
  alignSmall : align ≤ maxAlignment
  power : ∃ bits, align = 2 ^ bits

/-- Memory for a slab. -/
structure Base (slab : Nat) : Prop where
  aligned : slabSize ∣ slab
  notNull : 0 < slab
  bound : slab + slabSize < 2 ^ 64

theorem Base.ge {slab : Nat} (base : Base slab) : slabSize ≤ slab :=
  Nat.le_of_dvd base.notNull base.aligned

/-- The control data of a slab are those of its blocks. -/
structure Fits (blocks : List Block) (slab : Nat) (ctl : PipeMemorySlabControl) : Prop where
  base : Base slab
  bytes : ctl.allocatedBytes + controlSize ≤ slabSize
  live : ctl.liveAllocations = blocks.countP fun block => block.slab = slab
  live_le : ctl.liveAllocations ≤ ctl.allocatedBytes
  above : ∀ block ∈ blocks, block.slab = slab →
    slab + slabSize ≤ block.address + ctl.allocatedBytes

theorem ptrSub_eq {address offset : Nat} (bound : address < 2 ^ 64) (le : offset ≤ address) :
    ptrSub address offset = address - offset := by
  unfold ptrSub
  omega

section TryAllocate

variable {ctl ctl' : PipeMemorySlabControl} {blocks : List Block} {slab size align ptr : Nat}

theorem candidate (base : Base slab) (bytes : ctl.allocatedBytes + controlSize ≤ slabSize)
    (small : size ≤ maxAllocSize) (power : ∃ bits, align = 2 ^ bits) :
    let ptr := alignDown (ptrSub (ptrSub (slab + slabSize) ctl.allocatedBytes) size) align
    align ∣ ptr ∧ ptr + size + ctl.allocatedBytes ≤ slab + slabSize ∧
      slab + slabSize < ptr + size + ctl.allocatedBytes + align := by
  obtain ⟨bits, rfl⟩ := power
  have ge := base.ge
  have bound := base.bound
  have half : slabSize = 2 * maxAllocSize := rfl
  have top : ptrSub (slab + slabSize) ctl.allocatedBytes = slab + slabSize - ctl.allocatedBytes :=
    ptrSub_eq bound (by omega)
  have below : ptrSub (slab + slabSize - ctl.allocatedBytes) size =
      slab + slabSize - ctl.allocatedBytes - size := ptrSub_eq (by omega) (by omega)
  have fits : slab + slabSize - ctl.allocatedBytes - size < 2 ^ 64 := by omega
  simp only [top, below]
  have le := alignDown.le fits bits
  have lt := alignDown.lt_add fits bits
  refine ⟨alignDown.dvd fits bits, ?_, ?_⟩ <;> omega

theorem tryAllocate_some (fits : Fits blocks slab ctl) (request : Request size align)
    (got : ctl.tryAllocate slab size align = some (ptr, ctl')) :
    align ∣ ptr ∧ slab + controlSize ≤ ptr ∧ ptr + size + ctl.allocatedBytes ≤ slab + slabSize ∧
      ctl' = ⟨slab + slabSize - ptr, ctl.liveAllocations + 1⟩ := by
  obtain ⟨aligned, room, -⟩ := candidate fits.base fits.bytes request.small request.power
  unfold PipeMemorySlabControl.tryAllocate at got
  simp only [Option.ite_none_right_eq_some, Option.some.injEq, Prod.mk.injEq] at got
  obtain ⟨inBounds, rfl, rfl⟩ := got
  have bound := fits.base.bound
  have bytes := fits.bytes
  have live := fits.live_le
  have size_eq := slabSize_eq
  refine ⟨aligned, inBounds, room, ?_⟩
  rw [ptrSub_eq bound (by omega), Nat.mod_eq_of_lt (by omega), Nat.mod_eq_of_lt (by omega)]

theorem tryAllocate_empty (base : Base slab) (request : Request size align) :
    ∃ ptr ctl, PipeMemorySlabControl.tryAllocate {} slab size align = some (ptr, ctl) := by
  have bytes : PipeMemorySlabControl.allocatedBytes {} + controlSize ≤ slabSize := by decide
  obtain ⟨-, -, near⟩ := candidate base bytes request.small request.power
  have small := request.small
  have alignSmall := request.alignSmall
  have inBounds : slab + controlSize ≤
      alignDown (ptrSub (ptrSub (slab + slabSize) 0) size) align := by
    simp only [slabSize, maxAllocSize, maxAlignment, controlSize] at *
    omega
  exact ⟨_, _, if_pos inBounds⟩

theorem slab_eq_of_inside (base : Base slab) (above : slab ≤ ptr) (below : ptr < slab + slabSize) :
    Block.slab ⟨ptr, size, align⟩ = slab := by
  obtain ⟨offset, rfl⟩ := Nat.exists_eq_add_of_le above
  have bound := base.bound
  have small : offset < 2 ^ 21 := by
    rw [← slabSize_eq]
    omega
  have aligned := base.aligned
  unfold Block.slab
  rw [slabSize_eq] at *
  exact alignDown.inside (by omega) aligned small

end TryAllocate

/-! ## The memory -/

/-- The slabs in memory and the blocks in them. -/
structure MemoryOk (slabs : Nat → Option PipeMemorySlabControl) (blocks : List Block) : Prop where
  fits : ∀ slab ctl, slabs slab = some ctl → Fits blocks slab ctl
  aligned : ∀ block ∈ blocks, block.align ∣ block.address
  inStorage : ∀ block ∈ blocks, slabs block.slab ≠ none ∧
    block.slab + controlSize ≤ block.address ∧
    block.address + block.size ≤ block.slab + slabSize
  apart : blocks.Pairwise Block.Apart

theorem apart_of_slab_ne {block other : Block} {slab slab' : Nat} (base : Base slab)
    (base' : Base slab')
    (inSlab : slab ≤ block.address ∧ block.address + block.size ≤ slab + slabSize)
    (inSlab' : slab' ≤ other.address ∧ other.address + other.size ≤ slab' + slabSize)
    (ne : slab ≠ slab') : block.Apart other := by
  obtain ⟨count, rfl⟩ := base.aligned
  obtain ⟨count', rfl⟩ := base'.aligned
  unfold Block.Apart
  simp only [slabSize, maxAllocSize] at *
  omega

namespace MemoryOk

variable {slabs : Nat → Option PipeMemorySlabControl} {blocks : List Block} {slab : Nat}
  {ctl ctl' : PipeMemorySlabControl}

theorem initial : MemoryOk (fun _ => none) [] where
  fits _ _ isSome := by cases isSome
  aligned _ mem := by cases mem
  inStorage _ mem := by cases mem
  apart := List.Pairwise.nil

theorem countP_pos {block : Block} (mem : block ∈ blocks) :
    0 < blocks.countP fun other => other.slab = block.slab :=
  List.countP_pos_iff.mpr ⟨block, mem, decide_eq_true rfl⟩

theorem not_mem (memory : MemoryOk slabs blocks) (isSlab : slabs slab = some ctl)
    (noLive : ctl.liveAllocations = 0) : ∀ block ∈ blocks, block.slab ≠ slab := by
  rintro block mem rfl
  have counted := (memory.fits _ _ isSlab).live
  have positive := countP_pos mem
  omega

theorem setSlab (memory : MemoryOk slabs blocks) {found : Option PipeMemorySlabControl}
    (none_mem : ∀ block ∈ blocks, block.slab ≠ slab)
    (fits : ∀ ctl, found = some ctl → Fits blocks slab ctl) :
    MemoryOk (update slabs slab found) blocks where
  fits other ctl isSlab := by
    by_cases same : other = slab
    · subst same
      rw [update_self] at isSlab
      exact fits ctl isSlab
    · rw [update_of_ne same] at isSlab
      exact memory.fits other ctl isSlab
  aligned := memory.aligned
  inStorage block mem := by
    rw [update_of_ne (none_mem block mem)]
    exact memory.inStorage block mem
  apart := memory.apart

theorem fits_empty (base : Base slab) (none_mem : ∀ block ∈ blocks, block.slab ≠ slab) :
    Fits blocks slab {} where
  base := base
  bytes := by decide
  live := (List.countP_eq_zero.mpr fun block mem => by simpa using none_mem block mem).symm
  live_le := Nat.le_refl 0
  above block mem same := absurd same (none_mem block mem)

theorem newSlab (memory : MemoryOk slabs blocks) (base : Base slab) (absent : slabs slab = none) :
    MemoryOk (update slabs slab (some {})) blocks := by
  have none_mem : ∀ block ∈ blocks, block.slab ≠ slab := by
    rintro block mem rfl
    exact (memory.inStorage block mem).1 absent
  apply memory.setSlab none_mem
  intro ctl isSlab
  cases isSlab
  exact fits_empty base none_mem

theorem deleteSlab (memory : MemoryOk slabs blocks) (isSlab : slabs slab = some ctl)
    (noLive : ctl.liveAllocations = 0) : MemoryOk (update slabs slab none) blocks := by
  apply memory.setSlab (memory.not_mem isSlab noLive)
  intro ctl isSome
  cases isSome

theorem resetSlab (memory : MemoryOk slabs blocks) (isSlab : slabs slab = some ctl)
    (noLive : ctl.liveAllocations = 0) :
    MemoryOk (update slabs slab (some {})) blocks := by
  have none_mem := memory.not_mem isSlab noLive
  apply memory.setSlab none_mem
  intro ctl' isSome
  cases isSome
  exact fits_empty (memory.fits _ _ isSlab).base none_mem

theorem tryAllocate (memory : MemoryOk slabs blocks) (isSlab : slabs slab = some ctl)
    {size align ptr : Nat} (request : Request size align)
    (got : ctl.tryAllocate slab size align = some (ptr, ctl')) :
    MemoryOk (update slabs slab (some ctl')) (⟨ptr, size, align⟩ :: blocks) := by
  have fits := memory.fits _ _ isSlab
  obtain ⟨aligned, storage, room, rfl⟩ := tryAllocate_some fits request got
  have positive := request.positive
  have bytes := fits.bytes
  have counted := fits.live_le
  have inSlab : Block.slab ⟨ptr, size, align⟩ = slab :=
    slab_eq_of_inside fits.base (by omega) (by omega)
  have isSome : ∀ other, slabs other ≠ none →
      update slabs slab (some
        ⟨slab + slabSize - ptr, ctl.liveAllocations + 1⟩) other ≠ none := by
    intro other isSome
    by_cases same : other = slab
    · subst same
      simp
    · rwa [update_of_ne same]
  constructor
  case fits =>
    intro other ctl' isSlab'
    by_cases same : other = slab
    · subst same
      rw [update_self] at isSlab'
      cases isSlab'
      constructor
      case base => exact fits.base
      case bytes =>
        simp only
        omega
      case live =>
        have counts : decide (Block.slab ⟨ptr, size, align⟩ = other) = true := decide_eq_true inSlab
        simp only [List.countP_cons, counts, if_true, ← fits.live]
      case live_le =>
        simp only
        omega
      case above =>
        intro block mem isIn
        rcases List.mem_cons.mp mem with rfl | mem
        · simp only
          omega
        · have above := fits.above block mem isIn
          simp only
          omega
    · rw [update_of_ne same] at isSlab'
      have fits' := memory.fits other ctl' isSlab'
      have notIn : ¬ Block.slab ⟨ptr, size, align⟩ = other := fun isIn => same (isIn ▸ inSlab)
      refine { fits' with live := ?_, above := ?_ }
      · rw [List.countP_cons_of_neg (by simpa using notIn)]
        exact fits'.live
      · intro block mem isIn
        rcases List.mem_cons.mp mem with rfl | mem
        · exact absurd isIn notIn
        · exact fits'.above block mem isIn
  case aligned =>
    intro block mem
    rcases List.mem_cons.mp mem with rfl | mem
    · exact aligned
    · exact memory.aligned block mem
  case inStorage =>
    intro block mem
    rcases List.mem_cons.mp mem with rfl | mem
    · rw [inSlab]
      refine ⟨by simp, storage, ?_⟩
      simp only
      omega
    · obtain ⟨inMemory, stored⟩ := memory.inStorage block mem
      exact ⟨isSome _ inMemory, stored⟩
  case apart =>
    apply List.Pairwise.cons _ memory.apart
    intro other mem
    obtain ⟨inMemory, storage', stop'⟩ := memory.inStorage other mem
    by_cases same : other.slab = slab
    · -- the new block ends where the top was
      have above := fits.above other mem same
      left
      simp only
      omega
    · obtain ⟨ctl', isSlab'⟩ := Option.ne_none_iff_exists'.mp inMemory
      apply apart_of_slab_ne fits.base (memory.fits _ _ isSlab').base _ _ (Ne.symm same)
      · simp only
        omega
      · omega

theorem deallocate (memory : MemoryOk slabs blocks) {block : Block} (mem : block ∈ blocks) :
    MemoryOk (update slabs block.slab ((slabs block.slab).map (·.subLive)))
      (blocks.erase block) := by
  have kept : ∀ other ∈ blocks.erase block, other ∈ blocks := fun other =>
    List.mem_of_mem_erase
  constructor
  case fits =>
    intro slab ctl isSlab
    by_cases same : slab = block.slab
    · subst same
      rw [update_self, Option.map_eq_some_iff] at isSlab
      obtain ⟨before, isSlab, rfl⟩ := isSlab
      have fits := memory.fits _ _ isSlab
      have positive := countP_pos mem
      have bytes := fits.bytes
      have counted := fits.live
      have counted_le := fits.live_le
      have size_eq := slabSize_eq
      have live_eq : before.subLive.liveAllocations = before.liveAllocations - 1 := by
        simp only [PipeMemorySlabControl.subLive]
        omega
      have top_eq : before.subLive.allocatedBytes = before.allocatedBytes := by
        rw [PipeMemorySlabControl.subLive]
      constructor
      case base => exact fits.base
      case bytes => rwa [top_eq]
      case live =>
        rw [live_eq, List.countP_erase, if_pos ⟨mem, decide_eq_true rfl⟩, ← counted]
      case live_le =>
        rw [live_eq, top_eq]
        exact Nat.le_trans (Nat.sub_le _ _) counted_le
      case above =>
        intro other mem'
        rw [top_eq]
        exact fits.above other (kept other mem')
    · rw [update_of_ne same] at isSlab
      have fits := memory.fits slab ctl isSlab
      refine { fits with live := ?_, above := fun other mem' => fits.above other (kept other mem') }
      have notIn : ¬ (block ∈ blocks ∧ decide (block.slab = slab) = true) := fun both =>
        same (of_decide_eq_true both.2).symm
      rw [List.countP_erase, if_neg notIn]
      exact fits.live
  case aligned => exact fun other mem' => memory.aligned other (kept other mem')
  case inStorage =>
    intro other mem'
    obtain ⟨inMemory, stored⟩ := memory.inStorage other (kept other mem')
    refine ⟨?_, stored⟩
    by_cases same : other.slab = block.slab
    · rw [same] at inMemory ⊢
      simpa using inMemory
    · rwa [update_of_ne same]
  case apart => exact memory.apart.sublist List.erase_sublist

end MemoryOk

/-! ## The sets of slabs -/

variable {Thread : Type}

/-- Each slab is looked for in one place. -/
structure Placed (threadSlab : Thread → Option Nat) (gcSlabs freeSlabs : List Nat)
    (place : Nat → Option (Place Thread)) : Prop where
  thread_iff : ∀ thread slab, threadSlab thread = some slab ↔ place slab = some (.thread thread)
  garbage_iff : ∀ slab, slab ∈ gcSlabs ↔ place slab = some .garbage
  free_iff : ∀ slab, slab ∈ freeSlabs ↔ place slab = some .free
  gc_nodup : gcSlabs.Nodup
  free_nodup : freeSlabs.Nodup

namespace Placed

variable {threadSlab : Thread → Option Nat} {gcSlabs freeSlabs rest : List Nat}
  {place : Nat → Option (Place Thread)} {thread : Thread} {slab : Nat}

theorem initial : Placed (fun _ : Thread => none) [] [] fun _ => none where
  thread_iff _ _ := by simp
  garbage_iff _ := by simp
  free_iff _ := by simp
  gc_nodup := List.nodup_nil
  free_nodup := List.nodup_nil

variable {here : Place Thread} {list : List Nat}

theorem mem_concat_iff (mem_iff : ∀ slab, slab ∈ list ↔ place slab = some here)
    (nowhere : place slab = none) (other : Nat) :
    other ∈ list ++ [slab] ↔ update place slab (some here) other = some here := by
  by_cases same : other = slab
  · subst same
    simp
  · simp [same, mem_iff]

theorem update_iff {there : Option (Place Thread)}
    (mem_iff : ∀ slab, slab ∈ list ↔ place slab = some here) (notHere : place slab ≠ some here)
    (notThere : there ≠ some here) (other : Nat) :
    other ∈ list ↔ update place slab there other = some here := by
  by_cases same : other = slab
  · subst same
    simp [mem_iff, notHere, notThere]
  · simp [same, mem_iff]

theorem update_thread_iff {there : Option (Place Thread)}
    (thread_iff : ∀ thread slab, threadSlab thread = some slab ↔
      place slab = some (.thread thread))
    (notHere : ∀ thread, place slab ≠ some (.thread thread))
    (notThere : ∀ thread, there ≠ some (.thread thread)) (thread : Thread) (other : Nat) :
    threadSlab thread = some other ↔
      update place slab there other = some (.thread thread) := by
  by_cases same : other = slab
  · subst same
    simp [thread_iff, notHere, notThere]
  · simp [same, thread_iff]

theorem mem_removed_iff (nodup : list.Nodup)
    (mem_iff : ∀ slab, slab ∈ list ↔ place slab = some here) (removed : (slab :: rest).Perm list)
    (other : Nat) : other ∈ rest ↔ update place slab none other = some here := by
  have absent : slab ∉ rest := (List.nodup_cons.mp (removed.nodup_iff.mpr nodup)).1
  by_cases same : other = slab
  · subst same
    simp [absent]
  · have mem : other ∈ slab :: rest ↔ other ∈ list := removed.mem_iff
    simp [same, ← mem_iff, ← mem]

theorem nodup_concat (nodup : list.Nodup) (absent : slab ∉ list) :
    (list ++ [slab]).Nodup :=
  (List.perm_append_singleton slab list).nodup_iff.mpr (List.nodup_cons.mpr ⟨absent, nodup⟩)

theorem pushGarbage (placed : Placed threadSlab gcSlabs freeSlabs place)
    (nowhere : place slab = none) :
    Placed threadSlab (gcSlabs ++ [slab]) freeSlabs
      (update place slab (some .garbage)) where
  thread_iff := update_thread_iff placed.thread_iff (by simp [nowhere]) (by simp)
  garbage_iff := mem_concat_iff placed.garbage_iff nowhere
  free_iff := update_iff placed.free_iff (by simp [nowhere]) (by simp)
  gc_nodup := nodup_concat placed.gc_nodup (by simp [placed.garbage_iff, nowhere])
  free_nodup := placed.free_nodup

theorem pushFree (placed : Placed threadSlab gcSlabs freeSlabs place)
    (nowhere : place slab = none) :
    Placed threadSlab gcSlabs (freeSlabs ++ [slab]) (update place slab (some .free)) where
  thread_iff := update_thread_iff placed.thread_iff (by simp [nowhere]) (by simp)
  garbage_iff := update_iff placed.garbage_iff (by simp [nowhere]) (by simp)
  free_iff := mem_concat_iff placed.free_iff nowhere
  gc_nodup := placed.gc_nodup
  free_nodup := nodup_concat placed.free_nodup (by simp [placed.free_iff, nowhere])

theorem removeGarbage (placed : Placed threadSlab gcSlabs freeSlabs place)
    (removed : (slab :: rest).Perm gcSlabs) :
    Placed threadSlab rest freeSlabs (update place slab none) := by
  have here : place slab = some .garbage :=
    (placed.garbage_iff slab).mp (removed.mem_iff.mp List.mem_cons_self)
  exact
    { thread_iff := update_thread_iff placed.thread_iff (by simp [here]) (by simp)
      garbage_iff := mem_removed_iff placed.gc_nodup placed.garbage_iff removed
      free_iff := update_iff placed.free_iff (by simp [here]) (by simp)
      gc_nodup := (List.nodup_cons.mp (removed.nodup_iff.mpr placed.gc_nodup)).2
      free_nodup := placed.free_nodup }

theorem removeFree (placed : Placed threadSlab gcSlabs freeSlabs place)
    (removed : (slab :: rest).Perm freeSlabs) :
    Placed threadSlab gcSlabs rest (update place slab none) := by
  have here : place slab = some .free :=
    (placed.free_iff slab).mp (removed.mem_iff.mp List.mem_cons_self)
  exact
    { thread_iff := update_thread_iff placed.thread_iff (by simp [here]) (by simp)
      garbage_iff := update_iff placed.garbage_iff (by simp [here]) (by simp)
      free_iff := mem_removed_iff placed.free_nodup placed.free_iff removed
      gc_nodup := placed.gc_nodup
      free_nodup := (List.nodup_cons.mp (removed.nodup_iff.mpr placed.free_nodup)).2 }

variable [DecidableEq Thread]

theorem give (placed : Placed threadSlab gcSlabs freeSlabs place)
    (noSlab : threadSlab thread = none) (nowhere : place slab = none) :
    Placed (update threadSlab thread (some slab)) gcSlabs freeSlabs
      (update place slab (some (.thread thread))) where
  thread_iff other otherSlab := by
    have hasNone : place otherSlab ≠ some (.thread thread) := by
      rw [Ne, ← placed.thread_iff, noSlab]
      simp
    by_cases sameThread : other = thread <;> by_cases same : otherSlab = slab
    · subst sameThread same
      simp
    · subst sameThread
      simp [same, hasNone, Ne.symm same]
    · subst same
      simp [sameThread, placed.thread_iff, nowhere, Ne.symm sameThread]
    · simp [sameThread, same, placed.thread_iff]
  garbage_iff := update_iff placed.garbage_iff (by simp [nowhere]) (by simp)
  free_iff := update_iff placed.free_iff (by simp [nowhere]) (by simp)
  gc_nodup := placed.gc_nodup
  free_nodup := placed.free_nodup

theorem take (placed : Placed threadSlab gcSlabs freeSlabs place)
    (hasSlab : threadSlab thread = some slab) :
    Placed (update threadSlab thread none) gcSlabs freeSlabs
      (update place slab none) := by
  have here : place slab = some (.thread thread) := (placed.thread_iff thread slab).mp hasSlab
  refine
    { thread_iff := ?_
      garbage_iff := update_iff placed.garbage_iff (by simp [here]) (by simp)
      free_iff := update_iff placed.free_iff (by simp [here]) (by simp)
      gc_nodup := placed.gc_nodup
      free_nodup := placed.free_nodup }
  intro other otherSlab
  by_cases sameThread : other = thread <;> by_cases same : otherSlab = slab
  · subst sameThread same
    simp
  · subst sameThread
    simp [same, ← placed.thread_iff, hasSlab, Ne.symm same]
  · subst same
    simp [sameThread, placed.thread_iff, here, Ne.symm sameThread]
  · simp [sameThread, same, placed.thread_iff]

end Placed

end Voxen.PipeMemoryAllocator
