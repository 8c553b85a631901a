import Mathlib.Algebra.Order.Ring.Nat
import Voxen.Gfx.TransientBufferAllocator

/-!
# Runs of the transient buffer allocator

The last allocation tick of a buffer bounds the ticks of all its allocations, and all of
them lie above its allocation top.  So a buffer whose last tick is completed holds no
allocation a frame may still read.
-/

namespace Voxen.Gfx.TransientBufferAllocator

open Function (update update_of_ne update_self)

/-! ## One buffer -/

section Buffer

variable {buffer : Buffer} {size align : Nat}

/-- The top of a buffer lies in it, and its size fits 64 bits. -/
structure Buffer.Fits (buffer : Buffer) : Prop where
  top : buffer.allocationTop ≤ buffer.bufferSize
  size : buffer.bufferSize < 2 ^ 64

theorem Buffer.newTop_le (fits : buffer.Fits) (power : align.isPowerOfTwo) :
    buffer.newTop size align ≤ buffer.allocationTop - size := by
  obtain ⟨k, rfl⟩ := power
  have bound : buffer.allocationTop - size < 2 ^ 64 :=
    Nat.lt_of_le_of_lt (Nat.sub_le _ _) (Nat.lt_of_le_of_lt fits.top fits.size)
  exact alignDown.le bound k

theorem Buffer.dvd_newTop (fits : buffer.Fits) (power : align.isPowerOfTwo) :
    align ∣ buffer.newTop size align := by
  obtain ⟨k, rfl⟩ := power
  have bound : buffer.allocationTop - size < 2 ^ 64 :=
    Nat.lt_of_le_of_lt (Nat.sub_le _ _) (Nat.lt_of_le_of_lt fits.top fits.size)
  exact alignDown.dvd bound k

end Buffer

theorem newBufferSize_spec {average minSize : Nat} (fits : minSize + bufferSizeStep - 1 < 2 ^ 64) :
    minSize ≤ newBufferSize average minSize ∧ newBufferSize average minSize < 2 ^ 64 := by
  unfold newBufferSize
  simp only [minBufferSizeTarget, maxBufferSizeTarget, bufferSizeStep] at fits ⊢
  omega

/-! ## One pool -/

/-- How many buffers of a list have a handle. -/
def countHandle (buffers : List Buffer) (vkHandle : Nat) : Nat :=
  buffers.countP fun buffer => buffer.vkHandle == vkHandle

variable {buffers : List Buffer}

theorem countHandle_pos {buffer : Buffer} (mem : buffer ∈ buffers) :
    0 < countHandle buffers buffer.vkHandle :=
  List.countP_pos_iff.mpr ⟨buffer, mem, beq_self_eq_true _⟩

theorem eq_of_countHandle {first second : Buffer} (once : countHandle buffers first.vkHandle ≤ 1)
    (memFirst : first ∈ buffers) (memSecond : second ∈ buffers)
    (same : first.vkHandle = second.vkHandle) :
    first = second := by
  induction buffers with
  | nil => cases memFirst
  | cons buffer buffers ih =>
    unfold countHandle at once
    rw [List.countP_cons] at once
    rcases List.mem_cons.mp memFirst with rfl | inFirst <;>
      rcases List.mem_cons.mp memSecond with rfl | inSecond
    · rfl
    · have more := countHandle_pos inSecond
      rw [← same] at more
      unfold countHandle at more
      simp only [beq_self_eq_true, if_true] at once
      omega
    · have more := countHandle_pos inFirst
      unfold countHandle at more
      simp only [same, beq_self_eq_true, if_true] at once more
      omega
    · exact ih (Nat.le_trans (Nat.le_add_right _ _) once) inFirst inSecond

/-- The buffer goes on in another list, perhaps with more allocations. -/
def Buffer.GoesOn (buffer : Buffer) (buffers : List Buffer) : Prop :=
  ∃ after ∈ buffers, after.vkHandle = buffer.vkHandle ∧
    after.bufferSize = buffer.bufferSize ∧ after.allocationTop ≤ buffer.allocationTop ∧
    buffer.lastAllocationTick ≤ after.lastAllocationTick

theorem Buffer.GoesOn.of_mem {buffer : Buffer} (mem : buffer ∈ buffers) :
    buffer.GoesOn buffers :=
  ⟨buffer, mem, rfl, rfl, Nat.le_refl _, Int.le_refl _⟩

section Begin

variable (completedTick newTick : FrameTickId)

theorem sweepFree_sublist (free : List Buffer) :
    (sweepFree completedTick newTick free).Sublist free := by
  induction free with
  | nil => exact List.Sublist.refl _
  | cons buffer free ih =>
    unfold sweepFree
    split
    · exact ih.cons buffer
    · exact ih.cons_cons buffer

theorem mem_sweepFree {free : List Buffer} {buffer : Buffer} (mem : buffer ∈ free)
    (pending : completedTick < buffer.lastAllocationTick) :
    buffer ∈ sweepFree completedTick newTick free := by
  induction free with
  | nil => cases mem
  | cons first free ih =>
    unfold sweepFree
    rcases List.mem_cons.mp mem with rfl | mem
    · have still : ¬ buffer.lastAllocationTick ≤ completedTick := Int.not_le.mpr pending
      simp [still]
    · split
      · exact ih mem
      · exact List.mem_cons_of_mem _ (ih mem)

theorem sweepUsed_count (used : List Buffer) (vkHandle : Nat) :
    countHandle (sweepUsed completedTick newTick used).2 vkHandle +
      countHandle (sweepUsed completedTick newTick used).1 vkHandle ≤
        countHandle used vkHandle := by
  induction used with
  | nil => exact Nat.le_refl _
  | cons buffer used ih =>
    unfold sweepUsed
    unfold countHandle at ih ⊢
    dsimp only
    split
    · simp only [List.countP_cons]
      omega
    · split <;> simp only [List.countP_cons] <;> omega

theorem mem_sweepUsed {used : List Buffer} {buffer : Buffer} (mem : buffer ∈ used)
    (pending : completedTick < buffer.lastAllocationTick) :
    buffer ∈ (sweepUsed completedTick newTick used).1 := by
  induction used with
  | nil => cases mem
  | cons first used ih =>
    unfold sweepUsed
    dsimp only
    rcases List.mem_cons.mp mem with rfl | mem
    · rw [if_pos pending]
      exact List.mem_cons_self
    · split
      · exact List.mem_cons_of_mem _ (ih mem)
      · split <;> exact ih mem

theorem sweepUsed_forall {P : Buffer → Prop}
    (reset : ∀ buffer, P buffer → P { buffer with allocationTop := buffer.bufferSize })
    {used : List Buffer} (every : ∀ buffer ∈ used, P buffer) :
    (∀ buffer ∈ (sweepUsed completedTick newTick used).1, P buffer) ∧
      ∀ buffer ∈ (sweepUsed completedTick newTick used).2, P buffer := by
  induction used with
  | nil => exact ⟨fun _ absurd => (List.not_mem_nil absurd).elim,
      fun _ absurd => (List.not_mem_nil absurd).elim⟩
  | cons first used ih =>
    obtain ⟨here, rest⟩ := List.forall_mem_cons.mp every
    obtain ⟨stay, move⟩ := ih rest
    unfold sweepUsed
    dsimp only
    split
    · exact ⟨List.forall_mem_cons.mpr ⟨here, stay⟩, move⟩
    · split
      · exact ⟨stay, move⟩
      · exact ⟨stay, List.forall_mem_cons.mpr ⟨reset first here, move⟩⟩

variable (pool : Pool)

theorem onFrameTickBegin_count (vkHandle : Nat) :
    countHandle (pool.onFrameTickBegin completedTick newTick).buffers vkHandle ≤
      countHandle pool.buffers vkHandle := by
  have free := (sweepFree_sublist completedTick newTick pool.freeList).countP_le
    (p := fun buffer => buffer.vkHandle == vkHandle)
  have used := sweepUsed_count completedTick newTick pool.usedList vkHandle
  simp only [Pool.buffers, Pool.onFrameTickBegin, countHandle, List.countP_append] at free used ⊢
  omega

theorem onFrameTickBegin_goesOn {pool : Pool} {buffer : Buffer} (mem : buffer ∈ pool.buffers)
    (pending : completedTick < buffer.lastAllocationTick) :
    buffer.GoesOn (pool.onFrameTickBegin completedTick newTick).buffers := by
  apply Buffer.GoesOn.of_mem
  simp only [Pool.buffers, Pool.onFrameTickBegin, List.mem_append] at mem ⊢
  rcases mem with free | used
  · exact Or.inl (Or.inl (mem_sweepFree completedTick newTick free pending))
  · exact Or.inr (mem_sweepUsed completedTick newTick used pending)

theorem onFrameTickBegin_forall {pool : Pool} {P : Buffer → Prop}
    (reset : ∀ buffer, P buffer → P { buffer with allocationTop := buffer.bufferSize })
    (every : ∀ buffer ∈ pool.buffers, P buffer) :
    ∀ buffer ∈ (pool.onFrameTickBegin completedTick newTick).buffers, P buffer := by
  obtain ⟨free, used⟩ := List.forall_mem_append.mp every
  obtain ⟨stay, move⟩ := sweepUsed_forall completedTick newTick reset used
  refine List.forall_mem_append.mpr ⟨List.forall_mem_append.mpr ⟨?_, move⟩, stay⟩
  exact fun buffer mem => free buffer ((sweepFree_sublist _ _ _).subset mem)

end Begin

/-! ## Allocations from one pool -/

theorem searchFree_perm (size : Nat) (free used : List Buffer) :
    ((searchFree size free used).1 ++ (searchFree size free used).2).Perm (free ++ used) := by
  induction free generalizing used with
  | nil => exact List.Perm.refl _
  | cons buffer free ih =>
    unfold searchFree
    split
    · exact List.Perm.refl _
    · refine (ih _).trans ?_
      rw [← List.append_assoc]
      exact List.perm_append_singleton _ _

theorem searchFree_head {size : Nat} {free used : List Buffer} {buffer : Buffer}
    {rest : List Buffer} (found : (searchFree size free used).1 = buffer :: rest) :
    size ≤ buffer.allocationTop := by
  induction free generalizing used with
  | nil => cases found
  | cons first free ih =>
    unfold searchFree at found
    split at found
    · rename_i room
      cases found
      exact room
    · exact ih found

/-- The buffer created for a request. -/
def Pool.newBuffer (pool : Pool) (size : Nat) (created : Created) : Buffer where
  vkHandle := created.vkHandle
  hostPointer := created.pMappedData
  bufferSize := newBufferSize pool.allocationExpAverage size
  allocationTop := newBufferSize pool.allocationExpAverage size

/-- An allocation is cut from a buffer of the pool or a fresh one, and the others only change
their list. -/
structure Pool.Cut (pool : Pool) (fresh : List Buffer) (tick : FrameTickId) (size align : Nat)
    (pool' : Pool) (result : Allocation) : Prop where
  cut : ∃ buffer others, (buffer :: others).Perm (fresh ++ pool.buffers) ∧
    size ≤ buffer.allocationTop ∧ pool'.buffers = buffer.cut tick size align :: others ∧
    result = buffer.allocation size align

theorem allocate_cases (pool : Pool) (tick : FrameTickId) {size : Nat} (align : Nat)
    (bound : size + bufferSizeStep - 1 < 2 ^ 64) (created : Option Created) :
    ∃ pool' result, pool.allocate tick size align created = some (pool', result) ∧
      ((result = none ∧ pool'.buffers.Perm pool.buffers) ∨
        ∃ fresh allocation, result = some allocation ∧
          pool.Cut fresh tick size align pool' allocation ∧
          (fresh = [] ∨
            ∃ new, created = some new ∧ fresh = [pool.newBuffer size new])) := by
  unfold Pool.allocate
  by_cases zero : size = 0
  · exact ⟨pool, none, if_pos zero, Or.inl ⟨rfl, List.Perm.refl _⟩⟩
  rw [if_neg zero]
  have perm := searchFree_perm size pool.freeList pool.usedList
  dsimp only
  cases found : (searchFree size pool.freeList pool.usedList).1 with
  | cons buffer free =>
    rw [found] at perm
    refine ⟨_, _, rfl, Or.inr ⟨[], _, rfl, ⟨buffer, _, ?_, searchFree_head found, rfl, rfl⟩,
      Or.inl rfl⟩⟩
    exact perm
  | nil =>
    rw [found] at perm
    cases created with
    | none => exact ⟨_, _, rfl, Or.inl ⟨rfl, perm⟩⟩
    | some new =>
      have room : size ≤ newBufferSize pool.allocationExpAverage size :=
        (newBufferSize_spec bound).1
      refine ⟨_, _, if_pos room, Or.inr ⟨[pool.newBuffer size new], _, rfl,
        ⟨pool.newBuffer size new, _, ?_, room, rfl, rfl⟩, Or.inr ⟨new, rfl, rfl⟩⟩⟩
      exact List.Perm.cons _ perm

section Cut

variable {pool pool' : Pool} {fresh : List Buffer} {tick : FrameTickId} {size align : Nat}
  {result : Allocation}

theorem Pool.Cut.count (cut : pool.Cut fresh tick size align pool' result) (vkHandle : Nat) :
    countHandle pool'.buffers vkHandle =
      countHandle fresh vkHandle + countHandle pool.buffers vkHandle := by
  obtain ⟨buffer, others, perm, _, buffers, _⟩ := cut.cut
  have same := perm.countP_eq fun buffer => buffer.vkHandle == vkHandle
  rw [List.countP_append, List.countP_cons] at same
  rw [buffers]
  unfold countHandle
  rw [List.countP_cons, ← same]
  rfl

theorem Pool.Cut.goesOn (cut : pool.Cut fresh tick size align pool' result)
    (fits : ∀ buffer ∈ fresh ++ pool.buffers, buffer.Fits) (power : align.isPowerOfTwo)
    (recent : ∀ buffer ∈ fresh ++ pool.buffers, buffer.lastAllocationTick ≤ tick)
    {buffer : Buffer} (mem : buffer ∈ pool.buffers) : buffer.GoesOn pool'.buffers := by
  obtain ⟨first, others, perm, _, buffers, _⟩ := cut.cut
  have mem' := perm.mem_iff.mpr (List.mem_append_right fresh mem)
  rw [buffers]
  rcases List.mem_cons.mp mem' with rfl | other
  · have here := perm.mem_iff.mp List.mem_cons_self
    have lower : buffer.newTop size align ≤ buffer.allocationTop - size :=
      Buffer.newTop_le (fits buffer here) power
    exact ⟨_, List.mem_cons_self, rfl, rfl, Nat.le_trans lower (Nat.sub_le _ _),
      recent buffer here⟩
  · exact .of_mem (List.mem_cons_of_mem _ other)

theorem Pool.Cut.recent (cut : pool.Cut fresh tick size align pool' result)
    (recent : ∀ buffer ∈ fresh ++ pool.buffers, buffer.lastAllocationTick ≤ tick) :
    ∀ buffer ∈ pool'.buffers, buffer.lastAllocationTick ≤ tick := by
  obtain ⟨first, others, perm, _, buffers, _⟩ := cut.cut
  rw [buffers]
  refine List.forall_mem_cons.mpr ⟨Int.le_refl _, fun buffer mem => ?_⟩
  exact recent buffer (perm.mem_iff.mp (List.mem_cons_of_mem _ mem))

theorem Pool.Cut.fits (cut : pool.Cut fresh tick size align pool' result)
    (fits : ∀ buffer ∈ fresh ++ pool.buffers, buffer.Fits) (power : align.isPowerOfTwo) :
    ∀ buffer ∈ pool'.buffers, buffer.Fits := by
  obtain ⟨first, others, perm, _, buffers, _⟩ := cut.cut
  have all : ∀ buffer ∈ first :: others, buffer.Fits := fun buffer mem =>
    fits buffer (perm.mem_iff.mp mem)
  obtain ⟨here, rest⟩ := List.forall_mem_cons.mp all
  rw [buffers]
  refine List.forall_mem_cons.mpr ⟨⟨?_, here.size⟩, rest⟩
  have lower : first.newTop size align ≤ first.allocationTop - size :=
    Buffer.newTop_le here power
  exact Nat.le_trans lower (Nat.le_trans (Nat.sub_le _ _) here.top)

end Cut

/-! ## The invariant -/

/-- The ranges of two allocations do not meet. -/
def Allocation.Disjoint (first second : Allocation) : Prop :=
  first.bufferOffset + first.size ≤ second.bufferOffset ∨
    second.bufferOffset + second.size ≤ first.bufferOffset

/-- A frame that is not completed may still read the allocation. -/
def State.Pending (state : State) (record : Record) : Prop :=
  state.completedTick < record.tick

/-- The buffer holds the allocation, below which nothing is allocated from it yet. -/
structure Buffer.HoldsRecord (buffer : Buffer) (record : Record) : Prop where
  handle : buffer.vkHandle = record.result.buffer
  tick : record.tick ≤ buffer.lastAllocationTick
  top : buffer.allocationTop ≤ record.result.bufferOffset
  inside : record.result.bufferOffset + record.result.size ≤ buffer.bufferSize

theorem Buffer.GoesOn.holds {buffer : Buffer} {record : Record} (goesOn : buffer.GoesOn buffers)
    (holds : buffer.HoldsRecord record) :
    ∃ after ∈ buffers, after.HoldsRecord record := by
  obtain ⟨after, mem, handle, size, top, tick⟩ := goesOn
  exact ⟨after, mem,
    { handle := handle.trans holds.handle
      tick := Int.le_trans holds.tick tick
      top := Nat.le_trans top holds.top
      inside := size ▸ holds.inside }⟩

structure Inv (state : State) : Prop where
  once : ∀ vkHandle, countHandle (state.pools .scratch).buffers vkHandle +
    countHandle (state.pools .upload).buffers vkHandle ≤ 1
  fits : ∀ type, ∀ buffer ∈ (state.pools type).buffers, buffer.Fits
  recent : ∀ type, ∀ buffer ∈ (state.pools type).buffers,
    buffer.lastAllocationTick ≤ state.currentTickId
  valid : ∀ record ∈ state.records, record.align ∣ record.result.bufferOffset ∧
    record.size ≤ record.result.size
  held : ∀ record ∈ state.records, state.Pending record →
    ∃ buffer ∈ (state.pools record.type).buffers, buffer.HoldsRecord record
  disjoint : state.records.Pairwise fun first second => state.Pending first →
    state.Pending second → first.result.buffer = second.result.buffer →
      first.result.Disjoint second.result

theorem Inv.init : Inv {} where
  once := fun _ => by simp [countHandle, Pool.buffers]
  fits := fun _ _ absurd => by cases absurd
  recent := fun _ _ absurd => by cases absurd
  valid := fun _ absurd => by cases absurd
  held := fun _ absurd => by cases absurd
  disjoint := List.Pairwise.nil

theorem Inv.unique {state : State} (inv : Inv state) {type type' : BufferType}
    {first second : Buffer} (memFirst : first ∈ (state.pools type).buffers)
    (memSecond : second ∈ (state.pools type').buffers)
    (same : first.vkHandle = second.vkHandle) : type = type' ∧ first = second := by
  have once := inv.once first.vkHandle
  have one := countHandle_pos memFirst
  have other := countHandle_pos memSecond
  rw [← same] at other
  cases type <;> cases type'
  · exact ⟨rfl, eq_of_countHandle (by omega) memFirst memSecond same⟩
  · omega
  · omega
  · exact ⟨rfl, eq_of_countHandle (by omega) memFirst memSecond same⟩

/-! ## Steps -/

section Step

variable {state state' : State}

theorem Inv.onFrameTickBegin (inv : Inv state) {completedTick newTick : FrameTickId}
    (later : state.currentTickId < newTick) :
    Inv { state with
      currentTickId := newTick
      pools := fun type => (state.pools type).onFrameTickBegin completedTick newTick
      completedTick := max state.completedTick completedTick } where
  once vkHandle := by
    have scratch := onFrameTickBegin_count completedTick newTick (state.pools .scratch) vkHandle
    have upload := onFrameTickBegin_count completedTick newTick (state.pools .upload) vkHandle
    have once := inv.once vkHandle
    dsimp only
    omega
  fits type := onFrameTickBegin_forall completedTick newTick
    (fun _ fits => ⟨Nat.le_refl _, fits.size⟩) (inv.fits type)
  recent type := onFrameTickBegin_forall completedTick newTick (fun _ recent => recent)
    fun buffer mem => Int.le_trans (inv.recent type buffer mem) (Int.le_of_lt later)
  valid := inv.valid
  held := by
    intro record mem pending
    have before : state.Pending record := Int.lt_of_le_of_lt (Int.le_max_left _ _) pending
    have unread := Int.lt_of_le_of_lt (Int.le_max_right _ _) pending
    obtain ⟨buffer, inPool, holds⟩ := inv.held record mem before
    have goesOn := onFrameTickBegin_goesOn completedTick newTick inPool
      (Int.lt_of_lt_of_le unread holds.tick)
    exact goesOn.holds holds
  disjoint := inv.disjoint.imp fun apart first second =>
    apart (Int.lt_of_le_of_lt (Int.le_max_left _ _) first)
      (Int.lt_of_le_of_lt (Int.le_max_left _ _) second)

theorem Inv.permute (inv : Inv state) {pools : BufferType → Pool}
    (perm : ∀ type, (pools type).buffers.Perm (state.pools type).buffers) :
    Inv { state with pools } where
  once vkHandle := by
    have scratch := (perm .scratch).countP_eq fun buffer => buffer.vkHandle == vkHandle
    have upload := (perm .upload).countP_eq fun buffer => buffer.vkHandle == vkHandle
    have once := inv.once vkHandle
    simp only [countHandle] at once ⊢
    omega
  fits type buffer mem := inv.fits type buffer ((perm type).mem_iff.mp mem)
  recent type buffer mem := inv.recent type buffer ((perm type).mem_iff.mp mem)
  valid := inv.valid
  held := by
    intro record mem pending
    obtain ⟨buffer, inPool, holds⟩ := inv.held record mem pending
    exact ⟨buffer, (perm record.type).mem_iff.mpr inPool, holds⟩
  disjoint := inv.disjoint

variable {type : BufferType}

theorem perm_update {pool : Pool} (perm : pool.buffers.Perm (state.pools type).buffers)
    (other : BufferType) :
    (update state.pools type pool other).buffers.Perm (state.pools other).buffers := by
  by_cases here : other = type
  · subst here
    rw [update_self]
    exact perm
  · rw [update_of_ne here]

/-- What buffers get when an allocation is cut in a pool, the other pool aside. -/
theorem forall_update {pool : Pool} {P : Buffer → Prop}
    (every : ∀ other, ∀ buffer ∈ (state.pools other).buffers, P buffer)
    (here : ∀ buffer ∈ pool.buffers, P buffer) (other : BufferType) :
    ∀ buffer ∈ (update state.pools type pool other).buffers, P buffer := by
  by_cases same : other = type
  · subst same
    rw [update_self]
    exact here
  · rw [update_of_ne same]
    exact every other

theorem Buffer.allocation_end {buffer : Buffer} {size align : Nat} (fits : buffer.Fits)
    (power : align.isPowerOfTwo) :
    (buffer.allocation size align).bufferOffset + (buffer.allocation size align).size =
      buffer.allocationTop := by
  have lower : buffer.newTop size align ≤ buffer.allocationTop - size :=
    Buffer.newTop_le fits power
  simp only [Buffer.allocation]
  omega

theorem Inv.cut (inv : Inv state) {fresh : List Buffer} {size align : Nat} {pool' : Pool}
    {result : Allocation} (power : align.isPowerOfTwo)
    (cut : (state.pools type).Cut fresh state.currentTickId size align pool' result)
    (freshFits : ∀ buffer ∈ fresh, buffer.Fits)
    (freshRecent : ∀ buffer ∈ fresh, buffer.lastAllocationTick ≤ state.currentTickId)
    (freshOnce : ∀ vkHandle, countHandle fresh vkHandle +
      (countHandle (state.pools .scratch).buffers vkHandle +
        countHandle (state.pools .upload).buffers vkHandle) ≤ 1) :
    Inv (({ state with pools := update state.pools type pool' } : State).record type
      size align (some result)) := by
  have fits : ∀ buffer ∈ fresh ++ (state.pools type).buffers, buffer.Fits :=
    List.forall_mem_append.mpr ⟨freshFits, inv.fits type⟩
  have recent : ∀ buffer ∈ fresh ++ (state.pools type).buffers,
      buffer.lastAllocationTick ≤ state.currentTickId :=
    List.forall_mem_append.mpr ⟨freshRecent, inv.recent type⟩
  have goesOn : ∀ record, ∀ buffer ∈ (state.pools record.type).buffers,
      buffer.HoldsRecord record →
        ∃ after ∈ (update state.pools type pool' record.type).buffers,
          after.HoldsRecord record := by
    intro record buffer mem holds
    by_cases here : record.type = type
    · rw [here] at mem ⊢
      rw [update_self]
      exact (cut.goesOn fits power recent mem).holds holds
    · rw [update_of_ne here]
      exact ⟨buffer, mem, holds⟩
  obtain ⟨buffer, others, perm, room, buffers, rfl⟩ := cut.cut
  have inPool := perm.mem_iff.mp List.mem_cons_self
  have ends : (buffer.allocation size align).bufferOffset + (buffer.allocation size align).size =
      buffer.allocationTop := Buffer.allocation_end (fits buffer inPool) power
  exact
    { once := by
        intro vkHandle
        have counted := cut.count vkHandle
        have once := freshOnce vkHandle
        cases type <;> simp [State.record, counted] <;> omega
      fits := forall_update inv.fits (cut.fits fits power)
      recent := forall_update inv.recent (cut.recent recent)
      valid := by
        refine List.forall_mem_cons.mpr ⟨⟨?_, ?_⟩, inv.valid⟩
        · exact Buffer.dvd_newTop (fits buffer inPool) power
        · have lower : buffer.newTop size align ≤ buffer.allocationTop - size :=
            Buffer.newTop_le (fits buffer inPool) power
          simp only [Buffer.allocation]
          omega
      held := by
        refine List.forall_mem_cons.mpr ⟨fun _ => ?_, fun record mem pending => ?_⟩
        · refine ⟨buffer.cut state.currentTickId size align, ?_, ?_⟩
          · simp only [State.record, update_self, buffers]
            exact List.mem_cons_self
          · exact
              { handle := rfl
                tick := Int.le_refl _
                top := Nat.le_refl _
                inside := ends ▸ (fits buffer inPool).top }
        · obtain ⟨before, mem', holds⟩ := inv.held record mem pending
          exact goesOn record before mem' holds
      disjoint := by
        refine List.pairwise_cons.mpr ⟨?_, inv.disjoint⟩
        intro record mem _ pending same
        obtain ⟨before, mem', holds⟩ := inv.held record mem pending
        have handle : buffer.vkHandle = before.vkHandle := same.trans holds.handle.symm
        -- an older allocation of this handle lies above the top of the same buffer
        rcases List.mem_append.mp inPool with new | old
        · have once := freshOnce buffer.vkHandle
          have one := countHandle_pos new
          have other := countHandle_pos mem'
          rw [← handle] at other
          cases kind : record.type <;> rw [kind] at other <;> omega
        · obtain ⟨_, rfl⟩ := inv.unique old mem' handle
          exact Or.inl (Nat.le_trans (Nat.le_of_eq ends) holds.top) }

/-- A step neither resets nor destroys a buffer with an allocation that may be read after it, and
cuts new allocations from inside of their buffers. -/
structure State.Stays (state state' : State) : Prop where
  buffers : ∀ type, ∀ buffer ∈ (state.pools type).buffers, ∀ record ∈ state.records,
    record.result.buffer = buffer.vkHandle → state'.Pending record →
      ∃ after ∈ (state'.pools type).buffers, after.vkHandle = buffer.vkHandle ∧
        after.bufferSize = buffer.bufferSize ∧ after.allocationTop ≤ buffer.allocationTop
  records : ∀ record ∈ state'.records, record ∈ state.records ∨
    ∃ buffer ∈ (state'.pools record.type).buffers, buffer.vkHandle = record.result.buffer ∧
      record.result.bufferOffset + record.result.size ≤ buffer.bufferSize

theorem stays_of_goesOn (sameRecords : state'.records = state.records)
    (goesOn : ∀ type, ∀ buffer ∈ (state.pools type).buffers,
      buffer.GoesOn (state'.pools type).buffers) : state.Stays state' where
  buffers := by
    intro type buffer mem record _ _ _
    obtain ⟨after, mem', handle, size, top, _⟩ := goesOn type buffer mem
    exact ⟨after, mem', handle, size, top⟩
  records := fun record mem => Or.inl (sameRecords ▸ mem)

theorem begin_stays (inv : Inv state) (completedTick newTick : FrameTickId) :
    state.Stays { state with
      currentTickId := newTick
      pools := fun type => (state.pools type).onFrameTickBegin completedTick newTick
      completedTick := max state.completedTick completedTick } := by
  refine { buffers := ?_, records := fun record mem => Or.inl mem }
  intro type buffer mem record inRecords same pending
  have before : state.Pending record := Int.lt_of_le_of_lt (Int.le_max_left _ _) pending
  obtain ⟨holder, inPool, holds⟩ := inv.held record inRecords before
  obtain ⟨_, rfl⟩ := inv.unique mem inPool (same.symm.trans holds.handle.symm)
  have unread : completedTick < buffer.lastAllocationTick :=
    Int.lt_of_lt_of_le (Int.lt_of_le_of_lt (Int.le_max_right _ _) pending) holds.tick
  obtain ⟨after, mem', handle, size, top, _⟩ :=
    onFrameTickBegin_goesOn completedTick newTick mem unread
  exact ⟨after, mem', handle, size, top⟩

theorem countHandle_eq_zero {vkHandle : Nat} (fresh : state.exists vkHandle = false)
    (type : BufferType) : countHandle (state.pools type).buffers vkHandle = 0 := by
  refine List.countP_eq_zero.mpr fun buffer mem same => ?_
  have found : state.exists vkHandle = true :=
    List.any_eq_true.mpr ⟨type, by cases type <;> simp, List.any_eq_true.mpr ⟨buffer, mem, same⟩⟩
  rw [fresh] at found
  cases found

/-- An allocation keeps the invariant and resets nothing; its assertions hold. -/
theorem allocate_correct (inv : Inv state) {size align : Nat} {created : Option Created}
    (allowed : state.Allows (.allocate type size align created)) :
    ∃ state', step state (.allocate type size align created) = some state' ∧ Inv state' ∧
      state.Stays state' := by
  obtain ⟨begun, power, _, bound, unused⟩ := id allowed
  obtain ⟨pool', result, allocated, cases⟩ :=
    allocate_cases (state.pools type) state.currentTickId align bound created
  refine ⟨_, by rw [step, if_pos allowed]; dsimp only; rw [allocated, Option.map_some], ?_⟩
  rcases cases with ⟨rfl, perm⟩ | ⟨fresh, allocation, rfl, cut, origin⟩
  · refine ⟨inv.permute (perm_update perm), stays_of_goesOn rfl fun other buffer mem => ?_⟩
    exact .of_mem ((perm_update perm other).mem_iff.mpr mem)
  -- a fresh buffer fits, was never used and has a handle of its own
  have freshFits : ∀ buffer ∈ fresh, buffer.Fits := by
    rcases origin with rfl | ⟨new, _, rfl⟩
    · exact fun _ absurd => (List.not_mem_nil absurd).elim
    · exact List.forall_mem_singleton.mpr ⟨Nat.le_refl _, (newBufferSize_spec bound).2⟩
  have freshRecent : ∀ buffer ∈ fresh, buffer.lastAllocationTick ≤ state.currentTickId := by
    rcases origin with rfl | ⟨new, _, rfl⟩
    · exact fun _ absurd => (List.not_mem_nil absurd).elim
    · exact List.forall_mem_singleton.mpr (Int.le_trans (Int.neg_ofNat_le_ofNat 1 0) begun)
  have freshOnce : ∀ vkHandle, countHandle fresh vkHandle +
      (countHandle (state.pools .scratch).buffers vkHandle +
        countHandle (state.pools .upload).buffers vkHandle) ≤ 1 := by
    intro vkHandle
    have once := inv.once vkHandle
    rcases origin with rfl | ⟨new, given, rfl⟩
    · simpa [countHandle] using once
    · by_cases same : vkHandle = new.vkHandle
      · subst same
        rw [countHandle_eq_zero (unused new given), countHandle_eq_zero (unused new given)]
        exact List.countP_le_length
      · have other : countHandle [(state.pools type).newBuffer size new] vkHandle = 0 := by
          simpa [countHandle, Pool.newBuffer] using Ne.symm same
        omega
  have fits := List.forall_mem_append.mpr ⟨freshFits, inv.fits type⟩
  refine ⟨inv.cut power cut freshFits freshRecent freshOnce, ?_⟩
  have goesOn : ∀ other, ∀ buffer ∈ (state.pools other).buffers,
      buffer.GoesOn (update state.pools type pool' other).buffers := by
    intro other buffer mem
    by_cases here : other = type
    · subst here
      rw [update_self]
      exact cut.goesOn fits power
        (List.forall_mem_append.mpr ⟨freshRecent, inv.recent other⟩) mem
    · rw [update_of_ne here]
      exact .of_mem mem
  refine
    { buffers := fun other buffer mem record _ _ _ => ?_
      records := List.forall_mem_cons.mpr ⟨Or.inr ?_, fun record mem => Or.inl mem⟩ }
  · obtain ⟨after, mem', handle, size, top, _⟩ := goesOn other buffer mem
    exact ⟨after, mem', handle, size, top⟩
  · obtain ⟨buffer, others, perm, _, buffers, rfl⟩ := cut.cut
    have here := fits buffer (perm.mem_iff.mp List.mem_cons_self)
    refine ⟨buffer.cut state.currentTickId size align, ?_, rfl, ?_⟩
    · simp only [State.record, update_self, buffers]
      exact List.mem_cons_self
    · exact (Buffer.allocation_end here power) ▸ here.top

theorem step_correct (inv : Inv state) {action : Action} (allowed : state.Allows action) :
    ∃ state', step state action = some state' ∧ Inv state' ∧ state.Stays state' := by
  cases action with
  | onFrameTickBegin completedTick newTick =>
    exact ⟨_, if_pos allowed, inv.onFrameTickBegin allowed,
      begin_stays inv completedTick newTick⟩
  | allocate type size align created => exact allocate_correct inv allowed
  | onFrameTickEnd =>
    refine ⟨_, if_pos allowed, inv.permute fun _ => List.Perm.refl _, ?_⟩
    exact stays_of_goesOn rfl fun _ _ mem => .of_mem mem

end Step

/-! ## Runs -/

theorem run_inv {actions : List Action} {state : State} (reached : run actions = some state) :
    Inv state := by
  refine Runs.run_preserved (fun state action state' inv next => ?_) Inv.init reached
  by_cases allowed : state.Allows action
  · obtain ⟨after, same, inv', _⟩ := step_correct inv allowed
    rw [next] at same
    cases same
    exact inv'
  · unfold step at next
    rw [if_neg allowed] at next
    cases next

/-- What the allocations of a state promise. -/
structure State.Correct (state : State) : Prop where
  /-- Every allocation is aligned and as long as requested. -/
  valid : ∀ record ∈ state.records, record.align ∣ record.result.bufferOffset ∧
    record.size ≤ record.result.size
  /-- The buffer of an allocation that may be read exists, with the allocation inside. -/
  inside : ∀ record ∈ state.records, state.Pending record →
    ∃ buffer ∈ (state.pools record.type).buffers, buffer.vkHandle = record.result.buffer ∧
      record.result.bufferOffset + record.result.size ≤ buffer.bufferSize
  /-- Allocations of one buffer that may be read do not meet. -/
  disjoint : state.records.Pairwise fun first second => state.Pending first →
    state.Pending second → first.result.buffer = second.result.buffer →
      first.result.Disjoint second.result
  /-- Every buffer stands in one list, and there once. -/
  once : ∀ type, ∀ buffer ∈ (state.pools type).buffers,
    countHandle (state.pools .scratch).buffers buffer.vkHandle +
      countHandle (state.pools .upload).buffers buffer.vkHandle = 1

theorem Inv.correct {state : State} (inv : Inv state) : state.Correct where
  valid := inv.valid
  inside := by
    intro record mem pending
    obtain ⟨buffer, inPool, holds⟩ := inv.held record mem pending
    exact ⟨buffer, inPool, holds.handle, holds.inside⟩
  disjoint := inv.disjoint
  once := by
    intro type buffer mem
    have once := inv.once buffer.vkHandle
    have one := countHandle_pos mem
    cases type <;> omega

/-- In every run the allocations are correct, and every call that callers may make next returns,
without an assertion failing, and leaves the buffers that may be read. -/
theorem run_allocations_correct {actions : List Action} {state : State}
    (reached : run actions = some state) :
    state.Correct ∧ ∀ action, state.Allows action →
      ∃ state', step state action = some state' ∧ state.Stays state' := by
  have inv := run_inv reached
  refine ⟨inv.correct, fun action allowed => ?_⟩
  obtain ⟨state', next, _, stays⟩ := step_correct inv allowed
  exact ⟨state', next, stays⟩

/-- Two ticks share a buffer, and a third one finds it full. -/
def sharedBufferActions : List Action :=
  [.onFrameTickBegin (-1) 0, .allocate .upload 600000 256 (some ⟨7, some 4096⟩), .onFrameTickEnd,
    .onFrameTickBegin (-1) 1, .allocate .upload 400000 64 none, .onFrameTickEnd,
    .onFrameTickBegin 0 2, .allocate .upload 100000 4 (some ⟨8, none⟩)]

theorem sharedBufferActions_correct :
    ∃ state, run sharedBufferActions = some state ∧
      (state.records.map fun record => (record.result.buffer, record.result.bufferOffset)) =
        [(8, 948576), (7, 48512), (7, 448512)] ∧ state.Correct := by
  have reached : ((run sharedBufferActions).map fun state =>
      state.records.map fun record => (record.result.buffer, record.result.bufferOffset)) =
        some [(8, 948576), (7, 48512), (7, 448512)] := by decide +kernel
  obtain ⟨state, run, records⟩ := Option.map_eq_some_iff.mp reached
  exact ⟨state, run, records, (run_allocations_correct run).1⟩

end Voxen.Gfx.TransientBufferAllocator
