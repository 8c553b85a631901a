import Voxen.Gfx.CommandAllocator

/-!
# Runs of the command allocator

The buffers of a pool were last handed out in a tick not above the tick of its set, and
a pool in the destroy queue belongs to no set any more.
-/

namespace Voxen.Gfx

open Function (update update_of_ne update_self update_apply)

theorem Queue.index_lt (queue : Queue) : queue.index < 3 := by
  cases queue <;> decide

theorem Queue.index_injective {queue queue' : Queue} (same : queue.index = queue'.index) :
    queue = queue' := by
  cases queue <;> cases queue' <;> first | rfl | cases same

/-! ## The destroy queue -/

namespace Device

theorem splitDestroyQueue_spec (completedTick : FrameTickId)
    (queue : List (JunkItem × FrameTickId)) :
    (splitDestroyQueue completedTick queue).1 ++ (splitDestroyQueue completedTick queue).2 =
        queue ∧
      (∀ entry ∈ (splitDestroyQueue completedTick queue).1, entry.2 ≤ completedTick) ∧
      ∀ entry rest, (splitDestroyQueue completedTick queue).2 = entry :: rest →
        completedTick < entry.2 := by
  induction queue with
  | nil => exact ⟨rfl, fun _ absurd => (List.not_mem_nil absurd).elim, fun _ _ absurd => by
      cases absurd⟩
  | cons entry queue ih =>
    obtain ⟨whole, taken, stopped⟩ := ih
    unfold splitDestroyQueue
    dsimp only
    split
    · rename_i later
      refine ⟨rfl, fun _ absurd => (List.not_mem_nil absurd).elim, fun first rest same => ?_⟩
      cases same
      exact later
    · rename_i early
      refine ⟨congrArg (entry :: ·) whole, ?_, stopped⟩
      exact List.forall_mem_cons.mpr ⟨Int.not_lt.mp early, taken⟩

theorem splitDestroyQueue_left {completedTick : FrameTickId}
    {queue : List (JunkItem × FrameTickId)}
    (order : queue.Pairwise fun first second => first.2 ≤ second.2) :
    ∀ entry ∈ (splitDestroyQueue completedTick queue).2, completedTick < entry.2 := by
  obtain ⟨whole, _, stopped⟩ := splitDestroyQueue_spec completedTick queue
  cases left : (splitDestroyQueue completedTick queue).2 with
  | nil => exact fun _ absurd => (List.not_mem_nil absurd).elim
  | cons first rest =>
    have later := stopped first rest left
    rw [← whole, left] at order
    have rising := (List.pairwise_cons.mp (List.pairwise_append.mp order).2.1).1
    exact List.forall_mem_cons.mpr ⟨later, fun entry mem =>
      Int.lt_of_lt_of_le later (rising entry mem)⟩

end Device

namespace CommandAllocator

variable {state state' : State}

theorem setAt_apply {α : Type} (array : Nat → Queue → α) (set : Nat) (queue : Queue) (value : α)
    (set' : Nat) (queue' : Queue) :
    setAt array set queue value set' queue' =
      if set' = set ∧ queue' = queue then value else array set' queue' := by
  unfold setAt
  by_cases same : set' = set
  · subst same
    rw [update_self, update_apply]
    simp
  · rw [update_of_ne same, if_neg fun both => same both.1]

/-- What holds of the pools and the buffers at any time. -/
structure PoolsInv (state : State) : Prop where
  own : ∀ pool ∈ state.ownPools, pool < state.nextObject
  pools : ∀ set < Consts.maxPendingFrames, ∀ queue,
    state.allocator.commandPools set queue ∈ state.ownPools
  distinct : ∀ set < Consts.maxPendingFrames, ∀ set' < Consts.maxPendingFrames, ∀ queue queue',
    state.allocator.commandPools set queue = state.allocator.commandPools set' queue' →
      set = set' ∧ queue = queue'
  buffers : ∀ set < Consts.maxPendingFrames, ∀ queue,
    ∀ buffer ∈ state.allocator.commandBuffers set queue, buffer < state.nextObject ∧
      state.poolOf buffer = state.allocator.commandPools set queue
  nodup : ∀ set < Consts.maxPendingFrames, ∀ queue,
    (state.allocator.commandBuffers set queue).Nodup
  handed : ∀ handed ∈ state.handed, handed.buffer < state.nextObject ∧
    state.poolOf handed.buffer ∈ state.ownPools
  set : state.allocator.currentSet < Consts.maxPendingFrames

/-- What holds of the ticks buffers were handed out in. -/
structure TicksInv (state : State) : Prop where
  recent : ∀ handed ∈ state.handed, handed.tickId ≤ state.device.currentTickId
  sets : ∀ set < Consts.maxPendingFrames, ∀ queue, ∀ handed ∈ state.handed,
    state.poolOf handed.buffer = state.allocator.commandPools set queue →
      handed.tickId ≤ state.allocator.tickIds set
  junk : ∀ pool tickId, (JunkItem.commandPool pool, tickId) ∈ state.enqueued →
    pool < state.nextObject ∧
      (∀ set < Consts.maxPendingFrames, ∀ queue, state.allocator.commandPools set queue ≠ pool) ∧
      ∀ handed ∈ state.handed, state.poolOf handed.buffer = pool → handed.tickId ≤ tickId
  once : state.handed.Pairwise fun first second =>
    first.tickId = second.tickId → first.buffer ≠ second.buffer

/-- What holds of the destroy queue. -/
structure QueueInv (state : State) : Prop where
  whole : state.destroyed ++ state.device.destroyQueue = state.enqueued
  order : state.device.destroyQueue.Pairwise fun first second => first.2 ≤ second.2
  past : ∀ entry ∈ state.device.destroyQueue, entry.2 ≤ state.device.currentTickId

/-- What holds in the phases of a frame. -/
structure FrameInv (state : State) : Prop where
  start : state.phase = .notStarted → state.device.currentTickId ≤ 0 ∧
    state.finishedTick ≤ 0 ∧ ∀ set, state.allocator.tickIds set ≤ 0
  past : state.phase ≠ .notStarted → state.finishedTick < state.device.currentTickId ∧
    ∀ set, state.allocator.tickIds set ≤ state.device.currentTickId
  current : state.phase = .inFrame →
    state.allocator.tickIds state.allocator.currentSet = state.device.currentTickId
  used : state.phase = .inFrame → ∀ handed ∈ state.handed,
    handed.tickId = state.device.currentTickId → ∃ queue index,
      index < state.allocator.cmdBufferIndex queue ∧
        (state.allocator.commandBuffers state.allocator.currentSet queue)[index]? =
          some handed.buffer

structure Inv (state : State) : Prop where
  pools : PoolsInv state
  ticks : TicksInv state
  queue : QueueInv state
  frame : FrameInv state

theorem PoolsInv.init : PoolsInv {} where
  own := fun pool mem => List.mem_range.mp mem
  pools := by
    intro set below queue
    have below : set < 3 := below
    have := Queue.index_lt queue
    exact List.mem_range.mpr (show 3 * set + queue.index < 3 * 3 by omega)
  distinct := by
    intro set _ set' _ queue queue' same
    have numbered : 3 * set + queue.index = 3 * set' + queue'.index := same
    have := Queue.index_lt queue
    have := Queue.index_lt queue'
    exact ⟨by omega, Queue.index_injective (by omega)⟩
  buffers := fun _ _ _ _ absurd => (List.not_mem_nil absurd).elim
  nodup := fun _ _ _ => List.nodup_nil
  handed := fun _ absurd => (List.not_mem_nil absurd).elim
  set := by decide

theorem Inv.init : Inv {} where
  pools := PoolsInv.init
  ticks :=
    { recent := fun _ absurd => (List.not_mem_nil absurd).elim
      sets := fun _ _ _ _ absurd => (List.not_mem_nil absurd).elim
      junk := fun _ _ absurd => (List.not_mem_nil absurd).elim
      once := List.Pairwise.nil }
  queue :=
    { whole := rfl
      order := List.Pairwise.nil
      past := fun _ absurd => (List.not_mem_nil absurd).elim }
  frame :=
    { start := fun _ => ⟨by decide, by decide, fun _ => Int.le_refl 0⟩
      past := fun absurd => (absurd rfl).elim
      current := fun absurd => by cases absurd
      used := fun absurd => by cases absurd }

/-! ## Giving objects up -/

/-- A pool that no set has any more, or no pool at all, may be given up. -/
theorem QueueInv.enqueueDestroy (inv : QueueInv state) (item : JunkItem) :
    QueueInv (state.enqueueDestroy item) where
  whole := by
    change state.destroyed ++ (state.device.destroyQueue ++ _) = state.enqueued ++ _
    rw [← List.append_assoc, inv.whole]
  order := List.pairwise_append.mpr ⟨inv.order, List.pairwise_singleton _ _,
    fun entry mem last new => by
      rw [List.mem_singleton.mp new]
      exact inv.past entry mem⟩
  past := List.forall_mem_append.mpr ⟨inv.past, List.forall_mem_singleton.mpr (Int.le_refl _)⟩

theorem TicksInv.enqueueDestroy (inv : TicksInv state) {item : JunkItem}
    (unused : ∀ pool, item = .commandPool pool → pool < state.nextObject ∧
      ∀ set < Consts.maxPendingFrames, ∀ queue,
        state.allocator.commandPools set queue ≠ pool) :
    TicksInv (state.enqueueDestroy item) where
  recent := inv.recent
  sets := inv.sets
  junk := by
    intro pool tickId mem
    rcases List.mem_append.mp mem with mem | mem
    · exact inv.junk pool tickId mem
    · obtain ⟨rfl, rfl⟩ := Prod.mk.inj (List.mem_singleton.mp mem)
      obtain ⟨below, free⟩ := unused pool rfl
      exact ⟨below, free, fun handed mem _ => inv.recent handed mem⟩
  once := inv.once

theorem PoolsInv.enqueueDestroy (inv : PoolsInv state) (item : JunkItem) :
    PoolsInv (state.enqueueDestroy item) :=
  { inv with }

theorem FrameInv.enqueueDestroy (inv : FrameInv state) (item : JunkItem) :
    FrameInv (state.enqueueDestroy item) :=
  { inv with }

/-! ## Handing buffers out -/

variable {buffer : Nat} {queue : Queue} {completedTick newTick : FrameTickId} {start : State}

/-- A buffer of the current pool is handed out that was not handed out in this tick. -/
theorem TicksInv.hand (ticks : TicksInv state) (pools : PoolsInv state)
    (current : state.allocator.tickIds state.allocator.currentSet = state.device.currentTickId)
    (pool : state.poolOf buffer =
      state.allocator.commandPools state.allocator.currentSet queue)
    (fresh : ∀ handed ∈ state.handed, handed.tickId = state.device.currentTickId →
      handed.buffer ≠ buffer) :
    TicksInv { state with
      handed := { tickId := state.device.currentTickId, buffer := buffer } :: state.handed } where
  recent := List.forall_mem_cons.mpr ⟨Int.le_refl _, ticks.recent⟩
  sets := by
    intro set below queue'
    refine List.forall_mem_cons.mpr ⟨fun same => ?_, ticks.sets set below queue'⟩
    obtain ⟨rfl, -⟩ := pools.distinct _ pools.set set below queue queue' (pool.symm.trans same)
    exact Int.le_of_eq current.symm
  junk := by
    intro old tickId mem
    obtain ⟨below, free, used⟩ := ticks.junk old tickId mem
    refine ⟨below, free, List.forall_mem_cons.mpr ⟨fun same => ?_, used⟩⟩
    exact absurd (pool.symm.trans same) (free _ pools.set queue)
  once := List.pairwise_cons.mpr ⟨fun handed mem same => (fresh handed mem same.symm).symm,
    ticks.once⟩

theorem Inv.next_fresh (inv : Inv state) (frame : state.phase = .inFrame)
    (found : (state.allocator.commandBuffers state.allocator.currentSet queue)[
      state.allocator.cmdBufferIndex queue]? = some buffer) :
    ∀ handed ∈ state.handed, handed.tickId = state.device.currentTickId →
      handed.buffer ≠ buffer := by
  rintro handed mem now rfl
  obtain ⟨queue', index, used, place⟩ := inv.frame.used frame handed mem now
  have pool := inv.pools.buffers _ inv.pools.set queue _ (List.mem_of_getElem? found)
  have pool' := inv.pools.buffers _ inv.pools.set queue' _ (List.mem_of_getElem? place)
  obtain ⟨-, rfl⟩ := inv.pools.distinct _ inv.pools.set _ inv.pools.set queue queue'
    (pool.2.symm.trans pool'.2)
  have inside := (List.getElem?_eq_some_iff.mp place).1
  have same := (List.getElem?_inj inside (inv.pools.nodup _ inv.pools.set queue)).mp
    (place.trans found.symm)
  exact absurd same (Nat.ne_of_lt used)

theorem Inv.allocate_next (inv : Inv state) (frame : state.phase = .inFrame)
    (found : (state.allocator.commandBuffers state.allocator.currentSet queue)[
      state.allocator.cmdBufferIndex queue]? = some buffer) :
    Inv { state with
      allocator := { state.allocator with
        cmdBufferIndex := update state.allocator.cmdBufferIndex queue
          (state.allocator.cmdBufferIndex queue + 1) }
      handed := { tickId := state.device.currentTickId, buffer := buffer } :: state.handed } := by
  obtain ⟨known, pool⟩ := inv.pools.buffers _ inv.pools.set queue _ (List.mem_of_getElem? found)
  have handed := inv.ticks.hand inv.pools (inv.frame.current frame) pool
    (inv.next_fresh frame found)
  refine
    { pools :=
        { inv.pools with
          handed := List.forall_mem_cons.mpr
            ⟨⟨known, pool ▸ inv.pools.pools _ inv.pools.set queue⟩, inv.pools.handed⟩ }
      ticks := { handed with }
      queue := { inv.queue with }
      frame := { inv.frame with used := fun _ => List.forall_mem_cons.mpr ⟨fun _ => ?_, ?_⟩ } }
  · refine ⟨queue, state.allocator.cmdBufferIndex queue, ?_, found⟩
    simp only [update_self]
    exact Nat.lt_succ_self _
  · intro other mem now
    obtain ⟨queue', index, used, place⟩ := inv.frame.used frame other mem now
    refine ⟨queue', index, ?_, place⟩
    by_cases same : queue' = queue
    · subst same
      simp only [update_self]
      exact Nat.lt_succ_of_lt used
    · simp only [update_of_ne same]
      exact used

/-- The state with a new buffer in the current pool of a queue. -/
def State.withBuffer (state : State) (queue : Queue) : State :=
  { state with
    allocator := { state.allocator with
      commandBuffers := setAt state.allocator.commandBuffers state.allocator.currentSet queue
        (state.allocator.commandBuffers state.allocator.currentSet queue ++ [state.nextObject]) }
    nextObject := state.nextObject + 1
    poolOf := update state.poolOf state.nextObject
      (state.allocator.commandPools state.allocator.currentSet queue) }

theorem withBuffer_poolOf (queue : Queue) (known : buffer < state.nextObject) :
    (state.withBuffer queue).poolOf buffer = state.poolOf buffer :=
  update_of_ne (Nat.ne_of_lt known) _ _

theorem PoolsInv.withBuffer (inv : PoolsInv state) (queue : Queue) :
    PoolsInv (state.withBuffer queue) where
  own := fun pool mem => Nat.lt_succ_of_lt (inv.own pool mem)
  pools := inv.pools
  distinct := inv.distinct
  buffers := by
    intro set below queue' buffer mem
    have old : ∀ buffer ∈ state.allocator.commandBuffers set queue',
        buffer < state.nextObject + 1 ∧ (state.withBuffer queue).poolOf buffer =
          state.allocator.commandPools set queue' := by
      intro buffer mem
      obtain ⟨known, pool⟩ := inv.buffers set below queue' buffer mem
      exact ⟨Nat.lt_succ_of_lt known, (withBuffer_poolOf queue known).trans pool⟩
    unfold State.withBuffer at mem
    simp only [setAt_apply] at mem
    split at mem
    · rename_i here
      obtain ⟨rfl, rfl⟩ := here
      rcases List.mem_append.mp mem with mem | mem
      · exact old buffer mem
      · rw [List.mem_singleton.mp mem]
        exact ⟨Nat.lt_succ_self _, update_self _ _ _⟩
    · exact old buffer mem
  nodup := by
    intro set below queue'
    unfold State.withBuffer
    simp only [setAt_apply]
    split
    · refine List.nodup_append.mpr ⟨inv.nodup _ inv.set queue, by simp, ?_⟩
      intro buffer mem new last
      rw [List.mem_singleton.mp last]
      exact Nat.ne_of_lt (inv.buffers _ inv.set queue buffer mem).1
    · exact inv.nodup set below queue'
  handed := by
    intro handed mem
    obtain ⟨known, own⟩ := inv.handed handed mem
    exact ⟨Nat.lt_succ_of_lt known, (withBuffer_poolOf queue known).symm ▸ own⟩
  set := inv.set

theorem TicksInv.withBuffer (ticks : TicksInv state) (pools : PoolsInv state) (queue : Queue) :
    TicksInv (state.withBuffer queue) where
  recent := ticks.recent
  sets := by
    intro set below queue' handed mem same
    rw [withBuffer_poolOf queue (pools.handed handed mem).1] at same
    exact ticks.sets set below queue' handed mem same
  junk := by
    intro pool tickId mem
    obtain ⟨below, free, used⟩ := ticks.junk pool tickId mem
    refine ⟨Nat.lt_succ_of_lt below, free, fun handed mem same => ?_⟩
    rw [withBuffer_poolOf queue (pools.handed handed mem).1] at same
    exact used handed mem same
  once := ticks.once

theorem Inv.allocate_new (inv : Inv state) (frame : state.phase = .inFrame) (queue : Queue) :
    Inv { state.withBuffer queue with
      allocator := { (state.withBuffer queue).allocator with
        cmdBufferIndex := update state.allocator.cmdBufferIndex queue
          ((state.allocator.commandBuffers state.allocator.currentSet queue).length + 1) }
      handed := { tickId := state.device.currentTickId, buffer := state.nextObject } ::
        state.handed } := by
  have pools := inv.pools.withBuffer queue
  have pool : (state.withBuffer queue).poolOf state.nextObject =
      state.allocator.commandPools state.allocator.currentSet queue :=
    update_self _ _ _
  have handed := (inv.ticks.withBuffer inv.pools queue).hand pools (inv.frame.current frame) pool
    fun handed mem _ => Nat.ne_of_lt (inv.pools.handed handed mem).1
  refine
    { pools :=
        { pools with
          handed := List.forall_mem_cons.mpr
            ⟨⟨Nat.lt_succ_self _, pool ▸ inv.pools.pools _ inv.pools.set queue⟩, pools.handed⟩ }
      ticks := { handed with }
      queue := { inv.queue with }
      frame := { inv.frame with used := fun _ => List.forall_mem_cons.mpr ⟨fun _ => ?_, ?_⟩ } }
  · refine ⟨queue,
      (state.allocator.commandBuffers state.allocator.currentSet queue).length, ?_, ?_⟩
    · simp only [update_self]
      exact Nat.lt_succ_self _
    · unfold State.withBuffer
      simp only [setAt_apply, and_self, if_true]
      exact List.getElem?_concat_length
  · intro other mem now
    obtain ⟨queue', index, used, place⟩ := inv.frame.used frame other mem now
    have inside := (List.getElem?_eq_some_iff.mp place).1
    refine ⟨queue', index, ?_, ?_⟩
    · by_cases same : queue' = queue
      · subst same
        simp only [update_self]
        exact Nat.lt_succ_of_lt inside
      · simp only [update_of_ne same]
        exact used
    · unfold State.withBuffer
      simp only [setAt_apply, true_and]
      split
      · rename_i same
        subst same
        rw [List.getElem?_append_left inside]
        exact place
      · exact place

theorem Inv.allocate (inv : Inv state) (frame : state.phase = .inFrame) (queue : Queue) :
    Inv (state.allocate queue) ∧ ∃ buffer,
      (state.allocate queue).handed =
        { tickId := state.device.currentTickId, buffer := buffer } :: state.handed ∧
      (state.allocate queue).poolOf buffer =
        state.allocator.commandPools state.allocator.currentSet queue ∧
      (state.allocate queue).enqueued = state.enqueued ∧
      (state.allocate queue).destroyed = state.destroyed := by
  unfold State.allocate
  dsimp only
  split
  · rename_i buffer found
    exact ⟨inv.allocate_next frame found, buffer, rfl,
      (inv.pools.buffers _ inv.pools.set queue _ (List.mem_of_getElem? found)).2, rfl, rfl⟩
  · exact ⟨inv.allocate_new frame queue, state.nextObject, rfl, update_self _ _ _, rfl,
      rfl⟩

/-! ## Begin of a tick -/

theorem QueueInv.process (inv : QueueInv state) (completedTick : FrameTickId)
    {current : FrameTickId} (later : state.device.currentTickId ≤ current) :
    QueueInv { state with
      device := { (state.device.processDestroyQueue completedTick).1 with
        currentTickId := current }
      destroyed := state.destroyed ++ (state.device.processDestroyQueue completedTick).2 } := by
  obtain ⟨whole, -, -⟩ :=
    Device.splitDestroyQueue_spec completedTick state.device.destroyQueue
  have order := inv.order
  have past := inv.past
  rw [← whole] at order past
  refine
    { whole := ?_
      order := (List.pairwise_append.mp order).2.1
      past := fun entry mem =>
        Int.le_trans (past entry (List.mem_append_right _ mem)) later }
  change (state.destroyed ++ _) ++ _ = state.enqueued
  rw [List.append_assoc, ← inv.whole]
  exact congrArg (state.destroyed ++ ·) whole

theorem setOf_lt (tick : FrameTickId) : setOf tick < Consts.maxPendingFrames :=
  Nat.mod_lt _ (by decide)

theorem Inv.next_tick (inv : Inv state)
    (allowed : state.allows (.frameTickBegin completedTick newTick) = true) :
    completedTick < newTick ∧ state.device.currentTickId < newTick ∧
      state.finishedTick < newTick ∧ ∀ set, state.allocator.tickIds set < newTick := by
  unfold State.allows at allowed
  rw [Bool.and_eq_true, decide_eq_true_eq] at allowed
  obtain ⟨before, allowed⟩ := allowed
  refine ⟨before, ?_⟩
  cases phase : state.phase with
  | notStarted =>
    rw [phase] at allowed
    have positive : 0 < newTick := of_decide_eq_true allowed
    obtain ⟨current, finished, sets⟩ := inv.frame.start phase
    exact ⟨Int.lt_of_le_of_lt current positive, Int.lt_of_le_of_lt finished positive,
      fun set => Int.lt_of_le_of_lt (sets set) positive⟩
  | inFrame =>
    rw [phase] at allowed
    cases allowed
  | betweenFrames =>
    rw [phase] at allowed
    have next : newTick = state.device.currentTickId + 1 := eq_of_beq allowed
    obtain ⟨finished, sets⟩ := inv.frame.past (by rw [phase]; decide)
    have after : state.device.currentTickId < newTick := next ▸ Int.lt_succ _
    exact ⟨after, Int.lt_trans finished after, fun set => Int.lt_of_le_of_lt (sets set) after⟩

theorem frameTickBegin_finished (state : State) (completedTick newTick : FrameTickId) :
    completedTick ≤ (state.frameTickBegin completedTick newTick).finishedTick ∧
      state.allocator.tickIds (setOf newTick) ≤
        (state.frameTickBegin completedTick newTick).finishedTick := by
  unfold State.frameTickBegin State.onFrameTickBegin
  dsimp only
  split
  · exact ⟨Int.le_trans (Int.le_max_right _ _) (Int.le_max_left _ _), Int.le_max_right _ _⟩
  · rename_i early
    exact ⟨Int.le_max_right _ _, Int.le_trans (Int.not_lt.mp early) (Int.le_max_right _ _)⟩

theorem frameTickBegin_finished_lt (completed : completedTick < newTick)
    (finished : state.finishedTick < newTick)
    (sets : ∀ set, state.allocator.tickIds set < newTick) :
    (state.frameTickBegin completedTick newTick).finishedTick < newTick := by
  unfold State.frameTickBegin State.onFrameTickBegin
  dsimp only
  split
  · exact Int.max_lt.mpr ⟨Int.max_lt.mpr ⟨finished, completed⟩, sets _⟩
  · exact Int.max_lt.mpr ⟨finished, completed⟩

theorem frameTickBegin_tickIds_self (state : State) (completedTick newTick : FrameTickId) :
    (state.frameTickBegin completedTick newTick).allocator.tickIds (setOf newTick) = newTick :=
  update_self _ _ _

theorem frameTickBegin_tickIds_of_ne (state : State) (completedTick : FrameTickId) {set : Nat}
    (other : set ≠ setOf newTick) :
    (state.frameTickBegin completedTick newTick).allocator.tickIds set =
      state.allocator.tickIds set :=
  update_of_ne other _ _

theorem Inv.frameTickBegin (inv : Inv state)
    (allowed : state.allows (.frameTickBegin completedTick newTick) = true) :
    Inv (state.frameTickBegin completedTick newTick) := by
  obtain ⟨completed, later, finished, sets⟩ := inv.next_tick allowed
  have earlier : ∀ handed ∈ state.handed, handed.tickId < newTick := fun handed mem =>
    Int.lt_of_le_of_lt (inv.ticks.recent handed mem) later
  exact
    { pools := { inv.pools with set := setOf_lt newTick }
      ticks :=
        { inv.ticks with
          recent := fun handed mem => Int.le_of_lt (earlier handed mem)
          sets := by
            intro set below queue handed mem same
            by_cases here : set = setOf newTick
            · subst here
              rw [frameTickBegin_tickIds_self]
              exact Int.le_of_lt (earlier handed mem)
            · rw [frameTickBegin_tickIds_of_ne state completedTick here]
              exact inv.ticks.sets set below queue handed mem same }
      queue := { inv.queue.process completedTick (Int.le_of_lt later) with }
      frame :=
        { start := fun absurd => by cases absurd
          past := by
            refine fun _ => ⟨frameTickBegin_finished_lt completed finished sets, fun set => ?_⟩
            by_cases here : set = setOf newTick
            · subst here
              exact Int.le_of_eq (frameTickBegin_tickIds_self state completedTick newTick)
            · rw [frameTickBegin_tickIds_of_ne state completedTick here]
              exact Int.le_of_lt (sets set)
          current := fun _ => frameTickBegin_tickIds_self state completedTick newTick
          used := fun _ handed mem now => absurd (now ▸ earlier handed mem) (Int.lt_irrefl _) } }

/-! ## End of a tick -/

/-- The state with a new pool in the place of that of a queue. -/
def State.withPool (state : State) (queue : Queue) : State :=
  { state with
    allocator := { state.allocator with
      commandPools := setAt state.allocator.commandPools state.allocator.currentSet queue
        state.nextObject
      commandBuffers := setAt state.allocator.commandBuffers state.allocator.currentSet queue [] }
    nextObject := state.nextObject + 1
    ownPools := state.nextObject :: state.ownPools }

theorem PoolsInv.withPool (inv : PoolsInv state) (queue : Queue) :
    PoolsInv (state.withPool queue) where
  own := List.forall_mem_cons.mpr
    ⟨Nat.lt_succ_self _, fun pool mem => Nat.lt_succ_of_lt (inv.own pool mem)⟩
  pools := by
    intro set below queue'
    unfold State.withPool
    simp only [setAt_apply]
    split
    · exact List.mem_cons_self
    · exact List.mem_cons_of_mem _ (inv.pools set below queue')
  distinct := by
    have older : ∀ set < Consts.maxPendingFrames, ∀ queue',
        state.allocator.commandPools set queue' ≠ state.nextObject := fun set below queue' =>
      Nat.ne_of_lt (inv.own _ (inv.pools set below queue'))
    intro set below set' below' queue' queue'' same
    unfold State.withPool at same
    simp only [setAt_apply] at same
    split at same
    · rename_i here
      split at same
      · rename_i there
        exact ⟨here.1.trans there.1.symm, here.2.trans there.2.symm⟩
      · exact absurd same.symm (older set' below' queue'')
    · split at same
      · exact absurd same (older set below queue')
      · exact inv.distinct set below set' below' queue' queue'' same
  buffers := by
    intro set below queue' buffer mem
    unfold State.withPool at mem ⊢
    simp only [setAt_apply] at mem ⊢
    split at mem
    · exact (List.not_mem_nil mem).elim
    · rename_i elsewhere
      obtain ⟨known, pool⟩ := inv.buffers set below queue' buffer mem
      exact ⟨Nat.lt_succ_of_lt known, pool.trans (if_neg elsewhere).symm⟩
  nodup := by
    intro set below queue'
    unfold State.withPool
    simp only [setAt_apply]
    split
    · exact List.nodup_nil
    · exact inv.nodup set below queue'
  handed := by
    intro handed mem
    obtain ⟨known, own⟩ := inv.handed handed mem
    exact ⟨Nat.lt_succ_of_lt known, List.mem_cons_of_mem _ own⟩
  set := inv.set

theorem TicksInv.withPool (ticks : TicksInv state) (pools : PoolsInv state) (queue : Queue) :
    TicksInv (state.withPool queue) where
  recent := ticks.recent
  sets := by
    intro set below queue' handed mem same
    unfold State.withPool at same
    simp only [setAt_apply] at same
    split at same
    · -- nothing was handed out of the new pool
      exact absurd same (Nat.ne_of_lt (pools.own _ (pools.handed handed mem).2))
    · exact ticks.sets set below queue' handed mem same
  junk := by
    intro pool tickId mem
    obtain ⟨below, free, used⟩ := ticks.junk pool tickId mem
    refine ⟨Nat.lt_succ_of_lt below, fun set inside queue' => ?_, used⟩
    unfold State.withPool
    simp only [setAt_apply]
    split
    · exact (Nat.ne_of_lt below).symm
    · exact free set inside queue'
  once := ticks.once

/-- What the end of a tick keeps for every queue. -/
structure EndInv (start state : State) : Prop where
  pools : PoolsInv state
  ticks : TicksInv state
  queue : QueueInv state
  tickIds : state.allocator.tickIds = start.allocator.tickIds
  currentTickId : state.device.currentTickId = start.device.currentTickId
  finishedTick : state.finishedTick = start.finishedTick
  destroyed : state.destroyed = start.destroyed

theorem EndInv.endQueue (inv : EndInv start state) (queue : Queue) :
    EndInv start (state.endQueue queue) := by
  unfold State.endQueue
  dsimp only
  split
  · have pools := inv.pools.withPool queue
    have ticks := inv.ticks.withPool inv.pools queue
    have unused : ∀ pool, JunkItem.commandPool
          (state.allocator.commandPools state.allocator.currentSet queue) = .commandPool pool →
        pool < state.nextObject + 1 ∧ ∀ set < Consts.maxPendingFrames, ∀ queue',
          (state.withPool queue).allocator.commandPools set queue' ≠ pool := by
      rintro _ ⟨⟩
      have known := inv.pools.own _ (inv.pools.pools _ inv.pools.set queue)
      refine ⟨Nat.lt_succ_of_lt known, fun set below queue' => ?_⟩
      unfold State.withPool
      simp only [setAt_apply]
      split
      · exact (Nat.ne_of_lt known).symm
      · rename_i elsewhere
        intro same
        exact elsewhere (inv.pools.distinct set below _ inv.pools.set queue' queue same)
    exact
      { inv with
        pools := { pools.enqueueDestroy (.commandPool
          (state.allocator.commandPools state.allocator.currentSet queue)) with }
        ticks := { ticks.enqueueDestroy unused with }
        queue := { inv.queue.enqueueDestroy (.commandPool
          (state.allocator.commandPools state.allocator.currentSet queue)) with } }
  · exact
      { inv with
        pools := { inv.pools with }
        ticks := { inv.ticks with }
        queue := { inv.queue with } }

theorem EndInv.endQueues (inv : EndInv start state) (queues : List Queue) :
    EndInv start (queues.foldl State.endQueue state) := by
  induction queues generalizing state with
  | nil => exact inv
  | cons queue queues ih => exact ih (inv.endQueue queue)

theorem Inv.endQueues (inv : Inv state) : EndInv state (Queue.all.foldl State.endQueue state) :=
  EndInv.endQueues
    { pools := inv.pools
      ticks := inv.ticks
      queue := inv.queue
      tickIds := rfl
      currentTickId := rfl
      finishedTick := rfl
      destroyed := rfl } Queue.all

theorem EndInv.finish (ended : EndInv start state)
    (past : start.finishedTick < start.device.currentTickId ∧
      ∀ set, start.allocator.tickIds set ≤ start.device.currentTickId) :
    Inv { state with phase := .betweenFrames } where
  pools := { ended.pools with }
  ticks := { ended.ticks with }
  queue := { ended.queue with }
  frame :=
    { start := fun absurd => by cases absurd
      past := fun _ => by
        dsimp only
        rw [ended.finishedTick, ended.currentTickId, ended.tickIds]
        exact past
      current := fun absurd => by cases absurd
      used := fun absurd => by cases absurd }

theorem Inv.frameTickEnd (inv : Inv state) (frame : state.phase = .inFrame) :
    Inv state.frameTickEnd ∧ state.frameTickEnd.destroyed = state.destroyed :=
  ⟨inv.endQueues.finish (inv.frame.past (by rw [frame]; decide)), inv.endQueues.destroyed⟩

/-! ## Other components -/

theorem Inv.createObject (inv : Inv state) :
    Inv { state with nextObject := state.nextObject + 1 } where
  pools :=
    { inv.pools with
      own := fun pool mem => Nat.lt_succ_of_lt (inv.pools.own pool mem)
      buffers := fun set below queue buffer mem =>
        ⟨Nat.lt_succ_of_lt (inv.pools.buffers set below queue buffer mem).1,
          (inv.pools.buffers set below queue buffer mem).2⟩
      handed := fun handed mem =>
        ⟨Nat.lt_succ_of_lt (inv.pools.handed handed mem).1, (inv.pools.handed handed mem).2⟩ }
  ticks :=
    { inv.ticks with
      junk := fun pool tickId mem => ⟨Nat.lt_succ_of_lt (inv.ticks.junk pool tickId mem).1,
        (inv.ticks.junk pool tickId mem).2⟩ }
  queue := { inv.queue with }
  frame := { inv.frame with }

theorem Inv.enqueueDestroy (inv : Inv state) {item : JunkItem}
    (allowed : state.allows (.enqueueDestroy item) = true) : Inv (state.enqueueDestroy item) := by
  refine
    { pools := inv.pools.enqueueDestroy item
      ticks := inv.ticks.enqueueDestroy ?_
      queue := inv.queue.enqueueDestroy item
      frame := inv.frame.enqueueDestroy item }
  rintro pool rfl
  unfold State.allows at allowed
  simp only [Bool.and_eq_true, decide_eq_true_eq, Bool.not_eq_true'] at allowed
  obtain ⟨-, known, foreign⟩ := allowed
  refine ⟨known, fun set below queue same => ?_⟩
  rw [List.contains_iff_mem.mpr (same ▸ inv.pools.pools set below queue)] at foreign
  cases foreign

theorem Inv.forceCompletion (inv : Inv state) :
    Inv { state with
      device := state.device.forceCompletion.1
      destroyed := state.destroyed ++ state.device.forceCompletion.2 } where
  pools := { inv.pools with }
  ticks := { inv.ticks with }
  queue := { inv.queue.process (2 ^ 63 - 1) (Int.le_refl _) with }
  frame := { inv.frame with }

/-! ## Runs -/

theorem step_eq_some {action : Action} :
    step state action = some state' ↔ state.allows action = true ∧ state.act action = state' := by
  unfold step
  split
  · rename_i allowed
    rw [Option.some_inj]
    exact (and_iff_right allowed).symm
  · rename_i refused
    exact ⟨fun absurd => (by cases absurd), fun both => absurd both.1 refused⟩

/-- Step lemma; only the begin of a tick and a forced completion destroy something. -/
theorem Inv.step (inv : Inv state) {action : Action} (taken : step state action = some state') :
    Inv state' ∧ ((∀ completedTick newTick, action ≠ .frameTickBegin completedTick newTick) →
      action ≠ .forceCompletion → state'.destroyed = state.destroyed) := by
  obtain ⟨allowed, rfl⟩ := step_eq_some.mp taken
  cases action with
  | frameTickBegin completedTick newTick =>
    exact ⟨inv.frameTickBegin allowed, fun other => absurd rfl (other completedTick newTick)⟩
  | allocate queue =>
    obtain ⟨kept, _, _, _, _, same⟩ := inv.allocate (eq_of_beq allowed) queue
    exact ⟨kept, fun _ _ => same⟩
  | createObject =>
    exact ⟨inv.createObject, fun _ _ => rfl⟩
  | enqueueDestroy item =>
    exact ⟨inv.enqueueDestroy allowed, fun _ _ => rfl⟩
  | frameTickEnd =>
    exact ⟨(inv.frameTickEnd (eq_of_beq allowed)).1,
      fun _ _ => (inv.frameTickEnd (eq_of_beq allowed)).2⟩
  | forceCompletion =>
    exact ⟨inv.forceCompletion, fun _ other => absurd rfl other⟩

theorem run_inv {actions : List Action} (reached : run actions = some state) : Inv state :=
  Runs.run_preserved (fun _ _ _ inv taken => (inv.step taken).1) Inv.init reached

/-- What holds of the begin of a tick: the pools that are reset were used in finished ticks only,
and what is destroyed was given up in completed ticks and not used later. -/
structure BeginCorrect (state : State) (completedTick newTick : FrameTickId) (state' : State) :
    Prop where
  finished : completedTick ≤ state'.finishedTick ∧ state'.finishedTick < newTick
  reset : ∀ queue, ∀ handed ∈ state'.handed, state'.poolOf handed.buffer =
      state'.allocator.commandPools state'.allocator.currentSet queue →
    handed.tickId ≤ state'.finishedTick
  junk : ∃ processed, state'.destroyed = state.destroyed ++ processed ∧
    (∀ entry ∈ processed, entry.2 ≤ completedTick ∧
      ∀ pool, entry.1 = .commandPool pool → ∀ handed ∈ state'.handed,
        state'.poolOf handed.buffer = pool → handed.tickId ≤ completedTick) ∧
    ∀ entry ∈ state'.device.destroyQueue, completedTick < entry.2

theorem Inv.beginCorrect (inv : Inv state)
    (taken : CommandAllocator.step state (.frameTickBegin completedTick newTick) = some state') :
    BeginCorrect state completedTick newTick state' := by
  obtain ⟨allowed, rfl⟩ := step_eq_some.mp taken
  obtain ⟨completed, later, finished, sets⟩ := inv.next_tick allowed
  obtain ⟨reported, waited⟩ := frameTickBegin_finished state completedTick newTick
  obtain ⟨whole, early, -⟩ :=
    Device.splitDestroyQueue_spec completedTick state.device.destroyQueue
  refine
    { finished := ⟨reported, frameTickBegin_finished_lt completed finished sets⟩
      reset := fun queue handed mem same =>
        Int.le_trans (inv.ticks.sets _ (setOf_lt newTick) queue handed mem same) waited
      junk := ⟨_, rfl, fun entry mem => ⟨early entry mem, ?_⟩,
        Device.splitDestroyQueue_left inv.queue.order⟩ }
  intro pool item handed used same
  have enqueued : (JunkItem.commandPool pool, entry.2) ∈ state.enqueued := by
    rw [← item, ← inv.queue.whole, ← whole]
    exact List.mem_append_right _ (List.mem_append_left _ mem)
  obtain ⟨-, -, ticks⟩ := inv.ticks.junk pool entry.2 enqueued
  exact Int.le_trans (ticks handed used same) (early entry mem)

/-- What an allocation hands out: a buffer of the pool the set has, which was not given up. -/
def AllocateCorrect (state : State) (queue : Queue) (state' : State) : Prop :=
  ∃ buffer, state'.handed =
      { tickId := state.device.currentTickId, buffer := buffer } :: state.handed ∧
    state'.poolOf buffer = state.allocator.commandPools state.allocator.currentSet queue ∧
    ∀ tickId, (JunkItem.commandPool (state'.poolOf buffer), tickId) ∉ state'.enqueued

theorem Inv.allocateCorrect (inv : Inv state)
    (taken : CommandAllocator.step state (.allocate queue) = some state') :
    AllocateCorrect state queue state' := by
  obtain ⟨allowed, rfl⟩ := step_eq_some.mp taken
  obtain ⟨-, buffer, handed, pool, enqueued, -⟩ := inv.allocate (eq_of_beq allowed) queue
  refine ⟨buffer, handed, pool, fun tickId mem => ?_⟩
  rw [State.act, pool, enqueued] at mem
  exact (inv.ticks.junk _ tickId mem).2.1 _ inv.pools.set queue rfl

/-- Ticks two to six: a pool grows to five buffers, and is replaced in the tick that comes to it
again. -/
def shrinkActions : List Action :=
  [.frameTickBegin 1 2, .allocate .main, .allocate .main, .allocate .main, .allocate .main,
    .allocate .main, .frameTickEnd, .frameTickBegin 1 3, .frameTickEnd, .frameTickBegin 1 4,
    .frameTickEnd, .frameTickBegin 3 5, .allocate .main]

/-- A pool is replaced only if its buffers were used in finished ticks only. -/
def ReplacesIdle : Prop :=
  ∀ actions state state', run actions = some state → step state .frameTickEnd = some state' →
    ∀ queue, state'.allocator.commandPools state.allocator.currentSet queue ≠
        state.allocator.commandPools state.allocator.currentSet queue →
      ∀ handed ∈ state.handed, state.poolOf handed.buffer =
          state.allocator.commandPools state.allocator.currentSet queue →
        handed.tickId ≤ state'.finishedTick

end CommandAllocator

end Voxen.Gfx
