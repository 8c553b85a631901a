import Voxen.Gfx.MeshStreamer

/-!
# Pools of the mesh streamer

The two counters of a pool against the ranges that are held in it: allocation, the way back
of an allocation and the sweep over the pools keep them in step.
-/

namespace Voxen.Gfx

namespace MeshStreamer

open BumpRegion

variable {now now' : Moment} {pool : Pool} {pools : List Pool}
  {allocation : Allocation} {held held' : List Allocation}

/-! ## Ranges -/

theorem liveRanges_self (held : List Allocation) (allocation : Allocation) :
    liveRanges (allocation :: held) allocation.pool =
      allocation.range :: liveRanges held allocation.pool := by
  unfold liveRanges
  rw [List.filter_cons, if_pos (decide_eq_true rfl), List.map_cons]

variable {vkHandle : Nat}

theorem liveRanges_of_ne (held : List Allocation) (elsewhere : allocation.pool ≠ vkHandle) :
    liveRanges (allocation :: held) vkHandle = liveRanges held vkHandle := by
  unfold liveRanges
  rw [List.filter_cons, if_neg (by rw [decide_eq_true_eq]; exact elsewhere)]

theorem liveRanges_perm (perm : List.Perm held held') (vkHandle : Nat) :
    List.Perm (liveRanges held vkHandle) (liveRanges held' vkHandle) :=
  (perm.filter _).map _

theorem liveRanges_eq_nil (elsewhere : ∀ allocation ∈ held, allocation.pool ≠ vkHandle) :
    liveRanges held vkHandle = [] := by
  unfold liveRanges
  rw [List.map_eq_nil_iff, List.filter_eq_nil_iff]
  intro allocation mem
  rw [decide_eq_true_eq]
  exact elsewhere allocation mem

theorem range_mem_liveRanges (mem : allocation ∈ held) :
    allocation.range ∈ liveRanges held allocation.pool :=
  List.mem_map_of_mem (List.mem_filter.mpr ⟨mem, decide_eq_true rfl⟩)

/-! ## Invariants -/

/-- The moment when one more allocation is held. -/
def Moment.taking (now : Moment) (allocation : Allocation) : Moment :=
  { now with held := allocation :: now.held }

/-- What `allocate` may be asked for. -/
structure Request (numElements elementSize : Nat) : Prop where
  some : 0 < numElements
  proper : 1 ≤ elementSize
  small : elementSize ≤ maxElementSize
  fits : numElements * elementSize ≤ poolSizeBytes

/-- The counters of a pool tell what is held in it. -/
structure Pool.Ok (now : Moment) (pool : Pool) : Prop where
  ranges : BumpRegion.Inv pool.allocatedElements pool.freedElements
    (liveRanges now.held pool.vkHandle)
  room : pool.allocatedElements * pool.elementSize ≤ poolSizeBytes
  small : pool.elementSize ≤ maxElementSize
  empty : pool.elementSize = 0 ↔ pool.allocatedElements = 0
  clean : pool.elementSize = 0 →
    pool.isExhausted = false ∧ ∀ tick ∈ pool.usedIn, tick ≤ now.completed
  used : ∀ tick ∈ pool.usedIn, tick ≤ pool.lastAccessTick
  accessed : pool.lastAccessTick ≤ now.tick

/-- Nothing is held in the pool, and no tick after the completed one used it. -/
def Turnover.Clean (turnover : Turnover) : Prop :=
  turnover.live = [] ∧ ∀ tick ∈ turnover.usedIn, tick ≤ turnover.completed

/-- The pools with that handle are accessed in this tick. -/
def Accessed (now : Moment) (vkHandle : Nat) (pools : List Pool) : Prop :=
  ∀ pool ∈ pools, pool.vkHandle = vkHandle → pool.lastAccessTick = now.tick

structure Memory.Inv (now : Moment) (memory : Memory) : Prop where
  handles : (memory.pools.map Pool.vkHandle).Nodup
  below : ∀ vkHandle ∈ memory.pools.map Pool.vkHandle, vkHandle < memory.nextHandle
  homes : ∀ allocation ∈ now.held, allocation.pool ∈ memory.pools.map Pool.vkHandle
  pools : ∀ pool ∈ memory.pools, pool.Ok now
  turnovers : ∀ turnover ∈ memory.turnovers, turnover.Clean
  divisors : ∀ divisor ∈ memory.divisors, divisor ≠ 0

namespace Pool.Ok

theorem allocated_le (ok : pool.Ok now) : pool.allocatedElements ≤ poolSizeBytes := by
  by_cases none : pool.elementSize = 0
  · rw [ok.empty.mp none]
    exact Nat.zero_le _
  · exact Nat.le_trans (Nat.le_mul_of_pos_right _ (Nat.pos_of_ne_zero none)) ok.room

theorem live_eq_nil (ok : pool.Ok now) (none : pool.allocatedElements = 0) :
    liveRanges now.held pool.vkHandle = [] := by
  have ranges := ok.ranges
  have counted := ranges.counted
  rw [none] at ranges counted
  rw [Nat.eq_zero_of_add_eq_zero_right counted] at ranges
  exact ranges.none_held

theorem elementSize_ne_zero (ok : pool.Ok now) (mem : allocation ∈ now.held)
    (here : allocation.pool = pool.vkHandle) : pool.elementSize ≠ 0 := by
  intro none
  have live := range_mem_liveRanges mem
  rw [here, ok.live_eq_nil (ok.empty.mp none)] at live
  exact List.not_mem_nil live

theorem perm (ok : pool.Ok now) (perm : List.Perm now.held held) :
    pool.Ok { now with held := held } :=
  { ok with ranges := ok.ranges.perm (liveRanges_perm perm _) }

theorem taking_elsewhere (ok : pool.Ok now) (elsewhere : allocation.pool ≠ pool.vkHandle) :
    pool.Ok (now.taking allocation) :=
  { ok with ranges := liveRanges_of_ne now.held elsewhere ▸ ok.ranges }

theorem of_taking_elsewhere (ok : pool.Ok (now.taking allocation))
    (elsewhere : allocation.pool ≠ pool.vkHandle) : pool.Ok now :=
  { ok with ranges := liveRanges_of_ne now.held elsewhere ▸ ok.ranges }

theorem turnover_clean (ok : pool.Ok now) (none : pool.elementSize = 0) :
    (now.turnover pool).Clean :=
  ⟨ok.live_eq_nil (ok.empty.mp none), (ok.clean none).2⟩

end Pool.Ok

/-! ## Allocation -/

variable {numElements elementSize : Nat}

/-- What `allocate` does at one pool. -/
structure Served (now : Moment) (pool : Pool)
    (served : Pool × List Turnover × Option Allocation) : Prop where
  handle : served.1.vkHandle = pool.vkHandle
  access : pool.lastAccessTick = now.tick → served.1.lastAccessTick = now.tick
  clean : ∀ turnover ∈ served.2.1, turnover.Clean
  failed : served.2.2 = none → served.1.Ok now
  took : ∀ allocation, served.2.2 = some allocation → allocation.pool = pool.vkHandle ∧
    served.1.lastAccessTick = now.tick ∧ served.1.Ok (now.taking allocation)

theorem Request.no_overflow (request : Request numElements elementSize) {allocated : Nat}
    (room : allocated * elementSize ≤ poolSizeBytes) :
    (allocated + numElements) % 2 ^ 32 = allocated + numElements ∧
      (allocated + numElements) * elementSize % 2 ^ 32 =
        allocated * elementSize + numElements * elementSize := by
  have first := Nat.le_trans (Nat.le_mul_of_pos_right allocated request.proper) room
  have second := Nat.le_trans (Nat.le_mul_of_pos_right numElements request.proper) request.fits
  have fits := request.fits
  unfold poolSizeBytes at *
  constructor
  · exact Nat.mod_eq_of_lt (by omega)
  · rw [Nat.add_mul]
    exact Nat.mod_eq_of_lt (by omega)

/-- A pool with this element size: it is cut if there is room.  `fits` is for the pool that has
just got the size. -/
theorem Pool.Ok.cut (ok : pool.Ok now) (request : Request numElements elementSize)
    (serves : pool.elementSize = 0 ∨ pool.elementSize = elementSize) (turnovers : List Turnover)
    (clean : ∀ turnover ∈ turnovers, turnover.Clean) :
    Served now pool
      ((Pool.cut now.tick numElements elementSize { pool with elementSize := elementSize }).1,
        turnovers,
        (Pool.cut now.tick numElements elementSize
          { pool with elementSize := elementSize }).2) := by
  have room : pool.allocatedElements * elementSize ≤ poolSizeBytes := by
    rcases serves with none | same
    · rw [ok.empty.mp none, Nat.zero_mul]
      exact Nat.zero_le _
    · rw [← same]
      exact ok.room
  obtain ⟨sum, product⟩ := request.no_overflow room
  have proper := Nat.ne_of_gt request.proper
  unfold Pool.cut
  dsimp only
  rw [sum, product]
  split
  · rename_i fits
    exact {
      handle := rfl
      access := fun _ => rfl
      clean := clean
      failed := nofun
      took := fun allocation taken => by
        cases taken
        exact ⟨rfl, rfl, {
          ranges := by
            have live := liveRanges_self now.held
              ⟨pool.vkHandle, pool.allocatedElements, pool.allocatedElements + numElements⟩
            exact live ▸ ok.ranges.take request.some
          room := by
            dsimp only
            rw [Nat.add_mul]
            exact fits
          small := request.small
          empty := iff_of_false proper (Nat.ne_of_gt (Nat.add_pos_right _ request.some))
          clean := fun none => absurd none proper
          used := fun tick mem => Int.le_trans (ok.used tick mem) ok.accessed
          accessed := Int.le_refl _ }⟩ }
  · rename_i full
    -- an empty pool would have had room
    have some : pool.allocatedElements ≠ 0 := by
      intro none
      rw [none, Nat.zero_mul, Nat.zero_add] at full
      exact full request.fits
    exact {
      handle := rfl
      access := id
      clean := clean
      failed := fun _ => { ok with
        room := room
        small := request.small
        empty := iff_of_false proper some
        clean := fun none => absurd none proper }
      took := nofun }

theorem Pool.Ok.serve (ok : pool.Ok now) (request : Request numElements elementSize) :
    Served now pool (pool.serve now numElements elementSize) := by
  have skipped : Served now pool (pool, [], none) :=
    ⟨rfl, id, nofun, fun _ => ok, nofun⟩
  have narrow : elementSize % 2 ^ 16 = elementSize := by
    have small := request.small
    unfold maxElementSize at small
    exact Nat.mod_eq_of_lt (by omega)
  unfold Pool.serve
  split
  · exact skipped
  · split
    · rename_i empty
      rw [narrow]
      refine ok.cut request (.inl empty) _ fun turnover mem => ?_
      rw [List.mem_singleton.mp mem]
      exact ok.turnover_clean empty
    · split
      · exact skipped
      · rename_i same
        have same := not_not.mp same
        have cut := ok.cut request (.inr same) [] nofun
        rw [← same] at cut ⊢
        exact cut

/-- What the loop of `allocate` does. -/
structure Searched (now : Moment) (pools : List Pool)
    (searched : List Pool × List Turnover × Option Allocation) : Prop where
  handles : searched.1.map Pool.vkHandle = pools.map Pool.vkHandle
  access : ∀ vkHandle, Accessed now vkHandle pools → Accessed now vkHandle searched.1
  clean : ∀ turnover ∈ searched.2.1, turnover.Clean
  failed : searched.2.2 = none → ∀ pool ∈ searched.1, pool.Ok now
  took : ∀ allocation, searched.2.2 = some allocation →
    allocation.pool ∈ pools.map Pool.vkHandle ∧ Accessed now allocation.pool searched.1 ∧
      ∀ pool ∈ searched.1, pool.Ok (now.taking allocation)

theorem searchPools_spec (request : Request numElements elementSize)
    (handles : (pools.map Pool.vkHandle).Nodup) (ok : ∀ pool ∈ pools, pool.Ok now) :
    Searched now pools (searchPools now numElements elementSize pools) := by
  induction pools with
  | nil => exact ⟨rfl, fun _ => id, nofun, nofun, nofun⟩
  | cons pool rest ih =>
    obtain ⟨first, others⟩ := List.forall_mem_cons.mp ok
    obtain ⟨distinct, handles⟩ := List.nodup_cons.mp handles
    have served := first.serve request
    have searched := ih handles others
    unfold searchPools
    generalize pool.serve now numElements elementSize = answer at served
    obtain ⟨pool', turnovers, _ | allocation⟩ := answer
    · exact {
        handles := congrArg₂ List.cons served.handle searched.handles
        access := fun vkHandle accessed =>
          have ⟨here, there⟩ := List.forall_mem_cons.mp accessed
          List.forall_mem_cons.mpr ⟨fun same => served.access (here (served.handle ▸ same)),
            searched.access vkHandle there⟩
        clean := List.forall_mem_append.mpr ⟨served.clean, searched.clean⟩
        failed := fun none => List.forall_mem_cons.mpr
          ⟨served.failed rfl, searched.failed none⟩
        took := fun allocation taken => by
          obtain ⟨known, accessed, oks⟩ := searched.took allocation taken
          have elsewhere : allocation.pool ≠ pool.vkHandle := fun same => distinct (same ▸ known)
          have elsewhere' : allocation.pool ≠ pool'.vkHandle := served.handle ▸ elsewhere
          exact ⟨List.mem_cons_of_mem _ known,
            List.forall_mem_cons.mpr ⟨fun same => absurd same.symm elsewhere', accessed⟩,
            List.forall_mem_cons.mpr
              ⟨(served.failed rfl).taking_elsewhere elsewhere', oks⟩⟩ }
    · obtain ⟨here, accessed, taken⟩ := served.took allocation rfl
      have elsewhere : ∀ other ∈ rest, allocation.pool ≠ other.vkHandle :=
        fun other mem same => distinct (here ▸ same ▸ List.mem_map_of_mem mem)
      exact {
        handles := congrArg₂ List.cons served.handle rfl
        access := fun vkHandle before =>
          have ⟨here, there⟩ := List.forall_mem_cons.mp before
          List.forall_mem_cons.mpr
            ⟨fun same => served.access (here (served.handle ▸ same)), there⟩
        clean := served.clean
        failed := nofun
        took := fun other same => by
          cases same
          exact ⟨List.mem_cons.mpr (.inl here),
            List.forall_mem_cons.mpr ⟨fun _ => accessed,
              fun other mem same => absurd same.symm (elsewhere other mem)⟩,
            List.forall_mem_cons.mpr ⟨taken,
              fun other mem => (others other mem).taking_elsewhere (elsewhere other mem)⟩⟩ }

/-- What `allocate` does. -/
structure Allocated (now : Moment) (memory : Memory) (allocated : Memory × Option Allocation) :
    Prop where
  access : ∀ vkHandle, Accessed now vkHandle memory.pools →
    Accessed now vkHandle allocated.1.pools
  failed : allocated.2 = none → allocated.1.Inv now
  took : ∀ allocation, allocated.2 = some allocation →
    allocated.1.Inv (now.taking allocation) ∧ Accessed now allocation.pool allocated.1.pools

variable {memory : Memory}

theorem Pool.ok_new (request : Request numElements elementSize)
    (fresh : liveRanges now.held vkHandle = []) :
    Pool.Ok (now.taking ⟨vkHandle, 0, numElements⟩) {
      vkHandle := vkHandle
      lastAllocationTick := now.tick
      lastAccessTick := now.tick
      allocatedElements := numElements
      elementSize := elementSize } where
  ranges := by
    have live := liveRanges_self now.held ⟨vkHandle, 0, numElements⟩
    have taken := Inv.start.take request.some
    rw [Nat.zero_add, ← fresh] at taken
    exact live ▸ taken
  room := request.fits
  small := request.small
  empty := iff_of_false (Nat.ne_of_gt request.proper) (Nat.ne_of_gt request.some)
  clean := fun none => absurd none (Nat.ne_of_gt request.proper)
  used := nofun
  accessed := Int.le_refl _

namespace Memory.Inv

theorem perm (inv : memory.Inv now) (perm : List.Perm now.held held) :
    memory.Inv { now with held := held } :=
  { inv with
    homes := fun allocation mem => inv.homes allocation (perm.mem_iff.mpr mem)
    pools := fun pool mem => (inv.pools pool mem).perm perm }

theorem called (inv : memory.Inv now) (calls : Nat) :
    Memory.Inv now { memory with calls := calls } := { inv with }

theorem allocate (throws : Nat → Bool) (inv : memory.Inv now)
    (request : Request numElements elementSize) :
    Allocated now memory (memory.allocate throws now numElements elementSize) := by
  have searched := searchPools_spec request inv.handles inv.pools
  have narrow : elementSize % 2 ^ 16 = elementSize := by
    have small := request.small
    unfold maxElementSize at small
    exact Nat.mod_eq_of_lt (by omega)
  have base : ∀ {other : Moment}, (∀ allocation ∈ other.held,
      allocation.pool ∈ memory.pools.map Pool.vkHandle) →
      (∀ pool ∈ (searchPools now numElements elementSize memory.pools).1, pool.Ok other) →
      Memory.Inv other { memory with
        pools := (searchPools now numElements elementSize memory.pools).1
        turnovers := memory.turnovers ++
          (searchPools now numElements elementSize memory.pools).2.1 } :=
    fun homes oks => {
      handles := searched.handles ▸ inv.handles
      below := searched.handles ▸ inv.below
      homes := searched.handles ▸ homes
      pools := oks
      turnovers := List.forall_mem_append.mpr ⟨inv.turnovers, searched.clean⟩
      divisors := inv.divisors }
  unfold Memory.allocate
  generalize searchPools now numElements elementSize memory.pools = answer at searched base
  obtain ⟨pools, turnovers, _ | allocation⟩ := answer
  · have kept := base inv.homes (searched.failed rfl)
    dsimp only at kept ⊢
    split
    · exact {
        access := searched.access
        failed := fun _ => kept.called _
        took := nofun }
    · have elsewhere : ∀ vkHandle ∈ pools.map Pool.vkHandle, memory.nextHandle ≠ vkHandle :=
        fun vkHandle mem same => Nat.lt_irrefl _ (same ▸ kept.below vkHandle mem)
      have fresh : liveRanges now.held memory.nextHandle = [] :=
        liveRanges_eq_nil fun allocation mem same =>
          elsewhere _ (kept.homes allocation mem) same.symm
      rw [narrow]
      refine {
        access := fun vkHandle accessed => List.forall_mem_append.mpr
          ⟨searched.access vkHandle accessed, List.forall_mem_singleton.mpr fun _ => rfl⟩
        failed := nofun
        took := fun allocation taken => ?_ }
      cases taken
      refine ⟨{
        handles := ?_
        below := ?_
        homes := ?_
        pools := ?_
        turnovers := kept.turnovers
        divisors := kept.divisors }, ?_⟩
      · rw [List.map_append]
        exact List.nodup_append.mpr ⟨kept.handles, List.nodup_singleton _,
          fun vkHandle mem other same => List.mem_singleton.mp same ▸ (elsewhere vkHandle mem).symm⟩
      · rw [List.map_append]
        exact List.forall_mem_append.mpr
          ⟨fun vkHandle mem => Nat.lt_succ_of_lt (kept.below vkHandle mem),
            List.forall_mem_singleton.mpr (Nat.lt_succ_self _)⟩
      · rw [List.map_append]
        exact List.forall_mem_cons.mpr
          ⟨List.mem_append_right _ (List.mem_singleton_self _),
            fun allocation mem => List.mem_append_left _ (kept.homes allocation mem)⟩
      · exact List.forall_mem_append.mpr
          ⟨fun pool mem => (kept.pools pool mem).taking_elsewhere
              (elsewhere pool.vkHandle (List.mem_map_of_mem mem)),
            List.forall_mem_singleton.mpr (Pool.ok_new request fresh)⟩
      · exact List.forall_mem_append.mpr
          ⟨fun pool mem same => absurd same.symm
              (elsewhere pool.vkHandle (List.mem_map_of_mem mem)),
            List.forall_mem_singleton.mpr fun _ => rfl⟩
  · obtain ⟨known, accessed, oks⟩ := searched.took allocation rfl
    exact {
      access := searched.access
      failed := nofun
      took := fun other same => by
        cases same
        exact ⟨base (List.forall_mem_cons.mpr ⟨known, inv.homes⟩) oks, accessed⟩ }

theorem change (inv : memory.Inv now) {vkHandle : Nat} {change : Pool → Pool}
    (handle : ∀ pool, (change pool).vkHandle = pool.vkHandle)
    (held : ∀ allocation ∈ now'.held, allocation ∈ now.held)
    (here : ∀ pool ∈ memory.pools, pool.vkHandle = vkHandle → pool.Ok now →
      (change pool).Ok now')
    (there : ∀ pool ∈ memory.pools, pool.vkHandle ≠ vkHandle → pool.Ok now → pool.Ok now') :
    Memory.Inv now' { memory with pools := atPool vkHandle change memory.pools } := by
  have handles : (atPool vkHandle change memory.pools).map Pool.vkHandle =
      memory.pools.map Pool.vkHandle := by
    unfold atPool
    rw [List.map_map]
    refine List.map_congr_left fun pool _ => ?_
    rw [Function.comp_apply, apply_ite Pool.vkHandle, handle, ite_self]
  exact {
    handles := handles ▸ inv.handles
    below := handles ▸ inv.below
    homes := fun allocation mem => handles ▸ inv.homes allocation (held allocation mem)
    pools := by
      unfold atPool
      rw [List.forall_mem_map]
      intro pool mem
      have ok := inv.pools pool mem
      split
      · rename_i same
        exact here pool mem same ok
      · rename_i other
        exact there pool mem other ok
    turnovers := inv.turnovers
    divisors := inv.divisors }

theorem deallocateOne (inv : memory.Inv (now.taking allocation)) :
    Memory.Inv now
      { memory with pools := MeshStreamer.deallocate memory.pools (some allocation) } := by
  refine inv.change (fun _ => rfl) (fun _ mem => List.mem_cons_of_mem _ mem)
    (fun pool _ same ok => ?_)
    (fun pool _ other ok => ok.of_taking_elsewhere (Ne.symm other))
  have ranges := ok.ranges
  rw [same] at ranges
  have back := ((liveRanges_self now.held allocation) ▸ ranges).giveBack
  have bound := ok.allocated_le
  have exact : (pool.freedElements + allocation.sizeElements) % 2 ^ 32 =
      pool.freedElements + allocation.range.size := by
    have counted := back.counted
    unfold poolSizeBytes at bound
    exact Nat.mod_eq_of_lt (show pool.freedElements + allocation.range.size < 2 ^ 32 by omega)
  exact { ok with
    ranges := by
      dsimp only
      rw [exact, same]
      exact back }

theorem deallocate (allocs : Substreams) {memory : Memory}
    (inv : memory.Inv (now.holding allocs)) : (memory.deallocate allocs).Inv now := by
  induction allocs generalizing memory with
  | nil => exact inv
  | cons allocation allocs ih =>
    cases allocation with
    | none => exact ih inv
    | some allocation =>
      have back : Memory.Inv (now.holding allocs) { memory with
          pools := MeshStreamer.deallocate memory.pools (some allocation) } :=
        deallocateOne inv
      exact ih back

theorem access (inv : memory.Inv now) (vkHandle : Nat) :
    (memory.access now.tick vkHandle).Inv now :=
  inv.change (fun _ => rfl) (fun _ => id)
    (fun _ _ _ ok => { ok with
      used := fun tick mem => Int.le_trans (ok.used tick mem) ok.accessed
      accessed := Int.le_refl _ })
    (fun _ _ _ => id)

theorem use (inv : memory.Inv now) (mem : allocation ∈ now.held)
    (accessed : Accessed now allocation.pool memory.pools) :
    (memory.use now.tick allocation.pool).Inv now :=
  inv.change (fun _ => rfl) (fun _ => id)
    (fun pool known same ok => { ok with
      clean := fun none => absurd none (ok.elementSize_ne_zero mem same.symm)
      used := List.forall_mem_cons.mpr
        ⟨Int.le_of_eq (accessed pool known same).symm, ok.used⟩ })
    (fun _ _ _ => id)

end Memory.Inv

theorem Memory.access_accessed (memory : Memory) (now : Moment) (vkHandle : Nat) :
    Accessed now vkHandle (memory.access now.tick vkHandle).pools := by
  unfold Memory.access atPool Accessed
  dsimp only
  rw [List.forall_mem_map]
  intro pool _ same
  split
  · rfl
  · rename_i other
    rw [if_neg other] at same
    exact absurd same other

theorem Memory.accessed_use (tick : FrameTickId) (other : Nat)
    (accessed : Accessed now vkHandle memory.pools) :
    Accessed now vkHandle (memory.use tick other).pools := by
  unfold Memory.use atPool Accessed
  dsimp only
  rw [List.forall_mem_map]
  intro pool mem same
  split
  · rename_i used
    rw [if_pos used] at same
    exact accessed pool mem same
  · rename_i unused
    rw [if_neg unused] at same
    exact accessed pool mem same

/-! ## The sweep over the pools -/

variable {completedTick : FrameTickId}

namespace Pool.Ok

theorem unused_clean (ok : pool.Ok now) (complete : completedTick ≤ now.completed)
    (unused : pool.unused completedTick = true) : (now.turnover pool).Clean := by
  unfold Pool.unused at unused
  simp only [Bool.and_eq_true, decide_eq_true_eq] at unused
  obtain ⟨⟨-, freed⟩, accessed⟩ := unused
  have ranges := ok.ranges
  rw [← freed] at ranges
  exact ⟨ranges.none_held, fun tick mem =>
    Int.le_trans (ok.used tick mem) (Int.le_trans accessed complete)⟩

theorem reset (ok : pool.Ok now) (complete : completedTick ≤ now.completed) :
    (pool.reset completedTick).Ok now := by
  unfold Pool.reset
  split
  · rename_i unused
    obtain ⟨none, completed⟩ := ok.unused_clean complete unused
    exact { ok with
      ranges := by
        change BumpRegion.Inv 0 0 (liveRanges now.held pool.vkHandle)
        have none : liveRanges now.held pool.vkHandle = [] := none
        rw [none]
        exact .start
      room := by
        dsimp only
        exact Nat.zero_le _
      small := Nat.zero_le _
      empty := iff_of_true rfl rfl
      clean := fun _ => ⟨rfl, completed⟩ }
  · exact ok

theorem flag (ok : pool.Ok now) : pool.flag.Ok now := by
  unfold Pool.flag
  dsimp only
  split
  · split
    · exact { ok with }
    · exact ok
  · exact ok

end Pool.Ok

theorem Pool.reset_vkHandle (completedTick : FrameTickId) (pool : Pool) :
    (pool.reset completedTick).vkHandle = pool.vkHandle := by
  unfold Pool.reset
  split <;> rfl

theorem Pool.flag_vkHandle (pool : Pool) : pool.flag.vkHandle = pool.vkHandle := by
  unfold Pool.flag
  dsimp only
  split
  · split <;> rfl
  · rfl

/-- What the sweep leaves: no pool in which something is held goes away. -/
structure Swept (now : Moment) (pools : List Pool)
    (swept : List Pool × List Turnover × List Nat) : Prop where
  handles : List.Sublist (swept.1.map Pool.vkHandle) (pools.map Pool.vkHandle)
  homes : ∀ allocation ∈ now.held, allocation.pool ∈ pools.map Pool.vkHandle →
    allocation.pool ∈ swept.1.map Pool.vkHandle
  pools : ∀ pool ∈ swept.1, pool.Ok now
  clean : ∀ turnover ∈ swept.2.1, turnover.Clean
  divisors : ∀ divisor ∈ swept.2.2, divisor ≠ 0

theorem sweepPools_spec (complete : completedTick ≤ now.completed)
    (ok : ∀ pool ∈ pools, pool.Ok now) : Swept now pools (sweepPools now completedTick pools) := by
  induction pools with
  | nil => exact ⟨List.Sublist.refl _, fun _ _ => id, nofun, nofun, nofun⟩
  | cons pool rest ih =>
    obtain ⟨first, others⟩ := List.forall_mem_cons.mp ok
    have swept := ih others
    have reset := first.reset complete
    have flagged := reset.flag
    have handle := (pool.reset completedTick).flag_vkHandle.trans
      (pool.reset_vkHandle completedTick)
    have emptied : ∀ turnover ∈ if pool.unused completedTick then [now.turnover pool] else [],
        turnover.Clean := by
      split
      · rename_i unused
        exact List.forall_mem_singleton.mpr (first.unused_clean complete unused)
      · nofun
    have divided : ∀ divisor ∈ if (pool.reset completedTick).isExhausted then
        [(pool.reset completedTick).elementSize] else [], divisor ≠ 0 := by
      split
      · rename_i exhausted
        refine List.forall_mem_singleton.mpr fun none => ?_
        rw [(reset.clean none).1] at exhausted
        cases exhausted
      · nofun
    unfold sweepPools
    dsimp only
    by_cases stale : (pool.reset completedTick).flag.stale completedTick = true
    · have none : (pool.reset completedTick).flag.allocatedElements = 0 := by
        unfold Pool.stale at stale
        exact of_decide_eq_true (Bool.and_eq_true_iff.mp stale).1
      rw [if_pos stale, if_pos stale]
      exact {
        handles := swept.handles.cons _
        homes := fun allocation mem known => by
          rcases List.mem_cons.mp known with here | there
          · exact absurd (flagged.empty.mpr none)
              (flagged.elementSize_ne_zero mem (here.trans handle.symm))
          · exact swept.homes allocation mem there
        pools := swept.pools
        clean := List.forall_mem_append.mpr ⟨List.forall_mem_append.mpr
          ⟨emptied, List.forall_mem_singleton.mpr
            (flagged.turnover_clean (flagged.empty.mpr none))⟩, swept.clean⟩
        divisors := List.forall_mem_append.mpr ⟨divided, swept.divisors⟩ }
    · rw [if_neg stale, if_neg stale]
      exact {
        handles := by
          rw [List.map_cons, List.map_cons, handle]
          exact swept.handles.cons_cons _
        homes := fun allocation mem known => by
          rw [List.map_cons, handle]
          rcases List.mem_cons.mp known with here | there
          · exact List.mem_cons.mpr (.inl here)
          · exact List.mem_cons_of_mem _ (swept.homes allocation mem there)
        pools := List.forall_mem_cons.mpr ⟨flagged, swept.pools⟩
        clean := List.forall_mem_append.mpr ⟨List.forall_mem_append.mpr ⟨emptied, nofun⟩,
          swept.clean⟩
        divisors := List.forall_mem_append.mpr ⟨divided, swept.divisors⟩ }

end MeshStreamer

end Voxen.Gfx
