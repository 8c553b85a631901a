import Voxen.Gfx.MeshStreamerTransfers

/-!
# Runs of the mesh streamer

Allocations are held by keys and by transfers, and each operation moves them between the two
or gives them back.  Over a whole run the pools agree with what is held.
-/

namespace Voxen.Gfx

namespace MeshStreamer

open BumpRegion Runs

variable {throws : Nat → Bool} {map : List (UID × KeyInfo)} {key : UID} {info : KeyInfo}
  {state : State} {completedTick : FrameTickId}

/-! ## The map of the keys -/

theorem perm_of_lookup (found : lookup map key = some info) :
    List.Perm map ((key, info) :: erase map key) := by
  induction map with
  | nil => cases found
  | cons entry map ih =>
    unfold lookup at found ih
    unfold erase
    by_cases same : entry.1 = key
    · rw [List.find?_cons, decide_eq_true same] at found
      rw [List.eraseP_cons, decide_eq_true same]
      cases found
      subst same
      exact .refl _
    · rw [List.find?_cons, decide_eq_false same] at found
      rw [List.eraseP_cons, decide_eq_false same]
      exact ((ih found).cons entry).trans (.swap _ _ _)

theorem erase_of_lookup (missing : lookup map key = none) : erase map key = map := by
  unfold lookup at missing
  exact List.eraseP_of_forall_not (List.find?_eq_none.mp (Option.map_eq_none_iff.mp missing))

theorem lookup_assign (map : List (UID × KeyInfo)) (key : UID) (info : KeyInfo) :
    lookup (assign map key info) key = some info := by
  unfold lookup assign
  rw [List.find?_cons, decide_eq_true rfl]
  rfl

theorem readyAllocations_of_lookup (found : lookup map key = some info) :
    List.Perm (readyAllocations map)
      (info.readySubstreamAllocations.reduceOption ++ readyAllocations (erase map key)) :=
  (perm_of_lookup found).flatMap_right _

theorem ready_mem (found : lookup map key = some info) :
    ∀ allocation ∈ info.readySubstreamAllocations.reduceOption,
      allocation ∈ readyAllocations map :=
  fun _ mem => (readyAllocations_of_lookup found).mem_iff.mpr (List.mem_append_left _ mem)

theorem readyAllocations_assign (same : info.readySubstreamAllocations =
      ((lookup map key).getD {}).readySubstreamAllocations) :
    List.Perm (readyAllocations map) (readyAllocations (assign map key info)) := by
  change List.Perm _ (info.readySubstreamAllocations.reduceOption ++
    readyAllocations (erase map key))
  rw [same]
  cases found : lookup map key with
  | none =>
    rw [erase_of_lookup found]
    change List.Perm _ ((List.replicate maxMeshSubstreams none).reduceOption ++ _)
    rw [List.reduceOption_replicate_none]
    exact .refl _
  | some before => exact readyAllocations_of_lookup found

namespace State

/-! ## Operations -/

/-- The pools agree with the allocations of the keys and the transfers. -/
def Inv (state : State) : Prop := state.memory.Inv state.now

theorem Inv.assign (inv : state.Inv) (key : UID) {info : KeyInfo}
    (same : info.readySubstreamAllocations =
      ((lookup state.keyInfoMap key).getD {}).readySubstreamAllocations) :
    Inv { state with keyInfoMap := MeshStreamer.assign state.keyInfoMap key info } :=
  Memory.Inv.perm inv ((readyAllocations_assign same).append_right _)

theorem Inv.giveBack (inv : state.Inv) (allocs : Substreams) {keyInfoMap : List (UID × KeyInfo)}
    {transfers : List Transfer} (perm : List.Perm state.held (allocs.reduceOption ++
      (readyAllocations keyInfoMap ++ pendingAllocations transfers))) :
    Inv { state with
      memory := state.memory.deallocate allocs
      keyInfoMap := keyInfoMap
      transfers := transfers } := by
  have listed := Memory.Inv.perm inv perm
  exact Memory.Inv.deallocate allocs listed

theorem Inv.startTransfer (key : UID) (version : Int) {built : Memory × Option Substreams}
    (ends : Built state.now built) : (state.startTransfer key version built).1.Inv := by
  obtain ⟨memory, _ | done⟩ := built
  · exact ends.failed rfl
  · refine (ends.succeeded done rfl).perm ?_
    change List.Perm (done.reduceOption ++ (readyAllocations state.keyInfoMap ++
      pendingAllocations state.transfers)) (readyAllocations state.keyInfoMap ++
      pendingAllocations (state.transfers ++ [_]))
    unfold pendingAllocations
    rw [List.flatMap_append, List.flatMap_singleton, ← List.append_assoc (readyAllocations _)]
    exact List.perm_append_comm

@[simp]
theorem startTransfer_keyInfoMap (state : State) (key : UID) (version : Int)
    (built : Memory × Option Substreams) :
    (state.startTransfer key version built).1.keyInfoMap = state.keyInfoMap := by
  unfold State.startTransfer
  dsimp only
  split <;> rfl

theorem Inv.transferUpload (throws : Nat → Bool) (inv : state.Inv) (key : UID) {meshAdd : MeshAdd}
    (fits : ∀ substream ∈ meshAdd.substreams.toList, substream.numElements ≠ 0 →
      substream.Fits) : (state.transferUpload throws key meshAdd).1.Inv :=
  have nothing : state.memory.Inv (state.now.holding []) := inv
  Inv.startTransfer key _ (nothing.uploadSubstreams throws meshAdd.substreams.toList fits)

theorem Inv.transferDefragment (throws : Nat → Bool) (inv : state.Inv)
    (found : lookup state.keyInfoMap key = some info) :
    (state.transferDefragment throws key info).1.Inv :=
  have nothing : state.memory.Inv (state.now.holding []) := inv
  Inv.startTransfer key _ (nothing.copySubstreams throws info.readySubstreamAllocations
    fun _ mem => List.mem_append_left _ (ready_mem found _ mem))

theorem Inv.addMesh (inv : state.Inv) (key : UID) {meshAdd : MeshAdd}
    (fits : ∀ substream ∈ meshAdd.substreams.toList, substream.numElements ≠ 0 →
      substream.Fits) : (state.addMesh throws key meshAdd).Inv := by
  unfold State.addMesh
  dsimp only
  generalize entry : { (lookup state.keyInfoMap key).getD {} with
    lastAccessTick := state.currentTickId } = info
  have same : info.readySubstreamAllocations =
      ((lookup state.keyInfoMap key).getD {}).readySubstreamAllocations := by rw [← entry]
  have assigned := inv.assign key same
  generalize order : (if ((lookup state.keyInfoMap key).getD {}).lastAccessTick < 0 then
    state.lruVisitOrder.addKey key (state.currentTickId + staleKeyAgeThreshold)
    else state.lruVisitOrder) = lruVisitOrder
  have registered : Inv { state with
      lruVisitOrder := lruVisitOrder
      keyInfoMap := MeshStreamer.assign state.keyInfoMap key info } := assigned
  have uploaded := registered.transferUpload throws key fits
  split
  · rename_i answer
    rw [answer] at uploaded
    exact uploaded
  · rename_i answer
    have kept : (State.transferUpload throws _ key meshAdd).1.keyInfoMap = _ :=
      startTransfer_keyInfoMap { state with
        lruVisitOrder := lruVisitOrder
        keyInfoMap := MeshStreamer.assign state.keyInfoMap key info } key meshAdd.version _
    rw [answer] at uploaded kept
    refine uploaded.assign key ?_
    rw [kept, lookup_assign]
    exact same.symm

theorem accessAll {now : Moment} (allocations : List Allocation) {memory : Memory}
    (inv : memory.Inv now) (held : ∀ allocation ∈ allocations, allocation ∈ now.held) :
    Memory.Inv now (allocations.foldl (fun memory allocation =>
      (memory.access now.tick allocation.pool).use now.tick allocation.pool) memory) := by
  induction allocations generalizing memory with
  | nil => exact inv
  | cons allocation rest ih =>
    obtain ⟨first, others⟩ := List.forall_mem_cons.mp held
    exact ih ((inv.access allocation.pool).use first (memory.access_accessed now _)) others

theorem Inv.queryMesh (inv : state.Inv) (key : UID) : (state.queryMesh key).1.Inv := by
  unfold State.queryMesh
  cases found : lookup state.keyInfoMap key with
  | none => exact inv
  | some info =>
    have assigned : Inv { state with
        keyInfoMap := MeshStreamer.assign state.keyInfoMap key
          { info with lastAccessTick := state.currentTickId } } :=
      inv.assign key (by rw [found]; rfl)
    dsimp only
    split
    · exact accessAll _ assigned fun _ mem => List.mem_append_left _
        (ready_mem (lookup_assign state.keyInfoMap key
          { info with lastAccessTick := state.currentTickId }) _ mem)
    · exact assigned

/-! ## Frame ticks -/

theorem Inv.tick (inv : state.Inv) {newTick : FrameTickId}
    (later : state.currentTickId ≤ newTick) (completedTick : FrameTickId) : Inv { state with
      currentTickId := newTick
      completed := max state.completed completedTick } :=
  { inv with
    pools := fun pool mem =>
      have ok := inv.pools pool mem
      { ok with
        clean := fun none => ⟨(ok.clean none).1, fun tick used =>
          Int.le_trans ((ok.clean none).2 tick used) (Int.le_max_left _ _)⟩
        accessed := Int.le_trans ok.accessed later } }

theorem Inv.completeTransfer (inv : state.Inv) {transfer : Transfer} {rest : List Transfer}
    (front : state.transfers = transfer :: rest) : (state.completeTransfer transfer).Inv := by
  have held : state.held = readyAllocations state.keyInfoMap ++
      (transfer.substreamAllocations.reduceOption ++ pendingAllocations rest) := by
    unfold State.held
    rw [front]
    rfl
  unfold State.completeTransfer
  rw [front, List.tail_cons]
  cases found : lookup state.keyInfoMap transfer.key with
  | none =>
    refine inv.giveBack transfer.substreamAllocations ?_
    rw [held, ← List.append_assoc, ← List.append_assoc]
    exact List.perm_append_comm.append_right _
  | some info =>
    refine inv.giveBack info.readySubstreamAllocations ?_
    rw [held]
    refine ((readyAllocations_of_lookup found).append_right _).trans ?_
    rw [List.append_assoc, ← List.append_assoc (readyAllocations _)]
    exact (List.perm_append_comm.append_right _).append_left _

theorem Inv.completeTransfers (completedTick : FrameTickId) (transfers : List Transfer)
    (inv : state.Inv)
    (all : state.transfers = transfers) :
    (State.completeTransfers completedTick transfers state).Inv := by
  induction transfers generalizing state with
  | nil => exact inv
  | cons transfer rest ih =>
    unfold State.completeTransfers
    split
    · exact inv
    · refine ih (inv.completeTransfer all) ?_
      have tail : (state.completeTransfer transfer).transfers = state.transfers.tail := by
        unfold State.completeTransfer
        split <;> rfl
      rw [tail, all]
      rfl

theorem Inv.visitKey (inv : state.Inv) (key : UID) :
    (state.visitKey throws completedTick key).1.Inv := by
  unfold State.visitKey
  cases found : lookup state.keyInfoMap key with
  | none => exact inv
  | some info =>
    dsimp only
    split
    · -- a stale key gives its allocations back
      refine inv.giveBack info.readySubstreamAllocations ?_
      rw [← List.append_assoc]
      exact (readyAllocations_of_lookup found).append_right _
    · split
      · have moved := inv.transferDefragment throws found
        have kept : (state.transferDefragment throws key info).1.keyInfoMap = _ :=
          startTransfer_keyInfoMap state key info.readyVersion _
        split
        · rename_i answer
          rw [answer] at moved
          exact moved
        · rename_i answer
          rw [answer] at moved kept
          refine moved.assign key ?_
          rw [kept, found]
          rfl
      · exact inv

theorem completeTransfers_completed (transfers : List Transfer) (state : State) :
    (State.completeTransfers completedTick transfers state).completed = state.completed := by
  induction transfers generalizing state with
  | nil => rfl
  | cons transfer rest ih =>
    unfold State.completeTransfers
    split
    · rfl
    · rw [ih]
      unfold State.completeTransfer
      split <;> rfl

theorem startTransfer_completed (state : State) (key : UID) (version : Int)
    (built : Memory × Option Substreams) :
    (state.startTransfer key version built).1.completed = state.completed := by
  unfold State.startTransfer
  dsimp only
  split <;> rfl

theorem visitKey_completed (throws : Nat → Bool) (state : State) (key : UID) :
    (state.visitKey throws completedTick key).1.completed = state.completed := by
  unfold State.visitKey
  split
  · rfl
  · rename_i info _
    have kept : (state.transferDefragment throws key info).1.completed = state.completed :=
      startTransfer_completed state key info.readyVersion _
    split
    · rfl
    · split
      · split
        · rename_i answer
          rw [answer] at kept
          exact kept
        · rename_i answer
          rw [answer] at kept
          exact kept
      · rfl

theorem Inv.sweep (inv : state.Inv) (complete : completedTick ≤ state.completed) :
    (state.sweep completedTick).Inv := by
  have swept := sweepPools_spec complete inv.pools
  exact {
    handles := swept.handles.nodup inv.handles
    below := fun vkHandle mem => inv.below vkHandle (swept.handles.subset mem)
    homes := fun allocation mem => swept.homes allocation mem (inv.homes allocation mem)
    pools := swept.pools
    turnovers := List.forall_mem_append.mpr ⟨inv.turnovers, swept.clean⟩
    divisors := List.forall_mem_append.mpr ⟨inv.divisors, swept.divisors⟩ }

theorem Inv.onFrameTickBegin (inv : state.Inv) {newTick : FrameTickId}
    (later : state.currentTickId ≤ newTick) (completedTick : FrameTickId) :
    (state.onFrameTickBegin throws completedTick newTick).Inv := by
  have ticked := (inv.tick later completedTick).completeTransfers completedTick state.transfers rfl
  have complete : completedTick ≤ (State.completeTransfers completedTick state.transfers
      { state with
        currentTickId := newTick
        completed := max state.completed completedTick }).completed := by
    rw [completeTransfers_completed]
    exact Int.le_max_right _ _
  unfold State.onFrameTickBegin
  dsimp only
  generalize State.completeTransfers completedTick state.transfers { state with
    currentTickId := newTick
    completed := max state.completed completedTick } = before at ticked complete
  have step : ∀ state key, (State.Inv state ∧ completedTick ≤ state.completed) →
      (State.visitKey throws completedTick state key).1.Inv ∧
        completedTick ≤ (State.visitKey throws completedTick state key).1.completed :=
    fun state key ⟨inv, complete⟩ =>
      ⟨inv.visitKey key, (visitKey_completed throws state key).symm ▸ complete⟩
  have visited := LruVisitOrdering.visitOldest_invariant step completedTick
    keyCleanupStepsPerTick before.lruVisitOrder ⟨ticked, complete⟩
  generalize before.lruVisitOrder.visitOldest (State.visitKey throws completedTick) completedTick
    keyCleanupStepsPerTick before = answer at visited
  obtain ⟨order, after, ended⟩ := answer
  have reordered : Inv { after with lruVisitOrder := order } := visited.1
  dsimp only
  split
  · exact reordered.sweep visited.2
  · exact reordered

/-! ## Runs -/

/-- The ranges held by keys and transfers agree with the counters of the pools, and so did they
whenever a pool was given up or its element size was divided by. -/
structure PoolsSound (state : State) : Prop where
  homes : ∀ allocation ∈ state.held, ∃ pool ∈ state.memory.pools,
    pool.vkHandle = allocation.pool
  apart : ∀ pool ∈ state.memory.pools,
    (liveRanges state.held pool.vkHandle).Pairwise Range.Apart
  inside : ∀ pool ∈ state.memory.pools, ∀ range ∈ liveRanges state.held pool.vkHandle,
    range.first < range.last ∧ range.last * pool.elementSize ≤ poolSizeBytes
  counted : ∀ pool ∈ state.memory.pools, pool.freedElements ≤ pool.allocatedElements ∧
    pool.allocatedElements - pool.freedElements =
      ((liveRanges state.held pool.vkHandle).map Range.size).sum
  turnovers : ∀ turnover ∈ state.memory.turnovers,
    turnover.live = [] ∧ ∀ tick ∈ turnover.usedIn, tick ≤ turnover.completed
  divisors : ∀ divisor ∈ state.memory.divisors, divisor ≠ 0

theorem Inv.start : Inv {} where
  handles := List.nodup_nil
  below := nofun
  homes := nofun
  pools := nofun
  turnovers := nofun
  divisors := nofun

theorem Inv.step {state' : State} {action : Action} (inv : state.Inv)
    (admissible : Admissible state action) (stepped : step throws state action = some state') :
    state'.Inv := by
  cases action with
  | addMesh key meshAdd =>
    cases stepped
    exact inv.addMesh key admissible.2
  | queryMesh key =>
    cases stepped
    exact inv.queryMesh key
  | onFrameTickBegin completedTick newTick =>
    cases stepped
    exact inv.onFrameTickBegin (Int.le_of_lt admissible.1) completedTick

theorem Inv.poolsSound (inv : state.Inv) : state.PoolsSound where
  homes := fun allocation mem => List.mem_map.mp (inv.homes allocation mem)
  apart := fun pool mem => (inv.pools pool mem).ranges.apart
  inside := fun pool mem range live =>
    have ok := inv.pools pool mem
    ⟨ok.ranges.proper range live,
      Nat.le_trans (Nat.mul_le_mul_right _ (ok.ranges.inside range live)) ok.room⟩
  counted := fun pool mem => by
    have counted : pool.freedElements +
        ((liveRanges state.held pool.vkHandle).map Range.size).sum = pool.allocatedElements :=
      (inv.pools pool mem).ranges.counted
    exact ⟨counted ▸ Nat.le_add_right _ _, Nat.sub_eq_of_eq_add' counted.symm⟩
  turnovers := inv.turnovers
  divisors := inv.divisors

end State

/-- Whatever calls throw, the pools are sound in every state that is reached. -/
theorem run_poolsSound {actions : List Action}
    (steps : StepsMeet (step throws) Admissible {} actions)
    (reached : run (step throws) {} actions = some state) : state.PoolsSound :=
  (run_invariant (fun _ _ _ inv admissible stepped => State.Inv.step inv admissible stepped)
    State.Inv.start steps reached).poolsSound

/-- A mesh is replaced, and the pools are reset once it is gone. -/
def replacedMesh : List Action :=
  [.onFrameTickBegin (-1) 0,
    .addMesh 7 ⟨0, #v[⟨100, 16⟩, {}, ⟨3, 8⟩, {}]⟩,
    .onFrameTickBegin 0 1,
    .queryMesh 7,
    .addMesh 7 ⟨1, #v[⟨200, 32⟩, {}, ⟨3, 8⟩, {}]⟩,
    .onFrameTickBegin 1 2,
    .addMesh 8 ⟨0, #v[⟨5, 16⟩, {}, {}, {}]⟩,
    .onFrameTickBegin 300 301]

theorem replacedMesh_sound : ∃ state,
    run (step fun _ => false) {} replacedMesh = some state ∧ state.PoolsSound := by
  have steps : StepsMeet (step fun _ => false) Admissible {} replacedMesh := by decide
  exact ⟨_, rfl, run_poolsSound steps rfl⟩

end MeshStreamer

end Voxen.Gfx
