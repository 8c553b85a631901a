import Mathlib.Data.List.ReduceOption
import Voxen.Gfx.MeshStreamerPools

/-!
# Transfers of the mesh streamer

A transfer holds what it has got so far.  It either ends up with an allocation for each of
its substreams, or gives all of them back.
-/

namespace Voxen.Gfx

namespace MeshStreamer

open BumpRegion

variable {now : Moment} {memory : Memory} {done : Substreams}
  {numElements elementSize : Nat}

/-- What a transfer leaves: its allocations are held besides the others, or none of them is. -/
structure Built (now : Moment) (built : Memory × Option Substreams) : Prop where
  failed : built.2 = none → built.1.Inv now
  succeeded : ∀ done, built.2 = some done → built.1.Inv (now.holding done)

theorem holding_taking (now : Moment) (done : Substreams) (allocation : Allocation) :
    List.Perm ((now.holding done).taking allocation).held
      (now.holding (done ++ [some allocation])).held := by
  change List.Perm (allocation :: (done.reduceOption ++ now.held))
    ((done ++ [some allocation]).reduceOption ++ now.held)
  rw [List.reduceOption_append, List.reduceOption_cons_of_some, List.reduceOption_nil,
    List.append_assoc]
  exact List.perm_middle.symm

theorem holding_none (now : Moment) (done : Substreams) :
    now.holding (done ++ [none]) = now.holding done := by
  unfold Moment.holding
  rw [List.reduceOption_append, List.reduceOption_cons_of_none, List.reduceOption_nil,
    List.append_nil]

namespace Memory.Inv

theorem uses (handles : List Nat) (inv : memory.Inv now)
    (ready : ∀ vkHandle ∈ handles, Accessed now vkHandle memory.pools ∧
      ∃ allocation ∈ now.held, allocation.pool = vkHandle) :
    Memory.Inv now
      (handles.foldl (fun memory vkHandle => memory.use now.tick vkHandle) memory) := by
  induction handles generalizing memory with
  | nil => exact inv
  | cons vkHandle handles ih =>
    obtain ⟨⟨accessed, allocation, mem, here⟩, others⟩ := List.forall_mem_cons.mp ready
    subst here
    exact ih (inv.use mem accessed) fun other known =>
      ⟨Memory.accessed_use now.tick _ (others other known).1, (others other known).2⟩

theorem transferSubstream (throws : Nat → Bool) (inv : memory.Inv (now.holding done))
    (request : Request numElements elementSize) (source : Option Nat)
    (ready : ∀ vkHandle ∈ source, Accessed now vkHandle memory.pools ∧
      ∃ allocation ∈ now.held, allocation.pool = vkHandle) :
    Built now (memory.transferSubstream throws now done source numElements elementSize) := by
  have allocated := inv.allocate throws request
  unfold Memory.transferSubstream
  generalize memory.allocate throws (now.holding done) numElements elementSize = answer
    at allocated
  obtain ⟨memory', _ | allocation⟩ := answer
  · exact {
      failed := fun _ => (allocated.failed rfl).deallocate
      succeeded := nofun }
  · obtain ⟨taken, accessed⟩ := allocated.took allocation rfl
    have used := taken.uses (source.toList ++ [allocation.pool])
      (List.forall_mem_append.mpr ⟨fun vkHandle mem => by
        obtain ⟨before, other, known, here⟩ := ready vkHandle (Option.mem_toList.mp mem)
        exact ⟨allocated.access vkHandle before, other,
          List.mem_cons_of_mem _ (List.mem_append_right _ known), here⟩,
      List.forall_mem_singleton.mpr ⟨accessed, allocation, List.mem_cons_self, rfl⟩⟩)
    have held : Memory.Inv (now.holding (done ++ [some allocation])) _ :=
      used.perm (holding_taking now done allocation)
    dsimp only
    split
    · exact {
        failed := fun _ => (held.called _).deallocate
        succeeded := nofun }
    · exact {
        failed := nofun
        succeeded := fun other same => by
          cases same
          exact held.called _ }

theorem uploadSubstreams (throws : Nat → Bool) (substreams : List MeshSubstreamAdd)
    (fits : ∀ substream ∈ substreams, substream.numElements ≠ 0 → substream.Fits)
    (inv : memory.Inv (now.holding done)) :
    Built now (memory.uploadSubstreams throws now substreams done) := by
  induction substreams generalizing done memory with
  | nil =>
    exact {
      failed := nofun
      succeeded := fun other same => by
        cases same
        exact inv }
  | cons substream rest ih =>
    obtain ⟨first, others⟩ := List.forall_mem_cons.mp fits
    unfold Memory.uploadSubstreams
    split
    · exact ih others ((holding_none now done).symm ▸ inv)
    · rename_i some
      obtain ⟨proper, small, fits⟩ := first some
      have built := inv.transferSubstream throws
        ⟨Nat.pos_of_ne_zero some, proper, small, fits⟩ none nofun
      generalize memory.transferSubstream throws now done none substream.numElements
        substream.elementSize = answer at built
      obtain ⟨memory', _ | done'⟩ := answer
      · exact ⟨fun _ => built.failed rfl, nofun⟩
      · exact ih others (built.succeeded done' rfl)

theorem request (inv : memory.Inv now) {source : Allocation} (mem : source ∈ now.held) :
    Request source.sizeElements (elementSizeOf memory.pools source.pool) := by
  obtain ⟨home, known, here⟩ := List.mem_map.mp (inv.homes source mem)
  obtain ⟨pool, found⟩ : ∃ pool, memory.pools.find?
      (fun pool => pool.vkHandle = source.pool) = some pool :=
    Option.isSome_iff_exists.mp (List.find?_isSome.mpr ⟨home, known, decide_eq_true here⟩)
  have same := List.find?_some found
  have same : pool.vkHandle = source.pool := of_decide_eq_true same
  have ok := inv.pools pool (List.mem_of_find?_eq_some found)
  have size : elementSizeOf memory.pools source.pool = pool.elementSize := by
    unfold elementSizeOf
    rw [found]
    rfl
  have live := range_mem_liveRanges mem
  rw [← same] at live
  have proper : source.rangeBegin < source.rangeEnd := ok.ranges.proper _ live
  have inside : source.rangeEnd ≤ pool.allocatedElements := ok.ranges.inside _ live
  rw [size]
  exact {
    some := Nat.sub_pos_of_lt proper
    proper := Nat.one_le_iff_ne_zero.mpr (ok.elementSize_ne_zero mem same.symm)
    small := ok.small
    fits := Nat.le_trans
      (Nat.mul_le_mul_right _ (Nat.le_trans (Nat.sub_le _ _) inside)) ok.room }

theorem copySubstreams (throws : Nat → Bool) (sources : Substreams)
    (held : ∀ source ∈ sources.reduceOption, source ∈ now.held)
    (inv : memory.Inv (now.holding done)) :
    Built now (memory.copySubstreams throws now sources done) := by
  induction sources generalizing done memory with
  | nil =>
    exact {
      failed := nofun
      succeeded := fun other same => by
        cases same
        exact inv }
  | cons source rest ih =>
    cases source with
    | none => exact ih held ((holding_none now done).symm ▸ inv)
    | some source =>
      rw [List.reduceOption_cons_of_some] at held
      obtain ⟨known, others⟩ := List.forall_mem_cons.mp held
      have accessed : (memory.access now.tick source.pool).Inv (now.holding done) :=
        inv.access source.pool
      have request := accessed.request (List.mem_append_right _ known)
      have built := accessed.transferSubstream throws request (some source.pool)
        fun vkHandle same => by
          cases same
          exact ⟨memory.access_accessed now source.pool, source, known, rfl⟩
      unfold Memory.copySubstreams
      dsimp only
      generalize (memory.access now.tick source.pool).transferSubstream throws now
        done (some source.pool) source.sizeElements
        (elementSizeOf (memory.access now.tick source.pool).pools source.pool) = answer
        at built
      obtain ⟨memory', _ | done'⟩ := answer
      · exact ⟨fun _ => built.failed rfl, nofun⟩
      · exact ih others (built.succeeded done' rfl)

end Memory.Inv

end MeshStreamer

end Voxen.Gfx
