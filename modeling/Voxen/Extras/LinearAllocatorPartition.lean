import Voxen.Extras.LinearAllocatorRuns

/-!
# What the linear allocator promises

Requests that are not larger than the allocator never wrap: the free and the allocated ranges
partition it.  A larger request may be rounded to nothing and be answered with an empty range.
-/

namespace Voxen.LinearAllocator

open BumpRegion SeparatedRanges

variable {cfg : Config} {system : System}

/-! ## The partition -/

/-- The free ranges are sorted and merged, no range overlaps another, all of them cover the
whole size, and the allocator is free exactly if nothing is allocated. -/
structure Partition (cfg : Config) (system : System) : Prop where
  nonempty : ∀ range ∈ system.allocator.freeRanges ++ system.ranges, range.first < range.last
  merged : system.allocator.freeRanges.Pairwise fun lower higher => lower.last < higher.first
  apart : (system.allocator.freeRanges ++ system.ranges).Pairwise Range.Apart
  whole : ∀ point, (∃ range ∈ system.allocator.freeRanges ++ system.ranges,
    range.first ≤ point ∧ point < range.last) ↔ point < cfg.fullSize
  aligned : ∀ entry ∈ system.allocated, entry.2 ∣ entry.1.first
  isFree : cfg.isFree system.allocator = true ↔ system.allocated = []

theorem Inv.partition (inv : Inv cfg system) : Partition cfg system where
  nonempty := inv.proper_all
  merged := inv.separated.gaps
  apart := inv.apart_all
  whole point := by
    rw [← covers_pos_iff, covers_append, inv.covered]
    split_ifs with inside
    · exact iff_of_true Nat.one_pos inside
    · exact iff_of_false (Nat.lt_irrefl 0) inside
  aligned := inv.aligned
  isFree := inv.isFree_iff

theorem Inv.argsFit (inv : Inv cfg system) {action : Action} {system' : System}
    (atMost : action.AtMost cfg.fullSize) (stepped : step cfg system action = some system') :
    ArgsFit cfg system action := by
  obtain ⟨full_lt, half⟩ := cfg.fullSize_lt
  cases action with
  | allocate size alignBits =>
    exact Or.inl (cfg.alignUp_offset atMost cfg.granularityBits_lt).1
  | grow range addendum =>
    obtain ⟨fits, rounded_le⟩ := cfg.alignUp_offset atMost cfg.granularityBits_lt
    obtain ⟨-, entry, found, -⟩ := step_grow stepped
    obtain ⟨-, -, -, inside, -⟩ := inv.entry_spec found
    obtain ⟨rounded_eq, -⟩ := Config.alignUp_granularity fits
    rw [Config.granularity] at rounded_eq
    refine Or.inr ⟨fits, ?_⟩
    rw [Config.granularity, ← rounded_eq]
    omega
  | _ => trivial

/-- Requests and addenda are at most the full size: the ranges are a partition. -/
theorem run_partition {actions : List Action}
    (atMost : ∀ action ∈ actions, action.AtMost cfg.fullSize)
    (reached : Runs.run (step cfg) (System.new cfg) actions = some system) :
    Partition cfg system := by
  have kept : Inv cfg system :=
    Runs.run_invariant
      (fun _ _ _ inv atMost stepped => (step_spec inv (inv.argsFit atMost stepped) stepped).1)
      Inv.initial (Runs.stepsMeet_of_forall (fun action mem _ => atMost action mem) _) reached
  exact kept.partition

/-- 1024 bytes in 32-bit offsets, with the usual granularity. -/
def smallConfig : Config where
  bits := 32
  granularityBits := 6
  fullSize := 1024
  granularityBits_lt := by decide
  fullSize_pos := by decide
  fullSize_le := by decide

/-- Three ranges, of which one grows and the others are freed, between free ranges and behind
one. -/
theorem run_partition_of_three_ranges :
    ∃ system, Runs.run (step smallConfig) (System.new smallConfig)
        [.allocate 100 0, .allocate 200 8, .allocate 1 0, .free ⟨0, 128⟩, .grow ⟨256, 512⟩ 500,
          .free ⟨128, 192⟩] = some system ∧
      system.allocator.freeRanges = [⟨0, 256⟩] ∧ system.allocated = [(⟨256, 1024⟩, 256)] ∧
      Partition smallConfig system := by
  have reached : (Runs.run (step smallConfig) (System.new smallConfig)
      [.allocate 100 0, .allocate 200 8, .allocate 1 0, .free ⟨0, 128⟩, .grow ⟨256, 512⟩ 500,
        .free ⟨128, 192⟩]).map (fun system => (system.allocator.freeRanges, system.allocated)) =
      some ([⟨0, 256⟩], [(⟨256, 1024⟩, 256)]) := by decide +kernel
  obtain ⟨system, run_eq, same⟩ := Option.map_eq_some_iff.mp reached
  obtain ⟨free, allocated⟩ := Prod.mk.inj same
  refine ⟨system, run_eq, free, allocated, run_partition (fun action mem => ?_) run_eq⟩
  simp only [List.mem_cons, List.not_mem_nil, or_false] at mem
  rcases mem with rfl | rfl | rfl | rfl | rfl | rfl <;> simp [Action.AtMost, smallConfig]

/-! ## Requests of any size -/

/-- In every run all calls are served exactly if none of them wraps. -/
theorem run_served_iff {actions : List Action}
    (reached : Runs.run (step cfg) (System.new cfg) actions = some system) :
    Runs.StepsMeet (step cfg) (Served cfg) (System.new cfg) actions ↔
      Runs.StepsMeet (step cfg) (ArgsFit cfg) (System.new cfg) actions := by
  refine Runs.stepsMeet_iff (fun state action state' inv stepped => ?_)
    (fun state action state' inv fits stepped => (step_spec inv fits stepped).1)
    Inv.initial reached
  constructor
  · intro served
    by_contra unfit
    exact step_not_served inv unfit stepped served
  · exact fun fits => (step_spec inv fits stepped).2

/-- A size that wraps is served if all is allocated. -/
theorem run_served_of_no_free_range :
    Runs.StepsMeet (step smallConfig) (Served smallConfig) (System.new smallConfig)
      [.allocateAll, .allocate (2 ^ 32 - 1) 0] := by
  have reached : (Runs.run (step smallConfig) (System.new smallConfig)
      [.allocateAll, .allocate (2 ^ 32 - 1) 0]).isSome := by decide +kernel
  obtain ⟨system, run_eq⟩ := Option.isSome_iff_exists.mp reached
  refine (run_served_iff run_eq).mpr ⟨trivial, Or.inr nofun, ?_⟩
  cases step smallConfig _ _ <;> trivial

/-- The largest size is rounded to zero, and what is returned is empty. -/
theorem not_served_of_largest_size :
    (step smallConfig (System.new smallConfig) (.allocate (2 ^ 32 - 1) 0)).map
        System.allocated = some [(⟨0, 0⟩, 1)] ∧
      ¬ Served smallConfig (System.new smallConfig) (.allocate (2 ^ 32 - 1) 0) := by
  have returned : smallConfig.allocate (System.new smallConfig).allocator (2 ^ 32 - 1) (2 ^ 0) =
      (some ⟨0, 0⟩, { freeRanges := [⟨0, 1024⟩], reserved := 128 }) := by decide +kernel
  refine ⟨by decide +kernel, ?_⟩
  simp only [Served, returned]
  exact fun served => absurd served.1 (by decide)

end Voxen.LinearAllocator
