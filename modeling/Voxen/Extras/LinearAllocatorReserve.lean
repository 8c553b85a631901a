import Voxen.Extras.LinearAllocatorPartition

/-!
# What the linear allocator reserves

A freed range is added to the free ranges before it is merged, in a call that must not throw.
There is space for it if the constructor or some allocation reserved enough: an allocation
reserves two more than the free ranges that there are then.
-/

namespace Voxen.LinearAllocator

open BumpRegion

variable {cfg : Config}

/-- A range is freed while there are fewer free ranges than were reserved: `reserveBlocks` by
the constructor, or two more than there were at some allocation. -/
def FreeFits (cfg : Config) (system : System) : Action → Prop
  | .free _ => system.allocator.freeRanges.length < max cfg.reserveBlocks 1 ∨
      ∃ count ∈ system.freeRangesAt, system.allocator.freeRanges.length < count + 2
  | _ => True

/-- No call of `free` has made the free ranges outgrow what is reserved. -/
def System.NeverExceeded (system : System) : Prop := system.allocator.exceeded = false

/-- The reserved capacity comes from the constructor or from an allocation. -/
structure Reserves (cfg : Config) (system : System) : Prop where
  reserved : ∀ count, count < system.allocator.reserved ↔
    count < max cfg.reserveBlocks 1 ∨ ∃ before ∈ system.freeRangesAt, count < before + 2
  never : system.NeverExceeded

namespace Config

variable {alloc : Allocator}

theorem allocate_reserves (cfg : Config) (alloc : Allocator) (size align : Nat) :
    cfg.allocate alloc size align = (none, alloc) ∨
      ∃ range freeRanges, cfg.allocate alloc size align = (some range,
        { alloc with freeRanges, reserved := max alloc.reserved (alloc.freeRanges.length + 2) }) := by
  simp only [allocate]
  split
  next => exact Or.inl rfl
  next =>
    cases cfg.firstFit (cfg.alignUp size cfg.granularity) (max align cfg.granularity)
        alloc.freeRanges with
    | none => exact Or.inl rfl
    | some found => exact Or.inr ⟨found.1, found.2, rfl⟩

theorem grow_keeps (cfg : Config) (alloc : Allocator) (range : Range) (addendum : Nat) :
    ∃ grown freeRanges, cfg.grow alloc range addendum = (grown, { alloc with freeRanges }) := by
  unfold grow
  dsimp only
  split
  next => exact ⟨_, _, rfl⟩
  next =>
    cases alloc.freeRanges[upperBound alloc.freeRanges range]? with
    | none => exact ⟨_, _, rfl⟩
    | some higher =>
      dsimp only
      split_ifs
      all_goals exact ⟨_, _, rfl⟩

end Config

theorem Reserves.initial : Reserves cfg (System.new cfg) where
  reserved count := by simp [System.new, Config.new]
  never := rfl

theorem Reserves.congr {system system' : System} (reserves : Reserves cfg system)
    (reserved : system'.allocator.reserved = system.allocator.reserved)
    (freeRangesAt : system'.freeRangesAt = system.freeRangesAt)
    (exceeded : system'.allocator.exceeded = system.allocator.exceeded) :
    Reserves cfg system' where
  reserved count := by
    rw [reserved, freeRangesAt]
    exact reserves.reserved count
  never := exceeded.trans reserves.never

theorem step_reserves {system system' : System} {action : Action}
    (reserves : Reserves cfg system) (fits : FreeFits cfg system action)
    (stepped : step cfg system action = some system') : Reserves cfg system' := by
  cases action with
  | allocate size alignBits =>
    obtain ⟨-, same⟩ := step_allocate stepped
    rcases cfg.allocate_reserves system.allocator size (2 ^ alignBits) with
      failed | ⟨range, freeRanges, done⟩
    · simp only [failed] at same
      subst same
      exact reserves
    · simp only [done] at same
      subst same
      refine ⟨fun count => ?_, reserves.never⟩
      have before := reserves.reserved count
      simp only [List.mem_cons, exists_eq_or_imp]
      rw [lt_max_iff, before, or_assoc]
      exact or_congr_right or_comm
  | allocateAll =>
    simp only [step] at stepped
    split at stepped
    case isFalse => cases stepped
    cases stepped
    exact reserves.congr rfl rfl rfl
  | grow range addendum =>
    obtain ⟨-, entry, -, same⟩ := step_grow stepped
    obtain ⟨grown, freeRanges, done⟩ := cfg.grow_keeps system.allocator range addendum
    simp only [done] at same
    cases grown with
    | none | some grown =>
      subst same
      exact reserves.congr rfl rfl rfl
  | free range =>
    obtain ⟨entry, -, rfl⟩ := step_free stepped
    refine reserves.congr rfl rfl ?_
    have room := (reserves.reserved system.allocator.freeRanges.length).mpr fits
    simp [Config.free, Nat.not_le.mpr room]
  | reset =>
    cases stepped
    refine reserves.congr ?_ rfl ?_
    all_goals
      simp only [Config.reset]
      split <;> rfl

theorem step_exceeds {system system' : System} {action : Action}
    (reserves : Reserves cfg system) (unfit : ¬ FreeFits cfg system action)
    (stepped : step cfg system action = some system') : ¬ system'.NeverExceeded := by
  cases action with
  | free range =>
    obtain ⟨entry, -, rfl⟩ := step_free stepped
    have full : system.allocator.reserved ≤ system.allocator.freeRanges.length :=
      Nat.le_of_not_lt fun room => unfit ((reserves.reserved _).mp room)
    simp [System.NeverExceeded, Config.free, full]
  | _ => exact absurd trivial unfit

instance FreeFits.decidable (cfg : Config) (system : System) :
    (action : Action) → Decidable (FreeFits cfg system action)
  | .free _ => inferInstanceAs (Decidable (_ ∨ ∃ count ∈ system.freeRangesAt, _))
  | .allocate _ _ | .allocateAll | .grow _ _ | .reset => isTrue trivial

/-- 16 blocks of 64 bytes, and space for four free ranges. -/
def fourRanges : Config where
  bits := 32
  granularityBits := 6
  fullSize := 1024
  reserveBlocks := 4
  granularityBits_lt := smallConfig.granularityBits_lt
  fullSize_pos := smallConfig.fullSize_pos
  fullSize_le := smallConfig.fullSize_le

/-- Blocks one behind another, of which every second is freed. -/
def holes (count : Nat) : List Action :=
  List.replicate (2 * count) (.allocate 64 0) ++
    (List.range count).map fun i => .free ⟨128 * i, 128 * i + 64⟩

end Voxen.LinearAllocator
