import Voxen.Lib.AlignDown
import Voxen.Lib.LowerBound
import Voxen.Lib.Runs
import Voxen.Lib.SeparatedRanges

/-!
# The linear allocator

A list of free ranges in ascending order.  An allocation takes the first range with enough
space and leaves what is before and behind it; a freed range is put back at its place and
merged with its neighbours.  Offsets and sizes are of an unsigned type.
-/

namespace Voxen.LinearAllocator

open BumpRegion SeparatedRanges

/-- The bits of `S`, the logarithm of `G`, and the arguments of the constructor, with what
it asserts. -/
structure Config where
  bits : Nat
  granularityBits : Nat
  fullSize : Nat
  reserveBlocks : Nat := 128
  granularityBits_lt : granularityBits < bits
  fullSize_pos : 0 < fullSize
  fullSize_le : fullSize ≤ (2 ^ bits - 1) / 2

/-- `m_free_ranges`.  `reserved` is the capacity that the constructor and the calls of
`reserve` guarantee, `exceeded` tells whether `free` has gone beyond it. -/
structure Allocator where
  freeRanges : List Range
  reserved : Nat
  exceeded : Bool := false
  deriving DecidableEq

namespace Config

variable (cfg : Config)

/-- `G`. -/
def granularity : Nat := 2 ^ cfg.granularityBits

/-- `align_up`. -/
def alignUp (size alignment : Nat) : Nat := alignDownTo cfg.bits (size + alignment - 1) alignment

/-- The constructor: `reserve` and the first `emplace_back`. -/
def new : Allocator :=
  { freeRanges := [⟨0, cfg.fullSize⟩], reserved := max cfg.reserveBlocks 1 }

/-- `is_free`. -/
def isFree (alloc : Allocator) : Bool := alloc.freeRanges = [⟨0, cfg.fullSize⟩]

/-! ## Allocation -/

/-- What is left of a free range before and behind an allocated one. -/
def carve (range : Range) (adjustedBegin adjustedEnd : Nat) : List Range :=
  if adjustedEnd < range.last then
    if range.first < adjustedBegin then [⟨range.first, adjustedBegin⟩, ⟨adjustedEnd, range.last⟩]
    else [⟨adjustedEnd, range.last⟩]
  else if range.first < adjustedBegin then [⟨range.first, adjustedBegin⟩]
  else []

/-- The loop of `allocate`: the allocated range and the free ranges after it. -/
def firstFit (size align : Nat) : List Range → Option (Range × List Range)
  | [] => none
  | range :: ranges =>
    let adjustedBegin := cfg.alignUp range.first align
    let adjustedEnd := (adjustedBegin + size) % 2 ^ cfg.bits
    if range.last < adjustedEnd then
      -- too small for the requested size and alignment
      (firstFit size align ranges).map fun found => (found.1, range :: found.2)
    else
      some (⟨adjustedBegin, adjustedEnd⟩, carve range adjustedBegin adjustedEnd ++ ranges)

/-- `allocate`. -/
def allocate (alloc : Allocator) (size align : Nat) : Option Range × Allocator :=
  let size := cfg.alignUp size cfg.granularity
  let align := max align cfg.granularity
  if cfg.fullSize < size then (none, alloc)
  else
    match cfg.firstFit size align alloc.freeRanges with
    | none => (none, alloc)
    | some (range, freeRanges) =>
      (some range,
        { alloc with
          freeRanges
          reserved := max alloc.reserved (alloc.freeRanges.length + 2) })

/-- `allocate_all`. -/
def allocateAll (alloc : Allocator) : Range × Allocator :=
  (⟨0, cfg.fullSize⟩, { alloc with freeRanges := [] })

/-- `std::upper_bound` of a range among the free ones, which are pairs. -/
def upperBound (freeRanges : List Range) (range : Range) : Nat :=
  LowerBound.search
    (fun i => freeRanges[i]?.any fun free =>
      ¬ (range.first < free.first ∨ range.first = free.first ∧ range.last < free.last))
    0 freeRanges.length

/-- `grow`. -/
def grow (alloc : Allocator) (range : Range) (addendum : Nat) : Option Range × Allocator :=
  if addendum = 0 then (some range, alloc)
  else
    let i := upperBound alloc.freeRanges range
    match alloc.freeRanges[i]? with
    | none => (none, alloc)
    | some higher =>
      if higher.first ≠ range.last then (none, alloc)
      else
        let desiredEnd := (range.last + cfg.alignUp addendum cfg.granularity) % 2 ^ cfg.bits
        if higher.last < desiredEnd then (none, alloc)
        else if higher.last = desiredEnd then
          (some ⟨range.first, desiredEnd⟩,
            { alloc with freeRanges := alloc.freeRanges.eraseIdx i })
        else
          (some ⟨range.first, desiredEnd⟩,
            { alloc with freeRanges := alloc.freeRanges.set i ⟨desiredEnd, higher.last⟩ })

/-! ## Deallocation -/

/-- A range and those behind it, merged with the first of them if that starts at its end. -/
def mergeNext (range : Range) : List Range → Range × List Range
  | [] => (range, [])
  | next :: rest =>
    if next.first = range.last then (⟨range.first, next.last⟩, rest) else (range, next :: rest)

/-- The ranges before a range that starts at `start`, and the range, merged with the last of
them if that ends there. -/
def mergePrev (before : List Range) (start : Nat) (range : Range) : List Range :=
  match before.getLast? with
  | none => [range]
  | some prev =>
    if prev.last = start then before.dropLast ++ [⟨prev.first, range.last⟩]
    else before ++ [range]

/-- `free`; it tells whether the callback is called. -/
def free (alloc : Allocator) (range : Range) : Bool × Allocator :=
  let i := upperBound alloc.freeRanges range
  let (merged, after) := mergeNext range (alloc.freeRanges.drop i)
  let alloc :=
    { alloc with
      freeRanges := mergePrev (alloc.freeRanges.take i) range.first merged ++ after
      exceeded := alloc.exceeded || alloc.reserved ≤ alloc.freeRanges.length }
  (cfg.isFree alloc, alloc)

/-- `reset`. -/
def reset (alloc : Allocator) : Bool × Allocator :=
  if cfg.isFree alloc then (false, alloc)
  else (true, { alloc with freeRanges := [⟨0, cfg.fullSize⟩] })

end Config

/-! ## Runs -/

/-- The allocator, the allocated ranges with the alignment asked for, and the number of free
ranges at each successful allocation. -/
structure System where
  allocator : Allocator
  allocated : List (Range × Nat) := []
  freeRangesAt : List Nat := []
  deriving DecidableEq

/-- Alignments are powers of two. -/
inductive Action where
  | allocate (size alignBits : Nat)
  | allocateAll
  | grow (range : Range) (addendum : Nat)
  | free (range : Range)
  | reset
  deriving DecidableEq

/-- The allocated range that an action is about. -/
def System.entry? (system : System) (range : Range) : Option (Range × Nat) :=
  system.allocated.find? fun entry => entry.1 = range

/-- A call with arguments of type `S`, as the assertions want them: a size is not zero, all is
allocated only from a free allocator, and what is grown or freed was allocated. -/
def step (cfg : Config) (system : System) : Action → Option System
  | .allocate size alignBits =>
    if 0 < size ∧ size < 2 ^ cfg.bits ∧ alignBits < cfg.bits then
      match cfg.allocate system.allocator size (2 ^ alignBits) with
      | (none, allocator) => some { system with allocator }
      | (some range, allocator) =>
        some { system with
          allocator
          allocated := (range, 2 ^ alignBits) :: system.allocated
          freeRangesAt := system.allocator.freeRanges.length :: system.freeRangesAt }
    else none
  | .allocateAll =>
    if cfg.isFree system.allocator then
      let (range, allocator) := cfg.allocateAll system.allocator
      some { system with allocator, allocated := (range, 1) :: system.allocated }
    else none
  | .grow range addendum =>
    if addendum < 2 ^ cfg.bits then
      match system.entry? range with
      | none => none
      | some entry =>
        match cfg.grow system.allocator range addendum with
        | (none, allocator) => some { system with allocator }
        | (some grown, allocator) =>
          some { system with
            allocator
            allocated := (grown, entry.2) :: system.allocated.erase entry }
    else none
  | .free range =>
    match system.entry? range with
    | none => none
    | some entry =>
      some { system with
        allocator := (cfg.free system.allocator range).2
        allocated := system.allocated.erase entry }
  | .reset =>
    some { system with allocator := (cfg.reset system.allocator).2, allocated := [] }

/-- An allocator before its first call. -/
def System.new (cfg : Config) : System := { allocator := cfg.new }

section Inversion

variable {cfg : Config} {system system' : System}

theorem step_allocate {size alignBits : Nat}
    (stepped : step cfg system (.allocate size alignBits) = some system') :
    (0 < size ∧ size < 2 ^ cfg.bits ∧ alignBits < cfg.bits) ∧
      (match cfg.allocate system.allocator size (2 ^ alignBits) with
        | (none, allocator) => { system with allocator }
        | (some range, allocator) => { system with
            allocator
            allocated := (range, 2 ^ alignBits) :: system.allocated
            freeRangesAt := system.allocator.freeRanges.length :: system.freeRangesAt }) =
        system' := by
  simp only [step] at stepped
  split at stepped
  case isFalse => cases stepped
  rename_i asserted
  refine ⟨asserted, ?_⟩
  generalize cfg.allocate system.allocator size (2 ^ alignBits) = result at stepped ⊢
  obtain ⟨returned, allocator⟩ := result
  cases returned with
  | none | some range => exact Option.some.inj stepped

theorem step_grow {range : Range} {addendum : Nat}
    (stepped : step cfg system (.grow range addendum) = some system') :
    addendum < 2 ^ cfg.bits ∧ ∃ entry, system.entry? range = some entry ∧
      (match cfg.grow system.allocator range addendum with
        | (none, allocator) => { system with allocator }
        | (some grown, allocator) => { system with
            allocator
            allocated := (grown, entry.2) :: system.allocated.erase entry }) = system' := by
  simp only [step] at stepped
  split at stepped
  case isFalse => cases stepped
  rename_i addendum_lt
  cases found : system.entry? range with
  | none =>
    rw [found] at stepped
    cases stepped
  | some entry =>
    simp only [found] at stepped
    refine ⟨addendum_lt, entry, rfl, ?_⟩
    generalize cfg.grow system.allocator range addendum = result at stepped ⊢
    obtain ⟨returned, allocator⟩ := result
    cases returned with
    | none | some grown => exact Option.some.inj stepped

theorem step_free {range : Range} (stepped : step cfg system (.free range) = some system') :
    ∃ entry, system.entry? range = some entry ∧
      { system with
        allocator := (cfg.free system.allocator range).2
        allocated := system.allocated.erase entry } = system' := by
  simp only [step] at stepped
  cases found : system.entry? range with
  | none =>
    rw [found] at stepped
    cases stepped
  | some entry =>
    simp only [found] at stepped
    exact ⟨entry, rfl, Option.some.inj stepped⟩

end Inversion

end Voxen.LinearAllocator
