import Voxen.Extras.LinearAllocatorSteps

/-!
# Runs of the linear allocator

Free and allocated ranges split `[0, full size)` between them.  Every call keeps that unless
a size that is rounded up, or an end it is added to, wraps.
-/

namespace Voxen.LinearAllocator

open BumpRegion SeparatedRanges

variable {cfg : Config}

/-! ## What a call should do -/

/-- The points of the range are taken from free ranges. -/
def Taken (freeRanges freeRanges' : List Range) (range : Range) : Prop :=
  ∀ point, covers freeRanges point =
    covers freeRanges' point + if range.first ≤ point ∧ point < range.last then 1 else 0

/-- The call fails and changes no free range, or returns a range that is large enough and
taken from them. -/
def Served (cfg : Config) (system : System) : Action → Prop
  | .allocate size alignBits =>
    match cfg.allocate system.allocator size (2 ^ alignBits) with
    | (none, allocator) => allocator.freeRanges = system.allocator.freeRanges
    | (some range, allocator) => size ≤ range.size ∧ range.last ≤ cfg.fullSize ∧
        Taken system.allocator.freeRanges allocator.freeRanges range
  | .grow range addendum =>
    match cfg.grow system.allocator range addendum with
    | (none, allocator) => allocator.freeRanges = system.allocator.freeRanges
    | (some grown, allocator) => grown.first = range.first ∧
        range.size + addendum ≤ grown.size ∧ grown.last ≤ cfg.fullSize ∧
        Taken system.allocator.freeRanges allocator.freeRanges ⟨range.last, grown.last⟩
  | _ => True

/-- Nothing wraps: rounding up the size, unless no free range has an aligned offset either;
rounding up the addendum and adding it to the end, if a free range starts there. -/
def ArgsFit (cfg : Config) (system : System) : Action → Prop
  | .allocate size alignBits => size + cfg.granularity - 1 < 2 ^ cfg.bits ∨
      ∀ range ∈ system.allocator.freeRanges, ∀ count,
        range.first ≤ count * max (2 ^ alignBits) cfg.granularity →
          range.last < count * max (2 ^ alignBits) cfg.granularity
  | .grow range addendum =>
    (∀ free ∈ system.allocator.freeRanges, free.first ≠ range.last) ∨
    addendum + cfg.granularity - 1 < 2 ^ cfg.bits ∧
      range.last + (addendum + cfg.granularity - 1) / cfg.granularity * cfg.granularity <
        2 ^ cfg.bits
  | _ => True

/-- A request for no more than there is. -/
def Action.AtMost (full : Nat) : Action → Prop
  | .allocate size _ => size ≤ full
  | .grow _ addendum => addendum ≤ full
  | _ => True

/-! ## The invariant -/

/-- The allocated ranges. -/
def System.ranges (system : System) : List Range := system.allocated.map Prod.fst

/-- Every point is in one range. -/
structure Inv (cfg : Config) (system : System) : Prop where
  separated : Separated system.allocator.freeRanges
  proper : ∀ entry ∈ system.allocated, entry.1.first < entry.1.last
  covered : ∀ point, covers system.allocator.freeRanges point + covers system.ranges point =
    if point < cfg.fullSize then 1 else 0
  aligned : ∀ entry ∈ system.allocated, entry.2 ∣ entry.1.first

namespace Inv

variable {system : System} {range : Range} {entry : Range × Nat}

theorem initial : Inv cfg (System.new cfg) where
  separated := Separated.singleton cfg.fullSize_pos
  proper _ mem := by cases mem
  covered point := by simp [System.new, Config.new, System.ranges]
  aligned _ mem := by cases mem

theorem proper_all (inv : Inv cfg system) :
    ∀ range ∈ system.allocator.freeRanges ++ system.ranges, range.first < range.last := by
  intro range mem
  rcases List.mem_append.mp mem with mem | mem
  · exact inv.separated.proper range mem
  · obtain ⟨entry, isEntry, rfl⟩ := List.mem_map.mp mem
    exact inv.proper entry isEntry

theorem apart_all (inv : Inv cfg system) :
    (system.allocator.freeRanges ++ system.ranges).Pairwise Range.Apart := by
  refine pairwise_apart inv.proper_all fun point => ?_
  rw [covers_append, inv.covered]
  split_ifs <;> omega

theorem last_le_all (inv : Inv cfg system) :
    ∀ range ∈ system.allocator.freeRanges ++ system.ranges, range.last ≤ cfg.fullSize :=
  last_le inv.proper_all fun point beyond => by
    rw [covers_append, inv.covered, if_neg (Nat.not_lt.mpr beyond)]

theorem free_last_le (inv : Inv cfg system) :
    ∀ free ∈ system.allocator.freeRanges, free.last ≤ cfg.fullSize := fun free mem =>
  inv.last_le_all free (List.mem_append_left _ mem)

theorem entry_spec (inv : Inv cfg system) (found : system.entry? range = some entry) :
    entry ∈ system.allocated ∧ entry.1 = range ∧ range.first < range.last ∧
      range.last ≤ cfg.fullSize ∧ ∀ free ∈ system.allocator.freeRanges, free.Apart range := by
  have mem := List.mem_of_find?_eq_some found
  have same : entry.1 = range := by simpa using List.find?_some found
  have isRange : range ∈ system.ranges := List.mem_map.mpr ⟨entry, mem, same⟩
  refine ⟨mem, same, same ▸ inv.proper entry mem,
    inv.last_le_all range (List.mem_append_right _ isRange), fun free isFree => ?_⟩
  exact (List.pairwise_append.mp inv.apart_all).2.2 free isFree range isRange

theorem covers_erase (mem : entry ∈ system.allocated) (point : Nat) :
    covers system.ranges point = covers ((system.allocated.erase entry).map Prod.fst) point +
      if entry.1.first ≤ point ∧ point < entry.1.last then 1 else 0 := by
  rw [← covers_cons, ← List.map_cons]
  exact covers_perm ((List.perm_cons_erase mem).map Prod.fst) point

end Inv

/-! ## Calls without wrapping -/

section Calls

variable {alloc : Allocator}

theorem carve_taken {before after : List Range} {range found : Range}
    (separated : Separated (before ++ range :: after)) (low : range.first ≤ found.first)
    (proper : found.first < found.last) (high : found.last ≤ range.last) :
    Separated (before ++ (Config.carve range found.first found.last ++ after)) ∧
      Taken (before ++ range :: after)
        (before ++ (Config.carve range found.first found.last ++ after)) found := by
  have pieces := Config.mem_carve proper low high
  constructor
  · refine separated.left.between (Config.carve_separated proper)
      separated.right.tail ?_ ?_ ?_
    · exact fun lower mem higher mem' =>
        separated.across lower mem higher (List.mem_cons_of_mem _ mem')
    · intro lower mem piece mem'
      have gap := separated.across lower mem range List.mem_cons_self
      have inside := pieces piece mem'
      omega
    · intro piece mem' higher mem
      have gap := (List.pairwise_cons.mp separated.right.gaps).1 higher mem
      have inside := pieces piece mem'
      omega
  · intro point
    have counted := Config.carve_covers low proper high point
    simp only [covers_append, covers_cons]
    omega

variable {alignBits size addendum : Nat}

theorem allocate_spec (separated : Separated alloc.freeRanges)
    (inside : ∀ free ∈ alloc.freeRanges, free.last ≤ cfg.fullSize) (positive : 0 < size)
    (alignBits_lt : alignBits < cfg.bits) (fits : size + cfg.granularity - 1 < 2 ^ cfg.bits) :
    cfg.allocate alloc size (2 ^ alignBits) = (none, alloc) ∨
      ∃ range freeRanges reserved, cfg.allocate alloc size (2 ^ alignBits) =
          (some range, { alloc with freeRanges, reserved }) ∧
        size ≤ range.size ∧ range.first < range.last ∧ range.last ≤ cfg.fullSize ∧
        2 ^ alignBits ∣ range.first ∧ Separated freeRanges ∧
        Taken alloc.freeRanges freeRanges range := by
  obtain ⟨k, isPower, k_lt, alignBits_le⟩ := cfg.max_align alignBits_lt
  obtain ⟨-, rounded⟩ := Config.alignUp_granularity fits
  simp only [Config.allocate, isPower]
  by_cases large : cfg.fullSize < cfg.alignUp size cfg.granularity
  · exact Or.inl (if_pos large)
  rw [if_neg large]
  cases found : cfg.firstFit (cfg.alignUp size cfg.granularity) (2 ^ k) alloc.freeRanges with
  | none => exact Or.inl rfl
  | some result =>
    obtain ⟨range, freeRanges⟩ := result
    obtain ⟨before, free, after, split, same, high, rfl⟩ := Config.firstFit_some found
    have isFree : free ∈ alloc.freeRanges := by
      rw [split]
      exact List.mem_append_right _ List.mem_cons_self
    have free_proper := separated.proper free isFree
    have free_inside := inside free isFree
    have first_le : free.first ≤ cfg.fullSize := by omega
    obtain ⟨offset_fits, offset_le⟩ := cfg.alignUp_offset first_le k_lt
    obtain ⟨dvd, low, -⟩ := Config.alignUp_spec offset_fits
    obtain ⟨full_lt, half⟩ := cfg.fullSize_lt
    rw [Nat.mod_eq_of_lt (by omega)] at same
    have first : range.first = cfg.alignUp free.first (2 ^ k) := by rw [same]
    have last : range.last = cfg.alignUp free.first (2 ^ k) +
      cfg.alignUp size cfg.granularity := by rw [same]
    have proper : range.first < range.last := by omega
    rw [split] at separated ⊢
    obtain ⟨carved, taken⟩ := carve_taken separated (by omega) proper high
    refine Or.inr ⟨range, _, _, rfl, ?_, proper, by omega, ?_, carved, taken⟩
    · rw [Range.size]
      omega
    · rw [first]
      exact Nat.dvd_trans (Nat.pow_dvd_pow 2 alignBits_le) dvd

theorem granularity_wrapped (wraps : ¬ size + cfg.granularity - 1 < 2 ^ cfg.bits)
    (size_lt : size < 2 ^ cfg.bits) : cfg.alignUp size cfg.granularity = 0 :=
  Config.alignUp_wrapped cfg.granularityBits_lt size_lt wraps

/-- A size that wraps to zero is served exactly if some free range has an aligned offset. -/
theorem allocate_wrapped (separated : Separated alloc.freeRanges)
    (inside : ∀ free ∈ alloc.freeRanges, free.last ≤ cfg.fullSize) (size_lt : size < 2 ^ cfg.bits)
    (alignBits_lt : alignBits < cfg.bits) (wraps : ¬ size + cfg.granularity - 1 < 2 ^ cfg.bits) :
    ((∀ range ∈ alloc.freeRanges, ∀ count,
        range.first ≤ count * max (2 ^ alignBits) cfg.granularity →
          range.last < count * max (2 ^ alignBits) cfg.granularity) ∧
      cfg.allocate alloc size (2 ^ alignBits) = (none, alloc)) ∨
    (¬ (∀ range ∈ alloc.freeRanges, ∀ count,
        range.first ≤ count * max (2 ^ alignBits) cfg.granularity →
          range.last < count * max (2 ^ alignBits) cfg.granularity) ∧
      ∃ range allocator, cfg.allocate alloc size (2 ^ alignBits) = (some range, allocator) ∧
        range.size = 0) := by
  obtain ⟨k, isPower, k_lt, -⟩ := cfg.max_align alignBits_lt
  have zero := granularity_wrapped wraps size_lt
  obtain ⟨full_lt, half⟩ := cfg.fullSize_lt
  have aligned (free : Range) (isFree : free ∈ alloc.freeRanges) :
      (cfg.alignUp free.first (2 ^ k) + 0) % 2 ^ cfg.bits = cfg.alignUp free.first (2 ^ k) ∧
        ((∀ count, free.first ≤ count * 2 ^ k → free.last < count * 2 ^ k) ↔
          free.last < cfg.alignUp free.first (2 ^ k)) := by
    have free_proper := separated.proper free isFree
    have free_inside := inside free isFree
    have first_le : free.first ≤ cfg.fullSize := by omega
    obtain ⟨offset_fits, offset_le⟩ := cfg.alignUp_offset first_le k_lt
    obtain ⟨⟨least, isLeast⟩, low, high⟩ := Config.alignUp_spec offset_fits
    refine ⟨by rw [Nat.add_zero, Nat.mod_eq_of_lt (by omega)], fun all => ?_,
      fun beyond count le => ?_⟩
    · rw [isLeast, Nat.mul_comm]
      exact all least (by rw [Nat.mul_comm, ← isLeast]; exact low)
    · -- no multiple lies between the offset and the least one
      refine Nat.lt_of_lt_of_le beyond ?_
      rw [isLeast] at high ⊢
      by_contra below
      have fewer : count + 1 ≤ least := by
        by_contra more
        refine below ?_
        rw [Nat.mul_comm count]
        exact Nat.mul_le_mul_left _ (by omega)
      have smaller := Nat.mul_le_mul_left (2 ^ k) fewer
      rw [Nat.mul_succ, Nat.mul_comm _ count] at smaller
      omega
  have none_iff : cfg.firstFit 0 (2 ^ k) alloc.freeRanges = none ↔
      ∀ range ∈ alloc.freeRanges, ∀ count, range.first ≤ count * 2 ^ k →
        range.last < count * 2 ^ k := by
    rw [Config.firstFit_none_iff]
    refine forall₂_congr fun free isFree => ?_
    rw [(aligned free isFree).1, (aligned free isFree).2]
  simp only [Config.allocate, isPower, zero, Nat.not_lt_zero, if_false, ← none_iff]
  cases found : cfg.firstFit 0 (2 ^ k) alloc.freeRanges with
  | none => exact Or.inl ⟨rfl, rfl⟩
  | some result =>
    obtain ⟨range, freeRanges⟩ := result
    obtain ⟨before, free, after, split, same, high, rfl⟩ := Config.firstFit_some found
    have isFree : free ∈ alloc.freeRanges := by
      rw [split]
      exact List.mem_append_right _ List.mem_cons_self
    refine Or.inr ⟨nofun, range, _, rfl, ?_⟩
    rw [same, (aligned free isFree).1, Range.size, Nat.sub_self]

theorem grow_spec {range : Range} (some_bytes : addendum ≠ 0)
    (separated : Separated alloc.freeRanges)
    (inside : ∀ free ∈ alloc.freeRanges, free.last ≤ cfg.fullSize)
    (proper : range.first < range.last) (apart : ∀ free ∈ alloc.freeRanges, free.Apart range)
    (fits : addendum + cfg.granularity - 1 < 2 ^ cfg.bits)
    (sum_fits : range.last + (addendum + cfg.granularity - 1) / cfg.granularity *
      cfg.granularity < 2 ^ cfg.bits) :
    cfg.grow alloc range addendum = (none, alloc) ∨
      ∃ grown freeRanges, cfg.grow alloc range addendum =
          (some grown, { alloc with freeRanges }) ∧
        grown.first = range.first ∧ range.last + addendum ≤ grown.last ∧
        grown.last ≤ cfg.fullSize ∧ Separated freeRanges ∧
        Taken alloc.freeRanges freeRanges ⟨range.last, grown.last⟩ := by
  obtain ⟨rounded_eq, rounded⟩ := Config.alignUp_granularity fits
  rw [← rounded_eq] at sum_fits
  rcases cfg.grow_cases some_bytes separated proper apart with
    ⟨-, failed⟩ | ⟨before, higher, after, desiredEnd, split, adjacent, desired, outcome⟩
  · exact Or.inl failed
  rw [Nat.mod_eq_of_lt sum_fits] at desired
  rcases outcome with ⟨-, failed⟩ | ⟨high, grown⟩
  · exact Or.inl failed
  have isFree : higher ∈ alloc.freeRanges := by
    rw [split]
    exact List.mem_append_right _ List.mem_cons_self
  have higher_inside := inside higher isFree
  have rest : (if higher.last = desiredEnd then [] else [⟨desiredEnd, higher.last⟩]) =
      Config.carve higher range.last desiredEnd := by
    rw [Config.carve, adjacent, if_neg (Nat.lt_irrefl _), if_neg (Nat.lt_irrefl _)]
    by_cases whole : higher.last = desiredEnd
    · rw [if_pos whole, if_neg (by omega)]
    · rw [if_neg whole, if_pos (by omega)]
  rw [rest] at grown
  have separated' := separated
  rw [split] at separated'
  have longer : range.last < desiredEnd := by omega
  obtain ⟨carved, taken⟩ := carve_taken separated' (Nat.le_of_eq adjacent)
    (show (Range.mk range.last desiredEnd).first < _ from longer) high
  rw [← split] at taken
  exact Or.inr ⟨_, _, grown, rfl, by dsimp only; omega, by dsimp only; omega, carved, taken⟩

/-- An addendum or an end that wraps, next to a free range: the range does not grow. -/
theorem grow_wrapped {range : Range} (some_bytes : addendum ≠ 0)
    (separated : Separated alloc.freeRanges)
    (inside : ∀ free ∈ alloc.freeRanges, free.last ≤ cfg.fullSize)
    (proper : range.first < range.last) (apart : ∀ free ∈ alloc.freeRanges, free.Apart range)
    (addendum_lt : addendum < 2 ^ cfg.bits)
    (adjacent : ¬ ∀ free ∈ alloc.freeRanges, free.first ≠ range.last)
    (wraps : ¬ (addendum + cfg.granularity - 1 < 2 ^ cfg.bits ∧
      range.last + (addendum + cfg.granularity - 1) / cfg.granularity * cfg.granularity <
        2 ^ cfg.bits)) :
    ∃ grown allocator, cfg.grow alloc range addendum = (some grown, allocator) ∧
      grown.first = range.first ∧ grown.last ≤ range.last := by
  rcases cfg.grow_cases some_bytes separated proper apart with
    ⟨away, -⟩ | ⟨before, higher, after, desiredEnd, split, starts, desired, outcome⟩
  · exact absurd away adjacent
  have isFree : higher ∈ alloc.freeRanges := by
    rw [split]
    exact List.mem_append_right _ List.mem_cons_self
  have higher_proper := separated.proper higher isFree
  have higher_inside := inside higher isFree
  obtain ⟨full_lt, half⟩ := cfg.fullSize_lt
  have not_beyond : desiredEnd ≤ range.last := by
    by_cases fits : addendum + cfg.granularity - 1 < 2 ^ cfg.bits
    · obtain ⟨rounded_eq, -⟩ := Config.alignUp_granularity fits
      have rounded_lt : cfg.alignUp addendum cfg.granularity < 2 ^ cfg.bits := by
        rw [rounded_eq]
        exact Nat.lt_of_le_of_lt (Nat.div_mul_le_self _ _) fits
      have sum_wraps : ¬ range.last + cfg.alignUp addendum cfg.granularity < 2 ^ cfg.bits := by
        rw [rounded_eq]
        exact fun sum_fits => wraps ⟨fits, sum_fits⟩
      rw [desired, Nat.mod_eq_sub_mod (Nat.le_of_not_lt sum_wraps), Nat.mod_eq_of_lt (by omega)]
      omega
    · rw [desired, granularity_wrapped fits addendum_lt, Nat.add_zero,
        Nat.mod_eq_of_lt (by omega)]
  rcases outcome with ⟨short, -⟩ | ⟨-, grown⟩
  · omega
  · exact ⟨_, _, grown, rfl, not_beyond⟩

end Calls

/-! ## One step -/

section Step

variable {system system' : System} {action : Action}

variable {freeRanges : List Range} {alignBits size addendum : Nat}

theorem Inv.allocated (inv : Inv cfg system) {range : Range} {align : Nat} {reserved : Nat}
    {freeRangesAt : List Nat} (separated : Separated freeRanges) (proper : range.first < range.last)
    (aligned : align ∣ range.first) (taken : Taken system.allocator.freeRanges freeRanges range) :
    Inv cfg { system with
      allocator := { system.allocator with freeRanges, reserved }
      allocated := (range, align) :: system.allocated
      freeRangesAt } where
  separated := separated
  proper := List.forall_mem_cons.mpr ⟨proper, inv.proper⟩
  covered point := by
    have whole := inv.covered point
    have moved := taken point
    simp only [System.ranges, List.map_cons, covers_cons] at whole ⊢
    omega
  aligned := List.forall_mem_cons.mpr ⟨aligned, inv.aligned⟩

theorem Inv.grown (inv : Inv cfg system) {range grown : Range} {entry : Range × Nat}
    (found : system.entry? range = some entry) (separated : Separated freeRanges)
    (first : grown.first = range.first) (longer : range.last ≤ grown.last)
    (taken : Taken system.allocator.freeRanges freeRanges ⟨range.last, grown.last⟩) :
    Inv cfg { system with
      allocator := { system.allocator with freeRanges }
      allocated := (grown, entry.2) :: system.allocated.erase entry } := by
  obtain ⟨mem, same, proper, -, -⟩ := inv.entry_spec found
  refine ⟨separated, List.forall_mem_cons.mpr ⟨by dsimp only; omega, fun other mem' =>
    inv.proper other (List.mem_of_mem_erase mem')⟩, fun point => ?_,
    List.forall_mem_cons.mpr ⟨?_, fun other mem' => inv.aligned other (List.mem_of_mem_erase mem')⟩⟩
  · have whole := inv.covered point
    have moved := taken point
    rw [Inv.covers_erase mem, same] at whole
    simp only [System.ranges, List.map_cons, covers_cons, first] at whole moved ⊢
    split_ifs at * <;> omega
  · have aligned := inv.aligned entry mem
    rw [same] at aligned
    dsimp only
    rwa [first]

theorem Inv.freed (inv : Inv cfg system) {range : Range} {entry : Range × Nat}
    (found : system.entry? range = some entry) :
    Inv cfg { system with
      allocator := (cfg.free system.allocator range).2
      allocated := system.allocated.erase entry } := by
  obtain ⟨mem, same, proper, -, apart⟩ := inv.entry_spec found
  obtain ⟨separated, moved⟩ := cfg.free_spec inv.separated proper apart
  refine ⟨separated, fun other mem' => inv.proper other (List.mem_of_mem_erase mem'),
    fun point => ?_, fun other mem' => inv.aligned other (List.mem_of_mem_erase mem')⟩
  have whole := inv.covered point
  rw [Inv.covers_erase mem, same] at whole
  rw [moved]
  simp only [System.ranges] at whole ⊢
  omega

/-- The only free range is the whole one exactly if nothing is allocated. -/
theorem Inv.isFree_iff (inv : Inv cfg system) :
    cfg.isFree system.allocator = true ↔ system.allocated = [] := by
  rw [Config.isFree, decide_eq_true_eq]
  constructor
  · intro whole
    cases allocated : system.allocated with
    | nil => rfl
    | cons entry rest =>
      have mem : entry ∈ system.allocated := by
        rw [allocated]
        exact List.mem_cons_self
      have proper := inv.proper entry mem
      have inside := inv.last_le_all entry.1
        (List.mem_append_right _ (List.mem_map.mpr ⟨entry, mem, rfl⟩))
      -- its first point would be counted twice
      have counted := inv.covered entry.1.first
      rw [whole, Inv.covers_erase mem, covers_cons, covers_nil, if_pos (by dsimp only; omega),
        if_pos (by omega), if_pos (by omega)] at counted
      omega
  · intro none_allocated
    refine inv.separated.eq_whole cfg.fullSize_pos fun point => ?_
    have counted := inv.covered point
    rwa [System.ranges, none_allocated, List.map_nil, covers_nil, Nat.add_zero] at counted

theorem allocate_of_fits (inv : Inv cfg system) (positive : 0 < size)
    (size_lt : size < 2 ^ cfg.bits) (alignBits_lt : alignBits < cfg.bits)
    (fits : ArgsFit cfg system (.allocate size alignBits)) :
    cfg.allocate system.allocator size (2 ^ alignBits) = (none, system.allocator) ∨
      ∃ range freeRanges reserved, cfg.allocate system.allocator size (2 ^ alignBits) =
          (some range, { system.allocator with freeRanges, reserved }) ∧
        size ≤ range.size ∧ range.first < range.last ∧ range.last ≤ cfg.fullSize ∧
        2 ^ alignBits ∣ range.first ∧ Separated freeRanges ∧
        Taken system.allocator.freeRanges freeRanges range := by
  by_cases small : size + cfg.granularity - 1 < 2 ^ cfg.bits
  · exact allocate_spec inv.separated inv.free_last_le positive alignBits_lt small
  · rcases allocate_wrapped inv.separated inv.free_last_le size_lt alignBits_lt small with
      ⟨-, failed⟩ | ⟨not_fits, -⟩
    · exact Or.inl failed
    · exact absurd (fits.resolve_left small) not_fits

theorem grow_of_fits (inv : Inv cfg system) {range : Range} (some_bytes : addendum ≠ 0)
    (proper : range.first < range.last)
    (apart : ∀ free ∈ system.allocator.freeRanges, free.Apart range)
    (fits : ArgsFit cfg system (.grow range addendum)) :
    cfg.grow system.allocator range addendum = (none, system.allocator) ∨
      ∃ grown freeRanges, cfg.grow system.allocator range addendum =
          (some grown, { system.allocator with freeRanges }) ∧
        grown.first = range.first ∧ range.last + addendum ≤ grown.last ∧
        grown.last ≤ cfg.fullSize ∧ Separated freeRanges ∧
        Taken system.allocator.freeRanges freeRanges ⟨range.last, grown.last⟩ := by
  rcases fits with away | ⟨small, sum_small⟩
  · rcases cfg.grow_cases some_bytes inv.separated proper apart with
      ⟨-, failed⟩ | ⟨before, higher, after, desiredEnd, split, starts, -, -⟩
    · exact Or.inl failed
    · refine absurd starts (away higher ?_)
      rw [split]
      exact List.mem_append_right _ List.mem_cons_self
  · exact grow_spec some_bytes inv.separated inv.free_last_le proper apart small sum_small

theorem step_allocate_spec (inv : Inv cfg system)
    (fits : ArgsFit cfg system (.allocate size alignBits))
    (stepped : step cfg system (.allocate size alignBits) = some system') :
    Inv cfg system' ∧ Served cfg system (.allocate size alignBits) := by
  obtain ⟨⟨positive, size_lt, alignBits_lt⟩, same⟩ := step_allocate stepped
  rcases allocate_of_fits inv positive size_lt alignBits_lt fits with
    failed | ⟨range, freeRanges, reserved, done, large, proper, inside, aligned, separated, taken⟩
  · simp only [failed] at same
    subst same
    exact ⟨inv, by simp only [Served, failed]⟩
  · simp only [done] at same
    subst same
    refine ⟨inv.allocated separated proper aligned taken, ?_⟩
    simp only [Served, done]
    exact ⟨large, inside, taken⟩

theorem step_grow_spec (inv : Inv cfg system) {range : Range}
    (fits : ArgsFit cfg system (.grow range addendum))
    (stepped : step cfg system (.grow range addendum) = some system') :
    Inv cfg system' ∧ Served cfg system (.grow range addendum) := by
  obtain ⟨addendum_lt, entry, found, same⟩ := step_grow stepped
  obtain ⟨mem, isRange, proper, inside, apart⟩ := inv.entry_spec found
  by_cases none_more : addendum = 0
  · have done : cfg.grow system.allocator range addendum = (some range, system.allocator) := by
      rw [Config.grow, if_pos none_more]
    have taken : Taken system.allocator.freeRanges system.allocator.freeRanges
        ⟨range.last, range.last⟩ := fun point => by
      rw [if_neg (by dsimp only; omega), Nat.add_zero]
    simp only [done] at same
    subst same
    refine ⟨inv.grown found inv.separated rfl (Nat.le_refl _) taken, ?_⟩
    simp only [Served, done]
    exact ⟨trivial, Nat.le_of_eq (by rw [none_more, Nat.add_zero]), inside, taken⟩
  · rcases grow_of_fits inv none_more proper apart fits with
      failed | ⟨grown, freeRanges, done, first, longer, grown_inside, separated, taken⟩
    · simp only [failed] at same
      subst same
      exact ⟨inv, by simp only [Served, failed]⟩
    · simp only [done] at same
      subst same
      refine ⟨inv.grown found separated first (by omega) taken, ?_⟩
      simp only [Served, done, Range.size]
      exact ⟨first, by omega, grown_inside, taken⟩

theorem step_spec (inv : Inv cfg system) (fits : ArgsFit cfg system action)
    (stepped : step cfg system action = some system') :
    Inv cfg system' ∧ Served cfg system action := by
  cases action with
  | allocate size alignBits => exact step_allocate_spec inv fits stepped
  | allocateAll =>
    simp only [step] at stepped
    split at stepped
    case isFalse => cases stepped
    rename_i isFree
    cases stepped
    have none_allocated := inv.isFree_iff.mp isFree
    refine ⟨⟨Separated.nil, ?_, fun point => ?_, ?_⟩, trivial⟩
    · rw [none_allocated]
      exact List.forall_mem_cons.mpr ⟨cfg.fullSize_pos, List.forall_mem_nil _⟩
    · simp [System.ranges, none_allocated, Config.allocateAll]
    · rw [none_allocated]
      exact List.forall_mem_cons.mpr ⟨Nat.one_dvd _, List.forall_mem_nil _⟩
  | grow range addendum => exact step_grow_spec inv fits stepped
  | free range =>
    obtain ⟨entry, found, rfl⟩ := step_free stepped
    exact ⟨inv.freed found, trivial⟩
  | reset =>
    cases stepped
    have whole : (cfg.reset system.allocator).2.freeRanges = [⟨0, cfg.fullSize⟩] := by
      unfold Config.reset
      split
      next isFree => exact of_decide_eq_true isFree
      next => rfl
    refine ⟨⟨?_, List.forall_mem_nil _, fun point => ?_, List.forall_mem_nil _⟩, trivial⟩
    · dsimp only
      rw [whole]
      exact Separated.singleton cfg.fullSize_pos
    · dsimp only
      rw [whole]
      simp [System.ranges]

theorem step_not_served (inv : Inv cfg system) (unfit : ¬ ArgsFit cfg system action)
    (stepped : step cfg system action = some system') : ¬ Served cfg system action := by
  cases action with
  | allocate size alignBits =>
    obtain ⟨⟨positive, size_lt, alignBits_lt⟩, -⟩ := step_allocate stepped
    obtain ⟨wraps, aligned⟩ := not_or.mp unfit
    rcases allocate_wrapped inv.separated inv.free_last_le size_lt alignBits_lt wraps with
      ⟨fits, -⟩ | ⟨-, range, allocator, done, empty⟩
    · exact absurd fits aligned
    · simp only [Served, done, empty]
      omega
  | grow range addendum =>
    obtain ⟨addendum_lt, entry, found, -⟩ := step_grow stepped
    obtain ⟨adjacent, wraps⟩ := not_or.mp unfit
    obtain ⟨-, -, proper, inside, apart⟩ := inv.entry_spec found
    have some_bytes : addendum ≠ 0 := by
      rintro rfl
      obtain ⟨full_lt, half⟩ := cfg.fullSize_lt
      have positive : 0 < cfg.granularity := Nat.two_pow_pos _
      have none_more : (0 + cfg.granularity - 1) / cfg.granularity = 0 :=
        Nat.div_eq_of_lt (by omega)
      have granularity_le : cfg.granularity ≤ 2 ^ (cfg.bits - 1) :=
        cfg.pow_le_half cfg.granularityBits_lt
      refine wraps ⟨by omega, ?_⟩
      rw [none_more, Nat.zero_mul]
      omega
    obtain ⟨grown, allocator, done, first, shorter⟩ := grow_wrapped some_bytes
      inv.separated inv.free_last_le proper apart addendum_lt adjacent wraps
    simp only [Served, done, Range.size]
    omega
  | _ => exact absurd trivial unfit

end Step

end Voxen.LinearAllocator
