import Mathlib.Data.Nat.Bitwise
import Voxen.Extras.LinearAllocator

/-!
# Calls of the linear allocator

What each call does to the free ranges, as long as the rounded size does not wrap: which
points it takes from them or gives back to them, and that the gaps between them stay.
-/

namespace Voxen.LinearAllocator

open BumpRegion SeparatedRanges

namespace Config

variable {cfg : Config}

/-! ## Rounding up -/

variable {k size : Nat}

theorem alignUp_eq (fits : size + 2 ^ k - 1 < 2 ^ cfg.bits) :
    cfg.alignUp size (2 ^ k) = (size + 2 ^ k - 1) / 2 ^ k * 2 ^ k :=
  alignDownTo.two_pow fits k

theorem alignUp_spec (fits : size + 2 ^ k - 1 < 2 ^ cfg.bits) :
    2 ^ k ∣ cfg.alignUp size (2 ^ k) ∧ size ≤ cfg.alignUp size (2 ^ k) ∧
      cfg.alignUp size (2 ^ k) < size + 2 ^ k := by
  have positive : 0 < 2 ^ k := Nat.two_pow_pos k
  have whole := Nat.div_add_mod (size + 2 ^ k - 1) (2 ^ k)
  have rest := Nat.mod_lt (size + 2 ^ k - 1) positive
  rw [Nat.mul_comm] at whole
  rw [alignUp_eq fits]
  exact ⟨Nat.dvd_mul_left _ _, by omega, by omega⟩

theorem alignUp_granularity (fits : size + cfg.granularity - 1 < 2 ^ cfg.bits) :
    cfg.alignUp size cfg.granularity =
        (size + cfg.granularity - 1) / cfg.granularity * cfg.granularity ∧
      size ≤ cfg.alignUp size cfg.granularity :=
  ⟨alignUp_eq fits, (alignUp_spec fits).2.1⟩

theorem alignUp_wrapped (k_lt : k < cfg.bits) (size_lt : size < 2 ^ cfg.bits)
    (wraps : ¬ size + 2 ^ k - 1 < 2 ^ cfg.bits) : cfg.alignUp size (2 ^ k) = 0 := by
  have positive : 0 < 2 ^ k := Nat.two_pow_pos k
  have less : 2 ^ k < 2 ^ cfg.bits := Nat.pow_lt_pow_right Nat.one_lt_two k_lt
  have small : (size + 2 ^ k - 1) % 2 ^ cfg.bits < 2 ^ k := by
    rw [Nat.mod_eq_sub_mod (by omega), Nat.mod_eq_of_lt (by omega)]
    omega
  have masked : alignDownTo cfg.bits (size + 2 ^ k - 1) (2 ^ k) =
      alignDownTo cfg.bits ((size + 2 ^ k - 1) % 2 ^ cfg.bits) (2 ^ k) := by
    have same : BitVec.ofNat cfg.bits ((size + 2 ^ k - 1) % 2 ^ cfg.bits) =
        BitVec.ofNat cfg.bits (size + 2 ^ k - 1) :=
      BitVec.eq_of_toNat_eq (by rw [BitVec.toNat_ofNat, BitVec.toNat_ofNat, Nat.mod_mod])
    rw [alignDownTo, alignDownTo, same]
  rw [alignUp, masked, alignDownTo.two_pow (Nat.mod_lt _ (Nat.two_pow_pos _)),
    Nat.div_eq_of_lt small, Nat.zero_mul]

theorem fullSize_lt (cfg : Config) :
    cfg.fullSize < 2 ^ (cfg.bits - 1) ∧ 2 ^ (cfg.bits - 1) + 2 ^ (cfg.bits - 1) = 2 ^ cfg.bits := by
  have le := cfg.fullSize_le
  have positive := cfg.fullSize_pos
  obtain ⟨bits, same⟩ : ∃ bits, cfg.bits = bits + 1 := ⟨cfg.bits - 1, by
    have := cfg.granularityBits_lt
    omega⟩
  rw [same, Nat.pow_succ] at le
  rw [same, Nat.add_sub_cancel, Nat.pow_succ]
  omega

theorem pow_le_half (cfg : Config) (k_lt : k < cfg.bits) : 2 ^ k ≤ 2 ^ (cfg.bits - 1) :=
  Nat.pow_le_pow_right (by decide) (by omega)

theorem max_align (cfg : Config) {alignBits : Nat} (alignBits_lt : alignBits < cfg.bits) :
    ∃ k, max (2 ^ alignBits) cfg.granularity = 2 ^ k ∧ k < cfg.bits ∧ alignBits ≤ k := by
  refine ⟨max alignBits cfg.granularityBits, ?_, by
    have := cfg.granularityBits_lt
    omega, Nat.le_max_left _ _⟩
  rcases Nat.le_total alignBits cfg.granularityBits with le | le
  · rw [granularity, Nat.max_eq_right (Nat.pow_le_pow_right (by decide) le), Nat.max_eq_right le]
  · rw [granularity, Nat.max_eq_left (Nat.pow_le_pow_right (by decide) le), Nat.max_eq_left le]

theorem alignUp_offset (cfg : Config) {offset : Nat} (offset_le : offset ≤ cfg.fullSize)
    (k_lt : k < cfg.bits) :
    offset + 2 ^ k - 1 < 2 ^ cfg.bits ∧ cfg.alignUp offset (2 ^ k) ≤ 2 ^ (cfg.bits - 1) := by
  obtain ⟨full_lt, half⟩ := cfg.fullSize_lt
  have align_le := cfg.pow_le_half k_lt
  have positive : 0 < 2 ^ k := Nat.two_pow_pos k
  have fits : offset + 2 ^ k - 1 < 2 ^ cfg.bits := by omega
  refine ⟨fits, ?_⟩
  -- the half is a multiple of the alignment, too
  obtain ⟨dvd, low, high⟩ := alignUp_spec fits
  obtain ⟨count, same⟩ := dvd
  obtain ⟨whole, isWhole⟩ : 2 ^ k ∣ 2 ^ (cfg.bits - 1) := Nat.pow_dvd_pow 2 (by omega)
  rw [same] at high ⊢
  rw [isWhole] at full_lt ⊢
  by_contra beyond
  have more : whole + 1 ≤ count := by
    by_contra less
    exact beyond (Nat.mul_le_mul_left _ (by omega))
  have larger := Nat.mul_le_mul_left (2 ^ k) more
  rw [Nat.mul_succ] at larger
  omega

/-! ## Allocation -/

section Carve

variable {range : Range} {adjustedBegin adjustedEnd : Nat}

theorem carve_covers (low : range.first ≤ adjustedBegin) (proper : adjustedBegin < adjustedEnd)
    (high : adjustedEnd ≤ range.last) (point : Nat) :
    covers (carve range adjustedBegin adjustedEnd) point +
        (if adjustedBegin ≤ point ∧ point < adjustedEnd then 1 else 0) =
      if range.first ≤ point ∧ point < range.last then 1 else 0 := by
  unfold carve
  split <;> split <;> simp only [covers_cons, covers_nil] <;> split_ifs <;> omega

theorem mem_carve (proper : adjustedBegin < adjustedEnd) (low : range.first ≤ adjustedBegin)
    (high : adjustedEnd ≤ range.last) :
    ∀ piece ∈ carve range adjustedBegin adjustedEnd,
      range.first ≤ piece.first ∧ piece.last ≤ range.last := by
  intro piece mem
  unfold carve at mem
  split at mem <;> split at mem <;>
    simp only [List.mem_cons, List.not_mem_nil, or_false] at mem
  · rcases mem with rfl | rfl <;> dsimp only <;> omega
  · subst mem
    dsimp only
    omega
  · subst mem
    dsimp only
    omega

theorem carve_separated (proper : adjustedBegin < adjustedEnd) :
    Separated (carve range adjustedBegin adjustedEnd) := by
  unfold carve
  split
  next behind =>
    split
    next front => exact Separated.pair front proper behind
    next => exact Separated.singleton behind
  next =>
    split
    next front => exact Separated.singleton front
    next => exact Separated.nil

end Carve

theorem firstFit_some {align : Nat} {ranges ranges' : List Range} {found : Range}
    (fits : cfg.firstFit size align ranges = some (found, ranges')) :
    ∃ before range after, ranges = before ++ range :: after ∧
      found = ⟨cfg.alignUp range.first align,
        (cfg.alignUp range.first align + size) % 2 ^ cfg.bits⟩ ∧
      found.last ≤ range.last ∧
      ranges' = before ++ (carve range found.first found.last ++ after) := by
  induction ranges generalizing found ranges' with
  | nil => cases fits
  | cons range ranges ih =>
    rw [firstFit] at fits
    split at fits
    next =>
      obtain ⟨⟨found', rest⟩, later, same⟩ := Option.map_eq_some_iff.mp fits
      cases same
      obtain ⟨before, chosen, after, rfl, isFound, inside, rfl⟩ := ih later
      exact ⟨range :: before, chosen, after, rfl, isFound, inside, rfl⟩
    next inside =>
      cases fits
      exact ⟨[], range, ranges, rfl, rfl, Nat.le_of_not_lt inside, rfl⟩

theorem firstFit_none_iff {align : Nat} {ranges : List Range} :
    cfg.firstFit size align ranges = none ↔ ∀ range ∈ ranges,
      range.last < (cfg.alignUp range.first align + size) % 2 ^ cfg.bits := by
  induction ranges with
  | nil => simp [firstFit]
  | cons range ranges ih =>
    rw [firstFit, List.forall_mem_cons]
    split
    next small => rw [Option.map_eq_none_iff, ih, and_iff_right small]
    next inside => exact iff_of_false (by simp) fun both => inside both.1

/-! ## The place of a range -/

section Place

variable {ranges : List Range} {range : Range}

/-- The free ranges before the upper bound are below the range, the others above it. -/
theorem upperBound_spec (separated : Separated ranges) (proper : range.first < range.last)
    (apart : ∀ free ∈ ranges, free.Apart range) :
    (∀ free ∈ ranges.take (upperBound ranges range), free.last ≤ range.first) ∧
      ∀ free ∈ ranges.drop (upperBound ranges range), range.last ≤ free.first := by
  let before : Nat → Bool := fun i => ranges[i]?.any fun free =>
    ¬ (range.first < free.first ∨ range.first = free.first ∧ range.last < free.last)
  have before_iff : ∀ i (bound : i < ranges.length),
      before i = true ↔ ranges[i].last ≤ range.first := by
    intro i bound
    have free_proper := separated.proper ranges[i] (List.getElem_mem bound)
    have free_apart := apart ranges[i] (List.getElem_mem bound)
    simp only [Range.Apart] at free_apart
    simp only [before, List.getElem?_eq_getElem bound, Option.any_some, decide_eq_true_eq]
    omega
  have initial : ∀ i j, i ≤ j → before j = true → before i = true := by
    intro i j le isBefore
    have j_lt : j < ranges.length := by
      by_contra beyond
      simp [before, List.getElem?_eq_none (Nat.le_of_not_lt beyond)] at isBefore
    have i_lt : i < ranges.length := Nat.lt_of_le_of_lt le j_lt
    rw [before_iff j j_lt] at isBefore
    rw [before_iff i i_lt]
    rcases Nat.lt_or_eq_of_le le with less | rfl
    · have gap := List.pairwise_iff_getElem.mp separated.gaps i j i_lt j_lt less
      have free_proper := separated.proper ranges[j] (List.getElem_mem j_lt)
      omega
    · exact isBefore
  obtain ⟨-, high, inside⟩ := LowerBound.search_spec before 0 ranges.length initial
  rw [Nat.zero_add] at high inside
  constructor
  · intro free mem
    obtain ⟨i, bound, rfl⟩ := List.getElem_of_mem mem
    rw [List.length_take] at bound
    rw [List.getElem_take]
    have i_lt : i < ranges.length := by omega
    exact (before_iff i i_lt).mp ((inside i (Nat.zero_le i) i_lt).mp
      (Nat.lt_of_lt_of_le bound (Nat.min_le_left _ _)))
  · intro free mem
    obtain ⟨i, bound, rfl⟩ := List.getElem_of_mem mem
    rw [List.length_drop] at bound
    rw [List.getElem_drop]
    have i_lt : upperBound ranges range + i < ranges.length := by omega
    have above : ¬ ranges[upperBound ranges range + i].last ≤ range.first := by
      rw [← before_iff _ i_lt, ← inside _ (Nat.zero_le _) i_lt]
      exact Nat.not_lt.mpr (Nat.le_add_right _ _)
    exact (apart _ (List.getElem_mem i_lt)).resolve_left above

/-- Growing takes from the free range that starts at the end of the range, if there is one. -/
theorem grow_cases (cfg : Config) {alloc : Allocator} {addendum : Nat} (some_bytes : addendum ≠ 0)
    (separated : Separated alloc.freeRanges) (proper : range.first < range.last)
    (apart : ∀ free ∈ alloc.freeRanges, free.Apart range) :
    ((∀ free ∈ alloc.freeRanges, free.first ≠ range.last) ∧
      cfg.grow alloc range addendum = (none, alloc)) ∨
    ∃ before higher after desiredEnd, alloc.freeRanges = before ++ higher :: after ∧
      higher.first = range.last ∧
      desiredEnd = (range.last + cfg.alignUp addendum cfg.granularity) % 2 ^ cfg.bits ∧
      (higher.last < desiredEnd ∧ cfg.grow alloc range addendum = (none, alloc) ∨
        desiredEnd ≤ higher.last ∧ cfg.grow alloc range addendum =
          (some ⟨range.first, desiredEnd⟩, { alloc with
            freeRanges := before ++ ((if higher.last = desiredEnd then []
              else [⟨desiredEnd, higher.last⟩]) ++ after) })) := by
  obtain ⟨below, above⟩ := upperBound_spec separated proper apart
  have split := List.take_append_drop (upperBound alloc.freeRanges range) alloc.freeRanges
  generalize place : upperBound alloc.freeRanges range = i at *
  have low : ∀ free ∈ alloc.freeRanges.take i, free.first ≠ range.last := fun free mem => by
    have free_below := below free mem
    have free_proper := separated.proper free (List.mem_of_mem_take mem)
    omega
  simp only [grow, if_neg some_bytes, place]
  by_cases bound : i < alloc.freeRanges.length
  · have dropped := List.drop_eq_getElem_cons bound
    generalize higher_eq : alloc.freeRanges[i] = higher at dropped
    rw [dropped] at split above
    simp only [List.getElem?_eq_getElem bound, higher_eq]
    by_cases adjacent : higher.first = range.last
    · refine Or.inr ⟨alloc.freeRanges.take i, higher, alloc.freeRanges.drop (i + 1), _, split.symm,
        adjacent, rfl, ?_⟩
      rw [if_neg (not_not.mpr adjacent)]
      by_cases short : higher.last <
          (range.last + cfg.alignUp addendum cfg.granularity) % 2 ^ cfg.bits
      · exact Or.inl ⟨short, if_pos short⟩
      · refine Or.inr ⟨Nat.le_of_not_lt short, ?_⟩
        rw [if_neg short]
        split
        next whole =>
          rw [List.nil_append, List.eraseIdx_eq_take_drop_succ]
        next part =>
          rw [List.set_eq_take_append_cons_drop, if_pos bound]
          rfl
    · refine Or.inl ⟨fun free mem => ?_, if_pos adjacent⟩
      rw [← split] at mem
      rcases List.mem_append.mp mem with mem | mem
      · exact low free mem
      rcases List.mem_cons.mp mem with rfl | mem
      · exact adjacent
      · have sorted : Separated
            (alloc.freeRanges.take i ++ higher :: alloc.freeRanges.drop (i + 1)) := by
          rwa [split]
        have gap := (List.pairwise_cons.mp sorted.right.gaps).1 free mem
        have higher_proper := sorted.right.proper higher List.mem_cons_self
        have higher_above := above higher List.mem_cons_self
        omega
  · have rest : alloc.freeRanges.take i = alloc.freeRanges :=
      List.take_of_length_le (Nat.le_of_not_lt bound)
    rw [List.getElem?_eq_none (Nat.le_of_not_lt bound)]
    rw [rest] at low
    exact Or.inl ⟨low, rfl⟩

/-! ## Deallocation -/

theorem mergeNext_spec (separated : Separated ranges) (proper : range.first < range.last)
    (above : ∀ free ∈ ranges, range.last ≤ free.first) :
    (mergeNext range ranges).1.first = range.first ∧
      Separated ((mergeNext range ranges).1 :: (mergeNext range ranges).2) ∧
      ∀ point, covers ((mergeNext range ranges).1 :: (mergeNext range ranges).2) point =
        covers ranges point + if range.first ≤ point ∧ point < range.last then 1 else 0 := by
  cases ranges with
  | nil => exact ⟨rfl, Separated.singleton proper, fun point => covers_cons _ _ _⟩
  | cons next rest =>
    have next_proper := separated.proper next List.mem_cons_self
    have next_above := above next List.mem_cons_self
    obtain ⟨gaps, rest_gaps⟩ := List.pairwise_cons.mp separated.gaps
    rw [mergeNext]
    split
    next adjacent =>
      have joined : Separated ([⟨range.first, next.last⟩] ++ rest) := by
        refine (Separated.singleton (by dsimp only; omega)).append
          separated.tail fun low mem high mem' => ?_
        rw [List.mem_singleton.mp mem]
        exact gaps high mem'
      refine ⟨rfl, joined, fun point => ?_⟩
      simp only [covers_cons]
      split_ifs <;> omega
    next apart =>
      refine ⟨rfl, ?_, fun point => covers_cons _ _ _⟩
      refine (Separated.singleton proper).append separated fun low mem high mem' => ?_
      rw [List.mem_singleton.mp mem]
      rcases List.mem_cons.mp mem' with rfl | mem'
      · omega
      · have gap := gaps high mem'
        omega

theorem mergePrev_spec (separated : Separated ranges) (proper : range.first < range.last)
    (below : ∀ free ∈ ranges, free.last ≤ range.first) :
    Separated (mergePrev ranges range.first range) ∧
      (∀ free ∈ mergePrev ranges range.first range, free.last ≤ range.last) ∧
      ∀ point, covers (mergePrev ranges range.first range) point =
        covers ranges point + if range.first ≤ point ∧ point < range.last then 1 else 0 := by
  rcases List.eq_nil_or_concat ranges with rfl | ⟨front, prev, rfl⟩
  · refine ⟨Separated.singleton proper, fun free mem => ?_, fun point => covers_cons _ _ _⟩
    rw [List.mem_singleton.mp mem]
  · rw [List.concat_eq_append] at *
    have prev_proper := separated.proper prev (by simp)
    have prev_below := below prev (by simp)
    have gaps : ∀ free ∈ front, free.last < prev.first := fun free mem =>
      separated.across free mem prev (List.mem_singleton_self prev)
    have merged : mergePrev (front ++ [prev]) range.first range =
        if prev.last = range.first then front ++ [⟨prev.first, range.last⟩]
        else front ++ [prev] ++ [range] := by
      simp [mergePrev]
    rw [merged]
    split
    next adjacent =>
      refine ⟨?_, fun free mem => ?_, fun point => ?_⟩
      · refine separated.left.append (Separated.singleton (by dsimp only; omega))
          fun low mem high mem' => ?_
        rw [List.mem_singleton.mp mem']
        exact gaps low mem
      · rcases List.mem_append.mp mem with mem | mem
        · have gap := gaps free mem
          omega
        · rw [List.mem_singleton.mp mem]
      · simp only [covers_append, covers_cons, covers_nil]
        split_ifs <;> omega
    next apart =>
      refine ⟨?_, fun free mem => ?_, fun point => ?_⟩
      · refine separated.append (Separated.singleton proper) fun low mem high mem' => ?_
        rw [List.mem_singleton.mp mem']
        have low_below := below low mem
        rcases List.mem_append.mp mem with mem | mem
        · have gap := gaps low mem
          omega
        · rw [List.mem_singleton.mp mem] at low_below ⊢
          omega
      · rcases List.mem_append.mp mem with mem | mem
        · have free_below := below free mem
          omega
        · rw [List.mem_singleton.mp mem]
      · simp only [covers_append, covers_cons, covers_nil]
        omega

theorem free_spec (cfg : Config) {alloc : Allocator} (separated : Separated alloc.freeRanges)
    (proper : range.first < range.last) (apart : ∀ free ∈ alloc.freeRanges, free.Apart range) :
    Separated (cfg.free alloc range).2.freeRanges ∧
      ∀ point, covers (cfg.free alloc range).2.freeRanges point =
        covers alloc.freeRanges point +
          if range.first ≤ point ∧ point < range.last then 1 else 0 := by
  obtain ⟨below, above⟩ := upperBound_spec separated proper apart
  have split := List.take_append_drop (upperBound alloc.freeRanges range) alloc.freeRanges
  simp only [free]
  generalize alloc.freeRanges.take (upperBound alloc.freeRanges range) = before at *
  generalize alloc.freeRanges.drop (upperBound alloc.freeRanges range) = after at *
  rw [← split] at separated ⊢
  obtain ⟨starts, next_separated, next_covers⟩ := mergeNext_spec separated.right proper above
  generalize mergeNext range after = merged at *
  obtain ⟨merged, rest⟩ := merged
  dsimp only at starts next_separated next_covers ⊢
  have merged_proper := next_separated.proper merged List.mem_cons_self
  obtain ⟨prev_separated, prev_le, prev_covers⟩ :=
    mergePrev_spec separated.left merged_proper (fun free mem => starts ▸ below free mem)
  rw [starts] at prev_separated prev_le prev_covers
  refine ⟨prev_separated.append ?_ fun low mem high mem' => ?_, fun point => ?_⟩
  · exact next_separated.tail
  · have gap := (List.pairwise_cons.mp next_separated.gaps).1 high mem'
    have low_le := prev_le low mem
    omega
  · have counted := next_covers point
    rw [covers_cons, starts] at counted
    rw [covers_append, prev_covers, covers_append]
    omega

end Place

end Config

end Voxen.LinearAllocator
