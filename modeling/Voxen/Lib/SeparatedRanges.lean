import Mathlib.Data.List.Count
import Voxen.Lib.BumpRegion

/-!
# Ranges with gaps between them

Half-open ranges, counted point by point.  Ranges that cover no point twice do not overlap;
a list of ranges that go up with a gap between any two is the only one of its kind that
covers its points.
-/

namespace SeparatedRanges

open BumpRegion

/-- The number of ranges that have the point. -/
def covers (ranges : List Range) (point : Nat) : Nat :=
  ranges.countP fun range => decide (range.first ≤ point ∧ point < range.last)

@[simp]
theorem covers_nil (point : Nat) : covers [] point = 0 := rfl

@[simp]
theorem covers_cons (range : Range) (ranges : List Range) (point : Nat) :
    covers (range :: ranges) point =
      covers ranges point + if range.first ≤ point ∧ point < range.last then 1 else 0 := by
  simp [covers, List.countP_cons]

@[simp]
theorem covers_append (before after : List Range) (point : Nat) :
    covers (before ++ after) point = covers before point + covers after point :=
  List.countP_append

theorem covers_perm {ranges ranges' : List Range} (perm : ranges.Perm ranges') (point : Nat) :
    covers ranges point = covers ranges' point :=
  perm.countP_eq _

theorem covers_pos_iff {ranges : List Range} {point : Nat} :
    0 < covers ranges point ↔ ∃ range ∈ ranges, range.first ≤ point ∧ point < range.last := by
  simp [covers, List.countP_pos_iff]

variable {ranges before middle after pieces : List Range} {full : Nat}

theorem last_le (proper : ∀ range ∈ ranges, range.first < range.last)
    (outside : ∀ point, full ≤ point → covers ranges point = 0) :
    ∀ range ∈ ranges, range.last ≤ full := by
  intro range mem
  have positive := proper range mem
  by_contra beyond
  have covered : 0 < covers ranges (range.last - 1) :=
    covers_pos_iff.mpr ⟨range, mem, by omega, by omega⟩
  have none_there := outside (range.last - 1) (by omega)
  omega

theorem pairwise_apart (proper : ∀ range ∈ ranges, range.first < range.last)
    (once : ∀ point, covers ranges point ≤ 1) : ranges.Pairwise Range.Apart := by
  induction ranges with
  | nil => exact List.Pairwise.nil
  | cons range ranges ih =>
    have rest (point : Nat) : covers ranges point ≤ 1 := by
      have whole := once point
      rw [covers_cons] at whole
      omega
    refine List.pairwise_cons.mpr
      ⟨fun other mem => ?_, ih (fun other mem => proper other (List.mem_cons_of_mem _ mem)) rest⟩
    have range_proper := proper range List.mem_cons_self
    have other_proper := proper other (List.mem_cons_of_mem _ mem)
    by_contra overlap
    have both : range.first < other.last ∧ other.first < range.last := by
      simp only [Range.Apart, not_or, Nat.not_le] at overlap
      omega
    -- the point where the second of the two starts
    have covered : 0 < covers ranges (max range.first other.first) :=
      covers_pos_iff.mpr ⟨other, mem, by omega, by omega⟩
    have whole := once (max range.first other.first)
    rw [covers_cons, if_pos (by omega)] at whole
    omega

/-- Not empty, and going up with a gap between any two. -/
structure Separated (ranges : List Range) : Prop where
  proper : ∀ range ∈ ranges, range.first < range.last
  gaps : ranges.Pairwise fun lower higher => lower.last < higher.first

namespace Separated

theorem nil : Separated [] := ⟨nofun, List.Pairwise.nil⟩

theorem singleton {range : Range} (proper : range.first < range.last) : Separated [range] :=
  ⟨fun other mem => by rwa [List.mem_singleton.mp mem], List.pairwise_singleton _ _⟩

theorem pair {lower higher : Range} (lower_proper : lower.first < lower.last)
    (gap : lower.last < higher.first) (higher_proper : higher.first < higher.last) :
    Separated [lower, higher] where
  proper range mem := by
    rcases List.mem_cons.mp mem with rfl | mem
    · exact lower_proper
    · rwa [List.mem_singleton.mp mem]
  gaps := by simpa using gap

theorem left (separated : Separated (before ++ after)) : Separated before :=
  ⟨fun range mem => separated.proper range (List.mem_append_left _ mem),
    (List.pairwise_append.mp separated.gaps).1⟩

theorem right (separated : Separated (before ++ after)) : Separated after :=
  ⟨fun range mem => separated.proper range (List.mem_append_right _ mem),
    (List.pairwise_append.mp separated.gaps).2.1⟩

theorem tail {range : Range} (separated : Separated (range :: ranges)) : Separated ranges :=
  ⟨fun other mem => separated.proper other (List.mem_cons_of_mem _ mem),
    (List.pairwise_cons.mp separated.gaps).2⟩

theorem across (separated : Separated (before ++ after)) :
    ∀ lower ∈ before, ∀ higher ∈ after, lower.last < higher.first :=
  (List.pairwise_append.mp separated.gaps).2.2

theorem append (lower : Separated before) (higher : Separated after)
    (across : ∀ low ∈ before, ∀ high ∈ after, low.last < high.first) :
    Separated (before ++ after) where
  proper range mem := by
    rcases List.mem_append.mp mem with mem | mem
    · exact lower.proper range mem
    · exact higher.proper range mem
  gaps := List.pairwise_append.mpr ⟨lower.gaps, higher.gaps, across⟩

theorem between (lower : Separated before) (new : Separated pieces) (higher : Separated after)
    (across : ∀ low ∈ before, ∀ high ∈ after, low.last < high.first)
    (above : ∀ low ∈ before, ∀ piece ∈ pieces, low.last < piece.first)
    (below : ∀ piece ∈ pieces, ∀ high ∈ after, piece.last < high.first) :
    Separated (before ++ (pieces ++ after)) := by
  refine lower.append (new.append higher below) fun low mem high mem' => ?_
  rcases List.mem_append.mp mem' with mem' | mem'
  · exact above low mem high mem'
  · exact across low mem high mem'

theorem eq_whole (separated : Separated ranges) (positive : 0 < full)
    (covered : ∀ point, covers ranges point = if point < full then 1 else 0) :
    ranges = [⟨0, full⟩] := by
  have inside := last_le separated.proper fun point outside => by
    rw [covered, if_neg (Nat.not_lt.mpr outside)]
  cases ranges with
  | nil =>
    have first := covered 0
    rw [covers_nil, if_pos positive] at first
    cases first
  | cons range rest =>
    obtain ⟨gaps, rest_gaps⟩ := List.pairwise_cons.mp separated.gaps
    have proper := separated.proper range List.mem_cons_self
    have range_inside := inside range List.mem_cons_self
    have starts : range.first = 0 := by
      obtain ⟨other, mem, low, high⟩ := covers_pos_iff.mp
        (show 0 < covers (range :: rest) 0 by rw [covered, if_pos positive]; exact Nat.one_pos)
      rcases List.mem_cons.mp mem with rfl | mem
      · omega
      · have gap := gaps other mem
        omega
    have ends : range.last = full := by
      by_contra before
      obtain ⟨other, mem, low, high⟩ := covers_pos_iff.mp
        (show 0 < covers (range :: rest) range.last by
          rw [covered, if_pos (by omega)]
          exact Nat.one_pos)
      rcases List.mem_cons.mp mem with rfl | mem
      · omega
      · have gap := gaps other mem
        omega
    cases rest with
    | nil => rw [← starts, ← ends]
    | cons next rest =>
      have gap := gaps next List.mem_cons_self
      have next_proper := separated.proper next (by simp)
      have next_inside := inside next (by simp)
      omega

end Separated

end SeparatedRanges
