import Mathlib.Data.List.Sort
import Voxen.Lib.LowerBound

/-!
# Hermite data

The edges of a chunk that cross the surface are stored in a list.  It is sorted by the endpoints of
the edges, but not by their axes: the comparison of the axes takes the same entry twice.
-/

namespace Voxen.Terrain

/-- `HermiteDataEntry`, without its floats. -/
structure HermiteDataEntry where
  /-- Whether the solid endpoint is the lesser one (0) or the bigger one (1). -/
  solidEndpoint : BitVec 1
  /-- Edge axis in GLM order. -/
  axis : BitVec 2
  solidVoxel : BitVec 8
  lesserX : BitVec 8
  lesserY : BitVec 8
  lesserZ : BitVec 8
deriving DecidableEq

namespace HermiteDataStorage

/-- `entryLess(a, b)`; the tuples are compared as lists. -/
def entryLess (a b : HermiteDataEntry) : Bool :=
  [a.lesserY.toNat, a.lesserX.toNat, a.lesserZ.toNat, a.axis.toNat] <
    [b.lesserY.toNat, b.lesserX.toNat, b.lesserZ.toNat, a.axis.toNat]

/-- What `sort()` may leave in the place of the entries; `std::sort` does not say how it orders
entries of which none is less. -/
structure SortedTo (entries sorted : List HermiteDataEntry) : Prop where
  perm : sorted.Perm entries
  ordered : sorted.Pairwise fun a b => entryLess b a = false

/-- The entry that `find` compares with. -/
def sample (x y z : BitVec 8) (axis : Int) : HermiteDataEntry where
  solidEndpoint := 0
  axis := BitVec.ofInt 2 axis
  solidVoxel := 0
  lesserX := x
  lesserY := y
  lesserZ := z

/-- The check of `find` on what the search has found. -/
def isAt (x y z : BitVec 8) (axis : Int) (entry : HermiteDataEntry) : Bool :=
  ¬ (entry.lesserX ≠ x ∨ entry.lesserY ≠ y ∨ entry.lesserZ ≠ z ∨ (entry.axis.toNat : Int) ≠ axis)

/-- `find(x, y, z, axis)`; `none` is `end()`. -/
def find (entries : List HermiteDataEntry) (x y z : BitVec 8) (axis : Int) :
    Option HermiteDataEntry :=
  let position := LowerBound.search
    (fun i => entries[i]?.any fun entry => entryLess entry (sample x y z axis)) 0 entries.length
  match entries[position]? with
  | none => none
  | some entry => if isAt x y z axis entry then some entry else none

/-! ## The order -/

/-- The endpoint as one number. -/
def point (entry : HermiteDataEntry) : Nat :=
  (entry.lesserY.toNat * 256 + entry.lesserX.toNat) * 256 + entry.lesserZ.toNat

/-- The tuple that the comment of `entryLess` speaks of. -/
def tuple (entry : HermiteDataEntry) : List Nat :=
  [entry.lesserY.toNat, entry.lesserX.toNat, entry.lesserZ.toNat, entry.axis.toNat]

theorem entryLess_iff (a b : HermiteDataEntry) : entryLess a b = true ↔ point a < point b := by
  have ay := a.lesserY.isLt
  have ax := a.lesserX.isLt
  have az := a.lesserZ.isLt
  have bY := b.lesserY.isLt
  have bx := b.lesserX.isLt
  have bz := b.lesserZ.isLt
  unfold entryLess point
  simp only [decide_eq_true_eq, List.cons_lt_cons_iff, List.not_lt_nil, lt_irrefl, and_false,
    or_false]
  omega

theorem tuple_lt_of_point_lt {a b : HermiteDataEntry} (less : point a < point b) :
    tuple a < tuple b := by
  have ay := a.lesserY.isLt
  have ax := a.lesserX.isLt
  have az := a.lesserZ.isLt
  have bY := b.lesserY.isLt
  have bx := b.lesserX.isLt
  have bz := b.lesserZ.isLt
  unfold point at less
  unfold tuple
  simp only [List.cons_lt_cons_iff]
  omega

theorem isAt_iff {x y z : BitVec 8} {axis : Int} {entry : HermiteDataEntry} :
    isAt x y z axis entry = true ↔
      entry.lesserX = x ∧ entry.lesserY = y ∧ entry.lesserZ = z ∧
        (entry.axis.toNat : Int) = axis := by
  simp only [isAt, decide_eq_true_eq, not_or, not_not]

section Sorted

variable {entries sorted : List HermiteDataEntry}

theorem exists_sortedTo (entries : List HermiteDataEntry) : ∃ sorted, SortedTo entries sorted := by
  refine ⟨entries.mergeSort fun a b => decide (point a ≤ point b),
    List.mergeSort_perm _ _, ?_⟩
  have ordered := @List.pairwise_mergeSort _ (fun a b => decide (point a ≤ point b))
    (fun a b c ab bc => decide_eq_true ((of_decide_eq_true ab).trans (of_decide_eq_true bc)))
    (fun a b => by simpa using Nat.le_total (point a) (point b)) entries
  refine ordered.imp fun {a b} le => eq_false_of_ne_true fun less => ?_
  exact absurd (of_decide_eq_true le) (Nat.not_le.mpr ((entryLess_iff b a).mp less))

theorem points_ordered (sort : SortedTo entries sorted)
    (apart : (entries.map point).Nodup) :
    sorted.Pairwise fun a b => point a < point b := by
  have differ : sorted.Pairwise fun a b => point a ≠ point b :=
    List.pairwise_map.mp ((sort.perm.map point).nodup_iff.mpr apart)
  refine sort.ordered.and differ |>.imp fun {a b} both => ?_
  have notLess : ¬ point b < point a := by
    rw [← entryLess_iff, both.1]
    exact Bool.false_ne_true
  have different := both.2
  omega

end Sorted

/-! ## Search -/

section Find

variable {entries sorted : List HermiteDataEntry}

/-- The search is one by the point; the axis is looked at only after it. -/
theorem find_eq (entries : List HermiteDataEntry) (x y z : BitVec 8) (axis : Int) :
    find entries x y z axis =
      (LowerBound.find entries point (point (sample x y z axis))).filter (isAt x y z axis) := by
  have same : (fun entry => entryLess entry (sample x y z axis)) =
      fun entry => decide (point entry < point (sample x y z axis)) := by
    funext entry
    rw [Bool.eq_iff_iff, entryLess_iff, decide_eq_true_eq]
  have at_point : ∀ {entry}, isAt x y z axis entry = true →
      point entry = point (sample x y z axis) := by
    intro entry here
    obtain ⟨rfl, rfl, rfl, -⟩ := isAt_iff.mp here
    rfl
  unfold find LowerBound.find
  rw [same]
  dsimp only
  split
  · rename_i missing
    rw [missing]
    rfl
  · rename_i entry found
    rw [found]
    by_cases here : isAt x y z axis entry = true
    · rw [if_pos here, Option.filter_some, if_pos (decide_eq_true (at_point here)),
        Option.filter_some, if_pos here]
    · rw [if_neg here]
      symm
      rw [Option.filter_eq_none_iff]
      intro other mem
      cases (Option.filter_eq_some_iff.mp mem).1
      exact here

/-- Between entries at different points the search finds the one that is asked for. -/
theorem find_eq_some_iff_of_apart (sort : SortedTo entries sorted)
    (apart : (entries.map point).Nodup) {x y z : BitVec 8} {axis : Int}
    {entry : HermiteDataEntry} :
    find sorted x y z axis = some entry ↔
      entry ∈ entries ∧ entry.lesserX = x ∧ entry.lesserY = y ∧ entry.lesserZ = z ∧
        (entry.axis.toNat : Int) = axis := by
  rw [find_eq, Option.filter_eq_some_iff,
    LowerBound.find_eq_some_iff (points_ordered sort apart), sort.perm.mem_iff, isAt_iff]
  constructor
  · rintro ⟨⟨mem, -⟩, here⟩
    exact ⟨mem, here⟩
  · rintro ⟨mem, rfl, rfl, rfl, here⟩
    exact ⟨⟨mem, rfl⟩, rfl, rfl, rfl, here⟩

theorem find_axis (x y z : BitVec 8) {axis axis' : Int} {entry entry' : HermiteDataEntry}
    (found : find sorted x y z axis = some entry)
    (found' : find sorted x y z axis' = some entry') : entry = entry' := by
  rw [find_eq] at found found'
  obtain ⟨here, -⟩ := Option.filter_eq_some_iff.mp found
  obtain ⟨here', -⟩ := Option.filter_eq_some_iff.mp found'
  exact Option.some.inj (here.symm.trans here')

end Find

/-! ## What sorting is for -/

/-- The entries are ordered as the tuples, and each is found under its values and no other. -/
structure Searchable (entries sorted : List HermiteDataEntry) : Prop where
  ordered : sorted.Pairwise fun a b => tuple a < tuple b
  finds : ∀ (x y z : BitVec 8) (axis : Int) (entry : HermiteDataEntry),
    find sorted x y z axis = some entry ↔
      entry ∈ entries ∧ entry.lesserX = x ∧ entry.lesserY = y ∧ entry.lesserZ = z ∧
        (entry.axis.toNat : Int) = axis

theorem point_injective {a b : HermiteDataEntry} (same : point a = point b) :
    a.lesserX = b.lesserX ∧ a.lesserY = b.lesserY ∧ a.lesserZ = b.lesserZ := by
  have ay := a.lesserY.isLt
  have ax := a.lesserX.isLt
  have az := a.lesserZ.isLt
  have bY := b.lesserY.isLt
  have bx := b.lesserX.isLt
  have bz := b.lesserZ.isLt
  unfold point at same
  exact ⟨BitVec.eq_of_toNat_eq (by omega), BitVec.eq_of_toNat_eq (by omega),
    BitVec.eq_of_toNat_eq (by omega)⟩

theorem apart_of_searchable {entries sorted : List HermiteDataEntry}
    (distinct : (entries.map tuple).Nodup) (searchable : Searchable entries sorted) :
    (entries.map point).Nodup := by
  rw [List.Nodup, List.pairwise_map] at distinct ⊢
  refine List.Pairwise.imp_of_mem (fun {a b} memA memB differ same => differ ?_) distinct
  obtain ⟨x, y, z⟩ := point_injective same
  have foundA := (searchable.finds a.lesserX a.lesserY a.lesserZ a.axis.toNat a).mpr
    ⟨memA, rfl, rfl, rfl, rfl⟩
  have foundB := (searchable.finds a.lesserX a.lesserY a.lesserZ b.axis.toNat b).mpr
    ⟨memB, x.symm, y.symm, z.symm, rfl⟩
  rw [find_axis _ _ _ foundA foundB]

/-- However `std::sort` orders what the comparison does not, the sorted entries can be searched
exactly if no two start at one point. -/
theorem sort_searchable_iff {entries sorted : List HermiteDataEntry}
    (distinct : (entries.map tuple).Nodup) (sort : SortedTo entries sorted) :
    Searchable entries sorted ↔ (entries.map point).Nodup := by
  refine ⟨apart_of_searchable distinct, fun apart => ⟨?_, fun x y z axis entry => ?_⟩⟩
  · exact (points_ordered sort apart).imp tuple_lt_of_point_lt
  · exact find_eq_some_iff_of_apart sort apart

/-- Two edges that start at different points. -/
theorem sort_searchable_iff_two :
    let entries : List HermiteDataEntry := [⟨0, 1, 1, 0, 0, 1⟩, ⟨0, 0, 1, 0, 0, 0⟩]
    SortedTo entries entries.reverse ∧ Searchable entries entries.reverse :=
  have sort : SortedTo [⟨0, 1, 1, 0, 0, 1⟩, ⟨0, 0, 1, 0, 0, 0⟩]
      [⟨0, 0, 1, 0, 0, 0⟩, ⟨0, 1, 1, 0, 0, 1⟩] := ⟨by decide, by decide⟩
  ⟨sort, (sort_searchable_iff (by decide) sort).mpr (by decide)⟩

/-- Two edges that start at one point. -/
theorem not_searchable_corner :
    let entries : List HermiteDataEntry := [⟨0, 1, 1, 0, 0, 0⟩, ⟨0, 0, 1, 0, 0, 0⟩]
    (entries.map tuple).Nodup ∧
      ∀ sorted, SortedTo entries sorted → ¬ Searchable entries sorted :=
  ⟨by decide, fun _ _ searchable =>
    absurd (apart_of_searchable (by decide) searchable) (by decide)⟩

end HermiteDataStorage

end Voxen.Terrain
