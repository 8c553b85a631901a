import Mathlib.Algebra.Order.Group.Abs
import Mathlib.Data.Set.Card
import Voxen.Lib.NestedLoops

/-!
# The walker over concentric octahedra

The walker keeps the place of its next step: the radius, two offsets, and which of two points
with these offsets comes next. The offset fields are integers here; that they are never out of
the range of the radius is `after_fits`.
-/

namespace Voxen

/-- The fields of the walker. -/
structure ConcentricOctahedraWalker where
  maxRadius : Int
  wrappedAround : Bool := false
  radius : Int := 0
  dyNegative : Bool := false
  dx : Int := 0
  dz : Int := 0
  deriving DecidableEq

namespace ConcentricOctahedraWalker

open NestedLoops

/-- The change of the fields in `step()`, for the distance `dy` of the current point. -/
def advance (walker : ConcentricOctahedraWalker) (dy : Int) : ConcentricOctahedraWalker :=
  if walker.dyNegative = true ∨ dy = 0 then
    let dz := walker.dz + 1
    if dz > walker.radius - |walker.dx| then
      let dx := walker.dx + 1
      if dx > walker.radius then
        let wraps := decide (walker.radius + 1 > walker.maxRadius)
        let radius := if wraps then 0 else walker.radius + 1
        let dx := -radius
        { walker with
          wrappedAround := walker.wrappedAround || wraps
          radius := radius
          dyNegative := false
          dx := dx
          dz := -(radius - |dx|) }
      else
        { walker with dyNegative := false, dx := dx, dz := -(walker.radius - |dx|) }
    else
      { walker with dyNegative := false, dz := dz }
  else
    { walker with dyNegative := true }

/-- `step()`: the offset, and the walker afterwards. -/
def step (walker : ConcentricOctahedraWalker) : (Int × Int × Int) × ConcentricOctahedraWalker :=
  let dy := walker.radius - |walker.dx| - |walker.dz|
  ((walker.dx, if walker.dyNegative then -dy else dy, walker.dz), walker.advance dy)

section Advance

variable {walker : ConcentricOctahedraWalker} {dy : Int}

theorem advance_mirror (first : walker.dyNegative = false) (apart : dy ≠ 0) :
    walker.advance dy = { walker with dyNegative := true } := by
  refine if_neg ?_
  rw [first]
  exact fun leaves => leaves.elim Bool.false_ne_true apart

theorem advance_column (leaves : walker.dyNegative = true ∨ dy = 0)
    (inRow : walker.dz + 1 ≤ walker.radius - |walker.dx|) :
    walker.advance dy = { walker with dyNegative := false, dz := walker.dz + 1 } := by
  rw [advance, if_pos leaves]
  exact if_neg (Int.not_lt.mpr inRow)

theorem advance_row (leaves : walker.dyNegative = true ∨ dy = 0)
    (ends : walker.radius - |walker.dx| < walker.dz + 1)
    (inShell : walker.dx + 1 ≤ walker.radius) :
    walker.advance dy = { walker with
      dyNegative := false
      dx := walker.dx + 1
      dz := -(walker.radius - |walker.dx + 1|) } := by
  rw [advance, if_pos leaves]
  exact (if_pos ends).trans (if_neg (Int.not_lt.mpr inShell))

theorem advance_shell (leaves : walker.dyNegative = true ∨ dy = 0)
    (ends : walker.radius - |walker.dx| < walker.dz + 1)
    (leavesShell : walker.radius < walker.dx + 1) {radius : Int} (nonneg : 0 ≤ radius)
    (nextRadius :
      (if walker.radius + 1 > walker.maxRadius then 0 else walker.radius + 1) = radius) :
    walker.advance dy = { walker with
      wrappedAround := walker.wrappedAround || decide (walker.radius + 1 > walker.maxRadius)
      radius := radius
      dyNegative := false
      dx := -radius
      dz := 0 } := by
  have pole : -(radius - |-radius|) = 0 := by rw [abs_neg, abs_of_nonneg nonneg]; omega
  rw [advance, if_pos leaves]
  refine (if_pos ends).trans ((if_pos leavesShell).trans ?_)
  simp only [decide_eq_true_eq, nextRadius, pole]

end Advance

/-- The walker after some steps from its construction. -/
def after (maxRadius : Nat) : Nat → ConcentricOctahedraWalker
  | 0 => { maxRadius := maxRadius }
  | count + 1 => (after maxRadius count).step.2

/-- The offset that the step with this number returns; the first one has number zero. -/
def visited (maxRadius count : Nat) : Int × Int × Int := (after maxRadius count).step.1

/-- `|x| + |y| + |z|`. -/
def norm (point : Int × Int × Int) : Int := |point.1| + |point.2.1| + |point.2.2|

/-! ## The places of the walker -/

/-- A place of the walk: what the walker keeps besides its limit and the flag. -/
structure Place where
  radius : Int
  dx : Int
  dz : Int
  dyNegative : Bool
  deriving DecidableEq

/-- A walker at a place. -/
def standing (maxRadius : Int) (wrappedAround : Bool) (place : Place) :
    ConcentricOctahedraWalker where
  maxRadius := maxRadius
  wrappedAround := wrappedAround
  radius := place.radius
  dyNegative := place.dyNegative
  dx := place.dx
  dz := place.dz

namespace Place

/-- The distance in `y` of the two points with the offsets of a place. -/
def dy (place : Place) : Int := place.radius - |place.dx| - |place.dz|

/-- The offset that the step at a place returns. -/
def point (place : Place) : Int × Int × Int :=
  (place.dx, if place.dyNegative then -place.dy else place.dy, place.dz)

/-- One step leads from a place to the next one, whatever the flag is. -/
def Follows (maxRadius : Int) (place next : Place) : Prop :=
  ∀ wrappedAround, (standing maxRadius wrappedAround place).step.2 =
    standing maxRadius wrappedAround next

end Place

/-- The places with two given offsets: one if they leave no distance in `y`, else two. -/
def column (radius dx dz : Int) : List Place :=
  if radius - |dx| - |dz| = 0 then [⟨radius, dx, dz, false⟩]
  else [⟨radius, dx, dz, false⟩, ⟨radius, dx, dz, true⟩]

def row (radius dx : Int) : List Place :=
  (interval (-(radius - |dx|)) (radius - |dx|)).flatMap (column radius dx)

/-- The places of one octahedron. -/
def shell (radius : Int) : List Place := (interval (-radius) radius).flatMap (row radius)

/-- All places, in the order of the walk. -/
def places (maxRadius : Int) : List Place := (interval 0 maxRadius).flatMap shell

section Paths

variable {maxRadius radius dx dz : Int}

theorem column_path :
    Path (Place.Follows maxRadius) (column radius dx dz) ⟨radius, dx, dz, false⟩
      ⟨radius, dx, dz, decide (radius - |dx| - |dz| ≠ 0)⟩ := by
  unfold column
  split
  · rename_i flat
    rw [decide_eq_false (not_not_intro flat)]
    exact Path.single _
  · rename_i apart
    rw [decide_eq_true apart]
    exact Path.append (Path.single _) (Path.single _) fun _ => advance_mirror rfl apart

/-- The last of the places with two offsets leads to the next offset in `z`. -/
theorem column_link (more : dz < radius - |dx|) :
    Place.Follows maxRadius ⟨radius, dx, dz, decide (radius - |dx| - |dz| ≠ 0)⟩
      ⟨radius, dx, dz + 1, false⟩ := by
  refine fun _ => advance_column ?_ more
  rw [standing, decide_eq_true_eq]
  exact (Decidable.em _).symm

theorem row_path (inside : |dx| ≤ radius) :
    Path (Place.Follows maxRadius) (row radius dx) ⟨radius, dx, -(radius - |dx|), false⟩
      ⟨radius, dx, radius - |dx|, false⟩ := by
  have nonneg : 0 ≤ radius - |dx| := by omega
  have path : Path (Place.Follows maxRadius) (row radius dx) _ _ :=
    Path.loop (by omega) (fun dz _ _ => column_path) fun dz _ below => column_link below
  rwa [abs_of_nonneg nonneg, sub_self, decide_eq_false (not_not_intro rfl)] at path

theorem row_end (inside : |dx| ≤ radius) : radius - |dx| - |(radius - |dx|)| = 0 := by
  rw [abs_of_nonneg (by omega : 0 ≤ radius - |dx|), sub_self]

theorem row_link (inside : |dx| ≤ radius) (more : dx < radius) :
    Place.Follows maxRadius ⟨radius, dx, radius - |dx|, false⟩
      ⟨radius, dx + 1, -(radius - |dx + 1|), false⟩ :=
  fun _ => advance_row (.inr (row_end inside)) (Int.lt_succ _) more

theorem shell_path (nonneg : 0 ≤ radius) :
    Path (Place.Follows maxRadius) (shell radius) ⟨radius, -radius, 0, false⟩
      ⟨radius, radius, 0, false⟩ := by
  have path : Path (Place.Follows maxRadius) (shell radius) _ _ :=
    Path.loop (by omega) (fun dx above below => row_path (abs_le.mpr ⟨above, below⟩))
      fun dx above below => row_link (abs_le.mpr ⟨above, below.le⟩) below
  rwa [abs_neg, abs_of_nonneg nonneg, sub_self, neg_zero] at path

theorem pole (nonneg : 0 ≤ radius) : radius - |radius| - |(0 : Int)| = 0 := by
  rw [abs_of_nonneg nonneg, abs_zero]
  omega

theorem pole_ends (nonneg : 0 ≤ radius) : radius - |radius| < 0 + 1 := by
  rw [abs_of_nonneg nonneg]
  omega

theorem shell_link (nonneg : 0 ≤ radius) (more : radius < maxRadius) :
    Place.Follows maxRadius ⟨radius, radius, 0, false⟩
      ⟨radius + 1, -(radius + 1), 0, false⟩ := by
  intro wrappedAround
  have stays : ¬ radius + 1 > maxRadius := Int.not_lt.mpr more
  have next : 0 ≤ radius + 1 := by omega
  have turned : (standing maxRadius wrappedAround ⟨radius, radius, 0, false⟩).step.2 = _ :=
    advance_shell (.inr (pole nonneg)) (pole_ends nonneg) (Int.lt_succ radius) next (if_neg stays)
  rw [standing, decide_eq_false stays, Bool.or_false] at turned
  exact turned

theorem places_path (nonneg : 0 ≤ maxRadius) :
    Path (Place.Follows maxRadius) (places maxRadius) ⟨0, 0, 0, false⟩
      ⟨maxRadius, maxRadius, 0, false⟩ :=
  Path.loop nonneg (fun _ above _ => shell_path above) fun _ above below => shell_link above below

theorem step_last (nonneg : 0 ≤ maxRadius) (wrappedAround : Bool) :
    (standing maxRadius wrappedAround ⟨maxRadius, maxRadius, 0, false⟩).step.2 =
      standing maxRadius true ⟨0, 0, 0, false⟩ := by
  have leaves : maxRadius + 1 > maxRadius := Int.lt_succ maxRadius
  have turned : (standing maxRadius wrappedAround ⟨maxRadius, maxRadius, 0, false⟩).step.2 = _ :=
    advance_shell (.inr (pole nonneg)) (pole_ends nonneg) leaves (Int.le_refl 0) (if_pos leaves)
  rw [standing, decide_eq_true leaves, Bool.or_true] at turned
  exact turned

end Paths

/-! ## The walk -/

variable {maxRadius : Nat}

theorem places_pos (maxRadius : Nat) : 0 < (places maxRadius).length := by
  rcases Nat.eq_zero_or_pos (places maxRadius).length with empty | pos
  · have head := (places_path (Int.natCast_nonneg maxRadius)).head
    rw [List.eq_nil_of_length_eq_zero empty] at head
    cases head
  · exact pos

/-- After some steps the walker stands at the place with this number, counted around, and the
flag says if it has been at all places. -/
theorem after_eq (maxRadius count : Nat) :
    ∃ place, (places maxRadius)[count % (places maxRadius).length]? = some place ∧
      after maxRadius count =
        standing maxRadius (decide ((places maxRadius).length ≤ count)) place := by
  have path := places_path (Int.natCast_nonneg maxRadius)
  have pos := places_pos maxRadius
  induction count with
  | zero =>
    have flag : decide ((places maxRadius).length ≤ 0) = false :=
      decide_eq_false (Nat.not_le.mpr pos)
    rw [Nat.zero_mod, List.getElem?_eq_getElem pos, path.getElem_zero pos, flag]
    exact ⟨_, rfl, rfl⟩
  | succ count ih =>
    obtain ⟨place, current, stands⟩ := ih
    obtain ⟨inside, rfl⟩ := List.getElem?_eq_some_iff.mp current
    rw [after, stands, ← Nat.mod_add_mod]
    rcases Nat.lt_or_ge (count % (places maxRadius).length + 1) (places maxRadius).length
      with more | last
    · have flag : (places maxRadius).length ≤ count ↔ (places maxRadius).length ≤ count + 1 := by
        refine ⟨Nat.le_succ_of_le, fun le => Nat.le_of_not_lt fun first => ?_⟩
        rw [Nat.mod_eq_of_lt first] at more
        exact Nat.not_lt.mpr le more
      rw [Nat.mod_eq_of_lt more, List.getElem?_eq_getElem more, path.step_getElem more]
      simp only [flag]
      exact ⟨_, rfl, rfl⟩
    · have turn : count % (places maxRadius).length + 1 = (places maxRadius).length := by omega
      have around : (places maxRadius).length ≤ count + 1 :=
        last.trans (Nat.succ_le_succ (Nat.mod_le _ _))
      have final : count % (places maxRadius).length = (places maxRadius).length - 1 := by omega
      rw [turn, Nat.mod_self, List.getElem?_eq_getElem pos, path.getElem_zero pos,
        decide_eq_true around]
      simp only [final] at inside ⊢
      rw [path.getElem_last, step_last (Int.natCast_nonneg maxRadius)]
      exact ⟨_, rfl, rfl⟩

/-! ## The places and the points -/

variable {place : Place}

theorem mem_column {radius dx dz : Int} :
    place ∈ column radius dx dz ↔ place.radius = radius ∧ place.dx = dx ∧ place.dz = dz ∧
      (place.dyNegative = true → place.dy ≠ 0) := by
  obtain ⟨radius', dx', dz', dyNegative⟩ := place
  unfold column
  split
  · rename_i flat
    cases dyNegative with
    | false => simp
    | true =>
      simp only [List.mem_singleton, Place.mk.injEq, Place.dy, Bool.true_eq_false, and_false,
        false_iff, forall_const]
      rintro ⟨rfl, rfl, rfl, apart⟩
      exact apart flat
  · rename_i apart
    cases dyNegative with
    | false => simp
    | true =>
      simp only [List.mem_cons, List.not_mem_nil, Place.mk.injEq, Place.dy, Bool.true_eq_false,
        and_false, and_true, or_false, false_or, forall_const]
      refine ⟨?_, fun ⟨sameRadius, sameX, sameZ, _⟩ => ⟨sameRadius, sameX, sameZ⟩⟩
      rintro ⟨rfl, rfl, rfl⟩
      exact ⟨rfl, rfl, rfl, apart⟩

theorem mem_row {radius dx : Int} :
    place ∈ row radius dx ↔ place.radius = radius ∧ place.dx = dx ∧
      |place.dz| ≤ radius - |dx| ∧ (place.dyNegative = true → place.dy ≠ 0) := by
  simp only [row, List.mem_flatMap, mem_interval, mem_column, abs_le]
  constructor
  · rintro ⟨dz, within, sameRadius, sameX, rfl, second⟩
    exact ⟨sameRadius, sameX, within, second⟩
  · rintro ⟨sameRadius, sameX, within, second⟩
    exact ⟨_, within, sameRadius, sameX, rfl, second⟩

theorem mem_shell {radius : Int} :
    place ∈ shell radius ↔ place.radius = radius ∧ |place.dx| ≤ radius ∧
      |place.dz| ≤ radius - |place.dx| ∧ (place.dyNegative = true → place.dy ≠ 0) := by
  simp only [shell, List.mem_flatMap, mem_interval, mem_row, abs_le (a := place.dx)]
  constructor
  · rintro ⟨dx, within, sameRadius, rfl, depth, second⟩
    exact ⟨sameRadius, within, depth, second⟩
  · rintro ⟨sameRadius, within, depth, second⟩
    exact ⟨_, within, sameRadius, rfl, depth, second⟩

/-- The places of a walk are those within its radius that stand for a point. -/
theorem mem_places :
    place ∈ places maxRadius ↔ |place.dx| + |place.dz| ≤ place.radius ∧
      place.radius ≤ maxRadius ∧ (place.dyNegative = true → place.dy ≠ 0) := by
  simp only [places, List.mem_flatMap, mem_interval, mem_shell]
  constructor
  · rintro ⟨radius, within, rfl, width, depth, second⟩
    exact ⟨by omega, within.2, second⟩
  · rintro ⟨inside, within, second⟩
    have width := abs_nonneg place.dx
    have depth := abs_nonneg place.dz
    exact ⟨_, ⟨by omega, within⟩, rfl, by omega, by omega, second⟩

theorem nodup_places : (places maxRadius).Nodup := by
  refine nodup_loop (fun radius _ _ _ mem => (mem_shell.mp mem).1) fun radius _ _ => ?_
  refine nodup_loop (fun dx _ _ _ mem => (mem_row.mp mem).2.1) fun dx _ _ => ?_
  refine nodup_loop (fun dz _ _ _ mem => (mem_column.mp mem).2.2.1) fun dz _ _ => ?_
  unfold column
  split <;> simp

/-- The place of a point. -/
def placeOf (point : Int × Int × Int) : Place where
  radius := norm point
  dx := point.1
  dz := point.2.2
  dyNegative := decide (point.2.1 < 0)

theorem placeOf_point (mem : place ∈ places maxRadius) :
    placeOf place.point = place := by
  obtain ⟨inside, -, second⟩ := mem_places.mp mem
  obtain ⟨radius, dx, dz, dyNegative⟩ := place
  have nonneg : 0 ≤ radius - |dx| - |dz| := by simp only at inside; omega
  cases dyNegative with
  | false =>
    simp only [placeOf, norm, Place.point, Place.dy, Bool.false_eq_true, if_false,
      abs_of_nonneg nonneg, Int.not_lt.mpr nonneg, decide_false, Place.mk.injEq, and_true]
    omega
  | true =>
    have apart := second rfl
    simp only [Place.dy] at apart
    have below : -(radius - |dx| - |dz|) < 0 := by omega
    simp only [placeOf, norm, Place.point, Place.dy, if_true, abs_neg,
      abs_of_nonneg nonneg, below, decide_true, Place.mk.injEq, and_true]
    omega

theorem point_placeOf (point : Int × Int × Int) : (placeOf point).point = point := by
  obtain ⟨x, y, z⟩ := point
  have distance : |x| + |y| + |z| - |x| - |z| = |y| := by omega
  simp only [Place.point, Place.dy, placeOf, norm, distance, decide_eq_true_eq]
  rcases Int.lt_or_le y 0 with below | above
  · rw [if_pos below, abs_of_neg below, neg_neg]
  · rw [if_neg (Int.not_lt.mpr above), abs_of_nonneg above]

/-- The points of the walk in order. -/
def points (maxRadius : Int) : List (Int × Int × Int) := (places maxRadius).map Place.point

theorem mem_points {point : Int × Int × Int} :
    point ∈ points maxRadius ↔ norm point ≤ maxRadius := by
  rw [points, List.mem_map]
  constructor
  · rintro ⟨place, mem, rfl⟩
    have radius : norm place.point = place.radius := congrArg Place.radius (placeOf_point mem)
    rw [radius]
    exact (mem_places.mp mem).2.1
  · refine fun inside => ⟨placeOf point, mem_places.mpr ⟨?_, inside, ?_⟩, point_placeOf point⟩
    · have height := abs_nonneg point.2.1
      simp only [placeOf, norm]
      omega
    · intro negative
      have below : point.2.1 < 0 := of_decide_eq_true negative
      have height := abs_pos.mpr (Int.ne_of_lt below)
      simp only [Place.dy, placeOf, norm]
      omega

theorem nodup_points : (points maxRadius).Nodup :=
  nodup_places.map_on fun _ mem _ mem' same => by
    rw [← placeOf_point mem, same, placeOf_point mem']

theorem pairwise_points :
    (points maxRadius).Pairwise fun point later => norm point ≤ norm later := by
  have ordered : (places (maxRadius : Int)).Pairwise fun place later =>
      place.radius ≤ later.radius :=
    pairwise_tag_loop fun radius _ _ _ mem => (mem_shell.mp mem).1
  refine List.pairwise_map.mpr (ordered.imp_of_mem fun mem mem' le => ?_)
  have radius := congrArg Place.radius (placeOf_point mem)
  have radius' := congrArg Place.radius (placeOf_point mem')
  simp only [placeOf] at radius radius'
  omega

theorem length_points : (points maxRadius).length = (places maxRadius).length :=
  List.length_map _

/-- The points are all points of the octahedron with the radius of the walk. -/
theorem ncard_points :
    {point | norm point ≤ maxRadius}.ncard = (points maxRadius).length := by
  have same : {point | norm point ≤ (maxRadius : Int)} = ((points maxRadius).toFinset : Set _) := by
    ext point
    rw [Finset.mem_coe, List.mem_toFinset, mem_points, Set.mem_ofPred_eq]
  rw [same, Set.ncard_coe_finset, List.toFinset_card_of_nodup nodup_points]

theorem after_fits (count : Nat) :
    0 ≤ (after maxRadius count).radius ∧ (after maxRadius count).radius ≤ maxRadius ∧
      |(after maxRadius count).dx| ≤ maxRadius ∧ |(after maxRadius count).dz| ≤ maxRadius := by
  obtain ⟨place, current, stands⟩ := after_eq maxRadius count
  obtain ⟨inside, within, -⟩ := mem_places.mp (List.mem_of_getElem? current)
  have width := abs_nonneg place.dx
  have depth := abs_nonneg place.dz
  rw [stands]
  exact ⟨by simp only [standing]; omega, within, by simp only [standing]; omega,
    by simp only [standing]; omega⟩

theorem points_getElem? (maxRadius count : Nat) :
    (points maxRadius)[count % (points maxRadius).length]? = some (visited maxRadius count) := by
  obtain ⟨place, current, stands⟩ := after_eq maxRadius count
  rw [length_points, visited, stands, points, List.getElem?_map, current]
  rfl

theorem wrappedAround_after (maxRadius count : Nat) :
    (after maxRadius count).wrappedAround = true ↔ (points maxRadius).length ≤ count := by
  obtain ⟨place, -, stands⟩ := after_eq maxRadius count
  rw [length_points, stands]
  exact decide_eq_true_iff

/-- The walk is through all points within the radius, each once and the nearer ones first; after
the last of them the flag is set and the walk starts again from the origin. -/
theorem visited_points (maxRadius : Nat) :
    ∃ points : List (Int × Int × Int),
      points.length = {point | norm point ≤ (maxRadius : Int)}.ncard ∧
      points.Nodup ∧ (∀ point, point ∈ points ↔ norm point ≤ maxRadius) ∧
      (points.Pairwise fun point later => norm point ≤ norm later) ∧
      points.head? = some (0, 0, 0) ∧
      ∀ count, points[count % points.length]? = some (visited maxRadius count) ∧
        ((after maxRadius count).wrappedAround = true ↔ points.length ≤ count) := by
  have path := places_path (Int.natCast_nonneg maxRadius)
  refine ⟨points maxRadius, ncard_points.symm, nodup_points, fun _ => mem_points, pairwise_points,
    ?_, fun count => ⟨points_getElem? maxRadius count, wrappedAround_after maxRadius count⟩⟩
  rw [points, List.head?_map, path.head]
  rfl

end ConcentricOctahedraWalker

end Voxen
