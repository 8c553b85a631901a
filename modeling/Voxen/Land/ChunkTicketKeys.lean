import Mathlib.Algebra.Order.Ring.Abs
import Mathlib.Data.List.Destutter
import Voxen.Land.ChunkKeyVolumes
import Voxen.Land.ChunkTicket
import Voxen.Util.ConcentricOctahedraWalker

/-!
# The keys of the tickets

When no keys are left to update, a tick collects those of the areas of all tickets. A box stops
below the top of the world and an octahedron does not, and the keys of an octahedron at the end
of the coordinate fields are taken around it; `collectKeys_exact_iff` says when neither is seen.
-/

namespace Voxen.Land

open NestedLoops

namespace ChunkKey

/-- The constructor from 64-bit coordinates; every component is cut to its field. -/
def ofCoordinates (x y z : Int) (scaleLog2 : BitVec 4) : ChunkKey where
  scaleLog2 := scaleLog2
  x := BitVec.ofInt 22 x
  y := BitVec.ofInt 16 y
  z := BitVec.ofInt 22 z

/-- `scaleMultiplier()`. -/
def scaleMultiplier (key : ChunkKey) : Nat := 2 ^ key.scaleLog2.toNat

/-- The height of the key is one of the world. -/
def InWorldHeight (key : ChunkKey) : Prop :=
  Consts.minWorldYChunk ≤ key.y.toInt ∧ key.y.toInt ≤ Consts.maxWorldYChunk

instance (key : ChunkKey) : Decidable key.InWorldHeight := inferInstanceAs (Decidable (_ ∧ _))

/-- `ChunkKey(pivot.base() + scale * offset, pivot.scale_log2)`. -/
def shifted (pivot : ChunkKey) (offset : Int × Int × Int) : ChunkKey :=
  let scale := pivot.scaleMultiplier
  ofBase
    { x := pivot.base.x + BitVec.ofInt 32 (scale * offset.1)
      y := pivot.base.y + BitVec.ofInt 32 (scale * offset.2.1)
      z := pivot.base.z + BitVec.ofInt 32 (scale * offset.2.2) } pivot.scaleLog2.toNat

end ChunkKey

/-! ## The loops -/

/-- The keys of a box, from the bottom or the world's and below the top or the world's last. -/
def boxKeys (lo hi : ChunkKey) : List ChunkKey :=
  let step := lo.scaleMultiplier
  let loY := max lo.y.toInt Consts.minWorldYChunk
  let hiY := min hi.y.toInt Consts.maxWorldYChunk
  (strided step loY hiY).flatMap fun y =>
    (strided step lo.x.toInt hi.x.toInt).flatMap fun x =>
      (strided step lo.z.toInt hi.z.toInt).map fun z =>
        ChunkKey.ofCoordinates x y z lo.scaleLog2

/-- The keys of an octahedron that are in the world, from the place of a walker on; nothing if
the fuel ends before the walk. -/
def octahedronKeys (pivot : ChunkKey) : Nat → ConcentricOctahedraWalker → Option (List ChunkKey)
  | 0, _ => none
  | fuel + 1, cwk =>
    if cwk.wrappedAround then some []
    else
      let (offset, cwk) := cwk.step
      let ck := pivot.shifted offset
      (octahedronKeys pivot fuel cwk).map fun keys =>
        if ck.InWorldHeight then ck :: keys else keys

def areaKeys (fuel : Nat) : ChunkTicketArea → Option (List ChunkKey)
  | .box lo hi => some (boxKeys lo hi)
  | .octahedron pivot scaledRadius => octahedronKeys pivot fuel { maxRadius := scaledRadius.toNat }

/-- The keys of all valid tickets, with duplicates. -/
def ticketKeys (fuel : Nat) : List TicketState → Option (List ChunkKey)
  | [] => some []
  | state :: states =>
    if !state.valid then ticketKeys fuel states
    else do
      let keys ← areaKeys fuel state.area
      let others ← ticketKeys fuel states
      return keys ++ others

/-- `std::sort` of keys, by `operator<`. -/
def sortKeys (keys : List ChunkKey) : List ChunkKey :=
  keys.mergeSort fun key key' => key.packed ≤ key'.packed

/-- The new contents of `m_keys_to_update`: `std::unique` of the sorted keys. -/
def collectKeys (fuel : Nat) (chunkTickets : List TicketState) : Option (List ChunkKey) :=
  (ticketKeys fuel chunkTickets).map fun keys => (sortKeys keys).destutter (· ≠ ·)

/-- The collection ends, with these keys. -/
def Collects (chunkTickets : List TicketState) (keys : List ChunkKey) : Prop :=
  ∃ enough, ∀ fuel, enough ≤ fuel → collectKeys fuel chunkTickets = some keys

/-! ## What is wanted -/

/-- A coordinate of an area along an axis, in steps. -/
def InSteps (step : Nat) (lo hi coordinate : Int) : Prop :=
  lo ≤ coordinate ∧ coordinate < hi ∧ (step : Int) ∣ coordinate - lo

/-- The key is the one at an offset from the pivot. -/
structure IsAt (pivot : ChunkKey) (offset : Int × Int × Int) (key : ChunkKey) : Prop where
  scale : key.scaleLog2 = pivot.scaleLog2
  x : key.x.toInt = pivot.x.toInt + pivot.scaleMultiplier * offset.1
  y : key.y.toInt = pivot.y.toInt + pivot.scaleMultiplier * offset.2.1
  z : key.z.toInt = pivot.z.toInt + pivot.scaleMultiplier * offset.2.2

/-- The area covers the key. -/
def ChunkTicketArea.Covers : ChunkTicketArea → ChunkKey → Prop
  | .box lo hi, key =>
    key.scaleLog2 = lo.scaleLog2 ∧
      InSteps lo.scaleMultiplier lo.x.toInt hi.x.toInt key.x.toInt ∧
      InSteps lo.scaleMultiplier lo.y.toInt hi.y.toInt key.y.toInt ∧
      InSteps lo.scaleMultiplier lo.z.toInt hi.z.toInt key.z.toInt
  | .octahedron pivot scaledRadius, key =>
    ∃ offset, ConcentricOctahedraWalker.norm offset ≤ scaledRadius.toNat ∧ IsAt pivot offset key

/-- A valid ticket covers the key. -/
def Wanted (chunkTickets : List TicketState) (key : ChunkKey) : Prop :=
  ∃ state ∈ chunkTickets, state.valid = true ∧ state.area.Covers key

/-- The keys are those that are wanted in the world, each once. -/
def Exact (chunkTickets : List TicketState) (keys : List ChunkKey) : Prop :=
  keys.Nodup ∧ ∀ key, key ∈ keys ↔ Wanted chunkTickets key ∧ key.InWorldHeight

/-- The keys of the area are valid. -/
def ChunkTicketArea.HasValidKeys : ChunkTicketArea → Prop
  | .box lo hi => lo.valid ∧ hi.valid
  | .octahedron pivot _ => pivot.valid

/-- Valid tickets have areas that pass the validation. -/
def AllValidated (chunkTickets : List TicketState) : Prop :=
  ∀ state ∈ chunkTickets, state.valid = true →
    validateChunkTicketArea state.area = true ∧ state.area.HasValidKeys

/-- The coordinate leaves its field. -/
def LeavesField (w : Nat) (coordinate : Int) : Prop :=
  coordinate < -2 ^ (w - 1) ∨ 2 ^ (w - 1) ≤ coordinate

/-- What the collection misses or takes too much makes no difference: octahedra reach the keys of
boxes at the top of the world, and the keys that octahedra reach around the ends of the fields of
`x` and `z` are covered. -/
structure Unnoticed (chunkTickets : List TicketState) : Prop where
  top : ∀ lo hi, ⟨.box lo hi, true⟩ ∈ chunkTickets → ∀ key,
    (ChunkTicketArea.box lo hi).Covers key → key.y.toInt = Consts.maxWorldYChunk →
    ∃ pivot scaledRadius, ⟨.octahedron pivot scaledRadius, true⟩ ∈ chunkTickets ∧
      ∃ offset, ConcentricOctahedraWalker.norm offset ≤ scaledRadius.toNat ∧
        pivot.shifted offset = key
  around : ∀ pivot scaledRadius, ⟨.octahedron pivot scaledRadius, true⟩ ∈ chunkTickets →
    ∀ offset, ConcentricOctahedraWalker.norm offset ≤ scaledRadius.toNat →
    (LeavesField 22 (pivot.x.toInt + pivot.scaleMultiplier * offset.1) ∨
      LeavesField 22 (pivot.z.toInt + pivot.scaleMultiplier * offset.2.2)) →
    (pivot.shifted offset).InWorldHeight → Wanted chunkTickets (pivot.shifted offset)

/-! ## Boxes -/

section Box

theorem toInt_ofInt_of_fits {w : Nat} (wide : 0 < w) {a : Int} (low : -2 ^ (w - 1) ≤ a)
    (high : a < 2 ^ (w - 1)) : (BitVec.ofInt w a).toInt = a := by
  rw [BitVec.toInt_ofInt]
  exact ChunkKey.bmod_eq_self wide low high

theorem scaleMultiplier_dvd_min {key : ChunkKey}
    (scale : key.scaleLog2.toNat < Consts.numLodScales) :
    (key.scaleMultiplier : Int) ∣ Consts.minWorldYChunk := by
  rw [ChunkKey.scaleMultiplier, Nat.cast_pow, Nat.cast_ofNat, dvd_neg]
  exact pow_dvd_pow 2 (Nat.le_sub_one_of_lt scale)

theorem mem_strided_clipped {step : Nat} (pos : 0 < step) {lo hi y : Int}
    (aligned : (step : Int) ∣ lo) (bottom : (step : Int) ∣ Consts.minWorldYChunk) :
    y ∈ strided step (max lo Consts.minWorldYChunk) (min hi Consts.maxWorldYChunk) ↔
      InSteps step lo hi y ∧ Consts.minWorldYChunk ≤ y ∧ y < Consts.maxWorldYChunk := by
  have start : (step : Int) ∣ max lo Consts.minWorldYChunk := by
    rcases max_choice lo Consts.minWorldYChunk with low | low
    · rwa [low]
    · rwa [low]
  rw [mem_strided pos, InSteps, dvd_sub_left start, dvd_sub_left aligned, max_le_iff, lt_min_iff]
  tauto

theorem mem_boxKeys {lo hi key : ChunkKey} (isValid : lo.valid)
    (scale : lo.scaleLog2.toNat < Consts.numLodScales) :
    key ∈ boxKeys lo hi ↔ (ChunkTicketArea.box lo hi).Covers key ∧
      Consts.minWorldYChunk ≤ key.y.toInt ∧ key.y.toInt < Consts.maxWorldYChunk := by
  have pos : 0 < lo.scaleMultiplier := Nat.two_pow_pos _
  have aligned : (lo.scaleMultiplier : Int) ∣ lo.y.toInt := by
    rw [ChunkKey.scaleMultiplier, Nat.cast_pow]
    exact ((ChunkKey.valid_iff lo).mp isValid).2.1
  have inField : ∀ {x : Int} {lo hi : BitVec 22}, lo.toInt ≤ x → x < hi.toInt →
      (BitVec.ofInt 22 x).toInt = x := fun {x lo hi} low high =>
    toInt_ofInt_of_fits (by decide) (lo.le_toInt.trans low) (high.trans hi.toInt_lt)
  simp only [boxKeys, List.mem_flatMap, List.mem_map,
    mem_strided_clipped pos aligned (scaleMultiplier_dvd_min scale)]
  simp only [mem_strided pos]
  constructor
  · rintro ⟨y, ⟨heights, bottom, top⟩, x, inX, z, inZ, rfl⟩
    have sameX := inField inX.1 inX.2.1
    have sameZ := inField inZ.1 inZ.2.1
    have sameY : (BitVec.ofInt 16 y).toInt = y :=
      toInt_ofInt_of_fits (by decide) (Int.le_trans (by decide) bottom)
        (Int.lt_trans top (by decide))
    simp only [ChunkTicketArea.Covers, ChunkKey.ofCoordinates, sameX, sameY, sameZ, true_and]
    exact ⟨⟨inX, heights, inZ⟩, bottom, top⟩
  · rintro ⟨⟨sameScale, inX, heights, inZ⟩, bottom, top⟩
    refine ⟨_, ⟨heights, bottom, top⟩, _, inX, _, inZ, ?_⟩
    rw [ChunkKey.ofCoordinates, BitVec.ofInt_toInt, BitVec.ofInt_toInt, BitVec.ofInt_toInt,
      ← sameScale]

end Box

/-! ## Octahedra -/

section Octahedron

open ConcentricOctahedraWalker

variable {pivot : ChunkKey} {scaledRadius : Nat}

/-- A walk that still has some points to visit collects those in the world. -/
theorem octahedronKeys_eq {visits done fuel : Nat}
    (total : done + visits = (points scaledRadius).length) (enough : visits < fuel) :
    octahedronKeys pivot fuel (after scaledRadius done) =
      some ((((points scaledRadius).drop done).map pivot.shifted).filter
        fun key => key.InWorldHeight) := by
  induction visits generalizing done fuel with
  | zero =>
    obtain ⟨fuel, rfl⟩ := Nat.exists_eq_succ_of_ne_zero (Nat.ne_of_gt enough)
    have past : (points scaledRadius).length ≤ done := total.ge
    rw [octahedronKeys, if_pos ((wrappedAround_after scaledRadius done).mpr past),
      List.drop_eq_nil_of_le past]
    rfl
  | succ visits ih =>
    obtain ⟨fuel, rfl⟩ := Nat.exists_eq_succ_of_ne_zero (Nat.ne_zero_of_lt enough)
    have inside : done < (points scaledRadius).length := by omega
    have walking : ¬ (after scaledRadius done).wrappedAround = true := fun wrapped =>
      Nat.not_lt.mpr ((wrappedAround_after scaledRadius done).mp wrapped) inside
    have next := points_getElem? scaledRadius done
    rw [Nat.mod_eq_of_lt inside, List.getElem?_eq_getElem inside] at next
    have following : done + 1 + visits = (points scaledRadius).length := by omega
    have rest : octahedronKeys pivot fuel (after scaledRadius done).step.2 = _ :=
      ih following (by omega)
    rw [octahedronKeys, if_neg walking, List.drop_eq_getElem_cons inside, Option.some.inj next,
      List.map_cons, List.filter_cons]
    simp only [rest, Option.map_some, decide_eq_true_eq]
    rfl

theorem octahedronKeys_exists (pivot : ChunkKey) (scaledRadius : Nat) :
    ∃ keys enough, (∀ fuel, enough ≤ fuel →
        octahedronKeys pivot fuel { maxRadius := scaledRadius } = some keys) ∧
      ∀ key, key ∈ keys ↔ key.InWorldHeight ∧
        ∃ offset, ConcentricOctahedraWalker.norm offset ≤ scaledRadius ∧
          pivot.shifted offset = key := by
  refine ⟨_, (points scaledRadius).length + 1,
    fun fuel enough => octahedronKeys_eq (Nat.zero_add _) enough, fun key => ?_⟩
  rw [List.drop_zero, List.mem_filter, List.mem_map, decide_eq_true_eq, and_comm]
  simp only [mem_points]

theorem toInt_shifted {w : Nat} (narrow : w ≤ 32) (coordinate : BitVec w) (distance : Int) :
    ((coordinate.signExtend 32 + BitVec.ofInt 32 distance).setWidth w).toInt =
      (coordinate.toInt + distance).bmod (2 ^ w) := by
  rw [ChunkKey.toInt_setWidth_eq _ narrow, BitVec.toInt_add,
    BitVec.toInt_signExtend_of_le narrow, BitVec.toInt_ofInt, Int.add_bmod_bmod]
  exact Int.bmod_bmod_of_dvd (pow_dvd_pow 2 narrow)

theorem shifted_scaleLog2 (pivot : ChunkKey) (offset : Int × Int × Int) :
    (pivot.shifted offset).scaleLog2 = pivot.scaleLog2 :=
  (BitVec.ofNat_toNat 4 _).trans (BitVec.setWidth_eq _)

variable {offset : Int × Int × Int}

theorem shifted_of_isAt {key : ChunkKey} (isAt : IsAt pivot offset key) :
    pivot.shifted offset = key := by
  have coordinate : ∀ {w : Nat} (own : BitVec w) {pivot distance : Int}, 0 < w →
      own.toInt = pivot + distance → (pivot + distance).bmod (2 ^ w) = own.toInt := by
    intro w own pivot distance wide place
    rw [← place]
    exact ChunkKey.bmod_eq_self wide own.le_toInt own.toInt_lt
  obtain ⟨scale, x, y, z⟩ := key
  have sameScale := (shifted_scaleLog2 pivot offset).trans isAt.scale.symm
  refine (ChunkKey.mk.injEq ..).mpr ⟨sameScale, ?_, ?_, ?_⟩
  · exact BitVec.eq_of_toInt_eq
      ((toInt_shifted (by decide) _ _).trans (coordinate x (by decide) isAt.x))
  · exact BitVec.eq_of_toInt_eq
      ((toInt_shifted (by decide) _ _).trans (coordinate y (by decide) isAt.y))
  · exact BitVec.eq_of_toInt_eq
      ((toInt_shifted (by decide) _ _).trans (coordinate z (by decide) isAt.z))

/-- The heights of an octahedron are too near to its pivot to come around into the world. -/
theorem height_of_inWorld {height distance : Int} (low : -2 ^ 15 ≤ height)
    (high : height < 2 ^ 15) (near : |distance| ≤ 2 ^ 12)
    (bottom : Consts.minWorldYChunk ≤ (height + distance).bmod (2 ^ 16))
    (top : (height + distance).bmod (2 ^ 16) ≤ Consts.maxWorldYChunk) :
    (height + distance).bmod (2 ^ 16) = height + distance := by
  obtain ⟨above, below⟩ := abs_le.mp near
  have limits : Consts.minWorldYChunk = -256 ∧ Consts.maxWorldYChunk = 255 := by decide
  rw [limits.1] at bottom
  rw [limits.2] at top
  simp only [Int.bmod, Nat.reducePow, Nat.cast_ofNat, Int.reduceAdd, Int.reduceDiv] at bottom top ⊢
  split_ifs at bottom top ⊢ <;> omega

theorem distance_near (inside : ConcentricOctahedraWalker.norm offset ≤ scaledRadius)
    (small : scaledRadius ≤ Consts.maxTicketOctaAreaRadius)
    (scale : pivot.scaleLog2.toNat < Consts.numLodScales) :
    |(pivot.scaleMultiplier * offset.2.1 : Int)| ≤ 2 ^ 12 := by
  have width := abs_nonneg offset.1
  have depth := abs_nonneg offset.2.2
  have height : |offset.2.1| ≤ 2 ^ 4 := by
    have radius : (scaledRadius : Int) ≤ 16 := by exact_mod_cast small
    simp only [ConcentricOctahedraWalker.norm] at inside
    omega
  have factor : (pivot.scaleMultiplier : Int) ≤ 2 ^ 8 := by
    rw [ChunkKey.scaleMultiplier, Nat.cast_pow]
    exact pow_le_pow_right₀ (by decide) (Nat.le_sub_one_of_lt scale)
  rw [abs_mul, Nat.abs_cast]
  calc (pivot.scaleMultiplier : Int) * |offset.2.1|
      ≤ 2 ^ 8 * 2 ^ 4 := mul_le_mul factor height (abs_nonneg _) (by decide)
    _ = 2 ^ 12 := by decide

theorem isAt_shifted (inside : ConcentricOctahedraWalker.norm offset ≤ scaledRadius)
    (small : scaledRadius ≤ Consts.maxTicketOctaAreaRadius)
    (scale : pivot.scaleLog2.toNat < Consts.numLodScales)
    (inX : ¬ LeavesField 22 (pivot.x.toInt + pivot.scaleMultiplier * offset.1))
    (inZ : ¬ LeavesField 22 (pivot.z.toInt + pivot.scaleMultiplier * offset.2.2))
    (inWorld : (pivot.shifted offset).InWorldHeight) :
    IsAt pivot offset (pivot.shifted offset) := by
  have stays : ∀ {coordinate : Int}, ¬ LeavesField 22 coordinate →
      coordinate.bmod (2 ^ 22) = coordinate := by
    intro coordinate inField
    rw [LeavesField, not_or, not_lt, not_le] at inField
    exact ChunkKey.bmod_eq_self (by decide) inField.1 inField.2
  have height : (pivot.shifted offset).y.toInt = _ := toInt_shifted (by decide) pivot.y _
  rw [ChunkKey.InWorldHeight, height] at inWorld
  exact {
    scale := shifted_scaleLog2 pivot offset
    x := (toInt_shifted (by decide) pivot.x _).trans (stays inX)
    y := height.trans (height_of_inWorld pivot.y.le_toInt pivot.y.toInt_lt
      (distance_near inside small scale) inWorld.1 inWorld.2)
    z := (toInt_shifted (by decide) pivot.z _).trans (stays inZ) }

end Octahedron

/-! ## All tickets -/

/-- The loop of the area adds the key. -/
def ChunkTicketArea.Adds : ChunkTicketArea → ChunkKey → Prop
  | .box lo hi, key =>
    (ChunkTicketArea.box lo hi).Covers key ∧
      Consts.minWorldYChunk ≤ key.y.toInt ∧ key.y.toInt < Consts.maxWorldYChunk
  | .octahedron pivot scaledRadius, key =>
    key.InWorldHeight ∧ ∃ offset, ConcentricOctahedraWalker.norm offset ≤ scaledRadius.toNat ∧
      pivot.shifted offset = key

theorem validate_box {lo hi : ChunkKey} (good : validateChunkTicketArea (.box lo hi) = true) :
    lo.scaleLog2.toNat < Consts.numLodScales := by
  by_contra large
  rw [validateChunkTicketArea, if_pos (Nat.not_lt.mp large)] at good
  cases good

theorem validate_octahedron {pivot : ChunkKey} {scaledRadius : BitVec 8}
    (good : validateChunkTicketArea (.octahedron pivot scaledRadius) = true) :
    pivot.scaleLog2.toNat < Consts.numLodScales ∧
      scaledRadius.toNat ≤ Consts.maxTicketOctaAreaRadius := by
  rw [validateChunkTicketArea] at good
  split at good
  · cases good
  · rename_i small
    simp only [Bool.not_eq_true', Bool.or_eq_false_iff, decide_eq_false_iff_not] at good
    exact ⟨Nat.not_le.mp small, Nat.not_lt.mp good.2⟩

theorem areaKeys_exists {area : ChunkTicketArea} (good : validateChunkTicketArea area = true)
    (validKeys : area.HasValidKeys) :
    ∃ keys enough, (∀ fuel, enough ≤ fuel → areaKeys fuel area = some keys) ∧
      ∀ key, key ∈ keys ↔ area.Adds key := by
  cases area with
  | box lo hi =>
    exact ⟨_, 0, fun _ _ => rfl, fun key => mem_boxKeys validKeys.1 (validate_box good)⟩
  | octahedron pivot scaledRadius => exact octahedronKeys_exists pivot scaledRadius.toNat

theorem ticketKeys_exists {chunkTickets : List TicketState}
    (validated : AllValidated chunkTickets) :
    ∃ keys enough, (∀ fuel, enough ≤ fuel → ticketKeys fuel chunkTickets = some keys) ∧
      ∀ key, key ∈ keys ↔
        ∃ state ∈ chunkTickets, state.valid = true ∧ state.area.Adds key := by
  induction chunkTickets with
  | nil => exact ⟨[], 0, fun _ _ => rfl, fun key => by simp⟩
  | cons state states ih =>
    obtain ⟨others, enough, rest, mem⟩ := ih fun other inRest => validated other (.tail _ inRest)
    by_cases valid : state.valid = true
    · obtain ⟨good, validKeys⟩ := validated state (.head _) valid
      obtain ⟨keys, enough', own, memOwn⟩ := areaKeys_exists good validKeys
      refine ⟨keys ++ others, max enough enough', fun fuel le => ?_, fun key => ?_⟩
      · rw [ticketKeys, valid, own fuel (le_of_max_le_right le), rest fuel (le_of_max_le_left le)]
        rfl
      · rw [List.mem_append, memOwn, mem, List.exists_mem_cons_iff]
        simp only [valid, true_and]
    · refine ⟨others, enough, fun fuel le => ?_, fun key => ?_⟩
      · rw [ticketKeys, Bool.eq_false_iff.mpr valid]
        exact rest fuel le
      · rw [mem, List.exists_mem_cons_iff]
        simp only [valid, false_and, false_or, Bool.false_eq_true]

/-- The order of `operator<`, as one that allows equal keys. -/
def KeyLe (key key' : ChunkKey) : Prop := key.packed ≤ key'.packed

instance : Std.Antisymm KeyLe where
  antisymm _ _ le ge := ChunkKey.packed_injective (BitVec.le_antisymm le ge)

theorem pairwise_sortKeys (keys : List ChunkKey) : (sortKeys keys).Pairwise KeyLe := by
  refine (List.pairwise_mergeSort (fun first second third le le' => ?_)
    (fun first second => ?_) keys : (sortKeys keys).Pairwise _).imp of_decide_eq_true
  · exact decide_eq_true (BitVec.le_trans (of_decide_eq_true le) (of_decide_eq_true le'))
  · simp only [Bool.or_eq_true, decide_eq_true_eq]
    exact BitVec.le_total first.packed second.packed

theorem collects_exists {chunkTickets : List TicketState} (validated : AllValidated chunkTickets) :
    ∃ keys, Collects chunkTickets keys ∧ keys.Nodup ∧ ∀ key, key ∈ keys ↔
      ∃ state ∈ chunkTickets, state.valid = true ∧ state.area.Adds key := by
  obtain ⟨keys, enough, ends, mem⟩ := ticketKeys_exists validated
  refine ⟨_, ⟨enough, fun fuel le => ?_⟩, List.nodup_dedup (sortKeys keys), fun key => ?_⟩
  · rw [collectKeys, ends fuel le, Option.map_some, (pairwise_sortKeys keys).destutter_eq_dedup]
  · rw [List.mem_dedup, sortKeys, List.mem_mergeSort, mem]

/-- The collection ends with the keys wanted, each once, exactly if what it misses or takes too
much makes no difference. -/
theorem collectKeys_exact_iff {chunkTickets : List TicketState}
    (validated : AllValidated chunkTickets) :
    ∃ keys, Collects chunkTickets keys ∧ (Exact chunkTickets keys ↔ Unnoticed chunkTickets) := by
  obtain ⟨keys, ends, nodup, mem⟩ := collects_exists validated
  refine ⟨keys, ends, fun exact => ⟨?_, ?_⟩, fun unnoticed => ⟨nodup, fun key => ⟨?_, ?_⟩⟩⟩
  · intro lo hi isTicket key covers top
    have inWorld : key.InWorldHeight := by rw [ChunkKey.InWorldHeight, top]; decide
    obtain ⟨⟨area, valid⟩, isTicket', rfl, adds⟩ :=
      (mem key).mp ((exact.2 key).mpr ⟨⟨_, isTicket, rfl, covers⟩, inWorld⟩)
    cases area with
    | box lo' hi' => exact absurd top (Int.ne_of_lt adds.2.2)
    | octahedron pivot scaledRadius => exact ⟨pivot, scaledRadius, isTicket', adds.2⟩
  · intro pivot scaledRadius isTicket offset inside _ inWorld
    have taken := (mem _).mpr ⟨_, isTicket, rfl, inWorld, offset, inside, rfl⟩
    exact ((exact.2 _).mp taken).1
  · intro taken
    obtain ⟨⟨area, valid⟩, isTicket, rfl, adds⟩ := (mem key).mp taken
    cases area with
    | box lo hi => exact ⟨⟨_, isTicket, rfl, adds.1⟩, adds.2.1, adds.2.2.le⟩
    | octahedron pivot scaledRadius =>
      obtain ⟨inWorld, offset, inside, rfl⟩ := adds
      refine ⟨?_, inWorld⟩
      by_cases leaves : LeavesField 22 (pivot.x.toInt + pivot.scaleMultiplier * offset.1) ∨
          LeavesField 22 (pivot.z.toInt + pivot.scaleMultiplier * offset.2.2)
      · exact unnoticed.around pivot scaledRadius isTicket offset inside leaves inWorld
      · obtain ⟨scale, small⟩ := validate_octahedron (validated _ isTicket rfl).1
        obtain ⟨inX, inZ⟩ := not_or.mp leaves
        exact ⟨_, isTicket, rfl, offset, inside,
          isAt_shifted inside small scale inX inZ inWorld⟩
  · rintro ⟨⟨⟨area, valid⟩, isTicket, rfl, covers⟩, inWorld⟩
    cases area with
    | box lo hi =>
      rcases Int.lt_or_eq_of_le inWorld.2 with below | top
      · exact (mem key).mpr ⟨_, isTicket, rfl, covers, inWorld.1, below⟩
      · obtain ⟨pivot, scaledRadius, isTicket', reached⟩ :=
          unnoticed.top lo hi isTicket key covers top
        exact (mem key).mpr ⟨_, isTicket', rfl, inWorld, reached⟩
    | octahedron pivot scaledRadius =>
      obtain ⟨offset, inside, isAt⟩ := covers
      exact (mem key).mpr ⟨_, isTicket, rfl, inWorld, offset, inside, shifted_of_isAt isAt⟩

/-- A ticket for one chunk at the top of the world. -/
def topTickets : List TicketState := [⟨.box ⟨0, 0, 255, 0⟩ ⟨0, 1, 256, 1⟩, true⟩]

theorem topTickets_allValidated : AllValidated topTickets := by
  rintro state inList -
  rw [List.mem_singleton.mp inList]
  exact ⟨by decide, by decide, by decide⟩

theorem topTickets_iff :
    ∃ keys, Collects topTickets keys ∧ (Exact topTickets keys ↔ Unnoticed topTickets) :=
  collectKeys_exact_iff topTickets_allValidated

/-- The only key of this ticket is not collected. -/
theorem topChunk_missed :
    ¬ ∀ chunkTickets, AllValidated chunkTickets →
      ∃ keys, Collects chunkTickets keys ∧ Exact chunkTickets keys := by
  intro always
  obtain ⟨keys, ⟨enough, ends⟩, -, mem⟩ := always topTickets topTickets_allValidated
  have nothing : ticketKeys enough topTickets = some [] := by
    rw [topTickets, ticketKeys, ticketKeys, areaKeys, show boxKeys _ _ = [] by decide]
    rfl
  have keysEq : keys = [] := by
    have collected := ends enough (Nat.le_refl enough)
    rw [collectKeys, nothing, Option.map_some, sortKeys, List.mergeSort_nil] at collected
    exact (Option.some.inj collected).symm
  have wanted : Wanted topTickets ⟨0, 0, 255, 0⟩ := by
    refine ⟨_, .head _, rfl, rfl, ?_, ?_, ?_⟩
    all_goals exact ⟨by decide, by decide, by decide⟩
  rw [keysEq] at mem
  exact List.not_mem_nil ((mem _).mpr ⟨wanted, by decide, by decide⟩)

end Voxen.Land
