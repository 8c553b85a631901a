import Mathlib.Data.Int.Interval
import Mathlib.Tactic.Ring

/-!
# Nested loops as paths

A loop over an interval of integers whose body is a path of steps is itself a path, if the end
of the body for each integer leads to its start for the next one. So a walk that keeps its
place in nested loops is one path through all places.
-/

namespace NestedLoops

variable {β : Type}

/-- The integers from `first` to `last`, in order. -/
def interval (first last : Int) : List Int :=
  (List.range (last + 1 - first).toNat).map fun (i : Nat) => first + (i : Int)

@[simp]
theorem mem_interval {first last x : Int} : x ∈ interval first last ↔ first ≤ x ∧ x ≤ last := by
  rw [interval, List.mem_map]
  constructor
  · rintro ⟨i, mem, rfl⟩
    have low := List.mem_range.mp mem
    omega
  · rintro ⟨low, high⟩
    exact ⟨(x - first).toNat, List.mem_range.mpr (by omega), by omega⟩

/-- An interval is its first integer and the rest. -/
theorem interval_cons {first last : Int} (le : first ≤ last) :
    interval first last = first :: interval (first + 1) last := by
  have size : (last + 1 - first).toNat = (last + 1 - (first + 1)).toNat + 1 := by omega
  rw [interval, interval, size, List.range_succ_eq_map, List.map_cons, List.map_map]
  congr 1
  · omega
  · refine List.map_congr_left fun i _ => ?_
    simp only [Function.comp_apply, Nat.succ_eq_add_one, Nat.cast_add, Nat.cast_one]
    omega

theorem interval_single (first : Int) : interval first first = [first] := by
  have empty : (first + 1 - (first + 1)).toNat = 0 := by omega
  rw [interval_cons (Int.le_refl first), interval, empty]
  rfl

theorem pairwise_interval (first last : Int) : (interval first last).Pairwise (· < ·) := by
  refine List.pairwise_map.mpr (List.pairwise_lt_range.imp fun less => ?_)
  omega

/-- The values of `i` in `for (i = first; i < last; i += stride)`. -/
def strided (stride : Nat) (first last : Int) : List Int :=
  (List.range (((last - first).toNat + stride - 1) / stride)).map fun (i : Nat) =>
    first + ((i * stride : Nat) : Int)

theorem mem_strided {stride : Nat} (pos : 0 < stride) {first last x : Int} :
    x ∈ strided stride first last ↔ first ≤ x ∧ x < last ∧ (stride : Int) ∣ x - first := by
  have below : ∀ i, i < ((last - first).toNat + stride - 1) / stride ↔
      i * stride < (last - first).toNat := by
    intro i
    rw [Nat.lt_iff_add_one_le, Nat.le_div_iff_mul_le pos, Nat.succ_mul]
    omega
  rw [strided, List.mem_map]
  constructor
  · rintro ⟨i, mem, rfl⟩
    have less := (below i).mp (List.mem_range.mp mem)
    refine ⟨by omega, by omega, (i : Int), ?_⟩
    rw [Nat.cast_mul]
    ring
  · rintro ⟨low, high, turns, distance⟩
    have nonneg : 0 ≤ turns := by
      refine Int.nonneg_of_mul_nonneg_right (a := stride) ?_ (by exact_mod_cast pos)
      omega
    obtain ⟨i, rfl⟩ := Int.eq_ofNat_of_zero_le nonneg
    have place : ((i * stride : Nat) : Int) = x - first := by
      rw [distance, Nat.cast_mul, mul_comm]
    exact ⟨i, List.mem_range.mpr ((below i).mpr (by omega)), by omega⟩

section Tags

variable {body : Int → List β} {tag : β → Int} {low high : Int}
  (tagged : ∀ x, low ≤ x → x ≤ high → ∀ place ∈ body x, tag place = x)

include tagged

/-- Bodies that can be told apart have no place in common. -/
theorem nodup_loop (distinct : ∀ x, low ≤ x → x ≤ high → (body x).Nodup) :
    ((interval low high).flatMap body).Nodup := by
  refine List.nodup_flatMap.mpr ⟨fun x mem => ?_, ?_⟩
  · obtain ⟨above, under⟩ := mem_interval.mp mem
    exact distinct x above under
  · refine (pairwise_interval low high).imp_of_mem fun memX memY less place inX inY => ?_
    obtain ⟨aboveX, underX⟩ := mem_interval.mp memX
    obtain ⟨aboveY, underY⟩ := mem_interval.mp memY
    have here := tagged _ aboveX underX place inX
    have there := tagged _ aboveY underY place inY
    omega

/-- The tags are in order. -/
theorem pairwise_tag_loop :
    ((interval low high).flatMap body).Pairwise fun place later => tag place ≤ tag later := by
  refine List.pairwise_flatMap.mpr ⟨fun x mem => ?_, ?_⟩
  · obtain ⟨above, under⟩ := mem_interval.mp mem
    refine List.pairwise_of_forall_mem_list fun place inBody later inBody' => ?_
    rw [tagged x above under place inBody, tagged x above under later inBody']
  · refine (pairwise_interval low high).imp_of_mem fun memX memY less place inX later inY => ?_
    obtain ⟨aboveX, underX⟩ := mem_interval.mp memX
    obtain ⟨aboveY, underY⟩ := mem_interval.mp memY
    rw [tagged _ aboveX underX place inX, tagged _ aboveY underY later inY]
    exact Int.le_of_lt less

end Tags

/-- The list leads from `first` to `last` by steps. -/
structure Path (step : β → β → Prop) (places : List β) (first last : β) : Prop where
  chain : places.IsChain step
  head : places.head? = some first
  ending : places.getLast? = some last

variable {step : β → β → Prop} {places places' : List β} {first last first' last' : β}

theorem Path.single (place : β) : Path step [place] place place :=
  ⟨List.isChain_singleton place, rfl, rfl⟩

/-- One path after the other. -/
theorem Path.append (path : Path step places first last)
    (path' : Path step places' first' last') (link : step last first') :
    Path step (places ++ places') first last' where
  chain := by
    refine List.isChain_append.mpr ⟨path.chain, path'.chain, ?_⟩
    rw [path.ending, path'.head]
    rintro _ ⟨⟩ _ ⟨⟩
    exact link
  head := by rw [List.head?_append, path.head]; rfl
  ending := by rw [List.getLast?_append, path'.ending]; rfl

/-- A loop whose body is a path is one. -/
theorem Path.loop {body : Int → List β} {start finish : Int → β} {low high : Int}
    (le : low ≤ high)
    (paths : ∀ x, low ≤ x → x ≤ high → Path step (body x) (start x) (finish x))
    (links : ∀ x, low ≤ x → x < high → step (finish x) (start (x + 1))) :
    Path step ((interval low high).flatMap body) (start low) (finish high) := by
  obtain ⟨count, rfl⟩ : ∃ count : Nat, high = low + count := ⟨(high - low).toNat, by omega⟩
  induction count generalizing low with
  | zero =>
    have only : low + ((0 : Nat) : Int) = low := by omega
    rw [only, interval_single, List.flatMap_singleton]
    exact paths low (Int.le_refl low) (by omega)
  | succ count ih =>
    have shifted : low + ((count + 1 : Nat) : Int) = low + 1 + (count : Int) := by omega
    rw [shifted] at paths links ⊢
    rw [interval_cons (by omega), List.flatMap_cons]
    refine Path.append (paths low (Int.le_refl low) (by omega)) (ih (by omega) ?_ ?_)
      (links low (Int.le_refl low) (by omega))
    · exact fun x above below => paths x (by omega) below
    · exact fun x above below => links x (by omega) below

/-- The places of a path in order. -/
theorem Path.step_getElem (path : Path step places first last) {i : Nat}
    (inside : i + 1 < places.length) : step places[i] places[i + 1] :=
  List.isChain_iff_getElem.mp path.chain i inside

theorem Path.getElem_zero (path : Path step places first last) (nonempty : 0 < places.length) :
    places[0] = first := by
  have head := path.head
  rw [List.head?_eq_getElem?, List.getElem?_eq_getElem nonempty] at head
  exact Option.some.inj head

theorem Path.getElem_last (path : Path step places first last)
    (inside : places.length - 1 < places.length) : places[places.length - 1] = last := by
  have ending := path.ending
  rw [List.getLast?_eq_getElem?, List.getElem?_eq_getElem inside] at ending
  exact Option.some.inj ending

end NestedLoops
