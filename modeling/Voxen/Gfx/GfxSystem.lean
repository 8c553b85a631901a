import Mathlib.Data.List.Basic

/-!
# Selection of the GPU

One pass over the devices gathers a candidate of each kind, and stops early at a preferred or at a
discrete device.  The candidates are then tried in the order of preference.
-/

namespace Voxen.Gfx.GfxSystem

/-- `VkPhysicalDeviceType`. -/
inductive PhysicalDeviceType where
  | other
  | integratedGpu
  | discreteGpu
  | virtualGpu
  | cpu
deriving DecidableEq, Repr

/-- What the selection reads of a `vk::PhysicalDevice`. -/
structure PhysicalDevice where
  deviceName : String
  deviceType : PhysicalDeviceType
  /-- `Device::isSupported(gpu)`. -/
  isSupported : Bool
deriving DecidableEq, Repr

/-- The pointers of `selectGpu`, as positions in the span. -/
structure Candidates where
  preferred : Option Nat := none
  discrete : Option Nat := none
  integrated : Option Nat := none
  other : Option Nat := none
deriving DecidableEq, Repr

section Selection

-- `RuntimeConfig::instance().gfxConfig().preferredGpuName()`
variable (preferredGpuName : String)

/-- The loop of `selectGpu` from a position of the span on. -/
def search : List PhysicalDevice → Nat → Candidates → Candidates
  | [], _, candidates => candidates
  | gpu :: gpus, position, candidates =>
    if ¬ gpu.isSupported then search gpus (position + 1) candidates
    else if gpu.deviceName = preferredGpuName then
      { candidates with preferred := some position }
    else if gpu.deviceType = .discreteGpu then { candidates with discrete := some position }
    else if gpu.deviceType = .integratedGpu then
      search gpus (position + 1) { candidates with integrated := some position }
    else if candidates.other.isNone then
      search gpus (position + 1) { candidates with other := some position }
    else search gpus (position + 1) candidates

/-- The candidate that is chosen. -/
def Candidates.chosen (candidates : Candidates) : Option Nat :=
  match candidates.preferred with
  | some position => some position
  | none =>
    match candidates.discrete with
    | some position => some position
    | none =>
      match candidates.integrated with
      | some position => some position
      | none => candidates.other

/-- `selectGpu(gpus)`; `none` is a null pointer. -/
def selectGpu (gpus : List PhysicalDevice) : Option Nat :=
  if gpus.isEmpty then none else (search preferredGpuName gpus 0 {}).chosen

/-! ## Kinds of devices -/

/-- The user prefers the device. -/
def isPreferred (gpu : PhysicalDevice) : Bool :=
  gpu.isSupported && gpu.deviceName == preferredGpuName

end Selection

def isDiscrete (gpu : PhysicalDevice) : Bool :=
  gpu.isSupported && gpu.deviceType == .discreteGpu

def isIntegrated (gpu : PhysicalDevice) : Bool :=
  gpu.isSupported && gpu.deviceType == .integratedGpu

/-- The position holds a device of a kind. -/
def Holds (gpus : List PhysicalDevice) (kind : PhysicalDevice → Bool) (position : Nat) : Prop :=
  ∃ gpu, gpus[position]? = some gpu ∧ kind gpu = true

/-- The order of preference: the preferred device, the first discrete one, some integrated one, the
first one of another type. -/
structure Prioritized (preferredGpuName : String) (gpus : List PhysicalDevice)
    (selected : Option Nat) : Prop where
  preferred : gpus.any (isPreferred preferredGpuName) = true →
    ∃ position, selected = some position ∧ Holds gpus (isPreferred preferredGpuName) position
  discrete : gpus.any (isPreferred preferredGpuName) = false →
    gpus.any isDiscrete = true → selected = gpus.findIdx? isDiscrete
  integrated : gpus.any (isPreferred preferredGpuName) = false →
    gpus.any isDiscrete = false → gpus.any isIntegrated = true →
    ∃ position, selected = some position ∧ Holds gpus isIntegrated position
  other : gpus.any (isPreferred preferredGpuName) = false →
    gpus.any isDiscrete = false → gpus.any isIntegrated = false →
    selected = gpus.findIdx? PhysicalDevice.isSupported
  null : selected = none ↔ gpus.any PhysicalDevice.isSupported = false

/-- No discrete device is listed before the first preferred one. -/
def PreferredFirst (preferredGpuName : String) (gpus : List PhysicalDevice) : Prop :=
  ∀ position, gpus.findIdx? (isPreferred preferredGpuName) = some position →
    (gpus.take position).any isDiscrete = false

/-! ## The loop -/

/-- The loop stops at the device. -/
def stops (preferredGpuName : String) (gpu : PhysicalDevice) : Bool :=
  isPreferred preferredGpuName gpu || isDiscrete gpu

/-- The device is a candidate of the last kind. -/
def isOther (gpu : PhysicalDevice) : Bool :=
  gpu.isSupported && gpu.deviceType != .integratedGpu

section Loop

variable {preferredGpuName : String} {gpu : PhysicalDevice}
  {gpus before after : List PhysicalDevice}
  {position : Nat} {candidates : Candidates}

theorem search_pass (passes : stops preferredGpuName gpu = false) :
    search preferredGpuName (gpu :: gpus) position candidates =
      search preferredGpuName gpus (position + 1)
        { candidates with
          integrated := if isIntegrated gpu then some position else candidates.integrated
          other := if isOther gpu then candidates.other.or (some position)
            else candidates.other } := by
  obtain ⟨name, type, supported⟩ := gpu
  cases supported with
  | false => simp [search, isIntegrated, isOther]
  | true =>
    simp only [stops, isPreferred, isDiscrete, Bool.true_and, Bool.or_eq_false_iff,
      beq_eq_false_iff_ne] at passes
    rw [search, if_neg (by simp), if_neg passes.1, if_neg passes.2]
    obtain ⟨preferred, discrete, integrated, other⟩ := candidates
    cases other <;> by_cases kind : type = .integratedGpu <;>
      simp [isIntegrated, isOther, kind]

theorem search_stop (stop : stops preferredGpuName gpu = true) :
    search preferredGpuName (gpu :: gpus) position candidates =
      if isPreferred preferredGpuName gpu then { candidates with preferred := some position }
      else { candidates with discrete := some position } := by
  obtain ⟨name, type, supported⟩ := gpu
  cases supported with
  | false => simp [stops, isPreferred, isDiscrete] at stop
  | true =>
    simp only [stops, isPreferred, isDiscrete, Bool.true_and, Bool.or_eq_true,
      beq_iff_eq] at stop
    rw [search, if_neg (by simp)]
    by_cases named : name = preferredGpuName
    · simp [isPreferred, named]
    · simp [isPreferred, named, stop.resolve_left named]

theorem search_append (pass : ∀ gpu ∈ before, stops preferredGpuName gpu = false) :
    ∃ integrated, search preferredGpuName (before ++ after) position candidates =
        search preferredGpuName after (position + before.length)
          { candidates with
            integrated := integrated
            other := candidates.other.or
              ((before.findIdx? isOther).map fun index => position + index) } ∧
      ((before.any isIntegrated = false ∧ integrated = candidates.integrated) ∨
        ∃ index, integrated = some (position + index) ∧ Holds before isIntegrated index) := by
  induction before generalizing position candidates with
  | nil => exact ⟨candidates.integrated, by simp, Or.inl ⟨rfl, rfl⟩⟩
  | cons gpu before ih =>
    rw [List.cons_append, search_pass (pass gpu List.mem_cons_self)]
    obtain ⟨integrated, result, found⟩ := @ih (position + 1)
      { candidates with
        integrated := if isIntegrated gpu then some position else candidates.integrated
        other := if isOther gpu then candidates.other.or (some position)
          else candidates.other }
      (fun other mem => pass other (List.mem_cons_of_mem _ mem))
    refine ⟨integrated, ?_, ?_⟩
    · rw [result, List.length_cons, Nat.add_right_comm position 1, Nat.add_assoc position]
      congr 2
      by_cases kind : isOther gpu = true
      · cases candidates.other <;> simp [kind, List.findIdx?_cons]
      · rw [if_neg kind, List.findIdx?_cons, if_neg kind, Option.map_map]
        congr 2
        funext index
        exact Nat.add_right_comm position 1 index
    · rcases found with ⟨noneLater, same⟩ | ⟨index, same, other, at_index, kind⟩
      · by_cases kind : isIntegrated gpu = true
        · refine Or.inr ⟨0, ?_, gpu, rfl, kind⟩
          rw [same, Nat.add_zero]
          exact if_pos kind
        · refine Or.inl ⟨?_, same.trans (if_neg kind)⟩
          rw [List.any_cons, noneLater, Bool.or_false]
          exact eq_false_of_ne_true kind
      · exact Or.inr ⟨index + 1, by rw [same]; congr 1; omega, other, at_index, kind⟩

/-- Without a device that stops the loop, an integrated one is taken, or else the first other. -/
theorem selectGpu_pass (pass : ∀ gpu ∈ gpus, stops preferredGpuName gpu = false) :
    (gpus.any isIntegrated = false ∧
        selectGpu preferredGpuName gpus = gpus.findIdx? isOther) ∨
      ∃ index, selectGpu preferredGpuName gpus = some index ∧ Holds gpus isIntegrated index := by
  obtain ⟨integrated, result, found⟩ :=
    @search_append _ _ [] 0 {} pass
  rw [List.append_nil] at result
  have chosen : selectGpu preferredGpuName gpus =
      integrated.or (gpus.findIdx? isOther) := by
    unfold selectGpu
    rw [result]
    cases gpus with
    | nil => cases integrated <;> simp_all [Holds]
    | cons gpu gpus => cases integrated <;> simp [search, Candidates.chosen]
  rw [chosen]
  rcases found with ⟨noneThere, same⟩ | ⟨index, same, holds⟩
  · exact Or.inl ⟨noneThere, by rw [same, Option.none_or]⟩
  · exact Or.inr ⟨index, by rw [same, Nat.zero_add, Option.some_or], holds⟩

theorem selectGpu_stop (pass : ∀ gpu ∈ before, stops preferredGpuName gpu = false)
    (stop : stops preferredGpuName gpu = true) :
    selectGpu preferredGpuName (before ++ gpu :: after) = some before.length := by
  obtain ⟨integrated, result, -⟩ :=
    @search_append _ _ (gpu :: after) 0 {} pass
  unfold selectGpu
  rw [if_neg (by simp), result, search_stop stop, Nat.zero_add]
  split <;> rfl

theorem pass_or_stop (preferredGpuName : String) (gpus : List PhysicalDevice) :
    (∀ gpu ∈ gpus, stops preferredGpuName gpu = false) ∨
      ∃ before gpu after, gpus = before ++ gpu :: after ∧ stops preferredGpuName gpu = true ∧
        ∀ other ∈ before, stops preferredGpuName other = false := by
  cases found : gpus.find? (stops preferredGpuName) with
  | none => exact Or.inl (by simpa using found)
  | some gpu =>
    obtain ⟨stop, before, after, split_eq, pass⟩ := List.find?_eq_some_iff_append.mp found
    exact Or.inr ⟨before, gpu, after, split_eq, stop, by simpa using pass⟩

/-- Before the device at which the loop stops, there is none of a kind that stops it. -/
theorem findIdx_stop {kind : PhysicalDevice → Bool}
    (stopping : ∀ gpu, kind gpu = true → stops preferredGpuName gpu = true)
    (pass : ∀ gpu ∈ before, stops preferredGpuName gpu = false) (here : kind gpu = true) :
    (before ++ gpu :: after).findIdx? kind = some before.length := by
  have noneBefore : before.findIdx? kind = none := by
    refine List.findIdx?_eq_none_iff.mpr fun other mem => ?_
    refine eq_false_of_ne_true fun kindThere => ?_
    exact Bool.false_ne_true ((pass other mem).symm.trans (stopping other kindThere))
  rw [List.findIdx?_append, noneBefore, List.findIdx?_cons, if_pos here]
  simp

end Loop

/-! ## The order of preference -/

section Order

variable {preferredGpuName : String} {gpu : PhysicalDevice}
  {gpus before after : List PhysicalDevice}

theorem stops_of_preferred {gpu : PhysicalDevice} (kind : isPreferred preferredGpuName gpu = true) :
    stops preferredGpuName gpu = true := by
  rw [stops, kind, Bool.true_or]

theorem stops_of_discrete {gpu : PhysicalDevice} (kind : isDiscrete gpu = true) :
    stops preferredGpuName gpu = true := by
  rw [stops, kind, Bool.or_true]

theorem any_false_of_pass {kind : PhysicalDevice → Bool}
    (stopping : ∀ {gpu}, kind gpu = true → stops preferredGpuName gpu = true)
    (pass : ∀ gpu ∈ gpus, stops preferredGpuName gpu = false) : gpus.any kind = false := by
  refine List.any_eq_false.mpr fun gpu mem there => ?_
  exact Bool.false_ne_true ((pass gpu mem).symm.trans (stopping there))

theorem findIdx_isOther (none_integrated : gpus.any isIntegrated = false) :
    gpus.findIdx? isOther = gpus.findIdx? PhysicalDevice.isSupported := by
  induction gpus with
  | nil => rfl
  | cons gpu gpus ih =>
    obtain ⟨here, later⟩ := Bool.or_eq_false_iff.mp none_integrated
    have same : isOther gpu = gpu.isSupported := by
      unfold isIntegrated at here
      unfold isOther
      cases supported : gpu.isSupported with
      | false => rfl
      | true =>
        rw [supported, Bool.true_and] at here
        rw [Bool.true_and, bne, here, Bool.not_false]
    rw [List.findIdx?_cons, List.findIdx?_cons, same, ih later]

theorem prioritized_of_pass (pass : ∀ gpu ∈ gpus, stops preferredGpuName gpu = false) :
    Prioritized preferredGpuName gpus (selectGpu preferredGpuName gpus) := by
  have unpreferred := any_false_of_pass stops_of_preferred pass
  have no_discrete := any_false_of_pass stops_of_discrete pass
  refine ⟨fun there => ?_, fun _ there => ?_, fun _ _ there => ?_, fun _ _ none_there => ?_, ?_⟩
  · exact absurd (unpreferred.symm.trans there) Bool.false_ne_true
  · exact absurd (no_discrete.symm.trans there) Bool.false_ne_true
  · rcases selectGpu_pass pass with ⟨none_there, -⟩ | taken
    · exact absurd (none_there.symm.trans there) Bool.false_ne_true
    · exact taken
  · rcases selectGpu_pass pass with ⟨-, taken⟩ | ⟨index, -, other, here, kind⟩
    · rw [taken, findIdx_isOther none_there]
    · exact absurd kind (List.any_eq_false.mp none_there other (List.mem_of_getElem? here))
  · rcases selectGpu_pass pass with ⟨none_there, taken⟩ | ⟨index, taken, other, here, kind⟩
    · rw [taken, findIdx_isOther none_there, List.findIdx?_eq_none_iff, List.any_eq_false]
      simp only [Bool.not_eq_true]
    · rw [taken]
      refine iff_of_false (Option.some_ne_none index) fun unsupported => ?_
      exact List.any_eq_false.mp unsupported other (List.mem_of_getElem? here)
        (Bool.and_eq_true_iff.mp kind).1

theorem any_append_here {kind : PhysicalDevice → Bool} (here : kind gpu = true) :
    (before ++ gpu :: after).any kind = true :=
  List.any_eq_true.mpr ⟨gpu, by simp, here⟩

theorem null_iff_of_taken (supported : gpu.isSupported = true) (index : Nat) :
    some index = none ↔ (before ++ gpu :: after).any PhysicalDevice.isSupported = false := by
  have there : (before ++ gpu :: after).any PhysicalDevice.isSupported = true :=
    any_append_here supported
  rw [there]
  exact iff_of_false (Option.some_ne_none index) (Bool.false_ne_true ∘ Eq.symm)

theorem prioritized_of_preferred (pass : ∀ gpu ∈ before, stops preferredGpuName gpu = false)
    (kind : isPreferred preferredGpuName gpu = true) :
    Prioritized preferredGpuName (before ++ gpu :: after)
      (selectGpu preferredGpuName (before ++ gpu :: after)) := by
  have there : (before ++ gpu :: after).any _ = true := any_append_here kind
  rw [selectGpu_stop pass (stops_of_preferred kind)]
  refine ⟨fun _ => ⟨before.length, rfl, gpu, by simp, kind⟩, fun none_there => ?_,
    fun none_there => ?_, fun none_there => ?_,
    null_iff_of_taken (Bool.and_eq_true_iff.mp kind).1 _⟩
  all_goals exact absurd (none_there.symm.trans there) Bool.false_ne_true

/-- A discrete device that is taken is the right one exactly if no device is preferred. -/
theorem prioritized_discrete_iff (pass : ∀ gpu ∈ before, stops preferredGpuName gpu = false)
    (kind : isDiscrete gpu = true) (unpreferred : isPreferred preferredGpuName gpu = false) :
    Prioritized preferredGpuName (before ++ gpu :: after)
        (selectGpu preferredGpuName (before ++ gpu :: after)) ↔
      (before ++ gpu :: after).any (isPreferred preferredGpuName) = false := by
  have there : (before ++ gpu :: after).any _ = true := any_append_here kind
  rw [selectGpu_stop pass (stops_of_discrete kind)]
  constructor
  · intro order
    refine eq_false_of_ne_true fun preferred => ?_
    obtain ⟨index, same, other, here, isIt⟩ := order.preferred preferred
    cases same
    rw [List.getElem?_append_right (Nat.le_refl _), Nat.sub_self] at here
    cases here
    exact Bool.false_ne_true (unpreferred.symm.trans isIt)
  · intro none_preferred
    refine ⟨fun preferred => ?_, fun _ _ => (findIdx_stop ?_ pass kind).symm,
      fun _ none_there => ?_, fun _ none_there => ?_,
      null_iff_of_taken (Bool.and_eq_true_iff.mp kind).1 _⟩
    · exact absurd (none_preferred.symm.trans preferred) Bool.false_ne_true
    · exact fun _ => stops_of_discrete
    all_goals exact absurd (none_there.symm.trans there) Bool.false_ne_true

end Order

/-- The devices are taken in the order of preference exactly if no discrete device is listed before
the preferred one. -/
theorem selectGpu_prioritized_iff (preferredGpuName : String) (gpus : List PhysicalDevice) :
    Prioritized preferredGpuName gpus (selectGpu preferredGpuName gpus) ↔
      PreferredFirst preferredGpuName gpus := by
  rcases pass_or_stop preferredGpuName gpus with pass | ⟨before, gpu, after, rfl, stop, pass⟩
  · refine iff_of_true (prioritized_of_pass pass) fun position _ => ?_
    exact any_false_of_pass stops_of_discrete fun gpu mem => pass gpu (List.mem_of_mem_take mem)
  · cases preferred : isPreferred preferredGpuName gpu with
    | true =>
      refine iff_of_true (prioritized_of_preferred pass preferred) fun position found => ?_
      rw [findIdx_stop (fun _ => stops_of_preferred) pass preferred] at found
      cases found
      rw [List.take_left]
      exact any_false_of_pass stops_of_discrete pass
    | false =>
      have discrete : isDiscrete gpu = true := by
        rwa [stops, preferred, Bool.false_or] at stop
      rw [prioritized_discrete_iff pass discrete preferred]
      constructor
      · intro none_preferred position found
        obtain ⟨bound, kind, -⟩ := List.findIdx?_eq_some_iff_getElem.mp found
        exact absurd kind (List.any_eq_false.mp none_preferred _ (List.getElem_mem bound))
      · intro first
        cases found : (before ++ gpu :: after).findIdx? (isPreferred preferredGpuName) with
        | none => exact List.any_eq_false.mpr fun other mem =>
          Bool.not_eq_true _ ▸ List.findIdx?_eq_none_iff.mp found other mem
        | some position =>
          -- the discrete device is listed before the preferred one
          obtain ⟨bound, kind, -⟩ := List.findIdx?_eq_some_iff_getElem.mp found
          have later : before.length < position := by
            by_contra notLater
            rcases Nat.lt_or_eq_of_le (Nat.not_lt.mp notLater) with lt | rfl
            · rw [List.getElem_append_left lt] at kind
              exact Bool.false_ne_true
                ((pass _ (List.getElem_mem lt)).symm.trans (stops_of_preferred kind))
            · rw [List.getElem_append_right (Nat.le_refl _)] at kind
              simp only [Nat.sub_self, List.getElem_cons_zero] at kind
              exact Bool.false_ne_true (preferred.symm.trans kind)
          have within : gpu ∈ (before ++ gpu :: after).take position := by
            obtain ⟨rest, rfl⟩ := Nat.exists_eq_add_of_lt later
            rw [List.take_append, Nat.add_assoc, Nat.add_sub_cancel_left, List.take_succ_cons]
            simp
          exact absurd discrete (List.any_eq_false.mp (first position found) gpu within)

/-- A discrete device that is listed first is taken instead of the preferred one. -/
theorem selectGpu_not_prioritized :
    let gpus : List PhysicalDevice :=
      [⟨"Discrete", .discreteGpu, true⟩, ⟨"Preferred", .integratedGpu, true⟩]
    selectGpu "Preferred" gpus = some 0 ∧
      ¬ Prioritized "Preferred" gpus (selectGpu "Preferred" gpus) := by
  refine ⟨by decide, fun order => ?_⟩
  obtain ⟨position, selected, gpu, here, preferred⟩ := order.preferred (by decide)
  cases selected
  cases here
  exact absurd preferred (by decide)

end Voxen.Gfx.GfxSystem
