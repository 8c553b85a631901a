import Voxen.Common.PipeMemoryAllocatorSlabs
import Voxen.Lib.FinSizes

/-!
# Allocations of any size

`allocate` takes a size of zero, too.  Such a block takes no byte; in a slab that has no
allocated byte yet it starts where the slab ends, and `deallocate` then masks its address
to the slab behind.
-/

namespace Voxen.PipeMemoryAllocator

variable {Thread : Type}

/-! ## Steps with any size -/

/-- A step, with allocations of any size. -/
def stepAnySize [DecidableEq Thread] (destroyFreeSlabsThreshold : Nat) (state : State Thread) :
    Action Thread → Option (State Thread)
  | .allocate thread size alignBits =>
    if state.calls thread = .idle then
      some (state.allocate thread size (2 ^ alignBits))
    else
      none
  | action => step destroyFreeSlabsThreshold state action

/-- What `allocate` lets through. -/
structure Allowed (size align : Nat) : Prop where
  small : size ≤ maxAllocSize
  alignSmall : align ≤ maxAlignment
  power : ∃ bits, align = 2 ^ bits

/-- What a call wants to allocate. -/
def ThreadCall.request? : ThreadCall → Option (Nat × Nat)
  | replaceSlab size align => some (size, align)
  | newSlab size align => some (size, align)
  | retry size align => some (size, align)
  | _ => none

/-- What a step tries to allocate, and from the slab of which thread. -/
def State.attempt? (state : State Thread) : Action Thread → Option (Thread × Nat × Nat)
  | .allocate thread size alignBits =>
    if maxAllocSize < size ∨ maxAlignment < 2 ^ alignBits then none
    else some (thread, size, 2 ^ alignBits)
  | .advance thread _ =>
    match state.calls thread with
    | .retry size align => some (thread, size, align)
    | _ => none
  | _ => none

/-- `deallocate` counts the block off from the slab, and from no other one. -/
def GivesBackTo (Thread : Type) (address slab : Nat) : Prop :=
  ∀ state state' : State Thread, state.deallocate address = some state' →
    state'.slabs = Function.update state.slabs slab ((state.slabs slab).map (·.subLive))

/-! ## The control data -/

/-- The control data of a slab can be those of one. -/
structure SlabOk (slab : Nat) (ctl : PipeMemorySlabControl) : Prop where
  base : Base slab
  bytes : ctl.allocatedBytes + controlSize ≤ slabSize

/-- What holds in every state, whatever the sizes. -/
structure Sound (state : State Thread) : Prop where
  slabs : ∀ slab ctl, state.slabs slab = some ctl → SlabOk slab ctl
  calls : ∀ thread size align, (state.calls thread).request? = some (size, align) →
    Allowed size align

section Slab

variable {ctl ctl' : PipeMemorySlabControl} {slab size align ptr : Nat}

theorem SlabOk.tryAllocate (ok : SlabOk slab ctl) (allowed : Allowed size align)
    (got : ctl.tryAllocate slab size align = some (ptr, ctl')) :
    SlabOk slab ctl' ∧ align ∣ ptr ∧ slab + controlSize ≤ ptr ∧
      ptr + size + ctl.allocatedBytes ≤ slab + slabSize ∧
      slab + slabSize < ptr + size + ctl.allocatedBytes + align := by
  obtain ⟨aligned, room, near⟩ := candidate ok.base ok.bytes allowed.small allowed.power
  unfold PipeMemorySlabControl.tryAllocate at got
  simp only [Option.ite_none_right_eq_some, Option.some.injEq, Prod.mk.injEq] at got
  obtain ⟨inBounds, rfl, rfl⟩ := got
  refine ⟨⟨ok.base, ?_⟩, aligned, inBounds, room, near⟩
  have bound := ok.base.bound
  have size_eq := slabSize_eq
  rw [ptrSub_eq bound (by omega), Nat.mod_eq_of_lt (by omega)]
  show slab + slabSize - _ + controlSize ≤ slabSize
  omega

theorem PipeMemorySlabControl.subLive_allocatedBytes (ctl : PipeMemorySlabControl) :
    ctl.subLive.allocatedBytes = ctl.allocatedBytes := by
  rw [PipeMemorySlabControl.subLive]

/-- A block goes back to its slab exactly if its address is masked to that slab. -/
theorem givesBackTo_iff (notNull : ptr ≠ 0) :
    GivesBackTo Thread ptr slab ↔ alignDown ptr slabSize = slab := by
  constructor
  · intro back
    by_contra other
    let state : State Thread :=
      { slabs := Function.update (fun _ => none) slab (some {}), blocks := [⟨ptr, 0, 1⟩] }
    have done : state.deallocate ptr = some
        { state with
          slabs := Function.update state.slabs (alignDown ptr slabSize)
            ((state.slabs (alignDown ptr slabSize)).map (·.subLive))
          blocks := state.blocks.erase ⟨ptr, 0, 1⟩ } := by
      simp [State.deallocate, notNull, state]
    have counted := congrFun (back state _ done) slab
    simp only [Function.update_self, Function.update_of_ne (Ne.symm other), state,
      Option.map_some] at counted
    exact absurd counted (by decide)
  · rintro rfl state state' done
    simp only [State.deallocate, if_neg notNull, Option.bind_eq_bind,
      Option.bind_eq_some_iff, Option.some.injEq] at done
    obtain ⟨block, -, rfl⟩ := done
    rfl

/-- The block is masked to its slab unless it takes no byte and is the first one. -/
theorem SlabOk.mapped_iff (ok : SlabOk slab ctl) (allowed : Allowed size align)
    (got : ctl.tryAllocate slab size align = some (ptr, ctl')) :
    alignDown ptr slabSize = slab ↔ ¬ (size = 0 ∧ ctl.allocatedBytes = 0) := by
  obtain ⟨-, aligned, inStorage, room, near⟩ := ok.tryAllocate allowed got
  have bound := ok.base.bound
  constructor
  · rintro mapped ⟨rfl, noBytes⟩
    have stop_aligned : align ∣ slab + slabSize := by
      obtain ⟨bits, rfl⟩ := allowed.power
      have bits_le : bits ≤ 8 := by
        have alignSmall := allowed.alignSmall
        exact (Nat.pow_le_pow_iff_right Nat.one_lt_two).mp alignSmall
      have whole : 2 ^ bits ∣ slabSize := by
        rw [slabSize_eq]
        exact Nat.pow_dvd_pow 2 (by omega)
      exact Nat.dvd_add (Nat.dvd_trans whole ok.base.aligned) whole
    -- the end of the slab is aligned, so the block starts there
    have atStop : ptr = slab + slabSize := by
      have gap : align ∣ slab + slabSize - ptr := Nat.dvd_sub stop_aligned aligned
      have none_left := Nat.eq_zero_of_dvd_of_lt gap (by omega)
      omega
    have next : alignDown (slab + slabSize + 0) slabSize = slab + slabSize := by
      rw [slabSize_eq]
      refine alignDown.inside (by rwa [← slabSize_eq]) ?_ (Nat.two_pow_pos 21)
      rw [← slabSize_eq]
      exact Nat.dvd_add ok.base.aligned (Nat.dvd_refl _)
    rw [atStop] at mapped
    rw [Nat.add_zero, mapped] at next
    have size_eq := slabSize_eq
    omega
  · intro someByte
    exact show Block.slab ⟨_, size, align⟩ = slab from
      slab_eq_of_inside ok.base (by omega) (by omega)

end Slab

/-! ## Runs -/

namespace Sound

variable {state state' : State Thread} {thread : Thread} {size align : Nat}

theorem initial : Sound ({} : State Thread) where
  slabs _ _ isSlab := by cases isSlab
  calls _ _ _ requests := by cases requests

theorem update (sound : Sound state) (slab : Nat) (found : Option PipeMemorySlabControl)
    (ok : ∀ ctl, found = some ctl → SlabOk slab ctl) (calls : state'.calls = state.calls)
    (slabs : state'.slabs = Function.update state.slabs slab found) : Sound state' where
  slabs other ctl isSlab := by
    rw [slabs] at isSlab
    by_cases same : other = slab
    · subst same
      rw [Function.update_self] at isSlab
      exact ok ctl isSlab
    · rw [Function.update_of_ne same] at isSlab
      exact sound.slabs other ctl isSlab
  calls := by
    rw [calls]
    exact sound.calls

/-- Control data change that keep the number of allocated bytes, or reset it. -/
theorem map (sound : Sound state) {slab : Nat} (f : PipeMemorySlabControl → PipeMemorySlabControl)
    (le : ∀ ctl, (f ctl).allocatedBytes ≤ ctl.allocatedBytes) (calls : state'.calls = state.calls)
    (slabs : state'.slabs = Function.update state.slabs slab ((state.slabs slab).map f)) :
    Sound state' := by
  refine sound.update _ _ (fun ctl isSlab => ?_) calls slabs
  obtain ⟨before, isBefore, rfl⟩ := Option.map_eq_some_iff.mp isSlab
  have ok := sound.slabs slab before isBefore
  exact ⟨ok.base, Nat.le_trans (Nat.add_le_add_right (le before) _) ok.bytes⟩

theorem congr (sound : Sound state) (slabs : state'.slabs = state.slabs)
    (calls : state'.calls = state.calls) : Sound state' where
  slabs := by
    rw [slabs]
    exact sound.slabs
  calls := by
    rw [calls]
    exact sound.calls

variable [DecidableEq Thread]

theorem setCall (sound : Sound state) {call : ThreadCall}
    (allowed : ∀ size align, call.request? = some (size, align) → Allowed size align) :
    Sound (state.setCall thread call) where
  slabs := sound.slabs
  calls other size align requests := by
    by_cases same : other = thread
    · subst same
      simp only [State.setCall, Function.update_self] at requests
      exact allowed size align requests
    · simp only [State.setCall, Function.update_of_ne same] at requests
      exact sound.calls other size align requests

omit [DecidableEq Thread] in
theorem tryAllocate (sound : Sound state) (allowed : Allowed size align)
    (got : state.tryAllocate thread size align = some state') : Sound state' := by
  unfold State.tryAllocate at got
  simp only [Option.bind_eq_bind, Option.bind_eq_some_iff, Option.some.injEq, Prod.exists] at got
  obtain ⟨slab, -, ctl, isSlab, ptr, ctl', got, rfl⟩ := got
  refine sound.update slab _ (fun other same => ?_) rfl rfl
  cases same
  exact ((sound.slabs slab ctl isSlab).tryAllocate allowed got).1

theorem advance (sound : Sound state) {upstream : Option Nat}
    (next : state.advance thread upstream = some state') : Sound state' := by
  have requests := sound.calls thread
  unfold State.advance at next
  cases calling : state.calls thread with
  | idle =>
    rw [calling] at next
    cases next
  | replaceSlab size align =>
    rw [calling] at requests
    have allowed := requests size align rfl
    simp only [calling, Option.ite_none_left_eq_some] at next
    obtain ⟨-, next⟩ := next
    cases next
    have released : Sound (state.releaseSlab thread) := by
      unfold State.releaseSlab
      split
      · exact sound.congr rfl rfl
      · exact sound
    unfold State.replaceSlab State.takeFreeSlab
    split
    · exact ((released.congr rfl rfl).setCall (by rintro _ _ ⟨⟩; exact allowed)).congr rfl rfl
    · exact released.setCall (by rintro _ _ ⟨⟩; exact allowed)
  | newSlab size align =>
    rw [calling] at requests
    have allowed := requests size align rfl
    simp only [calling] at next
    cases upstream with
    | none =>
      cases next
      exact sound.setCall nofun
    | some slab =>
      simp only [Option.ite_none_right_eq_some] at next
      obtain ⟨⟨aligned, notNull, bound, -⟩, next⟩ := next
      cases next
      have retried : Sound (state.setCall thread (.retry size align)) :=
        sound.setCall (by rintro _ _ ⟨⟩; exact allowed)
      refine retried.update slab (some {}) (fun ctl same => ?_) rfl rfl
      cases same
      exact ⟨⟨aligned, notNull, bound⟩, by decide⟩
  | retry size align =>
    rw [calling] at requests
    have allowed := requests size align rfl
    simp only [calling] at next
    split at next
    · rename_i got
      cases next
      exact (sound.tryAllocate allowed got).setCall nofun
    · cases next
      have idle : Sound (state.setCall thread .idle) := sound.setCall nofun
      exact idle.congr rfl rfl
  | deleteSlab =>
    simp only [calling, Option.bind_eq_bind, Option.bind_eq_some_iff] at next
    obtain ⟨slab, -, next⟩ := next
    cases next
    have idle : Sound (state.setCall thread .idle) := sound.setCall nofun
    exact idle.update slab none nofun rfl rfl
  | putGarbageSlab =>
    simp only [calling, Option.bind_eq_bind, Option.bind_eq_some_iff,
      Option.ite_none_left_eq_some] at next
    obtain ⟨slab, -, -, next⟩ := next
    cases next
    have idle : Sound (state.setCall thread .idle) := sound.setCall nofun
    exact idle.congr rfl rfl

omit [DecidableEq Thread] in
theorem deallocate (sound : Sound state) {address : Nat}
    (next : state.deallocate address = some state') : Sound state' := by
  unfold State.deallocate at next
  split at next
  · cases next
    exact sound
  · simp only [Option.bind_eq_bind, Option.bind_eq_some_iff, Option.some.injEq] at next
    obtain ⟨block, -, rfl⟩ := next
    exact sound.map (·.subLive) (fun ctl => Nat.le_of_eq ctl.subLive_allocatedBytes) rfl rfl

omit [DecidableEq Thread] in
theorem advanceGc (sound : Sound state) (next : state.advanceGc = some state') :
    Sound state' := by
  unfold State.advanceGc at next
  split at next
  · cases next
  · split at next
    · simp only [Option.bind_eq_bind, Option.bind_eq_some_iff] at next
      obtain ⟨ctl, -, next⟩ := next
      split at next
      · cases next
        exact sound.map (·.reset) (fun ctl => Nat.zero_le _) rfl rfl
      · cases next
        exact sound.congr rfl rfl
    · split at next
      all_goals
        cases next
        exact sound.congr rfl rfl
  · cases next
    exact sound.update _ none nofun rfl rfl

theorem stepAnySize {threshold : Nat} (state : State Thread) (action : Action Thread)
    (state' : State Thread) (sound : Sound state)
    (next : stepAnySize threshold state action = some state') : Sound state' := by
  cases action with
  | allocate thread size alignBits =>
    obtain ⟨-, next⟩ := Option.ite_none_right_eq_some.mp next
    cases next
    unfold State.allocate
    split
    · exact sound
    · rename_i isSmall
      have allowed : Allowed size (2 ^ alignBits) :=
        { small := Nat.le_of_not_lt fun large => isSmall (Or.inl large)
          alignSmall := Nat.le_of_not_lt fun large => isSmall (Or.inr large)
          power := ⟨alignBits, rfl⟩ }
      split
      · rename_i got
        exact sound.tryAllocate allowed got
      · exact sound.setCall (by rintro _ _ ⟨⟩; exact allowed)
  | advance thread upstream => exact sound.advance next
  | deallocate address => exact sound.deallocate next
  | exitThread thread =>
    obtain ⟨-, next⟩ := Option.ite_none_right_eq_some.mp next
    unfold State.exitThread at next
    split at next
    · cases next
      exact sound
    · simp only [Option.bind_eq_bind, Option.bind_eq_some_iff] at next
      obtain ⟨ctl, -, next⟩ := next
      cases next
      refine sound.setCall fun size align requests => ?_
      split at requests
      all_goals cases requests
  | reclaimFreedSlabs =>
    obtain ⟨-, next⟩ := Option.ite_none_right_eq_some.mp next
    cases next
    unfold State.reclaimFreedSlabs
    split
    all_goals exact sound.congr rfl rfl
  | advanceGc => exact sound.advanceGc next

omit [DecidableEq Thread] in
theorem attempt_allowed (sound : Sound state) {action : Action Thread}
    (attempts : state.attempt? action = some (thread, size, align)) : Allowed size align := by
  cases action with
  | allocate other wanted alignBits =>
    obtain ⟨isSmall, same⟩ := Option.ite_none_left_eq_some.mp attempts
    cases same
    exact
      { small := Nat.le_of_not_lt fun large => isSmall (Or.inl large)
        alignSmall := Nat.le_of_not_lt fun large => isSmall (Or.inr large)
        power := ⟨alignBits, rfl⟩ }
  | advance other upstream =>
    simp only [State.attempt?] at attempts
    split at attempts
    · rename_i calling
      cases attempts
      exact sound.calls thread size align (by rw [calling]; rfl)
    · cases attempts
  | _ => cases attempts

end Sound

variable [DecidableEq Thread]

/-- A block that a step of any run returns goes back to the slab it is from exactly if it
takes some byte or is not the first one of the slab. -/
theorem run_givesBackTo_iff {threshold : Nat} {actions : List (Action Thread)}
    {state : State Thread} (reached : Runs.run (stepAnySize threshold) {} actions = some state)
    {action : Action Thread} {thread : Thread} {size align : Nat}
    (attempts : state.attempt? action = some (thread, size, align)) {slab ptr : Nat}
    {ctl ctl' : PipeMemorySlabControl} (isSlab : state.slabs slab = some ctl)
    (got : ctl.tryAllocate slab size align = some (ptr, ctl')) :
    GivesBackTo Thread ptr slab ↔ ¬ (size = 0 ∧ ctl.allocatedBytes = 0) := by
  have sound := Runs.run_preserved Sound.stepAnySize Sound.initial reached
  have ok := sound.slabs slab ctl isSlab
  have allowed := sound.attempt_allowed attempts
  obtain ⟨-, -, inStorage, -⟩ := ok.tryAllocate allowed got
  have notNull : ptr ≠ 0 := by
    have positive := ok.base.notNull
    omega
  rw [givesBackTo_iff notNull, ok.mapped_iff allowed got]

/-- The first call of thread 0, up to its second attempt. -/
def firstCall (size : Nat) : List (Action (Fin 1)) :=
  [.allocate 0 size 4, .advance 0 none, .advance 0 (some slabSize)]

theorem run_givesBackTo_of_24_bytes :
    ∃ state : State (Fin 1), Runs.run (stepAnySize 5) {} (firstCall 24) = some state ∧
      (GivesBackTo (Fin 1) (2 * slabSize - 32) slabSize ↔
        ¬ (24 = 0 ∧ PipeMemorySlabControl.allocatedBytes {} = 0)) := by
  have start : (Runs.run (stepAnySize 5) ({} : State (Fin 1)) (firstCall 24)).map (fun state =>
      (state.attempt? (.advance 0 none), state.slabs slabSize)) =
        some (some (0, 24, 16), some {}) := by
    decide +kernel
  have got : PipeMemorySlabControl.tryAllocate {} slabSize 24 16 =
      some (2 * slabSize - 32, ⟨32, 1⟩) := by
    decide +kernel
  obtain ⟨state, reached, same⟩ := Option.map_eq_some_iff.mp start
  obtain ⟨attempts, isSlab⟩ := Prod.mk.inj same
  exact ⟨state, reached, run_givesBackTo_iff reached attempts isSlab got⟩

/-- The first allocation of a thread, of no byte: the block is at the end of the slab, and
`deallocate` would count it off from the slab behind. -/
theorem not_givesBackTo_of_no_bytes :
    ∃ state state' : State (Fin 1), Runs.run (stepAnySize 5) {} (firstCall 0) = some state ∧
      stepAnySize 5 state (.advance 0 none) = some state' ∧
      state'.blocks = [⟨2 * slabSize, 0, 16⟩] ∧ state'.threadSlab 0 = some slabSize ∧
      ¬ GivesBackTo (Fin 1) (2 * slabSize) slabSize := by
  have notNull : 2 * slabSize ≠ 0 := by decide
  have other : alignDown (2 * slabSize) slabSize ≠ slabSize := by decide +kernel
  have blocks : ((Runs.run (stepAnySize 5) ({} : State (Fin 1)) (firstCall 0)).bind fun state =>
      stepAnySize 5 state (.advance 0 none)).map (fun state => (state.blocks, state.threadSlab 0)) =
        some ([⟨2 * slabSize, 0, 16⟩], some slabSize) := by
    decide +kernel
  obtain ⟨state', both, same⟩ := Option.map_eq_some_iff.mp blocks
  obtain ⟨state, reached, next⟩ := Option.bind_eq_some_iff.mp both
  obtain ⟨isBlock, hasSlab⟩ := Prod.mk.inj same
  exact ⟨state, state', reached, next, isBlock, hasSlab,
    fun back => other ((givesBackTo_iff notNull).mp back)⟩

end Voxen.PipeMemoryAllocator
