import Voxen.Lib.ThreadPlaces
import Voxen.Svc.TaskQueueSetFlags

/-!
# The ring buffer of a task queue

Reserving an index and filling or emptying its slot are separate steps.  While no
index wraps around, a slot is free when a push reserves it and holds the right
task when a pop does, whatever slow threads of earlier laps still have to do.
-/

namespace Voxen.Svc.TaskQueueSet

open Function (update update_of_ne update_self)
open ThreadPlaces

variable {Thread : Type}

/-- The index is one the queue has had. -/
def Observed (state : State Thread) (index : ProduceConsumeIndex) : Prop :=
  index.consume.toNat ≤ index.produce.toNat ∧
    index.produce.toNat ≤ state.pushes.length ∧ index.consume.toNat ≤ state.pops

/-- What a call knows about the slot it goes for. -/
def CallInv (state : State Thread) : Call → Prop
  | .pushItem _ index => Observed state index ∧ index.full = false
  | .pushExchange _ index => Observed state index ∧ index.full = false ∧
      (index.produce.toNat = state.pushes.length → index.consume.toNat = state.pops →
        state.items (state.pushes.length % ringBufferSize) = none)
  | .pushStore task slot number _ =>
    state.pops ≤ number ∧ slot = number % ringBufferSize ∧
      state.pushes[number]? = some task ∧ state.items slot = none
  | .popItem _ index => Observed state index ∧ index.empty = false
  | .popExchange _ index => Observed state index ∧ index.empty = false ∧
      (index.consume.toNat = state.pops →
        state.items (state.pops % ringBufferSize) = state.pushes[state.pops]?)
  | .popTake slot number =>
    number < state.pops ∧ slot = number % ringBufferSize ∧
      state.pushes.length ≤ number + ringBufferSize ∧
      state.items slot = state.pushes[number]? ∧ number ∉ state.popped.map Prod.fst
  | .stopLoad | .stopExchange _ _ => False
  | _ => True

/-- What holds in every state without stop requests and wrap-around. -/
structure RingInv (state : State Thread) : Prop where
  counts : state.currentIndex.Counts state.pushes.length state.pops
  small : state.pushes.length < 2 ^ 31
  ordered : state.pops ≤ state.pushes.length
  bounded : state.pushes.length ≤ state.pops + ringBufferSize
  running : state.currentIndex.stopFlag = false
  kept : state.overwritten = []
  calls : ∀ thread, CallInv state (state.calls thread)
  stored : ∀ number, state.pops ≤ number → number < state.pushes.length →
    state.items (number % ringBufferSize) = state.pushes[number]? ∨
    ∃ thread task slot needWake, state.calls thread = .pushStore task slot number needWake
  held : ∀ slot task, state.items slot = some task → ∃ number,
    number % ringBufferSize = slot ∧
    (state.pops ≤ number ∧ number < state.pushes.length ∧ state.pushes[number]? = some task ∨
      ∃ thread, state.calls thread = .popTake slot number)
  taken : ∀ number, number < state.pops → number ∈ state.popped.map Prod.fst ∨
    ∃ thread slot, state.calls thread = .popTake slot number
  popped : ∀ number task, (number, task) ∈ state.popped →
    number < state.pops ∧ task = state.pushes[number]?
  poppedOnce : (state.popped.map Prod.fst).Nodup
  storeOnce : ∀ thread thread' task task' slot slot' number needWake needWake',
    state.calls thread = .pushStore task slot number needWake →
    state.calls thread' = .pushStore task' slot' number needWake' → thread = thread'
  takeOnce : ∀ thread thread' slot slot' number,
    state.calls thread = .popTake slot number →
    state.calls thread' = .popTake slot' number → thread = thread'

theorem initial_ring : RingInv ({} : State Thread) := by
  refine ⟨⟨rfl, rfl⟩, Nat.two_pow_pos 31, Nat.le_refl _, Nat.zero_le _, rfl, rfl,
    fun _ => trivial, ?_, ?_, ?_, ?_, List.nodup_nil, ?_, ?_⟩
  · intro number _ below
    exact absurd below (Nat.not_lt_zero number)
  · exact fun _ _ holds => nomatch holds
  · intro number below
    exact absurd below (Nat.not_lt_zero number)
  · exact fun _ _ mem => absurd mem List.not_mem_nil
  · intro _ _ _ _ _ _ _ _ _ call
    cases call
  · intro _ _ _ _ _ call
    cases call

/-- The call holds a reservation. -/
def Call.reserved : Call → Bool
  | .pushStore .. | .popTake .. => true
  | _ => false

/-- The call is about to fill the slot of the number. -/
def Call.Stores (call : Call) (number : Nat) : Prop :=
  ∃ task slot needWake, call = .pushStore task slot number needWake

/-- The call is about to empty the slot of the number. -/
def Call.Takes (call : Call) (number : Nat) : Prop := ∃ slot, call = .popTake slot number

theorem Call.Stores.reserved {call : Call} {number : Nat} (stores : call.Stores number) :
    call.reserved = true := by
  obtain ⟨_, _, _, rfl⟩ := stores
  rfl

theorem Call.Takes.reserved {call : Call} {number : Nat} (takes : call.Takes number) :
    call.reserved = true := by
  obtain ⟨_, rfl⟩ := takes
  rfl

theorem update_reserved [DecidableEq Thread] {calls : Thread → Call} {thread other : Thread}
    (call : Call) (free : (calls thread).reserved = false)
    (reserved : (calls other).reserved = true) :
    update calls thread call other = calls other := by
  refine update_of_ne ?_ call calls
  rintro rfl
  exact Bool.false_ne_true (free.symm.trans reserved)

theorem ProduceConsumeIndex.lt_of_not_empty (index : ProduceConsumeIndex)
    (notEmpty : index.empty = false) (ordered : index.consume.toNat ≤ index.produce.toNat) :
    index.consume.toNat < index.produce.toNat := by
  refine Nat.lt_of_le_of_ne ordered fun same => ?_
  unfold ProduceConsumeIndex.empty at notEmpty
  exact of_decide_eq_false notEmpty (BitVec.eq_of_toNat_eq same.symm)

/-- An index that is not empty and is the next to be consumed: there is a task for it. -/
theorem Observed.pops_lt {state : State Thread} {index : ProduceConsumeIndex}
    (observed : Observed state index) (notEmpty : index.empty = false)
    (consume : index.consume.toNat = state.pops) : state.pops < state.pushes.length := by
  have pending := index.lt_of_not_empty notEmpty observed.1
  rw [consume] at pending
  exact Nat.lt_of_lt_of_le pending observed.2.1

theorem callInv_sawFree {state : State Thread} {task : Task} {index : ProduceConsumeIndex}
    (observed : Observed state index)
    (notFull : index.full = false)
    (free : state.items (index.produce.toNat % ringBufferSize) = none) :
    CallInv state (.pushExchange task index) := by
  refine ⟨observed, notFull, fun produce _ => ?_⟩
  rw [← produce]
  exact free

section Invariant

variable {state : State Thread} (inv : RingInv state)

include inv

theorem RingInv.produce : state.currentIndex.produce.toNat = state.pushes.length := by
  rw [inv.counts.1, BitVec.toNat_ofNat, Nat.mod_eq_of_lt inv.small]

theorem RingInv.consume : state.currentIndex.consume.toNat = state.pops := by
  rw [inv.counts.2, BitVec.toNat_ofNat,
    Nat.mod_eq_of_lt (Nat.lt_of_le_of_lt inv.ordered inv.small)]

theorem RingInv.observed : Observed state state.currentIndex := by
  unfold Observed
  rw [inv.produce, inv.consume]
  exact ⟨inv.ordered, Nat.le_refl _, Nat.le_refl _⟩

theorem RingInv.full_iff :
    state.currentIndex.full = true ↔ state.pushes.length = state.pops + ringBufferSize := by
  unfold ProduceConsumeIndex.full
  rw [decide_eq_true_eq, inv.produce, inv.consume]
  exact eq_comm

theorem RingInv.empty_iff :
    state.currentIndex.empty = true ↔ state.pushes.length = state.pops := by
  unfold ProduceConsumeIndex.empty
  rw [decide_eq_true_eq, ← BitVec.toNat_inj, inv.produce, inv.consume]

theorem RingInv.headOfPush (task : Task) :
    CallInv state (pushHead task state.currentIndex) := by
  unfold pushHead
  cases full : state.currentIndex.full with
  | true => trivial
  | false => exact ⟨inv.observed, full⟩

theorem RingInv.headOfPop (waits : Bool) :
    CallInv state (popHead waits state.currentIndex) := by
  unfold popHead
  rw [inv.running]
  cases empty : state.currentIndex.empty with
  | true => cases waits <;> trivial
  | false => exact ⟨inv.observed, empty⟩

variable {number : Nat} {thread : Thread}

theorem RingInv.slot_injective {other : Nat} (low : state.pops ≤ number)
    (high : number < state.pushes.length) (low' : state.pops ≤ other)
    (high' : other < state.pushes.length) (same : number % ringBufferSize = other % ringBufferSize) :
    number = other := by
  have bounded := inv.bounded
  unfold ringBufferSize at same bounded
  omega

theorem RingInv.take_slot {slot other : Nat} (call : state.calls thread = .popTake slot number)
    (low : number < other) (high : other < state.pushes.length) :
    other % ringBufferSize ≠ slot := by
  have take := inv.calls thread
  rw [call] at take
  obtain ⟨-, rfl, recent, -⟩ := take
  unfold ringBufferSize at recent ⊢
  omega

theorem RingInv.take_none {slot : Nat} (call : state.calls thread = .popTake slot number) :
    state.items slot ≠ none := by
  have take := inv.calls thread
  rw [call] at take
  obtain ⟨low, -, -, holds, -⟩ := take
  rw [holds, List.getElem?_eq_getElem (Nat.lt_of_lt_of_le low inv.ordered)]
  exact Option.some_ne_none _

theorem RingInv.storesOnce : ∀ thread thread' number, (state.calls thread).Stores number →
    (state.calls thread').Stores number → thread = thread' := by
  rintro thread thread' number ⟨_, _, _, call⟩ ⟨_, _, _, call'⟩
  exact inv.storeOnce _ _ _ _ _ _ _ _ _ call call'

theorem RingInv.takesOnce : ∀ thread thread' number, (state.calls thread).Takes number →
    (state.calls thread').Takes number → thread = thread' := by
  rintro thread thread' number ⟨_, call⟩ ⟨_, call'⟩
  exact inv.takeOnce _ _ _ _ _ call call'

theorem RingInv.stores_lt (stores : (state.calls thread).Stores number) :
    number < state.pushes.length := by
  obtain ⟨task, slot, needWake, call⟩ := stores
  have known := inv.calls thread
  rw [call] at known
  exact (List.getElem?_eq_some_iff.mp known.2.2.1).1

theorem RingInv.takes_lt (takes : (state.calls thread).Takes number) : number < state.pops := by
  obtain ⟨slot, call⟩ := takes
  have known := inv.calls thread
  rw [call] at known
  exact known.1

theorem RingInv.quiet {calls : Thread → Call} {index : ProduceConsumeIndex}
    (counts : index.Counts state.pushes.length state.pops) (running : index.stopFlag = false)
    (changes : ∀ thread, calls thread = state.calls thread ∨
      ((state.calls thread).reserved = false ∧ (calls thread).reserved = false ∧
        CallInv state (calls thread))) :
    RingInv { state with calls := calls, currentIndex := index } := by
  have callInv : ∀ call, CallInv state call →
      CallInv { state with calls := calls, currentIndex := index } call := by
    intro call known
    cases call <;> exact known
  have keeps : ∀ thread, (state.calls thread).reserved = true →
      calls thread = state.calls thread := by
    intro thread reserved
    rcases changes thread with same | ⟨free, -, -⟩
    · exact same
    · exact absurd (free.symm.trans reserved) Bool.false_ne_true
  have kept : ∀ thread, (calls thread).reserved = true →
      state.calls thread = calls thread := by
    intro thread reserved
    rcases changes thread with same | ⟨-, free, -⟩
    · exact same.symm
    · exact absurd (free.symm.trans reserved) Bool.false_ne_true
  refine
    { inv with
      counts, running
      calls := ?_
      stored := ?_
      held := ?_
      taken := ?_
      storeOnce := ?_
      takeOnce := ?_ }
  · intro thread
    rcases changes thread with same | ⟨-, -, known⟩
    · change CallInv _ (calls thread)
      rw [same]
      exact callInv _ (inv.calls thread)
    · exact callInv _ known
  · intro number low high
    rcases inv.stored number low high with filled | ⟨thread, task, slot, needWake, call⟩
    · exact Or.inl filled
    · exact Or.inr ⟨thread, task, slot, needWake, (keeps thread (by rw [call]; rfl)).trans call⟩
  · intro slot task holds
    obtain ⟨number, here, pending | ⟨thread, call⟩⟩ := inv.held slot task holds
    · exact ⟨number, here, Or.inl pending⟩
    · exact ⟨number, here, Or.inr ⟨thread, (keeps thread (by rw [call]; rfl)).trans call⟩⟩
  · intro number low
    rcases inv.taken number low with popped | ⟨thread, slot, call⟩
    · exact Or.inl popped
    · exact Or.inr ⟨thread, slot, (keeps thread (by rw [call]; rfl)).trans call⟩
  · intro thread thread' task task' slot slot' number needWake needWake' call call'
    change calls thread = _ at call
    change calls thread' = _ at call'
    exact inv.storeOnce _ _ _ _ _ _ _ _ _ ((kept thread (by rw [call]; rfl)).trans call)
      ((kept thread' (by rw [call']; rfl)).trans call')
  · intro thread thread' slot slot' number call call'
    change calls thread = _ at call
    change calls thread' = _ at call'
    exact inv.takeOnce _ _ _ _ _ ((kept thread (by rw [call]; rfl)).trans call)
      ((kept thread' (by rw [call']; rfl)).trans call')

section Steps

variable [DecidableEq Thread]

variable {index : ProduceConsumeIndex} {thread other : Thread} {state' : State Thread} {task : Task}
  {number slot : Nat}

theorem RingInv.move {call : Call} (counts : index.Counts state.pushes.length state.pops)
    (running : index.stopFlag = false) (free : (state.calls thread).reserved = false)
    (free' : call.reserved = false) (known : CallInv state call) :
    RingInv { state.setCall thread call with currentIndex := index } := by
  refine inv.quiet counts running fun other => ?_
  change update state.calls thread call other = _ ∨
    _ ∧ (update state.calls thread call other).reserved = false ∧
      CallInv state (update state.calls thread call other)
  by_cases same : other = thread
  · subst same
    rw [update_self]
    exact Or.inr ⟨free, free', known⟩
  · rw [update_of_ne same]
    exact Or.inl rfl

theorem RingInv.stay {call : Call} (free : (state.calls thread).reserved = false)
    (free' : call.reserved = false) (known : CallInv state call) :
    RingInv (state.setCall thread call) :=
  inv.move inv.counts inv.running free free' known

omit [DecidableEq Thread] in
/-- What calls know stays true when a task is pushed whose slot is free. -/
theorem RingInv.callInv_pushed (empty : state.items (state.pushes.length % ringBufferSize) = none)
    (pushes : state'.pushes = state.pushes ++ [task]) (pops : state'.pops = state.pops)
    (items : state'.items = state.items) (popped : state'.popped = state.popped) :
    CallInv state' (state.calls other) := by
  have known := inv.calls other
  have length : state'.pushes.length = state.pushes.length + 1 := by
    rw [pushes, List.length_append, List.length_singleton]
  have old : ∀ number, number < state.pushes.length →
      state'.pushes[number]? = state.pushes[number]? := fun number low => by
    rw [pushes, List.getElem?_append_left low]
  have observes : ∀ index, Observed state index → Observed state' index := by
    intro index observed
    refine ⟨observed.1, ?_, ?_⟩
    · rw [length]
      exact Nat.le_succ_of_le observed.2.1
    · rw [pops]
      exact observed.2.2
  cases case : state.calls other with
  | pushItem task' index =>
    rw [case] at known
    exact ⟨observes index known.1, known.2⟩
  | pushExchange task' index =>
    rw [case] at known
    refine ⟨observes index known.1, known.2.1, fun produce => ?_⟩
    rw [length] at produce
    exact absurd known.1.2.1 (by omega)
  | pushStore task' slot number needWake =>
    rw [case] at known
    obtain ⟨low, here, pushed, free⟩ := known
    obtain ⟨high, -⟩ := List.getElem?_eq_some_iff.mp pushed
    exact ⟨pops ▸ low, here, (old number high).trans pushed, items ▸ free⟩
  | popItem waits index =>
    rw [case] at known
    exact ⟨observes index known.1, known.2⟩
  | popExchange waits index =>
    rw [case] at known
    obtain ⟨observed, notEmpty, holds⟩ := known
    refine ⟨observes index observed, notEmpty, fun consume => ?_⟩
    rw [pops] at consume ⊢
    rw [items, old _ (observed.pops_lt notEmpty consume)]
    exact holds consume
  | popTake slot number =>
    rw [case] at known
    obtain ⟨low, here, recent, holds, unpopped⟩ := known
    refine ⟨pops ▸ low, here, ?_, ?_, popped ▸ unpopped⟩
    · rw [length]
      -- the slot of the new task is free, that of the pending pop is not
      refine Nat.lt_of_le_of_ne recent fun lap => ?_
      rw [lap, Nat.add_mod_right, ← here] at empty
      exact inv.take_none case empty
    · rw [items, old _ (Nat.lt_of_lt_of_le low inv.ordered)]
      exact holds
  | stopLoad | stopExchange =>
    rw [case] at known
    exact known
  | idle | pushLoad | popLoad | waitExchange | futexWait | asleep | wake => trivial

theorem RingInv.reservePush (small : state.pushes.length + 1 < 2 ^ 31)
    (call : state.calls thread = .pushExchange task index) (current : state.currentIndex = index) :
    RingInv { state.setCall thread (.pushStore task (index.produce.toNat % ringBufferSize)
        state.pushes.length index.waitFlag) with
      currentIndex := index.produced
      pushes := state.pushes ++ [task] } := by
  have known := inv.calls thread
  rw [call] at known
  subst current
  obtain ⟨-, full, saw⟩ := known
  have empty := saw inv.produce inv.consume
  have room : state.pushes.length ≠ state.pops + ringBufferSize := fun filled =>
    Bool.false_ne_true (full.symm.trans (inv.full_iff.mpr filled))
  have length : (state.pushes ++ [task]).length = state.pushes.length + 1 := by
    rw [List.length_append, List.length_singleton]
  have old : ∀ number, number < state.pushes.length →
      (state.pushes ++ [task])[number]? = state.pushes[number]? := fun number low =>
    List.getElem?_append_left low
  have free : (state.calls thread).reserved = false := by rw [call]; rfl
  have stays := fun other => @update_reserved _ _ _ thread other
    (.pushStore task (state.currentIndex.produce.toNat % ringBufferSize) state.pushes.length
      state.currentIndex.waitFlag) free
  have ordered := inv.ordered
  have bounded := inv.bounded
  refine
    { inv with
      counts := ?_
      small := ?_
      ordered := ?_
      bounded := ?_
      calls := ?_
      stored := ?_
      held := ?_
      taken := ?_
      popped := ?_
      storeOnce := ?_
      takeOnce := ?_ }
  · refine ⟨?_, inv.counts.2⟩
    change state.currentIndex.produce + 1#31 = _
    rw [inv.counts.1, length, BitVec.ofNat_add]
  · change (state.pushes ++ [task]).length < 2 ^ 31
    rw [length]
    exact small
  · change state.pops ≤ (state.pushes ++ [task]).length
    rw [length]
    exact Nat.le_succ_of_le inv.ordered
  · change (state.pushes ++ [task]).length ≤ state.pops + ringBufferSize
    omega
  · refine (Function.forall_update_iff _ fun _ call => CallInv _ call).mpr
      ⟨?_, fun other _ => inv.callInv_pushed empty rfl rfl rfl rfl⟩
    refine ⟨inv.ordered, by rw [inv.produce], List.getElem?_concat_length, ?_⟩
    change state.items (state.currentIndex.produce.toNat % ringBufferSize) = none
    rw [inv.produce]
    exact empty
  · intro number low high
    change number < (state.pushes ++ [task]).length at high
    rw [length] at high
    rcases Nat.lt_or_eq_of_le (Nat.le_of_lt_succ high) with below | rfl
    · rcases inv.stored number low below with filled | ⟨other, task', slot, needWake, case⟩
      · exact Or.inl (filled.trans (old number below).symm)
      · refine Or.inr ⟨other, task', slot, needWake, ?_⟩
        exact (stays other (by rw [case]; rfl)).trans case
    · exact Or.inr ⟨thread, _, _, _, update_self ..⟩
  · intro slot task' holds
    obtain ⟨number, here, ⟨low, high, pushed⟩ | ⟨other, case⟩⟩ := inv.held slot task' holds
    · refine ⟨number, here, Or.inl ⟨low, ?_, (old number high).trans pushed⟩⟩
      change number < (state.pushes ++ [task]).length
      omega
    · refine ⟨number, here, Or.inr ⟨other, ?_⟩⟩
      exact (stays other (by rw [case]; rfl)).trans case
  · intro number low
    rcases inv.taken number low with popped | ⟨other, slot, case⟩
    · exact Or.inl popped
    · refine Or.inr ⟨other, slot, ?_⟩
      exact (stays other (by rw [case]; rfl)).trans case
  · intro number result mem
    obtain ⟨low, same⟩ := inv.popped number result mem
    exact ⟨low, same.trans (old number (Nat.lt_of_lt_of_le low inv.ordered)).symm⟩
  · intro first second _ _ _ _ number _ _ case case'
    refine once_update inv.storesOnce ?_ first second number ⟨_, _, _, case⟩ ⟨_, _, _, case'⟩
    -- a push that was pending has an older number
    rintro _ ⟨_, _, _, new⟩ other - stores
    cases new
    exact Nat.lt_irrefl _ (inv.stores_lt stores)
  · intro first second _ _ number case case'
    exact once_update inv.takesOnce (fun _ ⟨_, new⟩ => nomatch new)
      first second number ⟨_, case⟩ ⟨_, case'⟩

omit [DecidableEq Thread] in
theorem RingInv.fill_elsewhere {other : Nat} (item : Option Task) (low : state.pops ≤ number)
    (high : number < state.pushes.length) (low' : state.pops ≤ other)
    (high' : other < state.pushes.length) (different : other ≠ number) :
    update state.items (number % ringBufferSize) item (other % ringBufferSize) =
      state.items (other % ringBufferSize) :=
  update_of_ne (fun same => different (inv.slot_injective low' high' low high same)) _ _

omit [DecidableEq Thread] in
theorem RingInv.callInv_filled {needWake : Bool}
    (call : state.calls thread = .pushStore task (number % ringBufferSize) number needWake)
    (different : other ≠ thread) (pushes : state'.pushes = state.pushes)
    (pops : state'.pops = state.pops)
    (items : state'.items = update state.items (number % ringBufferSize) (some task))
    (popped : state'.popped = state.popped) : CallInv state' (state.calls other) := by
  have store := inv.calls thread
  rw [call] at store
  obtain ⟨low, -, pushed, empty⟩ := store
  obtain ⟨high, -⟩ := List.getElem?_eq_some_iff.mp pushed
  have observes : ∀ index, Observed state index → Observed state' index := fun index observed =>
    ⟨observed.1, pushes ▸ observed.2.1, pops ▸ observed.2.2⟩
  have known := inv.calls other
  cases case : state.calls other with
  | pushItem task' index =>
    rw [case] at known
    exact ⟨observes index known.1, known.2⟩
  | pushExchange task' index =>
    rw [case] at known
    obtain ⟨observed, notFull, free⟩ := known
    refine ⟨observes index observed, notFull, fun produce consume => ?_⟩
    rw [pushes] at produce ⊢
    rw [pops] at consume
    -- the next index is in another slot, since the ring is not full
    have notLap : state.pushes.length ≠ state.pops + ringBufferSize := by
      unfold ProduceConsumeIndex.full at notFull
      rw [decide_eq_false_iff_not] at notFull
      rw [← produce, ← consume]
      exact fun filled => notFull filled.symm
    have bounded := inv.bounded
    rw [items, update_of_ne]
    · exact free produce consume
    · unfold ringBufferSize at bounded notLap ⊢
      omega
  | pushStore task' slot number' needWake' =>
    rw [case] at known
    obtain ⟨low', rfl, pushed', empty'⟩ := known
    obtain ⟨high', -⟩ := List.getElem?_eq_some_iff.mp pushed'
    refine ⟨pops ▸ low', rfl, pushes ▸ pushed', ?_⟩
    rw [items, inv.fill_elsewhere _ low high low' high']
    · exact empty'
    · rintro rfl
      exact different (inv.storeOnce _ _ _ _ _ _ _ _ _ case call)
  | popItem waits index =>
    rw [case] at known
    exact ⟨observes index known.1, known.2⟩
  | popExchange waits index =>
    rw [case] at known
    obtain ⟨observed, notEmpty, holds⟩ := known
    refine ⟨observes index observed, notEmpty, fun consume => ?_⟩
    rw [pops] at consume ⊢
    have below := observed.pops_lt notEmpty consume
    rw [items, pushes, inv.fill_elsewhere _ low high (Nat.le_refl _) below]
    · exact holds consume
    · -- the slot of the oldest task has been filled
      rintro rfl
      rw [holds consume, pushed] at empty
      cases empty
  | popTake slot number' =>
    rw [case] at known
    obtain ⟨low', here, recent, holds, unpopped⟩ := known
    refine ⟨pops ▸ low', here, pushes ▸ recent, ?_, popped ▸ unpopped⟩
    rw [items, pushes, update_of_ne]
    · exact holds
    · exact fun same => inv.take_slot case (Nat.lt_of_lt_of_le low' low) high same.symm
  | stopLoad | stopExchange =>
    rw [case] at known
    exact known
  | idle | pushLoad | popLoad | waitExchange | futexWait | asleep | wake => trivial

theorem RingInv.fill {needWake : Bool} {rest : Call}
    (call : state.calls thread = .pushStore task slot number needWake)
    (free : rest.reserved = false) (known : ∀ state : State Thread, CallInv state rest) :
    RingInv { state.setCall thread rest with
      items := update state.items slot (some task) } := by
  have store := inv.calls thread
  rw [call] at store
  obtain ⟨low, rfl, pushed, empty⟩ := store
  obtain ⟨high, -⟩ := List.getElem?_eq_some_iff.mp pushed
  have others : ∀ other, other ≠ thread →
      update state.calls thread rest other = state.calls other := fun other different =>
    update_of_ne different _ _
  refine
    { inv with
      calls := ?_
      stored := ?_
      held := ?_
      taken := ?_
      storeOnce := ?_
      takeOnce := ?_ }
  · exact (Function.forall_update_iff _ fun _ call => CallInv _ call).mpr
      ⟨known _, fun other different => inv.callInv_filled call different rfl rfl rfl rfl⟩
  · intro number' low' high'
    by_cases same : number' = number
    · rw [same]
      exact Or.inl ((update_self ..).trans pushed.symm)
    · rcases inv.stored number' low' high' with filled | ⟨other, task', slot, needWake', case⟩
      · exact Or.inl ((inv.fill_elsewhere _ low high low' high' same).trans filled)
      · refine Or.inr ⟨other, task', slot, needWake', (others other ?_).trans case⟩
        rintro rfl
        rw [call] at case
        cases case
        exact same rfl
  · intro slot task' holds
    change update state.items _ _ slot = _ at holds
    by_cases same : slot = number % ringBufferSize
    · rw [same, update_self] at holds
      exact ⟨number, same.symm, Or.inl ⟨low, high, pushed.trans holds⟩⟩
    · rw [update_of_ne same] at holds
      obtain ⟨number', here, pending | ⟨other, case⟩⟩ := inv.held slot task' holds
      · exact ⟨number', here, Or.inl pending⟩
      · refine ⟨number', here, Or.inr ⟨other, (others other ?_).trans case⟩⟩
        rintro rfl
        rw [call] at case
        cases case
  · intro number' low'
    rcases inv.taken number' low' with popped | ⟨other, slot, case⟩
    · exact Or.inl popped
    · refine Or.inr ⟨other, slot, (others other ?_).trans case⟩
      rintro rfl
      rw [call] at case
      cases case
  · intro first second _ _ _ _ number _ _ case case'
    exact once_update inv.storesOnce
      (fun _ stores => absurd (free.symm.trans stores.reserved) Bool.false_ne_true)
      first second number ⟨_, _, _, case⟩ ⟨_, _, _, case'⟩
  · intro first second _ _ number case case'
    exact once_update inv.takesOnce
      (fun _ takes => absurd (free.symm.trans takes.reserved) Bool.false_ne_true)
      first second number ⟨_, case⟩ ⟨_, case'⟩

omit [DecidableEq Thread] in
theorem RingInv.callInv_popped (below : state.pops < state.pushes.length)
    (filled : state.items (state.pops % ringBufferSize) = state.pushes[state.pops]?)
    (pushes : state'.pushes = state.pushes) (pops : state'.pops = state.pops + 1)
    (items : state'.items = state.items) (popped : state'.popped = state.popped) :
    CallInv state' (state.calls other) := by
  have known := inv.calls other
  have observes : ∀ index, Observed state index → Observed state' index := by
    intro index observed
    refine ⟨observed.1, pushes ▸ observed.2.1, ?_⟩
    rw [pops]
    exact Nat.le_succ_of_le observed.2.2
  have not_next : ∀ index, Observed state index → index.consume.toNat ≠ state'.pops := by
    intro index observed consume
    rw [pops] at consume
    exact Nat.not_succ_le_self _ (consume ▸ observed.2.2)
  cases case : state.calls other with
  | pushItem task index =>
    rw [case] at known
    exact ⟨observes index known.1, known.2⟩
  | pushExchange task index =>
    rw [case] at known
    exact ⟨observes index known.1, known.2.1,
      fun _ consume => absurd consume (not_next index known.1)⟩
  | pushStore task slot number needWake =>
    rw [case] at known
    obtain ⟨low, rfl, pushed, empty⟩ := known
    -- a slot that is still to be filled is not that of the oldest task
    have apart : state.pops ≠ number := by
      rintro rfl
      rw [filled, List.getElem?_eq_getElem below] at empty
      cases empty
    refine ⟨?_, rfl, pushes ▸ pushed, items ▸ empty⟩
    rw [pops]
    exact Nat.lt_of_le_of_ne low apart
  | popItem waits index =>
    rw [case] at known
    exact ⟨observes index known.1, known.2⟩
  | popExchange waits index =>
    rw [case] at known
    exact ⟨observes index known.1, known.2.1,
      fun consume => absurd consume (not_next index known.1)⟩
  | popTake slot number =>
    rw [case] at known
    obtain ⟨low, here, recent, holds, unpopped⟩ := known
    refine ⟨?_, here, pushes ▸ recent, items ▸ pushes ▸ holds, popped ▸ unpopped⟩
    rw [pops]
    exact Nat.lt_succ_of_lt low
  | stopLoad | stopExchange =>
    rw [case] at known
    exact known
  | idle | pushLoad | popLoad | waitExchange | futexWait | asleep | wake => trivial

theorem RingInv.reservePop {waits : Bool} (call : state.calls thread = .popExchange waits index)
    (current : state.currentIndex = index) :
    RingInv { state.setCall thread (.popTake (index.consume.toNat % ringBufferSize) state.pops) with
      currentIndex := index.consumed
      pops := state.pops + 1 } := by
  have known := inv.calls thread
  rw [call] at known
  subst current
  obtain ⟨observed, notEmpty, filled⟩ := known
  have here := filled inv.consume
  have below : state.pops < state.pushes.length := by
    have pending := state.currentIndex.lt_of_not_empty notEmpty observed.1
    rw [inv.produce, inv.consume] at pending
    exact pending
  have task := List.getElem?_eq_getElem below
  have free : (state.calls thread).reserved = false := by rw [call]; rfl
  have bounded := inv.bounded
  have stays := fun other => @update_reserved _ _ _ thread other
    (.popTake (state.currentIndex.consume.toNat % ringBufferSize) state.pops) free
  refine
    { inv with
      counts := ⟨inv.counts.1, ?_⟩
      ordered := below
      bounded := ?_
      running := rfl
      calls := ?_
      stored := ?_
      held := ?_
      taken := ?_
      popped := ?_
      storeOnce := ?_
      takeOnce := ?_ }
  · change state.currentIndex.consume + 1#31 = _
    rw [inv.counts.2, BitVec.ofNat_add]
  · change state.pushes.length ≤ state.pops + 1 + ringBufferSize
    omega
  · refine (Function.forall_update_iff _ fun _ call => CallInv _ call).mpr
      ⟨?_, fun other _ => inv.callInv_popped below here rfl rfl rfl rfl⟩
    rw [inv.consume]
    refine ⟨Nat.lt_succ_self _, rfl, bounded, here, fun mem => ?_⟩
    obtain ⟨⟨number, result⟩, member, rfl⟩ := List.mem_map.mp mem
    exact Nat.lt_irrefl _ (inv.popped _ _ member).1
  · intro number low high
    rcases inv.stored number (Nat.le_of_succ_le low) high with
      filled | ⟨other, task', slot, needWake, case⟩
    · exact Or.inl filled
    · exact Or.inr ⟨other, task', slot, needWake, (stays other (by rw [case]; rfl)).trans case⟩
  · intro slot task' holds
    obtain ⟨number, same, ⟨low, high, pushed⟩ | ⟨other, case⟩⟩ := inv.held slot task' holds
    · rcases Nat.lt_or_eq_of_le low with above | rfl
      · exact ⟨number, same, Or.inl ⟨above, high, pushed⟩⟩
      · refine ⟨state.pops, same, Or.inr ⟨thread, ?_⟩⟩
        rw [inv.consume, same]
        exact update_self ..
    · exact ⟨number, same, Or.inr ⟨other, (stays other (by rw [case]; rfl)).trans case⟩⟩
  · intro number low
    rcases Nat.lt_or_eq_of_le (Nat.le_of_lt_succ low) with older | rfl
    · rcases inv.taken number older with popped | ⟨other, slot, case⟩
      · exact Or.inl popped
      · exact Or.inr ⟨other, slot, (stays other (by rw [case]; rfl)).trans case⟩
    · exact Or.inr ⟨thread, _, update_self ..⟩
  · intro number result mem
    obtain ⟨low, same⟩ := inv.popped number result mem
    exact ⟨Nat.lt_succ_of_lt low, same⟩
  · intro first second _ _ _ _ number _ _ case case'
    exact once_update inv.storesOnce (fun _ ⟨_, _, _, new⟩ => nomatch new)
      first second number ⟨_, _, _, case⟩ ⟨_, _, _, case'⟩
  · intro first second _ _ number case case'
    refine once_update inv.takesOnce ?_ first second number ⟨_, case⟩ ⟨_, case'⟩
    rintro _ ⟨_, new⟩ other - takes
    cases new
    exact Nat.lt_irrefl _ (inv.takes_lt takes)

omit [DecidableEq Thread] in
theorem RingInv.callInv_taken {item : Option Task}
    (call : state.calls thread = .popTake slot number) (different : other ≠ thread)
    (pushes : state'.pushes = state.pushes) (pops : state'.pops = state.pops)
    (items : state'.items = update state.items slot none)
    (popped : state'.popped = (number, item) :: state.popped) :
    CallInv state' (state.calls other) := by
  have own := inv.calls thread
  rw [call] at own
  obtain ⟨low, here, recent, holds, unpopped⟩ := own
  have observes : ∀ index, Observed state index → Observed state' index := fun index observed =>
    ⟨observed.1, pushes ▸ observed.2.1, pops ▸ observed.2.2⟩
  -- an empty slot stays empty
  have empties : ∀ slot', state.items slot' = none → state'.items slot' = none := by
    intro slot' empty
    rw [items]
    by_cases same : slot' = slot
    · rw [same, update_self]
    · rw [update_of_ne same]
      exact empty
  have known := inv.calls other
  cases case : state.calls other with
  | pushItem task' index =>
    rw [case] at known
    exact ⟨observes index known.1, known.2⟩
  | pushExchange task' index =>
    rw [case] at known
    obtain ⟨observed, notFull, free⟩ := known
    refine ⟨observes index observed, notFull, fun produce consume => ?_⟩
    rw [pushes] at produce ⊢
    rw [pops] at consume
    exact empties _ (free produce consume)
  | pushStore task' slot' number' needWake' =>
    rw [case] at known
    obtain ⟨low', same, pushed, empty⟩ := known
    exact ⟨pops ▸ low', same, pushes ▸ pushed, empties _ empty⟩
  | popItem waits index =>
    rw [case] at known
    exact ⟨observes index known.1, known.2⟩
  | popExchange waits index =>
    rw [case] at known
    obtain ⟨observed, notEmpty, filled⟩ := known
    refine ⟨observes index observed, notEmpty, fun consume => ?_⟩
    rw [pops] at consume ⊢
    rw [items, pushes, update_of_ne]
    · exact filled consume
    · exact inv.take_slot call low (observed.pops_lt notEmpty consume)
  | popTake slot' number' =>
    rw [case] at known
    obtain ⟨low', here', recent', holds', unpopped'⟩ := known
    have apart : number' ≠ number := by
      rintro rfl
      exact different (inv.takeOnce _ _ _ _ _ case call)
    refine ⟨pops ▸ low', here', pushes ▸ recent', ?_, fun mem => ?_⟩
    · rw [items, pushes, update_of_ne]
      · exact holds'
      · rintro rfl
        have ordered := inv.ordered
        unfold ringBufferSize at here here' recent recent'
        omega
    · rw [popped] at mem
      rcases List.mem_cons.mp mem with rfl | old
      · exact apart rfl
      · exact unpopped' old
  | stopLoad | stopExchange =>
    rw [case] at known
    exact known
  | idle | pushLoad | popLoad | waitExchange | futexWait | asleep | wake => trivial

theorem RingInv.take (call : state.calls thread = .popTake slot number) :
    RingInv { state.setCall thread .idle with
      items := update state.items slot none
      popped := (number, state.items slot) :: state.popped } := by
  have own := inv.calls thread
  rw [call] at own
  obtain ⟨low, here, recent, holds, unpopped⟩ := own
  have ordered := inv.ordered
  have others : ∀ other, other ≠ thread →
      update state.calls thread .idle other = state.calls other :=
    fun other different => update_of_ne different _ _
  refine
    { inv with
      calls := ?_
      stored := ?_
      held := ?_
      taken := ?_
      popped := ?_
      poppedOnce := ?_
      storeOnce := ?_
      takeOnce := ?_ }
  · exact (Function.forall_update_iff _ fun _ call => CallInv _ call).mpr
      ⟨trivial, fun other different => inv.callInv_taken call different rfl rfl rfl rfl⟩
  · intro number' low' high'
    rcases inv.stored number' low' high' with filled | ⟨other, task', slot', needWake, case⟩
    · refine Or.inl (Eq.trans (update_of_ne ?_ _ _) filled)
      exact inv.take_slot call (Nat.lt_of_lt_of_le low low') high'
    · refine Or.inr ⟨other, task', slot', needWake, (others other ?_).trans case⟩
      rintro rfl
      rw [call] at case
      cases case
  · intro slot' task' filled
    change update state.items slot none slot' = _ at filled
    by_cases same : slot' = slot
    · rw [same, update_self] at filled
      cases filled
    · rw [update_of_ne same] at filled
      obtain ⟨number', here', pending | ⟨other, case⟩⟩ := inv.held slot' task' filled
      · exact ⟨number', here', Or.inl pending⟩
      · refine ⟨number', here', Or.inr ⟨other, (others other ?_).trans case⟩⟩
        rintro rfl
        rw [call] at case
        cases case
        exact same rfl
  · intro number' low'
    by_cases same : number' = number
    · exact Or.inl (List.mem_cons.mpr (Or.inl same))
    · rcases inv.taken number' low' with popped | ⟨other, slot', case⟩
      · exact Or.inl (List.mem_cons_of_mem _ popped)
      · refine Or.inr ⟨other, slot', (others other ?_).trans case⟩
        rintro rfl
        rw [call] at case
        cases case
        exact same rfl
  · intro number' result mem
    rcases List.mem_cons.mp mem with taken | old
    · cases taken
      exact ⟨low, holds⟩
    · exact inv.popped number' result old
  · exact List.nodup_cons.mpr ⟨unpopped, inv.poppedOnce⟩
  · intro first second _ _ _ _ number' _ _ case case'
    exact once_update inv.storesOnce (fun _ ⟨_, _, _, new⟩ => nomatch new)
      first second number' ⟨_, _, _, case⟩ ⟨_, _, _, case'⟩
  · intro first second _ _ number' case case'
    exact once_update inv.takesOnce (fun _ ⟨_, new⟩ => nomatch new)
      first second number' ⟨_, case⟩ ⟨_, case'⟩

omit [DecidableEq Thread] in
/-- A pop that finds a task sees the oldest one, not one of the lap before. -/
theorem RingInv.sawTask {waits : Bool} (observed : Observed state index)
    (notEmpty : index.empty = false)
    (filled : state.items (index.consume.toNat % ringBufferSize) ≠ none) :
    CallInv state (.popExchange waits index) := by
  refine ⟨observed, notEmpty, fun consume => ?_⟩
  have below := index.lt_of_not_empty notEmpty observed.1
  rw [consume] at below filled
  have low := Nat.lt_of_lt_of_le below observed.2.1
  obtain ⟨task, holds⟩ := Option.ne_none_iff_exists'.mp filled
  obtain ⟨number, here, ⟨atLeast, high, pushed⟩ | ⟨thread, call⟩⟩ := inv.held _ task holds
  · rw [inv.slot_injective atLeast high (Nat.le_refl _) low here] at pushed
    exact holds.trans pushed.symm
  · have take := inv.calls thread
    rw [call] at take
    exact absurd rfl (inv.take_slot call take.1 low)

end Steps

end Invariant

/-! ## Runs -/

variable [DecidableEq Thread]

/-- A push that reserves does not wrap the produce index around. -/
def ProducesBelow (state : State Thread) : Action Thread → Prop
  | .advance thread spurious =>
    match state.calls thread with
    | .pushExchange _ index => state.currentIndex = index → ¬ spurious →
        state.pushes.length + 1 < 2 ^ 31
    | _ => True
  | _ => True

def Action.requestsStop : Action Thread → Bool
  | .requestStop _ => true
  | _ => false

/-- No stop is requested and no index wraps around. -/
def WithoutStop (state : State Thread) (action : Action Thread) : Prop :=
  ProducesBelow state action ∧ action.requestsStop = false

theorem pushHead_free (task : Task) (index : ProduceConsumeIndex) :
    (pushHead task index).reserved = false := by
  unfold pushHead
  split <;> rfl

theorem popHead_free (waits : Bool) (index : ProduceConsumeIndex) :
    (popHead waits index).reserved = false := by
  unfold popHead
  split
  · rfl
  · split
    · split <;> rfl
    · rfl

theorem advance_ring {state state' : State Thread} (inv : RingInv state)
    {thread : Thread} {spurious : Bool} (small : ProducesBelow state (.advance thread spurious))
    (stepped : state.advance thread spurious = some state') : RingInv state' := by
  have known := inv.calls thread
  unfold ProducesBelow at small
  unfold State.advance at stepped
  cases call : state.calls thread with
  | idle =>
    simp only [call] at stepped
    cases stepped
  | pushLoad task =>
    simp only [call] at stepped
    cases stepped
    exact inv.stay (by rw [call]; rfl) (pushHead_free ..) (inv.headOfPush task)
  | popLoad waits =>
    simp only [call] at stepped
    cases stepped
    exact inv.stay (by rw [call]; rfl) (popHead_free ..) (inv.headOfPop waits)
  | pushItem task index =>
    rw [call] at known
    simp only [call] at stepped
    split at stepped
    next =>
      cases stepped
      exact inv.stay (by rw [call]; rfl) rfl trivial
    next free =>
      cases stepped
      rw [Bool.not_eq_true, Option.isSome_eq_false_iff, Option.isNone_iff_eq_none] at free
      exact inv.stay (by rw [call]; rfl) rfl (callInv_sawFree known.1 known.2 free)
  | pushExchange task index =>
    simp only [call] at stepped small
    split at stepped
    next reserved =>
      cases stepped
      exact inv.reservePush (small reserved.1 reserved.2) call reserved.1
    next =>
      cases stepped
      exact inv.stay (by rw [call]; rfl) (pushHead_free ..) (inv.headOfPush task)
  | pushStore task slot number needWake =>
    rw [call] at known
    simp only [call] at stepped
    cases stepped
    rw [known.2.2.2]
    cases needWake with
    | true => exact inv.fill call rfl fun _ => trivial
    | false => exact inv.fill call rfl fun _ => trivial
  | popItem waits index =>
    rw [call] at known
    simp only [call] at stepped
    split at stepped
    next =>
      cases stepped
      exact inv.stay (by rw [call]; rfl) rfl trivial
    next filled =>
      cases stepped
      rw [Option.isNone_iff_eq_none] at filled
      exact inv.stay (by rw [call]; rfl) rfl (inv.sawTask known.1 known.2 filled)
  | popExchange waits index =>
    simp only [call] at stepped
    split at stepped
    next reserved =>
      cases stepped
      exact inv.reservePop call reserved.1
    next =>
      cases stepped
      exact inv.stay (by rw [call]; rfl) (popHead_free ..) (inv.headOfPop waits)
  | popTake slot number =>
    simp only [call] at stepped
    cases stepped
    exact inv.take call
  | waitExchange index =>
    simp only [call] at stepped
    split at stepped
    next set =>
      cases stepped
      refine inv.move ?_ rfl (by rw [call]; rfl) rfl trivial
      rw [← set.1]
      exact inv.counts
    next =>
      cases stepped
      exact inv.stay (by rw [call]; rfl) (popHead_free ..) (inv.headOfPop true)
  | futexWait word =>
    simp only [call] at stepped
    split at stepped <;> cases stepped <;> exact inv.stay (by rw [call]; rfl) rfl trivial
  | asleep word =>
    simp only [call] at stepped
    split at stepped
    · cases stepped
      exact inv.stay (by rw [call]; rfl) rfl trivial
    · cases stepped
  | stopLoad | stopExchange =>
    rw [call] at known
    exact known.elim
  | wake =>
    simp only [call] at stepped
    cases stepped
    have woken : RingInv state.wakeAll := by
      refine inv.quiet inv.counts inv.running fun other => ?_
      cases asleep : state.calls other with
      | asleep word => exact Or.inr ⟨rfl, rfl, trivial⟩
      | _ => exact Or.inl rfl
    refine woken.stay ?_ rfl trivial
    change (state.calls thread).woken.reserved = false
    rw [call]
    rfl

theorem step_ring (state : State Thread) (action : Action Thread) (state' : State Thread)
    (inv : RingInv state) (without : WithoutStop state action)
    (stepped : step state action = some state') : RingInv state' := by
  cases action with
  | pushTask thread | tryPopTask thread | popTaskOrWait thread =>
    simp only [step] at stepped
    split at stepped
    next idle =>
      cases stepped
      exact inv.stay (by rw [idle]; rfl) rfl trivial
    next => cases stepped
  | requestStop thread => exact absurd without.2.symm Bool.false_ne_true
  | advance thread spurious => exact advance_ring inv without.1 stepped

/-- What the calls have returned: the pop with a number returns the task with that
number, and no pop but that one does.  A slot never loses a task. -/
structure PopsInOrder (state : State Thread) : Prop where
  inOrder : ∀ number result, (number, result) ∈ state.popped →
    ∃ task, result = some task ∧ state.pushes[number]? = some task
  once : (state.popped.map Prod.fst).Nodup
  returned : ∀ number, number < state.pops → number ∈ state.popped.map Prod.fst ∨
    ∃ thread slot, state.calls thread = .popTake slot number
  kept : state.overwritten = []
  ordered : state.pops ≤ state.pushes.length
  bounded : state.pushes.length ≤ state.pops + 1024
  /-- When the calls have returned, the next pop returns the next task. -/
  next : (∀ thread, state.calls thread = .idle) → state.pops < state.pushes.length →
    ∀ thread, ∃ state', Runs.run step state [.tryPopTask thread, .advance thread false,
      .advance thread false, .advance thread false, .advance thread false] = some state' ∧
      state'.popped = (state.pops, state.pushes[state.pops]?) :: state.popped

theorem RingInv.popAlone {state : State Thread} (inv : RingInv state)
    (idle : ∀ thread, state.calls thread = .idle) (pending : state.pops < state.pushes.length)
    (thread : Thread) : ∃ state', Runs.run step state [.tryPopTask thread, .advance thread false,
      .advance thread false, .advance thread false, .advance thread false] = some state' ∧
      state'.popped = (state.pops, state.pushes[state.pops]?) :: state.popped := by
  have filled : state.items (state.pops % ringBufferSize) = state.pushes[state.pops]? := by
    rcases inv.stored state.pops (Nat.le_refl _) pending with filled | ⟨other, _, _, _, call⟩
    · exact filled
    · rw [idle other] at call
      cases call
  have some := filled.trans (List.getElem?_eq_getElem pending)
  have head : popHead false state.currentIndex = .popItem false state.currentIndex := by
    have notEmpty : state.currentIndex.empty = false := by
      rw [Bool.eq_false_iff]
      exact fun empty => Nat.ne_of_gt pending (inv.empty_iff.mp empty)
    unfold popHead
    rw [inv.running, notEmpty]
    rfl
  refine ⟨{ state.setCall thread .idle with
    currentIndex := state.currentIndex.consumed
    pops := state.pops + 1
    items := update state.items (state.pops % ringBufferSize) none
    popped := (state.pops, state.pushes[state.pops]?) :: state.popped }, ?_, rfl⟩
  simp [Runs.run_cons, step, State.advance, State.setCall, idle thread, head, inv.consume, filled,
    pending]

/-- Without stop requests and wrap-around the pops return the pushed tasks in the
order in which their indices were reserved, each of them once. -/
theorem run_pops_in_order {actions : List (Action Thread)} {state : State Thread}
    (without : Runs.StepsMeet step WithoutStop {} actions) (reached : run actions = some state) :
    PopsInOrder state := by
  have inv := Runs.run_invariant step_ring initial_ring without reached
  refine ⟨fun number result mem => ?_, inv.poppedOnce, inv.taken, inv.kept, inv.ordered,
    inv.bounded, inv.popAlone⟩
  obtain ⟨low, same⟩ := inv.popped number result mem
  have task := List.getElem?_eq_getElem (Nat.lt_of_lt_of_le low inv.ordered)
  exact ⟨_, same.trans task, task⟩

instance (state : State Thread) (action : Action Thread) :
    Decidable (ProducesBelow state action) :=
  match action with
  | .advance thread _ => by
      unfold ProducesBelow
      dsimp only
      exact match state.calls thread with
        | .pushExchange _ _ => inferInstance
        | .idle | .pushLoad _ | .pushItem .. | .pushStore .. | .popLoad _ | .popItem ..
        | .popExchange .. | .popTake .. | .waitExchange _ | .futexWait _ | .asleep _ | .stopLoad
        | .stopExchange .. | .wake => isTrue trivial
  | .pushTask _ _ | .tryPopTask _ | .popTaskOrWait _ | .requestStop _ => isTrue trivial

instance (state : State Thread) (action : Action Thread) : Decidable (WithoutStop state action) :=
  inferInstanceAs (Decidable (_ ∧ _))

/-- Two pushes reserve one after the other and store the other way round; the pop
waits for the first. -/
def crossedPushes : List (Action (Fin 3)) :=
  [.pushTask 0 7, .advance 0 false, .advance 0 false, .advance 0 false, .pushTask 1 8,
    .advance 1 false, .advance 1 false, .advance 1 false, .advance 1 false, .tryPopTask 2,
    .advance 2 false, .advance 2 false, .advance 0 false, .advance 2 false, .advance 2 false,
    .advance 2 false, .advance 2 false]

theorem crossedPushes_in_order :
    ∃ state, run crossedPushes = some state ∧ PopsInOrder state := by
  have runs : (run crossedPushes).isSome = true := by decide +kernel
  obtain ⟨state, reached⟩ := Option.isSome_iff_exists.mp runs
  exact ⟨state, reached, run_pops_in_order (by decide +kernel) reached⟩

example : (run crossedPushes).map State.popped = some [(0, some 7)] := by decide +kernel

end Voxen.Svc.TaskQueueSet
