import Voxen.Common.SharedObjectPool
import Voxen.Lib.FinSizes

/-!
# Runs of the shared object pool

An allocation reads the link of the slot on top of the stack and then puts it in
place of that slot.  If the link is still the one of the slot, the stack stays the
chain of the free slots.
-/

namespace Voxen.SharedObjectPool

open Function (update update_of_ne update_self)

variable {Thread : Type}

namespace Call

/-- The slot that the call alone works on. -/
def slot? : Call → Option Slot
  | setRef slot => some slot
  | construct slot => some slot
  | destroy slot => some slot
  | pushLoad slot => some slot
  | pushLink slot _ => some slot
  | pushExchange slot _ => some slot
  | _ => none

/-- The status of that slot. -/
def slotStatus : Call → Status
  | setRef _ => .live
  | construct _ => .live
  | destroy _ => .live
  | _ => .releasing

theorem Pushes.slot_eq {call : Call} {slot : Slot} (pushes : call.Pushes slot) :
    call.slot? = some slot := by
  cases call <;> first | exact congrArg some pushes | exact pushes.elim

end Call

/-- The slots of the stack, from its top. -/
structure Inv (state : State Thread) (slots : List Slot) : Prop where
  chain : LinkChain state.nextFreed state.lastFreedObject slots
  nodup : slots.Nodup
  free_iff : ∀ slot, slot ∈ slots ↔ state.status slot = .free
  owned : ∀ thread slot, (state.calls thread).slot? = some slot →
    state.status slot = (state.calls thread).slotStatus ∧ state.handles slot = 0
  owner_unique : ∀ thread other slot, (state.calls thread).slot? = some slot →
    (state.calls other).slot? = some slot → thread = other
  linked : ∀ thread slot nextFreed, state.calls thread = .pushExchange slot nextFreed →
    state.nextFreed slot = nextFreed
  built : ∀ thread slot, state.calls thread = .construct slot → state.refCounters slot = 1
  counted : ∀ slot, 0 < state.handles slot →
    state.status slot = .live ∧ state.refCounters slot = state.handles slot
  releasing : ∀ slot, state.status slot = .releasing →
    ∃ thread, (state.calls thread).Pushes slot
  born : ∀ slot, state.status slot ≠ .unborn →
    slot.slab + 1 < state.slabs ∨ slot.slab + 1 = state.slabs ∧ slot.index < state.initialObjects
  handedOut : ∀ handed ∈ state.handedOut, handed.2 ≠ .live

theorem initial_inv : Inv ({} : State Thread) [] where
  chain := .nil
  nodup := List.nodup_nil
  free_iff _ := by simp
  owned _ _ same := by cases same
  owner_unique _ _ _ same := by cases same
  linked _ _ _ same := by cases same
  built _ _ same := by cases same
  counted _ positive := by cases positive
  releasing _ same := by cases same
  born _ isBorn := absurd rfl isBorn
  handedOut _ mem := by cases mem

section SetCall

variable [DecidableEq Thread] {state : State Thread} {thread other : Thread} {call call' : Call}

theorem setCall_eq (same : (state.setCall thread call).calls other = call') :
    other = thread ∧ call = call' ∨ other ≠ thread ∧ state.calls other = call' := by
  by_cases isThread : other = thread
  · subst isThread
    exact Or.inl ⟨rfl, by simpa [State.setCall] using same⟩
  · exact Or.inr ⟨isThread, by simpa [State.setCall, isThread] using same⟩

theorem setCall_slot {slot : Slot}
    (same : ((state.setCall thread call).calls other).slot? = some slot) :
    other = thread ∧ call.slot? = some slot ∨
      other ≠ thread ∧ (state.calls other).slot? = some slot := by
  obtain ⟨call', isCall'⟩ : ∃ call', (state.setCall thread call).calls other = call' := ⟨_, rfl⟩
  rw [isCall'] at same
  rcases setCall_eq isCall' with ⟨isThread, isCall⟩ | ⟨notThread, isCall⟩
  · exact Or.inl ⟨isThread, by rw [isCall]; exact same⟩
  · exact Or.inr ⟨notThread, by rw [isCall]; exact same⟩

variable (state call)

theorem setCall_self (thread : Thread) : (state.setCall thread call).calls thread = call := by
  simp [State.setCall]

theorem setCall_other (notThread : other ≠ thread) :
    (state.setCall thread call).calls other = state.calls other := by
  simp [State.setCall, notThread]

end SetCall

namespace Inv

variable [DecidableEq Thread] {state : State Thread} {slots : List Slot} {thread : Thread}
  {slot : Slot}

/-- A link that a thread has read for its exchange is still the one in memory. -/
theorem setCall_linked (inv : Inv state slots) {call : Call}
    (linked : ∀ slot nextFreed, call = .pushExchange slot nextFreed →
      state.nextFreed slot = nextFreed) (other : Thread) (slot : Slot) (nextFreed : Option Slot)
    (same : (state.setCall thread call).calls other = .pushExchange slot nextFreed) :
    state.nextFreed slot = nextFreed := by
  rcases setCall_eq same with ⟨-, same⟩ | ⟨-, same⟩
  · exact linked slot nextFreed same
  · exact inv.linked other slot nextFreed same

theorem setCall_built (inv : Inv state slots) {call : Call}
    (built : ∀ slot, call = .construct slot → state.refCounters slot = 1) (other : Thread)
    (slot : Slot) (same : (state.setCall thread call).calls other = .construct slot) :
    state.refCounters slot = 1 := by
  rcases setCall_eq same with ⟨-, same⟩ | ⟨-, same⟩
  · exact built slot same
  · exact inv.built other slot same

theorem goOn (inv : Inv state slots) (thread : Thread) {call : Call}
    (slotSame : call.slot? = (state.calls thread).slot?)
    (status : call.slotStatus = (state.calls thread).slotStatus)
    (pushes : ∀ slot, (state.calls thread).Pushes slot → call.Pushes slot)
    (linked : ∀ slot nextFreed, call = .pushExchange slot nextFreed →
      state.nextFreed slot = nextFreed)
    (built : ∀ slot, call = .construct slot → state.refCounters slot = 1) :
    Inv (state.setCall thread call) slots := by
  have slotOf : ∀ other slot, ((state.setCall thread call).calls other).slot? = some slot →
      (state.calls other).slot? = some slot := by
    intro other slot same
    rcases setCall_slot same with ⟨rfl, same'⟩ | ⟨-, same'⟩
    · exact slotSame.symm.trans same'
    · exact same'
  refine
    { inv with
      owned := fun other slot same => ?_
      owner_unique := fun first second slot same same' => ?_
      linked := inv.setCall_linked linked
      built := inv.setCall_built built
      releasing := fun slot same => ?_ }
  · obtain ⟨statusIs, none_⟩ := inv.owned other slot (slotOf other slot same)
    refine ⟨statusIs.trans ?_, none_⟩
    by_cases isThread : other = thread
    · subst isThread
      rw [setCall_self, status]
    · rw [setCall_other _ _ isThread]
  · exact inv.owner_unique first second slot (slotOf first slot same) (slotOf second slot same')
  · obtain ⟨other, held⟩ := inv.releasing slot same
    refine ⟨other, ?_⟩
    by_cases isThread : other = thread
    · subst isThread
      rw [setCall_self]
      exact pushes slot held
    · rw [setCall_other _ _ isThread]
      exact held

theorem handOut (inv : Inv state slots) {call : Call} {rest : List Slot}
    {lastFreed : Option Slot} {refCounters : Slot → Nat} {slabs initialObjects : Nat}
    (before : state.status slot ≠ .live) (notReleasing : state.status slot ≠ .releasing)
    (idle : (state.calls thread).slot? = none) (callSlot : call.slot? = some slot)
    (callStatus : call.slotStatus = .live) (notPush : ∀ slot, ¬ call.Pushes slot)
    (built : ∀ built, call = .construct built → refCounters built = 1)
    (others : ∀ other, other ≠ slot → refCounters other = state.refCounters other)
    (chain : LinkChain state.nextFreed lastFreed rest) (nodup : rest.Nodup)
    (free : ∀ other, other ∈ rest ↔ other ≠ slot ∧ state.status other = .free)
    (born : ∀ other, other = slot ∨ state.status other ≠ .unborn →
      other.slab + 1 < slabs ∨ other.slab + 1 = slabs ∧ other.index < initialObjects) :
    Inv { (state.handOut slot).setCall thread call with
      lastFreedObject := lastFreed
      refCounters
      slabs
      initialObjects } rest := by
  have notOwned : ∀ other, (state.calls other).slot? ≠ some slot := by
    intro other same
    have status := (inv.owned other slot same).1
    cases callIs : state.calls other <;> rw [callIs] at status <;>
      first | exact before status | exact notReleasing status
  have noHandle : ¬ 0 < state.handles slot := fun positive => before (inv.counted slot positive).1
  have statusOther : ∀ other, other ≠ slot →
      (state.handOut slot).status other = state.status other :=
    fun other notSlot => update_of_ne notSlot _ _
  have statusSlot : (state.handOut slot).status slot = .live := update_self _ _ _
  refine
    { chain, nodup
      free_iff := fun other => ?_
      owned := fun other found same => ?_
      owner_unique := fun first second found same same' => ?_
      linked := fun other found nextFreed same => ?_
      built := fun other found same => ?_
      counted := fun found positive => ?_
      releasing := fun found same => ?_
      born := fun found isBorn => ?_
      handedOut := fun handed mem => ?_ }
  · rw [free]
    by_cases isSlot : other = slot
    · subst isSlot
      exact ⟨fun both => absurd rfl both.1, fun same => by cases statusSlot.symm.trans same⟩
    · exact ⟨fun both => (statusOther other isSlot).trans both.2,
        fun same => ⟨isSlot, (statusOther other isSlot).symm.trans same⟩⟩
  · rcases setCall_slot same with ⟨rfl, same'⟩ | ⟨notThread, same'⟩
    · rw [callSlot] at same'
      cases same'
      have isCall := setCall_self (state.handOut slot) call other
      refine ⟨?_, Nat.eq_zero_of_not_pos noHandle⟩
      exact statusSlot.trans (callStatus.symm.trans (congrArg Call.slotStatus isCall.symm))
    · have notSlot : found ≠ slot := by
        rintro rfl
        exact notOwned other same'
      obtain ⟨status, none_⟩ := inv.owned other found same'
      have isCall := setCall_other (state.handOut slot) call notThread
      exact ⟨(statusOther found notSlot).trans (status.trans
        (congrArg Call.slotStatus isCall.symm)), none_⟩
  · rcases setCall_slot same with ⟨isFirst, same⟩ | ⟨-, same⟩ <;>
      rcases setCall_slot same' with ⟨isSecond, same'⟩ | ⟨-, same'⟩
    · exact isFirst.trans isSecond.symm
    · rw [callSlot] at same
      cases same
      exact absurd same' (notOwned second)
    · rw [callSlot] at same'
      cases same'
      exact absurd same (notOwned first)
    · exact inv.owner_unique first second found same same'
  · rcases setCall_eq same with ⟨-, rfl⟩ | ⟨-, same⟩
    · exact absurd rfl (notPush found)
    · exact inv.linked other found nextFreed same
  · rcases setCall_eq same with ⟨-, same⟩ | ⟨-, same⟩
    · exact built found same
    · have notSlot : found ≠ slot := by
        rintro rfl
        exact notOwned other (congrArg Call.slot? same)
      exact (others found notSlot).trans (inv.built other found same)
  · have notSlot : found ≠ slot := by
      rintro rfl
      exact noHandle positive
    obtain ⟨status, count⟩ := inv.counted found positive
    exact ⟨(statusOther found notSlot).trans status, (others found notSlot).trans count⟩
  · have notSlot : found ≠ slot := by
      rintro rfl
      cases statusSlot.symm.trans same
    obtain ⟨other, held⟩ := inv.releasing found ((statusOther found notSlot).symm.trans same)
    refine ⟨other, ?_⟩
    have notThread : other ≠ thread := by
      rintro rfl
      rw [held.slot_eq] at idle
      cases idle
    have isCall := setCall_other (state.handOut slot) call notThread
    exact isCall.symm ▸ held
  · refine born found ?_
    by_cases isSlot : found = slot
    · exact Or.inl isSlot
    · exact Or.inr fun unborn => isBorn ((statusOther found isSlot).trans unborn)
  · rcases List.mem_cons.mp mem with rfl | mem
    · exact before
    · exact inv.handedOut handed mem

omit [DecidableEq Thread] in
/-- The memory outside of the stack is written, except while it is being linked. -/
theorem write (inv : Inv state slots) (slot : Slot) (word : Option Slot)
    (notFree : state.status slot ≠ .free)
    (notLinked : ∀ other nextFreed, state.calls other ≠ .pushExchange slot nextFreed) :
    Inv { state with nextFreed := update state.nextFreed slot word } slots := by
  refine
    { inv with
      chain := inv.chain.update (fun mem => notFree ((inv.free_iff slot).mp mem)) word
      linked := fun other found nextFreed same => ?_ }
  have notSlot : found ≠ slot := by
    rintro rfl
    exact notLinked other nextFreed same
  exact (update_of_ne notSlot _ _).trans (inv.linked other found nextFreed same)

omit [DecidableEq Thread] in
theorem setRefCounter (inv : Inv state slots) (thread : Thread)
    (owner : (state.calls thread).slot? = some slot)
    (value : Nat) (notBuilt : state.calls thread ≠ .construct slot) :
    Inv { state with refCounters := update state.refCounters slot value } slots := by
  refine
    { inv with
      built := fun other found same => ?_
      counted := fun found positive => ?_ }
  · have notSlot : found ≠ slot := by
      rintro rfl
      have isThread := inv.owner_unique other thread found (congrArg Call.slot? same) owner
      exact notBuilt (isThread ▸ same)
    exact (update_of_ne notSlot _ _).trans (inv.built other found same)
  · have notSlot : found ≠ slot := by
      rintro rfl
      rw [(inv.owned thread found owner).2] at positive
      cases positive
    obtain ⟨status, count⟩ := inv.counted found positive
    exact ⟨status, (update_of_ne notSlot _ _).trans count⟩

/-- The slot a call works on gets the status that goes with the next call. -/
theorem restatus (inv : Inv state slots) (owner : (state.calls thread).slot? = some slot)
    (isBorn : state.status slot ≠ .unborn) {call : Call} {status : Status} {slots' : List Slot}
    {lastFreed : Option Slot} (chain : LinkChain state.nextFreed lastFreed slots')
    (nodup : slots'.Nodup)
    (free : ∀ other, other ∈ slots' ↔ update state.status slot status other = .free)
    (slotIs : ∀ found, call.slot? = some found → found = slot ∧ status = call.slotStatus)
    (pushes : status = .releasing → call.Pushes slot)
    (linked : ∀ slot nextFreed, call ≠ .pushExchange slot nextFreed)
    (built : ∀ slot, call ≠ .construct slot) :
    Inv { state.setCall thread call with
      lastFreedObject := lastFreed
      status := update state.status slot status } slots' := by
  have statusOther : ∀ other, other ≠ slot →
      update state.status slot status other = state.status other :=
    fun other notSlot => update_of_ne notSlot _ _
  have noHandle := (inv.owned thread slot owner).2
  have slotOf : ∀ other found, ((state.setCall thread call).calls other).slot? = some found →
      (state.calls other).slot? = some found := by
    intro other found same
    rcases setCall_slot same with ⟨rfl, same'⟩ | ⟨-, same'⟩
    · rw [(slotIs found same').1]
      exact owner
    · exact same'
  refine
    { inv with
      chain, nodup
      free_iff := free
      owned := fun other found same => ?_
      owner_unique := fun first second found same same' =>
        inv.owner_unique first second found (slotOf first found same) (slotOf second found same')
      linked := inv.setCall_linked fun slot nextFreed same => absurd same (linked slot nextFreed)
      built := inv.setCall_built fun slot same => absurd same (built slot)
      counted := fun found positive => ?_
      releasing := fun found same => ?_
      born := fun found isBorn' => ?_ }
  · obtain ⟨statusIs, none_⟩ := inv.owned other found (slotOf other found same)
    refine ⟨?_, none_⟩
    rcases setCall_slot same with ⟨rfl, same'⟩ | ⟨notThread, same'⟩
    · obtain ⟨rfl, statusNew⟩ := slotIs found same'
      have isCall := setCall_self state call other
      exact (update_self _ _ _).trans (statusNew.trans (congrArg Call.slotStatus isCall.symm))
    · have notSlot : found ≠ slot := by
        rintro rfl
        exact notThread (inv.owner_unique other thread found same' owner)
      have isCall := setCall_other state call notThread
      exact (statusOther found notSlot).trans
        (statusIs.trans (congrArg Call.slotStatus isCall.symm))
  · have notSlot : found ≠ slot := by
      rintro rfl
      exact absurd noHandle (Nat.ne_of_gt positive)
    obtain ⟨statusIs, count⟩ := inv.counted found positive
    exact ⟨(statusOther found notSlot).trans statusIs, count⟩
  · by_cases isSlot : found = slot
    · subst isSlot
      have isCall := setCall_self state call thread
      exact ⟨thread, isCall.symm ▸ pushes ((update_self _ _ _).symm.trans same)⟩
    · obtain ⟨other, held⟩ := inv.releasing found ((statusOther found isSlot).symm.trans same)
      refine ⟨other, ?_⟩
      have notThread : other ≠ thread := by
        rintro rfl
        exact isSlot (Option.some.inj (held.slot_eq.symm.trans owner))
      have isCall := setCall_other state call notThread
      exact isCall.symm ▸ held
  · by_cases isSlot : found = slot
    · rw [isSlot]
      exact inv.born slot isBorn
    · exact inv.born found fun unborn => isBorn' ((statusOther found isSlot).trans unborn)

/-- The object is destroyed, or was not constructed; its slot goes to the stack. -/
theorem release (inv : Inv state slots) (owner : (state.calls thread).slot? = some slot)
    (live : state.status slot = .live) :
    Inv { state.setCall thread (.pushLoad slot) with
      status := update state.status slot .releasing } slots := by
  refine inv.restatus owner (by simp [live]) inv.chain inv.nodup (fun other => ?_) ?_ (fun _ => rfl)
    nofun nofun
  · rw [inv.free_iff]
    by_cases isSlot : other = slot
    · subst isSlot
      simp [live]
    · rw [update_of_ne isSlot]
  · rintro found ⟨⟩
    exact ⟨rfl, rfl⟩

/-- The slot is linked to what is on top of the stack and becomes the new top. -/
theorem push (inv : Inv state slots)
    (pushing : state.calls thread = .pushExchange slot state.lastFreedObject) :
    Inv { state.setCall thread .idle with
      lastFreedObject := some slot
      status := update state.status slot .free } (slot :: slots) := by
  have owner : (state.calls thread).slot? = some slot := congrArg Call.slot? pushing
  have status := (inv.owned thread slot owner).1
  rw [pushing] at status
  have notFree : slot ∉ slots := by
    rw [inv.free_iff, status]
    simp [Call.slotStatus]
  have chain := inv.chain
  rw [← inv.linked thread slot _ pushing] at chain
  refine inv.restatus owner (by simp [status, Call.slotStatus]) (.cons chain)
    (List.nodup_cons.mpr ⟨notFree, inv.nodup⟩) (fun other => ?_) nofun nofun nofun nofun
  rw [List.mem_cons, inv.free_iff]
  by_cases isSlot : other = slot
  · subst isSlot
    simp
  · simp only [update_of_ne isSlot, isSlot, false_or]

omit [DecidableEq Thread] in
/-- The numbers of handles and references of a live slot change together. -/
theorem recount (inv : Inv state slots) (count : Nat) (live : state.status slot = .live)
    (notOwned : ∀ other, (state.calls other).slot? ≠ some slot) :
    Inv { state with
      refCounters := update state.refCounters slot count
      handles := update state.handles slot count } slots := by
  refine
    { inv with
      owned := fun other found same => ?_
      built := fun other found same => ?_
      counted := fun found positive => ?_ }
  · have notSlot : found ≠ slot := by
      rintro rfl
      exact notOwned other same
    obtain ⟨status, none_⟩ := inv.owned other found same
    exact ⟨status, (update_of_ne notSlot _ _).trans none_⟩
  · have notSlot : found ≠ slot := by
      rintro rfl
      exact notOwned other (congrArg Call.slot? same)
    exact (update_of_ne notSlot _ _).trans (inv.built other found same)
  · by_cases isSlot : found = slot
    · subst isSlot
      simp [live]
    · simp only [update_of_ne isSlot] at positive ⊢
      exact inv.counted found positive

omit [DecidableEq Thread] in
theorem notOwned (inv : Inv state slots) (positive : 0 < state.handles slot) (other : Thread) :
    (state.calls other).slot? ≠ some slot :=
  fun same => Nat.ne_of_gt positive (inv.owned other slot same).2

theorem setOwner (inv : Inv state slots) (thread : Thread) {call : Call}
    (live : state.status slot = .live) (noHandle : state.handles slot = 0)
    (mine : (state.calls thread).slot? = none ∨ (state.calls thread).slot? = some slot)
    (alone : ∀ other, other ≠ thread → (state.calls other).slot? ≠ some slot)
    (next : call = .idle ∨ call = .destroy slot) :
    Inv (state.setCall thread call) slots := by
  have slotOf : ∀ found, call.slot? = some found → found = slot ∧ call.slotStatus = .live := by
    intro found same
    rcases next with rfl | rfl
    · cases same
    · exact ⟨(Option.some.inj same).symm, rfl⟩
  refine
    { inv with
      owned := fun other found same => ?_
      owner_unique := fun first second found same same' => ?_
      linked := inv.setCall_linked (by rcases next with rfl | rfl <;> simp)
      built := inv.setCall_built (by rcases next with rfl | rfl <;> simp)
      releasing := fun found same => ?_ }
  · rcases setCall_slot same with ⟨rfl, same'⟩ | ⟨notThread, same'⟩
    · obtain ⟨rfl, isLive⟩ := slotOf found same'
      rw [setCall_self, isLive]
      exact ⟨live, noHandle⟩
    · rw [setCall_other _ _ notThread]
      exact inv.owned other found same'
  · rcases setCall_slot same with ⟨isFirst, same⟩ | ⟨notFirst, same⟩ <;>
      rcases setCall_slot same' with ⟨isSecond, same'⟩ | ⟨notSecond, same'⟩
    · exact isFirst.trans isSecond.symm
    · obtain ⟨rfl, -⟩ := slotOf found same
      exact absurd same' (alone second notSecond)
    · obtain ⟨rfl, -⟩ := slotOf found same'
      exact absurd same (alone first notFirst)
    · exact inv.owner_unique first second found same same'
  · obtain ⟨other, held⟩ := inv.releasing found same
    refine ⟨other, ?_⟩
    have notThread : other ≠ thread := by
      rintro rfl
      rcases mine with none_ | some_
      · rw [held.slot_eq] at none_
        cases none_
      · obtain rfl := Option.some.inj (held.slot_eq.symm.trans some_)
        cases live.symm.trans same
    rw [setCall_other _ _ notThread]
    exact held

end Inv

section Steps

variable [DecidableEq Thread] {state state' : State Thread} {slots : List Slot} {thread : Thread}
  {maxObjects : Nat}

omit [DecidableEq Thread] in
theorem popHead_slot : state.popHead.slot? = none := by
  cases isHead : state.lastFreedObject <;> simp [State.popHead, isHead, Call.slot?]

omit [DecidableEq Thread] in
theorem popHead_status : state.popHead.slotStatus = .releasing := by
  cases isHead : state.lastFreedObject <;> simp [State.popHead, isHead, Call.slotStatus]

theorem Inv.pass (inv : Inv state slots) (thread : Thread) {call : Call}
    (before : (state.calls thread).slot? = none)
    (after : call.slot? = none) (status : call.slotStatus = (state.calls thread).slotStatus) :
    Inv (state.setCall thread call) slots := by
  refine inv.goOn thread (after.trans before.symm) status (fun slot pushes => ?_)
    (fun slot nextFreed isCall => ?_) (fun slot isCall => ?_)
  · cases before.symm.trans pushes.slot_eq
  · cases (congrArg Call.slot? isCall).symm.trans after
  · cases (congrArg Call.slot? isCall).symm.trans after

theorem Inv.pop (inv : Inv state slots) {lastFreed : Slot} {nextFreed : Option Slot}
    (popping : state.calls thread = .popExchange lastFreed nextFreed)
    (top : state.lastFreedObject = some lastFreed) (link : state.nextFreed lastFreed = nextFreed) :
    ∃ rest, Inv { (state.handOut lastFreed).setCall thread (.setRef lastFreed) with
      lastFreedObject := nextFreed } rest := by
  have chain := inv.chain
  rw [top] at chain
  obtain ⟨rest, rfl, restChain⟩ := chain.head_eq
  rw [link] at restChain
  obtain ⟨notRest, restNodup⟩ := List.nodup_cons.mp inv.nodup
  have isFree : state.status lastFreed = .free := (inv.free_iff lastFreed).mp List.mem_cons_self
  refine ⟨rest, inv.handOut (by rw [isFree]; simp) (by rw [isFree]; simp)
    (by rw [popping]; rfl) rfl rfl (fun _ => id) (fun _ isCall => by cases isCall)
    (fun _ _ => rfl) restChain restNodup (fun other => ?_) (fun other isBorn => ?_)⟩
  · rw [← inv.free_iff, List.mem_cons]
    constructor
    · intro mem
      exact ⟨fun same => notRest (same ▸ mem), Or.inr mem⟩
    · rintro ⟨notSlot, same | mem⟩
      · exact absurd same notSlot
      · exact mem
  · refine inv.born other ?_
    rcases isBorn with rfl | isBorn
    · rw [isFree]
      simp
    · exact isBorn

theorem Inv.allocateNew (inv : Inv state slots) (calling : state.calls thread = .allocateNew) :
    Inv (state.allocateNew maxObjects thread) slots := by
  have fresh : ∀ slot : Slot, ¬ (slot.slab + 1 < state.slabs ∨
      slot.slab + 1 = state.slabs ∧ slot.index < state.initialObjects) →
      state.status slot = .unborn := by
    intro slot outside
    by_contra isBorn
    exact outside (inv.born slot isBorn)
  have taken : ∀ (slot : Slot) (slabs initialObjects : Nat), state.status slot = .unborn →
      (∀ other : Slot, other = slot ∨ state.status other ≠ .unborn →
        other.slab + 1 < slabs ∨ other.slab + 1 = slabs ∧ other.index < initialObjects) →
      Inv { (state.handOut slot).setCall thread (.construct slot) with
        slabs
        initialObjects
        refCounters := update state.refCounters slot 1 } slots := by
    intro slot slabs initialObjects unborn born
    have others : ∀ other, other ≠ slot →
        update state.refCounters slot 1 other = state.refCounters other :=
      fun other notSlot => update_of_ne notSlot _ _
    refine inv.handOut (by rw [unborn]; simp) (by rw [unborn]; simp) (by rw [calling]; rfl) rfl rfl
      (fun _ => id) (fun built isCall => ?_) others inv.chain inv.nodup (fun other => ?_) born
    · cases isCall
      exact update_self _ _ _
    · rw [inv.free_iff]
      refine ⟨fun isFree => ⟨?_, isFree⟩, fun both => both.2⟩
      rintro rfl
      cases unborn.symm.trans isFree
  by_cases full : state.slabs = 0 ∨ state.initialObjects = maxObjects
  · have isNew := taken ⟨state.slabs, 0⟩ (state.slabs + 1) 1
      (fresh _ (by simp only; omega)) (fun other isBorn => by
        rcases isBorn with rfl | isBorn
        · simp
        · have := inv.born other isBorn
          omega)
    simp only [State.allocateNew, if_pos full, Nat.add_sub_cancel, Nat.zero_add]
    exact isNew
  · have isNew := taken ⟨state.slabs - 1, state.initialObjects⟩ state.slabs
      (state.initialObjects + 1) (fresh _ (by simp only; omega)) (fun other isBorn => by
        rcases isBorn with rfl | isBorn
        · simp only
          omega
        · have := inv.born other isBorn
          omega)
    simp only [State.allocateNew, if_neg full]
    exact isNew

theorem Inv.constructed (inv : Inv state slots) {slot : Slot}
    (building : state.calls thread = .construct slot) :
    Inv { state.setCall thread .idle with
      handles := update state.handles slot (state.handles slot + 1) } slots := by
  have owner : (state.calls thread).slot? = some slot := congrArg Call.slot? building
  obtain ⟨live, noHandle⟩ := inv.owned thread slot owner
  rw [building] at live
  have alone : ∀ other, other ≠ thread → (state.calls other).slot? ≠ some slot :=
    fun other notThread same => notThread (inv.owner_unique other thread slot same owner)
  have given := inv.setOwner thread live noHandle (Or.inr owner) alone (Or.inl rfl)
  have counted := given.recount 1 live fun other same => by
    rcases setCall_slot same with ⟨-, ⟨⟩⟩ | ⟨notThread, same⟩
    exact alone other notThread same
  have sameCounter : update state.refCounters slot 1 = state.refCounters :=
    Function.update_eq_self_iff.mpr (inv.built thread slot building).symm
  rw [noHandle]
  simpa only [State.setCall, sameCounter] using counted

theorem Inv.link (inv : Inv state slots) {slot : Slot} {nextFreed : Option Slot}
    (linking : state.calls thread = .pushLink slot nextFreed) :
    Inv { state.setCall thread (.pushExchange slot nextFreed) with
      nextFreed := update state.nextFreed slot nextFreed } slots := by
  have owner : (state.calls thread).slot? = some slot := congrArg Call.slot? linking
  have status := (inv.owned thread slot owner).1
  rw [linking] at status
  have written := inv.write slot nextFreed (by rw [status]; simp [Call.slotStatus])
    fun other link same => by
      obtain rfl := inv.owner_unique other thread slot (congrArg Call.slot? same) owner
      cases linking.symm.trans same
  refine written.goOn thread (by simp [linking, Call.slot?])
    (by simp [linking, Call.slotStatus]) (fun other pushes => ?_) (fun other link isCall => ?_)
    (fun other isCall => by cases isCall)
  · simpa [linking, Call.Pushes] using pushes
  · cases isCall
    exact update_self _ _ _

theorem Inv.advance (inv : Inv state slots) {spurious throws : Bool}
    (safe : StepSafe state (.advance thread spurious throws))
    (stepped : state.advance maxObjects thread spurious throws = some state') :
    ∃ slots', Inv state' slots' := by
  cases calling : state.calls thread with
  | idle => simp [State.advance, calling] at stepped
  | popLoad =>
    simp only [State.advance, calling, Option.some.injEq] at stepped
    subst stepped
    exact ⟨slots, inv.pass thread (by rw [calling]; rfl) popHead_slot
      (by rw [popHead_status, calling]; rfl)⟩
  | popRead lastFreed =>
    simp only [State.advance, calling, Option.some.injEq] at stepped
    subst stepped
    exact ⟨slots, inv.pass thread (by rw [calling]; rfl) rfl (by rw [calling]; rfl)⟩
  | popExchange lastFreed nextFreed =>
    simp only [State.advance, calling] at stepped
    split at stepped
    next exchanged =>
      cases stepped
      simp only [StepSafe, calling] at safe
      exact inv.pop calling exchanged.1 (safe exchanged.1 exchanged.2)
    next =>
      cases stepped
      exact ⟨slots, inv.pass thread (by rw [calling]; rfl) popHead_slot
        (by rw [popHead_status, calling]; rfl)⟩
  | setRef slot =>
    simp only [State.advance, calling, Option.some.injEq] at stepped
    subst stepped
    have counted := inv.setRefCounter thread (by rw [calling]; rfl) 1
      (by rw [calling]; simp)
    refine ⟨slots, counted.goOn thread (by rw [calling]; rfl) (by rw [calling]; rfl)
      (fun other pushes => ?_) (fun _ _ isCall => by cases isCall) fun other isCall => ?_⟩
    · rw [calling] at pushes
      exact pushes.elim
    · cases isCall
      exact update_self _ _ _
  | allocateNew =>
    simp only [State.advance, calling, Option.some.injEq] at stepped
    subst stepped
    exact ⟨slots, inv.allocateNew calling⟩
  | construct slot =>
    have owner : (state.calls thread).slot? = some slot := congrArg Call.slot? calling
    have live := (inv.owned thread slot owner).1
    rw [calling] at live
    simp only [State.advance, calling] at stepped
    split at stepped
    next =>
      cases stepped
      exact ⟨slots, inv.release owner live⟩
    next =>
      cases stepped
      exact ⟨slots, inv.constructed calling⟩
  | destroy slot =>
    have owner : (state.calls thread).slot? = some slot := congrArg Call.slot? calling
    have live := (inv.owned thread slot owner).1
    rw [calling] at live
    simp only [State.advance, calling, Option.some.injEq] at stepped
    subst stepped
    exact ⟨slots, inv.release owner live⟩
  | pushLoad slot =>
    simp only [State.advance, calling, Option.some.injEq] at stepped
    subst stepped
    exact ⟨slots, inv.goOn thread (by rw [calling]; rfl) (by rw [calling]; rfl)
      (fun other pushes => by rw [calling] at pushes; exact pushes)
      (fun _ _ isCall => by cases isCall) (fun _ isCall => by cases isCall)⟩
  | pushLink slot nextFreed =>
    simp only [State.advance, calling, Option.some.injEq] at stepped
    subst stepped
    exact ⟨slots, inv.link calling⟩
  | pushExchange slot nextFreed =>
    simp only [State.advance, calling] at stepped
    split at stepped
    next exchanged =>
      cases stepped
      rw [← exchanged.1] at calling
      exact ⟨slot :: slots, inv.push calling⟩
    next =>
      cases stepped
      exact ⟨slots, inv.goOn thread (by rw [calling]; rfl) (by rw [calling]; rfl)
        (fun other pushes => by rw [calling] at pushes; exact pushes)
        (fun _ _ isCall => by cases isCall) (fun _ isCall => by cases isCall)⟩

theorem Inv.step {action : Action Thread} (inv : Inv state slots) (safe : StepSafe state action)
    (stepped : step maxObjects state action = some state') : ∃ slots', Inv state' slots' := by
  cases action with
  | allocate thread =>
    simp only [SharedObjectPool.step, Option.ite_none_right_eq_some, Option.some.injEq] at stepped
    obtain ⟨isIdle, rfl⟩ := stepped
    exact ⟨slots, inv.pass thread (by rw [isIdle]; rfl) rfl (by rw [isIdle]; rfl)⟩
  | advance thread spurious throws => exact inv.advance safe stepped
  | addRef slot =>
    simp only [SharedObjectPool.step, Option.ite_none_right_eq_some, Option.some.injEq] at stepped
    obtain ⟨⟨positive, -⟩, rfl⟩ := stepped
    obtain ⟨live, count⟩ := inv.counted slot positive
    rw [count]
    exact ⟨slots, inv.recount _ live (inv.notOwned positive)⟩
  | releaseRef thread slot =>
    simp only [SharedObjectPool.step, Option.ite_none_right_eq_some, Option.some.injEq] at stepped
    obtain ⟨⟨isIdle, positive⟩, rfl⟩ := stepped
    obtain ⟨live, count⟩ := inv.counted slot positive
    have counted := inv.recount (state.handles slot - 1) live (inv.notOwned positive)
    rw [count]
    by_cases last : state.handles slot = 1
    · rw [if_pos last]
      exact ⟨slots, counted.setOwner thread live
        ((update_self _ _ _).trans (Nat.sub_eq_zero_of_le (Nat.le_of_eq last)))
        (Or.inl (by rw [isIdle]; rfl))
        (fun other _ => inv.notOwned positive other) (Or.inr rfl)⟩
    · rw [if_neg last]
      exact ⟨slots, counted.pass thread (by rw [isIdle]; rfl) rfl (by rw [isIdle])⟩
  | write slot word =>
    simp only [SharedObjectPool.step, Option.ite_none_right_eq_some, Option.some.injEq] at stepped
    obtain ⟨live, rfl⟩ := stepped
    refine ⟨slots, inv.write slot word (by rw [live]; simp) fun other link same => ?_⟩
    have status := (inv.owned other slot (congrArg Call.slot? same)).1
    rw [same, live] at status
    cases status

/-- If no allocation puts a stale link in place of the top of the stack, no slot is
handed out while it is live, and the stack holds every released slot once. -/
theorem run_slots_correct {actions : List (Action Thread)}
    (safe : Runs.StepsMeet (step maxObjects) StepSafe {} actions)
    (reached : run maxObjects actions = some state) : state.Correct := by
  have kept : ∀ (state : State Thread) (action : Action Thread) (state' : State Thread),
      (∃ slots, Inv state slots) → StepSafe state action →
        step maxObjects state action = some state' → ∃ slots, Inv state' slots :=
    fun _ _ _ ⟨_, inv⟩ meets stepped => inv.step meets stepped
  obtain ⟨slots, inv⟩ := Runs.run_invariant kept ⟨[], initial_inv⟩ safe reached
  exact ⟨inv.handedOut, ⟨slots, inv.chain, inv.nodup, inv.free_iff⟩, inv.releasing⟩

end Steps

instance (state : State (Fin 2)) (action : Action (Fin 2)) : Decidable (StepSafe state action) :=
  match action with
  | .advance thread _ _ => by
      dsimp only [StepSafe]
      cases state.calls thread <;> dsimp only <;> infer_instance
  | .allocate _ => isTrue trivial
  | .addRef _ => isTrue trivial
  | .releaseRef _ _ => isTrue trivial
  | .write _ _ => isTrue trivial

/-- The next steps of the call of a thread. -/
def steps (thread : Fin 2) (count : Nat) : List (Action (Fin 2)) :=
  List.replicate count (.advance thread false false)

/-- A whole allocation of a slot that was never handed out. -/
def allocateNewActions (thread : Fin 2) : List (Action (Fin 2)) :=
  .allocate thread :: steps thread 3

/-- A whole allocation of the slot on top of the stack. -/
def popActions (thread : Fin 2) : List (Action (Fin 2)) :=
  .allocate thread :: steps thread 5

/-- The last reference to a slot is released. -/
def releaseActions (thread : Fin 2) (slot : Slot) : List (Action (Fin 2)) :=
  .releaseRef thread slot :: steps thread 4

def first : Slot := ⟨0, 0⟩

def second : Slot := ⟨0, 1⟩

/-- Two slots are allocated and released, so that the first one is on top of the
stack and linked to the second one. -/
def freedActions : List (Action (Fin 2)) :=
  allocateNewActions 0 ++ allocateNewActions 0 ++ releaseActions 0 second ++
    releaseActions 0 first

/-- Both slots are allocated again. -/
def reusedActions : List (Action (Fin 2)) := freedActions ++ popActions 0 ++ popActions 1

theorem reusedActions_correct :
    ∃ state, run 4 reusedActions = some state ∧ state.status first = .live ∧ state.Correct := by
  have live : (run 4 reusedActions).map (fun state => state.status first) = some .live := by
    decide +kernel
  obtain ⟨state, reached, live⟩ := Option.map_eq_some_iff.mp live
  exact ⟨state, reached, live, run_slots_correct (by decide +kernel) reached⟩

/-- Thread 0 reads the link of the first slot.  Thread 1 allocates both slots and
releases the first one; the exchange of thread 0 then succeeds, and thread 1
allocates again. -/
def staleActions : List (Action (Fin 2)) :=
  freedActions ++ [.allocate 0] ++ steps 0 2 ++ popActions 1 ++ popActions 1 ++
    releaseActions 1 first ++ steps 0 3 ++ popActions 1

/-- The second slot is handed out while it is live. -/
theorem staleActions_corrupt :
    ∃ state, run 4 staleActions = some state ∧ ¬ state.Correct := by
  have twice : (run 4 staleActions).map (fun state => decide ((second, .live) ∈ state.handedOut)) =
      some true := by decide +kernel
  obtain ⟨state, reached, twice⟩ := Option.map_eq_some_iff.mp twice
  exact ⟨state, reached, fun correct => correct.handedOut _ (of_decide_eq_true twice) rfl⟩

end Voxen.SharedObjectPool
