import Voxen.Land.ChunkTicket

/-!
# Runs of the chunk tickets

Every valid slot belongs to one grant.  The grant is held by at most one ticket object
until a removal is sent, and after a removal nothing in the queue mentions its slot, so a
slot is free when it is handed out again.
-/

namespace Voxen.Land.ChunkTickets

open Function (update update_of_ne update_self update_idem)
open ChunkTicketMessage (request adjust remove)

variable {owner : Nat → Nat} {state state' : State}

/-- Slot `i` is valid. -/
def ValidSlot (slots : List TicketState) (i : Nat) : Prop :=
  ∃ area, slots[i]? = some { area := area, valid := true }

/-- The object at an address holds slot `i` for a grant. -/
def Holds (tickets : Nat → Option ChunkTicket) (address i grant : Nat) : Prop :=
  ∃ ticket, tickets address = some ticket ∧ ticket.ticketId = some i ∧ ticket.grant = grant

/-- What holds between the handlers; `owner i` is the grant slot `i` was given to last. -/
structure Inv (owner : Nat → Nat) (state : State) : Prop where
  slots : ∀ i area, state.chunkTickets[i]? = some { area := area, valid := true } →
    owner i < state.nextGrant ∧ state.areas (owner i) = some area
  owners : ∀ i j, ValidSlot state.chunkTickets i → ValidSlot state.chunkTickets j →
    owner i = owner j → i = j
  held : ∀ address i grant, Holds state.tickets address i grant →
    ValidSlot state.chunkTickets i ∧ owner i = grant
  holder : ∀ a b i g h, Holds state.tickets a i g → Holds state.tickets b i h → a = b
  sender : ∀ address ticket, state.tickets address = some ticket →
    ticket.hasSender = ticket.ticketId.isSome
  sent : ∀ message ∈ state.queue, ∀ i grant, message.about = some (i, grant) →
    ValidSlot state.chunkTickets i ∧ owner i = grant
  removed : ∀ address i grant, Holds state.tickets address i grant →
    ∀ other, remove i other ∉ state.queue
  closed : state.queue.Pairwise fun first second =>
    ∀ i g h, first = remove i g → second.about ≠ some (i, h)
  payloads : ∀ address area, request address area ∈ state.queue →
    state.tickets address ≠ none

theorem not_holds_empty (address i grant : Nat) : ¬ Holds (fun _ => none) address i grant := by
  rintro ⟨ticket, absurd, _⟩
  cases absurd

theorem Inv.init (owner : Nat → Nat) : Inv owner {} where
  slots := by simp
  owners := by
    rintro i j ⟨area, absurd⟩
    simp at absurd
  held address i grant holds := absurd holds (not_holds_empty address i grant)
  holder a b i g h holds := absurd holds (not_holds_empty a i g)
  sender := by simp
  sent := by simp
  removed address i grant holds := absurd holds (not_holds_empty address i grant)
  closed := List.Pairwise.nil
  payloads := by simp

/-! ## Handles change their places -/

/-- Ticket objects may be renamed, and drop their handles, as long as no handle is doubled. -/
theorem Inv.relocate (inv : Inv owner state) {tickets : Nat → Option ChunkTicket}
    (source : Nat → Nat)
    (same : ∀ address i grant, Holds tickets address i grant →
      Holds state.tickets (source address) i grant)
    (injective : ∀ a b i g h, Holds tickets a i g → Holds tickets b i h →
      source a = source b → a = b)
    (sender : ∀ address ticket, tickets address = some ticket →
      ticket.hasSender = ticket.ticketId.isSome)
    (alive : ∀ address area, request address area ∈ state.queue → tickets address ≠ none) :
    Inv owner { state with tickets } :=
  { inv with
    held := fun address i grant holds => inv.held _ i grant (same address i grant holds)
    holder := fun a b i g h first second => injective a b i g h first second
      (inv.holder _ _ i g h (same a i g first) (same b i h second))
    sender := sender
    removed := fun address i grant holds => inv.removed _ i grant (same address i grant holds)
    payloads := alive }

section Update

variable {tickets : Nat → Option ChunkTicket} {address : Nat} {value : Option ChunkTicket}

theorem holds_update_self {i grant : Nat} :
    Holds (update tickets address value) address i grant ↔
      ∃ ticket, value = some ticket ∧ ticket.ticketId = some i ∧ ticket.grant = grant := by
  simp only [Holds, update_self]

theorem holds_update_of_ne {other i grant : Nat} (ne : other ≠ address) :
    Holds (update tickets address value) other i grant ↔
      Holds tickets other i grant := by
  simp only [Holds, update_of_ne ne]

/-- What all the objects have, and the new value has, they have after the update. -/
theorem forall_update {P : ChunkTicket → Prop}
    (every : ∀ other ticket, tickets other = some ticket → P ticket)
    (here : ∀ ticket, value = some ticket → P ticket) (other : Nat) (ticket : ChunkTicket)
    (found : update tickets address value other = some ticket) : P ticket := by
  by_cases same : other = address
  · subst same
    rw [update_self] at found
    exact here ticket found
  · rw [update_of_ne same] at found
    exact every other ticket found

theorem update_ne_none {tickets : Nat → Option ChunkTicket} {address payload : Nat}
    (ticket : ChunkTicket) (alive : tickets payload ≠ none) :
    update tickets address (some ticket) payload ≠ none := by
  by_cases here : payload = address
  · subst here
    rw [update_self]
    exact Option.some_ne_none _
  · rwa [update_of_ne here]

end Update

theorem Inv.clear (inv : Inv owner state) {address : Nat} (value : Option ChunkTicket)
    (empty : ∀ ticket, value = some ticket → ticket = {})
    (alive : value = none → ∀ area, request address area ∉ state.queue) :
    Inv owner { state with tickets := update state.tickets address value } := by
  have kept : ∀ other i grant, Holds (update state.tickets address value) other i grant →
      other ≠ address ∧ Holds state.tickets other i grant := by
    intro other i grant holds
    by_cases here : other = address
    · subst here
      obtain ⟨ticket, found, handle, _⟩ := holds_update_self.mp holds
      rw [empty ticket found] at handle
      cases handle
    · exact ⟨here, (holds_update_of_ne here).mp holds⟩
  refine inv.relocate id (fun other i grant holds => (kept other i grant holds).2)
    (fun a b _ _ _ _ _ same => same) ?_ ?_
  · exact forall_update inv.sender fun ticket found => empty ticket found ▸ rfl
  · intro other area queued
    by_cases here : other = address
    · subst here
      rw [update_self]
      exact fun gone => alive gone area queued
    · rw [update_of_ne here]
      exact inv.payloads other area queued

theorem Inv.not_holds_clear (inv : Inv owner state) {address i grant : Nat}
    {value : Option ChunkTicket} (holds : Holds state.tickets address i grant)
    (empty : ∀ ticket, value = some ticket → ticket = {}) (other g : Nat) :
    ¬ Holds (update state.tickets address value) other i g := by
  intro again
  by_cases here : other = address
  · subst here
    obtain ⟨ticket, found, handle, _⟩ := holds_update_self.mp again
    rw [empty ticket found] at handle
    cases handle
  · exact here (inv.holder _ _ i g grant ((holds_update_of_ne here).mp again) holds)

theorem Inv.moveConstruct (inv : Inv owner state) {address other : Nat} {source : ChunkTicket}
    (fresh : state.tickets address = none) (found : state.tickets other = some source) :
    Inv owner { state with
      tickets := update (update state.tickets address (some source)) other
        (some {}) } := by
  -- the objects that hold something now, with the object it came from
  have kept : ∀ a i g, Holds (update (update state.tickets address
      (some source)) other (some {})) a i g →
      a ≠ other ∧ ((a = address ∧ Holds state.tickets other i g) ∨
        (a ≠ address ∧ Holds state.tickets a i g)) := by
    intro a i g holds
    by_cases cleared : a = other
    · subst cleared
      obtain ⟨ticket, same, handle, _⟩ := holds_update_self.mp holds
      cases same
      cases handle
    · refine ⟨cleared, ?_⟩
      rw [holds_update_of_ne cleared] at holds
      by_cases here : a = address
      · subst here
        obtain ⟨ticket, same, handle⟩ := holds_update_self.mp holds
        exact Or.inl ⟨rfl, ticket, found.trans same, handle⟩
      · exact Or.inr ⟨here, (holds_update_of_ne here).mp holds⟩
  refine inv.relocate (fun a => if a = address then other else a) ?_ ?_ ?_ ?_
  · intro a i g holds
    rcases (kept a i g holds).2 with ⟨rfl, holds⟩ | ⟨ne, holds⟩
    · rwa [if_pos rfl]
    · rwa [if_neg ne]
  · intro a b i g h first second same
    have ne := (kept a i g first).1
    have ne' := (kept b i h second).1
    split at same <;> split at same <;> simp_all
  · refine forall_update (forall_update inv.sender fun ticket same => ?_) fun ticket same => ?_
    · exact inv.sender other ticket (found.trans same)
    · cases same
      rfl
  · intro payload area queued
    exact update_ne_none _ (update_ne_none _ (inv.payloads payload area queued))

theorem Inv.moveAssign (inv : Inv owner state) {address other : Nat}
    {target source : ChunkTicket} (before : state.tickets address = some target)
    (found : state.tickets other = some source) :
    Inv owner { state with
      tickets := update (update state.tickets address (some source)) other
        (some target) } := by
  refine inv.relocate (Equiv.swap address other) ?_ ?_ ?_ ?_
  · intro a i g holds
    by_cases there : a = other
    · subst there
      obtain ⟨ticket, same, handle⟩ := holds_update_self.mp holds
      rw [Equiv.swap_apply_right]
      exact ⟨ticket, before.trans same, handle⟩
    · rw [holds_update_of_ne there] at holds
      by_cases here : a = address
      · subst here
        obtain ⟨ticket, same, handle⟩ := holds_update_self.mp holds
        rw [Equiv.swap_apply_left]
        exact ⟨ticket, found.trans same, handle⟩
      · rw [Equiv.swap_apply_of_ne_of_ne here there]
        exact (holds_update_of_ne here).mp holds
  · intro a b _ _ _ _ _ same
    exact (Equiv.swap address other).injective same
  · refine forall_update (forall_update inv.sender fun ticket same => ?_) fun ticket same => ?_
    · exact inv.sender other ticket (found.trans same)
    · exact inv.sender address ticket (before.trans same)
  · intro payload area queued
    exact update_ne_none _ (update_ne_none _ (inv.payloads payload area queued))

/-! ## Messages come and go -/

theorem Inv.send (inv : Inv owner state) (message : ChunkTicketMessage)
    (about : ∀ i grant, message.about = some (i, grant) →
      (ValidSlot state.chunkTickets i ∧ owner i = grant) ∧
        ∀ other, remove i other ∉ state.queue)
    (free : ∀ i g, message = remove i g → ∀ address h, ¬ Holds state.tickets address i h)
    (payload : ∀ address area, message = request address area → state.tickets address ≠ none) :
    Inv owner { state with queue := state.queue ++ [message] } :=
  { inv with
    sent := by
      intro other mem i grant same
      rcases List.mem_append.mp mem with old | new
      · exact inv.sent other old i grant same
      · rw [List.mem_singleton.mp new] at same
        exact (about i grant same).1
    removed := by
      intro address i grant holds other mem
      rcases List.mem_append.mp mem with old | new
      · exact inv.removed address i grant holds other old
      · exact free i other (List.mem_singleton.mp new).symm address grant holds
    closed := by
      refine List.pairwise_append.mpr ⟨inv.closed, List.pairwise_singleton _ _, ?_⟩
      intro first old second new i g h same names
      rw [List.mem_singleton.mp new] at names
      exact (about i h names).2 g (same ▸ old)
    payloads := by
      intro address area mem
      rcases List.mem_append.mp mem with old | new
      · exact inv.payloads address area old
      · exact payload address area (List.mem_singleton.mp new).symm }

theorem Inv.pop (inv : Inv owner state) {message : ChunkTicketMessage}
    {rest : List ChunkTicketMessage} (queue : state.queue = message :: rest) :
    Inv owner { state with queue := rest } :=
  have sub : ∀ other ∈ rest, other ∈ state.queue := fun _ mem =>
    queue ▸ List.mem_cons_of_mem message mem
  { inv with
    sent := fun other mem => inv.sent other (sub other mem)
    removed := fun address i grant holds other mem =>
      inv.removed address i grant holds other (sub _ mem)
    closed := (List.pairwise_cons.mp (queue ▸ inv.closed)).2
    payloads := fun address area mem => inv.payloads address area (sub _ mem) }

/-- A ticket object gives up its value, and its destructor sends the removal. -/
theorem Inv.drop (inv : Inv owner state) {address : Nat} {ticket : ChunkTicket}
    (found : state.tickets address = some ticket) (value : Option ChunkTicket)
    (empty : ∀ ticket, value = some ticket → ticket = {})
    (alive : value = none → ∀ area, request address area ∉ state.queue) :
    Inv owner { state with
      tickets := update state.tickets address value
      queue := state.queue ++ ticket.destroyed } := by
  have cleared := inv.clear value empty alive
  unfold ChunkTicket.destroyed
  cases handle : ticket.ticketId with
  | none => simpa using cleared
  | some i =>
    have sender : ticket.hasSender = true := by
      rw [inv.sender address ticket found, handle]
      rfl
    have holds : Holds state.tickets address i ticket.grant := ⟨ticket, found, handle, rfl⟩
    simp only [sender, if_true]
    refine cleared.send (remove i ticket.grant) ?_ ?_ ?_
    · intro j grant same
      cases same
      exact ⟨inv.held address i _ holds, inv.removed address i _ holds⟩
    · intro j g same other h
      cases same
      exact inv.not_holds_clear holds empty other h
    · intro other area same
      cases same

/-! ## Slots -/

section Slots

variable {slots : List TicketState} {i : Nat}

theorem ValidSlot.lt_length (valid : ValidSlot slots i) : i < slots.length := by
  obtain ⟨area, found⟩ := valid
  exact (List.getElem?_eq_some_iff.mp found).1

/-- The loop of the request handler finds a slot that is not valid and touches no other. -/
theorem takeSlot_spec (slots : List TicketState) (area : ChunkTicketArea) :
    ¬ ValidSlot slots (takeSlot slots area).1 ∧
      (takeSlot slots area).2[(takeSlot slots area).1]? = some { area := area, valid := true } ∧
      ∀ j, j ≠ (takeSlot slots area).1 → (takeSlot slots area).2[j]? = slots[j]? := by
  unfold takeSlot
  cases search : slots.findIdx? fun slot => !slot.valid with
  | some ticketId =>
    obtain ⟨bound, invalid, _⟩ := List.findIdx?_eq_some_iff_getElem.mp search
    refine ⟨?_, List.getElem?_set_self bound, fun j ne => List.getElem?_set_ne (Ne.symm ne)⟩
    rintro ⟨found, valid⟩
    rw [List.getElem?_eq_getElem bound, Option.some.injEq] at valid
    rw [valid] at invalid
    cases invalid
  | none =>
    refine ⟨fun valid => Nat.lt_irrefl _ valid.lt_length, by simp, fun j ne => ?_⟩
    rcases Nat.lt_or_ge j slots.length with below | above
    · exact List.getElem?_append_left below
    · have past : slots.length + 1 ≤ j := Nat.lt_of_le_of_ne above (Ne.symm ne)
      rw [List.getElem?_eq_none above, List.getElem?_eq_none]
      simpa using past

end Slots

theorem Inv.adjust (inv : Inv owner state) {i grant : Nat}
    (valid : ValidSlot state.chunkTickets i) (owned : owner i = grant)
    (newArea : ChunkTicketArea) :
    Inv owner { state with
      chunkTickets := state.chunkTickets.modify i fun slot => { slot with area := newArea }
      areas := update state.areas grant (some newArea) } := by
  have validSlot : ∀ j, ValidSlot
      (state.chunkTickets.modify i fun slot => { slot with area := newArea }) j ↔
        ValidSlot state.chunkTickets j := by
    intro j
    by_cases here : j = i
    · subst here
      obtain ⟨area, found⟩ := valid
      simp [ValidSlot, found]
    · simp only [ValidSlot, List.getElem?_modify_ne _ _ (Ne.symm here)]
  refine
    { inv with
      slots := ?_
      owners := fun j k first second =>
        inv.owners j k ((validSlot j).mp first) ((validSlot k).mp second)
      held := fun address j g holds =>
        ⟨(validSlot j).mpr (inv.held address j g holds).1, (inv.held address j g holds).2⟩
      sent := fun message mem j g same =>
        ⟨(validSlot j).mpr (inv.sent message mem j g same).1,
          (inv.sent message mem j g same).2⟩ }
  intro j area found
  by_cases here : j = i
  · subst here
    obtain ⟨old, before⟩ := valid
    rw [List.getElem?_modify_eq, before] at found
    cases found
    exact ⟨(inv.slots j old before).1, owned ▸ update_self ..⟩
  · rw [List.getElem?_modify_ne _ _ (Ne.symm here)] at found
    have other : owner j ≠ grant := fun same =>
      here (inv.owners j i ⟨area, found⟩ valid (same.trans owned.symm))
    exact ⟨(inv.slots j area found).1,
      (update_of_ne other ..).trans (inv.slots j area found).2⟩

theorem Inv.remove (inv : Inv owner state) {i : Nat}
    (free : ∀ address grant, ¬ Holds state.tickets address i grant)
    (quiet : ∀ message ∈ state.queue, ∀ grant, message.about ≠ some (i, grant)) :
    Inv owner { state with
      chunkTickets := state.chunkTickets.modify i fun slot => { slot with valid := false } } := by
  have validSlot : ∀ j, ValidSlot
      (state.chunkTickets.modify i fun slot => { slot with valid := false }) j ↔
        j ≠ i ∧ ValidSlot state.chunkTickets j := by
    intro j
    by_cases here : j = i
    · subst here
      simp [ValidSlot]
    · simp only [ValidSlot, List.getElem?_modify_ne _ _ (Ne.symm here), ne_eq, here,
        not_false_eq_true, true_and]
  refine
    { inv with
      slots := ?_
      owners := fun j k first second =>
        inv.owners j k ((validSlot j).mp first).2 ((validSlot k).mp second).2
      held := fun address j g holds =>
        ⟨(validSlot j).mpr ⟨?_, (inv.held address j g holds).1⟩, (inv.held address j g holds).2⟩
      sent := fun message mem j g same =>
        ⟨(validSlot j).mpr ⟨?_, (inv.sent message mem j g same).1⟩,
          (inv.sent message mem j g same).2⟩ }
  · intro j area found
    have ne := ((validSlot j).mp ⟨area, found⟩).1
    rw [List.getElem?_modify_ne _ _ (Ne.symm ne)] at found
    exact inv.slots j area found
  · rintro rfl
    exact free address g holds
  · rintro rfl
    exact quiet message mem g same

theorem Inv.grant (inv : Inv owner state) (address : Nat) {i : Nat} {slots : List TicketState}
    {area : ChunkTicketArea}
    (fresh : ¬ ValidSlot state.chunkTickets i)
    (taken : slots[i]? = some { area := area, valid := true })
    (others : ∀ j, j ≠ i → slots[j]? = state.chunkTickets[j]?) :
    Inv (update owner i state.nextGrant) { state with
      tickets := update state.tickets address
        (some { ticketId := some i, hasSender := true, grant := state.nextGrant })
      chunkTickets := slots
      areas := update state.areas state.nextGrant (some area)
      nextGrant := state.nextGrant + 1 } := by
  have validSlot : ∀ j, ValidSlot slots j ↔ j = i ∨ ValidSlot state.chunkTickets j := by
    intro j
    by_cases here : j = i
    · subst here
      simp [ValidSlot, taken]
    · simp only [ValidSlot, others j here, here, false_or]
  -- what was held or mentioned before is another slot and another grant
  have kept : ∀ j, ValidSlot state.chunkTickets j → j ≠ i ∧ owner j ≠ state.nextGrant ∧
      update owner i state.nextGrant j = owner j := by
    intro j valid
    have ne : j ≠ i := by
      rintro rfl
      exact fresh valid
    obtain ⟨old, found⟩ := valid
    exact ⟨ne, Nat.ne_of_lt (inv.slots j old found).1, update_of_ne ne ..⟩
  have holds : ∀ other j g, Holds (update state.tickets address
      (some { ticketId := some i, hasSender := true, grant := state.nextGrant })) other j g →
      (other = address ∧ j = i ∧ g = state.nextGrant) ∨
        (other ≠ address ∧ Holds state.tickets other j g) := by
    intro other j g holds
    by_cases here : other = address
    · subst here
      obtain ⟨ticket, found, handle, grant⟩ := holds_update_self.mp holds
      cases found
      exact Or.inl ⟨rfl, (Option.some.inj handle).symm, grant.symm⟩
    · exact Or.inr ⟨here, (holds_update_of_ne here).mp holds⟩
  exact
    { slots := by
        intro j area' found
        by_cases here : j = i
        · subst here
          rw [taken] at found
          cases found
          simp only [update_self]
          exact ⟨Nat.lt_succ_self _, trivial⟩
        · rw [others j here] at found
          have old := inv.slots j area' found
          have away := kept j ⟨area', found⟩
          rw [away.2.2]
          exact ⟨Nat.lt_succ_of_lt old.1, (update_of_ne away.2.1 ..).trans old.2⟩
      owners := by
        intro j k first second same
        rcases (validSlot j).mp first with rfl | before <;>
          rcases (validSlot k).mp second with rfl | after
        · rfl
        · rw [update_self, (kept k after).2.2] at same
          exact absurd same.symm (kept k after).2.1
        · rw [update_self, (kept j before).2.2] at same
          exact absurd same (kept j before).2.1
        · rw [(kept j before).2.2, (kept k after).2.2] at same
          exact inv.owners j k before after same
      held := by
        intro other j g held
        rcases holds other j g held with ⟨_, rfl, rfl⟩ | ⟨_, held⟩
        · exact ⟨(validSlot j).mpr (Or.inl rfl), update_self ..⟩
        · have old := inv.held other j g held
          exact ⟨(validSlot j).mpr (Or.inr old.1), (kept j old.1).2.2.trans old.2⟩
      holder := by
        intro a b j g h first second
        rcases holds a j g first with ⟨rfl, rfl, _⟩ | ⟨_, before⟩ <;>
          rcases holds b j h second with ⟨rfl, same, _⟩ | ⟨_, after⟩
        · rfl
        · exact absurd rfl (kept j (inv.held b j h after).1).1
        · exact absurd same (kept j (inv.held a j g before).1).1
        · exact inv.holder a b j g h before after
      sender := forall_update inv.sender fun ticket found => by
        cases found
        rfl
      sent := by
        intro message mem j g same
        have old := inv.sent message mem j g same
        exact ⟨(validSlot j).mpr (Or.inr old.1), (kept j old.1).2.2.trans old.2⟩
      removed := by
        intro other j g held h mem
        rcases holds other j g held with ⟨_, rfl, _⟩ | ⟨_, held⟩
        · exact fresh (inv.sent _ mem j h rfl).1
        · exact inv.removed other j g held h mem
      closed := inv.closed
      payloads := by
        intro other area' mem
        exact update_ne_none _ (inv.payloads other area' mem) }

/-! ## Steps -/

theorem Inv.not_removing (inv : Inv owner state) {i grant : Nat}
    {rest : List ChunkTicketMessage} (queue : state.queue = .remove i grant :: rest) :
    (∀ address g, ¬ Holds state.tickets address i g) ∧
      ∀ message ∈ rest, ∀ g, message.about ≠ some (i, g) := by
  constructor
  · intro address g holds
    exact inv.removed address i g holds grant (queue ▸ List.mem_cons_self)
  · intro message mem g
    have closed := inv.closed
    rw [queue] at closed
    exact (List.pairwise_cons.mp closed).1 message mem i grant g rfl

/-- What handling a message does, by the kind of the message. -/
inductive Handled (state : State) : State → Prop
  | refuse {payload : Nat} {area : ChunkTicketArea} {rest : List ChunkTicketMessage}
      {old : ChunkTicket} (queue : state.queue = request payload area :: rest)
      (found : state.tickets payload = some old) (bad : validateChunkTicketArea area = false) :
      Handled state { state with
        tickets := update state.tickets payload (some {})
        queue := rest ++ old.destroyed }
  | grant {payload : Nat} {area : ChunkTicketArea} {rest : List ChunkTicketMessage}
      {old : ChunkTicket} (queue : state.queue = request payload area :: rest)
      (found : state.tickets payload = some old) (good : validateChunkTicketArea area = true) :
      Handled state { state with
        tickets := update state.tickets payload (some
          { ticketId := some (takeSlot state.chunkTickets area).1, hasSender := true,
            grant := state.nextGrant })
        queue := rest ++ old.destroyed
        chunkTickets := (takeSlot state.chunkTickets area).2
        areas := update state.areas state.nextGrant (some area)
        nextGrant := state.nextGrant + 1 }
  | ignore {i grant : Nat} {area : ChunkTicketArea} {rest : List ChunkTicketMessage}
      (queue : state.queue = adjust i area grant :: rest)
      (bad : validateChunkTicketArea area = false) :
      Handled state { state with queue := rest }
  | adjusted {i grant : Nat} {area : ChunkTicketArea} {rest : List ChunkTicketMessage}
      (queue : state.queue = adjust i area grant :: rest)
      (good : validateChunkTicketArea area = true) :
      Handled state { state with
        queue := rest
        chunkTickets := state.chunkTickets.modify i fun slot => { slot with area := area }
        areas := update state.areas grant (some area) }
  | removed {i grant : Nat} {rest : List ChunkTicketMessage}
      (queue : state.queue = remove i grant :: rest) :
      Handled state { state with
        queue := rest
        chunkTickets := state.chunkTickets.modify i fun slot => { slot with valid := false } }

theorem handled_of_handle (next : state.handle = some state') : Handled state state' := by
  unfold State.handle at next
  cases queue : state.queue with
  | nil =>
    rw [queue] at next
    cases next
  | cons message rest =>
    rw [queue] at next
    cases message with
    | request payload area =>
      simp only [State.handleChunkTicketRequest, Option.bind_eq_bind,
        Option.bind_eq_some_iff] at next
      obtain ⟨old, found, next⟩ := next
      cases good : validateChunkTicketArea area with
      | false =>
        rw [good] at next
        cases next
        exact .refuse queue found good
      | true =>
        rw [good] at next
        cases next
        exact .grant queue found good
    | adjust i area grant =>
      simp only [State.handleChunkTicketAdjust] at next
      cases good : validateChunkTicketArea area with
      | false =>
        rw [good] at next
        cases next
        exact .ignore queue good
      | true =>
        simp only [good, Bool.not_true, Bool.false_eq_true, if_false] at next
        split at next
        · cases next
          exact .adjusted queue good
        · cases next
    | remove i grant =>
      simp only [State.handleChunkTicketRemove] at next
      split at next
      · cases next
        exact .removed queue
      · cases next

theorem handled_inv (inv : Inv owner state) (handled : Handled state state') :
    ∃ owner', Inv owner' state' := by
  cases handled with
  | @refuse payload area rest old queue found bad =>
    exact ⟨owner, (inv.pop queue).drop found _ (fun _ same => (Option.some.inj same).symm)
      fun absurd => by cases absurd⟩
  | @grant payload area rest old queue found good =>
    have dropped := (inv.pop queue).drop found (some {})
      (fun _ same => (Option.some.inj same).symm) fun absurd => by cases absurd
    obtain ⟨fresh, taken, others⟩ := takeSlot_spec state.chunkTickets area
    have granted := dropped.grant payload fresh taken others
    simp only [update_idem] at granted
    exact ⟨_, granted⟩
  | @ignore i grant area rest queue bad => exact ⟨owner, inv.pop queue⟩
  | @adjusted i grant area rest queue good =>
    have sent := inv.sent _ (queue ▸ List.mem_cons_self) i grant rfl
    exact ⟨owner, (inv.pop queue).adjust sent.1 sent.2 area⟩
  | @removed i grant rest queue =>
    obtain ⟨free, quiet⟩ := inv.not_removing queue
    exact ⟨owner, (inv.pop queue).remove free quiet⟩

theorem inFlight_eq_false {address : Nat} (idle : state.inFlight address = false)
    (area : ChunkTicketArea) : request address area ∉ state.queue := by
  intro mem
  have found : state.inFlight address = true :=
    List.any_eq_true.mpr ⟨_, mem, by simp⟩
  rw [idle] at found
  cases found

theorem step_inv (inv : Inv owner state) {action : Action}
    (next : step state action = some state') : ∃ owner', Inv owner' state' := by
  cases action with
  | construct address =>
    simp only [step] at next
    split at next
    · cases next
    · cases next
      exact ⟨owner, inv.clear _ (fun _ same => (Option.some.inj same).symm)
        fun absurd => by cases absurd⟩
  | moveConstruct address other =>
    simp only [step] at next
    split at next
    · rename_i source fresh found
      cases next
      exact ⟨owner, inv.moveConstruct fresh found⟩
    · cases next
  | moveAssign address other =>
    simp only [step] at next
    split at next
    · rename_i target source before found
      cases next
      exact ⟨owner, inv.moveAssign before found⟩
    · cases next
  | destroy address =>
    simp only [step] at next
    split at next
    · cases next
    · rename_i ticket found
      split at next
      · cases next
      · rename_i idle
        cases next
        exact ⟨owner, inv.drop found none (fun _ absurd => by cases absurd)
          fun _ => inFlight_eq_false (Bool.eq_false_iff.mpr idle)⟩
  | adjustAsync address area =>
    simp only [step] at next
    split at next
    · cases next
    · rename_i ticket found
      split at next
      · cases next
      · rename_i i handle
        split at next
        · cases next
          have holds : Holds state.tickets address i ticket.grant :=
            ⟨ticket, found, handle, rfl⟩
          refine ⟨owner, inv.send (adjust i area ticket.grant) ?_ ?_ ?_⟩
          · intro j grant same
            cases same
            exact ⟨inv.held address i _ holds, inv.removed address i _ holds⟩
          · intro j g absurd
            cases absurd
          · intro payload other absurd
            cases absurd
        · cases next
  | sendRequest address area =>
    simp only [step] at next
    split at next
    · cases next
    · rename_i ticket found
      split at next
      · cases next
      · cases next
        refine ⟨owner, inv.send (request address area) ?_ ?_ ?_⟩
        · intro j grant absurd
          cases absurd
        · intro j g absurd
          cases absurd
        · intro payload other same
          cases same
          rw [found]
          exact Option.some_ne_none _
  | handle => exact handled_inv inv (handled_of_handle next)

/-! ## Runs -/

theorem run_inv {actions : List Action} (reached : run actions = some state) :
    ∃ owner, Inv owner state := by
  have preserved : ∀ state action state', (∃ owner, Inv owner state) →
      step state action = some state' → ∃ owner, Inv owner state' := by
    rintro state action state' ⟨owner, inv⟩ next
    exact step_inv inv next
  exact Runs.run_preserved preserved ⟨id, Inv.init id⟩ reached

/-- What the tickets of a state promise. -/
structure State.Correct (state : State) : Prop where
  /-- No two valid tickets have the same id. -/
  distinct : ∀ a b first second i, state.tickets a = some first → state.tickets b = some second →
    first.ticketId = some i → second.ticketId = some i → a = b
  /-- No two valid tickets come from the same grant. -/
  grants : ∀ a b first second, state.tickets a = some first → state.tickets b = some second →
    first.ticketId ≠ none → second.ticketId ≠ none → first.grant = second.grant → a = b
  /-- The slot of a valid ticket is valid and has the area the ticket was given or adjusted to
  last. -/
  slot : ∀ address ticket i, state.tickets address = some ticket → ticket.ticketId = some i →
    ∃ area, state.chunkTickets[i]? = some { area := area, valid := true } ∧
      state.areas ticket.grant = some area

/-- An action leaves the valid tickets it does not name, and their slots, as they were. -/
def State.Untouched (state : State) (action : Action) (state' : State) : Prop :=
  ∀ address ticket i, state.tickets address = some ticket → ticket.ticketId = some i →
    ¬ state.Names address action →
      state'.tickets address = some ticket ∧
        state'.chunkTickets[i]? = state.chunkTickets[i]? ∧
        state'.areas ticket.grant = state.areas ticket.grant

theorem Inv.correct (inv : Inv owner state) : state.Correct where
  distinct a b first second i foundA foundB handleA handleB :=
    inv.holder a b i _ _ ⟨first, foundA, handleA, rfl⟩ ⟨second, foundB, handleB, rfl⟩
  grants := by
    intro a b first second foundA foundB validA validB same
    obtain ⟨i, handleA⟩ := Option.ne_none_iff_exists'.mp validA
    obtain ⟨j, handleB⟩ := Option.ne_none_iff_exists'.mp validB
    have holdsA : Holds state.tickets a i first.grant := ⟨first, foundA, handleA, rfl⟩
    have holdsB : Holds state.tickets b j second.grant := ⟨second, foundB, handleB, rfl⟩
    have heldA := inv.held a i _ holdsA
    have heldB := inv.held b j _ holdsB
    have slot : i = j := inv.owners i j heldA.1 heldB.1 (by rw [heldA.2, heldB.2, same])
    subst slot
    exact inv.holder a b i _ _ holdsA holdsB
  slot := by
    intro address ticket i found handle
    obtain ⟨⟨area, valid⟩, owned⟩ := inv.held address i _ ⟨ticket, found, handle, rfl⟩
    exact ⟨area, valid, owned ▸ (inv.slots i area valid).2⟩

theorem handled_untouched (inv : Inv owner state) (handled : Handled state state') :
    state.Untouched .handle state' := by
  intro address ticket i found handle unnamed
  have held := inv.held address i _ ⟨ticket, found, handle, rfl⟩
  -- an adjustment or a removal of another grant is about another slot
  have otherSlot : ∀ message ∈ state.queue, ∀ j grant, message.about = some (j, grant) →
      ticket.grant ≠ grant → j ≠ i := by
    rintro message mem j grant about ne rfl
    exact ne (held.2.symm.trans (inv.sent message mem j grant about).2)
  cases handled with
  | @refuse payload area rest old queue found' bad =>
    rw [State.Names, queue] at unnamed
    exact ⟨(update_of_ne unnamed ..).trans found, rfl, rfl⟩
  | @grant payload area rest old queue found' good =>
    rw [State.Names, queue] at unnamed
    obtain ⟨fresh, _, others⟩ := takeSlot_spec state.chunkTickets area
    obtain ⟨old', valid⟩ := held.1
    have ne : i ≠ (takeSlot state.chunkTickets area).1 := by
      intro same
      exact fresh (same ▸ held.1)
    have older : ticket.grant ≠ state.nextGrant :=
      Nat.ne_of_lt (held.2 ▸ (inv.slots i old' valid).1)
    exact ⟨(update_of_ne unnamed ..).trans found, others i ne,
      update_of_ne older ..⟩
  | @ignore j grant area rest queue bad => exact ⟨found, rfl, rfl⟩
  | @adjusted j grant area rest queue good =>
    rw [State.Names, queue] at unnamed
    have ne : ticket.grant ≠ grant := fun same => unnamed (by rw [found, ← same]; rfl)
    have slot := otherSlot _ (queue ▸ List.mem_cons_self) j grant rfl ne
    exact ⟨found, List.getElem?_modify_ne _ _ slot, update_of_ne ne ..⟩
  | @removed j grant rest queue =>
    rw [State.Names, queue] at unnamed
    have ne : ticket.grant ≠ grant := fun same => unnamed (by rw [found, ← same]; rfl)
    have slot := otherSlot _ (queue ▸ List.mem_cons_self) j grant rfl ne
    exact ⟨found, List.getElem?_modify_ne _ _ slot, rfl⟩

theorem step_untouched (inv : Inv owner state) {action : Action}
    (next : step state action = some state') : state.Untouched action state' := by
  cases action with
  | handle => exact handled_untouched inv (handled_of_handle next)
  | construct target =>
    simp only [step] at next
    split at next <;> cases next
    intro address ticket i found handle unnamed
    exact ⟨(update_of_ne unnamed ..).trans found, rfl, rfl⟩
  | moveConstruct target other =>
    simp only [step] at next
    split at next <;> cases next
    intro address ticket i found handle unnamed
    obtain ⟨ne, ne'⟩ := not_or.mp unnamed
    exact ⟨(update_of_ne ne' ..).trans ((update_of_ne ne ..).trans found),
      rfl, rfl⟩
  | moveAssign target other =>
    simp only [step] at next
    split at next <;> cases next
    intro address ticket i found handle unnamed
    obtain ⟨ne, ne'⟩ := not_or.mp unnamed
    exact ⟨(update_of_ne ne' ..).trans ((update_of_ne ne ..).trans found),
      rfl, rfl⟩
  | destroy target =>
    simp only [step] at next
    split at next
    · cases next
    · split at next <;> cases next
      intro address ticket i found handle unnamed
      exact ⟨(update_of_ne unnamed ..).trans found, rfl, rfl⟩
  | adjustAsync target area =>
    simp only [step] at next
    split at next
    · cases next
    · split at next
      · cases next
      · split at next <;> cases next
        exact fun _ _ _ found _ _ => ⟨found, rfl, rfl⟩
  | sendRequest target area =>
    simp only [step] at next
    split at next
    · cases next
    · split at next <;> cases next
      exact fun _ _ _ found _ _ => ⟨found, rfl, rfl⟩

theorem Inv.handle_ne_none (inv : Inv owner state) (pending : state.queue ≠ []) :
    state.handle ≠ none := by
  obtain ⟨message, rest, queue⟩ := List.exists_cons_of_ne_nil pending
  have mem : message ∈ state.queue := queue ▸ List.mem_cons_self
  unfold State.handle
  rw [queue]
  cases message with
  | request payload area =>
    obtain ⟨old, found⟩ := Option.ne_none_iff_exists'.mp (inv.payloads payload area mem)
    simp only [State.handleChunkTicketRequest, found, Option.bind_eq_bind, Option.bind_some]
    split <;> exact Option.some_ne_none _
  | adjust i area grant =>
    have bound := (inv.sent _ mem i grant rfl).1.lt_length
    simp only [State.handleChunkTicketAdjust, if_pos bound]
    split <;> exact Option.some_ne_none _
  | remove i grant =>
    have bound := (inv.sent _ mem i grant rfl).1.lt_length
    simp only [State.handleChunkTicketRemove, if_pos bound]
    exact Option.some_ne_none _

/-- In every run the tickets are correct, no step touches a ticket it does not name, and every
message can be handled. -/
theorem run_tickets_correct {actions : List Action} (reached : run actions = some state) :
    state.Correct ∧
      (∀ action state', step state action = some state' → state.Untouched action state') ∧
      (state.queue ≠ [] → step state .handle ≠ none) := by
  obtain ⟨owner, inv⟩ := run_inv reached
  exact ⟨inv.correct, fun _ _ next => step_untouched inv next, inv.handle_ne_none⟩

/-- One ticket is granted, moved and adjusted, its slot is given up and taken again. -/
def reuseActions : List Action :=
  let first := .octahedron { scaleLog2 := 0, x := 0, y := 0, z := 0 } 3
  let second := .octahedron { scaleLog2 := 2, x := 0, y := 0, z := 0 } 5
  [.construct 0, .sendRequest 0 first, .handle, .moveConstruct 1 0, .adjustAsync 1 second,
    .destroy 1, .sendRequest 0 second, .handle, .handle, .handle]

theorem reuseActions_correct :
    ∃ state, run reuseActions = some state ∧
      state.tickets 0 = some { ticketId := some 0, hasSender := true, grant := 1 } ∧
      state.Correct := by
  have reached : ((run reuseActions).map fun state => state.tickets 0) =
      some (some { ticketId := some 0, hasSender := true, grant := 1 }) := by
    decide +kernel
  obtain ⟨state, run, ticket⟩ := Option.map_eq_some_iff.mp reached
  exact ⟨state, run, ticket, (run_tickets_correct run).1⟩

end Voxen.Land.ChunkTickets
