import Voxen.Svc.InboundQueue
import Voxen.Lib.FinSizes

/-!
# The inbound queue is a FIFO list

The messages met from `m_oldest` along the links are the queue.  A push adds behind
`m_newest`, which has to be the last of them; so every call that may have taken the
last message has to reset it.
-/

namespace Voxen.Svc.InboundQueue

variable {Ptr : Type}

/-- The messages met along the links, each of them once. -/
structure Linked (state : State Ptr) (queue : List Ptr) : Prop where
  chain : LinkChain state.link state.oldest queue
  nodup : queue.Nodup
  allocated : ∀ msg ∈ queue, (state.heap msg).isSome

/-- Between calls the newest message is the last one. -/
structure Holds (state : State Ptr) (queue : List Ptr) : Prop extends Linked state queue where
  newest : state.newest = queue.getLast?

variable {state : State Ptr} {queue rest : List Ptr} {msg hdr : Ptr}

namespace Linked

theorem oldest_eq (linked : Linked state queue) : state.oldest = queue.head? :=
  linked.chain.head?_eq

theorem tail (linked : Linked state (msg :: rest)) :
    Linked { state with oldest := state.link msg } rest where
  chain := by
    obtain ⟨rest', same, tail⟩ := LinkChain.head_eq (linked.oldest_eq ▸ linked.chain)
    cases same
    exact tail
  nodup := linked.nodup.of_cons
  allocated other mem := linked.allocated other (List.mem_cons_of_mem _ mem)

theorem exchangeOldest_eq (linked : Linked state (msg :: rest)) :
    exchangeOldest state msg = some { state with oldest := state.link msg } := by
  obtain ⟨hdr, allocated⟩ := Option.isSome_iff_exists.mp (linked.allocated msg List.mem_cons_self)
  simp [exchangeOldest, State.link, allocated]

theorem congr (linked : Linked state queue) {state' : State Ptr}
    (oldest : state'.oldest = state.oldest)
    (same : ∀ msg ∈ queue,
      (state'.heap msg).map Header.queueLink = (state.heap msg).map Header.queueLink) :
    Linked state' queue where
  chain := by
    rw [oldest]
    refine linked.chain.congr fun msg mem => ?_
    have link := same msg mem
    cases before : state.heap msg <;> cases after : state'.heap msg <;>
      simp_all [State.link]
  nodup := linked.nodup
  allocated msg mem := by
    have link := congrArg Option.isSome (same msg mem)
    rw [Option.isSome_map, Option.isSome_map] at link
    rw [link]
    exact linked.allocated msg mem

end Linked

section Calls

variable [DecidableEq Ptr]

theorem releaseRef_spec (linked : Linked state queue) (outside : msg ∉ queue)
    (allocated : (state.heap msg).isSome) :
    ∃ events state', releaseRef state msg = some (events, state') ∧ Linked state' queue ∧
      events.filterMap Event.released? = [msg] := by
  obtain ⟨hdr, allocated⟩ := Option.isSome_iff_exists.mp allocated
  have keeps (header : Option (Header Ptr)) :
      Linked { state with heap := Function.update state.heap msg header } queue := by
    refine linked.congr rfl fun other mem => ?_
    have apart : other ≠ msg := by
      rintro rfl
      exact outside mem
    simp only [Function.update_of_ne apart]
  simp only [releaseRef, allocated]
  split
  · refine ⟨_, _, rfl, keeps none, ?_⟩
    cases hdr.hasDeleterBlock <;> cases hdr.hasRequestBlock <;> rfl
  · exact ⟨_, _, rfl, keeps _, rfl⟩

theorem setLink_spec (allocated : (state.heap msg).isSome) (link : Option Ptr) :
    ∃ heap, setLink state msg link = some { state with heap } ∧
      ({ state with heap } : State Ptr).link = Function.update state.link msg link ∧
      ∀ other, (heap other).isSome = (state.heap other).isSome := by
  obtain ⟨hdr, allocated⟩ := Option.isSome_iff_exists.mp allocated
  refine ⟨Function.update state.heap msg (some { hdr with queueLink := link }),
    by simp only [setLink, allocated], funext fun other => ?_, fun other => ?_⟩
  all_goals
    by_cases same : other = msg
    · subst same
      simp [State.link, allocated]
    · simp [State.link, same]

theorem push_spec (holds : Holds state queue) (fresh : hdr ∉ queue)
    (allocated : (state.heap hdr).isSome) :
    ∃ events state', push state hdr = some (events, state') ∧ Holds state' (queue ++ [hdr]) := by
  obtain ⟨heap, written, link, same⟩ := setLink_spec allocated none
  have ends : ({ state with heap } : State Ptr).link hdr = none := by
    rw [link, Function.update_self]
  have chain : LinkChain ({ state with heap } : State Ptr).link state.oldest queue := by
    rw [link]
    exact holds.chain.update fresh none
  have allocated' : ∀ msg ∈ queue ++ [hdr], (heap msg).isSome := by
    intro msg mem
    rw [same]
    rcases List.mem_append.mp mem with mem | mem
    · exact holds.allocated msg mem
    · rw [List.mem_singleton.mp mem]
      exact allocated
  have nodup : (queue ++ [hdr]).Nodup := by
    rw [← List.concat_eq_append]
    exact holds.nodup.concat fresh
  rcases List.eq_nil_or_concat queue with rfl | ⟨front, last, rfl⟩
  · have empty : state.newest = none := holds.newest
    have single : LinkChain ({ state with heap } : State Ptr).link (some hdr) [hdr] := by
      refine .cons ?_
      rw [ends]
      exact .nil
    exact ⟨(notify state).1,
      { state with heap, newest := some hdr, oldest := some hdr, waitWord := 0 },
      by simp [push, written, empty, notify], ⟨⟨single, nodup, allocated'⟩, rfl⟩⟩
  · rw [List.concat_eq_append] at *
    have filled : state.newest = some last := by simpa using holds.newest
    have allocatedLast : (({ state with heap } : State Ptr).heap last).isSome :=
      allocated' last (by simp)
    obtain ⟨heap', written', link', same'⟩ := setLink_spec allocatedLast (some hdr)
    refine ⟨(notify state).1, { state with heap := heap', newest := some hdr, waitWord := 0 },
      by simp [push, written, filled, filled ▸ written', notify], ⟨⟨?_, nodup, ?_⟩, by simp⟩⟩
    · rw [List.append_assoc]
      have linked := chain.snoc (by simpa using nodup) ends
      rwa [← link'] at linked
    · intro msg mem
      rw [same']
      exact allocated' msg mem

omit [DecidableEq Ptr] in
theorem Linked.resetNewest (linked : Linked state queue)
    (newest : queue ≠ [] → state.newest = queue.getLast?) :
    Holds (InboundQueue.resetNewest state) queue := by
  cases queue with
  | nil =>
    have oldest : state.oldest = none := linked.oldest_eq
    have reset : InboundQueue.resetNewest state = { state with newest := none } := by
      simp [InboundQueue.resetNewest, oldest]
    rw [reset]
    exact ⟨⟨linked.chain, linked.nodup, linked.allocated⟩, rfl⟩
  | cons msg rest =>
    have oldest : state.oldest = some msg := linked.oldest_eq
    have kept : InboundQueue.resetNewest state = state := by
      simp [InboundQueue.resetNewest, oldest]
    rw [kept]
    exact ⟨linked, newest (List.cons_ne_nil msg rest)⟩

omit [DecidableEq Ptr] in
theorem pop_spec (holds : Holds state queue) :
    ∃ state', pop state = some (queue.head?, state') ∧ Holds state' queue.tail := by
  cases queue with
  | nil =>
    have oldest : state.oldest = none := holds.oldest_eq
    exact ⟨state, by simp [pop, oldest], holds⟩
  | cons msg rest =>
    have oldest : state.oldest = some msg := holds.oldest_eq
    refine ⟨_, by simp [pop, oldest, holds.exchangeOldest_eq],
      holds.tail.resetNewest fun nonempty => ?_⟩
    obtain ⟨next, others, rfl⟩ := List.exists_cons_of_ne_nil nonempty
    have newest := holds.newest
    rwa [List.getLast?_cons_cons] at newest

omit [DecidableEq Ptr] in
/-- The loop of `pop(span)` with the messages of `front` already in the span; the
induction is on the places left in it. -/
theorem popLoop_spec {front back : List (Option Ptr)} (linked : Linked state queue)
    (fits : front.length + back.length < 2 ^ 32) :
    ∃ state', popLoop (back.length + 1) front.length (front ++ back) state =
        some (front.length + min back.length queue.length,
          front ++ (queue.take back.length).map some ++ back.drop queue.length, state') ∧
      Linked state' (queue.drop back.length) ∧ state'.newest = state.newest := by
  induction back generalizing front state queue with
  | nil => exact ⟨state, by simp [popLoop], by simpa using linked, rfl⟩
  | cons place back ih =>
    cases queue with
    | nil =>
      have oldest : state.oldest = none := linked.oldest_eq
      exact ⟨state, by simp [popLoop, oldest], linked, rfl⟩
    | cons msg rest =>
      have oldest : state.oldest = some msg := linked.oldest_eq
      rw [List.length_cons] at fits
      have longer : (front ++ [some msg]).length + back.length < 2 ^ 32 := by
        rw [List.length_append, List.length_singleton]
        omega
      obtain ⟨state', popped, linked', newest⟩ := ih linked.tail longer
      refine ⟨state', ?_, linked', newest⟩
      have count : (front.length + 1) % 2 ^ 32 = (front ++ [some msg]).length := by
        rw [List.length_append, List.length_singleton, Nat.mod_eq_of_lt (by omega)]
      have written : (front ++ place :: back).set front.length (some msg) =
          front ++ [some msg] ++ back := by simp
      have inside : front.length < (front ++ place :: back).length := by simp
      rw [List.length_cons, popLoop, if_pos inside]
      simp only [oldest, linked.exchangeOldest_eq, count, written]
      rw [popped]
      simp [Nat.add_min_add_right, Nat.add_assoc, Nat.add_comm 1]

omit [DecidableEq Ptr] in
theorem popSpan_spec (holds : Holds state queue) {msgs : List (Option Ptr)}
    (fits : msgs.length < 2 ^ 32) :
    ∃ state', popSpan state msgs = some (min msgs.length queue.length,
        (queue.take msgs.length).map some ++ msgs.drop queue.length, state') ∧
      Holds state' (queue.drop msgs.length) := by
  have bound : ([] : List (Option Ptr)).length + msgs.length < 2 ^ 32 := by simpa using fits
  obtain ⟨state', popped, linked, newest⟩ := popLoop_spec holds.toLinked bound
  refine ⟨InboundQueue.resetNewest state', ?_, linked.resetNewest fun nonempty => ?_⟩
  · simp only [List.length_nil, List.nil_append, Nat.zero_add] at popped
    simp only [popSpan, popped]
  · have some_left : ¬ queue.length ≤ msgs.length := by
      rwa [← List.drop_eq_nil_iff]
    rw [newest, holds.newest, List.getLast?_drop, if_neg some_left]

/-- The loop of `clear` ends if it may make a round for every message and one more. -/
theorem clearLoop_spec (linked : Linked state queue) (fuel : Nat) :
    (fuel ≤ queue.length ∧ clearLoop fuel state = none) ∨
      (queue.length < fuel ∧ ∃ events state', clearLoop fuel state = some (events, state') ∧
        Linked state' [] ∧ events.filterMap Event.released? = queue) := by
  induction fuel generalizing state queue with
  | zero => exact Or.inl ⟨Nat.zero_le _, rfl⟩
  | succ fuel ih =>
    cases queue with
    | nil =>
      have oldest : state.oldest = none := linked.oldest_eq
      exact Or.inr ⟨Nat.succ_pos fuel, [], state, by simp [clearLoop, oldest], linked, rfl⟩
    | cons msg rest =>
      have oldest : state.oldest = some msg := linked.oldest_eq
      obtain ⟨events, middle, released, linked', release⟩ :=
        releaseRef_spec linked.tail (List.nodup_cons.mp linked.nodup).1
          (linked.allocated msg List.mem_cons_self)
      have unfolded : clearLoop (fuel + 1) state =
          (clearLoop fuel middle).bind fun later => some (events ++ later.1, later.2) := by
        simp [clearLoop, oldest, linked.exchangeOldest_eq, released]
      rw [unfolded, List.length_cons]
      rcases ih linked' with ⟨short, stuck⟩ | ⟨long, later, last, cleared, empty, rest_eq⟩
      · exact Or.inl ⟨by omega, by rw [stuck]; rfl⟩
      · refine Or.inr ⟨by omega, events ++ later, last, by rw [cleared]; rfl, empty, ?_⟩
        rw [List.filterMap_append, release, rest_eq]
        rfl

theorem clear_spec (holds : Holds state queue) (fuel : Nat) :
    (fuel ≤ queue.length ∧ clear fuel state = none) ∨
      (queue.length < fuel ∧ ∃ events state', clear fuel state = some (events, state') ∧
        Holds state' [] ∧ events.filterMap Event.released? = queue) := by
  rcases clearLoop_spec holds.toLinked fuel with
    ⟨short, stuck⟩ | ⟨long, events, state', cleared, linked, released⟩
  · exact Or.inl ⟨short, by simp only [clear, stuck]⟩
  · exact Or.inr ⟨long, events, { state' with newest := none }, by simp only [clear, cleared],
      ⟨⟨linked.chain, linked.nodup, linked.allocated⟩, rfl⟩, released⟩

end Calls

section Runs

/-- A queue before its first call. -/
def initial (heap : Ptr → Option (Header Ptr)) : System Ptr := { queue := { heap } }

/-- The queue holds what was pushed and not removed. -/
def Inv (system : System Ptr) : Prop :=
  ∃ queue, system.pushed = system.removed ++ queue ∧ Holds system.queue queue

variable {system : System Ptr}

theorem queued_eq (pushed : system.pushed = system.removed ++ queue) : system.queued = queue := by
  rw [System.queued, pushed, List.drop_left]

theorem initial_inv (heap : Ptr → Option (Header Ptr)) : Inv (initial heap) :=
  ⟨[], rfl, ⟨.nil, List.nodup_nil, fun _ mem => by cases mem⟩, rfl⟩

variable [DecidableEq Ptr]

theorem step_inv (system : System Ptr) (action : Action Ptr) (system' : System Ptr)
    (inv : Inv system) (stepped : step system action = some system') : Inv system' := by
  obtain ⟨queue, pushed, holds⟩ := inv
  have queued := queued_eq pushed
  cases action with
  | push hdr =>
    simp only [step, queued] at stepped
    split at stepped
    · cases stepped
    · rename_i fresh
      cases allocated : system.queue.heap hdr with
      | none => simp [push, setLink, allocated] at stepped
      | some header =>
        obtain ⟨events, state', done, holds'⟩ :=
          push_spec holds fresh (by rw [allocated]; rfl)
        rw [done] at stepped
        cases stepped
        exact ⟨queue ++ [hdr], by rw [pushed, List.append_assoc], holds'⟩
  | pop =>
    obtain ⟨state', popped, holds'⟩ := pop_spec holds
    simp only [step, popped, Option.some.injEq] at stepped
    subst stepped
    refine ⟨queue.tail, ?_, holds'⟩
    cases queue with
    | nil => simpa using pushed
    | cons msg rest => simpa using pushed
  | popSpan msgs =>
    simp only [step] at stepped
    split at stepped
    · rename_i fits
      obtain ⟨state', popped, holds'⟩ := popSpan_spec holds fits
      rw [popped] at stepped
      cases stepped
      refine ⟨queue.drop msgs.length, ?_, holds'⟩
      have taken : (((queue.take msgs.length).map some ++ msgs.drop queue.length).take
          (min msgs.length queue.length)).filterMap id = queue.take msgs.length := by
        rw [List.take_left' (by simp), List.filterMap_map]
        exact List.filterMap_some
      simp only [taken, List.append_assoc, List.take_append_drop, pushed]
    · cases stepped
  | clear fuel =>
    simp only [step] at stepped
    rcases clear_spec holds fuel with ⟨-, stuck⟩ | ⟨-, events, state', cleared, holds', released⟩
    · rw [stuck] at stepped
      cases stepped
    · rw [cleared] at stepped
      cases stepped
      exact ⟨[], by rw [released, pushed, List.append_nil], holds'⟩
  | elsewhere heap waitWord =>
    simp only [step, queued] at stepped
    split at stepped
    · rename_i same
      cases stepped
      exact ⟨queue, pushed, holds.toLinked.congr rfl same, holds.newest⟩
    · cases stepped

/-- What a FIFO list is: the messages went in and come out in one order, each once for
every push, and each call finds the list between `m_oldest` and `m_newest`. -/
structure IsFifo (system : System Ptr) : Prop where
  in_order : system.removed ++ system.queued = system.pushed
  oldest : system.queue.oldest = system.queued.head?
  newest : system.queue.newest = system.queued.getLast?
  push : ∀ hdr, hdr ∉ system.queued → (system.queue.heap hdr).isSome →
    ∃ system', step system (.push hdr) = some system' ∧
      system'.queued = system.queued ++ [hdr]
  pop : ∃ state', InboundQueue.pop system.queue = some (system.queued.head?, state')
  popSpan : ∀ msgs : List (Option Ptr), msgs.length < 2 ^ 32 →
    ∃ state', InboundQueue.popSpan system.queue msgs =
      some (min msgs.length system.queued.length,
        (system.queued.take msgs.length).map some ++ msgs.drop system.queued.length, state')
  clear : ∀ fuel, system.queued.length < fuel →
    ∃ events state', InboundQueue.clear fuel system.queue = some (events, state') ∧
      events.filterMap Event.released? = system.queued ∧
      state'.oldest = none ∧ state'.newest = none

theorem Inv.isFifo (inv : Inv system) : IsFifo system := by
  obtain ⟨queue, pushed, holds⟩ := inv
  have queued := queued_eq pushed
  subst queued
  refine ⟨pushed.symm, holds.oldest_eq, holds.newest, fun hdr fresh allocated => ?_, ?_,
    fun msgs fits => ?_, fun fuel enough => ?_⟩
  · obtain ⟨events, state', done, holds'⟩ := push_spec holds fresh allocated
    refine ⟨_, by simp only [step, if_neg fresh, done]; rfl, queued_eq ?_⟩
    rw [← List.append_assoc, ← pushed]
  · obtain ⟨state', popped, -⟩ := pop_spec holds
    exact ⟨state', popped⟩
  · obtain ⟨state', popped, -⟩ := popSpan_spec holds fits
    exact ⟨state', popped⟩
  · rcases clear_spec holds fuel with ⟨short, -⟩ | ⟨-, events, state', cleared, holds', released⟩
    · omega
    · exact ⟨events, state', cleared, released, holds'.oldest_eq, holds'.newest⟩

/-- In every run the queue behaves as a FIFO list. -/
theorem run_isFifo {heap : Ptr → Option (Header Ptr)} {actions : List (Action Ptr)}
    (reached : Runs.run step (initial heap) actions = some system) : IsFifo system :=
  (Runs.run_preserved step_inv (initial_inv heap) reached).isFifo

/-- Three pushes, a batch of two, a push behind the one that is left, a pop, and `clear`. -/
theorem run_isFifo_of_batches :
    ∃ system : System (Fin 4), Runs.run step (initial fun _ => some {})
        [.push 0, .push 1, .push 2, .popSpan [none, none], .push 3, .pop, .clear 2] =
          some system ∧ system.removed = [0, 1, 2, 3] ∧ IsFifo system := by
  have removed : (Runs.run step (initial fun _ : Fin 4 => some {})
      [.push 0, .push 1, .push 2, .popSpan [none, none], .push 3, .pop, .clear 2]).map
        System.removed = some [0, 1, 2, 3] := by decide
  obtain ⟨system, reached, same⟩ := Option.map_eq_some_iff.mp removed
  exact ⟨system, reached, same, run_isFifo reached⟩

end Runs

end Voxen.Svc.InboundQueue
