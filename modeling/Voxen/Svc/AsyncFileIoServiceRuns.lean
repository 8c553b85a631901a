import Voxen.Svc.AsyncFileIoService
import Voxen.Lib.FinSizes

/-!
# Runs of the asynchronous file I/O service

The I/O thread leaves its loop with the first subtraction that finds the stop flag
set, whatever is left of the count.  If all counted commands are in its batch when
the stop is requested, nothing of them is left.
-/

namespace Voxen.Svc

namespace FutexWorkCounter

/-- The word for a count and a stop flag. -/
def wordOf (count : Nat) (stop : Bool) : BitVec 32 :=
  BitVec.ofNat 32 (count + if stop then 2 ^ 31 else 0)

variable {count amount : Nat} {stop : Bool}

theorem toNat_wordOf (fits : count < 2 ^ 31) :
    (wordOf count stop).toNat = count + if stop then 2 ^ 31 else 0 := by
  rw [wordOf, BitVec.toNat_ofNat]
  refine Nat.mod_eq_of_lt ?_
  cases stop <;> simp <;> omega

theorem unpackValue_wordOf (fits : count < 2 ^ 31) :
    unpackValue (wordOf count stop) = (count, stop) := by
  have low : ((wordOf count stop) &&& (stopBit - 1#32)).toNat = count := by
    have mask : (stopBit - 1#32).toNat = 2 ^ 31 - 1 := by decide
    rw [BitVec.toNat_and, toNat_wordOf fits, mask, Nat.and_two_pow_sub_one_eq_mod]
    cases stop <;> simp <;> omega
  have high : ((wordOf count stop) &&& stopBit != 0#32) = stop := by
    have flag : stopBit = BitVec.twoPow 32 31 := by decide
    have bit : (wordOf count stop).getLsbD 31 = stop := by
      rw [← BitVec.testBit_toNat, toNat_wordOf fits]
      cases stop with
      | false => simpa using Nat.testBit_lt_two_pow fits
      | true =>
        rw [if_pos rfl, Nat.add_comm, Nat.testBit_two_pow_add_eq, Nat.testBit_lt_two_pow fits]
        rfl
    rw [flag, BitVec.and_twoPow, bit]
    cases stop <;> decide
  exact Prod.ext low high

theorem wordOf_add : wordOf count stop + 1#32 = wordOf (count + 1) stop := by
  rw [wordOf, wordOf, ← BitVec.ofNat_add, Nat.add_right_comm]

theorem wordOf_sub (le : amount ≤ count) :
    wordOf count stop - BitVec.ofNat 32 amount = wordOf (count - amount) stop := by
  obtain ⟨rest, rfl⟩ := Nat.exists_eq_add_of_le le
  rw [Nat.add_sub_cancel_left, wordOf, wordOf, Nat.add_assoc, BitVec.ofNat_add,
    BitVec.add_comm, BitVec.add_sub_cancel]

theorem wordOf_or_stop (fits : count < 2 ^ 31) :
    wordOf count false ||| stopBit = wordOf count true := by
  apply BitVec.eq_of_toNat_eq
  have flag : stopBit.toNat = 2 ^ 31 * 1 := by decide
  rw [BitVec.toNat_or, toNat_wordOf fits, toNat_wordOf fits, flag]
  simp only [Bool.false_eq_true, if_false, Nat.add_zero, if_true]
  rw [Nat.or_comm, ← Nat.two_pow_add_eq_or_of_lt fits]
  omega

theorem afterRemove_wordOf (fits : count < 2 ^ 31) (le : amount ≤ count) :
    afterRemove (wordOf count stop) amount = (count - amount, stop) := by
  unfold afterRemove
  rw [unpackValue_wordOf fits]
  refine Prod.ext ?_ rfl
  have sub : wordOf count false - BitVec.ofNat 32 amount = wordOf (count - amount) false :=
    wordOf_sub le
  have fits' : count - amount < 2 ^ 31 := by omega
  have value : (wordOf (count - amount) false).toNat = _ := toNat_wordOf fits'
  rw [← sub] at value
  simpa [wordOf] using value

end FutexWorkCounter

namespace AsyncFileIoService

open FutexWorkCounter

/-! ## What the I/O thread has done -/

namespace IoThread

/-- The number of commands taken from the queue; `removed` of them are subtracted. -/
def taken (removed : Nat) : IoThread → Nat
  | take workCount workRemaining => removed + (workCount - workRemaining)
  | execute workCount workRemaining _ => removed + (workCount - workRemaining)
  | complete workCount workRemaining _ => removed + (workCount - workRemaining)
  | removeWork workCount => removed + workCount
  | _ => removed

/-- The number of commands taken before the loop can end. -/
def bound (removed count : Nat) : IoThread → Nat
  | take workCount _ => removed + workCount
  | execute workCount _ _ => removed + workCount
  | complete workCount _ _ => removed + workCount
  | removeWork workCount => removed + workCount
  | done => removed
  | _ => removed + count

/-- The batch is within the count, and what remains within the batch. -/
def Within (count : Nat) : IoThread → Prop
  | take workCount workRemaining => 0 < workRemaining ∧ workRemaining ≤ workCount ∧ workCount ≤ count
  | execute workCount workRemaining _ => workRemaining < workCount ∧ workCount ≤ count
  | complete workCount workRemaining _ => workRemaining < workCount ∧ workCount ≤ count
  | removeWork workCount => workCount ≤ count
  | _ => True

/-- The command in the hands of the thread. -/
def item? : IoThread → Option IoQueueItem
  | execute _ _ item => some item
  | complete _ _ item => some item
  | _ => none

/-- The number of taken commands that are not executed yet. -/
def unexecuted : IoThread → Nat
  | execute _ _ _ => 1
  | _ => 0

/-- The number of taken commands that are not completed yet. -/
def uncompleted : IoThread → Nat
  | execute _ _ _ => 1
  | complete _ _ _ => 1
  | _ => 0

variable {io : IoThread} {removed count : Nat}

theorem taken_le (within : io.Within count) : io.taken removed ≤ removed + count := by
  cases io <;> simp only [taken, Within] at * <;> omega

theorem Within.mono (within : io.Within count) : io.Within (count + 1) := by
  cases io <;> simp only [Within] at * <;> omega

theorem bound_mono (removed count : Nat) (io : IoThread) :
    io.bound removed count ≤ io.bound removed (count + 1) := by
  cases io <;> simp only [bound] <;> omega

end IoThread

variable {Thread : Type}

/-- `flight` are the threads between emplacing and counting a command; `removed` is
what the I/O thread has subtracted so far, and the first `dueCount` emplaced commands
contain those that were pushed before the stop. -/
structure Inv (state : State Thread) (flight : List Thread) (count removed dueCount : Nat) :
    Prop where
  counter : state.ioWorkCounter = wordOf count (decide (state.destructor ≠ .notCalled))
  fits : count < 2 ^ 31
  flight_nodup : flight.Nodup
  flight_iff : ∀ thread, thread ∈ flight ↔ ∃ asyncCounter, state.calls thread = .addWork asyncCounter
  lengths : state.emplaced.length = state.pushed.length + flight.length
  pushed_sub : ∀ asyncCounter ∈ state.pushed, asyncCounter ∈ state.emplaced
  flying_sub : ∀ thread asyncCounter, state.calls thread = .addWork asyncCounter →
    asyncCounter ∈ state.emplaced
  accounting : state.pushed.length = removed + count
  queue : state.ioQueue.map IoQueueItem.asyncCounter =
    state.emplaced.drop (state.ioThread.taken removed)
  within : state.ioThread.Within count
  item : ∀ item, state.ioThread.item? = some item →
    ∃ before, state.ioThread.taken removed = before + 1 ∧
      state.emplaced[before]? = some item.asyncCounter
  executed : state.executed =
    state.emplaced.take (state.ioThread.taken removed - state.ioThread.unexecuted)
  completed : state.completed =
    state.emplaced.take (state.ioThread.taken removed - state.ioThread.uncompleted)
  due : state.destructor ≠ .notCalled →
    (∀ asyncCounter ∈ state.due, asyncCounter ∈ state.emplaced.take dueCount) ∧
      dueCount ≤ state.ioThread.bound removed count
  returned : state.destructor = .returned → state.ioThread = .done
  ended : state.ioThread = .done → state.destructor ≠ .notCalled

/-- The invariant. -/
def Holds (state : State Thread) : Prop := ∃ flight count removed dueCount,
  Inv state flight count removed dueCount

theorem initial_holds : Holds ({} : State Thread) := by
  refine ⟨[], 0, 0, 0, rfl, by decide, List.nodup_nil, fun thread => ?_, rfl, ?_, ?_, rfl, rfl,
    trivial, ?_, rfl, rfl, ?_, ?_, fun same => by cases same⟩
  · simp
  · simp
  · simp
  · intro item same
    cases same
  · intro called
    exact absurd rfl called
  · intro same
    cases same

namespace Inv

variable {state : State Thread} {flight : List Thread} {count removed dueCount : Nat}

theorem taken_le_length (inv : Inv state flight count removed dueCount) :
    state.ioThread.taken removed ≤ state.emplaced.length := by
  have taken : state.ioThread.taken removed ≤ _ := IoThread.taken_le inv.within
  have lengths := inv.lengths
  have accounting := inv.accounting
  omega

theorem unpacked (inv : Inv state flight count removed dueCount) :
    (unpackValue state.ioWorkCounter).1 = count := by
  rw [inv.counter, unpackValue_wordOf inv.fits]

theorem wakeIo (inv : Inv state flight count removed dueCount) :
    Inv state.wakeIo flight count removed dueCount := by
  unfold State.wakeIo
  split
  · rename_i asleep
    have queue := inv.queue
    have executed := inv.executed
    have completed := inv.completed
    have due := inv.due
    rw [asleep] at queue executed completed due
    refine
      { inv with
        queue := queue
        within := trivial
        item := fun _ same => by cases same
        executed, completed, due
        returned := fun returned => ?_
        ended := fun same => by cases same }
    have isDone := inv.returned returned
    rw [asleep] at isDone
    cases isDone
  · exact inv

theorem goOn (inv : Inv state flight count removed dueCount) {io : IoThread}
    (taken : io.taken removed = state.ioThread.taken removed) (within : io.Within count)
    (item : io.item? = none) (idle : state.ioThread.uncompleted = 0)
    (executed : io.unexecuted = 0) (completed : io.uncompleted = 0)
    (bound : state.ioThread.bound removed count ≤ io.bound removed count)
    (notDone : state.ioThread ≠ .done) (goes : io ≠ .done) :
    Inv { state with ioThread := io } flight count removed dueCount := by
  have nothing : state.ioThread.unexecuted = 0 := by
    cases io : state.ioThread <;> rw [io] at idle <;> first | rfl | cases idle
  refine
    { inv with
      queue := ?_
      within := within
      item := fun _ same => ?_
      executed := ?_
      completed := ?_
      due := fun called => ?_
      returned := fun returned => ?_
      ended := fun same => absurd same goes }
  · rw [taken]
    exact inv.queue
  · rw [item] at same
    cases same
  · rw [taken, executed, ← nothing]
    exact inv.executed
  · rw [taken, completed, ← idle]
    exact inv.completed
  · exact ⟨(inv.due called).1, Nat.le_trans (inv.due called).2 bound⟩
  · exact absurd (inv.returned returned) notDone

variable {workCount workRemaining : Nat} {item : IoQueueItem}

/-- The thread begins with the next command of a batch, or is at its end. -/
theorem nextTake (inv : Inv state flight count removed dueCount)
    (taken : removed + (workCount - workRemaining) = state.ioThread.taken removed)
    (remaining : workRemaining ≤ workCount) (within : workCount ≤ count)
    (idle : state.ioThread.uncompleted = 0)
    (bound : state.ioThread.bound removed count ≤ removed + workCount)
    (notDone : state.ioThread ≠ .done) :
    Inv { state with ioThread := State.nextTake workCount workRemaining }
      flight count removed dueCount := by
  cases workRemaining with
  | zero => exact inv.goOn taken within rfl idle rfl rfl bound notDone (by simp [State.nextTake])
  | succ workRemaining =>
    exact inv.goOn taken ⟨Nat.succ_pos _, remaining, within⟩ rfl idle rfl rfl bound notDone
      (by simp [State.nextTake])

theorem queue_ne_nil (inv : Inv state flight count removed dueCount)
    (taking : state.ioThread = .take workCount workRemaining) :
    state.ioQueue ≠ [] := by
  intro empty
  have queue := inv.queue
  have within := inv.within
  have lengths := inv.lengths
  have accounting := inv.accounting
  rw [taking] at queue within
  rw [empty] at queue
  have short := List.drop_eq_nil_iff.mp queue.symm
  simp only [IoThread.taken, IoThread.Within] at short within
  omega

theorem take (inv : Inv state flight count removed dueCount) {ioQueue : List IoQueueItem}
    (io : state.ioThread = .take workCount (workRemaining + 1))
    (queueIs : state.ioQueue = item :: ioQueue) :
    Inv { state with ioQueue, ioThread := .execute workCount workRemaining item }
      flight count removed dueCount := by
  obtain ⟨counter, fits, flight_nodup, flight_iff, lengths, pushed_sub, flying_sub, accounting,
    queue, within, -, executed, completed, due, returned, -⟩ := inv
  rw [io] at queue within executed completed due returned
  rw [queueIs] at queue
  simp only [IoThread.taken, IoThread.Within, IoThread.unexecuted, IoThread.uncompleted,
    Nat.sub_zero] at queue within executed completed
  have next : removed + (workCount - workRemaining) =
      removed + (workCount - (workRemaining + 1)) + 1 := by omega
  have cons : item.asyncCounter :: ioQueue.map IoQueueItem.asyncCounter =
      state.emplaced.drop (removed + (workCount - (workRemaining + 1))) := queue
  refine
    { counter, fits, flight_nodup, flight_iff, lengths, pushed_sub, flying_sub, accounting
      queue := ?_
      within := ?_
      item := ?_
      executed := ?_
      completed := ?_
      due := due
      returned := fun isReturned => ?_
      ended := fun same => by cases same }
  · simp only [IoThread.taken, next]
    rw [← List.tail_drop, ← cons]
    rfl
  · exact ⟨by omega, within.2.2⟩
  · intro other same
    cases same
    refine ⟨_, next, ?_⟩
    rw [← List.head?_drop, ← cons]
    rfl
  · simp only [IoThread.taken, IoThread.unexecuted, next, Nat.add_sub_cancel]
    exact executed
  · simp only [IoThread.taken, IoThread.uncompleted, next, Nat.add_sub_cancel]
    exact completed
  · cases returned isReturned

/-- The prefix of the emplaced commands with the one in the hands of the thread. -/
theorem take_succ_item (inv : Inv state flight count removed dueCount)
    (hands : state.ioThread.item? = some item) :
    state.emplaced.take (state.ioThread.taken removed) =
      state.emplaced.take (state.ioThread.taken removed - 1) ++ [item.asyncCounter] := by
  obtain ⟨before, taken, found⟩ := inv.item item hands
  rw [taken, Nat.add_sub_cancel, List.take_add_one, found]
  rfl

theorem execute (inv : Inv state flight count removed dueCount) {workCount workRemaining : Nat}
    {item : IoQueueItem} (io : state.ioThread = .execute workCount workRemaining item)
    (results : List (Nat × Outcome)) :
    Inv { state with
      ioThread := .complete workCount workRemaining item
      executed := state.executed ++ [item.asyncCounter]
      results } flight count removed dueCount := by
  have hands : state.ioThread.item? = some item := congrArg IoThread.item? io
  have whole := inv.take_succ_item hands
  obtain ⟨counter, fits, flight_nodup, flight_iff, lengths, pushed_sub, flying_sub, accounting,
    queue, within, hands, executed, completed, due, returned, -⟩ := inv
  rw [io] at queue within hands executed completed due returned whole
  refine
    { counter, fits, flight_nodup, flight_iff, lengths, pushed_sub, flying_sub, accounting, queue,
      within
      item := hands
      executed := ?_
      completed, due
      returned := fun isReturned => ?_
      ended := fun same => by cases same }
  · rw [executed]
    exact whole.symm
  · cases returned isReturned

theorem complete (inv : Inv state flight count removed dueCount)
    (io : state.ioThread = .complete workCount workRemaining item) :
    Inv { state with
      ioThread := State.nextTake workCount workRemaining
      completed := state.completed ++ [item.asyncCounter] } flight count removed dueCount := by
  have hands : state.ioThread.item? = some item := congrArg IoThread.item? io
  have whole := inv.take_succ_item hands
  obtain ⟨counter, fits, flight_nodup, flight_iff, lengths, pushed_sub, flying_sub, accounting,
    queue, within, hands, executed, completed, due, returned, -⟩ := inv
  rw [io] at queue within executed completed due returned whole
  simp only [IoThread.Within] at within
  have taken : (State.nextTake workCount workRemaining).taken removed =
      removed + (workCount - workRemaining) := by cases workRemaining <;> rfl
  refine
    { counter, fits, flight_nodup, flight_iff, lengths, pushed_sub, flying_sub, accounting
      queue := ?_
      within := ?_
      item := fun other same => ?_
      executed := ?_
      completed := ?_
      due := fun called => ⟨(due called).1, ?_⟩
      returned := fun isReturned => ?_
      ended := fun same => ?_ }
  · rw [taken]
    exact queue
  · cases workRemaining with
    | zero => exact within.2
    | succ workRemaining => exact ⟨Nat.succ_pos _, Nat.le_of_lt within.1, within.2⟩
  · cases workRemaining <;> cases same
  · rw [taken]
    cases workRemaining <;> exact executed
  · rw [taken, completed]
    cases workRemaining <;> exact whole.symm
  · cases workRemaining <;> exact (due called).2
  · cases returned isReturned
  · cases workRemaining <;> cases same

theorem removeWork (inv : Inv state flight count removed dueCount)
    (io : state.ioThread = .removeWork workCount) :
    Inv { state with
      ioWorkCounter := wordOf (count - workCount) (decide (state.destructor ≠ .notCalled))
      ioThread := if decide (state.destructor ≠ .notCalled) then .done
        else if count - workCount = 0 then .wait
        else State.nextTake (count - workCount) (count - workCount) }
      flight (count - workCount) (removed + workCount) dueCount := by
  obtain ⟨counter, fits, flight_nodup, flight_iff, lengths, pushed_sub, flying_sub, accounting,
    queue, within, hands, executed, completed, due, returned, -⟩ := inv
  rw [io] at queue within executed completed due returned
  simp only [IoThread.Within] at within
  have goesOn : ∀ next : IoThread, next = (if decide (state.destructor ≠ .notCalled) then .done
      else if count - workCount = 0 then .wait
      else State.nextTake (count - workCount) (count - workCount)) →
      next.taken (removed + workCount) = removed + workCount ∧
        next.Within (count - workCount) ∧ next.item? = none ∧ next.unexecuted = 0 ∧
        next.uncompleted = 0 ∧ (state.destructor ≠ .notCalled → next = .done) := by
    intro next same
    by_cases called : state.destructor = .notCalled
    · simp only [called, ne_eq, not_true_eq_false, decide_false, Bool.false_eq_true, if_false]
        at same
      by_cases zero : count - workCount = 0
      · rw [if_pos zero] at same
        subst same
        exact ⟨rfl, trivial, rfl, rfl, rfl, fun not => absurd called not⟩
      · rw [if_neg zero] at same
        obtain ⟨rest, isRest⟩ := Nat.exists_eq_succ_of_ne_zero zero
        rw [isRest] at same ⊢
        subst same
        refine ⟨?_, ⟨Nat.succ_pos _, Nat.le_refl _, Nat.le_refl _⟩, rfl, rfl, rfl,
          fun not => absurd called not⟩
        simp [State.nextTake, IoThread.taken]
    · simp only [called, ne_eq, not_false_eq_true, decide_true, if_true] at same
      subst same
      exact ⟨rfl, trivial, rfl, rfl, rfl, fun _ => rfl⟩
  have ended : (if decide (state.destructor ≠ .notCalled) then IoThread.done
      else if count - workCount = 0 then .wait
      else State.nextTake (count - workCount) (count - workCount)) = .done →
      state.destructor ≠ .notCalled := by
    intro same called
    simp only [called, ne_eq, not_true_eq_false, decide_false, Bool.false_eq_true, if_false] at same
    by_cases zero : count - workCount = 0
    · simp [zero] at same
    · obtain ⟨rest, isRest⟩ := Nat.exists_eq_succ_of_ne_zero zero
      simp [isRest, State.nextTake] at same
  have account : state.pushed.length = removed + workCount + (count - workCount) := by omega
  obtain ⟨taken, stays, item, executes, completes, ends⟩ := goesOn _ rfl
  refine
    { counter := rfl
      fits := by omega
      flight_nodup, flight_iff, lengths, pushed_sub, flying_sub
      accounting := account
      queue := ?_
      within := stays
      item := fun other same => ?_
      executed := ?_
      completed := ?_
      due := fun called => ⟨(due called).1, ?_⟩
      returned := fun isReturned => ?_
      ended := ended }
  · rw [taken]
    exact queue
  · rw [item] at same
    cases same
  · rw [taken, executes]
    exact executed
  · rw [taken, completes]
    exact completed
  · rw [ends called]
    exact (due called).2
  · cases returned isReturned

theorem advanceIo (inv : Inv state flight count removed dueCount) {outcome : Outcome}
    {state' : State Thread} (next : state.advanceIo outcome = some state') : Holds state' := by
  unfold State.advanceIo at next
  cases io : state.ioThread with
  | wait =>
    simp only [io] at next
    split at next
    · cases next
      exact ⟨flight, count, removed, dueCount, inv.goOn (by rw [io]; rfl) trivial rfl
        (by rw [io]; rfl) rfl rfl (by rw [io]; exact Nat.le_refl _) (by rw [io]; simp)
        (by simp)⟩
    · cases next
      rw [inv.unpacked]
      exact ⟨flight, count, removed, dueCount, inv.nextTake (by rw [io]; simp [IoThread.taken])
        (Nat.le_refl _) (Nat.le_refl _) (by rw [io]; rfl) (by rw [io]; exact Nat.le_refl _)
        (by rw [io]; simp)⟩
  | futexWait =>
    simp only [io] at next
    cases next
    refine ⟨flight, count, removed, dueCount, inv.goOn ?_ ?_ ?_ (by rw [io]; rfl) ?_ ?_ ?_
      (by rw [io]; simp) ?_⟩ <;> split <;>
        first | rfl | trivial | (rw [io]; rfl) | (rw [io]; exact Nat.le_refl _)
  | asleep =>
    simp only [io] at next
    cases next
    exact ⟨flight, count, removed, dueCount, inv.goOn (by rw [io]; rfl) trivial rfl
      (by rw [io]; rfl) rfl rfl (by rw [io]; exact Nat.le_refl _) (by rw [io]; simp)
        (by simp)⟩
  | done =>
    rw [io] at next
    cases next
  | take workCount workRemaining =>
    cases workRemaining with
    | zero =>
      rw [io] at next
      cases next
    | succ workRemaining =>
      simp only [io] at next
      cases queueIs : state.ioQueue with
      | nil => exact absurd queueIs (inv.queue_ne_nil io)
      | cons item ioQueue =>
        simp only [queueIs] at next
        cases next
        exact ⟨flight, count, removed, dueCount, inv.take io queueIs⟩
  | execute workCount workRemaining item =>
    simp only [io] at next
    cases next
    exact ⟨flight, count, removed, dueCount, inv.execute io _⟩
  | complete workCount workRemaining item =>
    simp only [io] at next
    cases next
    exact ⟨flight, count, removed, dueCount, inv.complete io⟩
  | removeWork workCount =>
    have within := inv.within
    rw [io] at within
    simp only [io, inv.counter, afterRemove_wordOf inv.fits within, wordOf_sub within] at next
    cases next
    exact ⟨flight, count - workCount, removed + workCount, dueCount, inv.removeWork io⟩

variable [DecidableEq Thread] {thread : Thread}

theorem emplace (inv : Inv state flight count removed dueCount)
    (at_call : state.calls thread = .emplace item) :
    Inv { state.setCall thread (.addWork item.asyncCounter) with
      ioQueue := state.ioQueue ++ [item]
      emplaced := state.emplaced ++ [item.asyncCounter] }
      (thread :: flight) count removed dueCount := by
  have taken := inv.taken_le_length
  have notFlying : thread ∉ flight := by
    intro mem
    obtain ⟨asyncCounter, same⟩ := (inv.flight_iff thread).mp mem
    rw [at_call] at same
    cases same
  refine
    { inv with
      flight_nodup := List.nodup_cons.mpr ⟨notFlying, inv.flight_nodup⟩
      flight_iff := fun other => ?_
      lengths := ?_
      pushed_sub := fun asyncCounter mem => ?_
      flying_sub := fun other asyncCounter same => ?_
      queue := ?_
      item := fun found hands => ?_
      executed := ?_
      completed := ?_
      due := fun called => ?_ }
  · by_cases isThread : other = thread
    · subst isThread
      simp [State.setCall]
    · simp [State.setCall, isThread, inv.flight_iff]
  · simp only [List.length_append, List.length_cons, List.length_nil, inv.lengths, State.setCall]
    omega
  · exact List.mem_append_left _ (inv.pushed_sub asyncCounter mem)
  · by_cases isThread : other = thread
    · subst isThread
      simp only [State.setCall, Function.update_self] at same
      cases same
      exact List.mem_append_right _ List.mem_cons_self
    · simp only [State.setCall, Function.update_of_ne isThread] at same
      exact List.mem_append_left _ (inv.flying_sub other asyncCounter same)
  · simp only [List.map_append, List.map_cons, List.map_nil, State.setCall,
      List.drop_append_of_le_length taken, inv.queue]
  · obtain ⟨before, isTaken, found⟩ := inv.item found hands
    refine ⟨before, isTaken, ?_⟩
    rw [List.getElem?_append_left (by omega)]
    exact found
  · exact inv.executed.trans (List.take_append_of_le_length (by omega)).symm
  · exact inv.completed.trans (List.take_append_of_le_length (by omega)).symm
  · refine ⟨fun asyncCounter mem => ?_, (inv.due called).2⟩
    rw [List.take_append]
    exact List.mem_append_left _ ((inv.due called).1 asyncCounter mem)

theorem addWork (inv : Inv state flight count removed dueCount) {asyncCounter : Nat}
    (at_call : state.calls thread = .addWork asyncCounter) (fits : count + 1 < 2 ^ 31) :
    Inv { state.setCall thread .idle with
      ioWorkCounter := state.ioWorkCounter + 1#32
      pushed := state.pushed ++ [asyncCounter] } (flight.erase thread) (count + 1) removed
      dueCount := by
  have flies : thread ∈ flight := (inv.flight_iff thread).mpr ⟨asyncCounter, at_call⟩
  have shorter := List.length_erase_add_one flies
  refine
    { inv with
      counter := ?_
      fits := fits
      flight_nodup := inv.flight_nodup.erase thread
      flight_iff := fun other => ?_
      lengths := ?_
      pushed_sub := fun other mem => ?_
      flying_sub := fun other counter same => ?_
      accounting := ?_
      within := inv.within.mono
      due := fun called => ⟨(inv.due called).1, Nat.le_trans (inv.due called).2 ?_⟩ }
  · rw [inv.counter]
    exact wordOf_add
  · rw [inv.flight_nodup.mem_erase_iff]
    by_cases isThread : other = thread
    · subst isThread
      simp [State.setCall]
    · simp [State.setCall, isThread, inv.flight_iff]
  · simp only [List.length_append, List.length_cons, List.length_nil, State.setCall, inv.lengths]
    omega
  · rcases List.mem_append.mp mem with mem | mem
    · exact inv.pushed_sub other mem
    · rw [List.mem_singleton.mp mem]
      exact inv.flying_sub thread asyncCounter at_call
  · by_cases isThread : other = thread
    · subst isThread
      simp [State.setCall] at same
    · simp only [State.setCall, Function.update_of_ne isThread] at same
      exact inv.flying_sub other counter same
  · simp only [List.length_append, List.length_cons, List.length_nil, inv.accounting]
    omega
  · exact IoThread.bound_mono removed count state.ioThread

omit [DecidableEq Thread] in
/-- The stop is requested while every command in the queue is counted, and every
counted command is in the batch. -/
theorem requestStop (inv : Inv state flight count removed dueCount)
    (notCalled : state.destructor = .notCalled) (safe : StepSafe state .requestStop) :
    Inv { state with
      ioWorkCounter := state.ioWorkCounter ||| stopBit
      destructor := .join
      due := state.pushed } flight count removed state.emplaced.length := by
  obtain ⟨noneFlying, batch⟩ := safe
  rw [inv.unpacked] at batch
  have grounded : flight = [] := by
    refine List.eq_nil_iff_forall_not_mem.mpr fun thread mem => ?_
    obtain ⟨asyncCounter, same⟩ := (inv.flight_iff thread).mp mem
    have counts := noneFlying thread
    rw [same] at counts
    cases counts
  have notDone : state.ioThread ≠ .done := fun isDone => inv.ended isDone notCalled
  have all : state.emplaced.length = removed + count := by
    have lengths := inv.lengths
    rw [grounded, inv.accounting] at lengths
    exact lengths
  refine
    { inv with
      counter := ?_
      due := fun _ => ⟨fun asyncCounter mem => ?_, ?_⟩
      returned := fun same => by cases same
      ended := fun _ same => by cases same }
  · rw [inv.counter, notCalled]
    exact wordOf_or_stop inv.fits
  · rw [List.take_length]
    exact inv.pushed_sub asyncCounter mem
  · rw [all]
    cases io : state.ioThread <;> rw [io] at batch <;>
      simp_all [IoThread.bound, IoThread.workCount?]

end Inv

section Steps

variable [DecidableEq Thread] {state state' : State Thread}

theorem step_holds (action : Action Thread) (holds : Holds state) (safe : StepSafe state action)
    (next : step state action = some state') : Holds state' := by
  obtain ⟨flight, count, removed, dueCount, inv⟩ := holds
  cases action with
  | push thread command =>
    simp only [step] at next
    split at next
    · rename_i idle
      cases next
      refine ⟨flight, count, removed, dueCount, inv.counter, inv.fits, inv.flight_nodup,
        fun other => ?_, inv.lengths, inv.pushed_sub, fun other asyncCounter same => ?_,
        inv.accounting, inv.queue, inv.within, inv.item, inv.executed, inv.completed, inv.due,
        inv.returned, inv.ended⟩
      · rw [inv.flight_iff]
        by_cases isThread : other = thread
        · subst isThread
          simp [State.setCall, idle]
        · simp [State.setCall, isThread]
      · by_cases isThread : other = thread
        · subst isThread
          simp [State.setCall] at same
        · simp only [State.setCall, Function.update_of_ne isThread] at same
          exact inv.flying_sub other asyncCounter same
    · cases next
  | advance thread =>
    simp only [step, State.advance] at next
    cases at_call : state.calls thread with
    | idle =>
      rw [at_call] at next
      cases next
    | emplace item =>
      simp only [at_call] at next
      cases next
      exact ⟨_, _, _, _, inv.emplace at_call⟩
    | addWork asyncCounter =>
      simp only [at_call] at next
      cases next
      have fits := safe (by rw [at_call]; rfl)
      rw [inv.unpacked] at fits
      have added := inv.addWork at_call fits
      split
      · exact ⟨_, _, _, _, added.wakeIo⟩
      · exact ⟨_, _, _, _, added⟩
  | requestStop =>
    simp only [step] at next
    split at next
    · rename_i notCalled
      cases next
      have stopped := inv.requestStop notCalled safe
      split
      · exact ⟨_, _, _, _, stopped.wakeIo⟩
      · exact ⟨_, _, _, _, stopped⟩
    · cases next
  | join =>
    simp only [step] at next
    split at next
    · rename_i joins
      cases next
      have called : state.destructor ≠ .notCalled := by
        rw [joins.1]
        simp
      refine ⟨flight, count, removed, dueCount, ?_, inv.fits, inv.flight_nodup,
        inv.flight_iff, inv.lengths, inv.pushed_sub, inv.flying_sub, inv.accounting, inv.queue,
        inv.within, inv.item, inv.executed, inv.completed, fun _ => inv.due called,
        fun _ => joins.2, fun _ same => by cases same⟩
      rw [inv.counter, joins.1]
      rfl
    · cases next
  | advanceIo outcome => exact inv.advanceIo next

omit [DecidableEq Thread] in
theorem Holds.correct (holds : Holds state) : state.Correct := by
  obtain ⟨flight, count, removed, dueCount, inv⟩ := holds
  refine ⟨fun returned asyncCounter mem => ?_, fun workCount workRemaining taking =>
    inv.queue_ne_nil taking⟩
  have isDone := inv.returned returned
  have executed := inv.executed
  have completed := inv.completed
  obtain ⟨early, bound⟩ := inv.due (by rw [returned]; simp)
  rw [isDone] at executed completed bound
  have taken : asyncCounter ∈ state.emplaced.take removed :=
    (List.take_subset_take_left state.emplaced bound) (early asyncCounter mem)
  exact ⟨executed ▸ taken, completed ▸ taken⟩

/-- Every command that was pushed before the stop was requested is executed and its
counter completed before the destructor returns, if the stop is requested safely. -/
theorem run_commands_complete {actions : List (Action Thread)}
    (safe : Runs.StepsMeet step StepSafe {} actions) (reached : run actions = some state) :
    state.Correct :=
  (Runs.run_invariant (fun _ action _ => step_holds action) initial_holds safe reached).correct

end Steps

instance (state : State (Fin 2)) (action : Action (Fin 2)) : Decidable (StepSafe state action) :=
  match action with
  | .requestStop => inferInstanceAs (Decidable ((∀ _, _ = _) ∧ ∀ _ ∈ _, _ = _))
  | .advance _ => inferInstanceAs (Decidable (_ → _ < _))
  | .push _ _ => isTrue trivial
  | .join => isTrue trivial
  | .advanceIo _ => isTrue trivial

def reader : Fin 2 := 0

def writer : Fin 2 := 1

/-- The steps of a whole push. -/
def pushActions (thread : Fin 2) (command : Command) : List (Action (Fin 2)) :=
  [.push thread command, .advance thread, .advance thread]

/-- The I/O thread takes, executes and completes one command and subtracts it. -/
def batchActions : List (Action (Fin 2)) := List.replicate 4 (.advanceIo .returns)

/-- The stop is requested while the I/O thread waits with two commands counted. -/
def waitingActions : List (Action (Fin 2)) :=
  pushActions reader .read ++ pushActions writer .write ++ [.requestStop] ++
    List.replicate 8 (.advanceIo .returns) ++ [.join]

theorem waitingActions_complete :
    ∃ state, run waitingActions = some state ∧ state.due = [1, 2] ∧ state.Correct := by
  have due : (run waitingActions).map State.due = some [1, 2] := by decide +kernel
  obtain ⟨state, reached, due⟩ := Option.map_eq_some_iff.mp due
  exact ⟨state, reached, due, run_commands_complete (by decide +kernel) reached⟩

/-- A command is pushed, and the stop requested, while the I/O thread works on the
command before it. -/
def busyActions : List (Action (Fin 2)) :=
  pushActions reader .read ++ [.advanceIo .returns] ++ pushActions writer .write ++
    [.requestStop] ++ batchActions ++ [.join]

/-- The I/O thread ends with the second command in the queue. -/
theorem busyActions_abandon :
    ∃ state, run busyActions = some state ∧ ¬ state.Correct := by
  have facts : (run busyActions).map (fun state =>
      (state.destructor, state.due, state.executed)) =
      some (.returned, [1, 2], [1]) := by decide +kernel
  obtain ⟨state, reached, facts⟩ := Option.map_eq_some_iff.mp facts
  refine ⟨state, reached, fun correct => ?_⟩
  simp only [Prod.mk.injEq] at facts
  obtain ⟨returned, due, executed⟩ := facts
  have second := (correct.finished returned 2 (by rw [due]; decide)).1
  rw [executed] at second
  exact absurd second (by decide)

end AsyncFileIoService

end Voxen.Svc
