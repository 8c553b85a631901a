import Mathlib.Algebra.Group.Nat.Defs
import Voxen.Lib.Runs

/-!
# The async counter tracker

Threads allocate, complete and query counters.  A step of a thread is one atomic
operation, one acquire or release of a lock, or what it does to the segments of a
list while it holds the lock of the list.
-/

namespace Voxen.Svc.AsyncCounterTracker

/-- `NUM_COMPLETION_LISTS`. -/
abbrev numCompletionLists : Nat := 64

/-- A segment of completed values, both ends inclusive. -/
structure ValueSegment where
  first : Nat
  last : Nat
  deriving DecidableEq

/-- `CompletionList`; `lock` is the thread that holds the lock. -/
structure CompletionList (Thread : Type) where
  fullyCompletedValue : Nat := 0
  outOfOrderSegments : List ValueSegment := []
  lock : Option Thread := none

/-! ## Segments -/

/-- The body of the loop over the segments in `completeCounter`: the value is
appended to the `i`-th segment if it is next to it, and the segment joined with
the one on the other side of the value. -/
def appendToSegment (segments : List ValueSegment) (desired i : Nat) :
    Option (List ValueSegment) := do
  let segment ← segments[i]?
  if desired + 1 = segment.first then
    match segments[i + 1]? with
    | some next =>
      if next.last + 1 = desired then
        return (segments.set i ⟨next.first, segment.last⟩).eraseIdx (i + 1)
      else
        return segments.set i ⟨desired, segment.last⟩
    | none => return segments.set i ⟨desired, segment.last⟩
  else if desired = segment.last + 1 then
    match if 0 < i then segments[i - 1]? else none with
    | some previous =>
      if previous.first = desired + 1 then
        return (segments.set (i - 1) ⟨segment.first, previous.last⟩).eraseIdx i
      else
        return segments.set i ⟨segment.first, desired⟩
    | none => return segments.set i ⟨segment.first, desired⟩
  else none

/-- Adds a completed value to the segments. -/
def addValue (segments : List ValueSegment) (desired : Nat) : List ValueSegment :=
  match (List.range segments.length).findSome? (appendToSegment segments desired) with
  | some appended => appended
  | none =>
    -- a new segment keeps the descending order
    segments.takeWhile (fun segment => segment.last > desired) ++
      ⟨desired, desired⟩ :: segments.dropWhile (fun segment => segment.last > desired)

/-- The loop of `isCounterComplete` and `trimCompleteCounters` over the segments. -/
def scan (segments : List ValueSegment) (expected : Nat) : Bool :=
  segments.any fun segment => segment.first ≤ expected && segment.last ≥ expected

/-! ## Calls -/

/-- Where a `completeCounter` call is; `expected` is its local variable. -/
inductive CompletePhase where
  | exchange
  | acquire (expected : Nat)
  | insert (expected : Nat)
  | collapse (expected : Nat)
  | release
  | done
  deriving DecidableEq

/-- Where the check of one counter is. -/
inductive CheckPhase where
  | load
  | acquire
  | scan
  | release (found : Bool)
  | done (found : Bool)
  deriving DecidableEq

variable {Thread : Type}

/-- One step of `completeCounter`; `none` if the lock is taken or the call is over. -/
def completeStep (thread : Thread) (counter : Nat) (list : CompletionList Thread) :
    CompletePhase → Option (CompletionList Thread × CompletePhase)
  | .exchange =>
    let desired := counter / numCompletionLists
    let expected := (desired + (2 ^ 64 - 1)) % 2 ^ 64
    if list.fullyCompletedValue = expected then
      some ({ list with fullyCompletedValue := desired }, .done)
    else
      some (list, .acquire list.fullyCompletedValue)
  | .acquire expected =>
    if list.lock.isNone then some ({ list with lock := some thread }, .insert expected) else none
  | .insert expected =>
    let desired := counter / numCompletionLists
    let segments := addValue list.outOfOrderSegments desired
    some ({ list with outOfOrderSegments := segments }, .collapse expected)
  | .collapse expected =>
    match list.outOfOrderSegments.getLast? with
    | none => some (list, .release)
    | some segment =>
      if segment.first ≠ expected + 1 then
        some (list, .release)
      else if list.fullyCompletedValue = expected then
        let segments := list.outOfOrderSegments.dropLast
        some (
          { list with fullyCompletedValue := segment.last, outOfOrderSegments := segments },
          .collapse segment.last)
      else
        some (list, .collapse list.fullyCompletedValue)
  | .release => some ({ list with lock := none }, .done)
  | .done => none

/-- One step of the check of a counter. -/
def checkStep (thread : Thread) (counter : Nat) (list : CompletionList Thread) :
    CheckPhase → Option (CompletionList Thread × CheckPhase)
  | .load =>
    let expected := counter / numCompletionLists
    if list.fullyCompletedValue ≥ expected then some (list, .done true)
    else some (list, .acquire)
  | .acquire =>
    if list.lock.isNone then some ({ list with lock := some thread }, .scan) else none
  | .scan =>
    let expected := counter / numCompletionLists
    some (list, .release (scan list.outOfOrderSegments expected))
  | .release found => some ({ list with lock := none }, .done found)
  | .done _ => none

/-- The call a thread is in.  `returnedBefore` is not part of the code: it lists
the counters whose `completeCounter` call had returned when the query began. -/
inductive Call where
  | idle
  | completeCounter (counter : Nat) (phase : CompletePhase)
  | isCounterComplete (counter : Nat) (phase : CheckPhase) (returnedBefore : List Nat)
  | trimCompleteCounters (asked counters : Array Nat) (i remaining : Nat) (phase : CheckPhase)
      (returnedBefore : List Nat)
  deriving DecidableEq

/-- What a query told about each counter it was asked for, and when: the counters
whose `completeCounter` call had returned when the query began, and those whose
call had begun when it returned. -/
structure Answer where
  asked : List Nat
  results : List (Nat × Bool)
  returnedBefore : List Nat
  begun : List Nat
  deriving DecidableEq

/-- The tracker, the calls of the threads, and the history the properties speak
about: allocated counters, completions begun and returned, answers given. -/
structure State (Thread : Type) where
  nextAllocatedCounter : Nat := numCompletionLists
  completionLists : Nat → CompletionList Thread := fun _ => {}
  calls : Thread → Call := fun _ => .idle
  allocated : List Nat := []
  begun : List Nat := []
  returned : List Nat := []
  answers : List Answer := []

inductive Action (Thread : Type) where
  | allocate (thread : Thread)
  | beginComplete (thread : Thread) (counter : Nat)
  | beginCheck (thread : Thread) (counter : Nat)
  | beginTrim (thread : Thread) (counters : Array Nat)
  | advance (thread : Thread)

section Step

variable [DecidableEq Thread]

def State.setCall (state : State Thread) (thread : Thread) (call : Call) : State Thread :=
  { state with calls := Function.update state.calls thread call }

/-- The list of a counter. -/
def State.listOf (state : State Thread) (counter : Nat) : CompletionList Thread :=
  state.completionLists (counter % numCompletionLists)

def State.setListOf (state : State Thread) (counter : Nat) (list : CompletionList Thread) :
    State Thread :=
  { state with
    completionLists :=
      Function.update state.completionLists (counter % numCompletionLists) list }

/-- The next step of the call a thread is in. -/
def advance (state : State Thread) (thread : Thread) : Option (State Thread) :=
  match state.calls thread with
  | .idle => none
  | .completeCounter counter .done =>
    some { state.setCall thread .idle with returned := counter :: state.returned }
  | .completeCounter counter phase => do
      let (list, phase) ← completeStep thread counter (state.listOf counter) phase
      return (state.setListOf counter list).setCall thread (.completeCounter counter phase)
  | .isCounterComplete counter (.done found) returnedBefore =>
    some {
      state.setCall thread .idle with
      answers := ⟨[counter], [(counter, found)], returnedBefore, state.begun⟩ :: state.answers }
  | .isCounterComplete counter phase returnedBefore => do
      let (list, phase) ← checkStep thread counter (state.listOf counter) phase
      return (state.setListOf counter list).setCall thread
        (.isCounterComplete counter phase returnedBefore)
  | .trimCompleteCounters asked counters i remaining phase returnedBefore =>
    if i < remaining then do
      let counter ← counters[i]?
      match phase with
      | .done true =>
        return state.setCall thread (.trimCompleteCounters asked
          (counters.swapIfInBounds i (remaining - 1)) i (remaining - 1) .load returnedBefore)
      | .done false =>
        return state.setCall thread
          (.trimCompleteCounters asked counters (i + 1) remaining .load returnedBefore)
      | phase =>
        let (list, phase) ← checkStep thread counter (state.listOf counter) phase
        return (state.setListOf counter list).setCall thread
          (.trimCompleteCounters asked counters i remaining phase returnedBefore)
    else
      -- the first `remaining` counters are returned as incomplete
      let results := counters.toList.zipIdx.map fun (counter, j) => (counter, remaining ≤ j)
      some {
        state.setCall thread .idle with
        answers := ⟨asked.toList, results, returnedBefore, state.begun⟩ :: state.answers }

/-- One step of a thread; `none` if it is not possible.  Callers complete only
allocated counters, and each at most once. -/
def step (state : State Thread) : Action Thread → Option (State Thread)
  | .allocate thread =>
    if state.calls thread = .idle then
      some {
        state with
        nextAllocatedCounter := (state.nextAllocatedCounter + 1) % 2 ^ 64
        allocated := state.nextAllocatedCounter :: state.allocated }
    else none
  | .beginComplete thread counter =>
    if state.calls thread = .idle ∧ counter ∈ state.allocated ∧ counter ∉ state.begun then
      some {
        state.setCall thread (.completeCounter counter .exchange) with
        begun := counter :: state.begun }
    else none
  | .beginCheck thread counter =>
    if state.calls thread = .idle ∧ counter < 2 ^ 64 then
      some (state.setCall thread (.isCounterComplete counter .load state.returned))
    else none
  | .beginTrim thread counters =>
    if state.calls thread = .idle ∧ ∀ counter ∈ counters, counter < 2 ^ 64 then
      some (state.setCall thread
        (.trimCompleteCounters counters counters 0 counters.size .load state.returned))
    else none
  | .advance thread => advance state thread

def run (actions : List (Action Thread)) : Option (State Thread) :=
  Runs.run step {} actions

end Step

end Voxen.Svc.AsyncCounterTracker
