import Voxen.Svc.ServiceLocatorThreads
import Voxen.Lib.FinSizes

/-!
# Runs of the requests of several threads

The pending services are those of the starts in progress, of all the threads, in the
order in which they began.  The steps of a run keep this as long as of the starts in
progress the one that began last ends first.
-/

namespace Voxen.Svc.ServiceLocator

open Relation

variable {Uid Thread : Type} [DecidableEq Uid] {factoryMap : List (Uid × Factory Uid)}

/-- What the control of a thread says about the top of its stack. -/
def Control.Ok (factoryMap : List (Uid × Factory Uid)) (constructed : List Uid)
    (frames : List (Frame Uid)) : Control Uid → Prop
  | .idle => True
  | .find id => ∀ frame ∈ frames, TransGen (Depends factoryMap) frame.id id
  | .lock id => ∀ frame ∈ frames, TransGen (Depends factoryMap) frame.id id
  | .factory => True
  | .emplace service => ∀ frame ∈ frames.head?, constructed[service]? = some frame.id
  | .raise error => error ≠ .circularDependency ∧
      ∀ frame ∈ frames.head?, Misses factoryMap frame.id

/-- The stack of a thread: each frame was called by the one below it. -/
structure Call.Ok (factoryMap : List (Uid × Factory Uid)) (constructed : List Uid) (begun : Nat)
    (call : Call Uid) : Prop where
  chained : call.frames.Pairwise fun upper lower =>
    lower.began < upper.began ∧ TransGen (Depends factoryMap) lower.id upper.id
  remaining : ∀ frame ∈ call.frames, ∀ dep ∈ frame.remaining, Depends factoryMap frame.id dep
  returns : ∀ frame ∈ call.frames, frame.throws = false
  began : ∀ frame ∈ call.frames, frame.began < begun
  control : call.control.Ok factoryMap constructed call.frames

/-- A start in progress. -/
structure Start (Uid Thread : Type) where
  thread : Thread
  id : Uid
  began : Nat

/-- The start has a frame on the stack. -/
def Call.Has (call : Call Uid) (id : Uid) (began : Nat) : Prop :=
  ∃ frame ∈ call.frames, frame.id = id ∧ frame.began = began

/-- The starts in progress, in the order in which they began. -/
structure ThreadsInv (factoryMap : List (Uid × Factory Uid)) (state : State Uid Thread)
    (starts : List (Start Uid Thread)) : Prop where
  map : state.impl.factoryMap = factoryMap
  calls : ∀ thread,
    (state.calls thread).Ok factoryMap state.impl.constructed state.begun
  pending : state.impl.pendingServices = starts.map Start.id
  sorted : starts.Pairwise fun first second => first.began < second.began
  starts_iff : ∀ start, start ∈ starts ↔ (state.calls start.thread).Has start.id start.began
  nodup : state.impl.pendingServices.Nodup
  inactive : ∀ id ∈ state.impl.pendingServices, state.impl.activeServices id = none
  active : ∀ id service, state.impl.activeServices id = some service →
    state.impl.constructed[service]? = some id
  constructed : ∀ id ∈ state.impl.constructed, (state.impl.activeServices id).isSome ∨
    ∃ thread service, (state.calls thread).control = .emplace service ∧
      ∃ frame ∈ (state.calls thread).frames.head?, frame.id = id
  once : state.impl.constructed.Nodup
  found : ∀ id service, (id, .ok service) ∈ state.returned →
    state.impl.constructed[service]? = some id
  failed : ∀ id error, (id, .error error) ∈ state.returned →
    error ≠ .circularDependency ∧ Misses factoryMap id
  matched : state.impl.mismatched = false

variable {id : Uid}

theorem Misses.of_transGen {dep : Uid} (misses : Misses factoryMap dep)
    (needs : TransGen (Depends factoryMap) id dep) : Misses factoryMap id := by
  obtain ⟨missing, reaches, absent⟩ := misses
  exact ⟨missing, needs.to_reflTransGen.trans reaches, absent⟩

namespace Call.Ok

variable {constructed : List Uid} {begun : Nat} {call : Call Uid}

theorem mono (ok : call.Ok factoryMap constructed begun) (more : List Uid) {begun' : Nat}
    (le : begun ≤ begun') : call.Ok factoryMap (constructed ++ more) begun' := by
  refine
    { ok with
      began := fun frame mem => Nat.lt_of_lt_of_le (ok.began frame mem) le
      control := ?_ }
  have control := ok.control
  cases isControl : call.control with
  | emplace service =>
    rw [isControl] at control
    intro frame mem
    rw [List.getElem?_append_left]
    · exact control frame mem
    · exact (List.getElem?_eq_some_iff.mp (control frame mem)).1
  | idle => trivial
  | factory => trivial
  | find id => rw [isControl] at control; exact control
  | lock id => rw [isControl] at control; exact control
  | raise error => rw [isControl] at control; exact control

end Call.Ok

theorem Control.after_ok {constructed : List Uid} {frames : List (Frame Uid)}
    {result : Except Error Nat}
    (needs : ∀ frame ∈ frames, TransGen (Depends factoryMap) frame.id id)
    (failed : ∀ error, result = .error error →
      error ≠ .circularDependency ∧ Misses factoryMap id) :
    (Control.after frames result).Ok factoryMap constructed frames := by
  cases frames with
  | nil => trivial
  | cons frame frames =>
    cases result with
    | ok service => trivial
    | error error =>
      obtain ⟨notCircular, misses⟩ := failed error rfl
      refine ⟨notCircular, fun top isTop => ?_⟩
      cases isTop
      exact misses.of_transGen (needs frame List.mem_cons_self)

namespace ThreadsInv

variable [DecidableEq Thread] {state : State Uid Thread} {starts : List (Start Uid Thread)}
  {thread : Thread}

omit [DecidableEq Uid] in
theorem setCall_calls (state : State Uid Thread) (thread : Thread) (call : Call Uid)
    (other : Thread) :
    other = thread ∧ (state.setCall thread call).calls other = call ∨
      other ≠ thread ∧ (state.setCall thread call).calls other = state.calls other := by
  by_cases isThread : other = thread
  · subst isThread
    exact Or.inl ⟨rfl, Function.update_self _ _ _⟩
  · exact Or.inr ⟨isThread, Function.update_of_ne isThread _ _⟩

variable {impl : Impl Uid} {returned : List (Uid × Except Error Nat)} {frames : List (Frame Uid)}
  {id : Uid} {frame : Frame Uid} {control : Control Uid} {result : Except Error Nat}

theorem move (inv : ThreadsInv factoryMap state starts) {call : Call Uid}
    (logged : Logged state.impl impl)
    (has : ∀ id began, call.Has id began ↔ (state.calls thread).Has id began)
    (ok : call.Ok factoryMap state.impl.constructed state.begun)
    (notEmplace : ∀ service, (state.calls thread).control ≠ .emplace service)
    (found : ∀ id service, (id, .ok service) ∈ returned →
      state.impl.constructed[service]? = some id)
    (failed : ∀ id error, (id, .error error) ∈ returned →
      error ≠ .circularDependency ∧ Misses factoryMap id) :
    ThreadsInv factoryMap { state.setCall thread call with impl, returned } starts := by
  obtain ⟨flag, errors, rfl⟩ := logged
  have calls := setCall_calls state thread call
  refine
    { inv with
      calls := fun other => ?_
      starts_iff := fun start => ?_
      constructed := fun id mem => ?_
      found := found
      failed := failed }
  · change Call.Ok _ _ _ ((state.setCall thread call).calls other)
    rcases calls other with ⟨-, same⟩ | ⟨-, same⟩
    · rw [same]
      exact ok
    · rw [same]
      exact inv.calls other
  · change _ ↔ ((state.setCall thread call).calls start.thread).Has start.id start.began
    rw [inv.starts_iff]
    rcases calls start.thread with ⟨isThread, same⟩ | ⟨-, same⟩
    · rw [same, has, isThread]
    · rw [same]
  · refine (inv.constructed id mem).imp_right ?_
    rintro ⟨other, service, isEmplace, frame⟩
    have notThread : other ≠ thread := by
      rintro rfl
      exact notEmplace service isEmplace
    have same : (state.setCall thread call).calls other = state.calls other :=
      Function.update_of_ne notThread _ _
    rw [← same] at isEmplace frame
    exact ⟨other, service, isEmplace, frame⟩

theorem begin_ (inv : ThreadsInv factoryMap state starts) {factory : Factory Uid} {flag : Bool}
    (call : state.calls thread = ⟨frames, .lock id⟩) (found : factoryMap.lookup id = some factory)
    (returns : factory.throws = false) (inactive : state.impl.activeServices id = none)
    (notPending : id ∉ state.impl.pendingServices) :
    ThreadsInv factoryMap { state.setCall thread
        ⟨⟨id, factory.dependencies, factory.throws, state.begun⟩ :: frames, .factory⟩ with
      impl := { state.impl with
        requestServiceFailLogged := flag
        pendingServices := state.impl.pendingServices ++ [id] }
      begun := state.begun + 1 } (starts ++ [⟨thread, id, state.begun⟩]) := by
  have old := inv.calls thread
  rw [call] at old
  have began : ∀ start ∈ starts, start.began < state.begun := by
    intro start mem
    obtain ⟨frame, isFrame, -, same⟩ := (inv.starts_iff start).mp mem
    rw [← same]
    exact (inv.calls start.thread).began frame isFrame
  have calls := setCall_calls state thread
    ⟨⟨id, factory.dependencies, factory.throws, state.begun⟩ :: frames, .factory⟩
  refine
    { inv with
      calls := fun other => ?_
      pending := ?_
      sorted := ?_
      starts_iff := fun start => ?_
      nodup := ?_
      inactive := fun other mem => ?_
      constructed := fun other mem => ?_ }
  · change Call.Ok _ _ _ ((state.setCall thread _).calls other)
    rcases calls other with ⟨-, same⟩ | ⟨-, same⟩
    · rw [same]
      refine
        { chained :=
            List.pairwise_cons.mpr ⟨fun lower mem => ⟨old.began lower mem, ?_⟩, old.chained⟩
          remaining := fun frame mem dep isDep => ?_
          returns := fun frame mem => ?_
          began := fun frame mem => ?_
          control := trivial }
      · exact old.control lower mem
      · rcases List.mem_cons.mp mem with rfl | mem
        · exact ⟨factory, found, isDep⟩
        · exact old.remaining frame mem dep isDep
      · rcases List.mem_cons.mp mem with rfl | mem
        · exact returns
        · exact old.returns frame mem
      · rcases List.mem_cons.mp mem with rfl | mem
        · exact Nat.lt_succ_self _
        · exact Nat.lt_succ_of_lt (old.began frame mem)
    · rw [same]
      have more := (inv.calls other).mono [] (Nat.le_succ state.begun)
      rwa [List.append_nil] at more
  · rw [List.map_append, ← inv.pending]
    rfl
  · refine List.pairwise_append.mpr ⟨inv.sorted, List.pairwise_singleton _ _, ?_⟩
    intro start mem last isLast
    rw [List.mem_singleton.mp isLast]
    exact began start mem
  · change _ ↔ ((state.setCall thread _).calls start.thread).Has start.id start.began
    rw [List.mem_append, inv.starts_iff, List.mem_singleton]
    rcases calls start.thread with ⟨isThread, same⟩ | ⟨notThread, same⟩
    · rw [same, isThread, call]
      constructor
      · rintro (⟨frame, mem, isFrame⟩ | rfl)
        · exact ⟨frame, List.mem_cons_of_mem _ mem, isFrame⟩
        · exact ⟨_, List.mem_cons_self, rfl, rfl⟩
      · rintro ⟨frame, mem, isId, isBegan⟩
        rcases List.mem_cons.mp mem with rfl | mem
        · cases start
          cases isThread
          cases isId
          cases isBegan
          exact Or.inr rfl
        · exact Or.inl ⟨frame, mem, isId, isBegan⟩
    · rw [same]
      refine ⟨fun both => both.resolve_right ?_, Or.inl⟩
      rintro rfl
      exact notThread rfl
  · refine List.nodup_append.mpr ⟨inv.nodup, List.nodup_singleton id, ?_⟩
    rintro other mem last isLast rfl
    rw [List.mem_singleton.mp isLast] at mem
    exact notPending mem
  · rcases List.mem_append.mp mem with mem | isLast
    · exact inv.inactive other mem
    · rw [List.mem_singleton.mp isLast]
      exact inactive
  · refine (inv.constructed other mem).imp_right ?_
    rintro ⟨thread', service, isEmplace, frame⟩
    have notThread : thread' ≠ thread := by
      rintro rfl
      rw [call] at isEmplace
      cases isEmplace
    refine ⟨thread', service, ?_⟩
    change ((state.setCall thread _).calls thread').control = _ ∧
      ∃ frame ∈ ((state.setCall thread _).calls thread').frames.head?, _
    rcases calls thread' with ⟨isThread, -⟩ | ⟨-, same⟩
    · exact absurd isThread notThread
    · rw [same]
      exact ⟨isEmplace, frame⟩

omit [DecidableEq Thread] in
theorem mem_starts (inv : ThreadsInv factoryMap state starts)
    (mem : frame ∈ (state.calls thread).frames) : ⟨thread, frame.id, frame.began⟩ ∈ starts :=
  (inv.starts_iff _).mpr ⟨frame, mem, rfl, rfl⟩

omit [DecidableEq Thread] in
theorem start_eq (inv : ThreadsInv factoryMap state starts) {first second : Start Uid Thread}
    (firstMem : first ∈ starts) (secondMem : second ∈ starts) (same : first.id = second.id) :
    first = second := by
  have nodup := inv.nodup
  rw [inv.pending] at nodup
  exact List.inj_on_of_nodup_map nodup firstMem secondMem same

theorem construct (inv : ThreadsInv factoryMap state starts)
    (call : state.calls thread = ⟨frame :: frames, .factory⟩) :
    ThreadsInv factoryMap { state.setCall thread
        ⟨frame :: frames, .emplace state.impl.constructed.length⟩ with
      impl := { state.impl with constructed := state.impl.constructed ++ [frame.id] } } starts := by
  have old := inv.calls thread
  rw [call] at old
  have mine : ⟨thread, frame.id, frame.began⟩ ∈ starts :=
    inv.mem_starts (by rw [call]; exact List.mem_cons_self)
  have isPending : frame.id ∈ state.impl.pendingServices := by
    rw [inv.pending]
    exact List.mem_map_of_mem mine
  have notBefore : frame.id ∉ state.impl.constructed := by
    intro mem
    rcases inv.constructed frame.id mem with isActive | ⟨other, service, isEmplace, top, isTop, same⟩
    · rw [inv.inactive frame.id isPending] at isActive
      cases isActive
    · have theirs := inv.mem_starts (List.mem_of_mem_head? isTop)
      have both := inv.start_eq theirs mine same
      obtain rfl : other = thread := congrArg Start.thread both
      rw [call] at isEmplace
      cases isEmplace
  have earlier : ∀ {id : Uid} {service : Nat}, state.impl.constructed[service]? = some id →
      (state.impl.constructed ++ [frame.id])[service]? = some id := by
    intro id service isBefore
    rw [List.getElem?_append_left (List.getElem?_eq_some_iff.mp isBefore).1]
    exact isBefore
  have calls := setCall_calls state thread
    ⟨frame :: frames, .emplace state.impl.constructed.length⟩
  refine
    { inv with
      calls := fun other => ?_
      starts_iff := fun start => ?_
      active := fun id service isActive => earlier (inv.active id service isActive)
      constructed := fun id mem => ?_
      once := ?_
      found := fun id service mem => earlier (inv.found id service mem) }
  · change Call.Ok _ _ _ ((state.setCall thread _).calls other)
    rcases calls other with ⟨-, same⟩ | ⟨-, same⟩
    · rw [same]
      refine
        { old with
          control := fun top isTop => ?_ }
      cases isTop
      exact List.getElem?_concat_length
    · rw [same]
      exact (inv.calls other).mono [frame.id] (Nat.le_refl _)
  · change _ ↔ ((state.setCall thread _).calls start.thread).Has start.id start.began
    rw [inv.starts_iff]
    rcases calls start.thread with ⟨isThread, same⟩ | ⟨-, same⟩
    · rw [same, isThread, call]
      rfl
    · rw [same]
  · change _ ∨ ∃ thread' service, ((state.setCall thread _).calls thread').control = _ ∧
      ∃ frame ∈ ((state.setCall thread _).calls thread').frames.head?, _
    rcases List.mem_append.mp mem with mem | isLast
    · refine (inv.constructed id mem).imp_right ?_
      rintro ⟨other, service, isEmplace, top⟩
      refine ⟨other, service, ?_⟩
      rcases calls other with ⟨rfl, -⟩ | ⟨-, same⟩
      · rw [call] at isEmplace
        cases isEmplace
      · rw [same]
        exact ⟨isEmplace, top⟩
    · refine Or.inr ⟨thread, state.impl.constructed.length, ?_⟩
      rw [List.mem_singleton.mp isLast]
      rcases calls thread with ⟨-, same⟩ | ⟨notThread, -⟩
      · rw [same]
        exact ⟨rfl, frame, rfl, rfl⟩
      · exact absurd rfl notThread
  · refine List.nodup_append.mpr ⟨inv.once, List.nodup_singleton _, ?_⟩
    rintro other mem last isLast rfl
    rw [List.mem_singleton.mp isLast] at mem
    exact notBefore mem

omit [DecidableEq Thread] in
theorem last_start (inv : ThreadsInv factoryMap state starts)
    (call : state.calls thread = ⟨frame :: frames, control⟩) (latest : ∀ other, other ≠ thread →
      ∀ earlier ∈ (state.calls other).frames, earlier.began < frame.began) :
    ∃ before, starts = before ++ [⟨thread, frame.id, frame.began⟩] := by
  have mine : ⟨thread, frame.id, frame.began⟩ ∈ starts :=
    inv.mem_starts (by rw [call]; exact List.mem_cons_self)
  have isLatest : ∀ start ∈ starts, start.began ≤ frame.began := by
    intro start mem
    obtain ⟨found, isFound, -, same⟩ := (inv.starts_iff start).mp mem
    rw [← same]
    by_cases isThread : start.thread = thread
    · have chained := (inv.calls thread).chained
      rw [isThread, call] at isFound
      rw [call] at chained
      rcases List.mem_cons.mp isFound with rfl | below
      · exact Nat.le_refl _
      · exact Nat.le_of_lt (List.rel_of_pairwise_cons chained below).1
    · exact Nat.le_of_lt (latest start.thread isThread found isFound)
  cases starts using List.reverseRecOn with
  | nil => cases mine
  | append_singleton before last =>
    rcases List.mem_append.mp mine with isBefore | isLast
    · have less := (List.pairwise_append.mp inv.sorted).2.2 _ isBefore last (by simp)
      exact absurd (isLatest last (by simp)) (Nat.not_le.mpr less)
    · exact ⟨before, by rw [List.mem_singleton.mp isLast]⟩

theorem close (inv : ThreadsInv factoryMap state starts) {control' : Control Uid}
    {before : List (Start Uid Thread)} (call : state.calls thread = ⟨frame :: frames, control⟩)
    (last : starts = before ++ [⟨thread, frame.id, frame.began⟩])
    (map : impl.factoryMap = factoryMap) (pending : impl.pendingServices = before.map Start.id)
    (sameConstructed : impl.constructed = state.impl.constructed)
    (matched : impl.mismatched = false)
    (activeOther : ∀ id, id ≠ frame.id → impl.activeServices id = state.impl.activeServices id)
    (active : ∀ service, impl.activeServices frame.id = some service →
      state.impl.constructed[service]? = some frame.id)
    (emplaced : ∀ service, control = .emplace service → (impl.activeServices frame.id).isSome)
    (ok : control'.Ok factoryMap state.impl.constructed frames)
    (found : ∀ id service, (id, .ok service) ∈ returned →
      state.impl.constructed[service]? = some id)
    (failed : ∀ id error, (id, .error error) ∈ returned →
      error ≠ .circularDependency ∧ Misses factoryMap id) :
    ThreadsInv factoryMap { state.setCall thread ⟨frames, control'⟩ with impl, returned } before := by
  subst last
  have old := inv.calls thread
  rw [call] at old
  have nodup := inv.nodup
  rw [inv.pending, List.map_append] at nodup
  have notEnded : ∀ id ∈ before.map Start.id, id ≠ frame.id := by
    rintro id mem rfl
    exact (List.nodup_append.mp nodup).2.2 _ mem frame.id (by simp) rfl
  have calls := setCall_calls state thread ⟨frames, control'⟩
  refine
    { map := map
      calls := fun other => ?_
      pending := pending
      sorted := (List.pairwise_append.mp inv.sorted).1
      starts_iff := fun start => ?_
      nodup := ?_
      inactive := fun id mem => ?_
      active := fun id service isActive => ?_
      constructed := fun id mem => ?_
      once := ?_
      found := ?_
      failed := failed
      matched := matched }
  · change Call.Ok _ _ _ ((state.setCall thread _).calls other)
    rw [sameConstructed]
    rcases calls other with ⟨-, same⟩ | ⟨-, same⟩
    · rw [same]
      exact ⟨(List.pairwise_cons.mp old.chained).2,
        fun frame mem => old.remaining frame (List.mem_cons_of_mem _ mem),
        fun frame mem => old.returns frame (List.mem_cons_of_mem _ mem),
        fun frame mem => old.began frame (List.mem_cons_of_mem _ mem), ok⟩
    · rw [same]
      exact inv.calls other
  · change _ ↔ ((state.setCall thread _).calls start.thread).Has start.id start.began
    have whole := inv.starts_iff start
    rw [List.mem_append, List.mem_singleton] at whole
    rcases calls start.thread with ⟨isThread, same⟩ | ⟨notThread, same⟩
    · rw [same]
      rw [isThread, call] at whole
      constructor
      · intro mem
        obtain ⟨top, isTop, isId, isBegan⟩ := whole.mp (Or.inl mem)
        rcases List.mem_cons.mp isTop with rfl | below
        · exact absurd isId.symm (notEnded start.id (List.mem_map_of_mem mem))
        · exact ⟨top, below, isId, isBegan⟩
      · rintro ⟨lower, below, isId, isBegan⟩
        rcases whole.mpr ⟨lower, List.mem_cons_of_mem _ below, isId, isBegan⟩ with mem | rfl
        · exact mem
        · have less := (List.rel_of_pairwise_cons old.chained below).1
          exact absurd isBegan (Nat.ne_of_lt less)
    · rw [same, ← whole]
      refine ⟨Or.inl, fun both => both.resolve_right ?_⟩
      rintro rfl
      exact notThread rfl
  · rw [pending]
    exact (List.nodup_append.mp nodup).1
  · rw [pending] at mem
    rw [activeOther id (notEnded id mem)]
    refine inv.inactive id ?_
    rw [inv.pending, List.map_append]
    exact List.mem_append_left _ mem
  · rw [sameConstructed]
    by_cases isEnded : id = frame.id
    · subst isEnded
      exact active service isActive
    · rw [activeOther id isEnded] at isActive
      exact inv.active id service isActive
  · change _ ∨ ∃ thread' service, ((state.setCall thread _).calls thread').control = _ ∧
      ∃ frame ∈ ((state.setCall thread _).calls thread').frames.head?, _
    rw [sameConstructed] at mem
    have isPending : frame.id ∈ state.impl.pendingServices := by
      rw [inv.pending, List.map_append]
      exact List.mem_append_right _ (by simp)
    rcases inv.constructed id mem with isActive | ⟨other, service, isEmplace, top, isTop, isId⟩
    · have notFrame : id ≠ frame.id := by
        rintro rfl
        rw [inv.inactive _ isPending] at isActive
        cases isActive
      rw [activeOther id notFrame]
      exact Or.inl isActive
    · rcases calls other with ⟨rfl, -⟩ | ⟨-, same⟩
      · rw [call] at isEmplace isTop
        cases isTop
        exact Or.inl (isId ▸ emplaced service isEmplace)
      · refine Or.inr ⟨other, service, ?_⟩
        rw [same]
        exact ⟨isEmplace, top, isTop, isId⟩
  · rw [sameConstructed]
    exact inv.once
  · rw [sameConstructed]
    exact found

omit [DecidableEq Uid] in
theorem found_cons {constructed : List Uid}
    (found : ∀ id service, (id, .ok service) ∈ returned → constructed[service]? = some id)
    (isFound : ∀ service, result = .ok service → constructed[service]? = some id) :
    ∀ other service, (other, .ok service) ∈ (id, result) :: returned →
      constructed[service]? = some other := by
  intro other service mem
  rcases List.mem_cons.mp mem with isFirst | mem
  · obtain ⟨rfl, same⟩ := Prod.mk.inj isFirst
    exact isFound service same.symm
  · exact found other service mem

theorem failed_cons (failed : ∀ id error, (id, .error error) ∈ returned →
      error ≠ .circularDependency ∧ Misses factoryMap id)
    (isFailed : ∀ error, result = .error error →
      error ≠ .circularDependency ∧ Misses factoryMap id) :
    ∀ other error, (other, .error error) ∈ (id, result) :: returned →
      error ≠ .circularDependency ∧ Misses factoryMap other := by
  intro other error mem
  rcases List.mem_cons.mp mem with isFirst | mem
  · obtain ⟨rfl, same⟩ := Prod.mk.inj isFirst
    exact isFailed error same.symm
  · exact failed other error mem

theorem returns (inv : ThreadsInv factoryMap state starts)
    (call : state.calls thread = ⟨frames, control⟩) (logged : Logged state.impl impl)
    (notEmplace : ∀ service, control ≠ .emplace service)
    (needs : ∀ frame ∈ frames, TransGen (Depends factoryMap) frame.id id)
    (isFound : ∀ service, result = .ok service → state.impl.constructed[service]? = some id)
    (isFailed : ∀ error, result = .error error →
      error ≠ .circularDependency ∧ Misses factoryMap id) :
    ThreadsInv factoryMap ({ state with impl }.returns thread frames id result) starts := by
  have old := inv.calls thread
  rw [call] at old
  refine inv.move logged (fun other began => ?_)
    ⟨old.chained, old.remaining, old.returns, old.began, Control.after_ok needs isFailed⟩
    (by rw [call]; exact notEmplace) (found_cons inv.found isFound)
    (failed_cons inv.failed isFailed)
  rw [call]
  rfl

theorem lock (inv : ThreadsInv factoryMap state starts)
    (call : state.calls thread = ⟨frames, .lock id⟩)
    (noCycle : ∀ id, ¬ TransGen (Depends factoryMap) id id)
    (noThrow : ∀ id factory, factoryMap.lookup id = some factory → factory.throws = false)
    (alone : ∀ other, other ≠ thread → ∀ frame ∈ (state.calls other).frames, frame.id ≠ id)
    {state' : State Uid Thread} (stepped : state.advance thread = some state') :
    ∃ starts', ThreadsInv factoryMap state' starts' := by
  have needs := (inv.calls thread).control
  rw [call] at needs
  simp only [State.advance, call] at stepped
  cases active : state.impl.activeServices id with
  | some service =>
    have begun : state.impl.beginRequest id = (state.impl, .active service) := by
      simp [Impl.beginRequest, active]
    rw [begun] at stepped
    cases stepped
    refine ⟨starts, inv.returns call ⟨_, _, rfl⟩ (fun _ same => by cases same) needs
      (fun found same => ?_) fun _ same => by cases same⟩
    cases same
    exact inv.active id service active
  | none =>
    rcases beginRequest_cases active with ⟨isPending, -⟩ |
      ⟨-, absent, impl, logged, begun⟩ | ⟨notPending, factory, found, begun⟩
    · rw [inv.pending] at isPending
      obtain ⟨start, mem, rfl⟩ := List.mem_map.mp isPending
      obtain ⟨frame, isFrame, isId, -⟩ := (inv.starts_iff start).mp mem
      by_cases isThread : start.thread = thread
      · rw [isThread, call] at isFrame
        have cycle := needs frame isFrame
        rw [isId] at cycle
        exact absurd cycle (noCycle _)
      · exact absurd isId (alone start.thread isThread frame isFrame)
    · rw [begun] at stepped
      cases stepped
      refine ⟨starts, inv.returns call logged (fun _ same => by cases same) needs
        (fun _ same => by cases same) fun error same => ?_⟩
      cases same
      rw [inv.map] at absent
      exact ⟨fun same => (by cases same), id, .refl, absent⟩
    · rw [begun] at stepped
      cases stepped
      rw [inv.map] at found
      exact ⟨_, inv.begin_ call found (noThrow id factory found) active notPending⟩

theorem factory (inv : ThreadsInv factoryMap state starts)
    (call : state.calls thread = ⟨frame :: frames, .factory⟩) {state' : State Uid Thread}
    (stepped : state.advance thread = some state') :
    ∃ starts', ThreadsInv factoryMap state' starts' := by
  have old := inv.calls thread
  rw [call] at old
  simp only [State.advance, call] at stepped
  obtain ⟨id, remaining, throws, began⟩ := frame
  cases remaining with
  | cons dep deps =>
    cases stepped
    have needed : Depends factoryMap id dep :=
      old.remaining _ List.mem_cons_self dep List.mem_cons_self
    refine ⟨starts, inv.move ⟨_, _, rfl⟩ (fun other began' => ?_)
      ⟨?_, ?_, ?_, ?_, ?_⟩ (by rw [call]; exact nofun) inv.found inv.failed⟩
    · rw [call]
      simp only [Call.Has, List.exists_mem_cons_iff]
    · exact List.pairwise_cons.mpr (List.pairwise_cons.mp old.chained)
    · intro frame mem
      rcases List.mem_cons.mp mem with rfl | mem
      · exact fun other isDep =>
          old.remaining _ List.mem_cons_self other (List.mem_cons_of_mem _ isDep)
      · exact old.remaining frame (List.mem_cons_of_mem _ mem)
    · intro frame mem
      rcases List.mem_cons.mp mem with rfl | mem
      · exact old.returns ⟨id, dep :: deps, throws, began⟩ List.mem_cons_self
      · exact old.returns frame (List.mem_cons_of_mem _ mem)
    · intro frame mem
      rcases List.mem_cons.mp mem with rfl | mem
      · exact old.began ⟨id, dep :: deps, throws, began⟩ List.mem_cons_self
      · exact old.began frame (List.mem_cons_of_mem _ mem)
    · intro frame mem
      rcases List.mem_cons.mp mem with rfl | mem
      · exact .single needed
      · exact (List.rel_of_pairwise_cons old.chained mem).2.tail needed
  | nil =>
    have returns : throws = false := old.returns _ List.mem_cons_self
    subst returns
    cases stepped
    exact ⟨starts, inv.construct call⟩

theorem emplace (inv : ThreadsInv factoryMap state starts) {service : Nat}
    (call : state.calls thread = ⟨frame :: frames, .emplace service⟩)
    (latest : ∀ other, other ≠ thread →
      ∀ earlier ∈ (state.calls other).frames, earlier.began < frame.began) :
    ∃ starts', ThreadsInv factoryMap ({ state with
      impl := state.impl.emplaceService frame.id service }.returns thread frames frame.id
        (.ok service)) starts' := by
  obtain ⟨before, rfl⟩ := inv.last_start call latest
  have old := inv.calls thread
  rw [call] at old
  have isFrame : state.impl.constructed[service]? = some frame.id := old.control frame rfl
  have pending : state.impl.pendingServices = before.map Start.id ++ [frame.id] := by
    rw [inv.pending, List.map_append]
    rfl
  have inactive := inv.inactive frame.id (by rw [pending]; simp)
  rw [state.impl.emplaceService_eq service pending inactive]
  refine ⟨before, inv.close call rfl inv.map rfl rfl inv.matched
    (fun id different => Function.update_of_ne different _ _) (fun found isActive => ?_)
    (fun _ _ => ?_)
    (Control.after_ok (fun lower mem => (List.rel_of_pairwise_cons old.chained mem).2) nofun)
    (found_cons inv.found fun found same => ?_) (failed_cons inv.failed nofun)⟩
  · have same := (Function.update_self _ _ _).symm.trans isActive
    cases same
    exact isFrame
  · exact Option.isSome_iff_exists.mpr ⟨service, Function.update_self _ _ _⟩
  · cases same
    exact isFrame

theorem raise (inv : ThreadsInv factoryMap state starts) {error : Error}
    (call : state.calls thread = ⟨frame :: frames, .raise error⟩)
    (latest : ∀ other, other ≠ thread →
      ∀ earlier ∈ (state.calls other).frames, earlier.began < frame.began) :
    ∃ starts', ThreadsInv factoryMap ({ state with
      impl := state.impl.passException frame.id }.returns thread frames frame.id
        (.error error)) starts' := by
  obtain ⟨before, rfl⟩ := inv.last_start call latest
  have old := inv.calls thread
  rw [call] at old
  obtain ⟨notCircular, misses⟩ := old.control
  have failed : ∀ error', (.error error : Except Error Nat) = .error error' →
      error' ≠ .circularDependency ∧ Misses factoryMap frame.id := by
    intro error' same
    cases same
    exact ⟨notCircular, misses frame rfl⟩
  have pending : state.impl.pendingServices = before.map Start.id ++ [frame.id] := by
    rw [inv.pending, List.map_append]
    rfl
  have inactive := inv.inactive frame.id (by rw [pending]; simp)
  obtain ⟨flag, errors, same⟩ := passException_eq pending
  rw [same]
  refine ⟨before, inv.close call rfl inv.map rfl rfl inv.matched (fun _ _ => rfl)
    (fun found isActive => ?_) nofun
    (Control.after_ok (fun lower mem => (List.rel_of_pairwise_cons old.chained mem).2) failed)
    (found_cons inv.found nofun) (failed_cons inv.failed failed)⟩
  cases inactive.symm.trans isActive

theorem step (inv : ThreadsInv factoryMap state starts)
    (noCycle : ∀ id, ¬ TransGen (Depends factoryMap) id id)
    (noThrow : ∀ id factory, factoryMap.lookup id = some factory → factory.throws = false)
    {action : Action Uid Thread} (safe : StepSafe state action) {state' : State Uid Thread}
    (stepped : step state action = some state') :
    ∃ starts', ThreadsInv factoryMap state' starts' := by
  cases action with
  | request thread id =>
    simp only [ServiceLocator.step] at stepped
    split at stepped
    next call =>
      cases stepped
      refine ⟨starts, inv.move ⟨_, _, rfl⟩ (fun other began => ?_)
        ⟨.nil, nofun, nofun, nofun, nofun⟩ (by rw [call]; exact nofun) inv.found inv.failed⟩
      rw [call]
      rfl
    next => cases stepped
  | advance thread =>
    simp only [ServiceLocator.step] at stepped
    have old := inv.calls thread
    cases call : state.calls thread with
    | mk frames control =>
      rw [call] at old
      cases control with
      | idle => simp [State.advance, call] at stepped
      | find id =>
        simp only [State.advance, call] at stepped
        cases active : state.impl.findService id with
        | some service =>
          rw [active] at stepped
          cases stepped
          refine ⟨starts, inv.returns call ⟨_, _, rfl⟩ nofun old.control
            (fun found same => ?_) nofun⟩
          cases same
          exact inv.active id service active
        | none =>
          rw [active] at stepped
          cases stepped
          refine ⟨starts, inv.move ⟨_, _, rfl⟩ (fun other began => ?_)
            ⟨old.chained, old.remaining, old.returns, old.began, old.control⟩
            (by rw [call]; exact nofun) inv.found inv.failed⟩
          rw [call]
          rfl
      | lock id =>
        simp only [StepSafe, call] at safe
        exact inv.lock call noCycle noThrow safe stepped
      | factory =>
        cases frames with
        | nil => simp [State.advance, call] at stepped
        | cons frame frames => exact inv.factory call stepped
      | emplace service =>
        cases frames with
        | nil => simp [State.advance, call] at stepped
        | cons frame frames =>
          simp only [StepSafe, call] at safe
          simp only [State.advance, call] at stepped
          cases stepped
          exact inv.emplace call safe
      | raise error =>
        cases frames with
        | nil => simp [State.advance, call] at stepped
        | cons frame frames =>
          simp only [StepSafe, call] at safe
          simp only [State.advance, call] at stepped
          cases stepped
          exact inv.raise call safe

omit [DecidableEq Thread] in
theorem initial : ThreadsInv factoryMap ({ impl := { factoryMap } } : State Uid Thread) [] where
  map := rfl
  calls _ := ⟨.nil, nofun, nofun, nofun, trivial⟩
  pending := rfl
  sorted := .nil
  starts_iff _ := ⟨nofun, fun ⟨_, mem, _⟩ => by cases mem⟩
  nodup := List.nodup_nil
  inactive := nofun
  active := nofun
  constructed := nofun
  once := List.nodup_nil
  found := nofun
  failed := nofun
  matched := rfl

omit [DecidableEq Thread] in
theorem correct (inv : ThreadsInv factoryMap state starts) : state.Correct where
  acyclic id mem := (inv.failed id _ mem).1 rfl
  failed id error mem := by
    rw [inv.map]
    exact (inv.failed id error mem).2
  found id service mem := by
    have isFound := inv.found id service mem
    exact ⟨isFound, List.count_eq_one_of_mem inv.once (List.mem_of_getElem? isFound)⟩
  once id := List.nodup_iff_count_le_one.mp inv.once id
  matched := inv.matched

end ThreadsInv

variable [DecidableEq Thread]

/-- If no service is requested while another thread is starting it, and of the starts
in progress the one that began last ends first, then no request takes another one
for a cycle and every service is constructed once. -/
theorem run_requests_correct {actions : List (Action Uid Thread)} {state : State Uid Thread}
    (noCycle : ∀ id, ¬ TransGen (Depends factoryMap) id id)
    (noThrow : ∀ id factory, factoryMap.lookup id = some factory → factory.throws = false)
    (safe : Runs.StepsMeet step StepSafe { impl := { factoryMap } } actions)
    (reached : run factoryMap actions = some state) : state.Correct := by
  have kept : ∀ (state : State Uid Thread) (action : Action Uid Thread) (state' : State Uid Thread),
      (∃ starts, ThreadsInv factoryMap state starts) → StepSafe state action →
        step state action = some state' → ∃ starts, ThreadsInv factoryMap state' starts :=
    fun _ _ _ ⟨_, inv⟩ meets stepped => inv.step noCycle noThrow meets stepped
  obtain ⟨starts, inv⟩ := Runs.run_invariant kept ⟨[], .initial⟩ safe reached
  exact inv.correct

instance (state : State Nat (Fin 2)) (action : Action Nat (Fin 2)) :
    Decidable (StepSafe state action) :=
  match action with
  | .advance thread => by
      dsimp only [StepSafe]
      rcases state.calls thread with ⟨frames, control⟩
      cases control <;> cases frames <;> dsimp only <;> infer_instance
  | .request _ _ => isTrue trivial

/-- Service 0 needs service 1. -/
def chainedServices : List (Nat × Factory Nat) := [(0, ⟨[1], false⟩), (1, ⟨[], false⟩)]

theorem chainedServices_lookup {id : Nat} {factory : Factory Nat}
    (found : chainedServices.lookup id = some factory) :
    factory.throws = false ∧ ∀ dep ∈ factory.dependencies, id < dep := by
  match id with
  | 0 =>
    cases found
    simp
  | 1 =>
    cases found
    simp
  | id + 2 => cases found

theorem chainedServices_noCycle (id : Nat) : ¬ TransGen (Depends chainedServices) id id := by
  have less : ∀ other, TransGen (Depends chainedServices) id other → id < other := by
    intro other reaches
    induction reaches with
    | single needs =>
      obtain ⟨factory, found, mem⟩ := needs
      exact (chainedServices_lookup found).2 _ mem
    | tail _ needs ih =>
      obtain ⟨factory, found, mem⟩ := needs
      exact Nat.lt_trans ih ((chainedServices_lookup found).2 _ mem)
  exact fun cycle => Nat.lt_irrefl id (less id cycle)

/-- Thread 0 requests service 0; thread 1 requests service 1 before the factory of
service 0 does. -/
def nestedActions : List (Action Nat (Fin 2)) :=
  [.request 0 0, .advance 0, .advance 0, .request 1 1] ++ List.replicate 4 (.advance 1) ++
    List.replicate 4 (.advance 0)

theorem nestedActions_correct :
    ∃ state, run chainedServices nestedActions = some state ∧
      state.impl.constructed = [1, 0] ∧ state.Correct := by
  have constructed : (run chainedServices nestedActions).map (fun state => state.impl.constructed) =
      some [1, 0] := by decide +kernel
  obtain ⟨state, reached, constructed⟩ := Option.map_eq_some_iff.mp constructed
  exact ⟨state, reached, constructed, run_requests_correct chainedServices_noCycle
    (fun _ _ found => (chainedServices_lookup found).1) (by decide +kernel) reached⟩

/-- Both threads request service 1. -/
def sameActions : List (Action Nat (Fin 2)) :=
  [.request 0 1, .advance 0, .advance 0, .request 1 1, .advance 1, .advance 1]

def State.threwCircular (state : State Nat (Fin 2)) : Bool :=
  state.returned.any fun entry =>
    match entry with
    | (1, .error .circularDependency) => true
    | _ => false

/-- The second request takes the first one for a cycle. -/
theorem sameActions_circular :
    (∀ id, ¬ TransGen (Depends chainedServices) id id) ∧
    (∀ id factory, chainedServices.lookup id = some factory → factory.throws = false) ∧
    ∃ state, run chainedServices sameActions = some state ∧ ¬ state.Correct := by
  refine ⟨chainedServices_noCycle, fun _ _ found => (chainedServices_lookup found).1, ?_⟩
  have threw : (run chainedServices sameActions).map State.threwCircular = some true := by
    decide +kernel
  obtain ⟨state, reached, threw⟩ := Option.map_eq_some_iff.mp threw
  refine ⟨state, reached, fun correct => ?_⟩
  obtain ⟨entry, mem, isCircular⟩ := List.any_eq_true.mp threw
  split at isCircular
  · exact correct.acyclic 1 mem
  · cases isCircular

end Voxen.Svc.ServiceLocator
