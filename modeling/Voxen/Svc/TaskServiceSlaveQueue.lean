import Voxen.Svc.TaskServiceSlave

/-!
# The local waiting queue

While the queue is drained it consists of the tasks that remain, a gap left by the
tasks that were executed, and the tasks that the drain has not come to.  Neither
end of an attempt to execute a task changes the others or their order.
-/

namespace Voxen.Svc.TaskServiceSlave

/-- The drain has come to the `i`-th element, and `rest` comes next. -/
def Drained (queue : List (Option Task)) (i remaining : Nat) (rest : List Task) : Prop :=
  ∃ kept gap, queue = List.map some kept ++ (List.replicate gap none ++ List.map some rest) ∧
    remaining = kept.length ∧ i = kept.length + gap

theorem reduceOption_map_some (tasks : List Task) : (tasks.map some).reduceOption = tasks := by
  simp [List.reduceOption, List.filterMap_map]

theorem reduceOption_gap (gap : Nat) :
    (List.replicate gap (none : Option Task)).reduceOption = [] := by
  simp

namespace Drained

variable {queue : List (Option Task)} {i remaining : Nat} {rest : List Task} {task : Task}

theorem start (kept : List Task) : Drained (kept.map some) 0 0 kept := ⟨[], 0, rfl, rfl, rfl⟩

theorem get? (drained : Drained queue i remaining rest) : queue[i]? = rest.head?.map some := by
  obtain ⟨kept, gap, rfl, -, rfl⟩ := drained
  rw [List.getElem?_append_right (by simp), List.getElem?_append_right (by simp)]
  cases rest with
  | nil => simp
  | cons task rest => simp

theorem finish (drained : Drained queue i remaining []) :
    queue.take remaining = queue.reduceOption.map some := by
  obtain ⟨kept, gap, rfl, rfl, -⟩ := drained
  rw [List.reduceOption_append, List.reduceOption_append, reduceOption_map_some,
    reduceOption_gap, List.map_nil, List.reduceOption_nil, List.append_nil, List.append_nil,
    List.append_nil]
  exact List.take_left' (List.length_map ..)

theorem keep (drained : Drained queue i remaining (task :: rest)) :
    Drained ((queue.set i (queue.getD remaining none)).set remaining (queue.getD i none))
        (i + 1) (remaining + 1) rest ∧
      ((queue.set i (queue.getD remaining none)).set remaining
        (queue.getD i none)).reduceOption = queue.reduceOption := by
  obtain ⟨kept, gap, rfl, rfl, rfl⟩ := drained
  have moved : ∀ queue : List (Option Task),
      queue = List.map some kept ++ (List.replicate gap none ++ List.map some (task :: rest)) →
      (queue.set (kept.length + gap) (queue.getD kept.length none)).set kept.length
          (queue.getD (kept.length + gap) none) =
        List.map some (kept ++ [task]) ++ (List.replicate gap none ++ List.map some rest) := by
    rintro - rfl
    cases gap with
    | zero => simp
    | succ gap =>
      have shift : List.replicate gap none ++ none :: List.map some rest =
          none :: (List.replicate gap none ++ List.map some rest) := by
        rw [← List.cons_append, ← List.replicate_succ, List.replicate_succ', List.append_assoc,
          List.singleton_append]
      simp [List.replicate_succ, shift]
  rw [moved _ rfl]
  refine ⟨⟨kept ++ [task], gap, rfl, by simp, by simp; omega⟩, ?_⟩
  rw [List.reduceOption_append, List.reduceOption_append, List.reduceOption_append,
    List.reduceOption_append, reduceOption_map_some, reduceOption_map_some,
    reduceOption_map_some, reduceOption_map_some, reduceOption_gap]
  simp

theorem drop (drained : Drained queue i remaining (task :: rest)) :
    Drained (queue.set i none) (i + 1) remaining rest ∧ ∃ before,
      queue.reduceOption = before ++ task :: rest ∧
      (queue.set i none).reduceOption = before ++ rest := by
  obtain ⟨kept, gap, rfl, rfl, rfl⟩ := drained
  have dropped :
      (List.map some kept ++
        (List.replicate gap none ++ List.map some (task :: rest))).set (kept.length + gap) none =
      List.map some kept ++ (List.replicate (gap + 1) none ++ List.map some rest) := by
    simp [List.replicate_succ']
  rw [dropped]
  refine ⟨⟨kept, gap + 1, rfl, rfl, rfl⟩, kept, ?_, ?_⟩
  · rw [List.reduceOption_append, List.reduceOption_append, reduceOption_map_some,
      reduceOption_map_some, reduceOption_gap]
    rfl
  · rw [List.reduceOption_append, List.reduceOption_append, reduceOption_map_some,
      reduceOption_map_some, reduceOption_gap]
    rfl

end Drained

/-! ## Slaves -/

namespace Slave

/-- The tasks in the local queue. -/
def waiting (slave : Slave) : List Task := slave.localWaitingQueue.reduceOption

/-- The task in the variable of `threadFn`. -/
def taken (slave : Slave) : List Task :=
  match slave.phase with
  | .busy task .taken _ => [task]
  | _ => []

/-- All tasks that the slave has. -/
def tasks (slave : Slave) : List Task := slave.waiting ++ slave.taken

/-- What the local queue looks like in each phase. -/
def Layout (slave : Slave) : Prop :=
  match slave.phase with
  | .popTaskOrWait | .ended => slave.localWaitingQueue = []
  | .tryPopTask | .busy _ .taken _ => ∃ kept, slave.localWaitingQueue = List.map some kept
  | .drain i remaining _ => ∃ rest, Drained slave.localWaitingQueue i remaining rest
  | .busy task (.waiting i remaining _) _ =>
    ∃ rest, Drained slave.localWaitingQueue i remaining (task :: rest)

variable {slave : Slave} {task : Task} {slot : Slot} {work : Work} {i remaining : Nat}
  {polling : Bool} {kept : List Task}

/-- The slave has no task at work, and goes on. -/
def Free (slave : Slave) : Prop :=
  match slave.phase with
  | .popTaskOrWait | .tryPopTask | .drain .. => True
  | .busy .. | .ended => False

theorem Free.alive (free : slave.Free) : slave.phase ≠ .ended := by
  intro ended
  simp [Free, ended] at free

theorem Free.not_busy (free : slave.Free) : slave.phase ≠ .busy task slot work := by
  intro busy
  simp [Free, busy] at free

theorem takeNext_free (slave : Slave) : slave.takeNext.Free := by
  by_cases empty : slave.localWaitingQueue = [] <;> simp [takeNext, Free, empty]

theorem notPopped_free (slave : Slave) : slave.notPopped.Free := by
  by_cases empty : slave.localWaitingQueue = [] <;> simp [notPopped, Free, empty]

theorem drained_free (slave : Slave) (remaining : Nat) (polling : Bool) :
    (slave.drained remaining polling).Free := by
  cases polling with
  | true => exact trivial
  | false => exact takeNext_free _

theorem notExecuted_free (slave : Slave) (task : Task) (slot : Slot) :
    (slave.notExecuted task slot).Free := by
  cases slot with
  | taken => exact trivial
  | waiting i remaining polling => exact trivial

theorem executed_free (slave : Slave) (slot : Slot) : (slave.executed slot).Free := by
  cases slot with
  | taken =>
    unfold executed
    simp only
    split
    · exact trivial
    · exact takeNext_free _
  | waiting i remaining polling => exact trivial

theorem takeNext_spec (slave : Slave) (whole : slave.localWaitingQueue = List.map some kept) :
    slave.takeNext.Layout ∧ slave.takeNext.waiting = slave.waiting ∧
      slave.takeNext.taken = [] := by
  by_cases empty : slave.localWaitingQueue = []
  · simp [takeNext, Layout, waiting, taken, empty]
  · simp only [takeNext, Layout, waiting, taken, empty, if_false, and_true]
    exact ⟨kept, whole⟩

theorem notPopped_spec (phase : slave.phase = .tryPopTask) (layout : slave.Layout) :
    slave.notPopped.Layout ∧ slave.notPopped.waiting = slave.waiting ∧
      slave.notPopped.taken = [] := by
  simp only [Layout, phase] at layout
  obtain ⟨kept, whole⟩ := layout
  by_cases empty : slave.localWaitingQueue = []
  · simp [notPopped, Layout, waiting, taken, empty]
  · simp only [notPopped, Layout, waiting, taken, empty, if_false, and_true]
    exact ⟨kept, whole ▸ Drained.start kept⟩

theorem drained_spec (phase : slave.phase = .drain i remaining polling) (layout : slave.Layout)
    (last : slave.localWaitingQueue[i]? = none) :
    (slave.drained remaining polling).Layout ∧
      (slave.drained remaining polling).waiting = slave.waiting ∧
      (slave.drained remaining polling).taken = [] := by
  simp only [Layout, phase] at layout
  obtain ⟨rest, whole⟩ := layout
  rw [whole.get?] at last
  cases rest with
  | cons task rest => cases last
  | nil =>
    have remain := whole.finish
    have same : (slave.localWaitingQueue.take remaining).reduceOption = slave.waiting := by
      rw [remain, reduceOption_map_some]
      rfl
    cases polling with
    | true => exact ⟨⟨_, remain⟩, same, rfl⟩
    | false =>
      obtain ⟨layout, waits, taken⟩ := takeNext_spec
        { slave with localWaitingQueue := slave.localWaitingQueue.take remaining } remain
      exact ⟨layout, waits.trans same, taken⟩

theorem begun_spec (phase : slave.phase = .drain i remaining polling) (layout : slave.Layout)
    (next : slave.localWaitingQueue[i]? = some (some task)) :
    Layout { slave with phase := .busy task (.waiting i remaining polling) (.trim 0) } := by
  simp only [Layout, phase] at layout ⊢
  obtain ⟨rest, whole⟩ := layout
  rw [whole.get?] at next
  cases rest with
  | nil => cases next
  | cons first rest =>
    cases next
    exact ⟨rest, whole⟩

theorem notExecuted_spec (phase : slave.phase = .busy task slot work) (layout : slave.Layout) :
    (slave.notExecuted task slot).Layout ∧
      (slave.notExecuted task slot).waiting = slave.waiting ++ slave.taken ∧
      (slave.notExecuted task slot).taken = [] := by
  cases slot with
  | taken =>
    simp only [Layout, phase] at layout
    obtain ⟨kept, whole⟩ := layout
    refine ⟨?_, ?_, rfl⟩
    · refine ⟨kept ++ [task], ?_⟩
      have added : slave.localWaitingQueue ++ [some task] = List.map some (kept ++ [task]) := by
        rw [whole, List.map_append]
        rfl
      simp only [notExecuted, added]
      exact Drained.start _
    · simp [notExecuted, waiting, taken, phase, List.reduceOption_append]
  | waiting i remaining polling =>
    simp only [Layout, phase] at layout
    obtain ⟨rest, whole⟩ := layout
    obtain ⟨whole', same⟩ := whole.keep
    refine ⟨⟨rest, whole'⟩, ?_, rfl⟩
    simp only [taken, phase, List.append_nil]
    exact same

theorem executed_spec (phase : slave.phase = .busy task slot work) (layout : slave.Layout)
    (distinct : slave.tasks.Nodup) :
    (slave.executed slot).Layout ∧ (slave.executed slot).taken = [] ∧
      (slave.executed slot).waiting = slave.waiting.filter (fun other => other ≠ task) ∧
      task ∈ slave.tasks := by
  cases slot with
  | taken =>
    simp only [Layout, phase] at layout
    obtain ⟨kept, whole⟩ := layout
    simp only [tasks, taken, phase] at distinct
    have absent : task ∉ slave.waiting := fun mem =>
      (List.nodup_append.mp distinct).2.2 task mem task (List.mem_singleton_self task) rfl
    have same : slave.waiting.filter (fun other => other ≠ task) = slave.waiting :=
      List.filter_eq_self.mpr fun other mem =>
        decide_eq_true fun equal => absent (equal ▸ mem)
    have mem : task ∈ slave.tasks := by
      simp [tasks, taken, phase]
    rw [same]
    unfold executed
    simp only
    split
    · exact ⟨⟨kept, whole ▸ Drained.start kept⟩, rfl, rfl, mem⟩
    · obtain ⟨layout, waits, taken⟩ := takeNext_spec
        { slave with executedIndependentTasks := slave.executedIndependentTasks + 1 } whole
      exact ⟨layout, taken, waits, mem⟩
  | waiting i remaining polling =>
    simp only [Layout, phase] at layout
    obtain ⟨rest, whole⟩ := layout
    obtain ⟨whole', before, had, has⟩ := whole.drop
    have waits : slave.waiting = before ++ task :: rest := had
    simp only [tasks, taken, phase, List.append_nil, waits] at distinct
    have split := List.perm_middle.nodup_iff.mp distinct
    have absent := (List.nodup_cons.mp split).1
    have others : (before ++ rest).filter (fun other => other ≠ task) = before ++ rest :=
      List.filter_eq_self.mpr fun other mem =>
        decide_eq_true fun equal => absent (equal ▸ mem)
    refine ⟨⟨rest, whole'⟩, rfl, has.trans ?_, ?_⟩
    · rw [waits, List.filter_append, List.filter_cons_of_neg (by simp), ← List.filter_append,
        others]
    · simp [tasks, waits]

end Slave

/-! ## Wait counters -/

section Counters

variable {completed counters counters' : List Nat} {i i' : Nat} {found : Bool}

theorem mem_swapRemove {counter : Nat} (inside : i < counters.length) (mem : counter ∈ counters) :
    counter ∈ swapRemove counters i ∨ counters[i]? = some counter := by
  rcases List.eq_nil_or_concat' counters with rfl | ⟨front, last, rfl⟩
  · cases mem
  have removed : swapRemove (front ++ [last]) i = ((front ++ [last]).set i last).dropLast := by
    simp [swapRemove]
  rw [removed]
  rcases Nat.lt_or_ge i front.length with inFront | atLast
  · rw [List.set_append_left _ _ inFront, List.dropLast_concat]
    rcases List.mem_append.mp mem with old | new
    · obtain ⟨j, bound, rfl⟩ := List.getElem_of_mem old
      by_cases same : j = i
      · right
        subst same
        rw [List.getElem?_append_left inFront, List.getElem?_eq_getElem]
      · left
        rw [List.mem_iff_getElem]
        exact ⟨j, by simpa using bound, List.getElem_set_ne (Ne.symm same) _⟩
    · rw [List.mem_singleton.mp new]
      exact Or.inl (List.mem_set inFront last)
  · have last_i : i = front.length := by
      rw [List.length_append, List.length_singleton] at inside
      omega
    rw [last_i, List.set_append_right _ _ (Nat.le_refl _), Nat.sub_self]
    rcases List.mem_append.mp mem with old | new
    · left
      simpa using old
    · right
      rw [List.mem_singleton.mp new, List.getElem?_concat_length]

theorem checkCounter_spec (checked : checkCounter completed counters i found = some (counters', i'))
    {counter : Nat} (mem : counter ∈ counters) : counter ∈ counters' ∨ counter ∈ completed := by
  unfold checkCounter at checked
  cases at_i : counters[i]? with
  | none => simp [at_i] at checked
  | some current =>
    cases found with
    | false =>
      simp [at_i] at checked
      exact Or.inl (checked.1 ▸ mem)
    | true =>
      obtain ⟨inside, -⟩ := List.getElem?_eq_some_iff.mp at_i
      simp [at_i] at checked
      obtain ⟨done, rfl, -⟩ := checked
      rcases mem_swapRemove inside mem with remains | same
      · exact Or.inl remains
      · rw [at_i] at same
        cases same
        exact Or.inr done

theorem trimCompleteCounters_spec {answers : List Bool}
    (trimmed : trimCompleteCounters completed answers counters i = some counters') {counter : Nat}
    (mem : counter ∈ counters) : counter ∈ counters' ∨ counter ∈ completed := by
  induction answers generalizing counters i with
  | nil =>
    simp only [trimCompleteCounters] at trimmed
    split at trimmed
    · cases trimmed
      exact Or.inl mem
    · cases trimmed
  | cons found answers ih =>
    simp only [trimCompleteCounters] at trimmed
    cases checked : checkCounter completed counters i found with
    | none => simp [checked] at trimmed
    | some result =>
      obtain ⟨middle, i'⟩ := result
      rw [checked] at trimmed
      rcases checkCounter_spec checked mem with remains | done
      · exact ih trimmed remains
      · exact Or.inr done

theorem createTaskHandle_spec {answers : List Bool} {waitCounters : List Nat}
    (created : createTaskHandle completed answers waitCounters = some counters) {counter : Nat}
    (mem : counter ∈ waitCounters) :
    counter = 0 ∨ counter ∈ completed ∨ counter ∈ counters := by
  by_cases zero : counter = 0
  · exact Or.inl zero
  have kept : counter ∈ waitCounters.filter fun counter => counter ≠ 0 :=
    List.mem_filter.mpr ⟨mem, by simpa using zero⟩
  right
  unfold createTaskHandle at created
  generalize waitCounters.filter (fun counter => counter ≠ 0) = nonzero at created kept
  simp only at created
  split at created
  · cases trimmed : trimCompleteCounters completed answers nonzero 0 with
    | none => simp [trimmed] at created
    | some result =>
      simp [trimmed] at created
      rw [← created.2]
      exact (trimCompleteCounters_spec trimmed kept).symm
  · simp at created
    exact Or.inr (created.2 ▸ kept)

end Counters

end Voxen.Svc.TaskServiceSlave
