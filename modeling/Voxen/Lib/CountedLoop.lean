import Mathlib.Data.List.Nodup

/-!
# Counted loops

`for (i = 0; i < n; i++) state = body(state, i)` as a fold over `List.range`,
with the invariant rule used to reason about it.
-/

namespace CountedLoop

variable {σ : Type}

/-- Run `body` for `i = 0, 1, ..., n - 1`. -/
def run (n : Nat) (init : σ) (body : σ → Nat → σ) : σ :=
  (List.range n).foldl body init

@[simp]
theorem run_zero (init : σ) (body : σ → Nat → σ) : run 0 init body = init := rfl

theorem run_succ (n : Nat) (init : σ) (body : σ → Nat → σ) :
    run (n + 1) init body = body (run n init body) n := by
  simp [run, List.range_succ]

/-- Invariant rule: what holds initially and is carried over by every iteration
holds after the last one. -/
theorem run_invariant (n : Nat) (init : σ) (body : σ → Nat → σ)
    (Inv : Nat → σ → Prop) (start : Inv 0 init)
    (step : ∀ i state, i < n → Inv i state → Inv (i + 1) (body state i)) :
    Inv n (run n init body) := by
  have upTo : ∀ m, m ≤ n → Inv m (run m init body) := by
    intro m
    induction m with
    | zero => intro _; exact start
    | succ m ih =>
      intro hm
      rw [run_succ]
      exact step m _ hm (ih (Nat.le_of_succ_le hm))
  exact upTo n (Nat.le_refl n)

variable {α : Type}

/-- A loop that appends to a list. -/
theorem run_append (n : Nat) (init : σ) (body : σ → Nat → σ) (view : σ → List α)
    (added : Nat → List α) (step : ∀ state i, view (body state i) = view state ++ added i) :
    view (run n init body) = view init ++ (List.range n).flatMap added := by
  induction n with
  | zero => simp
  | succ n ih =>
    rw [run_succ, step, ih, List.range_succ, List.flatMap_append, List.append_assoc]
    simp

/-- A loop whose iterations fold lists folds all of them. -/
theorem run_foldl (n : Nat) (init : σ) (added : Nat → List α) (body : σ → α → σ) :
    run n init (fun state i => (added i).foldl body state) =
      ((List.range n).flatMap added).foldl body init := by
  induction n with
  | zero => rfl
  | succ n ih =>
    rw [run_succ, ih, List.range_succ, List.flatMap_append, List.foldl_append,
      List.flatMap_singleton]

/-- The lists of a loop have nothing in common if their members tell the iteration. -/
theorem nodup_flatMap_range {n : Nat} {added : Nat → List α} (tag : α → Nat)
    (tagged : ∀ i < n, ∀ a ∈ added i, tag a = i) (distinct : ∀ i < n, (added i).Nodup) :
    ((List.range n).flatMap added).Nodup := by
  refine List.nodup_flatMap.mpr ⟨fun i mem => distinct i (List.mem_range.mp mem), ?_⟩
  refine List.pairwise_lt_range.imp_of_mem fun mem mem' less a inFirst inSecond => ?_
  have first := tagged _ (List.mem_range.mp mem) a inFirst
  have second := tagged _ (List.mem_range.mp mem') a inSecond
  exact Nat.ne_of_lt less (first.symm.trans second)

/-- What an iteration can only add to holds after the loop when it held before or an
iteration added it. -/
theorem run_collects {n : Nat} {init : σ} {body : σ → Nat → σ} (Holds : σ → Prop)
    (adds : Nat → Prop) (step : ∀ state, ∀ i < n, Holds (body state i) ↔ Holds state ∨ adds i) :
    Holds (run n init body) ↔ Holds init ∨ ∃ i < n, adds i := by
  induction n with
  | zero => simp
  | succ n ih =>
    rw [run_succ, step _ n (Nat.lt_succ_self n),
      ih fun state i less => step state i (Nat.lt_succ_of_lt less), or_assoc]
    simp only [Nat.lt_succ_iff_lt_or_eq, or_and_right, exists_or, exists_eq_left]

/-! ## Loops that write -/

section Writes

variable {P V : Type} {get : σ → P → V} {value : P → V}

/-- The positions of a region get their values, and the others keep what they have. -/
def Writes (get : σ → P → V) (value : P → V) (region : P → Prop) (before after : σ) : Prop :=
  ∀ p, (region p → get after p = value p) ∧ (¬ region p → get after p = get before p)

theorem Writes.trans {first second : P → Prop} {before middle after : σ}
    (writes : Writes get value first before middle)
    (more : Writes get value second middle after) :
    Writes get value (fun p => first p ∨ second p) before after := by
  intro p
  by_cases inSecond : second p
  · exact ⟨fun _ => (more p).1 inSecond, fun outside => absurd (Or.inr inSecond) outside⟩
  · rw [(more p).2 inSecond]
    exact ⟨fun inside => (writes p).1 (inside.resolve_right inSecond),
      fun outside => (writes p).2 fun inFirst => outside (Or.inl inFirst)⟩

theorem Writes.congr {region region' : P → Prop} {before after : σ}
    (writes : Writes get value region before after) (same : ∀ p, region' p ↔ region p) :
    Writes get value region' before after := by
  intro p
  rw [same]
  exact writes p

/-- A loop writes what its iterations write. -/
theorem run_writes {n : Nat} {init : σ} {body : σ → Nat → σ} {region : Nat → P → Prop}
    (step : ∀ i < n, ∀ state, Writes get value (region i) state (body state i)) :
    Writes get value (fun p => ∃ i < n, region i p) init (run n init body) := by
  induction n with
  | zero => exact fun p => ⟨fun ⟨i, less, _⟩ => absurd less (Nat.not_lt_zero i), fun _ => rfl⟩
  | succ n ih =>
    rw [run_succ]
    have earlier := ih fun i less => step i (Nat.lt_succ_of_lt less)
    refine (earlier.trans (step n (Nat.lt_succ_self n) _)).congr fun p => ?_
    constructor
    · rintro ⟨i, less, inside⟩
      rcases Nat.lt_succ_iff_lt_or_eq.mp less with less | rfl
      · exact Or.inl ⟨i, less, inside⟩
      · exact Or.inr inside
    · rintro (⟨i, less, inside⟩ | inside)
      · exact ⟨i, Nat.lt_succ_of_lt less, inside⟩
      · exact ⟨n, Nat.lt_succ_self n, inside⟩

end Writes

/-! ## Loops whose iterations may have no result -/

section Partial

/-- Run `body` for `i = 0, 1, ..., n - 1`, as long as every iteration has a result. -/
def runM (n : Nat) (init : σ) (body : σ → Nat → Option σ) : Option σ :=
  (List.range n).foldlM body init

@[simp]
theorem runM_zero (init : σ) (body : σ → Nat → Option σ) : runM 0 init body = some init := rfl

theorem runM_succ (n : Nat) (init : σ) (body : σ → Nat → Option σ) :
    runM (n + 1) init body = (runM n init body).bind fun state => body state n := by
  simp [runM, List.range_succ, List.foldlM_append]

variable {body : σ → Nat → Option σ} {n : Nat}

/-- Invariant rule for the loops that get through. -/
theorem runM_invariant {init final : σ} (Inv : Nat → σ → Prop) (start : Inv 0 init)
    (step : ∀ i state after, i < n → Inv i state → body state i = some after →
      Inv (i + 1) after) (through : runM n init body = some final) : Inv n final := by
  induction n generalizing final with
  | zero =>
    rw [runM_zero, Option.some.injEq] at through
    exact through ▸ start
  | succ n ih =>
    rw [runM_succ, Option.bind_eq_some_iff] at through
    obtain ⟨state, before, last⟩ := through
    have inv := ih (fun i state after less => step i state after (Nat.lt_succ_of_lt less)) before
    exact step n state final (Nat.lt_succ_self n) inv last

/-- A loop all of whose iterations have a result is a plain loop. -/
theorem runM_eq_run {total : σ → Nat → σ}
    (defined : ∀ i < n, ∀ state, body state i = some (total state i)) (init : σ) :
    runM n init body = some (run n init total) := by
  induction n with
  | zero => rfl
  | succ n ih =>
    rw [runM_succ, run_succ, ih fun i less => defined i (Nat.lt_succ_of_lt less),
      Option.bind_some]
    exact defined n (Nat.lt_succ_self n) _

/-- A loop with an iteration that never has a result has none. -/
theorem runM_eq_none {i : Nat} (less : i < n) (stuck : ∀ state, body state i = none) (init : σ) :
    runM n init body = none := by
  induction n with
  | zero => exact absurd less (Nat.not_lt_zero i)
  | succ n ih =>
    rw [runM_succ]
    rcases Nat.lt_succ_iff_lt_or_eq.mp less with earlier | rfl
    · rw [ih earlier, Option.bind_none]
    · cases runM i init body with
      | none => rfl
      | some state => exact stuck state

end Partial

end CountedLoop
