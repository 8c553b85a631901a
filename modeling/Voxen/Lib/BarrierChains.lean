import Mathlib.Data.List.Basic
import Mathlib.Order.Basic

/-!
# Chains of barriers

Phases use a resource one after another.  A barrier orders what its source includes before
what its destination includes, and barriers one after another order what they hand on.  A
recorder that keeps only a summary of the uses since its last barrier keeps every use of
an earlier phase linked to that summary.
-/

namespace BarrierChains

variable {σ : Type}

/-- A use of the resource. -/
structure Access (σ : Type) where
  scope : σ
  reads : Bool
  writes : Bool
deriving DecidableEq

/-- One of the uses writes, and the other one reads or writes. -/
def Access.conflicts (earlier later : Access σ) : Bool :=
  earlier.writes && (later.reads || later.writes) || earlier.reads && later.writes

/-- A barrier, recorded before the command of a phase. -/
structure Barrier (σ : Type) where
  phase : Nat
  src : σ
  dst : σ
deriving DecidableEq

variable [Preorder σ]

/-- Each barrier takes up what the one before it hands on. -/
def Chain : σ → List (Barrier σ) → Prop
  | _, [] => True
  | scope, barrier :: barriers => scope ≤ barrier.src ∧ Chain barrier.dst barriers

/-- What the last barrier hands on. -/
def handedOn : σ → List (Barrier σ) → σ
  | scope, [] => scope
  | _, barrier :: barriers => handedOn barrier.dst barriers

omit [Preorder σ] in
@[simp]
theorem handedOn_append (scope : σ) (barriers : List (Barrier σ)) (barrier : Barrier σ) :
    handedOn scope (barriers ++ [barrier]) = barrier.dst := by
  induction barriers generalizing scope with
  | nil => rfl
  | cons first barriers ih => exact ih first.dst

/-- A barrier that takes up the end of a chain makes it longer. -/
theorem Chain.append {scope : σ} {barriers : List (Barrier σ)} {barrier : Barrier σ}
    (chain : Chain scope barriers) (taken : handedOn scope barriers ≤ barrier.src) :
    Chain scope (barriers ++ [barrier]) := by
  induction barriers generalizing scope with
  | nil => exact ⟨taken, trivial⟩
  | cons first barriers ih => exact ⟨chain.1, ih chain.2 taken⟩

/-- A chain may end at any of its barriers. -/
theorem Chain.before {scope : σ} {barriers rest : List (Barrier σ)}
    (chain : Chain scope (barriers ++ rest)) : Chain scope barriers := by
  induction barriers generalizing scope with
  | nil => trivial
  | cons first barriers ih => exact ⟨chain.1, ih chain.2⟩

/-- The barriers after a phase and not after another one. -/
def between (first last : Nat) (barriers : List (Barrier σ)) : List (Barrier σ) :=
  barriers.filter fun barrier => first < barrier.phase && barrier.phase ≤ last

/-- A chain of barriers between two phases orders a use of the one before a use of the other. -/
def Synchronised (barriers : List (Barrier σ)) (earlier later : Nat × Access σ) : Prop :=
  ∃ chain, chain ≠ [] ∧ chain.Sublist (between earlier.1 later.1 barriers) ∧
    Chain earlier.2.scope chain ∧ later.2.scope ≤ handedOn earlier.2.scope chain

theorem Synchronised.append {barriers : List (Barrier σ)} {earlier later : Nat × Access σ}
    (ordered : Synchronised barriers earlier later) (more : List (Barrier σ)) :
    Synchronised (barriers ++ more) earlier later := by
  obtain ⟨chain, some, sub, linked⟩ := ordered
  refine ⟨chain, some, sub.trans ?_, linked⟩
  exact (List.sublist_append_left barriers more).filter _

/-- A recorder, with the uses of the phases so far. -/
structure Recorder (σ : Type) where
  summary : σ
  barriers : List (Barrier σ)
  uses : List (Nat × Access σ)
  phase : Nat

namespace Recorder

variable {recorder : Recorder σ} {use : Access σ}

/-- Uses of the phase that is recorded are in the summary, those of earlier phases are linked to
it, and conflicting uses of different phases are synchronised. -/
structure Inv (recorder : Recorder σ) : Prop where
  present : ∀ barrier ∈ recorder.barriers, barrier.phase ≤ recorder.phase
  past : ∀ entry ∈ recorder.uses, entry.1 ≤ recorder.phase
  current : ∀ entry ∈ recorder.uses, entry.1 = recorder.phase →
    entry.2.scope ≤ recorder.summary
  linked : ∀ entry ∈ recorder.uses, entry.1 < recorder.phase →
    Chain entry.2.scope (between entry.1 recorder.phase recorder.barriers) ∧
      handedOn entry.2.scope (between entry.1 recorder.phase recorder.barriers) ≤
        recorder.summary
  synchronised : ∀ earlier ∈ recorder.uses, ∀ later ∈ recorder.uses, earlier.1 < later.1 →
    earlier.2.conflicts later.2 = true → Synchronised recorder.barriers earlier later

/-- Before the first use. -/
theorem Inv.start (summary : σ) (phase : Nat) :
    Inv { summary := summary, barriers := [], uses := [], phase := phase } where
  present := fun _ absurd => (List.not_mem_nil absurd).elim
  past := fun _ absurd => (List.not_mem_nil absurd).elim
  current := fun _ absurd => (List.not_mem_nil absurd).elim
  linked := fun _ absurd => (List.not_mem_nil absurd).elim
  synchronised := fun _ absurd => (List.not_mem_nil absurd).elim

/-- The uses up to now and a new one that is synchronised with them. -/
theorem Inv.synchronised_append (inv : Inv recorder) (more : List (Barrier σ))
    (new : ∀ entry ∈ recorder.uses, entry.1 < recorder.phase → entry.2.conflicts use = true →
      Synchronised (recorder.barriers ++ more) entry (recorder.phase, use)) :
    ∀ earlier ∈ recorder.uses ++ [(recorder.phase, use)],
      ∀ later ∈ recorder.uses ++ [(recorder.phase, use)], earlier.1 < later.1 →
        earlier.2.conflicts later.2 = true →
          Synchronised (recorder.barriers ++ more) earlier later := by
  intro earlier mem later mem' before conflict
  rcases List.mem_append.mp mem' with old | last
  · rcases List.mem_append.mp mem with first | new'
    · exact (inv.synchronised earlier first later old before conflict).append more
    · rw [List.mem_singleton.mp new'] at before
      exact absurd before (Nat.not_lt.mpr (inv.past later old))
  · rw [List.mem_singleton.mp last] at before conflict ⊢
    rcases List.mem_append.mp mem with first | absurd
    · exact new earlier first before conflict
    · rw [List.mem_singleton.mp absurd] at before
      exact (Nat.lt_irrefl _ before).elim

/-- A use that is kept with the others; the barriers cover it already where it conflicts with a
use of an earlier phase. -/
theorem Inv.merge (inv : Inv recorder) {summary : σ} (keeps : recorder.summary ≤ summary)
    (adds : use.scope ≤ summary)
    (covered : ∀ entry ∈ recorder.uses, entry.1 < recorder.phase →
      entry.2.conflicts use = true →
        ∃ barrier ∈ recorder.barriers, entry.1 < barrier.phase ∧ use.scope ≤ barrier.dst) :
    Inv { recorder with
      summary := summary, uses := recorder.uses ++ [(recorder.phase, use)] } where
  present := inv.present
  past := List.forall_mem_append.mpr ⟨inv.past, List.forall_mem_singleton.mpr (Nat.le_refl _)⟩
  current := List.forall_mem_append.mpr
    ⟨fun entry mem now => (inv.current entry mem now).trans keeps,
      List.forall_mem_singleton.mpr fun _ => adds⟩
  linked := List.forall_mem_append.mpr
    ⟨fun entry mem before => (inv.linked entry mem before).imp_right fun kept => kept.trans keeps,
      List.forall_mem_singleton.mpr fun absurd => (Nat.lt_irrefl _ absurd).elim⟩
  synchronised := by
    have new : ∀ entry ∈ recorder.uses, entry.1 < recorder.phase →
        entry.2.conflicts use = true →
          Synchronised (recorder.barriers ++ []) entry (recorder.phase, use) := by
      intro entry mem before conflict
      obtain ⟨barrier, there, after, covers⟩ := covered entry mem before conflict
      have within : barrier ∈ between entry.1 recorder.phase recorder.barriers :=
        List.mem_filter.mpr ⟨there, by simp [after, inv.present barrier there]⟩
      obtain ⟨first, rest, split⟩ := List.append_of_mem within
      rw [List.append_cons] at split
      have chain := (inv.linked entry mem before).1
      rw [split] at chain
      refine ⟨first ++ [barrier], by simp, ?_, chain.before, ?_⟩
      · rw [List.append_nil, split]
        exact List.sublist_append_left _ _
      · rw [handedOn_append]
        exact covers
    have all := inv.synchronised_append [] new
    rw [List.append_nil] at all
    exact all

/-- A use behind a barrier that takes up the summary; it includes the uses of its own phase. -/
theorem Inv.barrier (inv : Inv recorder) {src : σ} (taken : recorder.summary ≤ src)
    (includes : ∀ entry ∈ recorder.uses, entry.1 = recorder.phase →
      entry.2.scope ≤ use.scope) :
    Inv { recorder with
      summary := use.scope
      barriers := recorder.barriers ++ [{ phase := recorder.phase, src := src, dst := use.scope }]
      uses := recorder.uses ++ [(recorder.phase, use)] } := by
  have longer : ∀ entry ∈ recorder.uses, entry.1 < recorder.phase →
      between entry.1 recorder.phase (recorder.barriers ++
          [{ phase := recorder.phase, src := src, dst := use.scope }]) =
        between entry.1 recorder.phase recorder.barriers ++
          [{ phase := recorder.phase, src := src, dst := use.scope }] := by
    intro entry mem before
    have last : between entry.1 recorder.phase
        [{ phase := recorder.phase, src := src, dst := use.scope }] =
          [{ phase := recorder.phase, src := src, dst := use.scope }] := by
      simp [between, before]
    unfold between at last ⊢
    rw [List.filter_append, last]
  have chained : ∀ entry ∈ recorder.uses, entry.1 < recorder.phase →
      Chain entry.2.scope (between entry.1 recorder.phase (recorder.barriers ++
          [{ phase := recorder.phase, src := src, dst := use.scope }])) ∧
        handedOn entry.2.scope (between entry.1 recorder.phase (recorder.barriers ++
          [{ phase := recorder.phase, src := src, dst := use.scope }])) = use.scope := by
    intro entry mem before
    obtain ⟨chain, kept⟩ := inv.linked entry mem before
    rw [longer entry mem before, handedOn_append]
    exact ⟨chain.append (kept.trans taken), rfl⟩
  exact
    { present := List.forall_mem_append.mpr
        ⟨inv.present, List.forall_mem_singleton.mpr (Nat.le_refl _)⟩
      past := List.forall_mem_append.mpr ⟨inv.past, List.forall_mem_singleton.mpr (Nat.le_refl _)⟩
      current := List.forall_mem_append.mpr
        ⟨includes, List.forall_mem_singleton.mpr fun _ => le_rfl⟩
      linked := List.forall_mem_append.mpr
        ⟨fun entry mem before => (chained entry mem before).imp_right le_of_eq,
          List.forall_mem_singleton.mpr fun absurd => (Nat.lt_irrefl _ absurd).elim⟩
      synchronised := by
        refine inv.synchronised_append _ fun entry mem before _ => ?_
        obtain ⟨chain, last⟩ := chained entry mem before
        refine ⟨_, ?_, List.Sublist.refl _, chain, last.ge⟩
        rw [longer entry mem before]
        exact List.append_ne_nil_of_right_ne_nil _ (List.cons_ne_nil _ _) }

/-- The command of the phase is recorded. -/
theorem Inv.nextPhase (inv : Inv recorder) :
    Inv { recorder with phase := recorder.phase + 1 } where
  present := fun barrier mem => Nat.le_succ_of_le (inv.present barrier mem)
  past := fun entry mem => Nat.le_succ_of_le (inv.past entry mem)
  current := by
    intro entry mem now
    have past := inv.past entry mem
    rw [now] at past
    exact (Nat.not_succ_le_self _ past).elim
  linked := by
    intro entry mem before
    have same : between entry.1 (recorder.phase + 1) recorder.barriers =
        between entry.1 recorder.phase recorder.barriers := by
      refine List.filter_congr fun barrier there => ?_
      have present := inv.present barrier there
      simp [present, Nat.le_succ_of_le present]
    rw [same]
    rcases Nat.lt_succ_iff_lt_or_eq.mp before with earlier | now
    · exact inv.linked entry mem earlier
    · have none : between entry.1 recorder.phase recorder.barriers = [] := by
        refine List.filter_eq_nil_iff.mpr fun barrier there => ?_
        have present := inv.present barrier there
        simp [now]
      rw [none]
      exact ⟨trivial, inv.current entry mem now⟩
  synchronised := inv.synchronised

end Recorder

end BarrierChains
