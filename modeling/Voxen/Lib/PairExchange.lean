import Mathlib.Data.List.Basic

/-!
# Exchange of pairs

Some of the cells of a memory form pairs, and each cell shows its value to the outside.  One pass
over the cells exchanges the values of each pair and shows the value of each cell.  A pair is
exchanged when its cell at the lower address is visited, which is too late for the other cell if
that one is visited before.
-/

namespace PairExchange

variable {η : Type}

/-- A cell, with the address of the other cell of its pair and what it shows if anybody looks. -/
structure Cell (η : Type) where
  shown : Option η := none
  sibling : Option Nat := none
  value : η

/-- Exchange the values of two cells. -/
def exchange (cells : Nat → Cell η) (one two : Nat) : Nat → Cell η :=
  Function.update
    (Function.update cells one { cells one with value := (cells two).value })
    two { cells two with value := (cells one).value }

/-- Show the value of a cell. -/
def showCell (cells : Nat → Cell η) (address : Nat) : Nat → Cell η :=
  Function.update cells address
    { cells address with shown := (cells address).shown.map fun _ => (cells address).value }

/-- Exchange a cell with its sibling if that has a higher address. -/
def exchangeLower (cells : Nat → Cell η) (address : Nat) : Nat → Cell η :=
  (cells address).sibling.elim cells fun other =>
    if address < other then exchange cells address other else cells

/-- Visit a cell. -/
def visit (cells : Nat → Cell η) (address : Nat) : Nat → Cell η :=
  showCell (exchangeLower cells address) address

/-- The value of the other cell of the pair, or of the cell itself if it has none. -/
def pairValue (cells : Nat → Cell η) (address : Nat) : η :=
  match (cells address).sibling with
  | none => (cells address).value
  | some other => (cells other).value

/-- The cells of a pair know each other, and both are in the order. -/
def Paired (cells : Nat → Cell η) (order : List Nat) : Prop :=
  ∀ address ∈ order, ∀ other, (cells address).sibling = some other →
    other ∈ order ∧ (cells other).sibling = some address ∧ other ≠ address

/-- The cell is visited before its sibling, and the pair is exchanged only after that. -/
def Late (cells : Nat → Cell η) (order : List Nat) (address : Nat) : Prop :=
  ∃ other, (cells address).sibling = some other ∧ other < address ∧
    order.idxOf address < order.idxOf other

instance (cells : Nat → Cell η) (order : List Nat) (address : Nat) :
    Decidable (Late cells order address) :=
  decidable_of_iff (∃ other ∈ (cells address).sibling, other < address ∧
    order.idxOf address < order.idxOf other) Iff.rfl

/-- The pass over some cells has exchanged the cell with its sibling. -/
def Exchanged (cells : Nat → Cell η) (passed : List Nat) (address : Nat) : Prop :=
  ∃ other, (cells address).sibling = some other ∧
    (address ∈ passed ∧ address < other ∨ other ∈ passed ∧ other < address)

/-- What the pass over some cells has made of a cell. -/
structure Passed (cells : Nat → Cell η) (order passed : List Nat) (address : Nat)
    (now : Cell η) : Prop where
  sibling : now.sibling = (cells address).sibling
  exchanged : Exchanged cells passed address → now.value = pairValue cells address
  untouched : ¬ Exchanged cells passed address → now.value = (cells address).value
  early : address ∈ passed → ¬ Late cells order address →
    now.shown = (cells address).shown.map fun _ => pairValue cells address
  late : address ∈ passed → Late cells order address →
    now.shown = (cells address).shown.map fun _ => (cells address).value
  hidden : address ∉ passed → now.shown = (cells address).shown

section Visit

variable {cells cells' : Nat → Cell η} {order passed rest : List Nat} {address other : Nat}

@[simp]
theorem exchange_sibling (one two : Nat) :
    (exchange cells one two address).sibling = (cells address).sibling := by
  unfold exchange
  simp only [Function.update_apply]
  split
  · rename_i same
    rw [same]
  · split
    · rename_i same
      rw [same]
    · rfl

@[simp]
theorem exchange_shown (one two : Nat) :
    (exchange cells one two address).shown = (cells address).shown := by
  unfold exchange
  simp only [Function.update_apply]
  split
  · rename_i same
    rw [same]
  · split
    · rename_i same
      rw [same]
    · rfl

theorem exchange_value (one two : Nat) : (exchange cells one two address).value =
    if address = two then (cells one).value
    else if address = one then (cells two).value else (cells address).value := by
  unfold exchange
  simp only [Function.update_apply]
  split
  · rfl
  · split <;> rfl

@[simp]
theorem showCell_sibling (visited : Nat) :
    (showCell cells visited address).sibling = (cells address).sibling := by
  unfold showCell
  rw [Function.update_apply]
  split
  · rename_i same
    rw [same]
  · rfl

@[simp]
theorem showCell_value (visited : Nat) :
    (showCell cells visited address).value = (cells address).value := by
  unfold showCell
  rw [Function.update_apply]
  split
  · rename_i same
    rw [same]
  · rfl

theorem showCell_shown (visited : Nat) : (showCell cells visited address).shown =
    if address = visited then (cells address).shown.map fun _ => (cells address).value
    else (cells address).shown := by
  unfold showCell
  rw [Function.update_apply]
  split
  · rename_i same
    rw [same]
  · rfl

@[simp]
theorem exchangeLower_sibling (visited : Nat) :
    (exchangeLower cells visited address).sibling = (cells address).sibling := by
  unfold exchangeLower
  cases (cells visited).sibling with
  | none => rfl
  | some other =>
    rw [Option.elim_some]
    split
    · exact exchange_sibling _ _
    · rfl

@[simp]
theorem exchangeLower_shown (visited : Nat) :
    (exchangeLower cells visited address).shown = (cells address).shown := by
  unfold exchangeLower
  cases (cells visited).sibling with
  | none => rfl
  | some other =>
    rw [Option.elim_some]
    split
    · exact exchange_shown _ _
    · rfl

theorem visit_shown (visited : Nat) : (visit cells visited address).shown =
    if address = visited then (cells address).shown.map fun _ => (visit cells visited address).value
    else (cells address).shown := by
  unfold visit
  rw [showCell_shown, showCell_value, exchangeLower_shown]

theorem foldl_visit_sibling (order : List Nat) (cells : Nat → Cell η) (address : Nat) :
    (order.foldl visit cells address).sibling = (cells address).sibling := by
  induction order generalizing cells with
  | nil => rfl
  | cons first order ih => rw [List.foldl_cons, ih, visit, showCell_sibling, exchangeLower_sibling]

theorem not_mem_of_nodup (nodup : (passed ++ rest).Nodup) (mem : address ∈ rest) :
    address ∉ passed :=
  fun done => (List.nodup_append.mp nodup).2.2 address done address mem rfl

/-- When the cell at the lower address is visited, both cells of the pair get their new values. -/
theorem visit_value (nodup : order.Nodup) (paired : Paired cells order)
    (order_eq : order = passed ++ address :: rest)
    (before : ∀ cell ∈ order, Passed cells order passed cell (cells' cell)) {cell : Nat}
    (mem : cell ∈ order) :
    (Exchanged cells (passed ++ [address]) cell →
      (visit cells' address cell).value = pairValue cells cell) ∧
    (¬ Exchanged cells (passed ++ [address]) cell →
      (visit cells' address cell).value = (cells cell).value) := by
  have here : address ∈ order := by
    rw [order_eq]
    exact List.mem_append_right _ List.mem_cons_self
  have fresh : address ∉ passed := not_mem_of_nodup (order_eq ▸ nodup) List.mem_cons_self
  have old := before cell mem
  have now := before address here
  have grows : Exchanged cells passed cell → Exchanged cells (passed ++ [address]) cell := by
    rintro ⟨other, sibling, ⟨done, lower⟩ | ⟨done, lower⟩⟩
    · exact ⟨other, sibling, Or.inl ⟨List.mem_append_left _ done, lower⟩⟩
    · exact ⟨other, sibling, Or.inr ⟨List.mem_append_left _ done, lower⟩⟩
  by_cases higher : ∃ other, (cells address).sibling = some other ∧ address < other
  · obtain ⟨other, sibling, lower⟩ := higher
    obtain ⟨otherMem, back, different⟩ := paired address here other sibling
    have oldOne : (cells' address).value = (cells address).value := by
      refine now.untouched ?_
      rintro ⟨third, same, ⟨done, -⟩ | ⟨-, wrong⟩⟩
      · exact fresh done
      · rw [sibling] at same
        cases same
        exact Nat.lt_asymm lower wrong
    have oldTwo : (cells' other).value = (cells other).value := by
      refine (before other otherMem).untouched ?_
      rintro ⟨third, same, third_cases⟩
      rw [back] at same
      cases same
      rcases third_cases with ⟨-, wrong⟩ | ⟨done, -⟩
      · exact Nat.lt_asymm lower wrong
      · exact fresh done
    have value : (visit cells' address cell).value =
        if cell = other then (cells address).value
        else if cell = address then (cells other).value else (cells' cell).value := by
      unfold visit exchangeLower
      rw [showCell_value, now.sibling, sibling, Option.elim_some, if_pos lower, exchange_value,
        oldOne, oldTwo]
    rw [value]
    by_cases isOther : cell = other
    · subst isOther
      refine ⟨fun _ => ?_, fun stays => absurd ⟨address, back, Or.inr ⟨by simp, lower⟩⟩ stays⟩
      rw [if_pos rfl, pairValue, back]
    · rw [if_neg isOther]
      by_cases isHere : cell = address
      · subst isHere
        refine ⟨fun _ => ?_, fun stays => absurd ⟨other, sibling, Or.inl ⟨by simp, lower⟩⟩ stays⟩
        rw [if_pos rfl, pairValue, sibling]
      · rw [if_neg isHere]
        refine ⟨fun exchanged => old.exchanged ?_, fun stays => old.untouched (stays ∘ grows)⟩
        obtain ⟨third, same, ⟨done, less⟩ | ⟨done, less⟩⟩ := exchanged
        · exact ⟨third, same, Or.inl ⟨(List.mem_append.mp done).resolve_right
            fun single => isHere (List.mem_singleton.mp single), less⟩⟩
        · refine ⟨third, same, Or.inr ⟨(List.mem_append.mp done).resolve_right fun single => ?_,
            less⟩⟩
          -- the sibling of the visited cell is another one
          rw [List.mem_singleton.mp single] at same
          obtain ⟨-, back', -⟩ := paired cell mem address same
          rw [sibling] at back'
          exact isOther (Option.some.inj back').symm
  · have value : (visit cells' address cell).value = (cells' cell).value := by
      unfold visit exchangeLower
      rw [showCell_value, now.sibling]
      cases sibling : (cells address).sibling with
      | none => rfl
      | some other =>
        rw [Option.elim_some, if_neg fun lower => higher ⟨other, sibling, lower⟩]
    rw [value]
    refine ⟨fun exchanged => old.exchanged ?_, fun stays => old.untouched (stays ∘ grows)⟩
    obtain ⟨third, same, ⟨done, less⟩ | ⟨done, less⟩⟩ := exchanged
    · refine ⟨third, same, Or.inl ⟨(List.mem_append.mp done).resolve_right fun single => ?_, less⟩⟩
      rw [List.mem_singleton.mp single] at same less
      exact higher ⟨third, same, less⟩
    · refine ⟨third, same, Or.inr ⟨(List.mem_append.mp done).resolve_right fun single => ?_, less⟩⟩
      rw [List.mem_singleton.mp single] at same less
      obtain ⟨-, back, -⟩ := paired cell mem address same
      exact higher ⟨cell, back, less⟩

/-- A cell is late exactly if it is not exchanged when it is visited. -/
theorem late_iff (nodup : order.Nodup) (paired : Paired cells order)
    (order_eq : order = passed ++ address :: rest) :
    Late cells order address ↔ (cells address).sibling ≠ none ∧
      ¬ Exchanged cells (passed ++ [address]) address := by
  have here : address ∈ order := by
    rw [order_eq]
    exact List.mem_append_right _ List.mem_cons_self
  have fresh : address ∉ passed := not_mem_of_nodup (order_eq ▸ nodup) List.mem_cons_self
  have index : order.idxOf address = passed.length := by
    rw [order_eq, List.idxOf_append_of_notMem fresh, List.idxOf_cons_self, Nat.add_zero]
  have earlier : ∀ other ∈ order, other ≠ address →
      (order.idxOf address < order.idxOf other ↔ other ∉ passed) := by
    intro other otherMem different
    rw [index]
    by_cases done : other ∈ passed
    · refine iff_of_false (Nat.not_lt.mpr ?_) (not_not.mpr done)
      rw [order_eq, List.idxOf_append_of_mem done]
      exact Nat.le_of_lt (List.idxOf_lt_length_of_mem done)
    · refine iff_of_true ?_ done
      rw [order_eq, List.idxOf_append_of_notMem done, List.idxOf_cons_ne _ different.symm]
      omega
  constructor
  · rintro ⟨other, sibling, lower, first⟩
    obtain ⟨otherMem, -, different⟩ := paired address here other sibling
    refine ⟨by rw [sibling]; exact Option.some_ne_none other, ?_⟩
    rintro ⟨third, same, third_cases⟩
    rw [sibling] at same
    cases same
    rcases third_cases with ⟨-, wrong⟩ | ⟨done, -⟩
    · exact Nat.lt_asymm lower wrong
    · rcases List.mem_append.mp done with done | single
      · exact (earlier other otherMem different).mp first done
      · exact different (List.mem_singleton.mp single)
  · rintro ⟨there, stays⟩
    obtain ⟨other, sibling⟩ := Option.ne_none_iff_exists'.mp there
    obtain ⟨otherMem, -, different⟩ := paired address here other sibling
    have lower : other < address := by
      by_contra notLower
      exact stays ⟨other, sibling, Or.inl ⟨by simp, by omega⟩⟩
    refine ⟨other, sibling, lower, (earlier other otherMem different).mpr fun done => ?_⟩
    exact stays ⟨other, sibling, Or.inr ⟨List.mem_append_left _ done, lower⟩⟩

theorem passed_visit (nodup : order.Nodup) (paired : Paired cells order)
    (order_eq : order = passed ++ address :: rest)
    (before : ∀ cell ∈ order, Passed cells order passed cell (cells' cell)) (cell : Nat)
    (mem : cell ∈ order) :
    Passed cells order (passed ++ [address]) cell (visit cells' address cell) := by
  have fresh : address ∉ passed := not_mem_of_nodup (order_eq ▸ nodup) List.mem_cons_self
  have old := before cell mem
  obtain ⟨exchanged, untouched⟩ := visit_value nodup paired order_eq before mem
  have shown := @visit_shown _ cells' cell address
  have in_passed : cell ∈ passed ++ [address] ↔ cell ∈ passed ∨ cell = address := by simp
  refine ⟨?_, exchanged, untouched, fun isPassed early => ?_, fun isPassed late => ?_,
    fun not_passed => ?_⟩
  · rw [visit, showCell_sibling, exchangeLower_sibling, old.sibling]
  · rw [shown]
    split
    · rename_i same
      subst same
      rw [old.hidden fresh]
      refine congrArg (fun value => (cells cell).shown.map fun _ => value) ?_
      by_cases moved : Exchanged cells (passed ++ [cell]) cell
      · exact exchanged moved
      · have alone : (cells cell).sibling = none := by
          by_contra there
          exact early ((late_iff nodup paired order_eq).mpr ⟨there, moved⟩)
        rw [untouched moved, pairValue, alone]
    · rename_i isNot
      exact old.early ((in_passed.mp isPassed).resolve_right isNot) early
  · rw [shown]
    split
    · rename_i same
      subst same
      rw [old.hidden fresh, untouched ((late_iff nodup paired order_eq).mp late).2]
    · rename_i isNot
      exact old.late ((in_passed.mp isPassed).resolve_right isNot) late
  · rw [shown, if_neg fun same => not_passed (in_passed.mpr (Or.inr same))]
    exact old.hidden fun done => not_passed (in_passed.mpr (Or.inl done))

theorem passed_foldl (nodup : order.Nodup) (paired : Paired cells order) :
    ∀ cell ∈ order, Passed cells order order cell (order.foldl visit cells cell) := by
  have all : ∀ rest passed cells', order = passed ++ rest →
      (∀ cell ∈ order, Passed cells order passed cell (cells' cell)) →
      ∀ cell ∈ order, Passed cells order order cell (rest.foldl visit cells' cell) := by
    intro rest
    induction rest with
    | nil =>
      intro passed cells' order_eq before
      rw [List.append_nil] at order_eq
      rwa [← order_eq] at before
    | cons address rest ih =>
      intro passed cells' order_eq before
      exact ih (passed ++ [address]) (visit cells' address) (by rw [order_eq]; simp)
        (passed_visit nodup paired order_eq before)
  have unchanged : ∀ cell, ¬ Exchanged cells [] cell := by
    rintro cell ⟨other, -, ⟨impossible, -⟩ | ⟨impossible, -⟩⟩
    · cases impossible
    · cases impossible
  exact all order [] cells rfl fun cell _ =>
    ⟨rfl, fun moved => absurd moved (unchanged cell), fun _ => rfl, nofun, nofun, fun _ => rfl⟩

/-- All pairs are exchanged, wherever their cells are. -/
theorem foldl_visit_value (nodup : order.Nodup) (paired : Paired cells order)
    (mem : address ∈ order) :
    (order.foldl visit cells address).value = pairValue cells address := by
  have passed := passed_foldl nodup paired address mem
  by_cases exchanged : Exchanged cells order address
  · exact passed.exchanged exchanged
  · rw [passed.untouched exchanged, pairValue]
    cases sibling : (cells address).sibling with
    | none => rfl
    | some other =>
      obtain ⟨otherMem, -, different⟩ := paired address mem other sibling
      refine absurd ⟨other, sibling, ?_⟩ exchanged
      rcases Nat.lt_or_gt_of_ne different with lower | higher
      · exact Or.inr ⟨otherMem, lower⟩
      · exact Or.inl ⟨mem, higher⟩

end Visit

end PairExchange
