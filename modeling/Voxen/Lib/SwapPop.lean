import Mathlib.Data.List.Perm.Basic

/-!
# Removal from an array in any order

An element is removed from an array by a swap with the last one, which is then
dropped.  All the others stay.
-/

variable {α : Type}

/-- `std::swap(list[i], list.back())` and `list.pop_back()`. -/
def swapPop (list : List α) (i : Nat) : List α :=
  match list.getLast? with
  | none => []
  | some last => (list.set i last).dropLast

theorem swapPop_concat (front : List α) (last : α) (i : Nat) :
    swapPop (front ++ [last]) i = ((front ++ [last]).set i last).dropLast := by
  simp [swapPop]

theorem swapPop_perm {list : List α} {i : Nat} {element : α} (at_i : list[i]? = some element) :
    (element :: swapPop list i).Perm list := by
  rcases List.eq_nil_or_concat' list with rfl | ⟨front, last, rfl⟩
  · cases at_i
  rw [swapPop_concat]
  rcases Nat.lt_or_ge i front.length with inFront | atLast
  · rw [List.getElem?_append_left inFront] at at_i
    obtain ⟨_, rfl⟩ := List.getElem?_eq_some_iff.mp at_i
    rw [List.set_append_left _ _ inFront, List.dropLast_concat]
    -- the last element takes the place of the removed one
    have moved : (front.set i last).Perm (last :: front.eraseIdx i) :=
      List.set_perm_cons_eraseIdx inFront last
    have removed : (front[i] :: front.eraseIdx i).Perm front :=
      List.getElem_cons_eraseIdx_perm inFront
    calc
      List.Perm (front[i] :: front.set i last) (front[i] :: last :: front.eraseIdx i) :=
        moved.cons _
      List.Perm _ (last :: front[i] :: front.eraseIdx i) := List.Perm.swap _ _ _
      List.Perm _ (last :: front) := removed.cons last
      List.Perm _ (front ++ [last]) := (List.perm_append_singleton last front).symm
  · rw [List.getElem?_append_right atLast, List.getElem?_singleton] at at_i
    obtain ⟨atEnd, isLast⟩ := Option.ite_none_right_eq_some.mp at_i
    cases isLast
    rw [List.set_append_right _ _ atLast, atEnd]
    simpa using (List.perm_append_singleton element front).symm
