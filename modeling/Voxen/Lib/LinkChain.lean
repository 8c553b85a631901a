import Mathlib.Data.List.Nodup

/-!
# Chains of links

A singly linked list in memory: every node has a link to the next one, and the head
points to the first node.
-/

variable {α : Type}

/-- The nodes met when the links are followed from the head. -/
inductive LinkChain (next : α → Option α) : Option α → List α → Prop where
  | nil : LinkChain next none []
  | cons {node : α} {rest : List α} (tail : LinkChain next (next node) rest) :
      LinkChain next (some node) (node :: rest)

namespace LinkChain

variable {next next' : α → Option α} {head : Option α} {node : α} {nodes : List α}

theorem head?_eq (chain : LinkChain next head nodes) : head = nodes.head? := by
  cases chain with
  | nil => rfl
  | cons tail => rfl

/-- The head of a chain comes first. -/
theorem head_eq (chain : LinkChain next (some node) nodes) :
    ∃ rest, nodes = node :: rest ∧ LinkChain next (next node) rest := by
  cases chain with
  | cons tail => exact ⟨_, rfl, tail⟩

/-- Only the links of the nodes in a chain matter. -/
theorem congr (chain : LinkChain next head nodes) (same : ∀ node ∈ nodes, next' node = next node) :
    LinkChain next' head nodes := by
  induction chain with
  | nil => exact .nil
  | @cons node rest tail ih =>
    refine .cons ?_
    rw [same node List.mem_cons_self]
    exact ih fun other mem => same other (List.mem_cons_of_mem _ mem)

variable [DecidableEq α]

/-- A link outside of the chain is written. -/
theorem update (chain : LinkChain next head nodes) (outside : node ∉ nodes) (link : Option α) :
    LinkChain (Function.update next node link) head nodes := by
  refine chain.congr fun other mem => Function.update_of_ne ?_ _ _
  rintro rfl
  exact outside mem

/-- A node is linked behind the last one. -/
theorem snoc {last : α} (chain : LinkChain next head (nodes ++ [last]))
    (nodup : (nodes ++ [last, node]).Nodup) (ends : next node = none) :
    LinkChain (Function.update next last (some node)) head (nodes ++ [last, node]) := by
  induction nodes generalizing head with
  | nil =>
    cases chain with
    | cons tail =>
      have apart : node ≠ last := by
        rintro rfl
        simp at nodup
      refine .cons ?_
      rw [Function.update_self]
      refine .cons ?_
      rw [Function.update_of_ne apart, ends]
      exact .nil
  | cons first nodes ih =>
    cases chain with
    | cons tail =>
      obtain ⟨not_mem, nodup⟩ := List.nodup_cons.mp nodup
      have apart : first ≠ last := by
        rintro rfl
        simp at not_mem
      refine .cons ?_
      rw [Function.update_of_ne apart]
      exact ih tail nodup

end LinkChain
