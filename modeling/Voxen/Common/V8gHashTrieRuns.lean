import Voxen.Common.V8gHashTrie

/-!
# Runs of the versioned hash trie

Over any run of insertions, erasures and copies, lookups return what the last
insertion of a key left, and the size is the number of the keys so stored.
-/

namespace Voxen.Common.V8gHashTrie

/-- A call on the container.  A copy shares the root nodes and leaves the
container itself alone. -/
inductive Operation (K V : Type) where
  | insert (timeline : BitVec 64) (key : K) (valuePtr : V)
  | erase (timeline : BitVec 64) (key : K)
  | copy

namespace Operation

variable {K V : Type}

/-- The call inserts or erases `key`. -/
def Touches : Operation K V → K → Prop
  | insert _ touched _, key => touched = key
  | erase _ touched, key => touched = key
  | copy, _ => False

def apply [DecidableEq K] (layout : ItemLayout) (hash : K → BitVec 64)
    (trie : V8gHashTrie K V) : Operation K V → Option (V8gHashTrie K V)
  | insert timeline key valuePtr => trie.insert layout hash timeline key valuePtr
  | erase timeline key => trie.erase layout hash timeline key
  | copy => some trie

end Operation

variable {K V : Type}

/-- `item` is what the last insertion of its key stored, and no later call
touched the key. -/
def LastInsert (operations : List (Operation K V)) (item : Item K V) : Prop :=
  ∃ before after,
    operations = before ++ .insert item.version item.key item.valuePtr :: after ∧
    ∀ operation ∈ after, ¬ operation.Touches item.key

theorem lastInsert_nil (item : Item K V) : ¬ LastInsert [] item := by
  rintro ⟨before, after, split, -⟩
  simp at split

theorem lastInsert_snoc (operations : List (Operation K V)) (operation : Operation K V)
    (item : Item K V) :
    LastInsert (operations ++ [operation]) item ↔
      operation = .insert item.version item.key item.valuePtr ∨
      (LastInsert operations item ∧ ¬ operation.Touches item.key) := by
  constructor
  · rintro ⟨before, after, split, untouched⟩
    rcases List.eq_nil_or_concat after with rfl | ⟨front, last, rfl⟩
    · have same := List.append_inj_right' split rfl
      exact Or.inl (List.cons.inj same).1
    · rw [List.concat_eq_append] at split untouched
      rw [← List.cons_append, ← List.append_assoc] at split
      have same := (List.cons.inj (List.append_inj_right' split rfl)).1
      refine Or.inr ⟨⟨before, front, List.append_inj_left' split rfl, ?_⟩, ?_⟩
      · exact fun other member => untouched other (List.mem_append_left _ member)
      · rw [same]
        exact untouched last (by simp)
  · rintro (rfl | ⟨⟨before, after, rfl, untouched⟩, apart⟩)
    · exact ⟨operations, [], rfl, by simp⟩
    · refine ⟨before, after ++ [operation], by simp, ?_⟩
      intro other member
      rcases List.mem_append.mp member with inside | last
      · exact untouched other inside
      · rw [List.mem_singleton.mp last]
        exact apart

variable [DecidableEq K] (layout : ItemLayout) (hash : K → BitVec 64)

/-- All calls of a run in order; `none` if one of them is undefined. -/
def run (operations : List (Operation K V)) : Option (V8gHashTrie K V) :=
  operations.foldlM (Operation.apply layout hash) {}

theorem run_snoc (operations : List (Operation K V)) (operation : Operation K V) :
    run layout hash (operations ++ [operation]) =
      (run layout hash operations).bind fun trie => operation.apply layout hash trie := by
  simp [run, List.foldlM_append]

/-- The keys a lookup finds. -/
def storedKeys (trie : V8gHashTrie K V) : Set K :=
  {key | trie.find hash key ≠ some none}

/-- What holds of the container after a run. -/
structure Reflects (operations : List (Operation K V)) (trie : V8gHashTrie K V) : Prop where
  wellFormed : WellFormed layout hash trie
  lookups : ∀ key item,
    trie.find hash key = some (some item) ↔ item.key = key ∧ LastInsert operations item
  finite : (storedKeys hash trie).Finite
  size : trie.size = (storedKeys hash trie).ncard

variable {layout} {hash}

variable {trie : V8gHashTrie K V} {operations : List (Operation K V)}

theorem storedKeys_insert {trie' : V8gHashTrie K V} {key : K} {item : Item K V}
    (updated : ∀ other, trie'.find hash other =
      if other = key then some (some item) else trie.find hash other) :
    storedKeys hash trie' = Insert.insert key (storedKeys hash trie) := by
  ext other
  rw [Set.mem_insert_iff, storedKeys, Set.mem_ofPred_eq, updated]
  by_cases same : other = key
  · simp [same]
  · simp [same, storedKeys]

theorem storedKeys_erase {trie' : V8gHashTrie K V} {key : K}
    (updated : ∀ other, trie'.find hash other =
      if other = key then some none else trie.find hash other) :
    storedKeys hash trie' = storedKeys hash trie \ {key} := by
  ext other
  rw [Set.mem_sdiff, Set.mem_singleton_iff, storedKeys, Set.mem_ofPred_eq, updated]
  by_cases same : other = key
  · simp [same]
  · simp [same, storedKeys]

theorem empty_reflects : Reflects layout hash [] ({} : V8gHashTrie K V) := by
  have nothing : storedKeys hash ({} : V8gHashTrie K V) = ∅ := by
    ext key
    simp [storedKeys, find]
  refine ⟨empty_wellFormed layout hash, ?_, ?_, ?_⟩
  · intro key item
    constructor
    · intro found
      simp [find] at found
    · rintro ⟨-, last⟩
      exact absurd last (lastInsert_nil item)
  · rw [nothing]
    exact Set.finite_empty
  · rw [nothing, Set.ncard_empty]

theorem Reflects.insert (unique : Function.Injective hash)
    (reflects : Reflects layout hash operations trie) (timeline : BitVec 64) (key : K)
    (valuePtr : V) :
    ∃ trie', trie.insert layout hash timeline key valuePtr = some trie' ∧
      Reflects layout hash (operations ++ [.insert timeline key valuePtr]) trie' := by
  obtain ⟨trie', added, result, wf', lookups, size, addedIff⟩ :=
    insert_spec unique reflects.wellFormed timeline key valuePtr
  have keys := storedKeys_insert lookups
  refine ⟨trie', result, wf', ?_, ?_, ?_⟩
  · intro other item
    rw [lookups, lastInsert_snoc]
    by_cases same : other = key
    · subst same
      rw [if_pos rfl]
      constructor
      · rintro ⟨rfl⟩
        exact ⟨rfl, Or.inl rfl⟩
      · rintro ⟨rfl, inserted | ⟨-, apart⟩⟩
        · cases inserted
          rfl
        · exact absurd rfl apart
    · rw [if_neg same, reflects.lookups]
      constructor
      · rintro ⟨rfl, last⟩
        exact ⟨rfl, Or.inr ⟨last, fun touched => same touched.symm⟩⟩
      · rintro ⟨rfl, inserted | ⟨last, -⟩⟩
        · cases inserted
          exact absurd rfl same
        · exact ⟨rfl, last⟩
  · rw [keys]
    exact reflects.finite.insert key
  · rw [keys, size]
    cases added with
    | true =>
      have fresh : key ∉ storedKeys hash trie := not_not_intro (addedIff.mp rfl)
      rw [if_pos rfl, Set.ncard_insert_of_notMem fresh reflects.finite, reflects.size]
    | false =>
      have stored : key ∈ storedKeys hash trie := fun absent =>
        Bool.noConfusion (addedIff.mpr absent)
      rw [if_neg Bool.false_ne_true, Set.insert_eq_of_mem stored, reflects.size]

theorem Reflects.erase (reflects : Reflects layout hash operations trie) (timeline : BitVec 64)
    (key : K) :
    ∃ trie', trie.erase layout hash timeline key = some trie' ∧
      Reflects layout hash (operations ++ [.erase timeline key]) trie' := by
  obtain ⟨trie', erased, result, wf', lookups, size, erasedIff⟩ :=
    erase_spec reflects.wellFormed timeline key
  have keys := storedKeys_erase lookups
  refine ⟨trie', result, wf', ?_, ?_, ?_⟩
  · intro other item
    rw [lookups, lastInsert_snoc]
    by_cases same : other = key
    · subst same
      rw [if_pos rfl]
      constructor
      · rintro ⟨⟩
      · rintro ⟨rfl, inserted | ⟨-, apart⟩⟩
        · cases inserted
        · exact absurd rfl apart
    · rw [if_neg same, reflects.lookups]
      constructor
      · rintro ⟨rfl, last⟩
        exact ⟨rfl, Or.inr ⟨last, fun touched => same touched.symm⟩⟩
      · rintro ⟨rfl, inserted | ⟨last, -⟩⟩
        · cases inserted
        · exact ⟨rfl, last⟩
  · rw [keys]
    exact reflects.finite.sdiff
  · rw [keys, size]
    cases erased with
    | true =>
      have stored : key ∈ storedKeys hash trie := fun absent =>
        Bool.noConfusion (erasedIff.mpr absent)
      rw [if_pos rfl, Set.ncard_sdiff_singleton_of_mem stored, reflects.size]
    | false =>
      have absent : key ∉ storedKeys hash trie := not_not_intro (erasedIff.mp rfl)
      rw [if_neg Bool.false_ne_true, Set.sdiff_singleton_eq_self absent, reflects.size]

theorem Reflects.copy (reflects : Reflects layout hash operations trie) :
    Reflects layout hash (operations ++ [.copy]) trie := by
  refine ⟨reflects.wellFormed, ?_, reflects.finite, reflects.size⟩
  intro key item
  rw [reflects.lookups, lastInsert_snoc]
  simp [Operation.Touches]

theorem run_reflects (unique : Function.Injective hash) (operations : List (Operation K V)) :
    ∃ trie, run layout hash operations = some trie ∧
      Reflects layout hash operations trie := by
  induction operations using List.reverseRecOn with
  | nil => exact ⟨{}, rfl, empty_reflects⟩
  | append_singleton operations operation ih =>
    obtain ⟨trie, result, reflects⟩ := ih
    rw [run_snoc, result]
    cases operation with
    | insert timeline key valuePtr => exact reflects.insert unique timeline key valuePtr
    | erase timeline key => exact reflects.erase timeline key
    | copy => exact ⟨trie, rfl, reflects.copy⟩

/-- After any run a lookup returns the item of the last insertion of its key
that no erasure of it follows, and the size is the number of keys with one. -/
theorem run_finds_lastInsert (unique : Function.Injective hash)
    (operations : List (Operation K V)) :
    ∃ trie, run layout hash operations = some trie ∧
      (∀ key, ∃ found, trie.find hash key = some found ∧
        ∀ item, found = some item ↔ item.key = key ∧ LastInsert operations item) ∧
      trie.size = Set.ncard {key | ∃ item, item.key = key ∧ LastInsert operations item} := by
  obtain ⟨trie, result, reflects⟩ : ∃ trie, run layout hash operations = some trie ∧
      Reflects layout hash operations trie := run_reflects unique operations
  refine ⟨trie, result, ?_, ?_⟩
  · intro key
    obtain ⟨found, finds⟩ := find_total reflects.wellFormed key
    refine ⟨found, finds, fun item => ?_⟩
    rw [← reflects.lookups, finds, Option.some.injEq]
  · rw [reflects.size]
    congr 1
    ext key
    obtain ⟨found, finds⟩ := find_total reflects.wellFormed key
    have lookups := reflects.lookups key
    rw [finds] at lookups
    rw [storedKeys, Set.mem_ofPred_eq, Set.mem_ofPred_eq, finds]
    cases found with
    | none =>
      constructor
      · exact fun nonempty => absurd rfl nonempty
      · rintro ⟨item, last⟩
        exact nomatch (lookups item).mpr last
    | some item =>
      constructor
      · exact fun _ => ⟨item, (lookups item).mp rfl⟩
      · rintro - ⟨⟩

/-- The layout of an item with an eight-byte key. -/
def wordKeyLayout : ItemLayout where
  itemSize := 32
  nodeItem_le := by decide
  aligned := by decide
  bounded := by decide

/-- A run with a hash prefix collision, an overwrite and an erasure. -/
def collidingOperations : List (Operation (BitVec 64) Nat) :=
  [.insert 1 5 10, .insert 1 6 20, .copy, .insert 2 5 30, .erase 3 6]

example : (run wordKeyLayout id collidingOperations).bind (find id · 5) =
    some (some ⟨2, 5, 30⟩) := by decide

theorem collidingOperations_find :
    ∃ trie, run wordKeyLayout id collidingOperations = some trie ∧
      (∀ key, ∃ found, trie.find id key = some found ∧
        ∀ item, found = some item ↔ item.key = key ∧ LastInsert collidingOperations item) ∧
      trie.size =
        Set.ncard {key | ∃ item, item.key = key ∧ LastInsert collidingOperations item} :=
  run_finds_lastInsert Function.injective_id collidingOperations

end Voxen.Common.V8gHashTrie
