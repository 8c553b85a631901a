import Mathlib.Data.Set.Card

/-!
# Interning

A table keeps one value for each key and numbers the values in the order in which they come. Who
asks for a value gets the number of the one with its key. Numbers stay good when the table
grows.
-/

namespace Interning

variable {κ ν : Type}

/-- The values so far, and the number of the one with each key. -/
structure Table (κ ν : Type) where
  index : κ → Option Nat := fun _ => none
  values : List ν := []

namespace Table

variable [DecidableEq κ]

/-- The number of the value with the key of `value`, which is added if there is none. -/
def get (key : ν → κ) (table : Table κ ν) (value : ν) : Nat × Table κ ν :=
  match table.index (key value) with
  | some i => (i, table)
  | none => (table.values.length,
      { index := Function.update table.index (key value) (some table.values.length)
        values := table.values ++ [value] })

/-- The numbers of some values, asked for one after another. -/
def getAll (key : ν → κ) : Table κ ν → List ν → List Nat × Table κ ν
  | table, [] => ([], table)
  | table, value :: values =>
    let (i, table) := table.get key value
    let (rest, table) := getAll key table values
    (i :: rest, table)

/-- The numbers are those of the values with the keys. -/
def Lawful (key : ν → κ) (table : Table κ ν) : Prop :=
  ∀ k i, table.index k = some i ↔ ∃ value, table.values[i]? = some value ∧ key value = k

/-- The value with the number has the key of the value asked for. -/
def Reads (key : ν → κ) (table : Table κ ν) (value : ν) (i : Nat) : Prop :=
  ∃ stored, table.values[i]? = some stored ∧ key stored = key value

variable {key : ν → κ} {table : Table κ ν}

omit [DecidableEq κ] in
theorem lawful_empty : Lawful key ({} : Table κ ν) :=
  fun _ _ => ⟨nofun, fun ⟨_, absent, _⟩ => nomatch absent⟩

/-- A value that is there is only read, and another one is added at the end. -/
theorem get_cases (lawful : table.Lawful key) (value : ν) :
    (∃ i, table.Reads key value i ∧ table.get key value = (i, table)) ∨
      (∀ stored ∈ table.values, key stored ≠ key value) ∧
        table.get key value = (table.values.length,
          { index := Function.update table.index (key value) (some table.values.length)
            values := table.values ++ [value] }) := by
  cases found : table.index (key value) with
  | some i => exact .inl ⟨i, (lawful _ i).mp found, by rw [get, found]⟩
  | none =>
    refine .inr ⟨fun stored mem same => ?_, by rw [get, found]⟩
    obtain ⟨i, isThere⟩ := List.getElem?_of_mem mem
    have present := (lawful (key value) i).mpr ⟨stored, isThere, same⟩
    rw [found] at present
    cases present

theorem get_lawful (lawful : table.Lawful key) (value : ν) :
    (table.get key value).2.Lawful key := by
  rcases get_cases lawful value with ⟨i, -, same⟩ | ⟨fresh, added⟩
  · rw [same]
    exact lawful
  · rw [added]
    intro k i
    by_cases isNew : k = key value
    · subst isNew
      simp only [Function.update_self]
      constructor
      · rintro ⟨⟩
        exact ⟨value, List.getElem?_concat_length, rfl⟩
      · rintro ⟨stored, isThere, same⟩
        rcases Nat.lt_trichotomy i table.values.length with old | rfl | beyond
        · rw [List.getElem?_append_left old] at isThere
          exact absurd same (fresh stored (List.mem_of_getElem? isThere))
        · rfl
        · rw [List.getElem?_eq_none (by simpa using beyond)] at isThere
          cases isThere
    · simp only [Function.update_of_ne isNew, lawful k i]
      constructor
      · rintro ⟨stored, isThere, same⟩
        obtain ⟨inside, -⟩ := List.getElem?_eq_some_iff.mp isThere
        exact ⟨stored, by rwa [List.getElem?_append_left inside], same⟩
      · rintro ⟨stored, isThere, same⟩
        rcases Nat.lt_or_ge i table.values.length with old | last
        · exact ⟨stored, by rwa [List.getElem?_append_left old] at isThere, same⟩
        · rw [List.getElem?_append_right last, List.getElem?_singleton] at isThere
          split at isThere
          · obtain rfl := Option.some.inj isThere
            exact absurd same.symm isNew
          · cases isThere

theorem get_grows (lawful : table.Lawful key) (value : ν) :
    table.values <+: (table.get key value).2.values := by
  rcases get_cases lawful value with ⟨i, -, same⟩ | ⟨-, added⟩
  · rw [same]
  · rw [added]
    exact List.prefix_append _ _

theorem get_reads (lawful : table.Lawful key) (value : ν) :
    (table.get key value).2.Reads key value (table.get key value).1 := by
  rcases get_cases lawful value with ⟨i, reads, same⟩ | ⟨-, added⟩
  · rw [same]
    exact reads
  · rw [added]
    exact ⟨value, List.getElem?_concat_length, rfl⟩

/-- Only the value asked for can come into the table. -/
theorem mem_get (lawful : table.Lawful key) {value stored : ν}
    (mem : stored ∈ (table.get key value).2.values) : stored ∈ table.values ∨ stored = value := by
  rcases get_cases lawful value with ⟨i, -, same⟩ | ⟨-, added⟩
  · rw [same] at mem
    exact .inl mem
  · rw [added] at mem
    exact (List.mem_append.mp mem).imp_right List.mem_singleton.mp

omit [DecidableEq κ] in
/-- What is read once is read in all larger tables. -/
theorem Reads.mono {later : Table κ ν} {value : ν} {i : Nat} (reads : table.Reads key value i)
    (grows : table.values <+: later.values) : later.Reads key value i := by
  obtain ⟨stored, isThere, same⟩ := reads
  obtain ⟨inside, -⟩ := List.getElem?_eq_some_iff.mp isThere
  obtain ⟨more, whole⟩ := grows
  exact ⟨stored, by rwa [← whole, List.getElem?_append_left inside], same⟩

theorem getAll_spec (lawful : table.Lawful key) (values : List ν) :
    (table.getAll key values).2.Lawful key ∧
      table.values <+: (table.getAll key values).2.values ∧
      List.Forall₂ ((table.getAll key values).2.Reads key) values (table.getAll key values).1 ∧
      ∀ stored ∈ (table.getAll key values).2.values, stored ∈ table.values ∨ stored ∈ values := by
  induction values generalizing table with
  | nil => exact ⟨lawful, List.prefix_refl _, .nil, fun _ mem => .inl mem⟩
  | cons value values ih =>
    obtain ⟨lawful', grows, reads, mem⟩ := ih (get_lawful lawful value)
    refine ⟨lawful', (get_grows lawful value).trans grows,
      .cons ((get_reads lawful value).mono grows) reads, fun stored inTable => ?_⟩
    rcases mem stored inTable with before | later
    · rcases mem_get lawful before with old | rfl
      · exact .inl old
      · exact .inr (.head _)
    · exact .inr (.tail _ later)

omit [DecidableEq κ] in
theorem Lawful.nodup (lawful : table.Lawful key) : (table.values.map key).Nodup := by
  refine List.pairwise_map.mpr (List.pairwise_iff_getElem.mpr ?_)
  intro i j inside inside' less same
  have first := (lawful _ i).mpr ⟨_, List.getElem?_eq_getElem inside, rfl⟩
  have second := (lawful _ j).mpr ⟨_, List.getElem?_eq_getElem inside', same.symm⟩
  rw [first, Option.some.injEq] at second
  exact Nat.ne_of_lt less second

end Table

end Interning
