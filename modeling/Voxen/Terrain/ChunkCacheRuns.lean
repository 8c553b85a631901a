import Voxen.Lib.Runs
import Voxen.Terrain.TerrainLoader

/-!
# Runs of the standby cache

`run_kept`: whatever is inserted, loaded and invalidated, the cache has exactly the chunks that
were inserted and since then neither loaded, invalidated nor evicted, with the data they had.
-/

namespace Voxen.Terrain.ChunkCache

open Land (ChunkKey)

/-! ## The sets -/

/-- The chunk is in the set that its hash selects. -/
def Held (cache : ChunkCache) (entry : ChunkPtr) : Prop :=
  some entry ∈ cache.sets (setId entry.id)

/-- The slots hold no id twice. -/
def Distinct (set : List (Option ChunkPtr)) : Prop :=
  set.Pairwise fun slot slot' => ∀ entry ∈ slot, ∀ entry' ∈ slot', entry.id ≠ entry'.id

/-- Every slot is taken by another id. -/
def FullOfOthers (cache : ChunkCache) (id : ChunkKey) : Prop :=
  ∀ slot ∈ cache.sets (setId id), ∃ entry, slot = some entry ∧ entry.id ≠ id

/-- Each id is held at most once and only in the set of its hash. -/
structure WellFormed (cache : ChunkCache) : Prop where
  size : ∀ n, (cache.sets n).length = Config.chunkCacheSetSize
  inSet : ∀ n entry, some entry ∈ cache.sets n → setId entry.id = n
  distinct : ∀ n, Distinct (cache.sets n)

theorem WellFormed.empty : WellFormed {} where
  size _ := List.length_replicate
  inSet _ entry mem := by
    cases List.eq_of_mem_replicate mem
  distinct _ := List.pairwise_replicate.mpr (Or.inr nofun)

section Sets

variable {id : ChunkKey} {set before after : List (Option ChunkPtr)} {slot : Option ChunkPtr}

theorem searchSet_found {pos found : Nat} {emptyPos empty : Option Nat} {entry : ChunkPtr}
    (search : searchSet id set pos emptyPos = (some (found, entry), empty)) :
    entry.id = id ∧
      ∃ before after, set = before ++ some entry :: after ∧ found = pos + before.length := by
  induction set generalizing pos emptyPos with
  | nil => cases search
  | cons slot set ih =>
    have later : ∀ {emptyPos}, searchSet id set (pos + 1) emptyPos = (some (found, entry), empty) →
        entry.id = id ∧ ∃ before after, slot :: set = before ++ some entry :: after ∧
          found = pos + before.length := by
      intro emptyPos search
      obtain ⟨same, before, after, rfl, rfl⟩ := ih search
      exact ⟨same, slot :: before, after, rfl, by rw [List.length_cons]; omega⟩
    cases slot with
    | none => exact later search
    | some other =>
      unfold searchSet at search
      split at search
      · rename_i same
        cases search
        exact ⟨same, [], set, rfl, rfl⟩
      · exact later search

theorem searchSet_missing {pos : Nat} {emptyPos empty : Option Nat}
    (search : searchSet id set pos emptyPos = (none, empty)) :
    ∀ entry, some entry ∈ set → entry.id ≠ id := by
  induction set generalizing pos emptyPos with
  | nil => nofun
  | cons slot set ih =>
    cases slot with
    | none => exact fun entry mem => ih search entry (by simpa using mem)
    | some other =>
      unfold searchSet at search
      split at search
      · cases search
      · rename_i different
        intro entry mem
        rcases List.mem_cons.mp mem with same | mem
        · cases same
          exact different
        · exact ih search entry mem

theorem searchSet_empty {pos : Nat} {emptyPos empty : Option Nat}
    (search : searchSet id set pos emptyPos = (none, empty)) :
    (empty = emptyPos ∧ none ∉ set) ∨ ∃ before after, set = before ++ none :: after ∧
      empty = some (pos + before.length) := by
  induction set generalizing pos emptyPos with
  | nil =>
    cases search
    exact Or.inl ⟨rfl, nofun⟩
  | cons slot set ih =>
    have later : ∀ {emptyPos}, searchSet id set (pos + 1) emptyPos = (none, empty) →
        (empty = emptyPos ∧ none ∉ set) ∨ ∃ before after, slot :: set = before ++ none :: after ∧
          empty = some (pos + before.length) := by
      intro emptyPos search
      rcases ih search with kept | ⟨before, after, rfl, rfl⟩
      · exact Or.inl kept
      · exact Or.inr ⟨slot :: before, after, rfl, by rw [List.length_cons]; congr 1; omega⟩
    cases slot with
    | none =>
      rcases later search with ⟨rfl, -⟩ | found
      · exact Or.inr ⟨[], set, rfl, rfl⟩
      · exact Or.inr found
    | some other =>
      unfold searchSet at search
      split at search
      · cases search
      · rcases later search with ⟨same, full⟩ | found
        · exact Or.inl ⟨same, by simpa using full⟩
        · exact Or.inr found

theorem set_length (slot' : Option ChunkPtr) :
    (before ++ slot :: after).set (0 + before.length) slot' = before ++ slot' :: after := by
  rw [Nat.zero_add, List.set_append_right _ _ (Nat.le_refl _), Nat.sub_self, List.set_cons_zero]

theorem Distinct.replace (distinct : Distinct (before ++ slot :: after)) {slot' : Option ChunkPtr}
    (fresh : ∀ entry' ∈ slot', ∀ entry, some entry ∈ before ++ after → entry.id ≠ entry'.id) :
    Distinct (before ++ slot' :: after) := by
  unfold Distinct at distinct ⊢
  rw [List.pairwise_append, List.pairwise_cons] at distinct ⊢
  obtain ⟨first, ⟨-, second⟩, between⟩ := distinct
  refine ⟨first, ⟨fun other mem entry inSlot entry' inOther => ?_, second⟩,
    fun one mem other mem' entry inOne entry' inOther => ?_⟩
  · cases inOther
    exact (fresh entry inSlot entry' (List.mem_append_right _ mem)).symm
  · rcases List.mem_cons.mp mem' with rfl | mem'
    · cases inOne
      exact fresh entry' inOther entry (List.mem_append_left _ mem)
    · exact between one mem other (List.mem_cons_of_mem _ mem') entry inOne entry' inOther

theorem Distinct.others {entry : ChunkPtr} (distinct : Distinct (before ++ some entry :: after)) :
    ∀ other, some other ∈ before ++ after → other.id ≠ entry.id := by
  intro other mem
  unfold Distinct at distinct
  rw [List.pairwise_append, List.pairwise_cons] at distinct
  obtain ⟨-, ⟨later, -⟩, between⟩ := distinct
  rcases List.mem_append.mp mem with mem | mem
  · exact between _ mem _ List.mem_cons_self other rfl entry rfl
  · exact (later _ mem entry rfl other rfl).symm

end Sets

/-! ## The operations -/

section Operations

variable {cache cache' : ChunkCache} {id : ChunkKey} {entry ptr : ChunkPtr}
  {set before after : List (Option ChunkPtr)} {slot : Option ChunkPtr} {n : Nat}

/-- One set is replaced. -/
def withSet (cache : ChunkCache) (n : Nat) (set : List (Option ChunkPtr)) : ChunkCache where
  sets := Function.update cache.sets n set

theorem withSet_sets (cache : ChunkCache) (n : Nat) (set : List (Option ChunkPtr)) (m : Nat) :
    (cache.withSet n set).sets m = if m = n then set else cache.sets m :=
  Function.update_apply cache.sets n set m

theorem WellFormed.withSet (well : WellFormed cache) (size : set.length = (cache.sets n).length)
    (inSet : ∀ entry, some entry ∈ set → setId entry.id = n) (distinct : Distinct set) :
    WellFormed (cache.withSet n set) where
  size m := by
    rw [withSet_sets]
    split
    · rw [size, well.size]
    · exact well.size m
  inSet m entry mem := by
    rw [withSet_sets] at mem
    split at mem
    · rename_i same
      rw [inSet entry mem, same]
    · exact well.inSet m entry mem
  distinct m := by
    rw [withSet_sets]
    split
    · exact distinct
    · exact well.distinct m

theorem held_withSet : Held (cache.withSet n set) entry ↔
    if setId entry.id = n then some entry ∈ set else Held cache entry := by
  unfold Held
  rw [withSet_sets]
  split <;> rfl

theorem mem_around {other : ChunkPtr} : some other ∈ before ++ slot :: after ↔
    slot = some other ∨ some other ∈ before ++ after := by
  rw [List.mem_append, List.mem_cons, List.mem_append, eq_comm]
  tauto

theorem WellFormed.unique (well : WellFormed cache) {entry entry' : ChunkPtr}
    (held : Held cache entry) (held' : Held cache entry') (same : entry.id = entry'.id) :
    entry = entry' := by
  unfold Held at held'
  rw [← same] at held'
  have distinct := well.distinct (setId entry.id)
  obtain ⟨before, after, here⟩ := List.append_of_mem held
  rw [here] at distinct held'
  rcases mem_around.mp held' with mem | mem
  · exact Option.some.inj mem
  · exact absurd same.symm (distinct.others entry' mem)

theorem WellFormed.remove (well : WellFormed cache)
    (here : cache.sets (setId id) = before ++ some entry :: after) (same : entry.id = id) :
    WellFormed (cache.withSet (setId id) (before ++ none :: after)) ∧
      ∀ other, Held (cache.withSet (setId id) (before ++ none :: after)) other ↔
        Held cache other ∧ other.id ≠ id := by
  have distinct := here ▸ well.distinct (setId id)
  have others := distinct.others
  have kept : ∀ other, some other ∈ before ++ none :: after ↔
      some other ∈ before ++ some entry :: after ∧ other.id ≠ id := by
    intro other
    constructor
    · intro mem
      have around := (mem_around.mp mem).resolve_left nofun
      exact ⟨mem_around.mpr (Or.inr around), same ▸ others other around⟩
    · rintro ⟨mem, different⟩
      rcases mem_around.mp mem with mem | mem
      · cases mem
        exact absurd same different
      · exact mem_around.mpr (Or.inr mem)
  refine ⟨well.withSet (by rw [here]; simp) (fun other mem => ?_) (distinct.replace nofun),
    fun other => ?_⟩
  · exact well.inSet _ other (here ▸ ((kept other).mp mem).1)
  · rw [held_withSet]
    split
    · rename_i inSet
      rw [kept, Held, inSet, here]
    · rename_i outside
      exact ⟨fun held => ⟨held, fun same => outside (congrArg setId same)⟩, And.left⟩

theorem tryLoad_eq_none_iff : cache.tryLoad id = none ↔
    ∀ entry, Held cache entry → entry.id ≠ id := by
  unfold tryLoad
  dsimp only
  cases search : searchSet id (cache.sets (setId id)) 0 none with
  | mk found empty =>
    cases found with
    | none =>
      refine iff_of_true rfl fun entry held same => ?_
      exact searchSet_missing search entry (same ▸ held) same
    | some hit =>
      obtain ⟨same, before, after, here, -⟩ := searchSet_found search
      refine iff_of_false nofun fun others => others hit.2 ?_ same
      rw [Held, same, here]
      simp

theorem tryLoad_eq_some (well : WellFormed cache) (hit : cache.tryLoad id = some (ptr, cache')) :
    ptr.id = id ∧ Held cache ptr ∧ WellFormed cache' ∧
      ∀ other, Held cache' other ↔ Held cache other ∧ other.id ≠ id := by
  unfold tryLoad at hit
  dsimp only at hit
  cases search : searchSet id (cache.sets (setId id)) 0 none with
  | mk found empty =>
    rw [search] at hit
    cases found with
    | none => cases hit
    | some found =>
      cases hit
      obtain ⟨same, before, after, here, pos⟩ := searchSet_found search
      have held : Held cache found.2 := by
        rw [Held, same, here]
        simp
      rw [here, pos, set_length]
      exact ⟨same, held, well.remove here same⟩

theorem invalidate_spec (well : WellFormed cache) (id : ChunkKey) :
    WellFormed (cache.invalidate id) ∧
      ∀ other, Held (cache.invalidate id) other ↔ Held cache other ∧ other.id ≠ id := by
  unfold invalidate
  dsimp only
  cases search : searchSet id (cache.sets (setId id)) 0 none with
  | mk found empty =>
    cases found with
    | none =>
      refine ⟨well, fun other => ⟨fun held => ⟨held, fun same => ?_⟩, And.left⟩⟩
      exact searchSet_missing search other (same ▸ held) same
    | some found =>
      obtain ⟨same, before, after, here, pos⟩ := searchSet_found search
      dsimp only
      rw [here, pos, set_length]
      exact well.remove here same

/-- What an insertion throws out. -/
def Throws (cache : ChunkCache) (id : ChunkKey) (victim : Option ChunkPtr) : Prop :=
  match victim with
  | none => ¬ FullOfOthers cache id
  | some victim => Held cache victim ∧ setId victim.id = setId id ∧ FullOfOthers cache id

theorem WellFormed.put (well : WellFormed cache)
    (here : cache.sets (setId ptr.id) = before ++ slot :: after)
    (fresh : ∀ other, some other ∈ before ++ after → other.id ≠ ptr.id) :
    WellFormed (cache.withSet (setId ptr.id) (before ++ some ptr :: after)) ∧
      ∀ other, Held (cache.withSet (setId ptr.id) (before ++ some ptr :: after)) other ↔
        other = ptr ∨ Held cache other ∧ other.id ≠ ptr.id ∧ slot ≠ some other := by
  have distinct := here ▸ well.distinct (setId ptr.id)
  refine ⟨well.withSet (by rw [here]; simp) (fun other mem => ?_)
    (distinct.replace fun entry mem other => by cases mem; exact fresh other), fun other => ?_⟩
  · rcases mem_around.mp mem with same | mem
    · rw [Option.some.inj same]
    · exact well.inSet _ other (here ▸ mem_around.mpr (Or.inr mem))
  · rw [held_withSet]
    split
    · rename_i inSet
      rw [Held, inSet, here, mem_around, mem_around, Option.some_inj, eq_comm]
      constructor
      · rintro (same | mem)
        · exact Or.inl same
        · refine Or.inr ⟨Or.inr mem, fresh other mem, ?_⟩
          rintro rfl
          exact distinct.others other mem rfl
      · rintro (same | ⟨same | mem, different, notThere⟩)
        · exact Or.inl same
        · exact absurd same notThere
        · exact Or.inr mem
    · rename_i outside
      constructor
      · refine fun held => Or.inr ⟨held, fun same => outside (congrArg setId same), ?_⟩
        rintro rfl
        refine outside (well.inSet _ other ?_)
        rw [here]
        exact mem_around.mpr (Or.inl rfl)
      · rintro (rfl | ⟨held, -⟩)
        · exact absurd rfl outside
        · exact held

theorem WellFormed.evict {victim : ChunkPtr} (well : WellFormed cache)
    (here : cache.sets (setId ptr.id) = some victim :: after)
    (fresh : ∀ other, some other ∈ after → other.id ≠ ptr.id) :
    WellFormed (cache.withSet (setId ptr.id) (after ++ [some ptr])) ∧
      ∀ other, Held (cache.withSet (setId ptr.id) (after ++ [some ptr])) other ↔
        other = ptr ∨ Held cache other ∧ other.id ≠ ptr.id ∧ some victim ≠ some other := by
  obtain ⟨putWell, putHeld⟩ := @WellFormed.put _ _ [] _ _ well here fresh
  have perm : (after ++ [some ptr]).Perm (some ptr :: after) := List.perm_append_singleton _ _
  refine ⟨well.withSet ?_ (fun other mem => ?_) ?_, fun other => ?_⟩
  · rw [here, List.length_append]
    rfl
  · refine putWell.inSet _ other ?_
    rw [withSet_sets, if_pos rfl]
    exact perm.mem_iff.mp mem
  · have distinct := putWell.distinct (setId ptr.id)
    rw [withSet_sets, if_pos rfl] at distinct
    exact (perm.pairwise_iff fun {x y} apart e memE e' memE' => (apart e' memE' e memE).symm).mpr
      distinct
  · rw [← putHeld other, held_withSet, held_withSet, perm.mem_iff]
    rfl

/-- An insertion throws out one chunk if the set is full of other ids, and else none. -/
theorem insert_spec {version : ChunkPtr → Nat} (well : WellFormed cache)
    (inserted : cache.insert version ptr = some cache') :
    WellFormed cache' ∧ ∃ victim, Throws cache ptr.id victim ∧
      ∀ other, Held cache' other ↔
        other = ptr ∨ Held cache other ∧ other.id ≠ ptr.id ∧ victim ≠ some other := by
  unfold insert at inserted
  dsimp only at inserted
  split at inserted
  · rename_i pos entry empty search
    split at inserted
    · cases inserted
      obtain ⟨same, before, after, here, rfl⟩ := searchSet_found search
      have distinct := here ▸ well.distinct (setId ptr.id)
      rw [here, set_length]
      obtain ⟨putWell, putHeld⟩ := well.put here fun other mem => same ▸ distinct.others other mem
      refine ⟨putWell, none, fun full => ?_, fun other => (putHeld other).trans ?_⟩
      · obtain ⟨other, slot, different⟩ := full (some entry) (by rw [here]; simp)
        cases slot
        exact different same
      · refine or_congr_right (and_congr_right fun held => and_congr_right fun different => ?_)
        refine iff_of_true ?_ nofun
        rintro ⟨⟩
        exact different same
    · cases inserted
  · rename_i pos search
    cases inserted
    have others := searchSet_missing search
    rcases searchSet_empty search with ⟨impossible, -⟩ | ⟨before, after, here, empty⟩
    · cases impossible
    · cases empty
      rw [here, set_length]
      obtain ⟨putWell, putHeld⟩ := well.put here fun other mem =>
        others other (here ▸ mem_around.mpr (Or.inr mem))
      refine ⟨putWell, none, fun full => ?_, putHeld⟩
      obtain ⟨other, slot, -⟩ := full none (by rw [here]; simp)
      cases slot
  · rename_i search
    cases inserted
    have others := searchSet_missing search
    rcases searchSet_empty search with ⟨-, full⟩ | ⟨before, after, -, empty⟩
    · have fullOfOthers : FullOfOthers cache ptr.id := by
        intro slot mem
        cases slot with
        | none => exact absurd mem full
        | some entry => exact ⟨entry, rfl, others entry mem⟩
      obtain ⟨first, after, here⟩ : ∃ first after,
          cache.sets (setId ptr.id) = first :: after :=
        List.exists_cons_of_length_pos (by rw [well.size]; decide)
      obtain ⟨victim, rfl, -⟩ := fullOfOthers first (by rw [here]; exact List.mem_cons_self)
      obtain ⟨evictWell, evictHeld⟩ := well.evict here fun other mem =>
        others other (here ▸ List.mem_cons_of_mem _ mem)
      have inSet : setId victim.id = setId ptr.id :=
        well.inSet _ victim (by rw [here]; exact List.mem_cons_self)
      have rotated : ((cache.sets (setId ptr.id)).set 0 (some ptr)).rotateLeft 1 =
          after ++ [some ptr] := by
        have size := well.size (setId ptr.id)
        rw [here, List.length_cons] at size
        have length : after.length = 7 := Nat.succ.inj size
        rw [here, List.set_cons_zero]
        simp [List.rotateLeft, length]
      rw [rotated]
      refine ⟨evictWell, some victim, ⟨?_, inSet, fullOfOthers⟩, evictHeld⟩
      rw [Held, inSet, here]
      exact List.mem_cons_self
    · cases empty

end Operations

/-! ## Runs -/

variable {Primary Surface : Type}

/-- What happened to the chunks of the cache, with the caches before and after an insertion. -/
inductive Event (Primary Surface : Type) where
  | inserted (id : ChunkKey) (chunk : Chunk Primary Surface) (before after : ChunkCache)
  | loaded (id : ChunkKey)
  | invalidated (id : ChunkKey)

/-- The cache, the chunk objects and what happened so far, the latest first. -/
structure Session (Primary Surface : Type) where
  cache : ChunkCache := {}
  chunks : ChunkPtr → Chunk Primary Surface
  log : List (Event Primary Surface) := []

/-- A call of the cache, or a change that others make to a chunk object. -/
inductive Call (Primary Surface : Type) where
  | insert (ptr : ChunkPtr)
  | tryLoad (chunk : ChunkPtr)
  | invalidate (id : ChunkKey)
  | modify (ptr : ChunkPtr) (chunk : Chunk Primary Surface)

/-- `tryLoad(chunk)` with the assignment to the chunk; `none` where it returns false. -/
def Session.tryLoad (session : Session Primary Surface) (chunk : ChunkPtr) :
    Option (Session Primary Surface) :=
  (session.cache.tryLoad chunk.id).map fun hit =>
    { cache := hit.2
      chunks := TerrainLoader.moveAssign session.chunks chunk hit.1
      log := .loaded chunk.id :: session.log }

/-- `insert(ptr)`; `none` where the assertion on the versions fails. -/
def Session.insert (session : Session Primary Surface) (ptr : ChunkPtr) :
    Option (Session Primary Surface) :=
  (session.cache.insert (fun ptr => (session.chunks ptr).version) ptr).map fun cache =>
    { session with
      cache := cache
      log := .inserted ptr.id (session.chunks ptr) session.cache cache :: session.log }

def step (session : Session Primary Surface) : Call Primary Surface →
    Option (Session Primary Surface)
  | .insert ptr => session.insert ptr
  | .tryLoad chunk => some ((session.tryLoad chunk).getD session)
  | .invalidate id =>
    some { session with
      cache := session.cache.invalidate id
      log := .invalidated id :: session.log }
  | .modify ptr chunk =>
    some { session with chunks := Function.update session.chunks ptr chunk }

/-- Chunk objects in the cache are neither modified by others nor loaded into. -/
def Lawful (session : Session Primary Surface) : Call Primary Surface → Prop
  | .insert _ => True
  | .tryLoad chunk => ¬ Held session.cache chunk
  | .invalidate _ => True
  | .modify ptr _ => ¬ Held session.cache ptr

/-- The cache has a chunk of the id. -/
def Holds (cache : ChunkCache) (id : ChunkKey) : Prop :=
  ∃ entry, Held cache entry ∧ entry.id = id

instance (cache : ChunkCache) (id : ChunkKey) : Decidable (Holds cache id) :=
  decidable_of_iff (∃ slot ∈ cache.sets (setId id), ∃ entry ∈ slot, entry.id = id) <| by
    constructor
    · rintro ⟨slot, mem, entry, rfl, rfl⟩
      exact ⟨entry, mem, rfl⟩
    · rintro ⟨entry, held, rfl⟩
      exact ⟨some entry, held, entry, rfl, rfl⟩

/-- The id was in the cache, and the insertion of another one has removed it. -/
def Evicted (before after : ChunkCache) (id : ChunkKey) : Prop :=
  Holds before id ∧ ¬ Holds after id

instance (before after : ChunkCache) (id : ChunkKey) : Decidable (Evicted before after id) :=
  inferInstanceAs (Decidable (_ ∧ _))

/-- The last inserted chunk of the id, if it was since neither loaded, invalidated nor evicted. -/
def lastInserted (id : ChunkKey) :
    List (Event Primary Surface) → Option (Chunk Primary Surface)
  | [] => none
  | .inserted other chunk before after :: log =>
    if other = id then some chunk
    else if Evicted before after id then none
    else lastInserted id log
  | .loaded other :: log => if other = id then none else lastInserted id log
  | .invalidated other :: log => if other = id then none else lastInserted id log

instance (cache : ChunkCache) (entry : ChunkPtr) : Decidable (Held cache entry) :=
  inferInstanceAs (Decidable (_ ∈ _))

instance (session : Session Primary Surface) :
    ∀ call, Decidable (Lawful session call)
  | .insert _ => inferInstanceAs (Decidable True)
  | .tryLoad _ => inferInstanceAs (Decidable (¬ _))
  | .invalidate _ => inferInstanceAs (Decidable True)
  | .modify _ _ => inferInstanceAs (Decidable (¬ _))

/-- What holds after every call. -/
structure Kept (session : Session Primary Surface) : Prop where
  wellFormed : WellFormed session.cache
  held : ∀ entry, Held session.cache entry →
    lastInserted entry.id session.log = some (session.chunks entry)
  missing : ∀ id, ¬ Holds session.cache id → lastInserted id session.log = none

section Steps

variable {session session' : Session Primary Surface} {ptr : ChunkPtr}

theorem Kept.initial (chunks : ChunkPtr → Chunk Primary Surface) :
    Kept { chunks := chunks } where
  wellFormed := WellFormed.empty
  held entry held := by
    cases List.eq_of_mem_replicate held
  missing _ _ := rfl

theorem Kept.leave (kept : Kept session) {id : ChunkKey} {cache : ChunkCache}
    {chunks : ChunkPtr → Chunk Primary Surface} {event : Event Primary Surface}
    (event_eq : ∀ other, lastInserted other (event :: session.log) =
      if id = other then none else lastInserted other session.log)
    (well : WellFormed cache)
    (holds : ∀ other, Held cache other ↔ Held session.cache other ∧ other.id ≠ id)
    (same : ∀ other, Held cache other → chunks other = session.chunks other) :
    Kept { cache := cache, chunks := chunks, log := event :: session.log } where
  wellFormed := well
  held entry held := by
    obtain ⟨before, different⟩ := (holds entry).mp held
    rw [event_eq, if_neg different.symm, kept.held entry before]
    exact congrArg some (same entry held).symm
  missing other gone := by
    rw [event_eq]
    split
    · rfl
    · rename_i different
      refine kept.missing other ?_
      rintro ⟨entry, held, rfl⟩
      exact gone ⟨entry, (holds entry).mpr ⟨held, Ne.symm different⟩, rfl⟩

theorem evicted_iff {cache cache' : ChunkCache} {victim : Option ChunkPtr} {id : ChunkKey}
    (well : WellFormed cache) (throws : Throws cache ptr.id victim)
    (held_iff : ∀ other, Held cache' other ↔
      other = ptr ∨ Held cache other ∧ other.id ≠ ptr.id ∧ victim ≠ some other) :
    Evicted cache cache' id ↔ ∃ entry, victim = some entry ∧ entry.id = id := by
  constructor
  · rintro ⟨⟨entry, held, rfl⟩, gone⟩
    refine ⟨entry, ?_, rfl⟩
    by_contra other
    refine gone ?_
    by_cases same : entry.id = ptr.id
    · exact ⟨ptr, (held_iff ptr).mpr (Or.inl rfl), same.symm⟩
    · exact ⟨entry, (held_iff entry).mpr (Or.inr ⟨held, same, other⟩), rfl⟩
  · rintro ⟨victim, rfl, rfl⟩
    obtain ⟨held, inSet, full⟩ := throws
    refine ⟨⟨victim, held, rfl⟩, ?_⟩
    rintro ⟨other, held', same⟩
    obtain ⟨entry, slot, different⟩ := full (some victim) (inSet ▸ held)
    cases slot
    rcases (held_iff other).mp held' with rfl | ⟨held', -, kept⟩
    · exact different same.symm
    · exact kept (congrArg some (well.unique held held' same.symm))

theorem Kept.insert (kept : Kept session) (inserted : session.insert ptr = some session') :
    Kept session' := by
  obtain ⟨cache, put, rfl⟩ := Option.map_eq_some_iff.mp inserted
  obtain ⟨well, victim, throws, held_iff⟩ := insert_spec kept.wellFormed put
  refine ⟨well, fun entry held => ?_, fun id gone => ?_⟩
  · change Held cache entry at held
    rcases (held_iff entry).mp held with rfl | ⟨before, different, -⟩
    · exact if_pos rfl
    · have stays : ¬ Evicted session.cache cache entry.id := fun evicted =>
        evicted.2 ⟨entry, held, rfl⟩
      change (if ptr.id = entry.id then _ else if _ then _ else _) = _
      rw [if_neg different.symm, if_neg stays]
      exact kept.held entry before
  · have different : ptr.id ≠ id := fun same =>
      gone ⟨ptr, (held_iff ptr).mpr (Or.inl rfl), same⟩
    change (if ptr.id = id then _ else if _ then _ else _) = _
    rw [if_neg different]
    split
    · rfl
    · rename_i stays
      exact kept.missing id fun holds => stays ⟨holds, gone⟩

theorem Kept.tryLoad (kept : Kept session) (free : ¬ Held session.cache ptr)
    (hit : session.tryLoad ptr = some session') : Kept session' := by
  obtain ⟨⟨other, cache⟩, found, rfl⟩ := Option.map_eq_some_iff.mp hit
  obtain ⟨same, held, well, held_iff⟩ := tryLoad_eq_some kept.wellFormed found
  refine kept.leave (fun id => rfl) well held_iff fun entry stays => ?_
  obtain ⟨before, different⟩ := (held_iff entry).mp stays
  unfold TerrainLoader.moveAssign
  dsimp only
  rw [Function.update_of_ne, Function.update_of_ne]
  · rintro rfl
    exact free before
  · rintro rfl
    exact different same

theorem Kept.step (kept : Kept session) {call : Call Primary Surface}
    (lawful : Lawful session call) (next : ChunkCache.step session call = some session') :
    Kept session' := by
  cases call with
  | insert ptr => exact kept.insert next
  | tryLoad chunk =>
    cases next
    cases hit : session.tryLoad chunk with
    | none => exact kept
    | some session' => exact kept.tryLoad lawful hit
  | invalidate id =>
    cases next
    obtain ⟨well, held_iff⟩ := invalidate_spec kept.wellFormed id
    exact kept.leave (fun _ => rfl) well held_iff fun _ _ => rfl
  | modify ptr chunk =>
    cases next
    refine ⟨kept.wellFormed, fun entry held => ?_, kept.missing⟩
    rw [kept.held entry held]
    have other : entry ≠ ptr := by
      rintro rfl
      exact lawful held
    exact congrArg some (Function.update_of_ne other _ _).symm

theorem Kept.tryLoad_exact (kept : Kept session) (free : ¬ Held session.cache ptr) :
    match session.tryLoad ptr with
    | none => lastInserted ptr.id session.log = none
    | some session' => lastInserted ptr.id session.log = some (session'.chunks ptr) := by
  unfold Session.tryLoad
  cases found : session.cache.tryLoad ptr.id with
  | none =>
    refine kept.missing _ ?_
    rintro ⟨entry, held, same⟩
    exact tryLoad_eq_none_iff.mp found entry held same
  | some hit =>
    obtain ⟨same, held, -, -⟩ := tryLoad_eq_some kept.wellFormed found
    have other : ptr ≠ hit.1 := by
      rintro rfl
      exact free held
    have moved : TerrainLoader.moveAssign session.chunks ptr hit.1 ptr =
        session.chunks hit.1 := by
      unfold TerrainLoader.moveAssign
      rw [Function.update_of_ne other, Function.update_self]
    rw [Option.map_some]
    change lastInserted ptr.id session.log = some (TerrainLoader.moveAssign _ _ _ ptr)
    rw [← same, kept.held hit.1 held, moved]

/-- An insertion evicts one chunk if the set is full of other ids, and else none. -/
theorem Kept.insert_evicts (kept : Kept session)
    (inserted : session.insert ptr = some session') :
    (FullOfOthers session.cache ptr.id → ∃! id, Evicted session.cache session'.cache id) ∧
      (¬ FullOfOthers session.cache ptr.id → ∀ id, ¬ Evicted session.cache session'.cache id) := by
  obtain ⟨cache, put, rfl⟩ := Option.map_eq_some_iff.mp inserted
  obtain ⟨-, victim, throws, held_iff⟩ := insert_spec kept.wellFormed put
  have evicted : ∀ id, Evicted session.cache cache id ↔
      ∃ entry, victim = some entry ∧ entry.id = id := fun id =>
    evicted_iff kept.wellFormed throws held_iff
  cases victim with
  | none =>
    refine ⟨fun full => absurd full throws, fun _ id gone => ?_⟩
    obtain ⟨entry, impossible, -⟩ := (evicted id).mp gone
    cases impossible
  | some victim =>
    refine ⟨fun _ => ⟨victim.id, (evicted _).mpr ⟨victim, rfl, rfl⟩, fun id gone => ?_⟩,
      fun some_room => absurd throws.2.2 some_room⟩
    obtain ⟨entry, same, rfl⟩ := (evicted id).mp gone
    cases same
    rfl

end Steps

/-- The cache after any calls: each id is held at most once and in the set of its hash; a chunk is
loaded exactly if it was inserted and not lost since, with what was inserted last; and only a set
full of other ids loses a chunk to an insertion, then exactly one. -/
theorem run_kept (chunks : ChunkPtr → Chunk Primary Surface) (calls : List (Call Primary Surface))
    {session : Session Primary Surface}
    (lawful : Runs.StepsMeet step Lawful { chunks := chunks } calls)
    (run : Runs.run step { chunks := chunks } calls = some session) :
    WellFormed session.cache ∧
      (∀ chunk, ¬ Held session.cache chunk →
        match session.tryLoad chunk with
        | none => lastInserted chunk.id session.log = none
        | some session' => lastInserted chunk.id session.log = some (session'.chunks chunk)) ∧
      ∀ ptr session', session.insert ptr = some session' →
        (FullOfOthers session.cache ptr.id → ∃! id, Evicted session.cache session'.cache id) ∧
        (¬ FullOfOthers session.cache ptr.id →
          ∀ id, ¬ Evicted session.cache session'.cache id) := by
  have kept : Kept session :=
    Runs.run_invariant (fun _ _ _ kept lawful next => kept.step lawful next)
      (Kept.initial chunks) lawful run
  exact ⟨kept.wellFormed, fun _ free => kept.tryLoad_exact free,
    fun _ _ inserted => kept.insert_evicts inserted⟩


/-- A chunk is put in and taken out again. -/
theorem run_kept_insert_tryLoad :
    let id := ChunkKey.ofBase ⟨1, 2, 3⟩ 0
    let start : Session Nat Nat := { chunks := fun ptr => ⟨ptr.object, ptr.object, 0⟩ }
    ∃ session, Runs.run step start [.insert ⟨7, id⟩, .tryLoad ⟨1, id⟩] = some session ∧
      WellFormed session.cache := by
  intro id start
  have possible : (Runs.run step start [.insert ⟨7, id⟩, .tryLoad ⟨1, id⟩]).isSome = true := by
    decide +kernel
  obtain ⟨session, run⟩ := Option.isSome_iff_exists.mp possible
  exact ⟨session, run, (run_kept start.chunks _ (by decide +kernel) run).1⟩

end Voxen.Terrain.ChunkCache
