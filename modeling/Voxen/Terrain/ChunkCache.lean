import Voxen.Land.ChunkKeyLod

/-!
# Standby cache of chunks

Chunks that were unloaded are kept in a set-associative cache, so that they can be loaded
again without generating them.
-/

namespace Voxen.Terrain

open Land (ChunkKey IVec3)

namespace Config

/-- `CHUNK_MAX_LOD`. -/
abbrev chunkMaxLod : Nat := 12

/-- `POINT_OF_INTEREST_MAX_AGE`. -/
abbrev pointOfInterestMaxAge : Nat := 1000

/-- `SUPERCHUNK_MAX_AGE`. -/
abbrev superchunkMaxAge : Nat := 1000

/-- `TERRAIN_MAX_DIRECT_OP_COUNT`. -/
abbrev terrainMaxDirectOpCount : Nat := 64

/-- `CHUNK_CACHE_SET_SIZE`. -/
abbrev chunkCacheSetSize : Nat := 8

/-- `CHUNK_CACHE_FULL_SIZE`. -/
abbrev chunkCacheFullSize : Nat := 65536

end Config

/-- A pointer to a chunk object, which keeps the id it was created with. -/
structure ChunkPtr where
  object : Nat
  id : ChunkKey
deriving DecidableEq

/-- The members of `Chunk` that may change. -/
structure Chunk (Primary Surface : Type) where
  version : Nat
  primaryData : Primary
  surface : Surface

/-- `ChunkCache`, with its sets as a function of their numbers. -/
structure ChunkCache where
  sets : Nat → List (Option ChunkPtr) := fun _ => List.replicate Config.chunkCacheSetSize none

namespace ChunkCache

/-- `NUM_SETS`. -/
def numSets : Nat :=
  (Config.chunkCacheFullSize + Config.chunkCacheSetSize - 1) / Config.chunkCacheSetSize

def setId (id : ChunkKey) : Nat := id.hash.toNat % numSets

/-- The search of `insert(ptr)`: the entry of the same id, if there is one, and the last empty
position before the search ended. -/
def searchSet (id : ChunkKey) :
    List (Option ChunkPtr) → Nat → Option Nat → Option (Nat × ChunkPtr) × Option Nat
  | [], _, emptyPos => (none, emptyPos)
  | none :: set, pos, _ => searchSet id set (pos + 1) (some pos)
  | some entry :: set, pos, emptyPos =>
    if entry.id = id then (some (pos, entry), emptyPos)
    else searchSet id set (pos + 1) emptyPos

/-- `tryLoad(chunk)` up to the hit: the chunk found, and the cache without it. -/
def tryLoad (cache : ChunkCache) (id : ChunkKey) : Option (ChunkPtr × ChunkCache) :=
  let set := cache.sets (setId id)
  match (searchSet id set 0 none).1 with
  | none => none
  | some (pos, ptr) =>
    some (ptr, { sets := Function.update cache.sets (setId id) (set.set pos none) })

/-- `insert(ptr)`, with the versions of the chunks; `none` where the assertion on them fails. -/
def insert (cache : ChunkCache) (version : ChunkPtr → Nat) (ptr : ChunkPtr) :
    Option ChunkCache :=
  let set := cache.sets (setId ptr.id)
  let put := fun set => some { sets := Function.update cache.sets (setId ptr.id) set }
  match searchSet ptr.id set 0 none with
  | (some (pos, entry), _) =>
    if version entry ≤ version ptr then put (set.set pos (some ptr)) else none
  | (none, some pos) => put (set.set pos (some ptr))
  -- the first element is evicted, and the others move up
  | (none, none) => put ((set.set 0 (some ptr)).rotateLeft 1)

/-- `invalidate(id)`. -/
def invalidate (cache : ChunkCache) (id : ChunkKey) : ChunkCache :=
  let set := cache.sets (setId id)
  match (searchSet id set 0 none).1 with
  | none => cache
  | some (pos, _) => { sets := Function.update cache.sets (setId id) (set.set pos none) }

theorem searchSet_id {id : ChunkKey} {set : List (Option ChunkPtr)} {pos : Nat}
    {emptyPos : Option Nat} {hit : Nat × ChunkPtr}
    (found : (searchSet id set pos emptyPos).1 = some hit) : hit.2.id = id := by
  induction set generalizing pos emptyPos with
  | nil => cases found
  | cons entry set ih =>
    cases entry with
    | none => exact ih found
    | some entry =>
      unfold searchSet at found
      split at found
      · rename_i same
        cases found
        exact same
      · exact ih found

theorem tryLoad_id {cache cache' : ChunkCache} {id : ChunkKey} {ptr : ChunkPtr}
    (hit : cache.tryLoad id = some (ptr, cache')) : ptr.id = id := by
  unfold tryLoad at hit
  dsimp only at hit
  split at hit
  · cases hit
  · rename_i pos found same
    cases hit
    exact searchSet_id same

theorem insert_isSome (cache : ChunkCache) {version : ChunkPtr → Nat}
    (same : ∀ ptr, version ptr = 0) (ptr : ChunkPtr) :
    ∃ cache', cache.insert version ptr = some cache' := by
  unfold insert
  dsimp only
  split
  · exact ⟨_, if_pos (by rw [same, same])⟩
  · exact ⟨_, rfl⟩
  · exact ⟨_, rfl⟩

end ChunkCache

end Voxen.Terrain
