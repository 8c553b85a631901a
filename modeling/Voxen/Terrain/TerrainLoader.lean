import Voxen.Terrain.ChunkCache

/-!
# Terrain loader

Chunks are loaded by tasks on other threads, and given back to the standby cache when they
are unloaded.  A load takes its data out of the cache if it finds the chunk there.
-/

namespace Voxen.Terrain

open Land (ChunkKey IVec3)

/-- What the data of chunks is made with: the generator, the surface builder and new data. -/
structure Generator (Primary Surface : Type) where
  noPrimaryData : Primary
  noSurface : Surface
  generate : ChunkKey → Primary → Primary
  buildSurface : Primary → Surface → Surface
  /-- `hermite_data.empty()`. -/
  hermiteDataEmpty : Primary → Bool

/-- The assertion that has failed: one on states of blocks and commands, one on the map of running
loads, or one of the loader. -/
inductive Fault where
  | state
  | loads
  | loader
deriving DecidableEq

/-- How far `load(chunk)` has got on its thread. -/
inductive LoadStage where
  | queued
  /-- The id is among the loaded chunks. -/
  | entered
  /-- The chunk is not in the cache. -/
  | generating
  | finished
deriving DecidableEq

/-- `TerrainLoader` with the chunk objects and the tasks that load them. -/
structure TerrainLoader (Primary Surface : Type) where
  chunks : ChunkPtr → Chunk Primary Surface
  nextObject : Nat := 0
  stages : ChunkPtr → Option LoadStage := fun _ => none
  cache : ChunkCache := {}
  loadedChunks : List ChunkKey := []
  /-- The chunks that cache hits have taken the data from. -/
  taken : List ChunkPtr := []
  /-- The chunks that were unloaded, and whether their loads were running. -/
  unloaded : List (ChunkPtr × Bool) := []

namespace TerrainLoader

variable {Primary Surface : Type}

/-- The load of the chunk was enqueued and is not finished. -/
def isLoading (loader : TerrainLoader Primary Surface) (ptr : ChunkPtr) : Bool :=
  match loader.stages ptr with
  | none => false
  | some stage => stage != .finished

/-- `Chunk::operator=(other)`, which swaps the data. -/
def moveAssign (chunks : ChunkPtr → Chunk Primary Surface) (ptr other : ChunkPtr) :
    ChunkPtr → Chunk Primary Surface :=
  let chunk := chunks ptr
  let source := chunks other
  Function.update
    (Function.update chunks ptr
      { version := source.version, primaryData := source.primaryData, surface := source.surface })
    other { version := source.version, primaryData := chunk.primaryData, surface := chunk.surface }

/-- The next step of `load(chunk)`. -/
def advance (generator : Generator Primary Surface) (loader : TerrainLoader Primary Surface)
    (ptr : ChunkPtr) : Except Fault (TerrainLoader Primary Surface) :=
  match loader.stages ptr with
  | some .queued =>
    if ptr.id ∈ loader.loadedChunks then .error .loader
    else .ok { loader with
      loadedChunks := ptr.id :: loader.loadedChunks
      stages := Function.update loader.stages ptr (some .entered) }
  | some .entered =>
    match loader.cache.tryLoad ptr.id with
    | some (other, cache) =>
      if ptr.id = other.id then
        .ok { loader with
          cache := cache
          chunks := moveAssign loader.chunks ptr other
          stages := Function.update loader.stages ptr (some .finished)
          taken := other :: loader.taken }
      else .error .loader
    | none =>
      .ok { loader with stages := Function.update loader.stages ptr (some .generating) }
  | some .generating =>
    let chunk := loader.chunks ptr
    let primaryData := generator.generate ptr.id chunk.primaryData
    .ok { loader with
      chunks := Function.update loader.chunks ptr
        { chunk with
          primaryData := primaryData
          surface := generator.buildSurface primaryData chunk.surface }
      stages := Function.update loader.stages ptr (some .finished) }
  | some .finished => .ok loader
  | none => .ok loader

/-- `unload(chunk)`. -/
def unload (loader : TerrainLoader Primary Surface) (ptr : ChunkPtr) :
    Except Fault (TerrainLoader Primary Surface) :=
  if ptr.id ∈ loader.loadedChunks then
    match loader.cache.insert (fun ptr => (loader.chunks ptr).version) ptr with
    | some cache =>
      .ok { loader with
        loadedChunks := loader.loadedChunks.filter fun id => id ≠ ptr.id
        cache := cache
        unloaded := (ptr, loader.isLoading ptr) :: loader.unloaded }
    | none => .error .loader
  else .error .loader

/-- `PoolAllocator::allocateChunk(info)`: a new object with no data. -/
def allocateChunk (generator : Generator Primary Surface) (loader : TerrainLoader Primary Surface)
    (id : ChunkKey) : TerrainLoader Primary Surface × ChunkPtr :=
  let ptr := { object := loader.nextObject, id := id }
  ({ loader with
      chunks := Function.update loader.chunks ptr
        { version := 0
          primaryData := generator.noPrimaryData
          surface := generator.noSurface }
      nextObject := loader.nextObject + 1 }, ptr)

/-- A load of the id runs. -/
def hasLoad (loader : TerrainLoader Primary Surface) (id : ChunkKey) : Bool :=
  (List.range loader.nextObject).any fun object =>
    loader.isLoading { object := object, id := id }

end TerrainLoader

end Voxen.Terrain
