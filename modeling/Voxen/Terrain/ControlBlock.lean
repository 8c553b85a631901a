import Voxen.Terrain.ChunkCache

/-!
# Control blocks

A superchunk is a tree of control blocks, one for each chunk that is loaded; the children
of a block are those of its octants.
-/

namespace Voxen.Terrain

/-- `ChunkControlBlock::State`; a block is made in the state of loading. -/
inductive BlockState where
  | loading
  | standby
  | active
deriving DecidableEq

/-- The members of `ChunkControlBlock` other than its children. -/
structure BlockInfo where
  state : BlockState
  overActive : Bool := false
  chunkChanged : Bool := false
  chunk : ChunkPtr
deriving DecidableEq

/-- A pointer to a `ChunkControlBlock`. -/
inductive ControlBlock where
  | absent
  | node (info : BlockInfo) (children : Fin 8 → ControlBlock)

namespace ControlBlock

/-- A block without children. -/
def leaf (info : BlockInfo) : ControlBlock := node info fun _ => absent

/-- The pointer is not null. -/
def isPresent : ControlBlock → Bool
  | absent => false
  | node _ _ => true

def isChunkChanged : ControlBlock → Bool
  | absent => false
  | node info _ => info.chunkChanged

def isActive : ControlBlock → Bool
  | absent => false
  | node info _ => info.state == .active

/-- `validateState(has_active_parent, can_chunk_changed)`: all the assertions hold. -/
def validateState : ControlBlock → Bool → Bool → Bool
  | absent, _, _ => true
  | node info children, hasActiveParent, canChunkChanged =>
    let isActive := info.state == .active
    let hasChildren := (List.finRange 8).any fun i => (children i).isPresent
    (canChunkChanged || !info.chunkChanged) &&
      (if isActive then !info.overActive && !hasActiveParent
      else if !hasActiveParent then info.overActive && info.state == .standby
      else !info.overActive) &&
      ((List.finRange 8).all fun i =>
        (children i).validateState (isActive || hasActiveParent) info.chunkChanged) &&
      (hasChildren || isActive || hasActiveParent)

/-- The block and its descendants. -/
def infos : ControlBlock → List BlockInfo
  | absent => []
  | node info children => info :: (List.finRange 8).flatMap fun i => (children i).infos

/-- The paths from the block to its leaves. -/
def paths : ControlBlock → List (List BlockInfo)
  | absent => []
  | node info children =>
    if (List.finRange 8).any fun i => (children i).isPresent then
      ((List.finRange 8).flatMap fun i => (children i).paths).map (info :: ·)
    else [[info]]

/-- What the walk over the control blocks puts on the active list; the child that was put on the
stack last is visited first. -/
def activeChunks (hasSurface : ChunkPtr → Bool) : ControlBlock → List ChunkPtr
  | absent => []
  | node info children =>
    if info.state = .active then
      if hasSurface info.chunk then [info.chunk] else []
    else (List.finRange 8).reverse.flatMap fun i => (children i).activeChunks hasSurface

end ControlBlock

end Voxen.Terrain
