import Voxen.Gfx.MeshStreamer
import Voxen.Land.ChunkKeyVolumes

/-!
# Land loader

The land loader draws a cube of chunks either with the meshes of its eight octants or with one mesh
of lower resolution.  It collects the draw commands of the octants first, and takes them back when
one of the octants cannot be drawn.
-/

namespace Voxen.Gfx.LandLoader

open Land (ChunkKey Consts.numLodScales IVec3)
open Land.ChunkKey (Block span half)
open MeshStreamer (MeshAdd MeshInfo MeshSubstreamAdd MeshSubstreamInfo)

/-! ## Draw commands -/

/-- `land::PseudoChunkSurface`, as far as its sizes go. -/
structure Surface where
  numVertices : Nat
  numIndices : Nat

/-- An item of the table of surfaces; the value can be a null pointer. -/
structure TableItem where
  version : Int
  value : Option Surface

/-- `sizeof(land::PseudoSurfaceVertexPosition)`. -/
abbrev positionSize : Nat := 6

/-- `sizeof(land::PseudoSurfaceVertexAttributes)`. -/
abbrev attributesSize : Nat := 16

/-- An address in the memory of a buffer. -/
structure DeviceAddress where
  vkBuffer : Nat
  offset : Nat
deriving DecidableEq

/-- `LandLoader::DrawCommand`; without a buffer there is nothing to draw. -/
structure DrawCommand where
  chunkKey : ChunkKey
  indexBuffer : Option Nat := none
  firstIndex : Nat := 0
  numIndices : Nat := 0
  posDataAddress : Option DeviceAddress := none
  attribDataAddress : Option DeviceAddress := none
deriving DecidableEq

abbrev DrawList := List DrawCommand

/-- What draw commands are made from: the last known surfaces, and the answers of the mesh streamer
for the keys.  A key is asked for at most once in a draw list. -/
structure Sources where
  find : ChunkKey → Option TableItem
  queryMesh : ChunkKey → MeshInfo

/-- The mesh that is added for a surface. -/
def meshAdd (version : Int) (surface : Surface) : MeshAdd where
  version := version
  substreams := #v[
    { numElements := surface.numVertices, elementSize := positionSize },
    { numElements := surface.numVertices, elementSize := attributesSize },
    { numElements := surface.numIndices, elementSize := 2 }, {}]

/-- Where a substream with elements of this size begins. -/
def dataAddress (elementSize : Nat) (substream : MeshSubstreamInfo) : DeviceAddress where
  vkBuffer := substream.vkBuffer
  offset := substream.firstElement * elementSize

/-- The draw command for a mesh that is ready. -/
def drawCommand (key : ChunkKey) (info : MeshInfo) : DrawCommand :=
  let substream (i : Nat) : Option MeshSubstreamInfo := info.substreams.getD i none
  { chunkKey := key
    indexBuffer := (substream 2).map MeshSubstreamInfo.vkBuffer
    firstIndex := (substream 2).elim 0 MeshSubstreamInfo.firstElement
    numIndices := (substream 2).elim 0 MeshSubstreamInfo.numElements
    posDataAddress := (substream 0).map (dataAddress positionSize)
    attribDataAddress := (substream 1).map (dataAddress attributesSize) }

/-- `makeDrawCommand(key)`: the command, and the mesh that is added. -/
def makeDrawCommand (sources : Sources) (key : ChunkKey) : Option DrawCommand × Option MeshAdd :=
  match sources.find key with
  -- Unknown chunk
  | none => (none, none)
  | some item =>
    match item.value.filter fun surface => surface.numIndices ≠ 0 with
    -- Known empty chunk
    | none => (some { chunkKey := key }, none)
    | some surface =>
      let info := sources.queryMesh key
      let added :=
        if max info.readyVersion info.pendingVersion < item.version then
          some (meshAdd item.version surface)
        else none
      (if info.readyVersion < 0 then none else some (drawCommand key info), added)

/-! ## Draw lists -/

/-- `land::ChunkTicketBoxArea`. -/
structure BoxArea where
  first : ChunkKey
  last : ChunkKey

/-- The base of a chunk is in the box. -/
def BoxArea.Contains (box : BoxArea) (base : IVec3) : Prop :=
  (box.first.x.toInt ≤ base.x.toInt ∧ base.x.toInt < box.last.x.toInt) ∧
    (box.first.y.toInt ≤ base.y.toInt ∧ base.y.toInt < box.last.y.toInt) ∧
    box.first.z.toInt ≤ base.z.toInt ∧ base.z.toInt < box.last.z.toInt

instance (box : BoxArea) (base : IVec3) : Decidable (box.Contains base) :=
  inferInstanceAs (Decidable (_ ∧ _))

/-- The octants along the axes, in the order in which they are tried. -/
def octants : List (Bool × Bool × Bool) :=
  [(false, false, false), (true, false, false), (false, true, false), (false, false, true),
    (true, true, false), (false, true, true), (true, false, true), (true, true, true)]

/-- `chunk_base + glm::ivec3(..)` with `k = 1 << n` for the axes of the octant. -/
def octantBase (base : IVec3) (n : Nat) (octant : Bool × Bool × Bool) : IVec3 where
  x := base.x + if octant.1 then BitVec.ofNat 32 (2 ^ n) else 0
  y := base.y + if octant.2.1 then BitVec.ofNat 32 (2 ^ n) else 0
  z := base.z + if octant.2.2 then BitVec.ofNat 32 (2 ^ n) else 0

/-- `try_finer_level`, where `subtree` draws one octant. -/
def tryFinerLevel (subtree : DrawList → IVec3 → DrawList × Bool) (dlist : DrawList)
    (base : IVec3) (n : Nat) : DrawList × Bool :=
  octants.foldl (fun drawn octant =>
    let next := subtree drawn.1 (octantBase base n octant)
    (next.1, drawn.2 && next.2)) (dlist, true)

/-- The end of `makeDrawListSubtree`, after the finer levels were tried. -/
def orThisLevel (command : Option DrawCommand) (rewindPosition : Nat)
    (finer : DrawList × Bool) : DrawList × Bool :=
  if finer.2 then (finer.1, true)
  else
    match command with
    | none => (finer.1, false)
    | some command =>
      -- Known empty chunk
      if command.numIndices = 0 then (finer.1, true)
      else (finer.1.take rewindPosition ++ [command], true)

/-- `makeDrawListSubtree(dlist, chunk_base, level)`. -/
def makeDrawListSubtree (sources : Sources) (boxes : Nat → BoxArea) :
    Nat → DrawList → IVec3 → DrawList × Bool
  | 0, dlist, base =>
    if ¬ (boxes 0).Contains base then (dlist, false)
    else
      orThisLevel (makeDrawCommand sources (ChunkKey.ofBase base 0)).1 dlist.length
        (dlist, false)
  | n + 1, dlist, base =>
    if ¬ (boxes (n + 1)).Contains base then (dlist, false)
    else
      orThisLevel (makeDrawCommand sources (ChunkKey.ofBase base (n + 1))).1 dlist.length
        (tryFinerLevel (makeDrawListSubtree sources boxes n) dlist base n)

end Voxen.Gfx.LandLoader
