import Voxen.Land.PseudoChunkLod0
import Voxen.Lib.Runs

/-!
# Runs of one pseudo-chunk

A pseudo-chunk can be generated again and again. Generation from blocks clears the old cells and
external generation replaces them, but the aggregation of finer pseudo-chunks adds its cells to
those that are there.
-/

namespace Voxen.Land.PseudoChunkData

/-- A call of one of the generators. -/
inductive Call where
  | generateFromLod0 (chunks : Fin 27 → Chunk) (uninitialised : ExpandedIds)
  | generateFromFinerLod (finer : Fin 8 → PseudoChunkData)
  | generateExternally (cells : List CellEntry)

def apply (data : PseudoChunkData) : Call → PseudoChunkData
  | .generateFromLod0 chunks uninitialised => PseudoChunkData.generateFromLod0 chunks uninitialised
  | .generateFromFinerLod finer => data.generateFromFinerLod finer
  | .generateExternally cells => PseudoChunkData.generateExternally cells

/-- The order of cells: by `y`, then `x`, then `z`. -/
def Before (cell other : UVec3) : Prop :=
  cell.y < other.y ∨ cell.y = other.y ∧ (cell.x < other.x ∨ cell.x = other.x ∧ cell.z < other.z)

/-- The entries are strictly sorted by their cells. -/
def Sorted (entries : List CellEntry) : Prop :=
  entries.Pairwise fun first second => Before first.cellIndex second.cellIndex

/-- The chunk at an offset, in chunks, from the 27 of a call. -/
def chunkAt (chunks : Fin 27 → Chunk) (offset : UVec3) : Chunk :=
  chunks (Fin.ofNat 27 (dependencyOffsets.findIdx fun other => other == offset))

/-- The samples of a call: every other block is solid or not. -/
def blockSamples (chunks : Fin 27 → Chunk) : Samples :=
  coarser fun x y z => isBlockSolid (blockAt (chunkAt chunks) x y z)

/-- The corners of a cell, from the up to eight finer cells in it. -/
def finerMask (finer : Fin 8 → PseudoChunkData) (cell : UVec3) : BitVec 8 :=
  (CountedLoop.run 8 {} (collectFiner finer ⟨2 * cell.x, 2 * cell.y, 2 * cell.z⟩)).solidMask

/-- The input of the call says that there is this entry. -/
def Call.Describes : Call → CellEntry → Prop
  | .generateFromLod0 chunks _, entry =>
    InChunk entry.cellIndex ∧ Mixed (blockSamples chunks) entry.cellIndex ∧
      IsCornerMask entry.cornerSolidMask (blockSamples chunks) entry.cellIndex
  | .generateFromFinerLod finer, entry =>
    InChunk entry.cellIndex ∧ entry.cornerSolidMask = finerMask finer entry.cellIndex ∧
      ¬ (entry.cornerSolidMask = 0 ∨ entry.cornerSolidMask = 255)
  | .generateExternally cells, entry => entry ∈ cells

/-- Cells that are given from outside are sorted. -/
def Call.Proper : Call → Prop
  | .generateExternally cells => Sorted cells ∧ ∀ entry ∈ cells, InBytes entry.cellIndex
  | _ => True

/-- An object and the last call on it. -/
structure Session where
  data : PseudoChunkData := {}
  last : Option Call := none

namespace Session

def step (session : Session) (call : Call) : Option Session :=
  some { data := session.data.apply call, last := some call }

/-- Aggregation is only called on an object without entries. -/
def Fresh (session : Session) : Call → Prop
  | .generateFromFinerLod _ => session.data.cellEntries = []
  | _ => True

/-- The entries are sorted and those of the last call, and the search finds exactly them. -/
structure Good (session : Session) : Prop where
  sorted : Sorted session.data.cellEntries
  mem_iff : ∀ entry, entry ∈ session.data.cellEntries ↔
    ∃ call, session.last = some call ∧ call.Describes entry
  findEntry_iff : ∀ cell, InBytes cell → ∀ entry, session.data.findEntry cell = some entry ↔
    entry ∈ session.data.cellEntries ∧ entry.cellIndex = cell

end Session

/-! ## What the calls store -/

variable {data : PseudoChunkData} {cell other : UVec3}

theorem collectDependencies_chunkAt (chunks : Fin 27 → Chunk) :
    collectDependencies (chunkAt chunks) = chunks := by
  have place : ∀ i : Fin 27, Fin.ofNat 27 (dependencyOffsets.findIdx fun other =>
      other == dependencyOffset i) = i := by decide
  funext i
  rw [collectDependencies, chunkAt, place]

theorem before_iff (inside : InBytes cell) (otherInside : InBytes other) :
    CellEntry.projection cell < CellEntry.projection other ↔ Before cell other := by
  rw [inside.projection_eq, otherInside.projection_eq, Before]
  obtain ⟨xBound, -, zBound⟩ := inside
  obtain ⟨xBound', -, zBound'⟩ := otherInside
  omega

theorem findEntry_of_sorted (sorted : Sorted data.cellEntries)
    (bytes : ∀ entry ∈ data.cellEntries, InBytes entry.cellIndex) (inside : InBytes cell)
    (entry : CellEntry) : data.findEntry cell = some entry ↔
      entry ∈ data.cellEntries ∧ entry.cellIndex = cell := by
  have increasing : data.cellEntries.Pairwise fun first second =>
      CellEntry.projection first.cellIndex < CellEntry.projection second.cellIndex :=
    sorted.imp_of_mem fun mem mem' => (before_iff (bytes _ mem) (bytes _ mem')).mpr
  rw [findEntry, LowerBound.find_eq_some_iff increasing]
  exact and_congr_right fun mem =>
    ⟨fun same => (bytes entry mem).projection_injective inside same, congrArg _⟩

theorem sorted_of_projection {entries : List CellEntry}
    (inChunk : ∀ entry ∈ entries, InChunk entry.cellIndex)
    (increasing : entries.Pairwise fun first second =>
      CellEntry.projection first.cellIndex < CellEntry.projection second.cellIndex) :
    Sorted entries :=
  increasing.imp_of_mem fun mem mem' =>
    (before_iff (inChunk _ mem).inBytes (inChunk _ mem').inBytes).mp

/-- The cells that an aggregation adds. -/
def finerCells (finer : Fin 8 → PseudoChunkData) : List CellEntry :=
  (List.range chunkSizeBlocks).flatMap fun y => (List.range chunkSizeBlocks).flatMap fun x =>
    (List.range chunkSizeBlocks).flatMap fun z => cellOf x y z (finerMask finer ⟨x, y, z⟩)

theorem generateFromFinerLod_entries (data : PseudoChunkData) (finer : Fin 8 → PseudoChunkData) :
    (data.generateFromFinerLod finer).cellEntries = data.cellEntries ++ finerCells finer :=
  forYXZ_entries chunkSizeBlocks data fun x y z => finerMask finer ⟨x, y, z⟩

theorem mem_finerCells {finer : Fin 8 → PseudoChunkData} {entry : CellEntry} :
    entry ∈ finerCells finer ↔ (Call.generateFromFinerLod finer).Describes entry := by
  simp only [finerCells, List.mem_flatMap, List.mem_range, mem_cellOf]
  constructor
  · rintro ⟨y, yBound, x, xBound, z, zBound, rfl, stored⟩
    exact ⟨⟨xBound, yBound, zBound⟩, rfl, stored⟩
  · rintro ⟨⟨xBound, yBound, zBound⟩, isMask, stored⟩
    rw [isMask] at stored
    refine ⟨_, yBound, _, xBound, _, zBound, ?_, stored⟩
    rw [← isMask]

theorem sorted_finerCells (finer : Fin 8 → PseudoChunkData) : Sorted (finerCells finer) :=
  sorted_of_projection (fun _ mem => (mem_finerCells.mp mem).1)
    (cells_sorted fun x y z => finerMask finer ⟨x, y, z⟩)

theorem Sorted.irrefl {entries : List CellEntry} {entry : CellEntry} (sorted : Sorted entries)
    (twice : List.Sublist [entry, entry] entries) : False := by
  have before : Before entry.cellIndex entry.cellIndex :=
    (List.pairwise_cons.mp (sorted.sublist twice)).1 entry (.head _)
  rcases before with less | ⟨-, less | ⟨-, less⟩⟩
  · exact Nat.lt_irrefl _ less
  · exact Nat.lt_irrefl _ less
  · exact Nat.lt_irrefl _ less

namespace Session

theorem good_of_describes {data : PseudoChunkData} {call : Call} (sorted : Sorted data.cellEntries)
    (mem_iff : ∀ entry, entry ∈ data.cellEntries ↔ call.Describes entry)
    (bytes : ∀ entry, call.Describes entry → InBytes entry.cellIndex) :
    Good { data := data, last := some call } where
  sorted := sorted
  mem_iff entry := by
    rw [mem_iff]
    exact ⟨fun describes => ⟨call, rfl, describes⟩, fun ⟨_, same, describes⟩ =>
      Option.some.inj same ▸ describes⟩
  findEntry_iff _ inside :=
    findEntry_of_sorted sorted (fun entry mem => bytes entry ((mem_iff entry).mp mem)) inside

/-- What one call leaves is good exactly if it is not an aggregation that adds to entries. -/
theorem good_step_iff (session : Session) {call : Call} (proper : call.Proper) :
    Good { data := session.data.apply call, last := some call } ↔ session.Fresh call := by
  cases call with
  | generateFromLod0 chunks uninitialised =>
    refine ⟨fun _ => trivial, fun _ => ?_⟩
    have stores := generateFromLod0_stores (chunkAt chunks) uninitialised
    rw [collectDependencies_chunkAt] at stores
    exact good_of_describes
      (sorted_of_projection (fun entry mem => ((stores.mem_iff entry).mp mem).1) stores.sorted)
      stores.mem_iff fun entry describes => describes.1.inBytes
  | generateExternally cells =>
    exact ⟨fun _ => trivial, fun _ => good_of_describes proper.1 (fun _ => Iff.rfl) proper.2⟩
  | generateFromFinerLod finer =>
    have entries := generateFromFinerLod_entries session.data finer
    constructor
    · intro good
      refine List.eq_nil_iff_forall_not_mem.mpr fun entry old => ?_
      obtain ⟨call, same, describes⟩ := (good.mem_iff entry).mp
        (by rw [apply, entries]; exact List.mem_append_left _ old)
      obtain rfl := Option.some.inj same
      have sorted := good.sorted
      rw [apply, entries] at sorted
      have twice : List.Sublist [entry, entry] (session.data.cellEntries ++ finerCells finer) :=
        (List.singleton_sublist.mpr old).append
          (List.singleton_sublist.mpr (mem_finerCells.mpr describes))
      exact sorted.irrefl twice
    · intro fresh
      rw [Fresh] at fresh
      rw [fresh, List.nil_append] at entries
      refine good_of_describes ?_ (fun entry => ?_) fun _ describes => describes.1.inBytes
      · rw [apply, entries]
        exact sorted_finerCells finer
      · rw [apply, entries]
        exact mem_finerCells

theorem good_start : Good {} where
  sorted := List.Pairwise.nil
  mem_iff _ := ⟨fun mem => absurd mem List.not_mem_nil, fun ⟨_, none_, _⟩ => nomatch none_⟩
  findEntry_iff _ inside :=
    findEntry_of_sorted List.Pairwise.nil (fun _ mem => absurd mem List.not_mem_nil) inside

/-- From a good session on, good is what is reached by calls that are fresh. -/
theorem stepsMeet_iff_good {session : Session} (good : Good session) {calls : List Call}
    (proper : ∀ call ∈ calls, call.Proper) :
    Runs.StepsMeet step Fresh session calls ↔ ∀ before session', before <+: calls →
      Runs.run step session before = some session' → Good session' := by
  induction calls generalizing session with
  | nil =>
    refine ⟨fun _ before session' isPrefix reached => ?_, fun _ => trivial⟩
    rw [List.prefix_nil.mp isPrefix] at reached
    obtain rfl := Option.some.inj reached
    exact good
  | cons call calls ih =>
    have next := good_step_iff session (proper call (.head _))
    have rest : ∀ other ∈ calls, other.Proper := fun other mem => proper other (.tail _ mem)
    constructor
    · rintro ⟨fresh, meets⟩ before session' isPrefix reached
      rcases List.prefix_cons_iff.mp isPrefix with rfl | ⟨before, rfl, shorter⟩
      · obtain rfl := Option.some.inj reached
        exact good
      · exact (ih (next.mpr fresh) rest).mp meets before session' shorter reached
    · intro always
      have first := always [call] _ ⟨calls, rfl⟩ rfl
      refine ⟨next.mp first, (ih first rest).mpr fun before session' isPrefix reached => ?_⟩
      exact always (call :: before) session' ((List.prefix_cons_inj call).mpr isPrefix) reached

/-- The entries stay sorted, those of the last call and what is found, in all states of a run,
exactly if no aggregation is called on an object that has entries. -/
theorem run_good_iff {calls : List Call} (proper : ∀ call ∈ calls, call.Proper) :
    Runs.StepsMeet step Fresh {} calls ↔ ∀ before session', before <+: calls →
      Runs.run step {} before = some session' → Good session' :=
  stepsMeet_iff_good good_start proper

/-- One cell from outside, then the aggregation of empty pseudo-chunks. -/
def leftoverCalls : List Call :=
  [.generateExternally [⟨⟨0, 0, 0⟩, 1⟩], .generateFromFinerLod fun _ => {}]

theorem leftoverCalls_proper : ∀ call ∈ leftoverCalls, call.Proper := by
  simp [leftoverCalls, Call.Proper, Sorted, InBytes]

theorem leftoverCalls_iff :
    Runs.StepsMeet step Fresh {} leftoverCalls ↔ ∀ before session', before <+: leftoverCalls →
      Runs.run step {} before = some session' → Good session' :=
  run_good_iff leftoverCalls_proper

/-- The cell is still there after the aggregation. -/
theorem leftover_kept :
    ¬ ∀ calls : List Call, (∀ call ∈ calls, call.Proper) → ∀ session',
      Runs.run step {} calls = some session' → Good session' := by
  intro always
  have good := always leftoverCalls leftoverCalls_proper _ rfl
  have proper : (Call.generateFromFinerLod fun _ => {}).Proper := trivial
  have fresh := (good_step_iff { data := generateExternally [⟨⟨0, 0, 0⟩, 1⟩] } proper).mp good
  cases fresh

end Session

end Voxen.Land.PseudoChunkData
