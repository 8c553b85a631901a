import Voxen.Terrain.ControllerTicks

/-!
# Chunks on returned lists

Every block has a chunk object of its own, and blocks that are not loading have chunks
whose loads are finished.  So only a cache hit changes the data of a chunk on a list, by
taking it.
-/

namespace Voxen.Terrain

open Function (update update_of_ne update_self)
open Outcome
open Land (ChunkKey IVec3)

variable {Position Primary Surface : Type}

/-- What a step of a load does to the other chunks. -/
structure Advanced (loader loader' : TerrainLoader Primary Surface) : Prop where
  nextObject : loader'.nextObject = loader.nextObject
  finished : ∀ ptr, loader.stages ptr = some .finished → loader'.stages ptr = some .finished
  none : ∀ ptr, loader.stages ptr = none → loader'.stages ptr = none
  taken : ∀ ptr ∈ loader.taken, ptr ∈ loader'.taken
  chunks : ∀ ptr, loader.stages ptr = some .finished → ptr ∉ loader'.taken →
    loader'.chunks ptr = loader.chunks ptr

theorem Advanced.refl (loader : TerrainLoader Primary Surface) : Advanced loader loader where
  nextObject := rfl
  finished := fun _ same => same
  none := fun _ same => same
  taken := fun _ mem => mem
  chunks := fun _ _ _ => rfl

theorem stages_update {stages : ChunkPtr → Option LoadStage} {ptr : ChunkPtr} {stage : LoadStage}
    (here : stages ptr = some stage) (running : stage ≠ .finished) (next : LoadStage) :
    (∀ other, stages other = some .finished →
        other ≠ ptr ∧ update stages ptr (some next) other = some .finished) ∧
      ∀ other, stages other = none → update stages ptr (some next) other = none := by
  refine ⟨fun other finished => ?_, fun other missing => ?_⟩
  · have apart : other ≠ ptr := by
      rintro rfl
      exact running (Option.some.inj (here.symm.trans finished))
    exact ⟨apart, (update_of_ne apart _ _).trans finished⟩
  · have apart : other ≠ ptr := by
      rintro rfl
      rw [here] at missing
      cases missing
    exact (update_of_ne apart _ _).trans missing

theorem advance_spec (generator : Generator Primary Surface)
    (loader : TerrainLoader Primary Surface) (ptr : ChunkPtr) :
    Holds (fun _ => True) (Advanced loader) (loader.advance generator ptr) := by
  unfold TerrainLoader.advance
  split
  · rename_i queued
    obtain ⟨finished, missing⟩ := stages_update queued (by decide) .entered
    split
    · trivial
    · exact
        { Advanced.refl loader with
          finished := fun other same => (finished other same).2
          none := missing }
  · rename_i entered
    split
    · rename_i other cache hit
      obtain ⟨finished, missing⟩ := stages_update entered (by decide) .finished
      split
      · refine
          { Advanced.refl loader with
            finished := fun other same => (finished other same).2
            none := missing
            taken := fun _ mem => List.mem_cons_of_mem _ mem
            chunks := fun third same untaken => ?_ }
        have apart : third ≠ other := List.ne_of_not_mem_cons untaken
        unfold TerrainLoader.moveAssign
        exact (update_of_ne apart _ _).trans
          (update_of_ne (finished third same).1 _ _)
      · trivial
    · obtain ⟨finished, missing⟩ := stages_update entered (by decide) .generating
      exact
        { Advanced.refl loader with
          finished := fun other same => (finished other same).2
          none := missing }
  · rename_i generating
    obtain ⟨finished, missing⟩ := stages_update generating (by decide) .finished
    exact
      { Advanced.refl loader with
        finished := fun other same => (finished other same).2
        none := missing
        chunks := fun other same _ => update_of_ne (finished other same).1 _ _ }
  · exact Advanced.refl loader
  · exact Advanced.refl loader

/-! ## Objects of blocks -/

/-- The blocks have objects of their own, which their loads have filled unless they are loading. -/
structure ObjectsInv (walk : Walk Primary Surface) (blocks : List BlockInfo) : Prop where
  distinct : (blocks.map fun info => info.chunk.object).Nodup
  known : ∀ info ∈ blocks, info.chunk.object < walk.loader.nextObject
  fresh : ∀ ptr, walk.loader.stages ptr ≠ none → ptr.object < walk.loader.nextObject
  tied : ∀ info ∈ blocks, info.state = .loading →
    walk.asyncChunkLoads info.chunk.id = some info.chunk
  loaded : ∀ info ∈ blocks, info.state ≠ .loading →
    walk.loader.stages info.chunk = some .finished

section Objects

variable {generator : Generator Primary Surface} {walk : Walk Primary Surface}
  {blocks : List BlockInfo} {info : BlockInfo}

theorem ObjectsInv.perm {blocks' : List BlockInfo} (perm : List.Perm blocks blocks')
    (inv : ObjectsInv walk blocks) : ObjectsInv walk blocks' where
  distinct := (perm.map _).nodup_iff.mp inv.distinct
  known := fun info mem => inv.known info (perm.mem_iff.mpr mem)
  fresh := inv.fresh
  tied := fun info mem => inv.tied info (perm.mem_iff.mpr mem)
  loaded := fun info mem => inv.loaded info (perm.mem_iff.mpr mem)

theorem ObjectsInv.advance (inv : ObjectsInv walk blocks) {loader : TerrainLoader Primary Surface}
    (advanced : Advanced walk.loader loader) :
    ObjectsInv { walk with loader := loader } blocks where
  distinct := inv.distinct
  known := fun info mem => advanced.nextObject ▸ inv.known info mem
  fresh := by
    intro ptr some
    have known := inv.fresh ptr fun missing => some (advanced.none ptr missing)
    exact advanced.nextObject ▸ known
  tied := inv.tied
  loaded := fun info mem loaded => advanced.finished _ (inv.loaded info mem loaded)

theorem ObjectsInv.enqueue (inv : ObjectsInv walk blocks) (id : ChunkKey) :
    Holds (fun _ => True) (fun entry => ObjectsInv entry.1 (entry.2 :: blocks))
      (walk.enqueueLoadingChunk generator id) := by
  unfold Walk.enqueueLoadingChunk TerrainLoader.allocateChunk
  dsimp only
  split
  · trivial
  · rename_i unused
    have newer : ∀ info ∈ blocks,
        info.chunk ≠ { object := walk.loader.nextObject, id := id } := by
      intro info mem same
      exact absurd (inv.known info mem) (by rw [same]; exact Nat.lt_irrefl _)
    refine
      { distinct := List.nodup_cons.mpr ⟨fun mem => ?_, inv.distinct⟩
        known := List.forall_mem_cons.mpr ⟨Nat.lt_succ_self _, fun info mem =>
          Nat.lt_succ_of_lt (inv.known info mem)⟩
        fresh := fun ptr some => ?_
        tied := List.forall_mem_cons.mpr ⟨fun _ => update_self _ _ _,
          fun info mem loading => ?_⟩
        loaded := List.forall_mem_cons.mpr ⟨fun absurd => (absurd rfl).elim,
          fun info mem loaded => ?_⟩ }
    · obtain ⟨info, mem, same⟩ := List.mem_map.mp mem
      exact absurd (inv.known info mem) (same ▸ Nat.lt_irrefl _)
    · by_cases new : ptr = { object := walk.loader.nextObject, id := id }
      · rw [new]
        exact Nat.lt_succ_self _
      · dsimp only at some
        rw [update_of_ne new] at some
        exact Nat.lt_succ_of_lt (inv.fresh ptr some)
    · have tied := inv.tied info mem loading
      have other : info.chunk.id ≠ id := by
        rintro rfl
        exact unused (by rw [tied]; rfl)
      exact (update_of_ne other _ _).trans tied
    · exact (update_of_ne (newer info mem) _ _).trans (inv.loaded info mem loaded)

theorem ObjectsInv.unload (inv : ObjectsInv walk (info :: blocks)) :
    Holds (fun _ => True) (fun walk => ObjectsInv walk blocks) (walk.unload info.chunk) := by
  have gone : ObjectsInv walk blocks :=
    { distinct := (List.nodup_cons.mp inv.distinct).2
      known := (List.forall_mem_cons.mp inv.known).2
      fresh := inv.fresh
      tied := (List.forall_mem_cons.mp inv.tied).2
      loaded := (List.forall_mem_cons.mp inv.loaded).2 }
  unfold Walk.unload TerrainLoader.unload
  split
  · split
    · exact { gone with }
    · trivial
  · trivial

theorem ObjectsInv.finish (inv : ObjectsInv walk (info :: blocks)) {handle : ChunkPtr}
    (loading : info.state = .loading) (running : walk.asyncChunkLoads info.chunk.id = some handle)
    (finished : walk.loader.stages handle = some .finished) :
    ObjectsInv
      { walk with asyncChunkLoads := update walk.asyncChunkLoads info.chunk.id none }
      ({ info with state := .standby } :: blocks) := by
  obtain ⟨here, tied⟩ := List.forall_mem_cons.mp inv.tied
  obtain ⟨_, loaded⟩ := List.forall_mem_cons.mp inv.loaded
  have own : info.chunk = handle := Option.some.inj ((here loading).symm.trans running)
  refine
    { distinct := inv.distinct
      known := List.forall_mem_cons.mpr (List.forall_mem_cons.mp inv.known)
      fresh := inv.fresh
      tied := List.forall_mem_cons.mpr ⟨fun absurd => (by cases absurd), fun other mem load => ?_⟩
      loaded := List.forall_mem_cons.mpr ⟨fun _ => own ▸ finished, loaded⟩ }
  have apart : other.chunk.id ≠ info.chunk.id := by
    intro same
    have one : other.chunk = info.chunk := by
      refine Option.some.inj ((tied other mem load).symm.trans ?_)
      rw [same]
      exact here loading
    exact (List.nodup_cons.mp inv.distinct).1
      (List.mem_map.mpr ⟨other, mem, congrArg ChunkPtr.object one⟩)
  exact (update_of_ne apart _ _).trans (tied other mem load)

theorem ObjectsInv.flags {info' : BlockInfo} (inv : ObjectsInv walk (info :: blocks))
    (chunk : info'.chunk = info.chunk) (loading : info'.state = .loading ↔ info.state = .loading) :
    ObjectsInv walk (info' :: blocks) where
  distinct := by
    rw [List.map_cons, chunk]
    exact inv.distinct
  known := by
    obtain ⟨here, rest⟩ := List.forall_mem_cons.mp inv.known
    exact List.forall_mem_cons.mpr ⟨chunk ▸ here, rest⟩
  fresh := inv.fresh
  tied := by
    obtain ⟨here, rest⟩ := List.forall_mem_cons.mp inv.tied
    exact List.forall_mem_cons.mpr ⟨fun load => chunk ▸ here (loading.mp load), rest⟩
  loaded := by
    obtain ⟨here, rest⟩ := List.forall_mem_cons.mp inv.loaded
    exact List.forall_mem_cons.mpr
      ⟨fun load => chunk ▸ here fun still => load (loading.mpr still), rest⟩

end Objects

/-! ## Held lists -/

/-- The entries of the lists that are held. -/
abbrev Held (Primary Surface : Type) := List (List (ChunkPtr × Chunk Primary Surface))

/-- The chunks on held lists have been loaded, and keep their data unless a hit takes one. -/
structure Snapshots (held : Held Primary Surface) (walk : Walk Primary Surface) : Prop where
  finished : ∀ list ∈ held, ∀ entry ∈ list, walk.loader.stages entry.1 = some .finished
  same : (∀ list ∈ held, ∀ entry ∈ list, entry.1 ∉ walk.loader.taken) →
    ∀ list ∈ held, ∀ entry ∈ list, walk.loader.chunks entry.1 = entry.2

section Held

variable {held : Held Primary Surface} {walk : Walk Primary Surface}

theorem Snapshots.nil (walk : Walk Primary Surface) : Snapshots [] walk where
  finished := fun _ absurd => (List.not_mem_nil absurd).elim
  same := fun _ _ absurd => (List.not_mem_nil absurd).elim

theorem Snapshots.advance (snapshots : Snapshots held walk)
    {loader : TerrainLoader Primary Surface} (advanced : Advanced walk.loader loader) :
    Snapshots held { walk with loader := loader } where
  finished := fun list mem entry there =>
    advanced.finished _ (snapshots.finished list mem entry there)
  same := by
    intro untaken list mem entry there
    have before : ∀ list ∈ held, ∀ entry ∈ list, entry.1 ∉ walk.loader.taken :=
      fun list mem entry there took => untaken list mem entry there (advanced.taken _ took)
    have kept := advanced.chunks entry.1 (snapshots.finished list mem entry there)
      (untaken list mem entry there)
    exact kept.trans (snapshots.same before list mem entry there)

theorem Snapshots.enqueue {generator : Generator Primary Surface} {blocks : List BlockInfo}
    (snapshots : Snapshots held walk) (inv : ObjectsInv walk blocks) (id : ChunkKey) :
    Holds (fun _ => True) (fun entry => Snapshots held entry.1)
      (walk.enqueueLoadingChunk generator id) := by
  have newer : ∀ list ∈ held, ∀ entry ∈ list,
      entry.1 ≠ { object := walk.loader.nextObject, id := id } := by
    intro list mem entry there same
    have known := inv.fresh entry.1 (by
      rw [snapshots.finished list mem entry there]
      exact Option.some_ne_none _)
    rw [same] at known
    exact absurd known (Nat.lt_irrefl _)
  unfold Walk.enqueueLoadingChunk TerrainLoader.allocateChunk
  dsimp only
  split
  · trivial
  · exact
      { finished := fun list mem entry there =>
          (update_of_ne (newer list mem entry there) _ _).trans
            (snapshots.finished list mem entry there)
        same := fun untaken list mem entry there =>
          (update_of_ne (newer list mem entry there) _ _).trans
            (snapshots.same untaken list mem entry there) }

theorem Snapshots.unload (snapshots : Snapshots held walk) (ptr : ChunkPtr) :
    Holds (fun _ => True) (fun walk => Snapshots held walk) (walk.unload ptr) := by
  unfold Walk.unload TerrainLoader.unload
  split
  · split
    · exact { snapshots with }
    · trivial
  · trivial

end Held

/-- The walk keeps the objects of the blocks and the data on held lists. -/
theorem snapshotsRule (generator : Generator Primary Surface) (held : Held Primary Surface) :
    WalkRule generator (fun _ => True) False
      fun walk blocks => ObjectsInv walk blocks ∧ Snapshots held walk where
  state := trivial
  perm := fun perm inv => ⟨inv.1.perm perm, inv.2⟩
  counters := fun _ _ _ inv => ⟨{ inv.1 with }, { inv.2 with }⟩
  advance := fun ptr inv => (advance_spec generator _ ptr).mono fun _ advanced =>
    ⟨inv.1.advance advanced, inv.2.advance advanced⟩
  enqueue := fun id inv _ => (inv.1.enqueue id).and (inv.2.enqueue inv.1 id)
  unload := fun inv _ => inv.1.unload.and (inv.2.unload _)
  missing := fun _ _ _ => trivial
  loaded := fun inv loading running finished =>
    ⟨inv.1.finish loading running finished, { inv.2 with }⟩
  flags := fun inv chunk loading => ⟨inv.1.flags chunk loading, inv.2⟩

theorem ControlBlock.mem_activeChunks {block : ControlBlock} {hasSurface : ChunkPtr → Bool}
    {ptr : ChunkPtr} (mem : ptr ∈ block.activeChunks hasSurface) :
    ∃ info ∈ block.infos, info.state = .active ∧ info.chunk = ptr := by
  induction block with
  | absent => exact (List.not_mem_nil mem).elim
  | node info children ih =>
    unfold ControlBlock.activeChunks at mem
    split at mem
    · rename_i active
      refine ⟨info, List.mem_cons_self, active, ?_⟩
      split at mem
      · exact (List.mem_singleton.mp mem).symm
      · exact (List.not_mem_nil mem).elim
    · obtain ⟨i, _, mem⟩ := List.mem_flatMap.mp mem
      obtain ⟨other, there, rest⟩ := ih i mem
      exact ⟨other, List.mem_cons_of_mem _
        (List.mem_flatMap.mpr ⟨i, List.mem_finRange i, there⟩), rest⟩

namespace Controller

/-! ## Runs -/

variable {world : World Position Primary Surface}
  {controller controller' : Controller Position Primary Surface} {action : Action Position}

/-- No cache hit of the action takes the data of a chunk on a list that is held. -/
def TakesUnheld (world : World Position Primary Surface)
    (controller : Controller Position Primary Surface) (action : Action Position) : Prop :=
  match step world controller action with
  | .error _ => True
  | .ok controller' =>
    ∀ list ∈ controller.held, ∀ entry ∈ list, entry.1 ∉ controller'.walk.loader.taken

instance TakesUnheld.decidable (world : World Position Primary Surface)
    (controller : Controller Position Primary Surface) (action : Action Position) :
    Decidable (TakesUnheld world controller action) := by
  unfold TakesUnheld
  cases step world controller action with
  | error fault => exact isTrue trivial
  | ok controller' => exact inferInstanceAs (Decidable (∀ list ∈ controller.held, _))

/-- What holds in every state. -/
structure BlocksInv (controller : Controller Position Primary Surface) : Prop where
  placed : Placed controller.superchunks
  objects : ObjectsInv controller.walk (infos controller.superchunks)

/-- What holds as long as hits take no chunks on lists. -/
structure ListsInv (controller : Controller Position Primary Surface) : Prop extends
    BlocksInv controller where
  finished : ∀ list ∈ controller.held, ∀ entry ∈ list,
    controller.walk.loader.stages entry.1 = some .finished
  same : ∀ list ∈ controller.held, ∀ entry ∈ list,
    controller.walk.loader.chunks entry.1 = entry.2

theorem ListsInv.new (world : World Position Primary Surface) : ListsInv (new world) where
  placed := ⟨List.nodup_nil, fun _ absurd => (List.not_mem_nil absurd).elim⟩
  objects :=
    { distinct := List.nodup_nil
      known := fun _ absurd => (List.not_mem_nil absurd).elim
      fresh := fun _ absurd => (absurd rfl).elim
      tied := fun _ absurd => (List.not_mem_nil absurd).elim
      loaded := fun _ absurd => (List.not_mem_nil absurd).elim }
  finished := fun _ absurd => (List.not_mem_nil absurd).elim
  same := fun _ absurd => (List.not_mem_nil absurd).elim

theorem BlocksInv.step (inv : BlocksInv controller) {held : Held Primary Surface}
    (snapshots : Snapshots held controller.forgetTaken.walk)
    (taken : step world controller action = .ok controller') :
    BlocksInv controller' ∧ Snapshots held controller'.walk ∧
      ∀ list ∈ controller'.held, list ∈ controller.held ∨
        ∀ entry ∈ list, controller'.walk.loader.chunks entry.1 = entry.2 ∧
          controller'.walk.loader.stages entry.1 = some .finished := by
  have objects : ObjectsInv controller.forgetTaken.walk (infos controller.superchunks) :=
    { inv.objects with }
  unfold Controller.step at taken
  cases action with
  | setPointOfInterest id position =>
    cases taken
    exact ⟨⟨inv.placed, objects⟩, snapshots, fun _ mem => Or.inl mem⟩
  | doTick env =>
    have placed : Placed controller.forgetTaken.superchunks := inv.placed
    have ticked := doTick_rule (snapshotsRule world.toGenerator held)
      (fun careful => careful.elim) placed ⟨objects, snapshots⟩ env
    dsimp only at taken
    cases outcome : doTick world env controller.forgetTaken with
    | error fault =>
      rw [outcome] at taken
      cases taken
    | ok result =>
      rw [outcome] at taken ticked
      obtain ⟨placed, ⟨objects, kept⟩, same, list⟩ := ticked
      cases taken
      refine ⟨⟨placed, objects⟩, kept, fun list mem => ?_⟩
      rcases List.mem_cons.mp mem with rfl | mem
      · refine Or.inr (List.forall_mem_map.mpr fun ptr there => ⟨rfl, ?_⟩)
        rw [list] at there
        obtain ⟨entry, mem, there⟩ := List.mem_flatMap.mp there
        obtain ⟨info, known, active, rfl⟩ := ControlBlock.mem_activeChunks there
        refine objects.loaded info (List.mem_flatMap.mpr ⟨entry, mem, known⟩) ?_
        rw [active]
        decide
      · rw [same] at mem
        exact Or.inl mem
  | advance ptr =>
    have advanced := advance_spec world.toGenerator controller.forgetTaken.walk.loader ptr
    dsimp only at taken
    cases outcome : controller.forgetTaken.walk.loader.advance world.toGenerator ptr with
    | error fault =>
      rw [outcome] at taken
      cases taken
    | ok loader =>
      rw [outcome] at taken advanced
      cases taken
      exact ⟨⟨inv.placed, objects.advance advanced⟩, snapshots.advance advanced,
        fun _ mem => Or.inl mem⟩
  | release index =>
    cases taken
    exact ⟨⟨inv.placed, objects⟩, snapshots, fun _ mem =>
      Or.inl (List.mem_of_mem_eraseIdx mem)⟩

theorem ListsInv.step (inv : ListsInv controller) (unheld : TakesUnheld world controller action)
    (taken : step world controller action = .ok controller') : ListsInv controller' := by
  have snapshots : Snapshots controller.held controller.forgetTaken.walk :=
    ⟨inv.finished, fun _ => inv.same⟩
  obtain ⟨blocks, kept, lists⟩ := inv.toBlocksInv.step snapshots taken
  unfold TakesUnheld at unheld
  rw [taken] at unheld
  have same := kept.same unheld
  refine { blocks with finished := fun list mem => ?_, same := fun list mem => ?_ }
  · exact (lists list mem).elim (kept.finished list) fun new entry there => (new entry there).2
  · exact (lists list mem).elim (same list) fun new entry there => (new entry there).1

/-- All chunks get the same data, and a position engages the superchunk it is the base of. -/
def uniformWorld : World IVec3 Nat Nat where
  noPrimaryData := 0
  noSurface := 0
  generate := fun _ _ => 1
  buildSurface := fun primaryData _ => primaryData
  hermiteDataEmpty := fun primaryData => primaryData == 0
  engageMin := id
  engageMax := id

/-- A tick in which all level of detail directions have one value. -/
def uniformTick (lodDirection : Nat) : Action IVec3 :=
  .doTick { lodDirections := fun _ => lodDirection }

def originBase : IVec3 := { x := 0, y := 0, z := 0 }

def farBase : IVec3 := { x := 4, y := 0, z := 0 }

/-- The load of the root, once it is enqueued. -/
def loadRoot : List (Action IVec3) :=
  List.replicate 3 (.advance { object := 0, id := superchunkKey originBase })

/-- The loads of the children of the root, which have objects from a number on. -/
def loadChildren (object : Nat) : List (Action IVec3) :=
  (List.finRange 8).flatMap fun i => List.replicate 3
    (.advance { object := object + i.val, id := (superchunkKey originBase).childLodKey i })

/-- The root of a superchunk is loaded and becomes active. -/
def activateRoot : List (Action IVec3) :=
  [.setPointOfInterest 0 originBase, uniformTick 12] ++ loadRoot ++ [uniformTick 12, uniformTick 12]

/-- The children of the root are loaded and take its place, go to the cache while the point of
interest is far away, and are loaded again when it comes back. -/
def reloadActions : List (Action IVec3) :=
  activateRoot ++ [uniformTick 0] ++ loadChildren 1 ++ [uniformTick 0, uniformTick 0] ++
    [.setPointOfInterest 0 farBase, uniformTick 13, uniformTick 13] ++
    [.setPointOfInterest 0 originBase, uniformTick 0] ++ loadChildren 10

/-- The chunks on lists that are held keep their data. -/
def ListsKept (world : World Position Primary Surface) : Prop :=
  ∀ actions controller, run world actions = some controller →
    ∀ list ∈ controller.held, ∀ entry ∈ list,
      (controller.walk.loader.chunks entry.1).primaryData = entry.2.primaryData ∧
      (controller.walk.loader.chunks entry.1).surface = entry.2.surface

theorem run_blocksInv {actions : List (Action Position)}
    (reached : run world actions = some controller) : BlocksInv controller := by
  refine Runs.run_preserved (fun state action state' inv taken => ?_)
    (ListsInv.new world).toBlocksInv reached
  exact (inv.step (Snapshots.nil _) (eq_ok_of_toOption taken)).1

end Controller

end Voxen.Terrain
