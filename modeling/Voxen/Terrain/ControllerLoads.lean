import Voxen.Terrain.ControllerSnapshots

/-!
# Running loads

As long as no block is unloaded while it is loading, and no two superchunks have the same
key, the map of running loads has the keys of the loading blocks, and the loader meets its
assertions.
-/

namespace Voxen.Terrain

open Function (update update_of_ne update_self update_apply update_eq_self)
open Outcome
open Land (ChunkKey IVec3)

variable {Position Primary Surface : Type}

/-- What the loads have to do with the blocks. -/
structure LoadsInv (walk : Walk Primary Surface) (blocks : List BlockInfo) : Prop where
  keys : (blocks.map fun info => info.chunk.id).Nodup
  running : ∀ key ptr, walk.asyncChunkLoads key = some ptr →
    ∃ info ∈ blocks, info.state = .loading ∧ info.chunk = ptr ∧ info.chunk.id = key
  tasks : ∀ ptr, walk.loader.isLoading ptr = true →
    ∃ info ∈ blocks, info.state = .loading ∧ info.chunk = ptr
  loadedChunks : ∀ key, key ∈ walk.loader.loadedChunks ↔
    ∃ info ∈ blocks, info.chunk.id = key ∧ walk.loader.stages info.chunk ≠ some .queued
  versions : ∀ ptr, (walk.loader.chunks ptr).version = 0
  unloaded : ∀ entry ∈ walk.loader.unloaded, entry.2 = false
  enqueued : ∀ entry ∈ walk.enqueued, entry.2 = false

section Loads

variable {generator : Generator Primary Surface} {walk : Walk Primary Surface}
  {blocks : List BlockInfo} {info : BlockInfo}

variable {ptr : ChunkPtr} {info' : BlockInfo}

theorem isLoading_iff {loader : TerrainLoader Primary Surface} :
    loader.isLoading ptr = true ↔ ∃ stage, loader.stages ptr = some stage ∧ stage ≠ .finished := by
  unfold TerrainLoader.isLoading
  cases loader.stages ptr with
  | none => simp
  | some stage => simp

theorem LoadsInv.unique (inv : LoadsInv walk blocks) (mem : info ∈ blocks) (mem' : info' ∈ blocks)
    (same : info.chunk.id = info'.chunk.id) : info = info' :=
  List.inj_on_of_nodup_map inv.keys mem mem' same

theorem LoadsInv.perm {blocks' : List BlockInfo} (perm : List.Perm blocks blocks')
    (inv : LoadsInv walk blocks) : LoadsInv walk blocks' :=
  { inv with
    keys := (perm.map _).nodup_iff.mp inv.keys
    running := fun key ptr some => by
      obtain ⟨info, mem, rest⟩ := inv.running key ptr some
      exact ⟨info, perm.mem_iff.mp mem, rest⟩
    tasks := fun ptr loading => by
      obtain ⟨info, mem, rest⟩ := inv.tasks ptr loading
      exact ⟨info, perm.mem_iff.mp mem, rest⟩
    loadedChunks := fun key => by
      rw [inv.loadedChunks key]
      exact ⟨fun ⟨info, mem, rest⟩ => ⟨info, perm.mem_iff.mp mem, rest⟩,
        fun ⟨info, mem, rest⟩ => ⟨info, perm.mem_iff.mpr mem, rest⟩⟩ }

/-- A load gets on; the id of its chunk is among the loaded ones from then on. -/
theorem LoadsInv.progress (inv : LoadsInv walk blocks) {stage next : LoadStage}
    (here : walk.loader.stages ptr = some stage) (running : stage ≠ .finished)
    (begun : next ≠ .queued) {loader : TerrainLoader Primary Surface}
    (stages : loader.stages = update walk.loader.stages ptr (some next))
    (same : ∀ key, key ∈ loader.loadedChunks ↔ key = ptr.id ∨ key ∈ walk.loader.loadedChunks)
    (versions : ∀ ptr, (loader.chunks ptr).version = 0)
    (unloaded : loader.unloaded = walk.loader.unloaded) :
    LoadsInv { walk with loader := loader } blocks := by
  obtain ⟨info, mem, loading, own⟩ := inv.tasks ptr (isLoading_iff.mpr ⟨stage, here, running⟩)
  refine
    { keys := inv.keys
      running := inv.running
      tasks := fun other loads => ?_
      loadedChunks := fun key => ?_
      versions := versions
      unloaded := unloaded ▸ inv.unloaded
      enqueued := inv.enqueued }
  · by_cases this : other = ptr
    · exact this ▸ ⟨info, mem, loading, own⟩
    · refine inv.tasks other (isLoading_iff.mpr ?_)
      obtain ⟨stage, some, unfinished⟩ := isLoading_iff.mp loads
      rw [stages, update_of_ne this] at some
      exact ⟨stage, some, unfinished⟩
  · rw [same, inv.loadedChunks, stages]
    constructor
    · rintro (rfl | ⟨info', mem', rfl, notQueued⟩)
      · refine ⟨info, mem, congrArg ChunkPtr.id own, ?_⟩
        rw [own, update_self]
        exact fun absurd => begun (Option.some.inj absurd)
      · refine ⟨info', mem', rfl, ?_⟩
        by_cases this : info'.chunk = ptr
        · rw [this, update_self]
          exact fun absurd => begun (Option.some.inj absurd)
        · rw [update_of_ne this]
          exact notQueued
    · rintro ⟨info', mem', rfl, notQueued⟩
      by_cases this : info'.chunk = ptr
      · exact Or.inl (congrArg ChunkPtr.id this)
      · rw [update_of_ne this] at notQueued
        exact Or.inr ⟨info', mem', rfl, notQueued⟩

/-- The faults that a careful run may have. -/
abbrev OnlyStates (fault : Fault) : Prop := fault = .state

theorem moveAssign_version {chunks : ChunkPtr → Chunk Primary Surface}
    (versions : ∀ ptr, (chunks ptr).version = 0) (ptr other third : ChunkPtr) :
    (TerrainLoader.moveAssign chunks ptr other third).version = 0 := by
  unfold TerrainLoader.moveAssign
  rw [update_apply, update_apply]
  split
  · exact versions other
  · split
    · exact versions other
    · exact versions third

theorem LoadsInv.begun_known (inv : LoadsInv walk blocks) {stage : LoadStage}
    (here : walk.loader.stages ptr = some stage) (running : stage ≠ .finished)
    (begun : stage ≠ .queued) (key : ChunkKey) :
    key ∈ walk.loader.loadedChunks ↔ key = ptr.id ∨ key ∈ walk.loader.loadedChunks := by
  obtain ⟨info, mem, _, own⟩ := inv.tasks ptr (isLoading_iff.mpr ⟨stage, here, running⟩)
  refine ⟨Or.inr, fun either => either.elim ?_ id⟩
  rintro rfl
  refine (inv.loadedChunks ptr.id).mpr ⟨info, mem, congrArg ChunkPtr.id own, ?_⟩
  rw [own, here]
  exact fun absurd => begun (Option.some.inj absurd)

theorem LoadsInv.advance (inv : LoadsInv walk blocks) (ptr : ChunkPtr) :
    Holds OnlyStates (fun loader => LoadsInv { walk with loader := loader } blocks)
      (walk.loader.advance generator ptr) := by
  unfold TerrainLoader.advance
  split
  · rename_i queued
    split
    · rename_i twice
      obtain ⟨info, mem, _, own⟩ := inv.tasks ptr (isLoading_iff.mpr ⟨_, queued, by decide⟩)
      obtain ⟨info', mem', key, notQueued⟩ := (inv.loadedChunks ptr.id).mp twice
      have same := inv.unique mem' mem (key.trans (congrArg ChunkPtr.id own).symm)
      rw [same, own] at notQueued
      exact absurd queued notQueued
    · exact inv.progress queued (by decide) (by decide) rfl (fun _ => List.mem_cons) inv.versions
        rfl
  · rename_i entered
    have same := inv.begun_known entered (by decide) (by decide)
    split
    · rename_i other cache hit
      split
      · exact inv.progress entered (by decide) (by decide) rfl same
          (moveAssign_version inv.versions ptr other) rfl
      · rename_i different
        exact absurd (ChunkCache.tryLoad_id hit).symm different
    · exact inv.progress entered (by decide) (by decide) rfl same inv.versions rfl
  · rename_i generating
    have same := inv.begun_known generating (by decide) (by decide)
    refine inv.progress generating (by decide) (by decide) rfl same (fun other => ?_) rfl
    dsimp only
    rw [update_apply]
    split
    · exact inv.versions ptr
    · exact inv.versions other
  · exact inv
  · exact inv

theorem LoadsInv.enqueue (inv : LoadsInv walk blocks) {id : ChunkKey}
    (fresh : ∀ info ∈ blocks, info.chunk.id ≠ id) :
    Holds OnlyStates (fun entry => LoadsInv entry.1 (entry.2 :: blocks))
      (walk.enqueueLoadingChunk generator id) := by
  have none : walk.asyncChunkLoads id = none := by
    cases some : walk.asyncChunkLoads id with
    | none => rfl
    | some ptr =>
      obtain ⟨info, mem, _, _, key⟩ := inv.running id ptr some
      exact absurd key (fresh info mem)
  have unloaded : walk.loader.hasLoad id = false := by
    refine Bool.eq_false_iff.mpr fun load => ?_
    obtain ⟨object, _, loading⟩ := List.any_eq_true.mp load
    obtain ⟨info, mem, _, own⟩ := inv.tasks _ loading
    exact fresh info mem (congrArg ChunkPtr.id own)
  have older : ∀ info ∈ blocks, info.chunk ≠ { object := walk.loader.nextObject, id := id } :=
    fun info mem same => fresh info mem (congrArg ChunkPtr.id same)
  unfold Walk.enqueueLoadingChunk TerrainLoader.allocateChunk
  dsimp only
  rw [none, if_neg (by simp)]
  refine
    { keys := List.nodup_cons.mpr ⟨fun mem => ?_, inv.keys⟩
      running := fun key ptr some => ?_
      tasks := fun ptr loading => ?_
      loadedChunks := fun key => ?_
      versions := fun ptr => ?_
      unloaded := inv.unloaded
      enqueued := List.forall_mem_cons.mpr ⟨unloaded, inv.enqueued⟩ }
  · obtain ⟨info, mem, same⟩ := List.mem_map.mp mem
    exact fresh info mem same
  · by_cases this : key = id
    · subst this
      dsimp only at some
      rw [update_self] at some
      exact ⟨_, List.mem_cons_self, rfl, Option.some.inj some, rfl⟩
    · dsimp only at some
      rw [update_of_ne this] at some
      obtain ⟨info, mem, rest⟩ := inv.running key ptr some
      exact ⟨info, List.mem_cons_of_mem _ mem, rest⟩
  · by_cases this : ptr = { object := walk.loader.nextObject, id := id }
    · exact ⟨_, List.mem_cons_self, rfl, this.symm⟩
    · obtain ⟨stage, some, running⟩ := isLoading_iff.mp loading
      dsimp only at some
      rw [update_of_ne this] at some
      obtain ⟨info, mem, rest⟩ := inv.tasks ptr (isLoading_iff.mpr ⟨stage, some, running⟩)
      exact ⟨info, List.mem_cons_of_mem _ mem, rest⟩
  · dsimp only
    rw [inv.loadedChunks key]
    constructor
    · rintro ⟨info, mem, rfl, notQueued⟩
      refine ⟨info, List.mem_cons_of_mem _ mem, rfl, ?_⟩
      rw [update_of_ne (older info mem)]
      exact notQueued
    · rintro ⟨info, mem, rfl, notQueued⟩
      rcases List.mem_cons.mp mem with rfl | mem
      · exact absurd (update_self _ _ _) notQueued
      · rw [update_of_ne (older info mem)] at notQueued
        exact ⟨info, mem, rfl, notQueued⟩
  · dsimp only
    rw [update_apply]
    split
    · rfl
    · exact inv.versions ptr

theorem LoadsInv.unload (inv : LoadsInv walk (info :: blocks))
    (objects : ObjectsInv walk (info :: blocks)) (loaded : info.state ≠ .loading) :
    Holds OnlyStates (fun walk => LoadsInv walk blocks) (walk.unload info.chunk) := by
  have finished := objects.loaded info List.mem_cons_self loaded
  have known : info.chunk.id ∈ walk.loader.loadedChunks := by
    refine (inv.loadedChunks _).mpr ⟨info, List.mem_cons_self, rfl, ?_⟩
    rw [finished]
    decide
  obtain ⟨notIn, keys⟩ := List.nodup_cons.mp inv.keys
  obtain ⟨cache, inserted⟩ := ChunkCache.insert_isSome walk.loader.cache inv.versions info.chunk
  have quiet : walk.loader.isLoading info.chunk = false := by
    unfold TerrainLoader.isLoading
    rw [finished]
    rfl
  unfold Walk.unload TerrainLoader.unload
  rw [if_pos known, inserted]
  refine
    { keys := keys
      running := fun key ptr some => ?_
      tasks := fun ptr loading => ?_
      loadedChunks := fun key => ?_
      versions := inv.versions
      unloaded := List.forall_mem_cons.mpr ⟨quiet, inv.unloaded⟩
      enqueued := inv.enqueued }
  · obtain ⟨other, mem, loading, rest⟩ := inv.running key ptr some
    rcases List.mem_cons.mp mem with rfl | mem
    · exact absurd loading loaded
    · exact ⟨other, mem, loading, rest⟩
  · obtain ⟨other, mem, load, rest⟩ := inv.tasks ptr loading
    rcases List.mem_cons.mp mem with rfl | mem
    · exact absurd load loaded
    · exact ⟨other, mem, load, rest⟩
  · dsimp only
    rw [List.mem_filter, decide_eq_true_eq, inv.loadedChunks key]
    constructor
    · rintro ⟨⟨other, mem, rfl, notQueued⟩, apart⟩
      rcases List.mem_cons.mp mem with rfl | mem
      · exact absurd rfl apart
      · exact ⟨other, mem, rfl, notQueued⟩
    · rintro ⟨other, mem, rfl, notQueued⟩
      refine ⟨⟨other, List.mem_cons_of_mem _ mem, rfl, notQueued⟩, fun same => ?_⟩
      exact notIn (List.mem_map.mpr ⟨other, mem, same⟩)

theorem exists_mem_cons {before after : BlockInfo → Prop} (head : before info → after info')
    (tail : ∀ other ∈ blocks, before other → after other) :
    (∃ other ∈ info :: blocks, before other) → ∃ other ∈ info' :: blocks, after other := by
  rintro ⟨other, mem, holds⟩
  rcases List.mem_cons.mp mem with rfl | mem
  · exact ⟨info', List.mem_cons_self, head holds⟩
  · exact ⟨other, List.mem_cons_of_mem _ mem, tail other mem holds⟩

theorem LoadsInv.finish (inv : LoadsInv walk (info :: blocks))
    (objects : ObjectsInv walk (info :: blocks)) (loading : info.state = .loading)
    {handle : ChunkPtr} (running : walk.asyncChunkLoads info.chunk.id = some handle)
    (finished : walk.loader.stages handle = some .finished) :
    LoadsInv
      { walk with asyncChunkLoads := update walk.asyncChunkLoads info.chunk.id none }
      ({ info with state := .standby } :: blocks) := by
  have own : info.chunk = handle := by
    have tied := objects.tied info List.mem_cons_self loading
    exact Option.some.inj (tied.symm.trans running)
  refine
    { keys := inv.keys
      running := fun key ptr some => ?_
      tasks := fun ptr load => ?_
      loadedChunks := fun key => ?_
      versions := inv.versions
      unloaded := inv.unloaded
      enqueued := inv.enqueued }
  · have other : key ≠ info.chunk.id := by
      rintro rfl
      dsimp only at some
      rw [update_self] at some
      cases some
    dsimp only at some
    rw [update_of_ne other] at some
    exact exists_mem_cons (fun holds => absurd holds.2.2.symm other) (fun _ _ holds => holds)
      (inv.running key ptr some)
  · have other : info.chunk ≠ ptr := by
      rintro rfl
      obtain ⟨stage, some, unfinished⟩ := isLoading_iff.mp load
      rw [own, finished] at some
      exact unfinished (Option.some.inj some).symm
    exact exists_mem_cons (fun holds => absurd holds.2 other) (fun _ _ holds => holds)
      (inv.tasks ptr load)
  · exact (inv.loadedChunks key).trans ⟨exists_mem_cons id fun _ _ => id,
      exists_mem_cons id fun _ _ => id⟩

theorem LoadsInv.flags (inv : LoadsInv walk (info :: blocks)) (chunk : info'.chunk = info.chunk)
    (loading : info'.state = .loading ↔ info.state = .loading) :
    LoadsInv walk (info' :: blocks) :=
  { inv with
    keys := by
      rw [List.map_cons, chunk]
      exact inv.keys
    running := fun key ptr some => exists_mem_cons
      (fun ⟨load, rest⟩ => ⟨loading.mpr load, chunk ▸ rest⟩) (fun _ _ rest => rest)
      (inv.running key ptr some)
    tasks := fun ptr load => exists_mem_cons
      (fun ⟨load, rest⟩ => ⟨loading.mpr load, chunk ▸ rest⟩) (fun _ _ rest => rest)
      (inv.tasks ptr load)
    loadedChunks := fun key => (inv.loadedChunks key).trans
      ⟨exists_mem_cons (fun rest => chunk ▸ rest) (fun _ _ rest => rest),
        exists_mem_cons (fun rest => chunk ▸ rest) (fun _ _ rest => rest)⟩ }

theorem loadsRule (generator : Generator Primary Surface) :
    WalkRule generator OnlyStates True
      fun walk blocks => ObjectsInv walk blocks ∧ LoadsInv walk blocks where
  state := rfl
  perm := fun perm inv => ⟨inv.1.perm perm, inv.2.perm perm⟩
  counters := fun _ _ _ inv => ⟨{ inv.1 with }, { inv.2 with }⟩
  advance := fun ptr inv => ((inv.2.advance ptr).and (advance_spec generator _ ptr)).mono
    fun _ done => ⟨inv.1.advance done.2, done.1⟩
  enqueue := fun id inv fresh => ((inv.2.enqueue (fresh trivial)).and (inv.1.enqueue id)).mono
    fun _ done => ⟨done.2, done.1⟩
  unload := fun inv loaded => ((inv.2.unload inv.1 (loaded trivial)).and inv.1.unload).mono
    fun _ done => ⟨done.2, done.1⟩
  missing := fun inv loading none => by
    rw [inv.1.tied _ List.mem_cons_self loading] at none
    cases none
  loaded := fun inv loading running finished =>
    ⟨inv.1.finish loading running finished, inv.2.finish inv.1 loading running finished⟩
  flags := fun inv chunk loading => ⟨inv.1.flags chunk loading, inv.2.flags chunk loading⟩

end Loads

namespace Controller

/-! ## Runs -/

variable {world : World Position Primary Surface}
  {controller controller' : Controller Position Primary Surface} {action : Action Position}

/-- A tick of the action unloads no loading block, and gives no key twice. -/
def CarefulAction (world : World Position Primary Surface)
    (controller : Controller Position Primary Surface) : Action Position → Prop
  | .doTick _ => CarefulTick world controller
  | _ => True

instance CarefulTick.decidable (world : World Position Primary Surface)
    (controller : Controller Position Primary Surface) : Decidable (CarefulTick world controller) :=
  decidable_of_iff
    ((∀ base ∈ controller.superchunks.map Prod.fst ++ engagedInTick world controller,
        ∀ base' ∈ controller.superchunks.map Prod.fst ++ engagedInTick world controller,
          superchunkKey base = superchunkKey base' → base = base') ∧
      ∀ entry ∈ controller.superchunks, entry.1 ∉ engagedInTick world controller →
        entry.2.idleAge + 1 > Config.superchunkMaxAge →
          ∀ info ∈ entry.2.ptr.infos, info.state ≠ .loading)
    ⟨fun both => ⟨both.1, both.2⟩, fun careful => ⟨careful.apart, careful.aged⟩⟩

instance CarefulAction.decidable (world : World Position Primary Surface)
    (controller : Controller Position Primary Surface) :
    ∀ action, Decidable (CarefulAction world controller action)
  | .doTick _ => inferInstanceAs (Decidable (CarefulTick world controller))
  | .setPointOfInterest _ _ => isTrue trivial
  | .advance _ => isTrue trivial
  | .release _ => isTrue trivial

/-- What holds in every state of a careful run. -/
structure RunningInv (controller : Controller Position Primary Surface) : Prop where
  placed : Placed controller.superchunks
  kept : ObjectsInv controller.walk (infos controller.superchunks) ∧
    LoadsInv controller.walk (infos controller.superchunks)

theorem RunningInv.new (world : World Position Primary Surface) : RunningInv (new world) where
  placed := (ListsInv.new world).placed
  kept := ⟨(ListsInv.new world).objects,
    { keys := List.nodup_nil
      running := fun _ _ absurd => by cases absurd
      tasks := fun _ absurd => by cases absurd
      loadedChunks := fun _ => ⟨fun absurd => (List.not_mem_nil absurd).elim,
        fun ⟨_, absurd, _⟩ => (List.not_mem_nil absurd).elim⟩
      versions := fun _ => rfl
      unloaded := fun _ absurd => (List.not_mem_nil absurd).elim
      enqueued := fun _ absurd => (List.not_mem_nil absurd).elim }⟩

theorem RunningInv.step (inv : RunningInv controller)
    (careful : CarefulAction world controller action) :
    Holds OnlyStates RunningInv (step world controller action) := by
  have placed : Placed controller.forgetTaken.superchunks := inv.placed
  have kept : ObjectsInv controller.forgetTaken.walk (infos controller.forgetTaken.superchunks) ∧
      LoadsInv controller.forgetTaken.walk (infos controller.forgetTaken.superchunks) :=
    ⟨{ inv.kept.1 with }, { inv.kept.2 with }⟩
  unfold Controller.step
  cases action with
  | setPointOfInterest id position => exact ⟨placed, kept⟩
  | doTick env =>
    have tick : CarefulTick world controller.forgetTaken := { careful with }
    refine (doTick_rule (loadsRule world.toGenerator) (fun _ => tick) placed kept env).bind ?_
    exact fun result done => ⟨done.1, done.2.1⟩
  | advance ptr =>
    refine ((loadsRule world.toGenerator).advance ptr kept).bind ?_
    exact fun loader kept => ⟨placed, kept⟩
  | release index => exact ⟨placed, kept⟩

/-- The map of running loads has the keys of the loading blocks and the loads that run, and no
load has run when its chunk was unloaded or one of the same id was enqueued. -/
structure LoadsTracked (controller : Controller Position Primary Surface) : Prop where
  keys : ∀ key, controller.walk.asyncChunkLoads key ≠ none ↔
    ∃ info ∈ infos controller.superchunks, info.state = .loading ∧ info.chunk.id = key
  waited : ∀ ptr, controller.walk.loader.isLoading ptr = true →
    controller.walk.asyncChunkLoads ptr.id = some ptr
  unloaded : ∀ entry ∈ controller.walk.loader.unloaded, entry.2 = false
  enqueued : ∀ entry ∈ controller.walk.enqueued, entry.2 = false

theorem RunningInv.tracked (inv : RunningInv controller) : LoadsTracked controller where
  keys := by
    obtain ⟨objects, loads⟩ := inv.kept
    intro key
    constructor
    · intro some
      obtain ⟨ptr, same⟩ := Option.ne_none_iff_exists'.mp some
      obtain ⟨info, mem, loading, _, place⟩ := loads.running key ptr same
      exact ⟨info, mem, loading, place⟩
    · rintro ⟨info, mem, loading, rfl⟩
      rw [objects.tied info mem loading]
      exact Option.some_ne_none _
  waited := by
    obtain ⟨objects, loads⟩ := inv.kept
    intro ptr loading
    obtain ⟨info, mem, load, rfl⟩ := loads.tasks ptr loading
    exact objects.tied info mem load
  unloaded := inv.kept.2.unloaded
  enqueued := inv.kept.2.enqueued

theorem run_runningInv {actions : List (Action Position)}
    (reached : run world actions = some controller)
    (careful : Runs.StepsMeet (fun controller action => (step world controller action).toOption)
      (CarefulAction world) (new world) actions) : RunningInv controller := by
  refine Runs.run_invariant (fun state action state' inv meets taken => ?_)
    (RunningInv.new world) careful reached
  exact (inv.step meets).of_eq_ok (eq_ok_of_toOption taken)

/-- Run lemma: in a careful run the loads are tracked, and the assertions on loads hold. -/
theorem run_loads_tracked {actions : List (Action Position)}
    (reached : run world actions = some controller)
    (careful : Runs.StepsMeet (fun controller action => (step world controller action).toOption)
      (CarefulAction world) (new world) actions) :
    LoadsTracked controller ∧ ∀ action, CarefulAction world controller action →
      step world controller action ≠ .error .loads ∧
      step world controller action ≠ .error .loader := by
  have inv := run_runningInv reached careful
  refine ⟨inv.tracked, fun action meets => ⟨fun fails => ?_, fun fails => ?_⟩⟩
  · have only := (inv.step meets).of_eq_error fails
    cases only
  · have only := (inv.step meets).of_eq_error fails
    cases only

theorem reloadActions_tracked :
    ∃ controller, run uniformWorld reloadActions = some controller ∧ LoadsTracked controller := by
  have reached : (run uniformWorld reloadActions).isSome = true := by decide +kernel
  obtain ⟨controller, same⟩ := Option.isSome_iff_exists.mp reached
  exact ⟨controller, same, (run_loads_tracked same (by decide +kernel)).1⟩

/-! ## A load that takes long -/

theorem updateChildren_absent (generator : Generator Primary Surface) (env : TickEnv)
    (parentCmd : ParentCommand) (is : List (Fin 8)) (walk : Walk Primary Surface) :
    updateChildren (fun _ => updateChunk generator env .absent parentCmd) is walk =
      .ok (walk, fun _ => .absent) := by
  induction is generalizing walk with
  | nil => rfl
  | cons i is ih =>
    unfold updateChildren
    change (updateChildren _ is walk >>= _) = _
    rw [ih]
    exact congrArg (fun children => Except.ok (walk, children)) (update_eq_self _ _)

theorem withChildren_absent (info : BlockInfo) :
    withChildren info (fun _ => .absent) = .leaf info := by
  unfold withChildren ControlBlock.leaf
  have none : ((List.finRange 8).any fun _ => ControlBlock.absent.isChunkChanged) = false := rfl
  rw [none, Bool.or_false]

variable {env : TickEnv}

theorem updateChunk_waiting {generator : Generator Primary Surface} {info : BlockInfo}
    {walk : Walk Primary Surface} {handle : ChunkPtr} (idle : env.workers walk.visits = [])
    (loading : info.state = .loading) (running : walk.asyncChunkLoads info.chunk.id = some handle)
    (unfinished : walk.loader.stages handle ≠ some .finished) :
    updateChunk generator env (.leaf info) .nothing walk =
      .ok ({ walk with visits := walk.visits + 1 }, .leaf info) := by
  unfold ControlBlock.leaf updateChunk Walk.runWorkers
  rw [idle]
  dsimp only [List.foldlM_nil, pure, Except.pure, bind, Except.bind]
  rw [if_neg (by simp)]
  unfold updateSelf
  rw [loading]
  unfold updateChunkLoading
  rw [if_neg (by simp)]
  dsimp only
  rw [running]
  dsimp only
  rw [if_neg unfinished]
  dsimp only
  rw [updateChildren_absent]
  exact congrArg (fun block => Except.ok (_, block)) (withChildren_absent info)

theorem updateSuperchunks_unloading {generator : Generator Primary Surface} {base : IVec3}
    {info : BlockInfo} {idleAge : Nat} (walk : Walk Primary Surface)
    (idle : env.workers walk.visits = []) {loader : TerrainLoader Primary Surface}
    (unloaded : walk.loader.unload info.chunk = .ok loader)
    (old : idleAge + 1 > Config.superchunkMaxAge) (rest : List (IVec3 × SuperchunkInfo)) :
    updateSuperchunks generator env
        ((base, { ptr := .leaf info, idleAge := idleAge }) :: rest) walk =
      updateSuperchunks generator env rest
        { walk with loader := loader, visits := walk.visits + 1 } := by
  have gone : updateChunk generator env (.node info fun _ => .absent) .unload walk =
      .ok ({ walk with loader := loader, visits := walk.visits + 1 }, .absent) := by
    unfold updateChunk Walk.runWorkers Walk.unload
    rw [idle]
    dsimp only [List.foldlM_nil, pure, Except.pure, bind, Except.bind]
    rw [if_pos rfl, unloaded]
    dsimp only
    rw [updateChildren_absent]
  rw [updateSuperchunks]
  dsimp only [ControlBlock.leaf]
  rw [if_pos old, gone]
  rfl

theorem updateSuperchunks_waiting {generator : Generator Primary Surface} {base : IVec3}
    {info : BlockInfo} {idleAge : Nat} (walk : Walk Primary Surface) {handle : ChunkPtr}
    (idle : env.workers walk.visits = []) (loading : info.state = .loading)
    (single : info.overActive = false) (running : walk.asyncChunkLoads info.chunk.id = some handle)
    (unfinished : walk.loader.stages handle ≠ some .finished)
    (keep : idleAge < Config.superchunkMaxAge) (rest : List (IVec3 × SuperchunkInfo)) :
    updateSuperchunks generator env
        ((base, { ptr := .leaf info, idleAge := idleAge }) :: rest) walk = (do
      let (walk, rest) ←
        updateSuperchunks generator env rest { walk with visits := walk.visits + 1 }
      .ok (walk, (base, { ptr := .leaf info, idleAge := idleAge + 1 }) :: rest)) := by
  have command : rootCommand info = .nothing := by
    unfold rootCommand
    rw [loading]
    rfl
  have inactive : (info.state == BlockState.active) = false := by
    rw [loading]
    rfl
  have waiting : updateChunk generator env (.node info fun _ => .absent) .nothing walk =
      .ok ({ walk with visits := walk.visits + 1 }, .node info fun _ => .absent) :=
    updateChunk_waiting idle loading running unfinished
  rw [updateSuperchunks]
  dsimp only [ControlBlock.leaf]
  rw [if_neg (Nat.not_lt.mpr keep), single, loading]
  simp only [decide_false, Bool.or_self, Bool.false_and, Bool.false_eq_true, if_false,
    reduceCtorEq]
  rw [command, waiting]
  dsimp only [bind, Except.bind, ControlBlock.isPresent, ControlBlock.isActive]
  simp only [inactive, Bool.or_false, if_true]

/-- Two superchunks whose roots are loading, the younger of which is engaged. -/
structure TwoLoading (controller : Controller IVec3 Nat Nat) (root root' : BlockInfo)
    (old young : IVec3) (idleAge pointAge : Nat) : Prop where
  points : controller.pointsOfInterest = [{ id := 0, age := pointAge, position := young }]
  superchunks : controller.superchunks = [(old, { ptr := .leaf root, idleAge := idleAge }),
    (young, { ptr := .leaf root', idleAge := 1 })]
  loading : ∀ info ∈ [root, root'], info.state = .loading ∧ info.overActive = false ∧
    ∃ handle, controller.walk.asyncChunkLoads info.chunk.id = some handle ∧
      controller.walk.loader.stages handle ≠ some .finished
  entered : root.chunk.id ∈ controller.walk.loader.loadedChunks
  versions : ∀ ptr, (controller.walk.loader.chunks ptr).version = 0

section TwoLoading

variable {controller : Controller IVec3 Nat Nat} {root root' : BlockInfo} {old young : IVec3}
  {idleAge pointAge : Nat}

theorem TwoLoading.step_eq (two : TwoLoading controller root root' old young idleAge pointAge)
    (apart : old ≠ young) (engaged : engagedBases uniformWorld young = [young]) (lodDirection : Nat)
    (recent : pointAge < Config.pointOfInterestMaxAge) :
    Controller.step uniformWorld controller (uniformTick lodDirection) = (do
      let (walk, superchunks) ← updateSuperchunks uniformWorld.toGenerator
        { lodDirections := fun _ => lodDirection }
        [(old, { ptr := .leaf root, idleAge := idleAge }),
          (young, { ptr := .leaf root', idleAge := 0 })]
        { controller.forgetTaken.walk with directOpQuota := 0, visits := 0, calls := 0 }
      .ok
        { walk := walk
          pointsOfInterest := [{ id := 0, age := pointAge + 1, position := young }]
          superchunks := superchunks
          held := snapshot walk.loader (superchunks.flatMap fun entry =>
            entry.2.ptr.activeChunks (hasSurface uniformWorld.toGenerator walk.loader)) ::
              controller.held }) := by
  have collected : garbageCollectPointsOfInterest controller.pointsOfInterest =
      [{ id := 0, age := pointAge + 1, position := young }] := by
    rw [two.points]
    unfold garbageCollectPointsOfInterest
    have young : ¬ pointAge + 1 > Config.pointOfInterestMaxAge := Nat.not_lt.mpr recent
    simp only [List.map_cons, List.map_nil, List.filter_cons, young, decide_false, Bool.not_false,
      if_true, List.filter_nil]
  unfold Controller.step uniformTick
  dsimp only
  unfold doTick
  have forgotten : controller.forgetTaken.pointsOfInterest = controller.pointsOfInterest := rfl
  rw [forgotten, collected]
  dsimp only
  have one : ([{ id := 0, age := pointAge + 1, position := young }] :
      List (PointOfInterest IVec3)).flatMap (fun point => engagedBases uniformWorld point.position)
        = [young] := by
    rw [List.flatMap_singleton]
    exact engaged
  have engage : engageSuperchunk uniformWorld.toGenerator
      (controller.forgetTaken.walk, controller.forgetTaken.superchunks) young =
        .ok (controller.forgetTaken.walk, [(old, { ptr := .leaf root, idleAge := idleAge }),
          (young, { ptr := .leaf root', idleAge := 0 })]) := by
    have same : controller.forgetTaken.superchunks = controller.superchunks := rfl
    rw [same, two.superchunks]
    unfold engageSuperchunk
    simp only [List.any_cons, List.any_nil, beq_self_eq_true, Bool.true_or, Bool.or_true, if_true,
      List.map_cons, List.map_nil, if_neg apart]
  have order : ∀ first second : IVec3 × SuperchunkInfo,
      inOrder [] [first, second] = [first, second] := fun _ _ => rfl
  rw [one, List.foldlM_cons, engage]
  dsimp only [bind, Except.bind, List.foldlM_nil, pure, Except.pure]
  rw [order]
  cases updateSuperchunks uniformWorld.toGenerator { lodDirections := fun _ => lodDirection }
    [(old, { ptr := .leaf root, idleAge := idleAge }),
      (young, { ptr := .leaf root', idleAge := 0 })]
    { controller.forgetTaken.walk with directOpQuota := 0, visits := 0, calls := 0 } <;> rfl

theorem TwoLoading.step (two : TwoLoading controller root root' old young idleAge pointAge)
    (apart : old ≠ young) (engaged : engagedBases uniformWorld young = [young]) (lodDirection : Nat)
    (keep : idleAge < Config.superchunkMaxAge) (recent : pointAge < Config.pointOfInterestMaxAge) :
    ∃ controller', Controller.step uniformWorld controller (uniformTick lodDirection) =
        .ok controller' ∧
      TwoLoading controller' root root' old young (idleAge + 1) (pointAge + 1) := by
  obtain ⟨load, single, handle, running, unfinished⟩ := two.loading root (by simp)
  obtain ⟨load', single', handle', running', unfinished'⟩ := two.loading root' (by simp)
  rw [two.step_eq apart engaged lodDirection recent,
    updateSuperchunks_waiting
      { controller.forgetTaken.walk with directOpQuota := 0, visits := 0, calls := 0 } rfl load
      single running unfinished keep,
    updateSuperchunks_waiting
      { controller.forgetTaken.walk with directOpQuota := 0, visits := 0 + 1, calls := 0 } rfl load'
      single' running' unfinished' (by decide)]
  exact ⟨_, rfl, rfl, rfl, two.loading, two.entered, two.versions⟩

theorem TwoLoading.lose (two : TwoLoading controller root root' old young Config.superchunkMaxAge
      pointAge) (apart : old ≠ young) (engaged : engagedBases uniformWorld young = [young])
    (lodDirection : Nat) (recent : pointAge < Config.pointOfInterestMaxAge) :
    ∃ controller', Controller.step uniformWorld controller (uniformTick lodDirection) =
        .ok controller' ∧ infos controller'.superchunks = [root'] ∧
      controller'.walk.asyncChunkLoads = controller.walk.asyncChunkLoads := by
  obtain ⟨load', single', handle', running', unfinished'⟩ := two.loading root' (by simp)
  obtain ⟨cache, inserted⟩ :=
    ChunkCache.insert_isSome controller.walk.loader.cache two.versions root.chunk
  have unloaded : controller.forgetTaken.walk.loader.unload root.chunk = .ok
      { controller.forgetTaken.walk.loader with
        loadedChunks := controller.walk.loader.loadedChunks.filter fun id => id ≠ root.chunk.id
        cache := cache
        unloaded := (root.chunk, controller.walk.loader.isLoading root.chunk) ::
          controller.walk.loader.unloaded } := by
    unfold TerrainLoader.unload
    have known : root.chunk.id ∈ controller.forgetTaken.walk.loader.loadedChunks := two.entered
    have same : controller.forgetTaken.walk.loader.cache = controller.walk.loader.cache := rfl
    have chunks : controller.forgetTaken.walk.loader.chunks = controller.walk.loader.chunks := rfl
    rw [if_pos known, same, chunks, inserted]
    rfl
  rw [two.step_eq apart engaged lodDirection recent,
    updateSuperchunks_unloading
      { controller.forgetTaken.walk with directOpQuota := 0, visits := 0, calls := 0 } rfl unloaded
      (Nat.lt_succ_self _),
    updateSuperchunks_waiting
      { controller.forgetTaken.walk with
        loader :=
          { controller.forgetTaken.walk.loader with
            loadedChunks := controller.walk.loader.loadedChunks.filter fun id => id ≠ root.chunk.id
            cache := cache
            unloaded := (root.chunk, controller.walk.loader.isLoading root.chunk) ::
              controller.walk.loader.unloaded }
        directOpQuota := 0, visits := 0 + 1, calls := 0 } rfl load' single' running' unfinished'
      (by decide)]
  exact ⟨_, rfl, rfl, rfl⟩

end TwoLoading

theorem TwoLoading.run {controller : Controller IVec3 Nat Nat} {root root' : BlockInfo}
    {old young : IVec3} {idleAge pointAge : Nat}
    (two : TwoLoading controller root root' old young idleAge pointAge) (apart : old ≠ young)
    (engaged : engagedBases uniformWorld young = [young]) (lodDirection : Nat) {ticks : Nat}
    (keep : idleAge + ticks ≤ Config.superchunkMaxAge)
    (recent : pointAge + ticks ≤ Config.pointOfInterestMaxAge) :
    ∃ controller', Runs.run (fun controller action => (Controller.step uniformWorld controller
        action).toOption) controller (List.replicate ticks (uniformTick lodDirection)) =
        some controller' ∧
      TwoLoading controller' root root' old young (idleAge + ticks) (pointAge + ticks) := by
  induction ticks generalizing controller idleAge pointAge with
  | zero => exact ⟨controller, rfl, two⟩
  | succ ticks ih =>
    obtain ⟨middle, taken, two⟩ := two.step apart engaged lodDirection (by omega) (by omega)
    obtain ⟨last, ran, two⟩ := ih two (by omega) (by omega)
    refine ⟨last, ?_, ?_⟩
    · rw [List.replicate_succ, Runs.run_cons, taken]
      exact ran
    · rw [Nat.add_comm ticks, ← Nat.add_assoc, ← Nat.add_assoc]
      exact two

/-- A root begins to load at the origin, and the point of interest goes elsewhere. -/
def leaveActions : List (Action IVec3) :=
  [.setPointOfInterest 0 originBase, uniformTick 12,
    .advance { object := 0, id := superchunkKey originBase },
    .setPointOfInterest 0 farBase, uniformTick 12]

theorem leaf_of_infos {block : ControlBlock} {info : BlockInfo} (only : block.infos = [info]) :
    block = .leaf info := by
  cases block with
  | absent => cases only
  | node top children =>
    obtain ⟨rfl, none⟩ := List.cons.inj only
    refine congrArg (ControlBlock.node top) (funext fun i => ?_)
    have empty := List.flatMap_eq_nil_iff.mp none i (List.mem_finRange i)
    cases same : children i with
    | absent => rfl
    | node child children =>
      rw [same] at empty
      cases empty

/-- The root of the superchunk at the origin. -/
def originRoot : ChunkPtr := { object := 0, id := superchunkKey originBase }

def farRoot : ChunkPtr := { object := 1, id := superchunkKey farBase }

theorem leaveActions_twoLoading : ∃ controller, run uniformWorld leaveActions = some controller ∧
    TwoLoading controller
      { state := .loading, chunk := originRoot } { state := .loading, chunk := farRoot }
      originBase farBase 2 1 := by
  have checked : ((run uniformWorld leaveActions).any fun controller => decide
      (controller.pointsOfInterest = [{ id := 0, age := 1, position := farBase }] ∧
        (controller.superchunks.map fun entry =>
            (entry.1, entry.2.ptr.infos, entry.2.idleAge, entry.2.everActive)) =
          [(originBase, [{ state := .loading, chunk := originRoot }], 2, false),
            (farBase, [{ state := .loading, chunk := farRoot }], 1, false)] ∧
        controller.walk.asyncChunkLoads originRoot.id = some originRoot ∧
        controller.walk.asyncChunkLoads farRoot.id = some farRoot ∧
        controller.walk.loader.stages originRoot ≠ some .finished ∧
        controller.walk.loader.stages farRoot ≠ some .finished ∧
        originRoot.id ∈ controller.walk.loader.loadedChunks)) = true := by
    decide +kernel
  obtain ⟨controller, reached, facts⟩ := (Option.any_eq_true _ _).mp checked
  obtain ⟨points, superchunks, running, running', unfinished, unfinished', entered⟩ :=
    of_decide_eq_true facts
  have inv := run_runningInv reached (by decide +kernel)
  refine ⟨controller, reached,
    { points := points
      superchunks := ?_
      loading := ?_
      entered := entered
      versions := inv.kept.2.versions }⟩
  · obtain ⟨⟨base, block, age, ever⟩, rest, entries, first, tail⟩ :=
      List.map_eq_cons_iff.mp superchunks
    obtain ⟨⟨base', block', age', ever'⟩, rest', rfl, second, none⟩ := List.map_eq_cons_iff.mp tail
    obtain rfl := List.map_eq_nil_iff.mp none
    simp only [Prod.mk.injEq] at first second
    obtain ⟨rfl, leaf, rfl, rfl⟩ := first
    obtain ⟨rfl, leaf', rfl, rfl⟩ := second
    rw [entries, leaf_of_infos leaf, leaf_of_infos leaf']
  · intro info mem
    rcases List.mem_pair.mp mem with rfl | rfl
    · exact ⟨rfl, rfl, _, running, unfinished⟩
    · exact ⟨rfl, rfl, _, running', unfinished'⟩

/-- The point of interest stays away until the superchunk at the origin is too old. -/
def ageingActions : List (Action IVec3) :=
  leaveActions ++ (List.replicate 998 (uniformTick 12) ++ [uniformTick 12])

/-- The root is unloaded while its load runs, and its key stays in the map. -/
theorem not_loadsTracked :
    ¬ ∀ actions controller, run uniformWorld actions = some controller →
      LoadsTracked controller := by
  intro tracked
  obtain ⟨start, reached, two⟩ := leaveActions_twoLoading
  have apart : originBase ≠ farBase := by decide
  have engaged : engagedBases uniformWorld farBase = [farBase] := by decide +kernel
  obtain ⟨middle, ran, two⟩ :=
    @TwoLoading.run _ _ _ _ _ _ _ two apart engaged 12 998 (by decide) (by decide)
  obtain ⟨last, taken, only, loads⟩ := two.lose apart engaged 12 (by decide)
  have all : run uniformWorld ageingActions = some last := by
    unfold ageingActions run
    rw [Runs.run_append]
    change (run uniformWorld leaveActions).bind _ = _
    rw [reached, Option.bind_some, Runs.run_append, ran, Option.bind_some, Runs.run_cons, taken]
    rfl
  obtain ⟨_, _, handle, running, _⟩ := two.loading _ List.mem_cons_self
  have known : last.walk.asyncChunkLoads originRoot.id ≠ none := by
    rw [loads]
    exact ne_of_eq_of_ne running (Option.some_ne_none _)
  obtain ⟨info, mem, _, same⟩ := ((tracked _ _ all).keys _).mp known
  rw [only] at mem
  obtain rfl := List.mem_singleton.mp mem
  exact absurd same (by decide)

end Controller

end Voxen.Terrain
