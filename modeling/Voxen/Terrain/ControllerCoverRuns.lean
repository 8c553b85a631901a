import Voxen.Terrain.ControllerCover
import Voxen.Terrain.ControllerSnapshots

/-!
# Active cover in runs

The trees of all superchunks are covered from the tick on in which their roots become
active, and the lists that are returned have the active chunks with a surface.
-/

namespace Voxen.Terrain

open Outcome
open Land (IVec3)

/-! ## Paths and active blocks of a covered tree -/

/-- One block on the path is active; above it all are over-active, and below it none is active or
over-active. -/
structure CoveredPath (path : List BlockInfo) : Prop where
  one : path.countP (fun info => info.state == .active) = 1
  around : ∀ above info below, path = above ++ info :: below → info.state = .active →
    (∀ parent ∈ above, parent.state = .standby ∧ parent.overActive = true) ∧
    info.overActive = false ∧ ∀ child ∈ below, child.state ≠ .active ∧ child.overActive = false

theorem CoveredPath.active {info : BlockInfo} {path : List BlockInfo}
    (active : info.state = .active) (single : info.overActive = false)
    (below : ∀ child ∈ path, child.state ≠ .active ∧ child.overActive = false) :
    CoveredPath (info :: path) where
  one := by
    have none : path.countP (fun info => info.state == .active) = 0 :=
      List.countP_eq_zero.mpr fun child mem found => (below child mem).1 (beq_iff_eq.mp found)
    rw [List.countP_cons, none, active]
    rfl
  around := by
    intro above other rest same found
    rcases List.cons_eq_append_iff.mp same with ⟨rfl, here⟩ | ⟨above, rfl, there⟩
    · obtain ⟨rfl, rfl⟩ := List.cons.inj here
      exact ⟨fun _ absurd => (List.not_mem_nil absurd).elim, single, below⟩
    · have mem : other ∈ path := there ▸ List.mem_append_right _ List.mem_cons_self
      exact absurd found (below other mem).1

theorem CoveredPath.above {info : BlockInfo} {path : List BlockInfo}
    (standby : info.state = .standby) (wide : info.overActive = true)
    (covered : CoveredPath path) : CoveredPath (info :: path) where
  one := by
    rw [List.countP_cons, covered.one, standby]
    rfl
  around := by
    intro above other rest same found
    rcases List.cons_eq_append_iff.mp same with ⟨rfl, here⟩ | ⟨above, rfl, there⟩
    · obtain ⟨rfl, rfl⟩ := List.cons.inj here
      rw [standby] at found
      cases found
    · obtain ⟨parents, rest⟩ := covered.around above other rest there found
      exact ⟨List.forall_mem_cons.mpr ⟨⟨standby, wide⟩, parents⟩, rest⟩

namespace ControlBlock

/-- Over-active blocks have all their children. -/
def OverComplete : ControlBlock → Prop
  | absent => True
  | node info children => (info.overActive = true → ∀ i, (children i).isPresent = true) ∧
      ∀ i, (children i).OverComplete

/-- The active blocks cover a tree. -/
structure Covered (block : ControlBlock) : Prop where
  paths : ∀ path ∈ block.paths, CoveredPath path
  complete : block.OverComplete

theorem mem_paths {info : BlockInfo} {children : Fin 8 → ControlBlock} {path : List BlockInfo}
    (mem : path ∈ (node info children).paths) :
    path = [info] ∧ (∀ i, (children i).isPresent = false) ∨
      ∃ i, ∃ rest ∈ (children i).paths, path = info :: rest := by
  unfold ControlBlock.paths at mem
  split at mem
  · obtain ⟨rest, there, rfl⟩ := List.mem_map.mp mem
    obtain ⟨i, _, there⟩ := List.mem_flatMap.mp there
    exact Or.inr ⟨i, rest, there, rfl⟩
  · rename_i none
    refine Or.inl ⟨List.mem_singleton.mp mem, fun i => ?_⟩
    cases present : (children i).isPresent with
    | false => rfl
    | true => exact absurd (List.any_eq_true.mpr ⟨i, List.mem_finRange i, present⟩) none

variable {block : ControlBlock}

theorem Below.isActive (below : block.Below) : block.isActive = false := by
  cases block with
  | absent => rfl
  | node info children => exact beq_eq_false_iff_ne.mpr below.1

theorem Below.path (below : block.Below) {path : List BlockInfo} (mem : path ∈ block.paths) :
    ∀ info ∈ path, info.state ≠ .active ∧ info.overActive = false := by
  induction block generalizing path with
  | absent => exact (List.not_mem_nil mem).elim
  | node info children ih =>
    obtain ⟨idle, single, rest⟩ := below
    rcases mem_paths mem with ⟨rfl, _⟩ | ⟨i, path, there, rfl⟩
    · exact List.forall_mem_singleton.mpr ⟨idle, single⟩
    · exact List.forall_mem_cons.mpr ⟨⟨idle, single⟩, ih i (rest i) there⟩

theorem Cover.path (cover : block.Cover) {path : List BlockInfo} (mem : path ∈ block.paths) :
    CoveredPath path := by
  induction block generalizing path with
  | absent => exact cover.elim
  | node info children ih =>
    rcases cover with ⟨active, single, rest⟩ | ⟨standby, wide, rest⟩
    · rcases mem_paths mem with ⟨rfl, _⟩ | ⟨i, path, there, rfl⟩
      · exact CoveredPath.active active single fun _ absurd => (List.not_mem_nil absurd).elim
      · exact CoveredPath.active active single ((rest i).path there)
    · rcases mem_paths mem with ⟨_, none⟩ | ⟨i, path, there, rfl⟩
      · exact absurd (rest 0).isPresent (Bool.eq_false_iff.mp (none 0))
      · exact CoveredPath.above standby wide (ih i (rest i) there)

theorem Below.overComplete (below : block.Below) : block.OverComplete := by
  induction block with
  | absent => trivial
  | node info children ih =>
    obtain ⟨_, single, rest⟩ := below
    exact ⟨fun wide => absurd wide (Bool.eq_false_iff.mp single), fun i => ih i (rest i)⟩

theorem Cover.overComplete (cover : block.Cover) : block.OverComplete := by
  induction block with
  | absent => trivial
  | node info children ih =>
    rcases cover with ⟨_, single, rest⟩ | ⟨_, _, rest⟩
    · exact ⟨fun wide => absurd wide (Bool.eq_false_iff.mp single),
        fun i => (rest i).overComplete⟩
    · exact ⟨fun _ i => (rest i).isPresent, fun i => ih i (rest i)⟩

theorem Cover.covered (cover : block.Cover) : block.Covered where
  paths := fun _ mem => cover.path mem
  complete := cover.overComplete

/-- The chunks of active blocks that have a surface. -/
def activeSurfaces (hasSurface : ChunkPtr → Bool) (blocks : List BlockInfo) : List ChunkPtr :=
  (blocks.filter fun info => info.state == .active && hasSurface info.chunk).map BlockInfo.chunk

section Surfaces

variable {hasSurface : ChunkPtr → Bool}

theorem activeSurfaces_flatMap {α : Type} (blocks : α → List BlockInfo) (items : List α) :
    activeSurfaces hasSurface (items.flatMap blocks) =
      items.flatMap fun item => activeSurfaces hasSurface (blocks item) := by
  unfold activeSurfaces
  rw [List.filter_flatMap, List.map_flatMap]

theorem activeChunks_children {children : Fin 8 → ControlBlock}
    (each : ∀ i, ((children i).activeChunks hasSurface).Perm
      (activeSurfaces hasSurface (children i).infos)) :
    ((List.finRange 8).reverse.flatMap fun i => (children i).activeChunks hasSurface).Perm
      (activeSurfaces hasSurface ((List.finRange 8).flatMap fun i => (children i).infos)) := by
  rw [activeSurfaces_flatMap]
  exact ((List.reverse_perm _).flatMap_right _).trans (List.Perm.flatMap_left _ fun i _ => each i)

theorem activeSurfaces_idle {info : BlockInfo} (idle : info.state ≠ .active)
    (blocks : List BlockInfo) :
    activeSurfaces hasSurface (info :: blocks) = activeSurfaces hasSurface blocks := by
  unfold activeSurfaces
  rw [List.filter_cons_of_neg (by simp [idle])]

variable {block : ControlBlock}

theorem Below.activeChunks (below : block.Below) :
    (block.activeChunks hasSurface).Perm (activeSurfaces hasSurface block.infos) := by
  induction block with
  | absent => exact List.Perm.refl _
  | node info children ih =>
    obtain ⟨idle, _, rest⟩ := below
    unfold ControlBlock.activeChunks ControlBlock.infos
    rw [if_neg idle, activeSurfaces_idle idle]
    exact activeChunks_children fun i => ih i (rest i)

theorem Below.no_surfaces (below : block.Below) :
    activeSurfaces hasSurface block.infos = [] := by
  induction block with
  | absent => rfl
  | node info children ih =>
    obtain ⟨idle, _, rest⟩ := below
    unfold ControlBlock.infos
    rw [activeSurfaces_idle idle, activeSurfaces_flatMap]
    exact List.flatMap_eq_nil_iff.mpr fun i _ => ih i (rest i)

theorem Cover.activeChunks (cover : block.Cover) :
    (block.activeChunks hasSurface).Perm (activeSurfaces hasSurface block.infos) := by
  induction block with
  | absent => exact cover.elim
  | node info children ih =>
    rcases cover with ⟨active, _, rest⟩ | ⟨standby, _, rest⟩
    · have none : activeSurfaces hasSurface
          ((List.finRange 8).flatMap fun i => (children i).infos) = [] := by
        rw [activeSurfaces_flatMap]
        exact List.flatMap_eq_nil_iff.mpr fun i _ => (rest i).no_surfaces
      unfold ControlBlock.activeChunks ControlBlock.infos
      rw [if_pos active]
      unfold activeSurfaces at none ⊢
      rw [List.filter_cons, active, beq_self_eq_true, Bool.true_and]
      split
      · rw [List.map_cons, none]
      · rw [none]
    · have idle : info.state ≠ .active := by
        rw [standby]
        decide
      unfold ControlBlock.activeChunks ControlBlock.infos
      rw [if_neg idle, activeSurfaces_idle idle]
      exact activeChunks_children fun i => ih i (rest i)

end Surfaces

end ControlBlock

/-! ## Ticks -/

section Update

variable {Primary Surface : Type} (generator : Generator Primary Surface) (env : TickEnv)

theorem leaf_changesUp (info : BlockInfo) : (ControlBlock.leaf info).ChangesUp :=
  fun _ => ⟨fun absurd => (by cases absurd), trivial⟩

theorem withChildren_changesUp (info : BlockInfo) {children : Fin 8 → ControlBlock}
    (each : ∀ i, (children i).ChangesUp) : (withChildren info children).ChangesUp := by
  refine fun i => ⟨fun changed => ?_, each i⟩
  have any : ((List.finRange 8).any fun i => (children i).isChunkChanged) = true :=
    List.any_eq_true.mpr ⟨i, List.mem_finRange i, changed⟩
  exact Bool.or_eq_true_iff.mpr (Or.inr any)

theorem updateCreated_changesUp (info : BlockInfo) (parentCmd : ParentCommand)
    (walk : Walk Primary Surface) :
    Holds (fun _ => True) (fun updated => updated.2.ChangesUp)
      (updateCreated generator env info parentCmd walk) := by
  unfold updateCreated
  refine Holds.bind (holds_any _) fun walk _ => Holds.bind (holds_any _) ?_
  rintro ⟨walk, _ | kept⟩ _
  · trivial
  · exact leaf_changesUp kept.info

theorem updateChunk_changesUp (block : ControlBlock) (parentCmd : ParentCommand)
    (walk : Walk Primary Surface) :
    Holds (fun _ => True) (fun updated => updated.2.ChangesUp)
      (updateChunk generator env block parentCmd walk) := by
  induction block generalizing parentCmd walk with
  | absent => trivial
  | node info children ih =>
    by_cases unload : parentCmd = .unload
    · rw [unload]
      exact (WalkRule.updateChunk_unload _ walk).mono fun _ gone => gone ▸ trivial
    · refine updateChunk_holds (fun _ => True) unload (holds_any _) (fun walk => holds_any _)
        (fun _ => trivial) fun kept walk _ => ?_
      refine Holds.mono (@withChildren_holds _ _ _ (fun _ block => block.ChangesUp) _
        (fun i walk => ?_) kept.info walk) ?_
      · cases kept.created i with
        | some new => exact updateCreated_changesUp generator env new kept.command walk
        | none => exact ih i kept.command walk
      · rintro _ ⟨children, all, same⟩
        rw [same]
        exact withChildren_changesUp kept.info all

theorem updateChunk_loading {info : BlockInfo} (children : Fin 8 → ControlBlock)
    (loading : info.state = .loading) (walk : Walk Primary Surface) :
    Holds (fun _ => True) (fun updated => updated.2.isPresent = true)
      (updateChunk generator env (.node info children) .nothing walk) := by
  unfold updateChunk
  refine Holds.bind (holds_any _) fun walk _ => ?_
  rw [if_neg (by decide)]
  have stays : Holds (fun _ => True) (fun updated => updated.2.isSome = true)
      (updateSelf generator env info children .nothing walk) := by
    unfold updateSelf updateChunkLoading
    rw [loading]
    dsimp only
    rw [if_neg (by decide)]
    split
    · trivial
    · split <;> rfl
  refine Holds.bind stays ?_
  rintro ⟨walk, _ | kept⟩ some
  · cases some
  · exact Holds.bind (holds_any _) fun _ _ => rfl

end Update

namespace Controller

variable {Position Primary Surface : Type} {world : World Position Primary Surface}
  {controller : Controller Position Primary Surface}

/-- A superchunk whose root was active is covered; before, the root has no active block below. -/
structure Rooted (superchunk : SuperchunkInfo) : Prop where
  root : superchunk.ptr.Cover ∨
    superchunk.everActive = false ∧ superchunk.ptr.Below ∧ superchunk.ptr.isPresent = true
  up : superchunk.ptr.ChangesUp

variable {superchunk : SuperchunkInfo} {info : BlockInfo}

theorem Rooted.isPresent (rooted : Rooted superchunk) :
    superchunk.ptr.isPresent = true :=
  rooted.root.elim (fun cover => cover.isPresent) fun never => never.2.2

theorem rootCommand_of_not (not : ¬ (info.state = .standby ∧ info.overActive = false)) :
    rootCommand info = .nothing := by
  unfold rootCommand
  refine if_neg fun both => not ?_
  obtain ⟨standby, single⟩ := Bool.and_eq_true_iff.mp both
  exact ⟨of_decide_eq_true standby, by simpa using single⟩

theorem rootCommand_cover {children : Fin 8 → ControlBlock}
    (cover : (ControlBlock.node info children).Cover) : rootCommand info = .nothing := by
  refine rootCommand_of_not ?_
  rintro ⟨standby, single⟩
  rcases cover with ⟨active, _⟩ | ⟨_, wide, _⟩
  · rw [standby] at active
    cases active
  · rw [single] at wide
    cases wide

theorem Rooted.update (rooted : Rooted superchunk) (generator : Generator Primary Surface)
    (env : TickEnv) {children : Fin 8 → ControlBlock} (here : superchunk.ptr = .node info children)
    (idleAge : Nat) (walk : Walk Primary Surface) :
    StatesHold (fun updated => Rooted
        { ptr := updated.2, idleAge := idleAge
          everActive := superchunk.everActive || updated.2.isActive })
      (updateChunk generator env superchunk.ptr (rootCommand info) walk) := by
  have up := updateChunk_changesUp generator env superchunk.ptr (rootCommand info) walk
  have subtree := subtreeHolds generator env superchunk.ptr
  rcases rooted.root with cover | ⟨never, below, present⟩
  · rw [rootCommand_cover (here ▸ cover)] at up ⊢
    exact ((subtree.cover cover walk).and up).mono fun updated done => ⟨Or.inl done.1, done.2⟩
  · have self : info.state ≠ .active ∧ info.overActive = false := by
      rw [here] at below
      exact ⟨below.1, below.2.1⟩
    cases state : info.state with
    | active => exact absurd state self.1
    | standby =>
      -- the root has been loaded
      have command : rootCommand info = .becomeActive := by
        unfold rootCommand
        rw [state, self.2]
        rfl
      have loaded : ∀ other grandchildren, superchunk.ptr = .node other grandchildren →
          other.state ≠ .loading := by
        intro other grandchildren same
        rw [here] at same
        cases same
        rw [state]
        decide
      rw [command] at up ⊢
      exact ((subtree.becomeActive below present loaded walk).and up).mono fun updated done =>
        ⟨Or.inl done.1, done.2⟩
    | loading =>
      have command : rootCommand info = .nothing :=
        rootCommand_of_not fun both => by
          rw [state] at both
          cases both.1
      rw [command] at up ⊢
      have stays := updateChunk_loading generator env children state walk
      rw [← here] at stays
      refine (((subtree.below below walk).and stays).and up).mono fun updated done => ?_
      obtain ⟨⟨below, present⟩, up⟩ := done
      refine ⟨Or.inr ⟨?_, below, present⟩, up⟩
      rw [never, below.isActive]
      rfl

theorem updateSuperchunks_rooted {generator : Generator Primary Surface} {env : TickEnv}
    {superchunks : List (IVec3 × SuperchunkInfo)}
    (rooted : ∀ entry ∈ superchunks, Rooted entry.2) (walk : Walk Primary Surface) :
    StatesHold (fun result => ∀ entry ∈ result.2, Rooted entry.2)
      (updateSuperchunks generator env superchunks walk) := by
  induction superchunks generalizing walk with
  | nil => exact fun _ absurd => (List.not_mem_nil absurd).elim
  | cons entry superchunks ih =>
    obtain ⟨base, superchunk⟩ := entry
    obtain ⟨first, others⟩ := List.forall_mem_cons.mp rooted
    have subtree := subtreeHolds generator env superchunk.ptr
    unfold updateSuperchunks
    dsimp only at first ⊢
    split
    · rename_i gone
      have present := first.isPresent
      rw [gone] at present
      cases present
    · rename_i info children here
      split
      · exact (subtree.unload walk).bind fun updated _ => ih others updated.1
      · split
        · rename_i invalid
          obtain ⟨active, invalid⟩ := Bool.and_eq_true_iff.mp invalid
          have cover : superchunk.ptr.Cover := by
            refine first.root.resolve_right fun never => ?_
            have below := never.2.1
            rw [here] at below
            simp only [below.2.1, below.1, decide_false, Bool.or_self,
              Bool.false_eq_true] at active
          rw [cover.validateState first.up fun _ => rfl] at invalid
          cases invalid
        · refine (first.update generator env here (superchunk.idleAge + 1) walk).bind ?_
          rintro ⟨walk, ptr⟩ updated
          refine (ih others walk).bind ?_
          rintro ⟨walk, rest⟩ done
          dsimp only at updated done ⊢
          split
          · exact List.forall_mem_cons.mpr ⟨updated, done⟩
          · exact done

theorem engageSuperchunk_rooted {generator : Generator Primary Surface}
    {engaged : Walk Primary Surface × List (IVec3 × SuperchunkInfo)}
    (rooted : ∀ entry ∈ engaged.2, Rooted entry.2) (base : IVec3) :
    StatesHold (fun engaged => ∀ entry ∈ engaged.2, Rooted entry.2)
      (engageSuperchunk generator engaged base) := by
  obtain ⟨walk, superchunks⟩ := engaged
  unfold engageSuperchunk
  dsimp only at rooted ⊢
  split
  · refine List.forall_mem_map.mpr fun entry mem => ?_
    obtain ⟨root, up⟩ := rooted entry mem
    split
    · exact ⟨root, up⟩
    · exact ⟨root, up⟩
  · refine (enqueueLoadingChunk_statesHold generator walk (superchunkKey base)).bind ?_
    rintro ⟨walk, root⟩ ⟨loading, single⟩
    dsimp only at loading single
    refine List.forall_mem_append.mpr ⟨rooted, List.forall_mem_singleton.mpr ?_⟩
    have idle : root.state ≠ .active := by
      rw [loading]
      decide
    exact ⟨Or.inr ⟨rfl, ⟨idle, single, fun _ => trivial⟩, rfl⟩, leaf_changesUp root⟩

theorem inOrder_mem {order : List IVec3} {superchunks : List (IVec3 × SuperchunkInfo)}
    {entry : IVec3 × SuperchunkInfo} (mem : entry ∈ inOrder order superchunks) :
    entry ∈ superchunks := by
  unfold inOrder at mem
  split at mem
  · obtain ⟨base, _, found⟩ := List.mem_filterMap.mp mem
    exact List.mem_of_find?_eq_some found
  · exact mem

theorem doTick_rooted {controller : Controller Position Primary Surface}
    (rooted : ∀ entry ∈ controller.superchunks, Rooted entry.2) (env : TickEnv) :
    StatesHold (fun result => ∀ entry ∈ result.1.superchunks, Rooted entry.2)
      (doTick world env controller) := by
  unfold doTick
  dsimp only
  have engaged : StatesHold (fun engaged => ∀ entry ∈ engaged.2, Rooted entry.2)
      (((garbageCollectPointsOfInterest controller.pointsOfInterest).flatMap fun point =>
        engagedBases world point.position).foldlM (engageSuperchunk world.toGenerator)
          (controller.walk, controller.superchunks)) :=
    Holds.foldlM (fun _ base _ rooted => engageSuperchunk_rooted rooted base) rooted
  refine engaged.bind ?_
  rintro ⟨walk, superchunks⟩ rooted
  refine (updateSuperchunks_rooted (fun entry mem => rooted entry (inOrder_mem mem)) _).bind ?_
  exact fun result done => done

/-- What holds in every state. -/
structure CoverInv (controller : Controller Position Primary Surface) : Prop where
  rooted : ∀ entry ∈ controller.superchunks, Rooted entry.2

theorem CoverInv.step {controller : Controller Position Primary Surface}
    (inv : CoverInv controller) (action : Action Position) :
    StatesHold CoverInv (step world controller action) := by
  have rooted : ∀ entry ∈ controller.forgetTaken.superchunks, Rooted entry.2 := inv.rooted
  unfold Controller.step
  cases action with
  | setPointOfInterest id position => exact ⟨rooted⟩
  | doTick env => exact (doTick_rooted rooted env).bind fun _ done => ⟨done⟩
  | advance ptr => exact (advance_statesHold _ _ ptr).bind fun _ _ => ⟨rooted⟩
  | release index => exact ⟨rooted⟩

theorem run_coverInv {actions : List (Action Position)}
    {controller : Controller Position Primary Surface}
    (reached : run world actions = some controller) : CoverInv controller := by
  have start : CoverInv (new world) := ⟨fun _ absurd => (List.not_mem_nil absurd).elim⟩
  refine Runs.run_preserved (fun state action state' inv taken => ?_) start reached
  exact (inv.step action).of_eq_ok (eq_ok_of_toOption taken)

theorem Rooted.activeChunks (rooted : Rooted superchunk) (hasSurface : ChunkPtr → Bool) :
    (superchunk.ptr.activeChunks hasSurface).Perm
      (ControlBlock.activeSurfaces hasSurface superchunk.ptr.infos) :=
  rooted.root.elim (fun cover => cover.activeChunks) fun never => never.2.1.activeChunks

theorem activeSurfaces_nodup {walk : Walk Primary Surface} {blocks : List BlockInfo}
    (objects : ObjectsInv walk blocks) (hasSurface : ChunkPtr → Bool) :
    (ControlBlock.activeSurfaces hasSurface blocks).Nodup := by
  have chunks : (blocks.map BlockInfo.chunk).Nodup := by
    have distinct := objects.distinct
    rw [← Function.comp_def, ← List.map_map] at distinct
    exact List.Nodup.of_map _ distinct
  exact (List.filter_sublist.map BlockInfo.chunk).nodup chunks

/-- The superchunks whose roots were active are covered, no assertion on states or commands fails,
and a tick returns the active chunks with a surface, each once. -/
structure ActiveCover (world : World Position Primary Surface)
    (controller : Controller Position Primary Surface) : Prop where
  covered : ∀ entry ∈ controller.superchunks, entry.2.everActive = true → entry.2.ptr.Covered
  asserted : ∀ action, step world controller action ≠ .error .state
  returned : ∀ env controller' result,
    doTick world env controller.forgetTaken = .ok (controller', result) →
      result.Nodup ∧ result.Perm (ControlBlock.activeSurfaces
        (hasSurface world.toGenerator controller'.walk.loader) (infos controller'.superchunks))

/-- Run lemma: every state that is reached has the active cover. -/
theorem run_activeCover {actions : List (Action Position)}
    {controller : Controller Position Primary Surface}
    (reached : run world actions = some controller) : ActiveCover world controller where
  covered := by
    intro entry mem ever
    refine (((run_coverInv reached).rooted entry mem).root.resolve_right ?_).covered
    rintro ⟨never, _⟩
    rw [ever] at never
    cases never
  asserted := fun action failed => ((run_coverInv reached).step action).of_eq_error failed rfl
  returned := by
    intro env controller' result ticked
    have before : ∀ entry ∈ controller.forgetTaken.superchunks, Rooted entry.2 :=
      (run_coverInv reached).rooted
    have rooted := (doTick_rooted before env).of_eq_ok ticked
    obtain ⟨placed, objects⟩ := run_blocksInv reached
    have placed : Placed controller.forgetTaken.superchunks := placed
    obtain ⟨_, ⟨objects, _⟩, _, same⟩ :=
      (doTick_rule (snapshotsRule world.toGenerator []) (fun absurd => absurd.elim) placed
        ⟨{ objects with }, Snapshots.nil _⟩ env).of_eq_ok ticked
    dsimp only at same rooted objects
    have perm : result.Perm (ControlBlock.activeSurfaces
        (hasSurface world.toGenerator controller'.walk.loader)
        (infos controller'.superchunks)) := by
      unfold infos
      rw [same, ControlBlock.activeSurfaces_flatMap]
      exact List.Perm.flatMap_left _ fun entry mem => (rooted entry mem).activeChunks _
    exact ⟨perm.nodup_iff.mpr (activeSurfaces_nodup objects _), perm⟩

theorem activateRoot_activeCover :
    ∃ controller, run uniformWorld activateRoot = some controller ∧
      (∃ entry ∈ controller.superchunks, entry.2.everActive = true) ∧
      ActiveCover uniformWorld controller := by
  have checked : ((run uniformWorld activateRoot).any fun controller =>
      controller.superchunks.any fun entry => entry.2.everActive) = true := by
    decide +kernel
  obtain ⟨controller, reached, active⟩ := (Option.any_eq_true _ _).mp checked
  exact ⟨controller, reached, List.any_eq_true.mp active, run_activeCover reached⟩

end Controller

end Voxen.Terrain
