import Voxen.Terrain.Controller

/-!
# Active cover

Once the root of a superchunk was active, the active blocks cover it: above them all blocks
are over-active and have all their children, and below them none is active.
-/

namespace Voxen.Terrain

open Outcome

namespace ControlBlock

/-- A block below an active one, or a root that was never active. -/
def Below : ControlBlock → Prop
  | absent => True
  | node info children =>
    info.state ≠ .active ∧ info.overActive = false ∧ ∀ i, (children i).Below

/-- The active blocks cover the chunk. -/
def Cover : ControlBlock → Prop
  | absent => False
  | node info children =>
    (info.state = .active ∧ info.overActive = false ∧ ∀ i, (children i).Below) ∨
      info.state = .standby ∧ info.overActive = true ∧ ∀ i, (children i).Cover

/-- Above a block that has changed all have changed. -/
def ChangesUp : ControlBlock → Prop
  | absent => True
  | node info children => ∀ i,
      ((children i).isChunkChanged = true → info.chunkChanged = true) ∧ (children i).ChangesUp

variable {block : ControlBlock} {canChunkChanged : Bool}

theorem Cover.isPresent (cover : block.Cover) : block.isPresent = true := by
  cases block with
  | absent => exact cover.elim
  | node info children => rfl

theorem validate_changed {changed : Bool} (can : changed = true → canChunkChanged = true) :
    (canChunkChanged || !changed) = true := by
  cases changed with
  | false => cases canChunkChanged <;> rfl
  | true =>
    rw [can rfl]
    rfl

theorem Below.validateState (below : block.Below) (up : block.ChangesUp)
    (can : block.isChunkChanged = true → canChunkChanged = true) :
    block.validateState true canChunkChanged = true := by
  induction block generalizing canChunkChanged with
  | absent => rfl
  | node info children ih =>
    obtain ⟨idle, single, rest⟩ := below
    have changed : (canChunkChanged || !info.chunkChanged) = true := validate_changed can
    have children' : ((List.finRange 8).all fun i =>
        (children i).validateState true info.chunkChanged) = true :=
      List.all_eq_true.mpr fun i _ => ih i (rest i) (up i).2 (up i).1
    unfold ControlBlock.validateState
    simp only [beq_eq_false_iff_ne.mpr idle, single, changed, children', Bool.not_true,
      Bool.false_eq_true, if_false, Bool.not_false, Bool.or_true, Bool.and_self]

theorem Cover.validateState (cover : block.Cover) (up : block.ChangesUp)
    (can : block.isChunkChanged = true → canChunkChanged = true) :
    block.validateState false canChunkChanged = true := by
  induction block generalizing canChunkChanged with
  | absent => exact cover.elim
  | node info children ih =>
    have changed : (canChunkChanged || !info.chunkChanged) = true := validate_changed can
    unfold ControlBlock.validateState
    rcases cover with ⟨active, single, rest⟩ | ⟨standby, wide, rest⟩
    · have children' : ((List.finRange 8).all fun i =>
          (children i).validateState true info.chunkChanged) = true :=
        List.all_eq_true.mpr fun i _ => (rest i).validateState (up i).2 (up i).1
      simp only [active, single, changed, beq_self_eq_true, Bool.true_or, if_true,
        children', Bool.not_false, Bool.or_true, Bool.and_self]
    · have children' : ((List.finRange 8).all fun i =>
          (children i).validateState false info.chunkChanged) = true :=
        List.all_eq_true.mpr fun i _ => ih i (rest i) (up i).2 (up i).1
      have present : ((List.finRange 8).any fun i => (children i).isPresent) = true :=
        List.any_eq_true.mpr ⟨0, List.mem_finRange 0, (rest 0).isPresent⟩
      have idle : (BlockState.standby == BlockState.active) = false := rfl
      simp only [standby, wide, idle, changed, present, children', Bool.or_false,
        Bool.false_eq_true, if_false, Bool.not_false, if_true, beq_self_eq_true, Bool.and_self]

end ControlBlock

/-! ## Updates of one block -/

section Update

variable {Primary Surface : Type} (generator : Generator Primary Surface) (env : TickEnv)

/-- No assertion on states or commands has failed. -/
abbrev StatesHold {α : Type} (post : α → Prop) : Except Fault α → Prop :=
  Holds (· ≠ .state) post

theorem advance_statesHold (loader : TerrainLoader Primary Surface) (ptr : ChunkPtr) :
    StatesHold (fun _ => True) (loader.advance generator ptr) := by
  unfold TerrainLoader.advance
  split
  · split
    · exact Fault.noConfusion
    · trivial
  · split
    · split
      · trivial
      · exact Fault.noConfusion
    · trivial
  · trivial
  · trivial
  · trivial

theorem runWorkers_statesHold (walk : Walk Primary Surface) :
    StatesHold (fun _ => True) (walk.runWorkers generator env) := by
  have advanced : StatesHold (fun _ => True)
      ((env.workers walk.visits).foldlM (TerrainLoader.advance generator) walk.loader) :=
    Holds.foldlM (fun loader ptr _ _ => advance_statesHold generator loader ptr) trivial
  exact advanced.bind fun _ _ => trivial

theorem unload_statesHold (walk : Walk Primary Surface) (ptr : ChunkPtr) :
    StatesHold (fun _ => True) (walk.unload ptr) := by
  have inserted : StatesHold (fun _ => True) (walk.loader.unload ptr) := by
    unfold TerrainLoader.unload
    split
    · split
      · trivial
      · exact Fault.noConfusion
    · exact Fault.noConfusion
  exact inserted.bind fun _ _ => trivial

theorem enqueueLoadingChunk_statesHold (walk : Walk Primary Surface) (id : Land.ChunkKey) :
    StatesHold (fun entry => entry.2.state = .loading ∧ entry.2.overActive = false)
      (walk.enqueueLoadingChunk generator id) := by
  unfold Walk.enqueueLoadingChunk
  dsimp only
  split
  · exact Fault.noConfusion
  · exact ⟨rfl, rfl⟩

theorem updateChunkLoading_statesHold {info : BlockInfo} (idle : info.state ≠ .active)
    (walk : Walk Primary Surface) :
    StatesHold (fun updated => ∃ state, state ≠ .active ∧
        updated.2 = some { info := { info with state := state }, command := .nothing })
      (updateChunkLoading info .nothing walk) := by
  unfold updateChunkLoading
  rw [if_neg (by simp)]
  split
  · exact Fault.noConfusion
  · split
    · exact ⟨.standby, by decide, rfl⟩
    · exact ⟨info.state, idle, rfl⟩

theorem updateChunkStandby_becomeActive {info : BlockInfo} (single : info.overActive = false)
    (children : Fin 8 → ControlBlock) (walk : Walk Primary Surface) :
    updateChunkStandby env info children .becomeActive walk =
      .ok (walk, some { info := { info with state := .active, chunkChanged := true }
                        command := .nothing }) := by
  unfold updateChunkStandby
  rw [single]
  rfl

theorem updateChunkStandby_below {info : BlockInfo} (single : info.overActive = false)
    (children : Fin 8 → ControlBlock) (walk : Walk Primary Surface) :
    StatesHold (fun updated => updated.2 = none ∨
        updated.2 = some { info := info, command := .nothing })
      (updateChunkStandby env info children .nothing walk) := by
  unfold updateChunkStandby
  rw [single, Bool.false_and, if_neg Bool.false_ne_true, if_neg (by simp), if_neg (by simp)]
  split
  · exact Or.inr rfl
  · dsimp only
    split
    · exact Holds.bind (unload_statesHold _ _) fun _ _ => Or.inl rfl
    · exact Or.inr rfl

theorem canDeteriorate_statesHold (id : Land.ChunkKey) {children : Fin 8 → ControlBlock}
    (present : ∀ i, (children i).isPresent = true) (is : List (Fin 8))
    (walk : Walk Primary Surface) :
    StatesHold (fun result => result.2 = true → ∀ i ∈ is, (children i).isActive = true)
      (canDeteriorate env id children is walk) := by
  induction is generalizing walk with
  | nil => exact fun _ _ absurd => (List.not_mem_nil absurd).elim
  | cons i is ih =>
    unfold canDeteriorate
    cases child : children i with
    | absent =>
      have absurd := present i
      rw [child] at absurd
      cases absurd
    | node info grandchildren =>
      dsimp only
      split
      · exact fun absurd => by cases absurd
      · rename_i active
        split
        · exact fun absurd => by cases absurd
        · refine (ih _).mono fun result all can => List.forall_mem_cons.mpr ⟨?_, all can⟩
          rw [child]
          exact beq_iff_eq.mpr (not_not.mp active)

/-- A block with all its children stays as it is, or becomes active when all of them are. -/
theorem updateChunkStandby_present (info : BlockInfo) {children : Fin 8 → ControlBlock}
    (present : ∀ i, (children i).isPresent = true) (walk : Walk Primary Surface) :
    StatesHold (fun updated => updated.2 = some { info := info, command := .nothing } ∨
        (∀ i, (children i).isActive = true) ∧ updated.2 =
          some { info := { info with state := .active, overActive := false, chunkChanged := true }
                 command := .becomeStandby })
      (updateChunkStandby env info children .nothing walk) := by
  unfold updateChunkStandby
  split
  · rw [if_neg (by simp)]
    dsimp only
    split
    · exact Or.inl rfl
    · refine Holds.bind (canDeteriorate_statesHold env _ present _ _) ?_
      rintro ⟨walk, can⟩ all
      dsimp only at all ⊢
      split
      · rename_i yes
        exact Or.inr ⟨fun i => all yes i (List.mem_finRange i), rfl⟩
      · exact Or.inl rfl
  · have some : ((List.finRange 8).any fun i => (children i).isPresent) = true :=
      List.any_eq_true.mpr ⟨0, List.mem_finRange 0, present 0⟩
    rw [if_neg (by simp), if_neg (by simp), if_pos some]
    exact Or.inl rfl

/-- The loop creates loading blocks where there are none, and the flag is set only if all children
are there and loaded. -/
theorem requestChildren_statesHold (id : Land.ChunkKey) (children : Fin 8 → ControlBlock)
    (is : List (Fin 8)) (walk : Walk Primary Surface) :
    StatesHold (fun result =>
        (∀ i new, result.2.1 i = some new → new.state = .loading ∧ new.overActive = false) ∧
        (result.2.2 = true → result.2.1 = (fun _ => none) ∧
          ∀ i ∈ is, ∃ info grandchildren, children i = .node info grandchildren ∧
            info.state ≠ .loading))
      (requestChildren generator id children is walk) := by
  induction is generalizing walk with
  | nil =>
    refine ⟨fun _ _ absurd => (by cases absurd), fun _ => ⟨rfl, fun _ absurd => ?_⟩⟩
    exact (List.not_mem_nil absurd).elim
  | cons i is ih =>
    unfold requestChildren
    cases child : children i with
    | absent =>
      refine Holds.bind (enqueueLoadingChunk_statesHold generator walk _) ?_
      rintro ⟨walk, new⟩ loading
      refine Holds.bind (ih walk) ?_
      rintro ⟨walk, created, can⟩ ⟨others, _⟩
      refine ⟨fun j other same => ?_, fun absurd => by cases absurd⟩
      dsimp only at same
      by_cases here : j = i
      · subst here
        rw [Function.update_self] at same
        cases same
        exact loading
      · rw [Function.update_of_ne here] at same
        exact others j other same
    | node info grandchildren =>
      refine Holds.bind (ih walk) ?_
      rintro ⟨walk, created, can⟩ ⟨others, all⟩
      refine ⟨others, fun yes => ?_⟩
      obtain ⟨loaded, can⟩ := Bool.and_eq_true_iff.mp yes
      obtain ⟨none, rest⟩ := all can
      refine ⟨none, List.forall_mem_cons.mpr ⟨⟨info, grandchildren, child, ?_⟩, rest⟩⟩
      exact bne_iff_ne.mp loaded

theorem updateChunkActive_statesHold (info : BlockInfo) (children : Fin 8 → ControlBlock)
    (walk : Walk Primary Surface) :
    StatesHold (fun updated =>
        (∃ created : Fin 8 → Option BlockInfo,
          (∀ i new, created i = some new → new.state = .loading ∧ new.overActive = false) ∧
          updated.2 = some { info := info, command := .nothing, created := created }) ∨
        (∀ i, ∃ info grandchildren, children i = .node info grandchildren ∧
          info.state ≠ .loading) ∧
          updated.2 = some { info := { info with state := .standby, overActive := true }
                             command := .becomeActive })
      (updateChunkActive generator env info children .nothing walk) := by
  unfold updateChunkActive
  rw [if_neg (by simp), if_neg (by simp)]
  dsimp only
  split
  · refine Holds.bind (requestChildren_statesHold generator _ children _ _) ?_
    rintro ⟨walk, created, can⟩ ⟨loading, all⟩
    dsimp only at loading all ⊢
    split
    · rename_i yes
      obtain ⟨none, loaded⟩ := all yes
      rw [none]
      exact Or.inr ⟨fun i => loaded i (List.mem_finRange i), rfl⟩
    · exact Or.inl ⟨created, loading, rfl⟩
  · exact Or.inl ⟨_, fun _ _ absurd => (by cases absurd), rfl⟩

/-! ## Updates of a tree -/

variable {fault : Fault → Prop} {post : Fin 8 → ControlBlock → Prop}
  {update : Fin 8 → Walk Primary Surface → Except Fault (Walk Primary Surface × ControlBlock)}

theorem updateChildren_holds
    (each : ∀ i walk, Holds fault (fun updated => post i updated.2) (update i walk))
    (is : List (Fin 8)) (walk : Walk Primary Surface) :
    Holds fault (fun updated => ∀ i ∈ is, post i (updated.2 i))
      (updateChildren update is walk) := by
  induction is generalizing walk with
  | nil => exact fun _ absurd => (List.not_mem_nil absurd).elim
  | cons i is ih =>
    unfold updateChildren
    refine Holds.bind (each i walk) ?_
    rintro ⟨walk, child⟩ first
    refine Holds.bind (ih walk) ?_
    rintro ⟨walk, children⟩ others j mem
    dsimp only
    by_cases here : j = i
    · subst here
      rw [Function.update_self]
      exact first
    · rw [Function.update_of_ne here]
      exact others j ((List.mem_cons.mp mem).resolve_left here)

theorem updateChildren_all
    (each : ∀ i walk, Holds fault (fun updated => post i updated.2) (update i walk))
    (walk : Walk Primary Surface) :
    Holds fault (fun updated => ∀ i, post i (updated.2 i))
      (updateChildren update (List.finRange 8) walk) :=
  (updateChildren_holds each _ walk).mono fun _ all i => all i (List.mem_finRange i)

theorem updateCreated_below {info : BlockInfo} (idle : info.state ≠ .active)
    (single : info.overActive = false) (walk : Walk Primary Surface) :
    StatesHold (fun updated => updated.2.Below)
      (updateCreated generator env info .nothing walk) := by
  unfold updateCreated
  refine Holds.bind (runWorkers_statesHold generator env walk) fun walk _ => ?_
  refine Holds.bind (updateChunkLoading_statesHold idle walk) ?_
  rintro ⟨walk, _⟩ ⟨state, idle, rfl⟩
  exact ⟨idle, single, fun _ => trivial⟩

/-- The updates of a whole subtree. -/
structure SubtreeHolds (block : ControlBlock) : Prop where
  unload : ∀ walk : Walk Primary Surface,
    StatesHold (fun _ => True) (updateChunk generator env block .unload walk)
  below : block.Below → ∀ walk : Walk Primary Surface,
    StatesHold (fun updated => updated.2.Below) (updateChunk generator env block .nothing walk)
  becomeActive : block.Below → block.isPresent = true →
    (∀ info children, block = .node info children → info.state ≠ .loading) →
    ∀ walk : Walk Primary Surface,
      StatesHold (fun updated => updated.2.Cover)
        (updateChunk generator env block .becomeActive walk)
  cover : block.Cover → ∀ walk : Walk Primary Surface,
    StatesHold (fun updated => updated.2.Cover) (updateChunk generator env block .nothing walk)
  becomeStandby : block.Cover → block.isActive = true → ∀ walk : Walk Primary Surface,
    StatesHold (fun updated => updated.2.Below)
      (updateChunk generator env block .becomeStandby walk)

section Subtree

variable {generator env} {info : BlockInfo} {children : Fin 8 → ControlBlock}

variable {fault : Fault → Prop}

theorem withChildren_holds {post : Fin 8 → ControlBlock → Prop}
    {update : Fin 8 → Walk Primary Surface → Except Fault (Walk Primary Surface × ControlBlock)}
    (each : ∀ i walk, Holds fault (fun updated => post i updated.2) (update i walk))
    (info : BlockInfo) (walk : Walk Primary Surface) :
    Holds fault (fun updated => ∃ children, (∀ i, post i (children i)) ∧
        updated.2 = withChildren info children)
      (do
        let (walk, children) ← updateChildren update (List.finRange 8) walk
        .ok (walk, withChildren info children)) := by
  refine Holds.bind (updateChildren_all each walk) ?_
  rintro ⟨walk, children⟩ all
  exact ⟨children, all, rfl⟩

theorem updateChunk_holds {post : ControlBlock → Prop} (selfPost : Option Kept → Prop)
    {parentCmd : ParentCommand} (kept : parentCmd ≠ .unload) {walk : Walk Primary Surface}
    (workers : Holds fault (fun _ => True) (walk.runWorkers generator env))
    (self : ∀ walk : Walk Primary Surface, Holds fault (fun updated => selfPost updated.2)
      (updateSelf generator env info children parentCmd walk)) (gone : selfPost none → post .absent)
    (stays : ∀ kept walk, selfPost (some kept) → Holds fault (fun updated => post updated.2)
      (do
        let (walk, children) ← updateChildren (fun i =>
          match kept.created i with
          | some new => updateCreated generator env new kept.command
          | none => updateChunk generator env (children i) kept.command)
          (List.finRange 8) walk
        .ok (walk, withChildren kept.info children))) :
    Holds fault (fun updated => post updated.2)
      (updateChunk generator env (.node info children) parentCmd walk) := by
  unfold updateChunk
  refine Holds.bind workers fun walk _ => ?_
  rw [if_neg kept]
  refine Holds.bind (self walk) ?_
  rintro ⟨walk, _ | kept⟩ done
  · exact gone done
  · exact stays kept walk done

theorem SubtreeHolds.absent : SubtreeHolds generator env .absent where
  unload := fun _ => trivial
  below := fun _ _ => trivial
  becomeActive := fun _ absurd => by cases absurd
  cover := fun absurd => absurd.elim
  becomeStandby := fun absurd => absurd.elim

theorem SubtreeHolds.node_unload (subtrees : ∀ i, SubtreeHolds generator env (children i))
    (walk : Walk Primary Surface) :
    StatesHold (fun _ => True) (updateChunk generator env (.node info children) .unload walk) := by
  unfold updateChunk
  refine Holds.bind (runWorkers_statesHold generator env walk) fun walk _ => ?_
  rw [if_pos rfl]
  refine Holds.bind (unload_statesHold walk _) fun walk _ => ?_
  let everything : Fin 8 → ControlBlock → Prop := fun _ _ => True
  have all : StatesHold (fun updated => ∀ i, everything i (updated.2 i))
      (updateChildren (fun i => updateChunk generator env (children i) .unload)
        (List.finRange 8) walk) :=
    updateChildren_all (fun i walk => (subtrees i).unload walk) walk
  exact all.bind fun _ _ => trivial

theorem SubtreeHolds.node_below (subtrees : ∀ i, SubtreeHolds generator env (children i))
    (below : (ControlBlock.node info children).Below) (walk : Walk Primary Surface) :
    StatesHold (fun updated => updated.2.Below)
      (updateChunk generator env (.node info children) .nothing walk) := by
  obtain ⟨idle, single, rest⟩ := below
  refine updateChunk_holds (fun kept => kept = none ∨ ∃ state, state ≠ .active ∧
      kept = some { info := { info with state := state }, command := .nothing }) (by simp)
    (runWorkers_statesHold generator env walk) (fun walk => ?_) (fun _ => trivial) ?_
  · unfold updateSelf
    cases state : info.state with
    | loading =>
      exact (updateChunkLoading_statesHold idle walk).mono fun _ => Or.inr
    | standby =>
      refine (updateChunkStandby_below env single children walk).mono fun updated done => ?_
      exact done.imp_right fun same => ⟨info.state, idle, same⟩
    | active => exact absurd state idle
  · rintro _ walk (absurd | ⟨state, idle, same⟩)
    · cases absurd
    · cases same
      refine (withChildren_holds (fun i => (subtrees i).below (rest i)) _ walk).mono ?_
      rintro _ ⟨children, all, same⟩
      rw [same]
      exact ⟨idle, single, all⟩

theorem SubtreeHolds.node_becomeActive (subtrees : ∀ i, SubtreeHolds generator env (children i))
    (below : (ControlBlock.node info children).Below) (loaded : info.state ≠ .loading)
    (walk : Walk Primary Surface) :
    StatesHold (fun updated => updated.2.Cover)
      (updateChunk generator env (.node info children) .becomeActive walk) := by
  obtain ⟨idle, single, rest⟩ := below
  refine updateChunk_holds (fun kept => kept = some
      { info := { info with state := .active, chunkChanged := true }, command := .nothing })
    (by simp) (runWorkers_statesHold generator env walk) (fun walk => ?_)
    (fun absurd => by cases absurd) ?_
  · unfold updateSelf
    cases state : info.state with
    | loading => exact absurd state loaded
    | standby =>
      dsimp only
      rw [updateChunkStandby_becomeActive env single children walk]
      rfl
    | active => exact absurd state idle
  · rintro _ walk ⟨⟩
    refine (withChildren_holds (fun i => (subtrees i).below (rest i)) _ walk).mono ?_
    rintro _ ⟨children, all, same⟩
    rw [same]
    exact Or.inl ⟨rfl, single, all⟩

theorem SubtreeHolds.node_becomeStandby (subtrees : ∀ i, SubtreeHolds generator env (children i))
    (cover : (ControlBlock.node info children).Cover) (active : info.state = .active)
    (walk : Walk Primary Surface) :
    StatesHold (fun updated => updated.2.Below)
      (updateChunk generator env (.node info children) .becomeStandby walk) := by
  have below : info.overActive = false ∧ ∀ i, (children i).Below := by
    rcases cover with ⟨_, single, rest⟩ | ⟨standby, _⟩
    · exact ⟨single, rest⟩
    · rw [active] at standby
      cases standby
  refine updateChunk_holds (fun kept => kept = some
      { info := { info with state := .standby }, command := .nothing })
    (by simp) (runWorkers_statesHold generator env walk) (fun walk => ?_)
    (fun absurd => by cases absurd) ?_
  · unfold updateSelf updateChunkActive
    rw [active]
    rfl
  · rintro _ walk ⟨⟩
    refine (withChildren_holds (fun i => (subtrees i).below (below.2 i)) _ walk).mono ?_
    rintro _ ⟨children, all, same⟩
    rw [same]
    exact ⟨by simp, below.1, all⟩

theorem created_below {created : Option BlockInfo} {child : ControlBlock}
    (new : ∀ info, created = some info → info.state = .loading ∧ info.overActive = false)
    (old : ∀ walk : Walk Primary Surface, StatesHold (fun updated => updated.2.Below)
      (updateChunk generator env child .nothing walk)) (walk : Walk Primary Surface) :
    StatesHold (fun updated : Walk Primary Surface × ControlBlock => updated.2.Below)
      ((match created with
        | some info => updateCreated generator env info .nothing
        | none => updateChunk generator env child .nothing) walk) := by
  cases created with
  | none => exact old walk
  | some info =>
    obtain ⟨loading, single⟩ := new info rfl
    exact updateCreated_below generator env (by rw [loading]; simp) single walk

theorem SubtreeHolds.node_active (subtrees : ∀ i, SubtreeHolds generator env (children i))
    (active : info.state = .active) (single : info.overActive = false)
    (rest : ∀ i, (children i).Below) (walk : Walk Primary Surface) :
    StatesHold (fun updated => updated.2.Cover)
      (updateChunk generator env (.node info children) .nothing walk) := by
  refine updateChunk_holds (fun kept =>
      (∃ created : Fin 8 → Option BlockInfo,
        (∀ i new, created i = some new → new.state = .loading ∧ new.overActive = false) ∧
        kept = some { info := info, command := .nothing, created := created }) ∨
      (∀ i, ∃ info grandchildren, children i = .node info grandchildren ∧
        info.state ≠ .loading) ∧
        kept = some { info := { info with state := .standby, overActive := true }
                      command := .becomeActive })
    (by simp) (runWorkers_statesHold generator env walk) (fun walk => ?_) ?_ ?_
  · unfold updateSelf
    rw [active]
    exact updateChunkActive_statesHold generator env info children walk
  · rintro (⟨_, _, absurd⟩ | ⟨_, absurd⟩) <;> cases absurd
  · rintro _ walk (⟨created, new, same⟩ | ⟨loaded, same⟩)
    · cases same
      refine (withChildren_holds (fun i walk =>
        created_below (new i) ((subtrees i).below (rest i)) walk) _ walk).mono ?_
      rintro _ ⟨children, all, same⟩
      rw [same]
      exact Or.inl ⟨active, single, all⟩
    · cases same
      have becomes : ∀ i, ∀ walk : Walk Primary Surface,
          StatesHold (fun updated => updated.2.Cover)
            (updateChunk generator env (children i) .becomeActive walk) := by
        intro i walk
        obtain ⟨child, grandchildren, here, loaded⟩ := loaded i
        refine (subtrees i).becomeActive (rest i) (by rw [here]; rfl) ?_ walk
        intro other _ same
        rw [here] at same
        cases same
        exact loaded
      refine (withChildren_holds becomes _ walk).mono ?_
      rintro _ ⟨children, all, same⟩
      rw [same]
      exact Or.inr ⟨rfl, rfl, all⟩

theorem SubtreeHolds.node_over (subtrees : ∀ i, SubtreeHolds generator env (children i))
    (standby : info.state = .standby) (wide : info.overActive = true)
    (rest : ∀ i, (children i).Cover) (walk : Walk Primary Surface) :
    StatesHold (fun updated => updated.2.Cover)
      (updateChunk generator env (.node info children) .nothing walk) := by
  refine updateChunk_holds (fun kept => kept = some { info := info, command := .nothing } ∨
      (∀ i, (children i).isActive = true) ∧ kept =
        some { info := { info with state := .active, overActive := false, chunkChanged := true }
               command := .becomeStandby })
    (by simp) (runWorkers_statesHold generator env walk) (fun walk => ?_) ?_ ?_
  · unfold updateSelf
    rw [standby]
    exact updateChunkStandby_present env info (fun i => (rest i).isPresent) walk
  · rintro (absurd | ⟨_, absurd⟩) <;> cases absurd
  · rintro _ walk (same | ⟨active, same⟩)
    · cases same
      refine (withChildren_holds (fun i => (subtrees i).cover (rest i)) _ walk).mono ?_
      rintro _ ⟨children, all, same⟩
      rw [same]
      exact Or.inr ⟨standby, wide, all⟩
    · cases same
      refine (withChildren_holds
        (fun i => (subtrees i).becomeStandby (rest i) (active i)) _ walk).mono ?_
      rintro _ ⟨children, all, same⟩
      rw [same]
      exact Or.inl ⟨rfl, rfl, all⟩

end Subtree

theorem subtreeHolds (block : ControlBlock) :
    SubtreeHolds generator env block := by
  induction block with
  | absent => exact SubtreeHolds.absent
  | node info children ih =>
    exact
      { unload := SubtreeHolds.node_unload ih
        below := SubtreeHolds.node_below ih
        becomeActive := fun below _ loaded =>
          SubtreeHolds.node_becomeActive ih below (loaded info children rfl)
        cover := by
          rintro (⟨active, single, rest⟩ | ⟨standby, wide, rest⟩)
          · exact SubtreeHolds.node_active ih active single rest
          · exact SubtreeHolds.node_over ih standby wide rest
        becomeStandby := fun cover active =>
          SubtreeHolds.node_becomeStandby ih cover (beq_iff_eq.mp active) }

end Update

end Voxen.Terrain
