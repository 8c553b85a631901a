import Voxen.Terrain.Controller

/-!
# Invariants of the walk

What the enqueueing, the progress and the end of loads keep, the walk over a tree of
control blocks keeps.  The blocks of other trees stay as they are; when no two blocks have
the same key, a new block gets a key that no block has.
-/

namespace Voxen.Terrain

open Outcome
open Land (ChunkKey)

namespace ControlBlock

/-- The block and its descendants have the keys of their places. -/
def Keyed : ControlBlock → ChunkKey → Prop
  | absent, _ => True
  | node info children, key => info.chunk.id = key ∧
      ∀ i, ((children i).isPresent = true → 0 < key.scaleLog2.toNat) ∧
        (children i).Keyed (key.childLodKey i)

/-- A child of the key is there, and the other key lies in its cube. -/
def InsideChild (key : ChunkKey) (i : Fin 8) (other : ChunkKey) : Prop :=
  0 < key.scaleLog2.toNat ∧ (key.childLodKey i).Inside other

variable {i : Fin 8} {key : ChunkKey} {block : ControlBlock}

theorem InsideChild.inside {other : ChunkKey} (aligned : key.Aligned)
    (inside : InsideChild key i other) : key.Inside other :=
  (ChunkKey.childLodKey_inside aligned inside.1 i).trans inside.2

theorem InsideChild.eq {other : ChunkKey} {j : Fin 8} (aligned : key.Aligned)
    (first : InsideChild key i other) (second : InsideChild key j other) : i = j :=
  ChunkKey.childLodKey_apart aligned first.1 first.2 second.2

theorem infos_eq_nil (gone : block.isPresent ≠ true) : block.infos = [] := by
  cases block with
  | absent => rfl
  | node info children => exact absurd rfl gone

theorem Keyed.inside (keyed : block.Keyed key) (aligned : key.Aligned) :
    ∀ info ∈ block.infos, key.Inside info.chunk.id := by
  induction block generalizing key with
  | absent => exact fun _ absurd => (List.not_mem_nil absurd).elim
  | node info children ih =>
    obtain ⟨rfl, rest⟩ := keyed
    intro other mem
    rcases List.mem_cons.mp mem with rfl | mem
    · exact ChunkKey.Inside.refl _
    · obtain ⟨i, _, mem⟩ := List.mem_flatMap.mp mem
      obtain ⟨large, keyed⟩ := rest i
      have present : (children i).isPresent = true := by
        by_contra gone
        rw [infos_eq_nil gone] at mem
        exact List.not_mem_nil mem
      have large := large present
      exact (ChunkKey.childLodKey_inside aligned large i).trans
        (ih i keyed (ChunkKey.childLodKey_aligned aligned large i) other mem)

/-- The child of a block with the key, in its place. -/
def KeyedChild (key : ChunkKey) (i : Fin 8) (block : ControlBlock) : Prop :=
  (block.isPresent = true → 0 < key.scaleLog2.toNat) ∧ block.Keyed (key.childLodKey i)

theorem KeyedChild.inside (aligned : key.Aligned) (child : KeyedChild key i block) :
    ∀ info ∈ block.infos, InsideChild key i info.chunk.id := by
  obtain ⟨large, keyed⟩ := child
  intro info mem
  have present : block.isPresent = true := by
    by_contra gone
    rw [infos_eq_nil gone] at mem
    exact List.not_mem_nil mem
  have large := large present
  exact ⟨large, keyed.inside (ChunkKey.childLodKey_aligned aligned large i) info mem⟩

end ControlBlock

open ControlBlock (InsideChild KeyedChild)

section Rule

variable {Primary Surface : Type}

/-- What the steps of the walk have to keep of the walk and the blocks.  A careful run passes no
loading block to the loader, and gives no key twice. -/
structure WalkRule (generator : Generator Primary Surface) (fault : Fault → Prop) (careful : Prop)
    (inv : Walk Primary Surface → List BlockInfo → Prop) : Prop where
  state : fault .state
  perm : ∀ {walk blocks blocks'}, List.Perm blocks blocks' → inv walk blocks → inv walk blocks'
  counters : ∀ {walk blocks} quota visits calls, inv walk blocks →
    inv { walk with directOpQuota := quota, visits := visits, calls := calls } blocks
  advance : ∀ {walk blocks} ptr, inv walk blocks →
    Holds fault (fun loader => inv { walk with loader := loader } blocks)
      (walk.loader.advance generator ptr)
  enqueue : ∀ {walk blocks} id, inv walk blocks →
    (careful → ∀ info ∈ blocks, info.chunk.id ≠ id) →
    Holds fault (fun entry => inv entry.1 (entry.2 :: blocks))
      (walk.enqueueLoadingChunk generator id)
  unload : ∀ {walk : Walk Primary Surface} {info blocks}, inv walk (info :: blocks) →
    (careful → info.state ≠ .loading) →
    Holds fault (fun walk => inv walk blocks) (walk.unload info.chunk)
  missing : ∀ {walk : Walk Primary Surface} {info blocks}, inv walk (info :: blocks) →
    info.state = .loading → walk.asyncChunkLoads info.chunk.id = none → fault .loads
  loaded : ∀ {walk : Walk Primary Surface} {info blocks handle}, inv walk (info :: blocks) →
    info.state = .loading → walk.asyncChunkLoads info.chunk.id = some handle →
    walk.loader.stages handle = some .finished →
    inv { walk with asyncChunkLoads := Function.update walk.asyncChunkLoads info.chunk.id none }
      ({ info with state := .standby } :: blocks)
  flags : ∀ {walk : Walk Primary Surface} {info info' blocks}, inv walk (info :: blocks) →
    info'.chunk = info.chunk → (info'.state = .loading ↔ info.state = .loading) →
    inv walk (info' :: blocks)

variable {generator : Generator Primary Surface} {env : TickEnv} {fault : Fault → Prop}
  {careful : Prop} {inv : Walk Primary Surface → List BlockInfo → Prop}

theorem enqueueLoadingChunk_block (generator : Generator Primary Surface)
    (walk : Walk Primary Surface) (id : ChunkKey) :
    Holds (fun _ => True) (fun entry => entry.2.state = .loading ∧ entry.2.chunk.id = id)
      (walk.enqueueLoadingChunk generator id) := by
  unfold Walk.enqueueLoadingChunk
  dsimp only
  split
  · trivial
  · exact ⟨rfl, rfl⟩

namespace WalkRule

variable (rule : WalkRule generator fault careful inv)
include rule

variable {blocks rest : List BlockInfo} {walk : Walk Primary Surface} {info : BlockInfo}
  {children : Fin 8 → ControlBlock} {key : ChunkKey}

theorem runWorkers (start : inv walk blocks) :
    Holds fault (fun walk => inv walk blocks) (walk.runWorkers generator env) := by
  have each : ∀ loader, ∀ ptr ∈ env.workers walk.visits,
      inv { walk with loader := loader } blocks →
      Holds fault (fun loader => inv { walk with loader := loader } blocks)
        (loader.advance generator ptr) := fun _ ptr _ kept => rule.advance ptr kept
  have advanced : Holds fault (fun loader => inv { walk with loader := loader } blocks)
      ((env.workers walk.visits).foldlM (TerrainLoader.advance generator) walk.loader) :=
    Holds.foldlM each start
  exact advanced.bind fun _ kept => rule.counters _ _ _ kept

theorem calcLodDirection (start : inv walk blocks) (env : TickEnv) :
    inv (walk.calcLodDirection env).1 blocks :=
  rule.counters _ _ _ start

theorem updateChunkLoading (start : inv walk (info :: blocks)) (loading : info.state = .loading)
    (parentCmd : ParentCommand) :
    Holds fault (fun updated => ∃ kept, updated.2 = some kept ∧
        inv updated.1 (kept.info :: blocks) ∧ kept.info.chunk = info.chunk ∧
        kept.command = .nothing ∧ kept.created = fun _ => none)
      (Terrain.updateChunkLoading info parentCmd walk) := by
  unfold Terrain.updateChunkLoading
  split
  · exact rule.state
  · split
    · rename_i none
      exact rule.missing start loading none
    · rename_i handle some
      split
      · rename_i finished
        exact ⟨_, rfl, rule.loaded start loading some finished, rfl, rfl, rfl⟩
      · exact ⟨_, rfl, start, rfl, rfl, rfl⟩

theorem canDeteriorate (start : inv walk blocks) (id : ChunkKey) (children : Fin 8 → ControlBlock)
    (is : List (Fin 8)) :
    Holds fault (fun result => inv result.1 blocks)
      (Terrain.canDeteriorate env id children is walk) := by
  induction is generalizing walk with
  | nil => exact start
  | cons i is ih =>
    unfold Terrain.canDeteriorate
    split
    · exact rule.state
    · split
      · exact start
      · dsimp only
        split
        · exact rule.calcLodDirection start env
        · exact ih (rule.calcLodDirection start env)

/-- What an update of a block on its own gives. -/
structure KeptBy (info : BlockInfo) (children : Fin 8 → ControlBlock) (kept : Kept) : Prop where
  chunk : kept.info.chunk = info.chunk
  command : kept.command ≠ .unload
  created : ∀ i new, kept.created i = some new → children i = .absent ∧
    0 < info.chunk.id.scaleLog2.toNat ∧ new.state = .loading ∧
    new.chunk.id = info.chunk.id.childLodKey i

omit rule in
theorem KeptBy.of_none {kept : Kept} (chunk : kept.info.chunk = info.chunk)
    (command : kept.command ≠ .unload) (created : kept.created = fun _ => none) :
    KeptBy info children kept where
  chunk := chunk
  command := command
  created := fun i new same => by
    rw [created] at same
    cases same

/-- The blocks once a block has been updated, without its old children. -/
def After (inv : Walk Primary Surface → List BlockInfo → Prop) (info : BlockInfo)
    (children : Fin 8 → ControlBlock) (blocks : List BlockInfo)
    (updated : Walk Primary Surface × Option Kept) : Prop :=
  match updated.2 with
  | none => (∀ i, (children i).isPresent ≠ true) ∧ inv updated.1 blocks
  | some kept => KeptBy info children kept ∧
      inv updated.1 (kept.info ::
        ((List.finRange 8).flatMap (fun i => (kept.created i).toList) ++ blocks))

omit rule in
theorem after_of_none {kept : Kept} (chunk : kept.info.chunk = info.chunk)
    (command : kept.command ≠ .unload) (created : kept.created = fun _ => none)
    (kept' : inv walk (kept.info :: blocks)) :
    After inv info children blocks (walk, some kept) := by
  refine ⟨KeptBy.of_none chunk command created, ?_⟩
  have none : (List.finRange 8).flatMap (fun i => (kept.created i).toList) = [] := by
    rw [created]
    exact List.flatMap_eq_nil_iff.mpr fun _ _ => rfl
  rw [none]
  exact kept'

theorem updateChunkStandby (start : inv walk (info :: blocks)) (standby : info.state = .standby)
    (children : Fin 8 → ControlBlock) (parentCmd : ParentCommand) :
    Holds fault (After inv info children blocks)
      (Terrain.updateChunkStandby env info children parentCmd walk) := by
  have loaded : info.state ≠ .loading := by
    rw [standby]
    decide
  have stays : ∀ {walk : Walk Primary Surface}, inv walk (info :: blocks) →
      After inv info children blocks (walk, some { info := info, command := .nothing }) :=
    fun kept => after_of_none rfl (by simp) rfl kept
  unfold Terrain.updateChunkStandby
  split
  · split
    · exact rule.state
    · dsimp only
      split
      · exact stays (rule.calcLodDirection start env)
      · refine Holds.bind (rule.canDeteriorate (rule.calcLodDirection start env) _ _ _) ?_
        rintro ⟨walk, can⟩ kept
        dsimp only at kept ⊢
        split
        · refine after_of_none rfl (by simp) rfl ?_
          exact rule.counters _ _ _ (rule.flags kept rfl (by simp [loaded]))
        · exact stays kept
  · split
    · exact after_of_none rfl (by simp) rfl (rule.flags start rfl (by simp [loaded]))
    · split
      · exact rule.state
      · split
        · exact stays start
        · rename_i alone
          dsimp only
          split
          · refine Holds.bind (rule.unload (rule.calcLodDirection start env) fun _ => loaded) ?_
            refine fun walk kept => ⟨fun i present => alone ?_, kept⟩
            exact List.any_eq_true.mpr ⟨i, List.mem_finRange i, present⟩
          · exact stays (rule.calcLodDirection start env)

theorem requestChildren (aligned : key.Aligned) (large : 0 < key.scaleLog2.toNat)
    {is : List (Fin 8)} (nodup : is.Nodup) (start : inv walk blocks)
    (fresh : careful → ∀ i ∈ is, children i = .absent →
      ∀ info ∈ blocks, ¬ InsideChild key i info.chunk.id) :
    Holds fault (fun result =>
        (∀ i new, result.2.1 i = some new → i ∈ is ∧ children i = .absent ∧
          new.state = .loading ∧ new.chunk.id = key.childLodKey i) ∧
        inv result.1 (is.flatMap (fun i => (result.2.1 i).toList) ++ blocks))
      (Terrain.requestChildren generator key children is walk) := by
  induction is generalizing walk blocks with
  | nil => exact ⟨fun _ _ absurd => (by cases absurd), start⟩
  | cons i is ih =>
    obtain ⟨notIn, nodup⟩ := List.nodup_cons.mp nodup
    unfold Terrain.requestChildren
    cases child : children i with
    | node info grandchildren =>
      refine Holds.bind (ih nodup start fun careful j mem =>
        fresh careful j (List.mem_cons_of_mem _ mem)) ?_
      rintro ⟨walk, created, can⟩ ⟨new, kept⟩
      dsimp only at new kept
      refine ⟨fun j other same => ?_, ?_⟩
      · obtain ⟨mem, rest⟩ := new j other same
        exact ⟨List.mem_cons_of_mem _ mem, rest⟩
      · have none : created i = none := by
          cases here : created i with
          | none => rfl
          | some other => exact absurd (new i other here).1 notIn
        rw [List.flatMap_cons]
        dsimp only
        rw [none]
        exact kept
    | absent =>
      have unused : careful → ∀ info ∈ blocks, info.chunk.id ≠ key.childLodKey i := by
        intro careful info mem same
        refine fresh careful i List.mem_cons_self child info mem ⟨large, ?_⟩
        rw [same]
        exact ChunkKey.Inside.refl _
      refine Holds.bind ((rule.enqueue _ start unused).and
        (enqueueLoadingChunk_block generator walk (key.childLodKey i))) ?_
      rintro ⟨walk, new⟩ ⟨kept, loading, place⟩
      have fresh' : careful → ∀ j ∈ is, children j = .absent →
          ∀ info ∈ new :: blocks, ¬ InsideChild key j info.chunk.id := by
        intro careful j mem gone
        refine List.forall_mem_cons.mpr
          ⟨fun inside => ?_, fresh careful j (List.mem_cons_of_mem _ mem) gone⟩
        have here : InsideChild key i new.chunk.id := ⟨large, place ▸ ChunkKey.Inside.refl _⟩
        exact notIn (here.eq aligned inside ▸ mem)
      refine Holds.bind (ih nodup kept fresh') ?_
      rintro ⟨walk, created, can⟩ ⟨others, kept⟩
      dsimp only at others kept
      refine ⟨fun j other same => ?_, ?_⟩
      all_goals dsimp only at *
      · by_cases here : j = i
        · subst here
          rw [Function.update_self] at same
          cases same
          exact ⟨List.mem_cons_self, child, loading, place⟩
        · rw [Function.update_of_ne here] at same
          obtain ⟨mem, rest⟩ := others j other same
          exact ⟨List.mem_cons_of_mem _ mem, rest⟩
      · have same : is.flatMap (fun j => (Function.update created i (some new) j).toList) =
            is.flatMap fun j => (created j).toList := by
          refine List.flatMap_congr fun j mem => ?_
          rw [Function.update_of_ne (ne_of_mem_of_not_mem mem notIn)]
        rw [List.flatMap_cons, same, Function.update_self]
        exact rule.perm List.perm_middle kept

theorem updateChunkActive (start : inv walk (info :: blocks)) (active : info.state = .active)
    (aligned : info.chunk.id.Aligned) (fresh : careful → ∀ i, children i = .absent →
      ∀ info' ∈ info :: blocks, ¬ InsideChild info.chunk.id i info'.chunk.id)
    (parentCmd : ParentCommand) :
    Holds fault (After inv info children blocks)
      (Terrain.updateChunkActive generator env info children parentCmd walk) := by
  have loaded : info.state ≠ .loading := by
    rw [active]
    decide
  unfold Terrain.updateChunkActive
  split
  · exact after_of_none rfl (by simp) rfl (rule.flags start rfl (by simp [loaded]))
  · split
    · exact rule.state
    · dsimp only
      split
      · rename_i split
        have large : 0 < info.chunk.id.scaleLog2.toNat :=
          Nat.lt_of_le_of_lt (Nat.zero_le _) (of_decide_eq_true (Bool.and_eq_true_iff.mp split).1)
        refine Holds.bind (rule.requestChildren aligned large (List.nodup_finRange 8)
          (rule.calcLodDirection start env) fun careful i _ => fresh careful i) ?_
        rintro ⟨walk, created, can⟩ ⟨new, kept⟩
        dsimp only at new kept ⊢
        have made : ∀ i other, created i = some other → children i = .absent ∧
            0 < info.chunk.id.scaleLog2.toNat ∧ other.state = .loading ∧
            other.chunk.id = info.chunk.id.childLodKey i := by
          intro i other same
          obtain ⟨_, gone, loading, place⟩ := new i other same
          exact ⟨gone, large, loading, place⟩
        have kept := rule.perm List.perm_middle kept
        split
        · exact ⟨⟨rfl, by simp, made⟩,
            rule.counters _ _ _ (rule.flags kept rfl (by simp [loaded]))⟩
        · exact ⟨⟨rfl, by simp, made⟩, kept⟩
      · exact after_of_none rfl (by simp) rfl (rule.calcLodDirection start env)

theorem updateSelf (start : inv walk (info :: blocks)) (aligned : info.chunk.id.Aligned)
    (fresh : careful → ∀ i, children i = .absent →
      ∀ info' ∈ info :: blocks, ¬ InsideChild info.chunk.id i info'.chunk.id)
    (parentCmd : ParentCommand) :
    Holds fault (After inv info children blocks)
      (Terrain.updateSelf generator env info children parentCmd walk) := by
  unfold Terrain.updateSelf
  split
  · rename_i loading
    refine (rule.updateChunkLoading start loading parentCmd).mono ?_
    rintro ⟨walk, _⟩ ⟨kept, rfl, inv, chunk, command, created⟩
    exact after_of_none chunk (by simp [command]) created inv
  · rename_i standby
    exact rule.updateChunkStandby start standby children parentCmd
  · rename_i active
    exact rule.updateChunkActive start active aligned fresh parentCmd

/-- The loop over the children, where each update keeps to the blocks of its child. -/
theorem updateChildren (region : Fin 8 → ChunkKey → Prop)
    (apart : ∀ {i j key}, region i key → region j key → i = j) (good : Fin 8 → ControlBlock → Prop)
    (goodInside : ∀ i block, good i block → ∀ info ∈ block.infos, region i info.chunk.id)
    {old : Fin 8 → List BlockInfo} (oldInside : ∀ i, ∀ info ∈ old i, region i info.chunk.id)
    {update : Fin 8 → Walk Primary Surface → Except Fault (Walk Primary Surface × ControlBlock)}
    (each : ∀ i (walk : Walk Primary Surface) rest,
      (careful → ∀ info ∈ rest, ¬ region i info.chunk.id) → inv walk (old i ++ rest) →
      Holds fault (fun updated => good i updated.2 ∧ inv updated.1 (updated.2.infos ++ rest))
        (update i walk)) {is : List (Fin 8)} (nodup : is.Nodup)
    (outside : careful → ∀ i ∈ is, ∀ info ∈ rest, ¬ region i info.chunk.id)
    (start : inv walk (is.flatMap old ++ rest)) :
    Holds fault (fun updated => (∀ i ∈ is, good i (updated.2 i)) ∧
        inv updated.1 (is.flatMap (fun i => (updated.2 i).infos) ++ rest))
      (Terrain.updateChildren update is walk) := by
  induction is generalizing walk rest with
  | nil => exact ⟨fun _ absurd => (List.not_mem_nil absurd).elim, start⟩
  | cons i is ih =>
    obtain ⟨notIn, nodup⟩ := List.nodup_cons.mp nodup
    unfold Terrain.updateChildren
    rw [List.flatMap_cons, List.append_assoc] at start
    have others : careful → ∀ info ∈ is.flatMap old ++ rest, ¬ region i info.chunk.id := by
      intro careful info mem inside
      rcases List.mem_append.mp mem with mem | mem
      · obtain ⟨j, mem, there⟩ := List.mem_flatMap.mp mem
        exact notIn (apart inside (oldInside j info there) ▸ mem)
      · exact outside careful i List.mem_cons_self info mem inside
    refine Holds.bind (each i walk _ others start) ?_
    rintro ⟨walk, child⟩ ⟨goodChild, kept⟩
    dsimp only at goodChild kept
    have outside' : careful → ∀ j ∈ is, ∀ info ∈ child.infos ++ rest,
        ¬ region j info.chunk.id := by
      intro careful j mem info here inside
      rcases List.mem_append.mp here with here | here
      · exact notIn (apart (goodInside i child goodChild info here) inside ▸ mem)
      · exact outside careful j (List.mem_cons_of_mem _ mem) info here inside
    have middle : List.Perm (child.infos ++ (is.flatMap old ++ rest))
        (is.flatMap old ++ (child.infos ++ rest)) := by
      rw [← List.append_assoc, ← List.append_assoc]
      exact List.perm_append_comm.append_right rest
    refine Holds.bind (ih nodup outside' (rule.perm middle kept)) ?_
    rintro ⟨walk, children⟩ ⟨goodChildren, kept⟩
    dsimp only at goodChildren kept
    have same : is.flatMap (fun j => (Function.update children i child j).infos) =
        is.flatMap fun j => (children j).infos := by
      refine List.flatMap_congr fun j mem => ?_
      rw [Function.update_of_ne (ne_of_mem_of_not_mem mem notIn)]
    refine ⟨List.forall_mem_cons.mpr ⟨?_, fun j mem => ?_⟩, ?_⟩
    all_goals dsimp only
    · rw [Function.update_self]
      exact goodChild
    · rw [Function.update_of_ne (ne_of_mem_of_not_mem mem notIn)]
      exact goodChildren j mem
    · rw [List.flatMap_cons, same, Function.update_self]
      refine rule.perm ?_ kept
      rw [← List.append_assoc]
      exact List.perm_append_comm.append_right rest

theorem updateCreated (place : info.chunk.id = key) (loading : info.state = .loading)
    (start : inv walk (info :: rest)) (parentCmd : ParentCommand) :
    Holds fault (fun updated => updated.2.Keyed key ∧ inv updated.1 (updated.2.infos ++ rest))
      (Terrain.updateCreated generator env info parentCmd walk) := by
  unfold Terrain.updateCreated
  refine Holds.bind (rule.runWorkers start) fun walk kept => ?_
  refine Holds.bind (rule.updateChunkLoading kept loading parentCmd) ?_
  rintro ⟨walk, _⟩ ⟨kept, rfl, left, chunk, _, _⟩
  refine ⟨⟨chunk ▸ place, fun i => ⟨fun absurd => (by cases absurd), trivial⟩⟩, ?_⟩
  have alone : (ControlBlock.leaf kept.info).infos = [kept.info] :=
    congrArg (kept.info :: ·) (List.flatMap_eq_nil_iff.mpr fun _ _ => rfl)
  dsimp only
  rw [alone]
  exact left

omit rule in
theorem updateChunk_unload (block : ControlBlock) (walk : Walk Primary Surface) :
    Holds (fun _ => True) (fun updated => updated.2 = .absent)
      (Terrain.updateChunk generator env block .unload walk) := by
  cases block with
  | absent => rfl
  | node info children =>
    unfold Terrain.updateChunk
    refine Holds.bind (holds_any _) fun walk _ => ?_
    rw [if_pos rfl]
    exact Holds.bind (holds_any _) fun walk _ => Holds.bind (holds_any _) fun _ _ => rfl

omit rule in
theorem flatMap_created (children : Fin 8 → ControlBlock) (created : Fin 8 → Option BlockInfo)
    (info : BlockInfo) (rest : List BlockInfo) :
    List.Perm
      (info :: ((List.finRange 8).flatMap (fun i => (created i).toList) ++
        ((List.finRange 8).flatMap (fun i => (children i).infos) ++ rest)))
      ((List.finRange 8).flatMap (fun i => (created i).toList ++ (children i).infos) ++
        info :: rest) := by
  have joined := List.flatMap_append_perm (List.finRange 8) (fun i => (created i).toList)
    fun i => (children i).infos
  rw [← List.append_assoc]
  exact ((joined.append_right rest).cons info).trans List.perm_middle.symm

theorem updateChunk {block : ControlBlock} (keyed : block.Keyed key) (aligned : key.Aligned)
    (apart : careful → ∀ info ∈ rest, ¬ key.Inside info.chunk.id) {parentCmd : ParentCommand}
    (loaded : parentCmd = .unload → careful → ∀ info ∈ block.infos, info.state ≠ .loading)
    (start : inv walk (block.infos ++ rest)) :
    Holds fault (fun updated => updated.2.Keyed key ∧ inv updated.1 (updated.2.infos ++ rest))
      (Terrain.updateChunk generator env block parentCmd walk) := by
  induction block generalizing key rest parentCmd walk with
  | absent => exact ⟨trivial, start⟩
  | node info children ih =>
    obtain ⟨rfl, places⟩ := keyed
    have childInside : ∀ i, ∀ other ∈ (children i).infos,
        InsideChild info.chunk.id i other.chunk.id := fun i =>
      KeyedChild.inside aligned (places i)
    have restOutside : careful → ∀ i, ∀ other ∈ rest,
        ¬ InsideChild info.chunk.id i other.chunk.id := fun careful i other mem inside =>
      apart careful other mem (inside.inside aligned)
    -- the update of a child that was there
    have each : ∀ i (walk : Walk Primary Surface) others parentCmd,
        (parentCmd = .unload → careful → ∀ info ∈ (children i).infos, info.state ≠ .loading) →
        (careful → ∀ other ∈ others, ¬ InsideChild info.chunk.id i other.chunk.id) →
        inv walk ((children i).infos ++ others) →
        Holds fault (fun updated => KeyedChild info.chunk.id i updated.2 ∧
            inv updated.1 (updated.2.infos ++ others))
          (Terrain.updateChunk generator env (children i) parentCmd walk) := by
      intro i walk others parentCmd loaded outside start
      by_cases present : (children i).isPresent = true
      · have large := (places i).1 present
        refine (ih i (places i).2 (ChunkKey.childLodKey_aligned aligned large i)
          (fun careful other mem inside => outside careful other mem ⟨large, inside⟩) loaded
          start).mono ?_
        exact fun updated done => ⟨⟨fun _ => large, done.1⟩, done.2⟩
      · cases child : children i with
        | node other grandchildren =>
          rw [child] at present
          exact absurd rfl present
        | absent =>
          rw [child] at start
          exact ⟨⟨fun absurd => (by cases absurd), trivial⟩, start⟩
    unfold Terrain.updateChunk
    refine Holds.bind (rule.runWorkers start) fun walk start => ?_
    split
    · rename_i unloading
      subst unloading
      have loaded := loaded rfl
      refine Holds.bind (rule.unload start fun careful =>
        loaded careful info List.mem_cons_self) fun walk start => ?_
      have gone : Holds fault (fun updated => (∀ i ∈ List.finRange 8, updated.2 i = .absent) ∧
          inv updated.1 ((List.finRange 8).flatMap (fun i => (updated.2 i).infos) ++ rest))
          (Terrain.updateChildren
            (fun i => Terrain.updateChunk generator env (children i) .unload)
            (List.finRange 8) walk) := by
        refine rule.updateChildren (InsideChild info.chunk.id) (InsideChild.eq aligned)
          (fun _ block => block = .absent) ?_ childInside ?_ (List.nodup_finRange 8)
          (fun careful i _ => restOutside careful i) start
        · rintro i _ rfl _ absurd
          exact (List.not_mem_nil absurd).elim
        · intro i walk others outside start
          have below : ParentCommand.unload = .unload → careful →
              ∀ info ∈ (children i).infos, info.state ≠ .loading := fun _ careful other mem =>
            loaded careful other (List.mem_cons_of_mem _
              (List.mem_flatMap.mpr ⟨i, List.mem_finRange i, mem⟩))
          exact ((each i walk others .unload below outside start).and
            (updateChunk_unload (children i) walk)).mono fun _ done => ⟨done.2, done.1.2⟩
      refine Holds.bind gone ?_
      rintro ⟨walk, children⟩ ⟨absent, left⟩
      have none : (List.finRange 8).flatMap (fun i => (children i).infos) = [] :=
        List.flatMap_eq_nil_iff.mpr fun i mem => by
          have same : children i = .absent := absent i mem
          rw [same]
          rfl
      dsimp only at left
      rw [none] at left
      exact ⟨trivial, left⟩
    · have fresh : careful → ∀ i, children i = .absent →
          ∀ other ∈ info :: ((List.finRange 8).flatMap (fun i => (children i).infos) ++ rest),
            ¬ InsideChild info.chunk.id i other.chunk.id := by
        intro careful i gone
        refine List.forall_mem_cons.mpr ⟨fun inside =>
          ChunkKey.childLodKey_not_inside inside.1 i inside.2, ?_⟩
        refine List.forall_mem_append.mpr ⟨fun other mem inside => ?_, restOutside careful i⟩
        obtain ⟨j, _, mem⟩ := List.mem_flatMap.mp mem
        obtain rfl := inside.eq aligned (childInside j other mem)
        rw [gone] at mem
        exact List.not_mem_nil mem
      refine Holds.bind (rule.updateSelf start aligned fresh parentCmd) ?_
      rintro ⟨walk, _ | kept⟩ done
      · obtain ⟨alone, left⟩ := done
        have none : (List.finRange 8).flatMap (fun i => (children i).infos) = [] :=
          List.flatMap_eq_nil_iff.mpr fun i _ => ControlBlock.infos_eq_nil (alone i)
        rw [none] at left
        exact ⟨trivial, left⟩
      · obtain ⟨⟨chunk, command, made⟩, left⟩ := done
        have left := rule.perm (flatMap_created children kept.created kept.info rest) left
        refine Holds.bind (rule.updateChildren (InsideChild info.chunk.id)
          (InsideChild.eq aligned) (fun i block => KeyedChild info.chunk.id i block)
          ?_ ?_ ?_ (List.nodup_finRange 8) ?_ left) ?_
        · exact fun i block child => child.inside aligned
        · intro i other mem
          rcases List.mem_append.mp mem with mem | mem
          · obtain ⟨_, large, _, place⟩ := made i other (Option.mem_toList.mp mem)
            exact ⟨large, place ▸ ChunkKey.Inside.refl _⟩
          · exact childInside i other mem
        · intro i walk others outside start
          cases created : kept.created i with
          | none =>
            rw [created] at start
            exact each i walk others kept.command (fun absurd => (command absurd).elim)
              outside start
          | some new =>
            obtain ⟨gone, large, loading, place⟩ := made i new created
            rw [created, gone] at start
            exact (rule.updateCreated place loading start kept.command).mono
              fun _ done => ⟨⟨fun _ => large, done.1⟩, done.2⟩
        · intro careful i _
          refine List.forall_mem_cons.mpr ⟨fun inside => ?_, restOutside careful i⟩
          rw [chunk] at inside
          exact ChunkKey.childLodKey_not_inside inside.1 i inside.2
        · rintro ⟨walk, children⟩ ⟨good, left⟩
          have left := rule.perm List.perm_middle left
          exact ⟨⟨chunk ▸ rfl, fun i => good i (List.mem_finRange i)⟩,
            rule.flags left rfl Iff.rfl⟩

end WalkRule

end Rule

end Voxen.Terrain
