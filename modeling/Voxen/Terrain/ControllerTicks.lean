import Voxen.Terrain.ControllerWalk

/-!
# Invariants of ticks

What the walk over one tree keeps, a tick keeps for the trees of all superchunks.
-/

namespace Voxen.Terrain

open Outcome
open Land (ChunkKey IVec3)

namespace Controller

variable {Position Primary Surface : Type}

/-- All control blocks of superchunks. -/
def infos (superchunks : List (IVec3 × SuperchunkInfo)) : List BlockInfo :=
  superchunks.flatMap fun entry => entry.2.ptr.infos

/-- The places of the superchunks are told apart, and their blocks have the keys of their places. -/
structure Placed (superchunks : List (IVec3 × SuperchunkInfo)) : Prop where
  bases : (superchunks.map Prod.fst).Nodup
  keyed : ∀ entry ∈ superchunks, entry.2.ptr.Keyed (superchunkKey entry.1)

/-- Superchunks that have the same key are the same. -/
def KeysApart (bases : List IVec3) : Prop :=
  ∀ base ∈ bases, ∀ base' ∈ bases, superchunkKey base = superchunkKey base' → base = base'

theorem superchunkKey_aligned (base : IVec3) : (superchunkKey base).Aligned := by
  have coordinate : ∀ (x : BitVec 32) (w : Nat), 12 ≤ w →
      2 ^ 12 ∣ ((x <<< 12).setWidth w).toNat := by
    intro x w large
    rw [BitVec.toNat_setWidth, BitVec.toNat_shiftLeft, Nat.shiftLeft_eq]
    have first : 2 ^ 12 ∣ x.toNat * 2 ^ 12 % 2 ^ 32 :=
      (Nat.dvd_mod_iff (pow_dvd_pow 2 (by decide))).mpr (Nat.dvd_mul_left _ _)
    exact (Nat.dvd_mod_iff (pow_dvd_pow 2 large)).mpr first
  exact ⟨coordinate _ 22 (by decide), coordinate _ 16 (by decide), coordinate _ 22 (by decide)⟩

variable {base : IVec3} {superchunks : List (IVec3 × SuperchunkInfo)}

theorem superchunkKey_apart {base' : IVec3} {key : ChunkKey}
    (first : (superchunkKey base).Inside key) (second : (superchunkKey base').Inside key) :
    superchunkKey base = superchunkKey base' :=
  ChunkKey.eq_of_inside (superchunkKey_aligned base) (superchunkKey_aligned base') rfl first second

theorem infos_leaf (info : BlockInfo) : (ControlBlock.leaf info).infos = [info] :=
  congrArg (info :: ·) (List.flatMap_eq_nil_iff.mpr fun _ _ => rfl)

/-- Engaging a superchunk that is there makes it young. -/
def rejuvenate (base : IVec3) (entry : IVec3 × SuperchunkInfo) : IVec3 × SuperchunkInfo :=
  if entry.1 = base then (entry.1, { entry.2 with idleAge := 0 }) else entry

theorem rejuvenate_fst (base : IVec3) (entry : IVec3 × SuperchunkInfo) :
    (rejuvenate base entry).1 = entry.1 := by
  unfold rejuvenate
  split <;> rfl

theorem rejuvenate_ptr (base : IVec3) (entry : IVec3 × SuperchunkInfo) :
    (rejuvenate base entry).2.ptr = entry.2.ptr := by
  unfold rejuvenate
  split <;> rfl

theorem infos_rejuvenate (base : IVec3) (superchunks : List (IVec3 × SuperchunkInfo)) :
    infos (superchunks.map (rejuvenate base)) = infos superchunks := by
  unfold infos
  rw [List.flatMap_map]
  exact List.flatMap_congr fun entry _ => by rw [rejuvenate_ptr]

theorem Placed.rejuvenate (placed : Placed superchunks) (base : IVec3) :
    Placed (superchunks.map (rejuvenate base)) where
  bases := by
    rw [List.map_map]
    have same : Prod.fst ∘ Controller.rejuvenate base = Prod.fst :=
      funext fun entry => rejuvenate_fst base entry
    rw [same]
    exact placed.bases
  keyed := by
    refine List.forall_mem_map.mpr fun entry mem => ?_
    rw [rejuvenate_fst, rejuvenate_ptr]
    exact placed.keyed entry mem

theorem Placed.engage (placed : Placed superchunks) (absent : ∀ entry ∈ superchunks, entry.1 ≠ base)
    {root : BlockInfo} (key : root.chunk.id = superchunkKey base) :
    Placed (superchunks ++ [(base, { ptr := .leaf root, idleAge := 0 })]) where
  bases := by
    rw [List.map_append]
    refine List.nodup_append.mpr ⟨placed.bases, List.nodup_singleton _, ?_⟩
    intro other mem new last
    obtain ⟨entry, there, rfl⟩ := List.mem_map.mp mem
    rw [List.mem_singleton.mp last]
    exact absent entry there
  keyed := by
    refine List.forall_mem_append.mpr ⟨placed.keyed, List.forall_mem_singleton.mpr ⟨key, ?_⟩⟩
    exact fun i => ⟨fun absurd => (by cases absurd), trivial⟩

theorem Placed.outside (placed : Placed superchunks) {bases : List IVec3}
    (known : ∀ entry ∈ superchunks, entry.1 ∈ bases) (apart : KeysApart bases) (here : base ∈ bases)
    (absent : ∀ entry ∈ superchunks, entry.1 ≠ base) :
    ∀ info ∈ infos superchunks, ¬ (superchunkKey base).Inside info.chunk.id := by
  intro info mem inside
  obtain ⟨entry, there, mem⟩ := List.mem_flatMap.mp mem
  have same := (placed.keyed entry there).inside (superchunkKey_aligned entry.1) info mem
  exact absent entry there
    (apart _ (known entry there) _ here (superchunkKey_apart same inside))

section Rule

variable {generator : Generator Primary Surface} {fault : Fault → Prop} {careful : Prop}
  {inv : Walk Primary Surface → List BlockInfo → Prop}
  (rule : WalkRule generator fault careful inv)

include rule

/-- The superchunks while points engage them: those that are old were there before, and none of
the points has engaged them. -/
structure Engaging (inv : Walk Primary Surface → List BlockInfo → Prop) (all : List IVec3)
    (before : List (IVec3 × SuperchunkInfo)) (done : List IVec3)
    (engaged : Walk Primary Surface × List (IVec3 × SuperchunkInfo)) : Prop where
  placed : Placed engaged.2
  kept : inv engaged.1 (infos engaged.2)
  known : ∀ entry ∈ engaged.2, entry.1 ∈ all
  aged : ∀ entry ∈ engaged.2, entry.2.idleAge = 0 ∨ entry ∈ before ∧ entry.1 ∉ done

variable {all done : List IVec3} {before : List (IVec3 × SuperchunkInfo)}
  {engaged : Walk Primary Surface × List (IVec3 × SuperchunkInfo)}

theorem engageSuperchunk_rule (apart : careful → KeysApart all) {base : IVec3} (here : base ∈ all)
    (start : Engaging inv all before done engaged) :
    Holds fault (Engaging inv all before (base :: done))
      (engageSuperchunk generator engaged base) := by
  obtain ⟨walk, superchunks⟩ := engaged
  obtain ⟨placed, kept, known, aged⟩ := start
  unfold engageSuperchunk
  dsimp only at placed kept known aged ⊢
  split
  · refine
      { placed := placed.rejuvenate base
        kept := (infos_rejuvenate base superchunks).symm ▸ kept
        known := List.forall_mem_map.mpr fun entry mem => ?_
        aged := List.forall_mem_map.mpr fun entry mem => ?_ }
    · exact (rejuvenate_fst base entry).symm ▸ known entry mem
    · split
      · exact Or.inl rfl
      · rename_i other
        refine (aged entry mem).imp_right fun old => ⟨old.1, fun young => ?_⟩
        exact (List.mem_cons.mp young).elim other old.2
  · rename_i missing
    have absent : ∀ entry ∈ superchunks, entry.1 ≠ base := fun entry mem same =>
      missing (List.any_eq_true.mpr ⟨entry, mem, beq_iff_eq.mpr same⟩)
    have fresh : careful → ∀ info ∈ infos superchunks, info.chunk.id ≠ superchunkKey base :=
      fun careful info mem same => placed.outside known (apart careful) here absent info mem
        (same ▸ ChunkKey.Inside.refl _)
    refine Holds.bind ((rule.enqueue _ kept fresh).and
      (enqueueLoadingChunk_block generator walk (superchunkKey base))) ?_
    rintro ⟨walk, root⟩ ⟨kept, _, key⟩
    have all : infos (superchunks ++ [(base, { ptr := .leaf root, idleAge := 0 })]) =
        infos superchunks ++ [root] := by
      unfold infos
      rw [List.flatMap_append, List.flatMap_singleton, infos_leaf]
    exact
      { placed := placed.engage absent key
        kept := all.symm ▸ rule.perm (List.perm_append_singleton root _).symm kept
        known := List.forall_mem_append.mpr ⟨known, List.forall_mem_singleton.mpr here⟩
        aged := List.forall_mem_append.mpr ⟨fun entry mem =>
            (aged entry mem).imp_right fun old => ⟨old.1, fun young =>
              (List.mem_cons.mp young).elim (absent entry mem) old.2⟩,
          List.forall_mem_singleton.mpr (Or.inl rfl)⟩ }

theorem engageSuperchunks_rule (apart : careful → KeysApart all) {bases : List IVec3}
    (within : ∀ base ∈ bases, base ∈ all) (start : Engaging inv all before done engaged) :
    Holds fault (Engaging inv all before (bases.reverse ++ done))
      (bases.foldlM (engageSuperchunk generator) engaged) := by
  induction bases generalizing done engaged with
  | nil => exact start
  | cons base bases ih =>
    obtain ⟨here, within⟩ := List.forall_mem_cons.mp within
    rw [List.foldlM_cons, List.reverse_cons, List.append_assoc]
    exact (engageSuperchunk_rule rule apart here start).bind fun _ next => ih within next

variable {superchunks : List (IVec3 × SuperchunkInfo)}

omit rule in
theorem find_base (nodup : (superchunks.map Prod.fst).Nodup) {entry : IVec3 × SuperchunkInfo}
    (mem : entry ∈ superchunks) :
    superchunks.find? (fun other => other.1 == entry.1) = some entry := by
  induction superchunks with
  | nil => exact (List.not_mem_nil mem).elim
  | cons first superchunks ih =>
    obtain ⟨notIn, nodup⟩ := List.nodup_cons.mp nodup
    rw [List.find?_cons]
    rcases List.mem_cons.mp mem with rfl | mem
    · rw [beq_self_eq_true]
    · have other : first.1 ≠ entry.1 := fun same =>
        notIn (same ▸ List.mem_map_of_mem mem)
      rw [beq_eq_false_iff_ne.mpr other]
      exact ih nodup mem

omit rule in
theorem inOrder_perm (order : List IVec3) (nodup : (superchunks.map Prod.fst).Nodup) :
    (inOrder order superchunks).Perm superchunks := by
  unfold inOrder
  split
  · rename_i perm
    refine ((List.isPerm_iff.mp perm).filterMap _).trans ?_
    rw [List.filterMap_map]
    refine List.Perm.of_eq ((List.filterMap_congr fun entry mem => ?_).trans List.filterMap_some)
    exact find_base nodup mem
  · exact List.Perm.refl _

omit rule in
theorem Placed.perm {superchunks' : List (IVec3 × SuperchunkInfo)}
    (perm : superchunks.Perm superchunks') (placed : Placed superchunks) : Placed superchunks' where
  bases := (perm.map Prod.fst).nodup_iff.mp placed.bases
  keyed := fun entry mem => placed.keyed entry (perm.mem_iff.mpr mem)

theorem updateSuperchunks_rule {env : TickEnv} (placed : Placed superchunks)
    (apart : careful → KeysApart (superchunks.map Prod.fst))
    (aged : careful → ∀ entry ∈ superchunks, entry.2.idleAge + 1 > Config.superchunkMaxAge →
      ∀ info ∈ entry.2.ptr.infos, info.state ≠ .loading) {rest : List BlockInfo}
    (outside : careful → ∀ entry ∈ superchunks, ∀ info ∈ rest,
      ¬ (superchunkKey entry.1).Inside info.chunk.id) {walk : Walk Primary Surface}
    (start : inv walk (infos superchunks ++ rest)) :
    Holds fault (fun result => (result.2.map Prod.fst).Sublist (superchunks.map Prod.fst) ∧
        (∀ entry ∈ result.2, entry.2.ptr.Keyed (superchunkKey entry.1)) ∧
        inv result.1 (infos result.2 ++ rest))
      (updateSuperchunks generator env superchunks walk) := by
  induction superchunks generalizing rest walk with
  | nil => exact ⟨List.Sublist.refl _, fun _ absurd => (List.not_mem_nil absurd).elim, start⟩
  | cons entry superchunks ih =>
    obtain ⟨base, superchunk⟩ := entry
    obtain ⟨notIn, nodup⟩ := List.nodup_cons.mp placed.bases
    obtain ⟨keyed, keyeds⟩ := List.forall_mem_cons.mp placed.keyed
    have placed' : Placed superchunks := ⟨nodup, keyeds⟩
    have apart' : careful → KeysApart (superchunks.map Prod.fst) :=
      fun careful one mem two mem' => apart careful one (List.mem_cons_of_mem _ mem) two (List.mem_cons_of_mem _ mem')
    have aged' := fun c : careful => (List.forall_mem_cons.mp (aged c)).2
    have outside' := fun c : careful => (List.forall_mem_cons.mp (outside c)).2
    have elsewhere : ∀ entry ∈ superchunks, entry.1 ≠ base := by
      intro entry mem same
      exact notIn (List.mem_map.mpr ⟨entry, mem, same⟩)
    have others : careful → ∀ info ∈ infos superchunks ++ rest,
        ¬ (superchunkKey base).Inside info.chunk.id := by
      intro c
      refine List.forall_mem_append.mpr ⟨?_, outside c (base, superchunk) List.mem_cons_self⟩
      exact placed'.outside (fun entry mem =>
        List.mem_cons_of_mem _ (List.mem_map_of_mem mem)) (apart c) List.mem_cons_self elsewhere
    have start : inv walk (superchunk.ptr.infos ++ (infos superchunks ++ rest)) := by
      rw [← List.append_assoc]
      exact start
    unfold updateSuperchunks
    dsimp only at keyed ⊢
    split
    · exact rule.state
    · rename_i info children here
      split
      · rename_i old
        have loaded : ParentCommand.unload = .unload → careful →
            ∀ info ∈ superchunk.ptr.infos, info.state ≠ .loading := fun _ c =>
          aged c (base, superchunk) List.mem_cons_self old
        refine Holds.bind ((rule.updateChunk keyed (superchunkKey_aligned base) others loaded
          start).and (WalkRule.updateChunk_unload superchunk.ptr walk)) ?_
        rintro ⟨walk, ptr⟩ ⟨⟨_, kept⟩, gone⟩
        dsimp only at kept gone ⊢
        rw [gone] at kept
        refine (ih placed' apart' aged' outside' kept).mono ?_
        exact fun result ⟨sub, rest⟩ => ⟨List.Sublist.cons _ sub, rest⟩
      · split
        · exact rule.state
        · have notUnload : rootCommand info = .unload → careful →
              ∀ info ∈ superchunk.ptr.infos, info.state ≠ .loading := by
            unfold rootCommand
            split <;> exact fun absurd => by cases absurd
          refine Holds.bind (rule.updateChunk keyed (superchunkKey_aligned base) others notUnload
            start) ?_
          rintro ⟨walk, ptr⟩ ⟨keyed, kept⟩
          dsimp only at keyed kept ⊢
          have outside'' : careful → ∀ entry ∈ superchunks, ∀ info ∈ ptr.infos ++ rest,
              ¬ (superchunkKey entry.1).Inside info.chunk.id := by
            intro c entry mem
            refine List.forall_mem_append.mpr ⟨fun info there inside => ?_, outside' c entry mem⟩
            have same := superchunkKey_apart inside
              (keyed.inside (superchunkKey_aligned base) info there)
            exact elsewhere entry mem (apart c _
              (List.mem_cons_of_mem _ (List.mem_map_of_mem mem)) _ List.mem_cons_self same)
          have middle : List.Perm (ptr.infos ++ (infos superchunks ++ rest))
              (infos superchunks ++ (ptr.infos ++ rest)) := by
            rw [← List.append_assoc, ← List.append_assoc]
            exact List.perm_append_comm.append_right rest
          refine Holds.bind (ih placed' apart' aged' outside'' (rule.perm middle kept)) ?_
          rintro ⟨walk, updated⟩ ⟨sub, keyeds, kept⟩
          dsimp only at sub keyeds kept ⊢
          have back : inv walk (ptr.infos ++ infos updated ++ rest) := by
            refine rule.perm ?_ kept
            rw [← List.append_assoc]
            exact List.perm_append_comm.append_right rest
          split
          · exact ⟨List.Sublist.cons_cons _ sub, List.forall_mem_cons.mpr ⟨keyed, keyeds⟩, back⟩
          · rename_i gone
            rw [ControlBlock.infos_eq_nil gone] at back
            exact ⟨List.Sublist.cons _ sub, keyeds, back⟩

end Rule

/-! ## One tick -/

/-- The bases that the points of interest engage in a tick. -/
def engagedInTick (world : World Position Primary Surface)
    (controller : Controller Position Primary Surface) : List IVec3 :=
  (garbageCollectPointsOfInterest controller.pointsOfInterest).flatMap fun point =>
    engagedBases world point.position

/-- A tick that gives no key to two superchunks and unloads no loading block. -/
structure CarefulTick (world : World Position Primary Surface)
    (controller : Controller Position Primary Surface) : Prop where
  apart : KeysApart (controller.superchunks.map Prod.fst ++ engagedInTick world controller)
  aged : ∀ entry ∈ controller.superchunks, entry.1 ∉ engagedInTick world controller →
    entry.2.idleAge + 1 > Config.superchunkMaxAge →
      ∀ info ∈ entry.2.ptr.infos, info.state ≠ .loading

/-- What a tick keeps of the walk, the blocks and the places of the superchunks. -/
theorem doTick_rule {world : World Position Primary Surface} {fault : Fault → Prop}
    {careful : Prop} {inv : Walk Primary Surface → List BlockInfo → Prop}
    (rule : WalkRule world.toGenerator fault careful inv)
    {controller : Controller Position Primary Surface}
    (tick : careful → CarefulTick world controller)
    (placed : Placed controller.superchunks)
    (start : inv controller.walk (infos controller.superchunks)) (env : TickEnv) :
    Holds fault (fun result => Placed result.1.superchunks ∧
        inv result.1.walk (infos result.1.superchunks) ∧ result.1.held = controller.held ∧
        result.2 = result.1.superchunks.flatMap fun entry =>
          entry.2.ptr.activeChunks (hasSurface world.toGenerator result.1.walk.loader))
      (doTick world env controller) := by
  unfold doTick
  dsimp only
  have within : ∀ base ∈ engagedInTick world controller,
      base ∈ controller.superchunks.map Prod.fst ++ engagedInTick world controller :=
    fun base mem => List.mem_append_right _ mem
  have begin' : Engaging inv (controller.superchunks.map Prod.fst ++ engagedInTick world controller)
      controller.superchunks [] (controller.walk, controller.superchunks) :=
    { placed := placed
      kept := start
      known := fun entry mem => List.mem_append_left _ (List.mem_map_of_mem mem)
      aged := fun entry mem => Or.inr ⟨mem, List.not_mem_nil⟩ }
  refine Holds.bind (engageSuperchunks_rule rule (fun c => (tick c).apart) within begin') ?_
  rintro ⟨walk, superchunks⟩ ⟨placed, kept, known, aged⟩
  dsimp only at placed kept known aged ⊢
  have perm := inOrder_perm env.order placed.bases
  have apart : careful → KeysApart ((inOrder env.order superchunks).map Prod.fst) := by
    intro c base mem base' mem'
    obtain ⟨entry, there, rfl⟩ := List.mem_map.mp mem
    obtain ⟨entry', there', rfl⟩ := List.mem_map.mp mem'
    exact (tick c).apart _ (known entry (perm.mem_iff.mp there)) _
      (known entry' (perm.mem_iff.mp there'))
  have old : careful → ∀ entry ∈ inOrder env.order superchunks,
      entry.2.idleAge + 1 > Config.superchunkMaxAge →
        ∀ info ∈ entry.2.ptr.infos, info.state ≠ .loading := by
    intro c entry mem older
    rcases aged entry (perm.mem_iff.mp mem) with young | ⟨before, idle⟩
    · rw [young] at older
      exact absurd older (by decide)
    · rw [List.append_nil, List.mem_reverse] at idle
      exact (tick c).aged entry before idle older
  have all : inv { walk with directOpQuota := 0, visits := 0, calls := 0 }
      (infos (inOrder env.order superchunks) ++ []) := by
    rw [List.append_nil]
    exact rule.counters 0 0 0 (rule.perm (perm.symm.flatMap_right _) kept)
  refine Holds.bind (updateSuperchunks_rule rule (placed.perm perm.symm) apart old
    (fun _ _ _ _ absurd => (List.not_mem_nil absurd).elim) all) ?_
  rintro ⟨walk, updated⟩ ⟨sub, keyed, kept⟩
  rw [List.append_nil] at kept
  exact ⟨⟨sub.nodup (placed.perm perm.symm).bases, keyed⟩, kept, rfl, rfl⟩

end Controller

end Voxen.Terrain
