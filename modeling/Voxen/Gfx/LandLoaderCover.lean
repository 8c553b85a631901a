import Voxen.Gfx.LandLoader

/-!
# What a draw list covers

`makeDrawListSubtree_draws`: the commands added for a cube of chunks do not overlap, and cover the
cube if the function says so, but for chunks that are known to be empty.
-/

namespace Voxen.Gfx.LandLoader

open Land (ChunkKey Consts.numLodScales IVec3)
open Land.ChunkKey (Block span half)

/-! ## Cubes -/

/-- The blocks of the subtree at a base. -/
def subtreeVolume (base : IVec3) (level : Nat) : Set Block :=
  {block | block.x ∈ span base.x.toInt level ∧ block.y ∈ span base.y.toInt level ∧
    block.z ∈ span base.z.toInt level}

section Cubes

variable {box : BoxArea} {base : IVec3} {level : Nat}

theorem toInt_setWidth_of_bounds {w : Nat} {coordinate : BitVec 32} (first last : BitVec w)
    (wide : 0 < w) (narrow : w ≤ 32)
    (inside : first.toInt ≤ coordinate.toInt ∧ coordinate.toInt < last.toInt) :
    (coordinate.setWidth w).toInt = coordinate.toInt := by
  have low := BitVec.le_toInt first
  have high : last.toInt < 2 ^ (w - 1) := BitVec.toInt_lt
  rw [Land.ChunkKey.toInt_setWidth_eq coordinate narrow]
  exact Land.ChunkKey.bmod_eq_self wide (by omega) (by omega)

theorem volume_ofBase (contains : box.Contains base) (bound : level < Consts.numLodScales) :
    (ChunkKey.ofBase base level).volume = subtreeVolume base level := by
  obtain ⟨x, y, z⟩ := contains
  have scale : (ChunkKey.ofBase base level).scaleLog2.toNat = level := by
    change (BitVec.ofNat 4 level).toNat = level
    rw [BitVec.toNat_ofNat, Nat.mod_eq_of_lt (bound.trans (by decide))]
  unfold ChunkKey.volume subtreeVolume
  rw [scale]
  simp only [ChunkKey.ofBase, toInt_setWidth_of_bounds _ _ (by decide) (by decide) x,
    toInt_setWidth_of_bounds _ _ (by decide) (by decide) y,
    toInt_setWidth_of_bounds _ _ (by decide) (by decide) z]

theorem toInt_octant {w n : Nat} {coordinate : BitVec 32} (first last : BitVec w) (narrow : w ≤ 22)
    (inside : first.toInt ≤ coordinate.toInt ∧ coordinate.toInt < last.toInt)
    (bound : n < Consts.numLodScales) (upper : Bool) :
    (coordinate + if upper then BitVec.ofNat 32 (2 ^ n) else 0).toInt =
      coordinate.toInt + half n upper := by
  have low := BitVec.le_toInt first
  have high : last.toInt < 2 ^ (w - 1) := BitVec.toInt_lt
  have field : (2 : Int) ^ (w - 1) ≤ 2 ^ 21 := by
    exact_mod_cast Nat.pow_le_pow_right (by decide) (by omega)
  cases upper with
  | false => simp [half]
  | true =>
    have small : (2 : Nat) ^ n ≤ 2 ^ 8 := Nat.pow_le_pow_right (by decide) (Nat.le_of_lt_succ bound)
    have step : (BitVec.ofNat 32 (2 ^ n)).toInt = 2 ^ n := by
      rw [BitVec.toInt_eq_toNat_of_lt, BitVec.toNat_ofNat, Nat.mod_eq_of_lt (by omega)]
      · exact_mod_cast rfl
      · rw [BitVec.toNat_ofNat, Nat.mod_eq_of_lt (by omega)]
        omega
    have small' : (2 : Int) ^ n ≤ 2 ^ 8 := by exact_mod_cast small
    have positive : (0 : Int) < 2 ^ n := by positivity
    simp only [if_true, half]
    rw [BitVec.toInt_add, step]
    exact Land.ChunkKey.bmod_eq_self (by decide) (by omega) (by omega)

theorem mem_octant {block : Block} (contains : box.Contains base)
    (bound : level < Consts.numLodScales) (octant : Bool × Bool × Bool) :
    block ∈ subtreeVolume (octantBase base level octant) level ↔
      block.x ∈ span (base.x.toInt + half level octant.1) level ∧
        block.y ∈ span (base.y.toInt + half level octant.2.1) level ∧
        block.z ∈ span (base.z.toInt + half level octant.2.2) level := by
  obtain ⟨x, y, z⟩ := contains
  unfold subtreeVolume octantBase
  simp only [Set.mem_ofPred_eq, toInt_octant _ _ (by decide) x bound,
    toInt_octant _ _ (by decide) y bound, toInt_octant _ _ (by decide) z bound]

theorem exists_octant {block : Block} (contains : box.Contains base)
    (bound : level < Consts.numLodScales) :
    block ∈ subtreeVolume base (level + 1) ↔
      ∃ octant ∈ octants, block ∈ subtreeVolume (octantBase base level octant) level := by
  constructor
  · rintro ⟨x, y, z⟩
    obtain ⟨a, inX, -⟩ := Land.ChunkKey.exists_half x
    obtain ⟨b, inY, -⟩ := Land.ChunkKey.exists_half y
    obtain ⟨c, inZ, -⟩ := Land.ChunkKey.exists_half z
    have all : ∀ a b c : Bool, (a, b, c) ∈ octants := by decide
    exact ⟨(a, b, c), all a b c, (mem_octant contains bound _).mpr ⟨inX, inY, inZ⟩⟩
  · rintro ⟨octant, -, inside⟩
    obtain ⟨x, y, z⟩ := (mem_octant contains bound octant).mp inside
    exact ⟨Land.ChunkKey.half_span _ _ _ x, Land.ChunkKey.half_span _ _ _ y,
      Land.ChunkKey.half_span _ _ _ z⟩

theorem octant_unique {block : Block} (contains : box.Contains base)
    (bound : level < Consts.numLodScales) {octant octant' : Bool × Bool × Bool}
    (inside : block ∈ subtreeVolume (octantBase base level octant) level)
    (inside' : block ∈ subtreeVolume (octantBase base level octant') level) :
    octant = octant' := by
  obtain ⟨x, y, z⟩ := (mem_octant contains bound octant).mp inside
  obtain ⟨x', y', z'⟩ := (mem_octant contains bound octant').mp inside'
  have same : ∀ {coordinate position : Int} {upper upper' : Bool},
      position ∈ span (coordinate + half level upper) level →
      position ∈ span (coordinate + half level upper') level → upper = upper' :=
    fun one two =>
      (Land.ChunkKey.exists_half (Land.ChunkKey.half_span _ _ _ one)).unique one two
  exact Prod.ext (same x x') (Prod.ext (same y y') (same z z'))

theorem octants_apart (contains : box.Contains base) (bound : level < Consts.numLodScales) :
    octants.Pairwise fun octant octant' =>
      Disjoint (subtreeVolume (octantBase base level octant) level)
        (subtreeVolume (octantBase base level octant') level) := by
  have distinct : octants.Nodup := by decide
  refine distinct.imp fun differ => Set.disjoint_left.mpr fun block inside inside' => ?_
  exact differ (octant_unique contains bound inside inside')

end Cubes

/-! ## Added commands -/

/-- Nothing is drawn for the chunk: its surface is known to be empty, or the mesh that is ready has
no indices. -/
def KnownEmpty (sources : Sources) (key : ChunkKey) : Prop :=
  ∃ command, (makeDrawCommand sources key).1 = some command ∧ command.numIndices = 0

/-- When the meshes that are ready have indices, such a chunk has an empty surface. -/
theorem knownEmpty_iff {sources : Sources} {key : ChunkKey}
    (ready : 0 ≤ (sources.queryMesh key).readyVersion →
      (drawCommand key (sources.queryMesh key)).numIndices ≠ 0) :
    KnownEmpty sources key ↔
      ∃ item, sources.find key = some item ∧ ∀ surface ∈ item.value, surface.numIndices = 0 := by
  unfold KnownEmpty
  cases found : sources.find key with
  | none => simp [makeDrawCommand, found]
  | some item =>
    cases visible : item.value.filter fun surface => surface.numIndices ≠ 0 with
    | none =>
      have made : (makeDrawCommand sources key).1 = some { chunkKey := key } := by
        unfold makeDrawCommand
        rw [found]
        dsimp only
        rw [visible]
      refine iff_of_true ⟨_, made, rfl⟩ ⟨item, rfl, fun surface mem => ?_⟩
      simpa using Option.filter_eq_none_iff.mp visible surface mem
    | some surface =>
      obtain ⟨mem, indices⟩ := Option.filter_eq_some_iff.mp visible
      have made : (makeDrawCommand sources key).1 =
          if (sources.queryMesh key).readyVersion < 0 then none
          else some (drawCommand key (sources.queryMesh key)) := by
        unfold makeDrawCommand
        rw [found]
        dsimp only
        rw [visible]
      rw [made]
      refine iff_of_false ?_ ?_
      · rintro ⟨command, drawn, none_there⟩
        split at drawn
        · cases drawn
        · cases drawn
          exact ready (by omega) none_there
      · rintro ⟨other, item_eq, empty⟩
        cases item_eq
        exact absurd (empty surface mem) (of_decide_eq_true indices)

/-- The commands that were added for the blocks of a volume; `complete` says that they leave no
hole. -/
structure Draws (sources : Sources) (volume : Set Block) (added : DrawList) (complete : Bool) :
    Prop where
  made : ∀ command ∈ added,
    (makeDrawCommand sources command.chunkKey).1 = some command ∧ command.numIndices ≠ 0
  inside : ∀ command ∈ added, command.chunkKey.volume ⊆ volume
  /-- No chunk is drawn twice, and none with one of its ancestors. -/
  apart : added.Pairwise fun command command' =>
    Disjoint command.chunkKey.volume command'.chunkKey.volume
  cover : complete = true → ∀ block ∈ volume,
    (∃ command ∈ added, block ∈ command.chunkKey.volume) ∨
      ∃ key : ChunkKey, KnownEmpty sources key ∧ key.volume ⊆ volume ∧ block ∈ key.volume

/-- The list is the one before with such commands at its end. -/
def Appends (sources : Sources) (volume : Set Block) (dlist : DrawList)
    (result : DrawList × Bool) : Prop :=
  ∃ added, result.1 = dlist ++ added ∧ Draws sources volume added result.2

section Draws

variable {sources : Sources} {volume volume' : Set Block} {added added' : DrawList}
  {complete complete' : Bool}

theorem Draws.nothing : Draws sources volume [] false where
  made := nofun
  inside := nofun
  apart := List.Pairwise.nil
  cover := nofun

theorem Draws.union (first : Draws sources volume added complete)
    (second : Draws sources volume' added' complete') (disjoint : Disjoint volume volume') :
    Draws sources (volume ∪ volume') (added ++ added') (complete && complete') where
  made command mem := by
    rcases List.mem_append.mp mem with mem | mem
    · exact first.made command mem
    · exact second.made command mem
  inside command mem := by
    rcases List.mem_append.mp mem with mem | mem
    · exact (first.inside command mem).trans Set.subset_union_left
    · exact (second.inside command mem).trans Set.subset_union_right
  apart := by
    refine List.pairwise_append.mpr ⟨first.apart, second.apart, fun command mem command' mem' => ?_⟩
    exact disjoint.mono (first.inside command mem) (second.inside command' mem')
  cover both block inside := by
    obtain ⟨one, two⟩ := (Bool.and_eq_true _ _).mp both
    rcases inside with inside | inside
    · rcases first.cover one block inside with ⟨command, mem, here⟩ | ⟨key, empty, within, here⟩
      · exact Or.inl ⟨command, List.mem_append_left _ mem, here⟩
      · exact Or.inr ⟨key, empty, within.trans Set.subset_union_left, here⟩
    · rcases second.cover two block inside with ⟨command, mem, here⟩ | ⟨key, empty, within, here⟩
      · exact Or.inl ⟨command, List.mem_append_right _ mem, here⟩
      · exact Or.inr ⟨key, empty, within.trans Set.subset_union_right, here⟩

theorem foldl_draws {subtree : DrawList → IVec3 → DrawList × Bool} {base : IVec3} {n : Nat}
    {volumes : Bool × Bool × Bool → Set Block}
    (appends : ∀ dlist octant, Appends sources (volumes octant) dlist
      (subtree dlist (octantBase base n octant)))
    (list : List (Bool × Bool × Bool))
    (apart : list.Pairwise fun octant octant' => Disjoint (volumes octant) (volumes octant'))
    (drawn : DrawList × Bool) :
    ∃ added complete, list.foldl (fun drawn octant =>
        let next := subtree drawn.1 (octantBase base n octant)
        (next.1, drawn.2 && next.2)) drawn = (drawn.1 ++ added, drawn.2 && complete) ∧
      Draws sources {block | ∃ octant ∈ list, block ∈ volumes octant} added complete := by
  induction list generalizing drawn with
  | nil =>
    refine ⟨[], true, by simp, nofun, nofun, List.Pairwise.nil, fun _ block inside => ?_⟩
    obtain ⟨octant, mem, -⟩ := inside
    cases mem
  | cons octant list ih =>
    obtain ⟨first, rest⟩ := List.pairwise_cons.mp apart
    obtain ⟨added, list_eq, draws⟩ := appends drawn.1 octant
    obtain ⟨added', complete', folded, draws'⟩ := ih rest
      ((subtree drawn.1 (octantBase base n octant)).1,
        drawn.2 && (subtree drawn.1 (octantBase base n octant)).2)
    refine ⟨added ++ added', (subtree drawn.1 (octantBase base n octant)).2 && complete', ?_, ?_⟩
    · rw [List.foldl_cons, folded, list_eq, List.append_assoc, Bool.and_assoc]
    · have volume_eq : {block | ∃ other ∈ octant :: list, block ∈ volumes other} =
          volumes octant ∪ {block | ∃ other ∈ list, block ∈ volumes other} := by
        ext block
        simp only [List.mem_cons, exists_eq_or_imp, Set.mem_ofPred_eq, Set.mem_union]
      rw [volume_eq]
      refine draws.union draws' (Set.disjoint_right.mpr ?_)
      rintro block ⟨other, mem, inside⟩ inside'
      exact Set.disjoint_left.mp (first other mem) inside' inside

end Draws

/-! ## Subtrees -/

section Subtree

variable {sources : Sources} {dlist : DrawList} {volume : Set Block}

theorem makeDrawCommand_key {key : ChunkKey} {command : DrawCommand}
    (made : (makeDrawCommand sources key).1 = some command) : command.chunkKey = key := by
  unfold makeDrawCommand at made
  split at made
  · cases made
  · split at made
    · cases made
      rfl
    · dsimp only at made
      split at made
      · cases made
      · cases made
        rfl

theorem orThisLevel_appends {key : ChunkKey} {finer : DrawList × Bool}
    (own : key.volume = volume) (appends : Appends sources volume dlist finer) :
    Appends sources volume dlist
      (orThisLevel (makeDrawCommand sources key).1 dlist.length finer) := by
  obtain ⟨added, list_eq, draws⟩ := appends
  unfold orThisLevel
  split
  · rename_i complete
    exact ⟨added, list_eq, complete ▸ draws⟩
  · rename_i incomplete
    rw [Bool.not_eq_true] at incomplete
    split
    · exact ⟨added, list_eq, incomplete ▸ draws⟩
    · rename_i command made
      split
      · -- what is not drawn is empty
        rename_i none_there
        refine ⟨added, list_eq, { draws with cover := fun _ block inside => Or.inr ?_ }⟩
        exact ⟨key, ⟨command, made, none_there⟩, own.le, own.ge inside⟩
      · rename_i some_there
        have key_eq := makeDrawCommand_key made
        have before : finer.1.take dlist.length = dlist := by
          rw [list_eq, List.take_left]
        refine ⟨[command], congrArg (· ++ [command]) before, ?_, ?_,
          List.pairwise_singleton _ _, ?_⟩
        · intro other mem
          rw [List.mem_singleton.mp mem, key_eq]
          exact ⟨made, some_there⟩
        · intro other mem
          rw [List.mem_singleton.mp mem, key_eq]
          exact own.le
        · intro _ block inside
          refine Or.inl ⟨command, List.mem_singleton_self _, ?_⟩
          rw [key_eq]
          exact own.ge inside

/-- The draw list keeps what it has.  The commands added for a subtree are for chunks in it that do
not overlap, and if the function returns true they leave no hole. -/
theorem makeDrawListSubtree_appends (sources : Sources) (boxes : Nat → BoxArea) {level : Nat}
    (bound : level < Consts.numLodScales) (dlist : DrawList) (base : IVec3) :
    Appends sources (subtreeVolume base level) dlist
      (makeDrawListSubtree sources boxes level dlist base) := by
  induction level generalizing dlist base with
  | zero =>
    unfold makeDrawListSubtree
    split
    · exact ⟨[], (List.append_nil _).symm, Draws.nothing⟩
    · rename_i contains
      exact orThisLevel_appends (volume_ofBase (not_not.mp contains) bound)
        ⟨[], (List.append_nil _).symm, Draws.nothing⟩
  | succ n ih =>
    have bound' : n < Consts.numLodScales := Nat.lt_of_succ_lt bound
    unfold makeDrawListSubtree
    split
    · exact ⟨[], (List.append_nil _).symm, Draws.nothing⟩
    · rename_i outside
      have contains := not_not.mp outside
      refine orThisLevel_appends (volume_ofBase contains bound) ?_
      obtain ⟨added, complete, folded, draws⟩ := foldl_draws
        (fun dlist octant => ih bound' dlist (octantBase base n octant)) octants
        (octants_apart contains bound') (dlist, true)
      have volume_eq : {block | ∃ octant ∈ octants,
          block ∈ subtreeVolume (octantBase base n octant) n} = subtreeVolume base (n + 1) :=
        Set.ext fun block => (exists_octant contains bound').symm
      rw [volume_eq] at draws
      unfold tryFinerLevel
      rw [folded]
      exact ⟨added, rfl, by simpa using draws⟩

/-- Two chunks of the finest level: one of them is ready, the other is not known. -/
def twoChunks : Sources where
  find key := if key = ChunkKey.ofBase ⟨1, 0, 0⟩ 0 then none else some ⟨0, some ⟨4, 6⟩⟩
  queryMesh _ := { readyVersion := 0
                   substreams := [none, none, some ⟨0, 0, 6, 2⟩, none] }

/-- The mesh of the coarser level comes in the place of the octants. -/
theorem makeDrawListSubtree_appends_twoChunks :
    let boxes : Nat → BoxArea := fun n =>
      ⟨ChunkKey.ofBase ⟨0, 0, 0⟩ n, ChunkKey.ofBase ⟨2, 2, 2⟩ n⟩
    (makeDrawListSubtree twoChunks boxes 1 [] ⟨0, 0, 0⟩).1.map DrawCommand.chunkKey =
        [ChunkKey.ofBase ⟨0, 0, 0⟩ 1] ∧
      Appends twoChunks (subtreeVolume ⟨0, 0, 0⟩ 1) []
        (makeDrawListSubtree twoChunks boxes 1 [] ⟨0, 0, 0⟩) :=
  ⟨by decide, makeDrawListSubtree_appends twoChunks _ (by decide) [] ⟨0, 0, 0⟩⟩

end Subtree

end Voxen.Gfx.LandLoader
