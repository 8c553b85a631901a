import Voxen.Common.V8gHashTrieSnapshots

/-!
# Replicas of a trie

What `visitDiff` calls its visitor with is all that is needed to bring a replica of an older
snapshot up to a newer one.
-/

namespace Voxen.Common.V8gHashTrie

variable {K V : Type} [DecidableEq K] {hash : K → BitVec 64} {layout : ItemLayout}

/-- Puts the new item of a key in the place of the old one. -/
def patch : Visitor (K → Option (Item K V)) K V := fun replica newItem oldItem =>
  match newItem, oldItem with
  | some item, _ | none, some item => (Function.update replica item.key newItem, true)
  | none, none => (replica, true)

theorem runCalls_patch {newItem oldItem : K → Option (Item K V)}
    (newKey : ∀ key, ∀ item ∈ newItem key, item.key = key)
    (oldKey : ∀ key, ∀ item ∈ oldItem key, item.key = key) {keys : List K}
    (differ : ∀ key ∈ keys, (newItem key).map Item.version ≠ (oldItem key).map Item.version)
    (replica : K → Option (Item K V)) :
    (runCalls patch (keys.map fun key => (newItem key, oldItem key)) replica).1 =
      fun key => if key ∈ keys then newItem key else replica key := by
  induction keys generalizing replica with
  | nil => simp
  | cons key keys ih =>
    have patched : patch replica (newItem key) (oldItem key) =
        (Function.update replica key (newItem key), true) := by
      cases isNew : newItem key with
      | some item => rw [patch, newKey key item isNew]
      | none =>
        cases isOld : oldItem key with
        | some item => rw [patch, oldKey key item isOld]
        | none => exact absurd (by rw [isNew, isOld]) (differ key List.mem_cons_self)
    rw [List.map_cons, runCalls, patched]
    refine (ih (fun key mem => differ key (List.mem_cons_of_mem _ mem)) _).trans ?_
    funext other
    by_cases mem : other ∈ keys
    · rw [if_pos mem, if_pos (List.mem_cons_of_mem _ mem)]
    · by_cases same : other = key
      · subst same
        rw [if_neg mem, if_pos List.mem_cons_self, Function.update_self]
      · rw [if_neg mem, if_neg (by simp [same, mem]), Function.update_of_ne same]

omit [DecidableEq K] in
theorem insert_unique {operations : List (Operation K V)}
    (nodup : (timelines operations).Nodup) {timeline : BitVec 64} {key key' : K} {value value' : V}
    (mem : .insert timeline key value ∈ operations)
    (mem' : .insert timeline key' value' ∈ operations) : value = value' := by
  induction operations with
  | nil => cases mem
  | cons operation rest ih =>
    have fresh : ∀ {key : K} {value : V}, operation = .insert timeline key value →
        ∀ {key' : K} {value' : V}, .insert timeline key' value' ∉ rest := by
      rintro key value rfl key' value' later
      exact (List.nodup_cons.mp nodup).1 (List.mem_filterMap.mpr ⟨_, later, rfl⟩)
    rcases List.mem_cons.mp mem with here | old <;> rcases List.mem_cons.mp mem' with here' | old'
    · cases here.trans here'.symm
      rfl
    · exact absurd old' (fresh here.symm)
    · exact absurd old (fresh here'.symm)
    · exact ih (nodup.sublist ((List.sublist_cons_self operation rest).filterMap _)) old old'

/-- A replica of a snapshot that the visitor patches becomes one of a later snapshot. -/
theorem run_patch (unique : Function.Injective hash) (before after : List (Operation K V))
    (positive : ∀ timeline ∈ timelines (before ++ after), 0 < timeline)
    (increasing : (timelines (before ++ after)).Pairwise (· < ·)) :
    ∃ old new, run layout hash before = some old ∧
      run layout hash (before ++ after) = some new ∧
        new.visitDiff hash old patch (found hash old) = some (found hash new) := by
  have nodup : (timelines (before ++ after)).Nodup :=
    increasing.imp fun less => BitVec.ne_of_lt less
  have split : timelines (before ++ after) = timelines before ++ timelines after :=
    List.filterMap_append
  rw [split] at positive increasing
  let later timeline := timeline ∈ timelines after
  obtain ⟨old, ranOld, oldReflects⟩ := @run_reflects _ _ _ layout hash unique before
  obtain ⟨new, ranNew, derived⟩ := run_derived unique before after ranOld later fun _ mem => mem
  obtain ⟨same, ranSame, newReflects⟩ := @run_reflects _ _ _ layout hash unique (before ++ after)
  rw [ranNew] at ranSame
  cases ranSame
  have earlier : Earlier later old := by
    obtain ⟨again, ranAgain, fromEmpty⟩ := @run_derived _ _ _ hash layout unique [] before {} rfl
      (fun timeline => ¬ later timeline) fun timeline mem isLater =>
        BitVec.lt_irrefl timeline ((List.pairwise_append.mp increasing).2.2 _ mem _ isLater)
    rw [List.nil_append, ranOld] at ranAgain
    cases ranAgain
    exact fromEmpty.earlier fun isLater =>
      BitVec.lt_irrefl 0 (positive 0 (List.mem_append_right _ isLater))
  obtain ⟨keys, diff, calls⟩ := @visitDiff_calls _ _ (K → Option (Item K V)) _ _ hash layout unique
    _ _ newReflects.wellFormed oldReflects.wellFormed derived earlier
  have stored : ∀ {operations : List (Operation K V)} {trie : V8gHashTrie K V},
      Reflects layout hash operations trie → ∀ key, ∀ item ∈ found hash trie key,
        item.key = key ∧ .insert item.version item.key item.valuePtr ∈ operations := by
    intro operations trie reflects key item isFound
    obtain ⟨isKey, front, rest, rfl, -⟩ :=
      (reflects.lookups key item).mp (Option.join_eq_some_iff.mp isFound)
    exact ⟨isKey, List.mem_append_right _ List.mem_cons_self⟩
  have differ := fun key => (diff.mem_iff key).trans (Iff.of_eq (true_and _))
  refine ⟨old, new, ranOld, ranNew, ?_⟩
  rw [calls, diffCalls, runCalls_patch (fun key item => (stored newReflects key item · |>.1))
    (fun key item => (stored oldReflects key item · |>.1)) fun key => (differ key).mp]
  refine congrArg some (funext fun key => ?_)
  split
  · rfl
  · rename_i unlisted
    have versions := not_not.mp (mt (differ key).mpr unlisted)
    cases isOld : found hash old key with
    | none =>
      rw [isOld, Option.map_none, Option.map_eq_none_iff] at versions
      exact versions.symm
    | some item =>
      rw [isOld, Option.map_some, Option.map_eq_some_iff] at versions
      obtain ⟨newItem, isNew, sameVersion⟩ := versions
      obtain ⟨isKey, mem⟩ := stored oldReflects key item isOld
      obtain ⟨isKey', mem'⟩ := stored newReflects key newItem isNew
      rw [sameVersion] at mem'
      have sameValue := insert_unique nodup (List.mem_append_left after mem) mem'
      rw [isNew]
      cases item
      cases newItem
      simp_all

theorem laterOperations_patch :
    ∃ old new, run wordKeyLayout id snapshotOperations = some old ∧
      run wordKeyLayout id (snapshotOperations ++ laterOperations) = some new ∧
        new.visitDiff id old patch (found id old) = some (found id new) :=
  run_patch Function.injective_id snapshotOperations laterOperations
    (by simp [laterOperations_timelines]) (by simp [laterOperations_timelines])

end Voxen.Common.V8gHashTrie
