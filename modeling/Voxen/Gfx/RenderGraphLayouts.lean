import Voxen.Gfx.RenderGraphRuns

/-!
# Layout tracking

`makePass_layouts`: when the recorded image barriers are replayed in order, each of them finds its
mips in its old layout, or discards them, and every pass finds the mips of its views in the layouts
that it declares.
-/

namespace Voxen.Gfx

/-! ## Replay -/

/-- The layouts of the mips of the images. -/
abbrev Layouts := Nat → Nat → ImageLayout

/-- The image barriers of a command. -/
def Command.imageBarriers : Command → List ImageBarrier
  | .barrier cmd => cmd.image
  | .renderPass _ _ _ => []
  | .computePass _ => []

/-- The image barriers in the order in which they are recorded. -/
def recordedBarriers (commands : List Command) : List ImageBarrier :=
  commands.flatMap Command.imageBarriers

/-- A barrier brings its mips into its new layout. -/
def ImageBarrier.execute (layouts : Layouts) (barrier : ImageBarrier) : Layouts :=
  fun image mip =>
    if image = barrier.image ∧ mip ∈ barrier.subresource.mips then barrier.newLayout
    else layouts image mip

/-- The layouts after some barriers. -/
def replayFrom (layouts : Layouts) (barriers : List ImageBarrier) : Layouts :=
  barriers.foldl ImageBarrier.execute layouts

/-- The layouts after the recorded barriers; all mips start in the undefined layout. -/
def replay (commands : List Command) : Layouts :=
  replayFrom (fun _ _ => Vk.imageLayoutUndefined) (recordedBarriers commands)

/-- The barrier finds its mips in its old layout, or the use it is for discards the contents. -/
def ImageBarrier.Fits (layouts : Layouts) (discard : Bool) (barrier : ImageBarrier) : Prop :=
  (∀ mip ∈ barrier.subresource.mips, barrier.oldLayout = layouts barrier.image mip) ∨
    discard = true ∧ barrier.oldLayout = Vk.imageLayoutUndefined

/-- All barriers fit when they are replayed in order. -/
def AllFit (discard : Bool) : Layouts → List ImageBarrier → Prop
  | _, [] => True
  | layouts, barrier :: barriers =>
    barrier.Fits layouts discard ∧ AllFit discard (barrier.execute layouts) barriers

/-- The mip is in the view. -/
def InView (shape : Nat → Nat × SubresourceRange) (view image mip : Nat) : Prop :=
  image = (shape view).1 ∧ mip ∈ (shape view).2.mips

instance (shape : Nat → Nat × SubresourceRange) (view image mip : Nat) :
    Decidable (InView shape view image mip) :=
  inferInstanceAs (Decidable (_ ∧ _))

/-- The view, the layout and the discard flag of a call. -/
def HazardCall.layout : HazardCall → Option (Nat × ImageLayout × Bool)
  | .buffer _ _ => none
  | .view number _ newLayout discard => some (number, newLayout, discard)

/-- The replay of the barriers that are recorded for a use. -/
structure UseReplay (shape : Nat → Nat × SubresourceRange) (view : Nat) (newLayout : ImageLayout)
    (discard : Bool) (before : Layouts) (barriers : List ImageBarrier) (after : Layouts) :
    Prop where
  result : after = replayFrom before barriers
  fit : AllFit discard before barriers
  /-- A use that discards the contents can leave them where they are if it wants no layout. -/
  declared : ∀ image mip, InView shape view image mip →
    after image mip = newLayout ∨ discard = true ∧ newLayout = Vk.imageLayoutUndefined
  outside : ∀ image mip, ¬ InView shape view image mip → after image mip = before image mip

/-! ## Recorded barriers -/

theorem recordedBarriers_append (one two : List Command) :
    recordedBarriers (one ++ two) = recordedBarriers one ++ recordedBarriers two :=
  List.flatMap_append

theorem replayFrom_append (layouts : Layouts) (one two : List ImageBarrier) :
    replayFrom layouts (one ++ two) = replayFrom (replayFrom layouts one) two :=
  List.foldl_append

/-- After the commands of earlier passes there is at most one barrier command. -/
def Pending (base commands : List Command) : Prop :=
  commands = base ∨ ∃ cmd, commands = base ++ [.barrier cmd]

/-- The last command is a pass, if there is one. -/
def EndsWithPass (commands : List Command) : Prop :=
  ∀ cmd, commands.getLast? ≠ some (.barrier cmd)

theorem withBarriers_pending {base commands : List Command} (pass : EndsWithPass base)
    (pending : Pending base commands) (add : BarrierCommand → BarrierCommand)
    (new : List ImageBarrier) (adds : ∀ cmd, (add cmd).image = cmd.image ++ new) :
    Pending base (withBarriers commands add) ∧
      recordedBarriers (withBarriers commands add) = recordedBarriers commands ++ new := by
  have one : ∀ cmd, recordedBarriers [.barrier cmd] = cmd.image := fun cmd =>
    List.append_nil cmd.image
  rcases pending with rfl | ⟨cmd, rfl⟩
  · have added : withBarriers commands add = commands ++ [.barrier (add {})] := by
      unfold withBarriers
      split
      · rename_i cmd last
        exact absurd last (pass cmd)
      · rfl
    rw [added, recordedBarriers_append, one, adds]
    exact ⟨Or.inr ⟨_, rfl⟩, rfl⟩
  · have added : withBarriers (base ++ [.barrier cmd]) add = base ++ [.barrier (add cmd)] := by
      unfold withBarriers
      rw [List.getLast?_concat, List.dropLast_concat]
    rw [added, recordedBarriers_append, recordedBarriers_append, one, one, adds,
      List.append_assoc]
    exact ⟨Or.inr ⟨_, rfl⟩, rfl⟩

/-! ## Old layouts -/

section OldLayouts

variable {states : Nat → MipState} {mipBegin : Nat}

theorem collect_rest (old : RenderGraph.OldMips) (mips : List Nat) (later : mipBegin ∉ mips) :
    let result := mips.foldl (RenderGraph.OldMips.collect mipBegin states) old
    result.layout = old.layout ∧ (result.differentLayouts = false →
      old.differentLayouts = false ∧ ∀ mip ∈ mips, (states mip).layout = old.layout) := by
  induction mips generalizing old with
  | nil => exact ⟨rfl, fun none => ⟨none, nofun⟩⟩
  | cons mip mips ih =>
    obtain ⟨notFirst, later⟩ := not_or.mp fun either => later (List.mem_cons.mpr either)
    obtain ⟨layout, same⟩ := ih (RenderGraph.OldMips.collect mipBegin states old mip) later
    have kept : (RenderGraph.OldMips.collect mipBegin states old mip).layout = old.layout :=
      if_neg (Ne.symm notFirst)
    refine ⟨layout.trans kept, fun none => ?_⟩
    obtain ⟨before, all⟩ := same none
    have here : (old.differentLayouts || (states mip).layout != old.layout) = false := by
      rw [← before]
      exact (if_neg (Ne.symm notFirst)).symm
    obtain ⟨noneBefore, equal⟩ := Bool.or_eq_false_iff.mp here
    refine ⟨noneBefore, fun other mem => ?_⟩
    rcases List.mem_cons.mp mem with rfl | mem
    · exact of_not_not fun differ => by simp [differ] at equal
    · rw [all other mem, kept]

theorem collect_layout {range : SubresourceRange}
    (none : (range.mips.foldl
      (RenderGraph.OldMips.collect range.baseMipLevel.toNat states) {}).differentLayouts = false) :
    ∀ mip ∈ range.mips, (states mip).layout = (range.mips.foldl
      (RenderGraph.OldMips.collect range.baseMipLevel.toNat states) {}).layout := by
  unfold SubresourceRange.mips at none ⊢
  cases count : range.mipEnd.toNat - range.baseMipLevel.toNat with
  | zero => exact nofun
  | succ count' =>
    rw [count, List.range'_succ, List.foldl_cons] at none
    rw [List.range'_succ, List.foldl_cons]
    have later : range.baseMipLevel.toNat ∉
        List.range' (range.baseMipLevel.toNat + 1) count' := by
      intro mem
      have bounds := List.mem_range'_1.mp mem
      omega
    obtain ⟨layout, same⟩ := @collect_rest states _ (RenderGraph.OldMips.collect
      range.baseMipLevel.toNat states {} range.baseMipLevel.toNat) _ later
    have first : (RenderGraph.OldMips.collect range.baseMipLevel.toNat states {}
        range.baseMipLevel.toNat).layout = (states range.baseMipLevel.toNat).layout :=
      if_pos rfl
    rw [layout, first]
    intro mip mem
    rcases List.mem_cons.mp mem with rfl | mem
    · rfl
    · rw [(same none).2 mip mem, first]

end OldLayouts

/-! ## Uses -/

/-- The builder knows the layouts that a replay leads to. -/
def Tracked (graph : RenderGraph) : Prop :=
  ∀ image mip, ((graph.images image).mipStates mip).layout = replay graph.commands image mip

section Uses

variable {graph graph' : RenderGraph} {view : Nat} {new : AccessState} {newLayout : ImageLayout}
  {discard : Bool} {base : List Command}

/-- If the layouts do not differ, the old layout is that of all mips, or they are discarded. -/
theorem oldMips_layout (none : (graph.oldMips view discard).differentLayouts = false) :
    (discard = true ∧ (graph.oldMips view discard).layout = Vk.imageLayoutUndefined) ∨
      ∀ mip ∈ (graph.views view).range.mips,
        (graph.oldMips view discard).layout =
          ((graph.images (graph.views view).image).mipStates mip).layout := by
  unfold RenderGraph.oldMips at none ⊢
  cases discard with
  | true => exact Or.inl ⟨rfl, rfl⟩
  | false => exact Or.inr fun mip mem => (collect_layout none mip mem).symm

theorem setMips_layout (graph : RenderGraph) (image : Nat) (mips : List Nat)
    (set : MipState → MipState) (other mip : Nat) :
    (((graph.setMips image mips set).images other).mipStates mip).layout =
      if other = image ∧ mip ∈ mips then (set ((graph.images image).mipStates mip)).layout
      else ((graph.images other).mipStates mip).layout := by
  unfold RenderGraph.setMips
  dsimp only
  by_cases same : other = image
  · rw [same, Function.update_self]
    by_cases mem : mip ∈ mips
    · rw [if_pos ⟨rfl, mem⟩]
      dsimp only
      rw [if_pos mem]
    · rw [if_neg fun both => mem both.2]
      dsimp only
      rw [if_neg mem]
  · rw [Function.update_of_ne same, if_neg fun both => same both.1]

theorem replay_one {layouts : Layouts} {barrier : ImageBarrier}
    (fits : barrier.Fits layouts discard) :
    AllFit discard layouts [barrier] ∧ replayFrom layouts [barrier] = barrier.execute layouts :=
  ⟨⟨fits, trivial⟩, rfl⟩

theorem replay_each {layouts : Layouts} {image : Nat} {mips : List Nat} (nodup : mips.Nodup)
    {barriers : Nat → ImageBarrier}
    (single : ∀ mip ∈ mips, (barriers mip).image = image ∧ (barriers mip).subresource.mips = [mip] ∧
      (barriers mip).oldLayout = layouts image mip ∧ (barriers mip).newLayout = newLayout) :
    AllFit discard layouts (mips.map barriers) ∧
      ∀ other mip, replayFrom layouts (mips.map barriers) other mip =
        if other = image ∧ mip ∈ mips then newLayout else layouts other mip := by
  induction mips generalizing layouts with
  | nil => exact ⟨trivial, fun other mip => (if_neg fun both => nomatch both.2).symm⟩
  | cons first mips ih =>
    obtain ⟨notLater, nodup⟩ := List.nodup_cons.mp nodup
    obtain ⟨isImage, isMip, old, wanted⟩ := single first List.mem_cons_self
    have executed : ∀ other mip, (barriers first).execute layouts other mip =
        if other = image ∧ mip = first then newLayout else layouts other mip := by
      intro other mip
      unfold ImageBarrier.execute
      rw [isImage, isMip, wanted]
      simp only [List.mem_singleton]
    obtain ⟨fit, result⟩ := @ih ((barriers first).execute layouts) nodup
      fun mip mem => by
        obtain ⟨isImage', isMip', old', wanted'⟩ := single mip (List.mem_cons_of_mem _ mem)
        have other : ¬ (image = image ∧ mip = first) := fun both => notLater (both.2 ▸ mem)
        refine ⟨isImage', isMip', ?_, wanted'⟩
        rw [executed, if_neg other]
        exact old'
    refine ⟨⟨Or.inl fun mip mem => ?_, fit⟩, fun other mip => ?_⟩
    · rw [isMip] at mem
      rw [List.mem_singleton.mp mem, isImage, old]
    · refine (result other mip).trans ?_
      rw [executed]
      by_cases isOther : other = image
      · by_cases later : mip ∈ mips
        · rw [if_pos ⟨isOther, later⟩, if_pos ⟨isOther, List.mem_cons_of_mem _ later⟩]
        · rw [if_neg fun both => later both.2]
          by_cases isFirst : mip = first
          · rw [if_pos ⟨isOther, isFirst⟩,
              if_pos ⟨isOther, isFirst ▸ List.mem_cons_self⟩]
          · rw [if_neg fun both => isFirst both.2, if_neg fun both =>
              (List.mem_cons.mp both.2).elim isFirst later]
      · rw [if_neg fun both => isOther both.1, if_neg fun both => isOther both.1,
          if_neg fun both => isOther both.1]

/-- The barriers of a use fit, and bring all mips of the view into the new layout. -/
theorem imageBarriers_replay (tracked : Tracked graph) :
    let barriers := graph.imageBarriers view (graph.oldMips view discard) new newLayout
    AllFit discard (replay graph.commands) barriers ∧
      ∀ image mip, replayFrom (replay graph.commands) barriers image mip =
        if InView graph.shape view image mip then newLayout
        else replay graph.commands image mip := by
  unfold RenderGraph.imageBarriers
  dsimp only
  split
  · rename_i none
    have none' : (graph.oldMips view discard).differentLayouts = false := by simpa using none
    obtain ⟨fit, result⟩ := @replay_one discard (replay graph.commands)
        { image := (graph.views view).image
          srcStages := (graph.oldMips view discard).access.stages
          srcAccess := (graph.oldMips view discard).access.readAccess |||
            (graph.oldMips view discard).access.writeAccess
          dstStages := new.stages
          dstAccess := new.readAccess ||| new.writeAccess
          oldLayout := (graph.oldMips view discard).layout
          newLayout := newLayout
          subresource := (graph.views view).range } (by
        rcases oldMips_layout none' with discards | same
        · exact Or.inr discards
        · exact Or.inl fun mip mem => (same mip mem).trans (tracked _ mip))
    exact ⟨fit, fun image mip => congrFun (congrFun result image) mip⟩
  · exact replay_each (mips_nodup _) fun mip mem =>
      ⟨rfl, mips_single mem, tracked _ mip, rfl⟩

theorem resolveImageHazards_replay (tracked : Tracked graph) (pass : EndsWithPass base)
    (pending : Pending base graph.commands)
    (resolved : graph.resolveImageHazards view new newLayout discard = some graph') :
    Tracked graph' ∧ Pending base graph'.commands ∧ graph'.shape = graph.shape ∧
      ∃ barriers, recordedBarriers graph'.commands = recordedBarriers graph.commands ++ barriers ∧
        UseReplay graph.shape view newLayout discard (replay graph.commands) barriers
          (replay graph'.commands) := by
  unfold RenderGraph.resolveImageHazards at resolved
  dsimp only at resolved
  split at resolved
  · cases resolved
  split at resolved
  · rename_i quiet
    cases resolved
    have layouts : ∀ image mip,
        (((graph.setMips (graph.views view).image (graph.views view).range.mips fun state =>
          { state with access := state.access.join new }).images image).mipStates mip).layout =
          ((graph.images image).mipStates mip).layout := by
      intro image mip
      rw [setMips_layout]
      split
      · rename_i both
        rw [both.1]
      · rfl
    obtain ⟨⟨⟨none, -⟩, -⟩, same⟩ := by
      simpa only [RenderGraph.noImageHazard, Bool.and_eq_true] using quiet
    refine ⟨fun image mip => (layouts image mip).trans (tracked image mip), pending, rfl, [],
      (List.append_nil _).symm, rfl, trivial, fun image mip inside => ?_, fun _ _ _ => rfl⟩
    have same' : (graph.oldMips view discard).layout = newLayout := eq_of_beq same
    rcases oldMips_layout (by simpa using none) with ⟨discards, undefined⟩ | all
    · exact Or.inr ⟨discards, same' ▸ undefined⟩
    · obtain ⟨rfl, mem⟩ := inside
      exact Or.inl ((tracked _ mip).symm.trans ((all mip mem).symm.trans same'))
  · cases resolved
    obtain ⟨fit, result⟩ := @imageBarriers_replay _ view new newLayout discard
      tracked
    obtain ⟨pending', recorded⟩ := withBarriers_pending pass pending
      (fun cmd => { cmd with
        image := cmd.image ++
          graph.imageBarriers view (graph.oldMips view discard) new newLayout })
      (graph.imageBarriers view (graph.oldMips view discard) new newLayout)
      (fun cmd => rfl)
    have replayed : ∀ image mip, replay (withBarriers graph.commands fun cmd => { cmd with
        image := cmd.image ++
          graph.imageBarriers view (graph.oldMips view discard) new newLayout }) image mip =
        if InView graph.shape view image mip then newLayout
        else replay graph.commands image mip := by
      intro image mip
      unfold replay at result ⊢
      rw [recorded, replayFrom_append]
      exact result image mip
    refine ⟨fun image mip => ?_, pending', rfl, _, recorded, ?_, fit, fun image mip inside => ?_,
      fun image mip outside => ?_⟩
    · refine (setMips_layout graph _ (graph.views view).range.mips
        (fun _ => { layout := newLayout, access := new }) image mip).trans
        (Eq.trans ?_ (replayed image mip).symm)
      by_cases inside : InView graph.shape view image mip
      · rw [if_pos inside]
        exact if_pos inside
      · rw [if_neg inside, ← tracked image mip]
        exact if_neg inside
    · exact (congrArg (replayFrom _) recorded).trans (replayFrom_append _ _ _)
    · exact Or.inl ((replayed image mip).trans (if_pos inside))
    · exact (replayed image mip).trans (if_neg outside)

theorem resolveBufferHazards_replay (tracked : Tracked graph) (pass : EndsWithPass base)
    (pending : Pending base graph.commands) (number : Nat) (new : AccessState) :
    let graph' := graph.resolveBufferHazards number new
    Tracked graph' ∧ Pending base graph'.commands ∧ graph'.shape = graph.shape ∧
      recordedBarriers graph'.commands = recordedBarriers graph.commands := by
  unfold RenderGraph.resolveBufferHazards
  dsimp only
  split
  · exact ⟨tracked, pending, rfl, rfl⟩
  · obtain ⟨pending', recorded⟩ := withBarriers_pending pass pending
      (fun cmd => { cmd with
        buffer := cmd.buffer ++
          [{ buffer := number
             srcStages := (graph.buffers number).access.stages
             srcAccess := (graph.buffers number).access.readAccess |||
               (graph.buffers number).access.writeAccess
             dstStages := new.stages
             dstAccess := new.readAccess ||| new.writeAccess }] })
      [] (fun cmd => (List.append_nil _).symm)
    rw [List.append_nil] at recorded
    refine ⟨fun image mip => (tracked image mip).trans ?_, pending', rfl, recorded⟩
    unfold replay
    rw [recorded]

end Uses

/-! ## Passes -/

/-- The replay of the barriers that are recorded for an item of a pass. -/
def ItemReplay (shape : Nat → Nat × SubresourceRange) (item : PassItem) (before : Layouts)
    (barriers : List ImageBarrier) (after : Layouts) : Prop :=
  match item.call with
  | some (.view view _ newLayout discard) =>
    UseReplay shape view newLayout discard before barriers after
  | _ => barriers = [] ∧ after = before

/-- The barriers of the items of a pass, replayed one after another. -/
inductive PassReplay (shape : Nat → Nat × SubresourceRange) :
    Layouts → List PassItem → List ImageBarrier → Layouts → Prop
  | nil (layouts : Layouts) : PassReplay shape layouts [] [] layouts
  | cons {before middle after : Layouts} {item : PassItem} {items : List PassItem}
      {barriers rest : List ImageBarrier} (first : ItemReplay shape item before barriers middle)
      (others : PassReplay shape middle items rest after) :
      PassReplay shape before (item :: items) (barriers ++ rest) after

/-- The item uses the mip. -/
def PassItem.Uses (shape : Nat → Nat × SubresourceRange) (item : PassItem) (image mip : Nat) :
    Prop :=
  match item.call with
  | some (.view view _ _ _) => InView shape view image mip
  | _ => False

/-- The mips that the item uses are in the layout that it declares. -/
def PassItem.Declared (shape : Nat → Nat × SubresourceRange) (item : PassItem)
    (layouts : Layouts) : Prop :=
  match item.call with
  | some (.view view _ newLayout discard) => ∀ image mip, InView shape view image mip →
      layouts image mip = newLayout ∨ discard = true ∧ newLayout = Vk.imageLayoutUndefined
  | _ => True

/-- No mip is used by two items. -/
def UsesOnce (shape : Nat → Nat × SubresourceRange) (items : List PassItem) : Prop :=
  items.Pairwise fun item other =>
    ∀ image mip, item.Uses shape image mip → ¬ other.Uses shape image mip

section Passes

variable {graph graph' : RenderGraph} {base : List Command} {shape : Nat → Nat × SubresourceRange}
  {before after : Layouts} {barriers : List ImageBarrier}

theorem resolve_replay {item : PassItem} (tracked : Tracked graph) (pass : EndsWithPass base)
    (pending : Pending base graph.commands) (resolved : item.resolve graph = some graph') :
    Tracked graph' ∧ Pending base graph'.commands ∧ graph'.shape = graph.shape ∧
      ∃ barriers, recordedBarriers graph'.commands = recordedBarriers graph.commands ++ barriers ∧
        ItemReplay graph.shape item (replay graph.commands) barriers (replay graph'.commands) := by
  obtain ⟨unchanged, calls⟩ := PassItem.resolve_call resolved
  unfold ItemReplay
  cases isCall : item.call with
  | none =>
    cases unchanged isCall
    exact ⟨tracked, pending, rfl, [], (List.append_nil _).symm, rfl, rfl⟩
  | some call =>
    obtain ⟨middle, same, ran⟩ := calls call isCall
    have trackedMiddle : Tracked middle := by
      intro image mip
      rw [same.mipStates, same.commands]
      exact tracked image mip
    rw [← same.commands] at pending
    cases call with
    | buffer number new =>
      cases ran
      obtain ⟨tracked', pending', shape', recorded⟩ :=
        resolveBufferHazards_replay trackedMiddle pass pending number new
      refine ⟨tracked', pending', shape'.trans same.shape, [], ?_, rfl, ?_⟩
      · rw [recorded, same.commands, List.append_nil]
      · unfold replay
        rw [recorded, same.commands]
    | view view new newLayout discard =>
      obtain ⟨tracked', pending', shape', barriers, recorded, use⟩ :=
        resolveImageHazards_replay trackedMiddle pass pending ran
      rw [same.shape, same.commands] at use
      rw [same.commands] at recorded
      exact ⟨tracked', pending', shape'.trans same.shape, barriers, recorded, use⟩

theorem foldlM_resolve_replay {items : List PassItem} (tracked : Tracked graph)
    (pass : EndsWithPass base) (pending : Pending base graph.commands)
    (resolved : items.foldlM PassItem.resolve graph = some graph') :
    Tracked graph' ∧ Pending base graph'.commands ∧ graph'.shape = graph.shape ∧
      ∃ barriers, recordedBarriers graph'.commands = recordedBarriers graph.commands ++ barriers ∧
        PassReplay graph.shape (replay graph.commands) items barriers
          (replay graph'.commands) := by
  induction items generalizing graph with
  | nil =>
    cases resolved
    exact ⟨tracked, pending, rfl, [], (List.append_nil _).symm, .nil _⟩
  | cons item items ih =>
    rw [List.foldlM_cons] at resolved
    obtain ⟨middle, first, rest⟩ := Option.bind_eq_some_iff.mp resolved
    obtain ⟨tracked', pending', shape', barriers, recorded, replayed⟩ :=
      resolve_replay tracked pass pending first
    obtain ⟨tracked'', pending'', shape'', barriers', recorded', replayed'⟩ :=
      ih tracked' pending' rest
    rw [shape'] at replayed' shape''
    refine ⟨tracked'', pending'', shape'', barriers ++ barriers', ?_, .cons replayed replayed'⟩
    rw [recorded', recorded, List.append_assoc]

theorem PassReplay.outside {items : List PassItem}
    (replayed : PassReplay shape before items barriers after) {image mip : Nat}
    (unused : ∀ item ∈ items, ¬ item.Uses shape image mip) :
    after image mip = before image mip := by
  induction replayed with
  | nil => rfl
  | cons first others ih =>
    rename_i item items _ _
    have here := unused item List.mem_cons_self
    rw [ih fun other mem => unused other (List.mem_cons_of_mem _ mem)]
    unfold ItemReplay at first
    unfold PassItem.Uses at here
    split at first
    · rename_i isCall
      rw [isCall] at here
      exact first.outside image mip here
    · rw [first.2]

/-- When no mip is used twice, each is at the end in the layout that its use declares. -/
theorem PassReplay.declared {items : List PassItem}
    (replayed : PassReplay shape before items barriers after) (once : UsesOnce shape items) :
    ∀ item ∈ items, item.Declared shape after := by
  induction replayed with
  | nil => exact nofun
  | cons first others ih =>
    rename_i item items _ _
    obtain ⟨apart, once⟩ := List.pairwise_cons.mp once
    intro other mem
    rcases List.mem_cons.mp mem with rfl | mem
    · unfold ItemReplay at first
      unfold PassItem.Declared
      cases isCall : other.call with
      | none => trivial
      | some call =>
        rw [isCall] at first
        cases call with
        | buffer number new => trivial
        | view view new newLayout discard =>
          intro image mip inside
          have uses : other.Uses shape image mip := by
            unfold PassItem.Uses
            rw [isCall]
            exact inside
          rw [others.outside fun later mem => apart later mem image mip uses]
          exact first.declared image mip inside
    · exact ih once other mem

end Passes

/-! ## Runs -/

/-- What the builder keeps between passes. -/
structure LayoutInv (shape : Nat → Nat × SubresourceRange) (graph : RenderGraph) : Prop where
  tracked : Tracked graph
  pass : EndsWithPass graph.commands
  shape : graph.shape = shape

section Runs

variable {graph graph' : RenderGraph} {pass : PassDeclaration}
  {mipLevels : Nat → BitVec 32} {views : Nat → Nat × SubresourceRange}

theorem LayoutInv.initial : LayoutInv views (RenderGraph.new mipLevels views) where
  tracked _ _ := rfl
  pass := nofun
  shape := rfl

theorem LayoutInv.makePass_replay (inv : LayoutInv views graph)
    (made : graph.makePass pass = some graph') :
    LayoutInv views graph' ∧ ∃ pending,
      graph'.commands = graph.commands ++ pending ++ [pass.command] ∧
      PassReplay views (replay graph.commands) pass.items (recordedBarriers pending)
        (replay (graph.commands ++ pending)) := by
  obtain ⟨resolved, ran, rfl⟩ := RenderGraph.makePass_items made
  obtain ⟨tracked, isPending, shape, barriers, recorded, replayed⟩ :=
    foldlM_resolve_replay inv.tracked inv.pass (Or.inl rfl) ran
  have quiet : recordedBarriers [pass.command] = [] := by
    cases pass <;> rfl
  have same : replay (resolved.commands ++ [pass.command]) = replay resolved.commands := by
    unfold replay
    rw [recordedBarriers_append, quiet, List.append_nil]
  refine ⟨⟨fun image mip => ?_, fun cmd last => ?_, shape.trans inv.shape⟩, ?_⟩
  · rw [same]
    exact tracked image mip
  · rw [List.getLast?_concat] at last
    cases pass <;> cases last
  · obtain ⟨pending, commands_eq⟩ : ∃ pending, resolved.commands = graph.commands ++ pending := by
      rcases isPending with same | ⟨cmd, same⟩
      · exact ⟨[], same.trans (List.append_nil _).symm⟩
      · exact ⟨_, same⟩
    have barriers_eq : recordedBarriers pending = barriers := by
      rw [commands_eq, recordedBarriers_append] at recorded
      exact List.append_cancel_left recorded
    rw [commands_eq, inv.shape] at replayed
    exact ⟨pending, by rw [commands_eq], barriers_eq ▸ replayed⟩

/-- At every pass: the barriers recorded for its items fit when they are replayed in order, each
item keeps the layouts outside of its view, and if no mip is used twice, all mips are in the layouts
that the items declare when the pass is reached. -/
theorem makePass_layouts {passes : List PassDeclaration}
    (reached : Runs.run RenderGraph.makePass (RenderGraph.new mipLevels views) passes = some graph)
    (made : graph.makePass pass = some graph') :
    ∃ pending, graph'.commands = graph.commands ++ pending ++ [pass.command] ∧
      PassReplay views (replay graph.commands) pass.items (recordedBarriers pending)
        (replay (graph.commands ++ pending)) ∧
      (UsesOnce views pass.items →
        ∀ item ∈ pass.items, item.Declared views (replay (graph.commands ++ pending))) := by
  have inv : LayoutInv views graph :=
    Runs.run_preserved (fun _ _ _ inv made => (LayoutInv.makePass_replay inv made).1)
      LayoutInv.initial reached
  obtain ⟨-, pending, commands_eq, replayed⟩ := inv.makePass_replay made
  exact ⟨pending, commands_eq, replayed, fun once => replayed.declared once⟩

/-- A compute pass that uses the view of an image. -/
def imagePass (name : String) (layout : ImageLayout) (discard : Bool) : PassDeclaration :=
  .compute name
    [{ imageView := some 0
       stages := Vk.stageComputeShader
       access := Vk.accessShaderSampledRead
       layout := layout
       discard := discard }]

/-- Two passes with different layouts. -/
theorem makePass_layouts_read :
    ∃ graph graph', Runs.run RenderGraph.makePass (RenderGraph.new singleMips singleViews)
        [imagePass "write" 1 true] = some graph ∧
      graph.makePass (imagePass "read" 5 false) = some graph' ∧
      ∃ pending, graph'.commands =
        graph.commands ++ pending ++ [(imagePass "read" 5 false).command] := by
  have possible : ((Runs.run RenderGraph.makePass (RenderGraph.new singleMips singleViews)
      [imagePass "write" 1 true]).bind fun graph =>
        graph.makePass (imagePass "read" 5 false)).isSome = true := by
    decide +kernel
  obtain ⟨graph', both⟩ := Option.isSome_iff_exists.mp possible
  obtain ⟨graph, reached, made⟩ := Option.bind_eq_some_iff.mp both
  obtain ⟨pending, commands_eq, -⟩ := makePass_layouts reached made
  exact ⟨graph, graph', reached, made, pending, commands_eq⟩

/-- A use that discards the contents and declares the undefined layout leaves the mip where it is. -/
theorem not_declared_undefined :
    ¬ ∀ (passes : List PassDeclaration) (pass : PassDeclaration) (graph graph' : RenderGraph),
      Runs.run RenderGraph.makePass (RenderGraph.new singleMips singleViews) passes = some graph →
      graph.makePass pass = some graph' → UsesOnce singleViews pass.items →
      ∀ item ∈ pass.items, ∀ view new newLayout discard,
        item.call = some (.view view new newLayout discard) →
        ∀ image mip, InView singleViews view image mip →
          replay graph'.commands image mip = newLayout := by
  intro declared
  have checked : ((Runs.run RenderGraph.makePass (RenderGraph.new singleMips singleViews)
      [imagePass "read" 1 false]).bind fun graph =>
        (graph.makePass (imagePass "discard" Vk.imageLayoutUndefined true)).map fun graph' =>
          replay graph'.commands 0 0) = some 1 := by
    decide +kernel
  obtain ⟨graph, reached, rest⟩ := Option.bind_eq_some_iff.mp checked
  obtain ⟨graph', made, layout⟩ := Option.map_eq_some_iff.mp rest
  have undefined := declared _ _ graph graph' reached made (List.pairwise_singleton _ _) _
    (List.mem_singleton_self _) 0 _ _ _ rfl 0 0 (by decide)
  rw [undefined] at layout
  exact absurd layout (by decide)

end Runs

end Voxen.Gfx
