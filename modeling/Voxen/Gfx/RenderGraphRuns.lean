import Voxen.Gfx.RenderGraphHazards
import Voxen.Lib.Runs

/-!
# Hazards between passes

In a run over the declared passes the barriers synchronise conflicting uses of different
passes, as long as a use that joins earlier ones is covered by a barrier already, and a
barrier within a pass forgets no use of the pass.
-/

namespace Voxen.Gfx

open BarrierChains

/-! ## Uses of a pass -/

/-- What a pass uses, in the order in which it is resolved. -/
inductive PassItem where
  | usage (item : ResourceUsage)
  | depthStencil (target : RenderTarget)
  | color (target : RenderTarget)

/-- The call for an item of `resolveResourceUsage`. -/
def ResourceUsage.call (item : ResourceUsage) : Option HazardCall :=
  let access : AccessState :=
    { stages := item.stages
      readAccess := item.access &&& knownReadFlags
      writeAccess := item.access &&& knownWriteFlags }
  match item.buffer, item.imageView with
  | some buffer, none => some (.buffer buffer access)
  | none, some view => some (.view view access item.layout item.discard)
  | _, _ => none

theorem ResourceUsage.call_buffer {item : ResourceUsage} {buffer : Nat}
    (isBuffer : item.buffer = some buffer) (noView : item.imageView = none) :
    item.call = some (.buffer buffer
      { stages := item.stages
        readAccess := item.access &&& knownReadFlags
        writeAccess := item.access &&& knownWriteFlags }) := by
  unfold ResourceUsage.call
  rw [isBuffer, noView]

theorem ResourceUsage.call_view {item : ResourceUsage} {view : Nat}
    (noBuffer : item.buffer = none) (isView : item.imageView = some view) :
    item.call = some (.view view
      { stages := item.stages
        readAccess := item.access &&& knownReadFlags
        writeAccess := item.access &&& knownWriteFlags } item.layout item.discard) := by
  unfold ResourceUsage.call
  rw [noBuffer, isView]

/-- The call for a target of `makeRenderPass`. -/
def RenderTarget.call (stages read write : Flags64) (target : RenderTarget) : Option HazardCall :=
  target.resource.map fun view =>
    .view view
      { stages := stages
        readAccess := read
        writeAccess := if target.readOnly then 0 else write }
      Vk.imageLayoutAttachmentOptimal (target.loadOp = .clear || target.loadOp = .dontCare)

namespace PassItem

def resolve (graph : RenderGraph) : PassItem → Option RenderGraph
  | .usage item => graph.resolveUsage item
  | .depthStencil target => graph.resolveDepthStencilTarget target
  | .color target => graph.resolveColorTarget target

def call : PassItem → Option HazardCall
  | .usage item => item.call
  | .depthStencil target =>
    target.call (Vk.stageEarlyFragmentTests ||| Vk.stageLateFragmentTests)
      Vk.accessDepthStencilAttachmentRead Vk.accessDepthStencilAttachmentWrite
  | .color target =>
    target.call Vk.stageColorAttachmentOutput Vk.accessColorAttachmentRead
      Vk.accessColorAttachmentWrite

end PassItem

namespace PassDeclaration

def items : PassDeclaration → List PassItem
  | .compute _ usage => usage.map .usage
  | .render _ colorTargets dsTarget usage =>
    usage.map .usage ++ .depthStencil dsTarget :: colorTargets.map .color

def command : PassDeclaration → Command
  | .compute name _ => .computePass name
  | .render name colorTargets dsTarget _ => .renderPass name colorTargets dsTarget

end PassDeclaration

theorem RenderGraph.makePass_items {graph graph' : RenderGraph} {pass : PassDeclaration}
    (made : graph.makePass pass = some graph') :
    ∃ resolved, pass.items.foldlM PassItem.resolve graph = some resolved ∧
      graph' = { resolved with commands := resolved.commands ++ [pass.command] } := by
  cases pass with
  | compute name usage =>
    obtain ⟨resolved, ran, last⟩ := Option.bind_eq_some_iff.mp made
    refine ⟨resolved, ?_, (Option.some.inj last).symm⟩
    unfold PassDeclaration.items
    rw [List.foldlM_map]
    exact ran
  | render name colorTargets dsTarget usage =>
    obtain ⟨used, ran, rest⟩ := Option.bind_eq_some_iff.mp made
    obtain ⟨depth, ranDepth, rest⟩ := Option.bind_eq_some_iff.mp rest
    split at rest
    · obtain ⟨resolved, ranColor, last⟩ := Option.bind_eq_some_iff.mp rest
      refine ⟨resolved, ?_, (Option.some.inj last).symm⟩
      unfold PassDeclaration.items
      rw [List.foldlM_append, List.foldlM_map]
      refine Option.bind_eq_some_iff.mpr ⟨used, ran, ?_⟩
      rw [List.foldlM_cons]
      refine Option.bind_eq_some_iff.mpr ⟨depth, ranDepth, ?_⟩
      rw [List.foldlM_map]
      exact ranColor
    · cases rest

/-! ## Usage flags -/

/-- Graphs with the same summaries, layouts and commands. -/
structure SameTracked (graph graph' : RenderGraph) : Prop where
  image : ∀ view, (graph'.views view).image = (graph.views view).image
  range : ∀ view, (graph'.views view).range = (graph.views view).range
  buffers : ∀ buffer, (graph'.buffers buffer).access = (graph.buffers buffer).access
  mipStates : ∀ image, (graph'.images image).mipStates = (graph.images image).mipStates
  commands : graph'.commands = graph.commands

section SameTracked

variable {graph graph' graph'' : RenderGraph} {call : HazardCall}

theorem SameTracked.shape (same : SameTracked graph graph') : graph'.shape = graph.shape :=
  funext fun view => Prod.ext (same.image view) (same.range view)

theorem SameTracked.access (same : SameTracked graph graph') (resource : Resource) :
    graph'.access resource = graph.access resource := by
  cases resource with
  | buffer number => exact same.buffers number
  | mip image mip => exact congrArg (fun states => (states mip).access) (same.mipStates image)

theorem SameTracked.quiet (same : SameTracked graph graph') :
    call.quiet graph' = call.quiet graph := by
  cases call with
  | buffer number new =>
    unfold HazardCall.quiet
    dsimp only
    rw [same.buffers]
  | view number new newLayout discard =>
    unfold HazardCall.quiet RenderGraph.oldMips
    dsimp only
    rw [same.image, same.range, same.mipStates]

theorem CallEffect.of_same (effect : CallEffect graph' graph'' call)
    (same : SameTracked graph graph') : CallEffect graph graph'' call where
  shape := effect.shape.trans same.shape
  passes := same.commands ▸ effect.passes
  elsewhere := by
    intro resource notIn
    rw [← same.shape] at notIn
    rw [← same.access, ← same.commands]
    exact effect.elsewhere resource notIn
  quiet := by
    intro quiet resource mem
    rw [← same.quiet] at quiet
    rw [← same.shape] at mem
    rw [← same.access, ← same.commands]
    exact effect.quiet quiet resource mem
  hazard := by
    intro hazard resource mem
    rw [← same.quiet] at hazard
    rw [← same.shape] at mem
    rw [← same.access, ← same.commands]
    exact effect.hazard hazard resource mem

theorem addBufferUsage_same (graph : RenderGraph) (buffer : Nat) (usage : UsageFlags) :
    SameTracked graph (graph.addBufferUsage buffer usage) where
  image := fun _ => rfl
  range := fun _ => rfl
  buffers := by
    intro other
    unfold RenderGraph.addBufferUsage
    dsimp only
    by_cases same : other = buffer
    · rw [same, Function.update_self]
    · rw [Function.update_of_ne same]
  mipStates := fun _ => rfl
  commands := rfl

theorem addViewUsage_same (graph : RenderGraph) (view : Nat) (usage : UsageFlags) :
    SameTracked graph (graph.addViewUsage view usage) := by
  have views : ∀ other, ((graph.addViewUsage view usage).views other).image =
        (graph.views other).image ∧
      ((graph.addViewUsage view usage).views other).range = (graph.views other).range := by
    intro other
    unfold RenderGraph.addViewUsage
    dsimp only
    by_cases same : other = view
    · rw [same, Function.update_self]
      exact ⟨rfl, rfl⟩
    · rw [Function.update_of_ne same]
      exact ⟨rfl, rfl⟩
  exact
    { image := fun other => (views other).1
      range := fun other => (views other).2
      buffers := fun _ => rfl
      mipStates := by
        intro image
        unfold RenderGraph.addViewUsage
        dsimp only
        by_cases same : image = (graph.views view).image
        · rw [same, Function.update_self]
        · rw [Function.update_of_ne same]
      commands := rfl }

end SameTracked

theorem resolveTarget_call {usage : UsageFlags} {stages read write : Flags64}
    {graph graph' : RenderGraph} {target : RenderTarget}
    (resolved : RenderGraph.resolveTarget usage stages read write graph target = some graph') :
    (target.call stages read write = none → graph' = graph) ∧
      ∀ call, target.call stages read write = some call →
        ∃ middle, SameTracked graph middle ∧ call.run middle = some graph' := by
  unfold RenderGraph.resolveTarget at resolved
  unfold RenderTarget.call
  cases resource : target.resource with
  | none =>
    rw [resource] at resolved
    cases resolved
    exact ⟨fun _ => rfl, fun _ absurd => by cases absurd⟩
  | some view =>
    rw [resource] at resolved
    dsimp only at resolved
    split at resolved
    · cases resolved
    · refine ⟨fun absurd => (by cases absurd), fun call same => ?_⟩
      cases same
      exact ⟨_, addViewUsage_same graph view usage, resolved⟩

theorem splitReadWriteFlags_eq {flags : Flags64} {split : Flags64 × Flags64}
    (splits : splitReadWriteFlags flags = some split) :
    split = (flags &&& knownReadFlags, flags &&& knownWriteFlags) := by
  unfold splitReadWriteFlags at splits
  split at splits
  · exact (Option.some.inj splits).symm
  · cases splits

theorem PassItem.resolve_call {graph graph' : RenderGraph} {item : PassItem}
    (resolved : item.resolve graph = some graph') :
    (item.call = none → graph' = graph) ∧ ∀ call, item.call = some call →
      ∃ middle, SameTracked graph middle ∧ call.run middle = some graph' := by
  cases item with
  | depthStencil target => exact resolveTarget_call resolved
  | color target => exact resolveTarget_call resolved
  | usage item =>
    unfold PassItem.resolve RenderGraph.resolveUsage at resolved
    dsimp only at resolved
    change (item.call = none → graph' = graph) ∧ ∀ call, item.call = some call → _
    split at resolved
    · rename_i buffer isBuffer noView
      obtain ⟨flags, splits, rest⟩ := Option.bind_eq_some_iff.mp resolved
      obtain ⟨usage, _, last⟩ := Option.bind_eq_some_iff.mp rest
      obtain rfl := splitReadWriteFlags_eq splits
      rw [ResourceUsage.call_buffer isBuffer noView]
      refine ⟨fun absurd => (by cases absurd), fun call same => ?_⟩
      cases same
      exact ⟨_, addBufferUsage_same graph buffer usage, last⟩
    · rename_i view noBuffer isView
      obtain ⟨flags, splits, rest⟩ := Option.bind_eq_some_iff.mp resolved
      obtain ⟨usage, _, last⟩ := Option.bind_eq_some_iff.mp rest
      obtain rfl := splitReadWriteFlags_eq splits
      rw [ResourceUsage.call_view noBuffer isView]
      refine ⟨fun absurd => (by cases absurd), fun call same => ?_⟩
      cases same
      exact ⟨_, addViewUsage_same graph view usage, last⟩
    · cases resolved

theorem PassItem.resolve_effect {graph graph' : RenderGraph} {item : PassItem}
    (resolved : item.resolve graph = some graph') :
    (item.call = none → graph' = graph) ∧
      ∀ call, item.call = some call → CallEffect graph graph' call := by
  obtain ⟨unchanged, calls⟩ := PassItem.resolve_call resolved
  refine ⟨unchanged, fun call isCall => ?_⟩
  obtain ⟨middle, same, ran⟩ := calls call isCall
  exact (HazardCall.run_effect ran).of_same same

/-! ## Recordings -/

/-- A use of a resource by a pass. -/
structure PassUse where
  pass : Nat
  resource : Resource
  access : AccessState
deriving DecidableEq

/-- The builder, with the uses of the passes so far. -/
structure Recording where
  graph : RenderGraph
  uses : List PassUse := []

/-- The uses by an item of the pass that is recorded next. -/
def PassItem.uses (shape : Nat → Nat × SubresourceRange) (pass : Nat) (item : PassItem) :
    List PassUse :=
  match item.call with
  | none => []
  | some call => (call.resources shape).map fun resource => ⟨pass, resource, call.access⟩

namespace Recording

/-- What the recording has of one resource. -/
def recorder (recording : Recording) (resource : Resource) : Recorder Scope where
  summary := (recording.graph.access resource).scope
  barriers := barriersOn resource 0 recording.graph.commands
  uses := (recording.uses.filter fun use => use.resource = resource).map fun use =>
    (use.pass, use.access.use)
  phase := passCount recording.graph.commands

/-- A use that joins the earlier ones is among what a barrier orders behind each use of an earlier
pass it conflicts with, and a use that gets a barrier includes the uses of its own pass. -/
def Covered (recording : Recording) (call : HazardCall) : Prop :=
  ∀ resource ∈ call.resources recording.graph.shape, ∀ use ∈ recording.uses,
    use.resource = resource →
      if call.quiet recording.graph then
        use.pass < passCount recording.graph.commands →
          use.access.use.conflicts call.access.use = true →
            ∃ barrier ∈ barriersOn resource 0 recording.graph.commands,
              use.pass < barrier.phase ∧ call.access.scope ≤ barrier.dst
      else use.pass = passCount recording.graph.commands → use.access.scope ≤ call.access.scope

instance Covered.decidable (recording : Recording) (call : HazardCall) :
    Decidable (recording.Covered call) := by
  unfold Covered
  infer_instance

/-- The next item of a pass. -/
def useItem (recording : Recording) (item : PassItem) : Option Recording := do
  let graph ← item.resolve recording.graph
  some
    { graph := graph
      uses := recording.uses ++
        item.uses recording.graph.shape (passCount recording.graph.commands) }

def ItemCovered (recording : Recording) (item : PassItem) : Prop :=
  match item.call with
  | none => True
  | some call => recording.Covered call

instance ItemCovered.decidable (recording : Recording) (item : PassItem) :
    Decidable (recording.ItemCovered item) := by
  unfold ItemCovered
  split <;> infer_instance

/-- The next pass. -/
def declarePass (recording : Recording) (pass : PassDeclaration) : Option Recording := do
  let graph ← recording.graph.makePass pass
  some
    { graph := graph
      uses := recording.uses ++ pass.items.flatMap
        (PassItem.uses recording.graph.shape (passCount recording.graph.commands)) }

/-- All items of the pass are covered when it comes to them. -/
def PassCovered (recording : Recording) (pass : PassDeclaration) : Prop :=
  Runs.StepsMeet useItem ItemCovered recording pass.items

instance PassCovered.decidable (recording : Recording) (pass : PassDeclaration) :
    Decidable (recording.PassCovered pass) := by
  unfold PassCovered
  infer_instance

/-- The recorders of all resources keep their uses linked. -/
structure HazardInv (recording : Recording) : Prop where
  recorders : ∀ resource, (recording.recorder resource).Inv

/-! ## Steps -/

theorem resources_nodup (shape : Nat → Nat × SubresourceRange) (call : HazardCall) :
    (call.resources shape).Nodup := by
  cases call with
  | buffer number new => exact List.nodup_singleton _
  | view number new newLayout discard =>
    exact (mips_nodup _).map fun _ _ same => (Resource.mip.inj same).2

theorem filter_uses {resources : List Resource} (nodup : resources.Nodup) (pass : Nat)
    (access : AccessState) (resource : Resource) :
    (((resources.map fun resource => (⟨pass, resource, access⟩ : PassUse)).filter
        fun use => use.resource = resource).map fun use => (use.pass, use.access.use)) =
      if resource ∈ resources then [(pass, access.use)] else [] := by
  rw [List.filter_map, List.map_map]
  have equal : ∀ other ∈ resources,
      ((fun use : PassUse => decide (use.resource = resource)) ∘
        fun resource => (⟨pass, resource, access⟩ : PassUse)) other = (other == resource) :=
    fun other _ => rfl
  rw [List.filter_congr equal, List.filter_beq, List.Nodup.count nodup]
  split <;> rfl

theorem HazardInv.call {recording : Recording} (inv : HazardInv recording) {graph' : RenderGraph}
    {call : HazardCall} (effect : CallEffect recording.graph graph' call)
    (covered : recording.Covered call) :
    HazardInv
      { graph := graph'
        uses := recording.uses ++ (call.resources recording.graph.shape).map fun resource =>
          ⟨passCount recording.graph.commands, resource, call.access⟩ } := by
  refine ⟨fun resource => ?_⟩
  have uses : ((recording.uses ++ (call.resources recording.graph.shape).map fun resource =>
        (⟨passCount recording.graph.commands, resource, call.access⟩ : PassUse)).filter
          fun use => use.resource = resource).map (fun use => (use.pass, use.access.use)) =
      (recording.recorder resource).uses ++
        if resource ∈ call.resources recording.graph.shape then
          [(passCount recording.graph.commands, call.access.use)] else [] := by
    rw [List.filter_append, List.map_append, filter_uses (resources_nodup _ _)]
    rfl
  have old := inv.recorders resource
  unfold recorder
  dsimp only
  rw [uses, effect.passes]
  by_cases mem : resource ∈ call.resources recording.graph.shape
  · rw [if_pos mem]
    have mine : ∀ entry ∈ (recording.recorder resource).uses, ∃ use ∈ recording.uses,
        use.resource = resource ∧ entry = (use.pass, use.access.use) := by
      intro entry there
      obtain ⟨use, found, rfl⟩ := List.mem_map.mp there
      obtain ⟨found, same⟩ := List.mem_filter.mp found
      exact ⟨use, found, of_decide_eq_true same, rfl⟩
    cases quiet : call.quiet recording.graph with
    | true =>
      obtain ⟨access, barriers⟩ := effect.quiet quiet resource mem
      rw [access, barriers]
      refine old.merge (AccessState.scope_le_join _ _) ?_ ?_
      · rw [AccessState.join_comm]
        exact AccessState.scope_le_join _ _
      · intro entry there before conflict
        obtain ⟨use, found, same, rfl⟩ := mine entry there
        have covers := covered resource mem use found same
        rw [if_pos quiet] at covers
        exact covers before conflict
    | false =>
      obtain ⟨access, src, taken, barriers⟩ := effect.hazard quiet resource mem
      rw [access, barriers]
      refine @Recorder.Inv.barrier Scope _ _ call.access.use old src taken
        fun entry there now => ?_
      obtain ⟨use, found, same, rfl⟩ := mine entry there
      have covers := covered resource mem use found same
      rw [if_neg (Bool.eq_false_iff.mp quiet)] at covers
      exact covers now
  · obtain ⟨access, barriers⟩ := effect.elsewhere resource mem
    rw [if_neg mem, List.append_nil, access, barriers]
    exact old

theorem HazardInv.useItem {recording recording' : Recording} (inv : HazardInv recording)
    {item : PassItem} (covered : recording.ItemCovered item)
    (used : recording.useItem item = some recording') : HazardInv recording' := by
  obtain ⟨graph, resolved, last⟩ := Option.bind_eq_some_iff.mp used
  cases last
  obtain ⟨nothing, effect⟩ := PassItem.resolve_effect resolved
  unfold ItemCovered at covered
  unfold PassItem.uses
  cases called : item.call with
  | none =>
    rw [nothing called]
    dsimp only
    rw [List.append_nil]
    exact inv
  | some call =>
    rw [called] at covered
    exact inv.call (effect call called) covered

theorem run_useItem {items : List PassItem} {recording : Recording} {graph' : RenderGraph}
    (resolved : items.foldlM PassItem.resolve recording.graph = some graph') :
    Runs.run useItem recording items = some
        { graph := graph'
          uses := recording.uses ++ items.flatMap
            (PassItem.uses recording.graph.shape (passCount recording.graph.commands)) } := by
  induction items generalizing recording with
  | nil =>
    cases resolved
    rw [List.flatMap_nil, List.append_nil]
    rfl
  | cons item items ih =>
    rw [List.foldlM_cons] at resolved
    obtain ⟨middle, first, rest⟩ := Option.bind_eq_some_iff.mp resolved
    have used : recording.useItem item = some
        { graph := middle
          uses := recording.uses ++
            item.uses recording.graph.shape (passCount recording.graph.commands) } :=
      Option.bind_eq_some_iff.mpr ⟨middle, first, rfl⟩
    obtain ⟨nothing, effect⟩ := PassItem.resolve_effect first
    have same : middle.shape = recording.graph.shape ∧
        passCount middle.commands = passCount recording.graph.commands := by
      cases called : item.call with
      | none =>
        rw [nothing called]
        exact ⟨rfl, rfl⟩
      | some call => exact ⟨(effect call called).shape, (effect call called).passes⟩
    rw [Runs.run_cons, used, Option.bind_some]
    refine (ih rest).trans ?_
    dsimp only
    rw [same.1, same.2, List.flatMap_cons, List.append_assoc]

theorem HazardInv.declarePass {recording recording' : Recording} (inv : HazardInv recording)
    {pass : PassDeclaration} (covered : recording.PassCovered pass)
    (declared : recording.declarePass pass = some recording') : HazardInv recording' := by
  obtain ⟨graph, made, last⟩ := Option.bind_eq_some_iff.mp declared
  cases last
  obtain ⟨resolved, ran, rfl⟩ := RenderGraph.makePass_items made
  have used : HazardInv
      { graph := resolved
        uses := recording.uses ++ pass.items.flatMap
          (PassItem.uses recording.graph.shape (passCount recording.graph.commands)) } :=
    Runs.run_invariant (fun _ _ _ inv covered used => inv.useItem covered used) inv covered
      (run_useItem ran)
  refine ⟨fun resource => ?_⟩
  have next := (used.recorders resource).nextPhase
  have commands : passCount (resolved.commands ++ [pass.command]) =
        passCount resolved.commands + 1 ∧
      barriersOn resource 0 (resolved.commands ++ [pass.command]) =
        barriersOn resource 0 resolved.commands := by
    rw [passCount_append, barriersOn_append]
    cases pass with
    | compute name usage => exact ⟨rfl, List.append_nil _⟩
    | render name colorTargets dsTarget usage => exact ⟨rfl, List.append_nil _⟩
  unfold recorder at next ⊢
  dsimp only at next ⊢
  rw [commands.1, commands.2]
  exact next

end Recording

/-! ## Runs -/

/-- The resources before the first pass: images with their numbers of mips, and views with their
images and mips. -/
def RenderGraph.new (mipLevels : Nat → BitVec 32) (views : Nat → Nat × SubresourceRange) :
    RenderGraph where
  images := fun image => { mipLevels := mipLevels image }
  views := fun view => { image := (views view).1, range := (views view).2 }

/-- Declare the passes one after another; `none` if an assertion fails. -/
def Recording.run (mipLevels : Nat → BitVec 32) (views : Nat → Nat × SubresourceRange)
    (passes : List PassDeclaration) : Option Recording :=
  Runs.run Recording.declarePass { graph := RenderGraph.new mipLevels views } passes

/-- Conflicting uses of a resource by different passes have a chain of barriers on it between
them. -/
def Recording.HazardsSynchronised (recording : Recording) : Prop :=
  ∀ earlier ∈ recording.uses, ∀ later ∈ recording.uses, earlier.resource = later.resource →
    earlier.pass < later.pass → earlier.access.use.conflicts later.access.use = true →
      Synchronised (barriersOn earlier.resource 0 recording.graph.commands)
        (earlier.pass, earlier.access.use) (later.pass, later.access.use)

/-- Run lemma: when all passes are covered, no hazard is left. -/
theorem Recording.run_hazards_synchronised {mipLevels : Nat → BitVec 32}
    {views : Nat → Nat × SubresourceRange} {passes : List PassDeclaration} {recording : Recording}
    (reached : run mipLevels views passes = some recording)
    (covered : Runs.StepsMeet declarePass PassCovered
      { graph := RenderGraph.new mipLevels views } passes) :
    recording.HazardsSynchronised := by
  have start : HazardInv { graph := RenderGraph.new mipLevels views } :=
    ⟨fun resource => Recorder.Inv.start _ _⟩
  have inv := Runs.run_invariant (fun _ _ _ inv covered declared =>
    inv.declarePass covered declared) start covered reached
  intro earlier mem later mem' same before conflict
  have entry : ∀ use ∈ recording.uses, use.resource = earlier.resource →
      (use.pass, use.access.use) ∈ (recording.recorder earlier.resource).uses :=
    fun use mem same => List.mem_map.mpr
      ⟨use, List.mem_filter.mpr ⟨mem, decide_eq_true same⟩, rfl⟩
  exact (inv.recorders earlier.resource).synchronised _ (entry earlier mem rfl) _
    (entry later mem' same.symm) before conflict

/-- Every image has one mip and one view. -/
def singleMips : Nat → BitVec 32 := fun _ => 1

def singleViews (view : Nat) : Nat × SubresourceRange :=
  (view, { baseMipLevel := 0, levelCount := 1 })

/-- A compute pass that uses a buffer. -/
def computePass (name : String) (buffer : Nat) (access : Flags64) : PassDeclaration :=
  .compute name [{ buffer := some buffer, stages := Vk.stageComputeShader, access := access }]

/-- A render pass with a color and a depth target that gets its commands from a buffer. -/
def drawPass (name : String) (buffer : Nat) : PassDeclaration :=
  .render name [{ resource := some 0, loadOp := .clear }] { resource := some 1, loadOp := .clear }
    [{ buffer := some buffer, stages := Vk.stageDrawIndirect
       access := Vk.accessIndirectCommandRead }]

/-- Culling writes the commands for the main pass, in two frames' worth of passes. -/
def cullingPasses : List PassDeclaration :=
  [computePass "Frustum culling" 0 Vk.accessShaderStorageWrite, drawPass "Main pass" 0,
    computePass "Frustum culling" 0 Vk.accessShaderStorageWrite, drawPass "Main pass" 0]

theorem cullingPasses_synchronised :
    ∃ recording, Recording.run singleMips singleViews cullingPasses = some recording ∧
      recording.HazardsSynchronised := by
  have reached : (Recording.run singleMips singleViews cullingPasses).isSome = true := by
    decide +kernel
  obtain ⟨recording, same⟩ := Option.isSome_iff_exists.mp reached
  exact ⟨recording, same, Recording.run_hazards_synchronised same (by decide +kernel)⟩

/-- A buffer that one pass writes is read by a compute pass and then by a render pass. -/
def readTwicePasses : List PassDeclaration :=
  [computePass "write" 0 Vk.accessShaderStorageWrite,
    computePass "read" 0 Vk.accessShaderStorageRead, drawPass "draw" 0]

/-- The second read joins the first one, and no barrier orders it behind the write. -/
theorem not_hazardsSynchronised :
    ¬ ∀ mipLevels views passes recording, Recording.run mipLevels views passes = some recording →
      recording.HazardsSynchronised := by
  intro synchronised
  let write : AccessState :=
    { stages := Vk.stageComputeShader, writeAccess := Vk.accessShaderStorageWrite }
  let read : AccessState :=
    { stages := Vk.stageComputeShader, readAccess := Vk.accessShaderStorageRead }
  let draw : AccessState :=
    { stages := Vk.stageDrawIndirect, readAccess := Vk.accessIndirectCommandRead }
  have checked : ((Recording.run singleMips singleViews readTwicePasses).any fun recording =>
      decide (⟨0, .buffer 0, write⟩ ∈ recording.uses ∧ ⟨2, .buffer 0, draw⟩ ∈ recording.uses ∧
        barriersOn (.buffer 0) 0 recording.graph.commands =
          [{ phase := 1, src := write.scope, dst := read.scope }])) = true := by
    decide +kernel
  obtain ⟨recording, reached, facts⟩ := (Option.any_eq_true _ _).mp checked
  obtain ⟨written, drawn, barriers⟩ := of_decide_eq_true facts
  obtain ⟨chain, some, sub, _, covers⟩ :=
    synchronised _ _ _ recording reached _ written _ drawn rfl (by decide) (by decide)
  rw [barriers] at sub
  have only : chain = [{ phase := 1, src := write.scope, dst := read.scope }] :=
    (List.sublist_singleton.mp (sub.trans List.filter_sublist)).resolve_left some
  rw [only] at covers
  exact absurd covers (by decide)

end Voxen.Gfx
