import Mathlib.Data.List.Nodup
import Voxen.Gfx.RenderGraphBuilder
import Voxen.Lib.BarrierChains

/-!
# Effects of hazard resolution

A use of a buffer or of the mips of a view either joins what is kept of their uses, or gets
a barrier for each of them that takes up what was kept.
-/

namespace Voxen.Gfx

open BarrierChains

/-- Stages with accesses. -/
structure Scope where
  stages : Flags64
  access : Flags64
deriving DecidableEq

/-- Flags that are all set in the other ones. -/
instance : Preorder Scope where
  le part whole := part.stages &&& whole.stages = part.stages ∧
    part.access &&& whole.access = part.access
  le_refl scope := ⟨BitVec.and_self, BitVec.and_self⟩
  le_trans one two three first second := by
    have masked : ∀ {a b c : Flags64}, a &&& b = a → b &&& c = b → a &&& c = a := by
      intro a b c ab bc
      rw [← ab, BitVec.and_assoc, bc]
    exact ⟨masked first.1 second.1, masked first.2 second.2⟩

instance : DecidableRel (α := Scope) (· ≤ ·) := fun part whole =>
  inferInstanceAs (Decidable (part.stages &&& whole.stages = part.stages ∧
    part.access &&& whole.access = part.access))

namespace AccessState

def scope (state : AccessState) : Scope where
  stages := state.stages
  access := state.readAccess ||| state.writeAccess

/-- The use of a resource by these accesses. -/
def use (state : AccessState) : Access Scope where
  scope := state.scope
  reads := state.readAccess != 0
  writes := state.writeAccess != 0

theorem and_or_left (a b : Flags64) : a &&& (a ||| b) = a := by
  ext i
  simp only [BitVec.getElem_and, BitVec.getElem_or]
  cases a[i] <;> rfl

theorem join_comm (one two : AccessState) : one.join two = two.join one := by
  unfold join
  rw [BitVec.or_comm one.stages, BitVec.or_comm one.readAccess, BitVec.or_comm one.writeAccess]

theorem scope_le_join (one two : AccessState) : one.scope ≤ (one.join two).scope := by
  refine ⟨and_or_left _ _, ?_⟩
  have swap : (one.readAccess ||| two.readAccess) ||| (one.writeAccess ||| two.writeAccess) =
      (one.readAccess ||| one.writeAccess) ||| (two.readAccess ||| two.writeAccess) := by
    ext i
    simp only [BitVec.getElem_or]
    cases one.readAccess[i] <;> cases one.writeAccess[i] <;> simp
  change (one.readAccess ||| one.writeAccess) &&& _ = _
  unfold join
  dsimp only [scope]
  rw [swap]
  exact and_or_left _ _

end AccessState

/-- What the builder keeps summaries for. -/
inductive Resource where
  | buffer (buffer : Nat)
  | mip (image mip : Nat)
deriving DecidableEq

namespace RenderGraph

/-- The images and mips of the views. -/
def shape (graph : RenderGraph) (view : Nat) : Nat × SubresourceRange :=
  ((graph.views view).image, (graph.views view).range)

/-- What is kept of the uses of a resource. -/
def access (graph : RenderGraph) : Resource → AccessState
  | .buffer buffer => (graph.buffers buffer).access
  | .mip image mip => ((graph.images image).mipStates mip).access

end RenderGraph

/-! ## Recorded barriers -/

/-- The source and the destination of the barriers on a buffer. -/
def bufferScopes (barriers : List BufferBarrier) (buffer : Nat) : List (Scope × Scope) :=
  (barriers.filter fun barrier => barrier.buffer = buffer).map fun barrier =>
    (⟨barrier.srcStages, barrier.srcAccess⟩, ⟨barrier.dstStages, barrier.dstAccess⟩)

/-- The source and the destination of the barriers on a mip of an image. -/
def imageScopes (barriers : List ImageBarrier) (image mip : Nat) : List (Scope × Scope) :=
  (barriers.filter fun barrier =>
      barrier.image = image ∧ mip ∈ barrier.subresource.mips).map fun barrier =>
    (⟨barrier.srcStages, barrier.srcAccess⟩, ⟨barrier.dstStages, barrier.dstAccess⟩)

def BarrierCommand.scopes (cmd : BarrierCommand) : Resource → List (Scope × Scope)
  | .buffer buffer => bufferScopes cmd.buffer buffer
  | .mip image mip => imageScopes cmd.image image mip

/-- Number of the passes among the commands. -/
def passCount : List Command → Nat
  | [] => 0
  | .barrier _ :: commands => passCount commands
  | _ :: commands => passCount commands + 1

/-- The barriers on a resource, with the number of the pass they stand before. -/
def barriersOn (resource : Resource) : Nat → List Command → List (Barrier Scope)
  | _, [] => []
  | phase, .barrier cmd :: commands =>
    (cmd.scopes resource).map (fun scopes => ⟨phase, scopes.1, scopes.2⟩) ++
      barriersOn resource phase commands
  | phase, _ :: commands => barriersOn resource (phase + 1) commands

theorem passCount_append (one two : List Command) :
    passCount (one ++ two) = passCount one + passCount two := by
  induction one with
  | nil => exact (Nat.zero_add _).symm
  | cons command one ih =>
    cases command with
    | barrier cmd => exact ih
    | renderPass name targets dsTarget =>
      exact (congrArg (· + 1) ih).trans (Nat.add_right_comm _ _ _)
    | computePass name => exact (congrArg (· + 1) ih).trans (Nat.add_right_comm _ _ _)

theorem barriersOn_append (resource : Resource) (phase : Nat) (one two : List Command) :
    barriersOn resource phase (one ++ two) =
      barriersOn resource phase one ++ barriersOn resource (phase + passCount one) two := by
  induction one generalizing phase with
  | nil => rfl
  | cons command one ih =>
    cases command with
    | barrier cmd =>
      change _ ++ barriersOn resource phase (one ++ two) = _
      rw [ih]
      exact (List.append_assoc _ _ _).symm
    | renderPass name targets dsTarget =>
      change barriersOn resource (phase + 1) (one ++ two) = _
      rw [ih, Nat.add_right_comm]
      rfl
    | computePass name =>
      change barriersOn resource (phase + 1) (one ++ two) = _
      rw [ih, Nat.add_right_comm]
      rfl

theorem withBarriers_spec {resource : Resource} (commands : List Command)
    {add : BarrierCommand → BarrierCommand} {new : List (Scope × Scope)}
    (adds : ∀ cmd, (add cmd).scopes resource = cmd.scopes resource ++ new) :
    passCount (withBarriers commands add) = passCount commands ∧
      barriersOn resource 0 (withBarriers commands add) = barriersOn resource 0 commands ++
        new.map fun scopes => ⟨passCount commands, scopes.1, scopes.2⟩ := by
  have none : (add {}).scopes resource = new := by
    rw [adds {}]
    cases resource <;> rfl
  have push : passCount (commands ++ [.barrier (add {})]) = passCount commands ∧
      barriersOn resource 0 (commands ++ [.barrier (add {})]) = barriersOn resource 0 commands ++
        new.map fun scopes => ⟨passCount commands, scopes.1, scopes.2⟩ := by
    rw [passCount_append, barriersOn_append, Nat.zero_add]
    refine ⟨rfl, ?_⟩
    unfold barriersOn
    rw [none]
    exact congrArg _ (List.append_nil _)
  unfold withBarriers
  split
  · rename_i cmd last
    obtain ⟨before, rfl⟩ : ∃ before, commands = before ++ [.barrier cmd] :=
      List.getLast?_eq_some_iff.mp last
    rw [List.dropLast_concat]
    simp only [passCount_append, barriersOn_append, Nat.zero_add]
    refine ⟨rfl, ?_⟩
    unfold barriersOn
    rw [adds cmd, List.map_append]
    simp only [barriersOn, List.append_nil, List.append_assoc]
    rfl
  · exact push

/-! ## Calls -/

/-- A call of `resolveBufferHazards` or `resolveImageHazards`. -/
inductive HazardCall where
  | buffer (number : Nat) (new : AccessState)
  | view (number : Nat) (new : AccessState) (newLayout : ImageLayout) (discard : Bool)

namespace HazardCall

def run (graph : RenderGraph) : HazardCall → Option RenderGraph
  | .buffer number new => some (graph.resolveBufferHazards number new)
  | .view number new newLayout discard => graph.resolveImageHazards number new newLayout discard

/-- The stages and accesses of the use. -/
def access : HazardCall → AccessState
  | .buffer _ new => new
  | .view _ new _ _ => new

/-- The call sees no hazard. -/
def quiet (graph : RenderGraph) : HazardCall → Bool
  | .buffer number new => RenderGraph.noBufferHazard (graph.buffers number).access new
  | .view number new newLayout discard =>
    RenderGraph.noImageHazard (graph.oldMips number discard) new newLayout

/-- What the call is about. -/
def resources (shape : Nat → Nat × SubresourceRange) : HazardCall → List Resource
  | .buffer number _ => [.buffer number]
  | .view number _ _ _ => (shape number).2.mips.map (Resource.mip (shape number).1)

end HazardCall

/-- What a call does to the summaries and the barriers. -/
structure CallEffect (graph graph' : RenderGraph) (call : HazardCall) : Prop where
  shape : graph'.shape = graph.shape
  passes : passCount graph'.commands = passCount graph.commands
  elsewhere : ∀ resource, resource ∉ call.resources graph.shape →
    graph'.access resource = graph.access resource ∧
      barriersOn resource 0 graph'.commands = barriersOn resource 0 graph.commands
  quiet : call.quiet graph = true → ∀ resource ∈ call.resources graph.shape,
    graph'.access resource = (graph.access resource).join call.access ∧
      barriersOn resource 0 graph'.commands = barriersOn resource 0 graph.commands
  hazard : call.quiet graph = false → ∀ resource ∈ call.resources graph.shape,
    graph'.access resource = call.access ∧ ∃ src, (graph.access resource).scope ≤ src ∧
      barriersOn resource 0 graph'.commands = barriersOn resource 0 graph.commands ++
        [{ phase := passCount graph.commands, src := src, dst := call.access.scope }]

/-! ## Buffers -/

theorem access_update_buffer (graph : RenderGraph) (number : Nat) (priv : GraphBuffer)
    (commands : List Command) (resource : Resource) :
    RenderGraph.access { graph with
        buffers := Function.update graph.buffers number priv, commands := commands } resource =
      if resource = .buffer number then priv.access else graph.access resource := by
  cases resource with
  | mip image mip => rfl
  | buffer other =>
    unfold RenderGraph.access
    dsimp only
    by_cases same : other = number
    · rw [same, Function.update_self, if_pos rfl]
    · rw [Function.update_of_ne same, if_neg fun absurd => same (Resource.buffer.inj absurd)]

theorem mem_resources_buffer {shape : Nat → Nat × SubresourceRange} {number : Nat}
    {new : AccessState} {resource : Resource} :
    resource ∈ (HazardCall.buffer number new).resources shape ↔ resource = .buffer number :=
  List.mem_singleton

theorem scopes_addBuffer (cmd : BarrierCommand) (barrier : BufferBarrier) (resource : Resource) :
    BarrierCommand.scopes { cmd with buffer := cmd.buffer ++ [barrier] } resource =
      cmd.scopes resource ++
        if resource = .buffer barrier.buffer then
          [(⟨barrier.srcStages, barrier.srcAccess⟩, ⟨barrier.dstStages, barrier.dstAccess⟩)]
        else [] := by
  cases resource with
  | mip image mip => exact (List.append_nil _).symm
  | buffer other =>
    change bufferScopes (cmd.buffer ++ [barrier]) other = bufferScopes cmd.buffer other ++ _
    unfold bufferScopes
    rw [List.filter_append, List.map_append]
    by_cases same : other = barrier.buffer
    · rw [same, if_pos rfl, List.filter_cons_of_pos (by simp)]
      rfl
    · rw [if_neg fun absurd => same (Resource.buffer.inj absurd),
        List.filter_cons_of_neg (by simpa using Ne.symm same)]
      rfl

theorem resolveBufferHazards_effect (graph : RenderGraph) (number : Nat) (new : AccessState) :
    CallEffect graph (graph.resolveBufferHazards number new) (.buffer number new) := by
  unfold RenderGraph.resolveBufferHazards
  dsimp only
  split
  · rename_i none
    exact
      { shape := rfl
        passes := rfl
        elsewhere := by
          intro resource notIn
          rw [access_update_buffer, if_neg (mt mem_resources_buffer.mpr notIn)]
          exact ⟨rfl, rfl⟩
        quiet := by
          intro _ resource mem
          obtain rfl := mem_resources_buffer.mp mem
          rw [access_update_buffer, if_pos rfl]
          exact ⟨rfl, rfl⟩
        hazard := fun absurd => (Bool.eq_false_iff.mp absurd none).elim }
  · rename_i hazard
    have recorded := fun resource =>
      withBarriers_spec graph.commands fun cmd => scopes_addBuffer cmd
        { buffer := number
          srcStages := (graph.buffers number).access.stages
          srcAccess := (graph.buffers number).access.readAccess |||
            (graph.buffers number).access.writeAccess
          dstStages := new.stages
          dstAccess := new.readAccess ||| new.writeAccess } resource
    exact
      { shape := rfl
        passes := (recorded (.buffer number)).1
        elsewhere := by
          intro resource notIn
          have other := mt mem_resources_buffer.mpr notIn
          obtain ⟨_, same⟩ := recorded resource
          rw [if_neg other, List.map_nil, List.append_nil] at same
          rw [access_update_buffer, if_neg other]
          exact ⟨rfl, same⟩
        quiet := fun absurd => (hazard absurd).elim
        hazard := by
          intro _ resource mem
          obtain rfl := mem_resources_buffer.mp mem
          obtain ⟨_, more⟩ := recorded (.buffer number)
          rw [if_pos rfl] at more
          rw [access_update_buffer, if_pos rfl]
          exact ⟨rfl, (graph.buffers number).access.scope, le_rfl, more⟩ }

/-! ## Image views -/

theorem mips_single {range : SubresourceRange} {mip : Nat} (mem : mip ∈ range.mips) :
    ({ baseMipLevel := BitVec.ofNat 32 mip, levelCount := 1 } : SubresourceRange).mips = [mip] := by
  have inside : mip < range.mipEnd.toNat := by
    unfold SubresourceRange.mips at mem
    have bounds := List.mem_range'_1.mp mem
    omega
  have small : mip + 1 < 2 ^ 32 := Nat.lt_of_le_of_lt inside range.mipEnd.isLt
  have first : (BitVec.ofNat 32 mip).toNat = mip := Nat.mod_eq_of_lt (by omega)
  have last : (BitVec.ofNat 32 mip + 1).toNat = mip + 1 := by
    rw [BitVec.toNat_add, first]
    exact Nat.mod_eq_of_lt small
  unfold SubresourceRange.mips SubresourceRange.mipEnd
  dsimp only
  rw [first, last, Nat.add_sub_cancel_left]
  rfl

theorem mips_nodup (range : SubresourceRange) : range.mips.Nodup :=
  List.nodup_range'

theorem filter_single {items : List Nat} (nodup : items.Nodup) {item : Nat} (mem : item ∈ items)
    {test : Nat → Bool} (only : ∀ other ∈ items, test other = decide (item = other)) :
    items.filter test = [item] := by
  have equal : ∀ other ∈ items, test other = (other == item) := fun other there =>
    (only other there).trans (decide_eq_decide.mpr eq_comm)
  rw [List.filter_congr equal, List.filter_beq, List.count_eq_one_of_mem nodup mem]
  rfl

theorem collect_scope (mipBegin : Nat) (states : Nat → MipState) (mips : List Nat)
    (old : RenderGraph.OldMips) :
    old.access.scope ≤
        (mips.foldl (RenderGraph.OldMips.collect mipBegin states) old).access.scope ∧
      ∀ mip ∈ mips, (states mip).access.scope ≤
        (mips.foldl (RenderGraph.OldMips.collect mipBegin states) old).access.scope := by
  induction mips generalizing old with
  | nil => exact ⟨le_rfl, fun _ absurd => (List.not_mem_nil absurd).elim⟩
  | cons first mips ih =>
    rw [List.foldl_cons]
    obtain ⟨kept, collected⟩ := ih (RenderGraph.OldMips.collect mipBegin states old first)
    have here : (states first).access.scope ≤ (old.access.join (states first).access).scope := by
      rw [AccessState.join_comm]
      exact AccessState.scope_le_join _ _
    exact ⟨(AccessState.scope_le_join _ _).trans kept,
      List.forall_mem_cons.mpr ⟨here.trans kept, collected⟩⟩

theorem oldMips_scope (graph : RenderGraph) (view : Nat) (discard : Bool) :
    ∀ mip ∈ (graph.views view).range.mips,
      (graph.access (.mip (graph.views view).image mip)).scope ≤
        (graph.oldMips view discard).access.scope := by
  intro mip mem
  have collected := (collect_scope (graph.views view).range.baseMipLevel.toNat
    (graph.images (graph.views view).image).mipStates (graph.views view).range.mips {}).2 mip mem
  unfold RenderGraph.oldMips
  dsimp only
  split <;> exact collected

theorem access_setMips (graph : RenderGraph) (image : Nat) (mips : List Nat)
    (set : MipState → MipState) (commands : List Command) (resource : Resource) :
    RenderGraph.access { graph.setMips image mips set with commands := commands } resource =
      if resource ∈ mips.map (Resource.mip image) then
        match resource with
        | .buffer number => (graph.buffers number).access
        | .mip image mip => (set ((graph.images image).mipStates mip)).access
      else graph.access resource := by
  cases resource with
  | buffer number =>
    split <;> rfl
  | mip other mip =>
    unfold RenderGraph.access RenderGraph.setMips
    dsimp only
    by_cases same : other = image
    · rw [same, Function.update_self]
      by_cases mem : mip ∈ mips
      · rw [if_pos (List.mem_map_of_mem mem)]
        dsimp only
        rw [if_pos mem]
      · have notIn : Resource.mip image mip ∉ mips.map (Resource.mip image) := by
          intro found
          obtain ⟨_, there, same⟩ := List.mem_map.mp found
          exact mem ((Resource.mip.inj same).2 ▸ there)
        rw [if_neg notIn]
        dsimp only
        rw [if_neg mem]
    · have notIn : Resource.mip other mip ∉ mips.map (Resource.mip image) := by
        intro found
        obtain ⟨_, _, absurd⟩ := List.mem_map.mp found
        exact same (Resource.mip.inj absurd).1.symm
      rw [Function.update_of_ne same, if_neg notIn]

theorem scopes_addImage (cmd : BarrierCommand) (barriers : List ImageBarrier)
    (resource : Resource) :
    BarrierCommand.scopes { cmd with image := cmd.image ++ barriers } resource =
      cmd.scopes resource ++
        match resource with
        | .buffer _ => []
        | .mip image mip => imageScopes barriers image mip := by
  cases resource with
  | buffer number => exact (List.append_nil _).symm
  | mip image mip =>
    change imageScopes (cmd.image ++ barriers) image mip = imageScopes cmd.image image mip ++ _
    unfold imageScopes
    rw [List.filter_append, List.map_append]

section Barriers

variable {graph : RenderGraph} {view : Nat} {old : RenderGraph.OldMips} {new : AccessState}
  {newLayout : ImageLayout}

theorem imageBarriers_elsewhere {image mip : Nat}
    (elsewhere : ¬ (image = (graph.views view).image ∧ mip ∈ (graph.views view).range.mips)) :
    imageScopes (graph.imageBarriers view old new newLayout) image mip = [] := by
  unfold imageScopes
  rw [List.map_eq_nil_iff, List.filter_eq_nil_iff]
  unfold RenderGraph.imageBarriers
  dsimp only
  intro barrier mem found
  obtain ⟨same, inside⟩ := of_decide_eq_true found
  split at mem
  · obtain rfl := List.mem_singleton.mp mem
    exact elsewhere ⟨same.symm, inside⟩
  · obtain ⟨other, there, rfl⟩ := List.mem_map.mp mem
    rw [mips_single there, List.mem_singleton] at inside
    exact elsewhere ⟨same.symm, inside ▸ there⟩

/-- One barrier is about each mip of the view, and takes up what was kept of its uses. -/
theorem imageBarriers_mip {mip : Nat} (mem : mip ∈ (graph.views view).range.mips)
    (covers : (graph.access (.mip (graph.views view).image mip)).scope ≤ old.access.scope) :
    ∃ src, (graph.access (.mip (graph.views view).image mip)).scope ≤ src ∧
      imageScopes (graph.imageBarriers view old new newLayout) (graph.views view).image mip =
        [(src, new.scope)] := by
  unfold imageScopes RenderGraph.imageBarriers
  dsimp only
  split
  · refine ⟨old.access.scope, covers, ?_⟩
    rw [List.filter_cons_of_pos (by simpa using mem)]
    rfl
  · refine ⟨_, le_rfl, ?_⟩
    rw [List.filter_map, List.map_map]
    rw [filter_single (mips_nodup (graph.views view).range) mem]
    · rfl
    · intro other there
      dsimp only [Function.comp]
      rw [mips_single there]
      simp

end Barriers

theorem resolveImageHazards_effect {graph graph' : RenderGraph} {view : Nat} {new : AccessState}
    {newLayout : ImageLayout} {discard : Bool}
    (resolved : graph.resolveImageHazards view new newLayout discard = some graph') :
    CallEffect graph graph' (.view view new newLayout discard) := by
  unfold RenderGraph.resolveImageHazards at resolved
  dsimp only at resolved
  split at resolved
  · cases resolved
  split at resolved
  · rename_i none
    cases resolved
    have kept := access_setMips graph (graph.views view).image (graph.views view).range.mips
      (fun state => { state with access := state.access.join new }) graph.commands
    exact
      { shape := rfl
        passes := rfl
        elsewhere := fun resource notIn => ⟨(kept resource).trans (if_neg notIn), rfl⟩
        quiet := by
          intro _ resource mem
          refine ⟨(kept resource).trans ((if_pos mem).trans ?_), rfl⟩
          obtain ⟨mip, _, rfl⟩ := List.mem_map.mp mem
          rfl
        hazard := fun absurd => (Bool.eq_false_iff.mp absurd none).elim }
  · rename_i hazard
    cases resolved
    have kept := access_setMips graph (graph.views view).image (graph.views view).range.mips
      (fun _ => { layout := newLayout, access := new })
    have recorded := fun resource =>
      withBarriers_spec graph.commands fun cmd => scopes_addImage cmd
        (graph.imageBarriers view (graph.oldMips view discard) new newLayout) resource
    exact
      { shape := rfl
        passes := (recorded (.buffer 0)).1
        elsewhere := by
          intro resource notIn
          refine ⟨(kept _ resource).trans (if_neg notIn), (recorded resource).2.trans ?_⟩
          cases resource with
          | buffer number => exact List.append_nil _
          | mip image mip =>
            have apart : ¬ (image = (graph.views view).image ∧
                mip ∈ (graph.views view).range.mips) := by
              rintro ⟨rfl, mem⟩
              exact notIn (List.mem_map_of_mem mem)
            dsimp only
            rw [imageBarriers_elsewhere apart]
            exact List.append_nil _
        quiet := fun absurd => (hazard absurd).elim
        hazard := by
          intro _ resource mem
          refine ⟨(kept _ resource).trans ((if_pos mem).trans ?_), ?_⟩
          · obtain ⟨mip, _, rfl⟩ := List.mem_map.mp mem
            rfl
          · obtain ⟨mip, there, rfl⟩ := List.mem_map.mp mem
            obtain ⟨src, covers, one⟩ := imageBarriers_mip there
              (oldMips_scope graph view discard mip there)
            refine ⟨src, covers, (recorded _).2.trans ?_⟩
            dsimp only [RenderGraph.shape]
            rw [one]
            rfl }

theorem HazardCall.run_effect {graph graph' : RenderGraph} {call : HazardCall}
    (ran : call.run graph = some graph') : CallEffect graph graph' call := by
  cases call with
  | buffer number new =>
    cases ran
    exact resolveBufferHazards_effect graph number new
  | view number new newLayout discard => exact resolveImageHazards_effect ran

end Voxen.Gfx
