import Mathlib.Logic.Function.Basic

/-!
# Render graph builder

The builder takes the passes of a frame one after another with the buffers and image views
they use, and records commands for them.  Before a pass it records barriers for the uses
that depend on earlier ones; of those it keeps a summary for each buffer and image mip.
-/

namespace Voxen.Gfx

/-- `VkPipelineStageFlags2` and `VkAccessFlags2`. -/
abbrev Flags64 := BitVec 64

/-- `VkBufferUsageFlags` and `VkImageUsageFlags`. -/
abbrev UsageFlags := BitVec 32

/-- `VkImageLayout`. -/
abbrev ImageLayout := BitVec 32

namespace Vk

def imageLayoutUndefined : ImageLayout := 0
def imageLayoutAttachmentOptimal : ImageLayout := 1000314001

def stageEarlyFragmentTests : Flags64 := 0x100
def stageLateFragmentTests : Flags64 := 0x200
def stageColorAttachmentOutput : Flags64 := 0x400
def stageComputeShader : Flags64 := 0x800
def stageDrawIndirect : Flags64 := 0x2

def accessIndirectCommandRead : Flags64 := 0x1
def accessUniformRead : Flags64 := 0x8
def accessColorAttachmentRead : Flags64 := 0x80
def accessColorAttachmentWrite : Flags64 := 0x100
def accessDepthStencilAttachmentRead : Flags64 := 0x200
def accessDepthStencilAttachmentWrite : Flags64 := 0x400
def accessTransferRead : Flags64 := 0x800
def accessTransferWrite : Flags64 := 0x1000
def accessShaderSampledRead : Flags64 := 0x100000000
def accessShaderStorageRead : Flags64 := 0x200000000
def accessShaderStorageWrite : Flags64 := 0x400000000

def bufferUsageTransferSrc : UsageFlags := 0x1
def bufferUsageTransferDst : UsageFlags := 0x2
def bufferUsageUniformTexelBuffer : UsageFlags := 0x4
def bufferUsageUniformBuffer : UsageFlags := 0x10
def bufferUsageStorageBuffer : UsageFlags := 0x20
def bufferUsageIndirectBuffer : UsageFlags := 0x100

def imageUsageTransferSrc : UsageFlags := 0x1
def imageUsageTransferDst : UsageFlags := 0x2
def imageUsageSampled : UsageFlags := 0x4
def imageUsageStorage : UsageFlags := 0x8
def imageUsageColorAttachment : UsageFlags := 0x10
def imageUsageDepthStencilAttachment : UsageFlags := 0x20

/-- `VkAttachmentLoadOp`. -/
inductive AttachmentLoadOp where
  | load
  | clear
  | dontCare
  | none
deriving DecidableEq

end Vk

/-- `GRAPH_MAX_RENDER_TARGETS`. -/
def graphMaxRenderTargets : Nat := 8

/-! ## Access flags -/

/-- `KNOWN_READ_FLAGS`. -/
def knownReadFlags : Flags64 :=
  Vk.accessIndirectCommandRead ||| Vk.accessUniformRead ||| Vk.accessColorAttachmentRead |||
    Vk.accessDepthStencilAttachmentRead ||| Vk.accessTransferRead |||
    Vk.accessShaderSampledRead ||| Vk.accessShaderStorageRead

/-- `KNOWN_WRITE_FLAGS`. -/
def knownWriteFlags : Flags64 :=
  Vk.accessColorAttachmentWrite ||| Vk.accessDepthStencilAttachmentWrite |||
    Vk.accessTransferWrite ||| Vk.accessShaderStorageWrite

/-- `splitReadWriteFlags(flags, read_flags, write_flags)`; no result if the assertion fails. -/
def splitReadWriteFlags (flags : Flags64) : Option (Flags64 × Flags64) :=
  if flags &&& (knownReadFlags ||| knownWriteFlags) = flags then
    some (flags &&& knownReadFlags, flags &&& knownWriteFlags)
  else none

/-- The loop over a mapping of access flags to usage flags; all flags have to be known. -/
def accessToUsage (mapping : List (Flags64 × UsageFlags)) (flags : Flags64) : Option UsageFlags :=
  let (flags, usage) := mapping.foldl
    (fun (flags, usage) entry =>
      if flags &&& entry.1 ≠ 0 then (flags &&& ~~~entry.1, usage ||| entry.2) else (flags, usage))
    (flags, 0)
  if flags = 0 then some usage else none

def bufferAccessToUsage (flags : Flags64) : Option UsageFlags :=
  accessToUsage
    [(Vk.accessIndirectCommandRead, Vk.bufferUsageIndirectBuffer),
      (Vk.accessUniformRead, Vk.bufferUsageUniformBuffer),
      (Vk.accessTransferRead, Vk.bufferUsageTransferSrc),
      (Vk.accessTransferWrite, Vk.bufferUsageTransferDst),
      (Vk.accessShaderSampledRead, Vk.bufferUsageUniformTexelBuffer),
      (Vk.accessShaderStorageRead ||| Vk.accessShaderStorageWrite, Vk.bufferUsageStorageBuffer)]
    flags

def imageAccessToUsage (flags : Flags64) : Option UsageFlags :=
  accessToUsage
    [(Vk.accessColorAttachmentRead ||| Vk.accessColorAttachmentWrite,
        Vk.imageUsageColorAttachment),
      (Vk.accessDepthStencilAttachmentRead ||| Vk.accessDepthStencilAttachmentWrite,
        Vk.imageUsageDepthStencilAttachment),
      (Vk.accessTransferRead, Vk.imageUsageTransferSrc),
      (Vk.accessTransferWrite, Vk.imageUsageTransferDst),
      (Vk.accessShaderSampledRead, Vk.imageUsageSampled),
      (Vk.accessShaderStorageRead ||| Vk.accessShaderStorageWrite, Vk.imageUsageStorage)]
    flags

/-! ## Resources and commands -/

/-- The members `stages`, `read_access` and `write_access`. -/
structure AccessState where
  stages : Flags64 := 0
  readAccess : Flags64 := 0
  writeAccess : Flags64 := 0
deriving DecidableEq

/-- The accesses of both. -/
def AccessState.join (one two : AccessState) : AccessState where
  stages := one.stages ||| two.stages
  readAccess := one.readAccess ||| two.readAccess
  writeAccess := one.writeAccess ||| two.writeAccess

/-- `RenderGraphBuffer::Private`. -/
structure GraphBuffer where
  access : AccessState := {}
  usage : UsageFlags := 0

/-- `RenderGraphImage::Private::MipState`. -/
structure MipState where
  layout : ImageLayout := Vk.imageLayoutUndefined
  access : AccessState := {}

/-- `RenderGraphImage::Private`. -/
structure GraphImage where
  mipLevels : BitVec 32
  mipStates : Nat → MipState := fun _ => {}
  usage : UsageFlags := 0

/-- `VkImageSubresourceRange`, as far as it tells mips apart. -/
structure SubresourceRange where
  baseMipLevel : BitVec 32
  levelCount : BitVec 32
deriving DecidableEq

/-- The end of the loop over the mips, which wraps. -/
def SubresourceRange.mipEnd (range : SubresourceRange) : BitVec 32 :=
  range.baseMipLevel + range.levelCount

/-- The mips that the loop comes to. -/
def SubresourceRange.mips (range : SubresourceRange) : List Nat :=
  List.range' range.baseMipLevel.toNat (range.mipEnd.toNat - range.baseMipLevel.toNat)

/-- `RenderGraphImageView::Private`. -/
structure GraphImageView where
  image : Nat
  range : SubresourceRange
  usage : UsageFlags := 0

structure BufferBarrier where
  buffer : Nat
  srcStages : Flags64
  srcAccess : Flags64
  dstStages : Flags64
  dstAccess : Flags64
deriving DecidableEq

structure ImageBarrier where
  image : Nat
  srcStages : Flags64
  srcAccess : Flags64
  dstStages : Flags64
  dstAccess : Flags64
  oldLayout : ImageLayout
  newLayout : ImageLayout
  subresource : SubresourceRange
deriving DecidableEq

structure BarrierCommand where
  buffer : List BufferBarrier := []
  image : List ImageBarrier := []
deriving DecidableEq

/-- `RenderTarget` and `DepthStencilTarget`. -/
structure RenderTarget where
  resource : Option Nat
  loadOp : Vk.AttachmentLoadOp := .dontCare
  readOnly : Bool := false
deriving DecidableEq

/-- `RenderGraphPrivate::Command`. -/
inductive Command where
  | barrier (cmd : BarrierCommand)
  | renderPass (name : String) (targets : List RenderTarget) (dsTarget : RenderTarget)
  | computePass (name : String)

/-- `RenderGraphPrivate`; the pointers to buffers, images and views are numbers. -/
structure RenderGraph where
  buffers : Nat → GraphBuffer := fun _ => {}
  images : Nat → GraphImage
  views : Nat → GraphImageView
  commands : List Command := []

/-- `ResourceUsage`. -/
structure ResourceUsage where
  buffer : Option Nat := none
  imageView : Option Nat := none
  stages : Flags64
  access : Flags64
  layout : ImageLayout := Vk.imageLayoutUndefined
  discard : Bool := false

/-- The barrier command at the end of the commands gets more barriers; it is made if there is
none. -/
def withBarriers (commands : List Command) (add : BarrierCommand → BarrierCommand) :
    List Command :=
  match commands.getLast? with
  | some (.barrier cmd) => commands.dropLast ++ [.barrier (add cmd)]
  | _ => commands ++ [.barrier (add {})]

namespace RenderGraph

/-! ## Hazards -/

/-- `resolveBufferHazards`: not accessed before, or read after read. -/
def noBufferHazard (old new : AccessState) : Bool :=
  old.writeAccess == 0 && (old.readAccess == 0 || new.writeAccess == 0)

/-- `resolveBufferHazards(buffer, new_stages, new_read, new_write)`. -/
def resolveBufferHazards (graph : RenderGraph) (buffer : Nat) (new : AccessState) :
    RenderGraph :=
  let priv := graph.buffers buffer
  if noBufferHazard priv.access new then
    { graph with
      buffers := Function.update graph.buffers buffer
        { priv with access := priv.access.join new } }
  else
    { graph with
      buffers := Function.update graph.buffers buffer { priv with access := new }
      commands := withBarriers graph.commands fun cmd =>
        { cmd with
          buffer := cmd.buffer ++
            [{ buffer := buffer
               srcStages := priv.access.stages
               srcAccess := priv.access.readAccess ||| priv.access.writeAccess
               dstStages := new.stages
               dstAccess := new.readAccess ||| new.writeAccess }] } }

/-- What the loop over the mips of a view collects. -/
structure OldMips where
  access : AccessState := {}
  layout : ImageLayout := Vk.imageLayoutUndefined
  differentLayouts : Bool := false

/-- The body of the loop. -/
def OldMips.collect (mipBegin : Nat) (states : Nat → MipState) (old : OldMips) (mip : Nat) :
    OldMips where
  access := old.access.join (states mip).access
  layout := if mip = mipBegin then (states mip).layout else old.layout
  differentLayouts :=
    if mip = mipBegin then old.differentLayouts
    else old.differentLayouts || (states mip).layout != old.layout

/-- What is known of the mips of a view before it is used. -/
def oldMips (graph : RenderGraph) (view : Nat) (discard : Bool) : OldMips :=
  let range := (graph.views view).range
  let old := range.mips.foldl
    (OldMips.collect range.baseMipLevel.toNat (graph.images (graph.views view).image).mipStates) {}
  if discard then { old with layout := Vk.imageLayoutUndefined, differentLayouts := false }
  else old

/-- `resolveImageHazards`: not accessed before or read after read, in the same layout. -/
def noImageHazard (old : OldMips) (new : AccessState) (newLayout : ImageLayout) : Bool :=
  !old.differentLayouts && old.access.writeAccess == 0 &&
    (old.access.readAccess == 0 || new.writeAccess == 0) && old.layout == newLayout

/-- A loop over mips that sets their states. -/
def setMips (graph : RenderGraph) (image : Nat) (mips : List Nat)
    (set : MipState → MipState) : RenderGraph :=
  let priv := graph.images image
  { graph with
    images := Function.update graph.images image
      { priv with
        mipStates := fun mip =>
          if mip ∈ mips then set (priv.mipStates mip) else priv.mipStates mip } }

/-- The barriers of a view: one for all its mips, or one for each if their layouts differ. -/
def imageBarriers (graph : RenderGraph) (view : Nat) (old : OldMips) (new : AccessState)
    (newLayout : ImageLayout) : List ImageBarrier :=
  let image := (graph.views view).image
  let range := (graph.views view).range
  if !old.differentLayouts then
    [{ image := image
       srcStages := old.access.stages
       srcAccess := old.access.readAccess ||| old.access.writeAccess
       dstStages := new.stages
       dstAccess := new.readAccess ||| new.writeAccess
       oldLayout := old.layout
       newLayout := newLayout
       subresource := range }]
  else
    range.mips.map fun mip =>
      let state := (graph.images image).mipStates mip
      { image := image
        srcStages := state.access.stages
        srcAccess := state.access.readAccess ||| state.access.writeAccess
        dstStages := new.stages
        dstAccess := new.readAccess ||| new.writeAccess
        oldLayout := state.layout
        newLayout := newLayout
        subresource := { baseMipLevel := BitVec.ofNat 32 mip, levelCount := 1 } }

/-- `resolveImageHazards(view, new_stages, new_read, new_write, new_layout, discard)`; no result if
the assertion fails. -/
def resolveImageHazards (graph : RenderGraph) (view : Nat) (new : AccessState)
    (newLayout : ImageLayout) (discard : Bool) : Option RenderGraph :=
  let image := (graph.views view).image
  let range := (graph.views view).range
  let old := graph.oldMips view discard
  if (graph.images image).mipLevels < range.mipEnd then none
  else if noImageHazard old new newLayout then
    some (graph.setMips image range.mips fun state =>
      { state with access := state.access.join new })
  else
    let barriers := graph.imageBarriers view old new newLayout
    let graph := graph.setMips image range.mips fun _ => { layout := newLayout, access := new }
    some { graph with
      commands := withBarriers graph.commands fun cmd =>
        { cmd with image := cmd.image ++ barriers } }

/-! ## Passes -/

/-- `buffer.create_info.usage |= usage`. -/
def addBufferUsage (graph : RenderGraph) (buffer : Nat) (usage : UsageFlags) : RenderGraph :=
  let priv := graph.buffers buffer
  { graph with
    buffers := Function.update graph.buffers buffer { priv with usage := priv.usage ||| usage } }

/-- The usage of a view and of its image. -/
def addViewUsage (graph : RenderGraph) (view : Nat) (usage : UsageFlags) : RenderGraph :=
  let priv := graph.views view
  let image := graph.images priv.image
  { graph with
    views := Function.update graph.views view { priv with usage := priv.usage ||| usage }
    images := Function.update graph.images priv.image
      { image with usage := image.usage ||| usage } }

/-- The body of the loop of `resolveResourceUsage`. -/
def resolveUsage (graph : RenderGraph) (item : ResourceUsage) : Option RenderGraph :=
  match item.buffer, item.imageView with
  | some buffer, none => do
      let (readFlags, writeFlags) ← splitReadWriteFlags item.access
      let usage ← bufferAccessToUsage item.access
      some ((graph.addBufferUsage buffer usage).resolveBufferHazards buffer
        { stages := item.stages, readAccess := readFlags, writeAccess := writeFlags })
  | none, some view => do
      let (readFlags, writeFlags) ← splitReadWriteFlags item.access
      let usage ← imageAccessToUsage item.access
      (graph.addViewUsage view usage).resolveImageHazards view
        { stages := item.stages, readAccess := readFlags, writeAccess := writeFlags }
        item.layout item.discard
  | _, _ => none

/-- `resolveResourceUsage(usage)`. -/
def resolveResourceUsage (graph : RenderGraph) (usage : List ResourceUsage) :
    Option RenderGraph :=
  usage.foldlM resolveUsage graph

/-- A target of a render pass, with the stages and accesses of its kind. -/
def resolveTarget (usage : UsageFlags) (stages read write : Flags64) (graph : RenderGraph)
    (target : RenderTarget) : Option RenderGraph :=
  match target.resource with
  | none => some graph
  | some view =>
    if (graph.views view).range.levelCount ≠ 1 then none
    else
      let discard := target.loadOp = .clear || target.loadOp = .dontCare
      (graph.addViewUsage view usage).resolveImageHazards view
        { stages := stages
          readAccess := read
          writeAccess := if target.readOnly then 0 else write }
        Vk.imageLayoutAttachmentOptimal discard

/-- The depth and stencil target of `makeRenderPass`. -/
def resolveDepthStencilTarget : RenderGraph → RenderTarget → Option RenderGraph :=
  resolveTarget Vk.imageUsageDepthStencilAttachment
    (Vk.stageEarlyFragmentTests ||| Vk.stageLateFragmentTests)
    Vk.accessDepthStencilAttachmentRead Vk.accessDepthStencilAttachmentWrite

/-- A color target of `makeRenderPass`. -/
def resolveColorTarget : RenderGraph → RenderTarget → Option RenderGraph :=
  resolveTarget Vk.imageUsageColorAttachment Vk.stageColorAttachmentOutput
    Vk.accessColorAttachmentRead Vk.accessColorAttachmentWrite

/-- `makeComputePass(name, callback, usage)`. -/
def makeComputePass (graph : RenderGraph) (name : String) (usage : List ResourceUsage) :
    Option RenderGraph := do
  let graph ← graph.resolveResourceUsage usage
  some { graph with commands := graph.commands ++ [.computePass name] }

/-- `makeRenderPass(name, callback, color_targets, ds_target, usage)`. -/
def makeRenderPass (graph : RenderGraph) (name : String) (colorTargets : List RenderTarget)
    (dsTarget : RenderTarget) (usage : List ResourceUsage) : Option RenderGraph := do
  let graph ← graph.resolveResourceUsage usage
  let graph ← graph.resolveDepthStencilTarget dsTarget
  if colorTargets.length ≤ graphMaxRenderTargets then
    let graph ← colorTargets.foldlM resolveColorTarget graph
    some { graph with commands := graph.commands ++ [.renderPass name colorTargets dsTarget] }
  else none

end RenderGraph

/-- A pass that is declared. -/
inductive PassDeclaration where
  | compute (name : String) (usage : List ResourceUsage)
  | render (name : String) (colorTargets : List RenderTarget) (dsTarget : RenderTarget)
      (usage : List ResourceUsage)

/-- The passes are declared one after another. -/
def RenderGraph.makePass (graph : RenderGraph) : PassDeclaration → Option RenderGraph
  | .compute name usage => graph.makeComputePass name usage
  | .render name colorTargets dsTarget usage =>
    graph.makeRenderPass name colorTargets dsTarget usage

end Voxen.Gfx
