import Voxen.Lib.PairExchange
import Voxen.Lib.Runs

/-!
# Resources of a render graph

The builder makes records for the images and views of a graph.  Images can come in pairs that are
exchanged before each execution of the graph; then all handles are published to the objects that
the user has for the records.
-/

namespace Voxen.Gfx

open Function (update)
open PairExchange (Cell)

/-- `RenderGraphBuffer::Private`, as far as its handle goes. -/
structure BufferRecord where
  /-- What the public object shows, if there is one. -/
  resource : Option Nat := none
  dynamicSized : Bool
  usedSize : Nat := 0
  handle : Nat := 0

/-- The records of a graph.  Records are named by their addresses, handles by numbers; `0` is
`VK_NULL_HANDLE`.  An image or view record is a cell: what it shows is the handle in the public
object, its sibling is the temporal one, and its value is the handle. -/
structure GraphResources where
  buffers : List BufferRecord := []
  /-- The deque `images`. -/
  imageOrder : List Nat := []
  images : Nat → Cell Nat := fun _ => { value := 0 }
  /-- The deques `views` of the images. -/
  imageViews : Nat → List Nat := fun _ => []
  views : Nat → Cell Nat := fun _ => { value := 0 }
  /-- The image handle that a view, named by its handle, was created for. -/
  createdFor : Nat → Nat := fun _ => 0
  outputImage : Nat := 0
  outputRtv : Nat := 0

namespace GraphResources

/-- The views in the order in which they are visited. -/
def viewOrder (graph : GraphResources) : List Nat :=
  graph.imageOrder.flatMap graph.imageViews

/-! ## Building -/

/-- Calls of the builder, with the addresses of the records they make. -/
inductive BuildCall where
  | makeBuffer (dynamicSize : Bool)
  | make2DImage (address : Nat)
  | makeDoubleBuffered2DImage (address prevAddress : Nat)
  | makeImageView (image address prevAddress : Nat)
deriving DecidableEq

/-- `make2DImage(name, config)`. -/
def make2DImage (graph : GraphResources) (address : Nat) : GraphResources :=
  { graph with
    imageOrder := graph.imageOrder ++ [address]
    images := update graph.images address { shown := some 0, value := 0 }
    imageViews := update graph.imageViews address [] }

/-- `makeDoubleBuffered2DImage(name, config)`. -/
def makeDoubleBuffered2DImage (graph : GraphResources) (address prevAddress : Nat) :
    GraphResources :=
  { graph with
    imageOrder := graph.imageOrder ++ [address, prevAddress]
    images := update
      (update graph.images address
        { shown := some 0, sibling := some prevAddress, value := 0 })
      prevAddress { shown := some 0, sibling := some address, value := 0 }
    imageViews := update (update graph.imageViews address []) prevAddress [] }

/-- `makeImageView(name, image, ...)`; only the first of two records gets a public object. -/
def makeImageView (graph : GraphResources) (image address prevAddress : Nat) : GraphResources :=
  match (graph.images image).sibling with
  | none =>
    { graph with
      imageViews := update graph.imageViews image (graph.imageViews image ++ [address])
      views := update graph.views address { shown := some 0, value := 0 } }
  | some prevImage =>
    { graph with
      imageViews := update
        (update graph.imageViews image (graph.imageViews image ++ [address]))
        prevImage (graph.imageViews prevImage ++ [prevAddress])
      views := update
        (update graph.views address
          { shown := some 0, sibling := some prevAddress, value := 0 })
        prevAddress { sibling := some address, value := 0 } }

/-- A call of the builder; `none` where a record would be made at an address that is in use. -/
def build (graph : GraphResources) : BuildCall → Option GraphResources
  | .makeBuffer dynamicSize =>
    some { graph with
      buffers := graph.buffers ++ [{ resource := some 0, dynamicSized := dynamicSize }] }
  | .make2DImage address =>
    if address ∈ graph.imageOrder then none else some (graph.make2DImage address)
  | .makeDoubleBuffered2DImage address prevAddress =>
    if address ∈ graph.imageOrder ∨ prevAddress ∈ graph.imageOrder ∨ address = prevAddress then
      none
    else some (graph.makeDoubleBuffered2DImage address prevAddress)
  | .makeImageView image address prevAddress =>
    if image ∉ graph.imageOrder ∨ address ∈ graph.viewOrder ∨ prevAddress ∈ graph.viewOrder ∨
        address = prevAddress then none
    else some (graph.makeImageView image address prevAddress)

/-! ## Handles -/

section Handles

-- what `vkCreateBuffer`, `vmaCreateImage` and `vkCreateImageView` return for the records
variable (createBuffer createImage createView : Nat → Nat)

/-- The creation of a view in `finalizeRebuild`. -/
def createViewHandle (image : Nat) (graph : GraphResources) (view : Nat) : GraphResources :=
  { graph with
    views := update graph.views view
      { graph.views view with value := createView view }
    createdFor := update graph.createdFor (createView view)
      (graph.images image).value }

/-- The creation of an image and its views. -/
def createImageHandle (graph : GraphResources) (image : Nat) : GraphResources :=
  (graph.imageViews image).foldl (createViewHandle createView image)
    { graph with
      images := update graph.images image
        { graph.images image with value := createImage image } }

/-- `finalizeRebuild()`. -/
def finalizeRebuild (graph : GraphResources) : GraphResources :=
  graph.imageOrder.foldl (createImageHandle createImage createView)
    { graph with
      buffers := graph.buffers.mapIdx fun i buffer =>
        if buffer.dynamicSized then buffer else { buffer with handle := createBuffer i } }

end Handles

/-! ## Publication -/

/-- The loop over the buffers. -/
def publishBuffer (buffer : BufferRecord) : BufferRecord :=
  if buffer.dynamicSized then
    { buffer with usedSize := 0, resource := buffer.resource.map fun _ => 0 }
  else { buffer with resource := buffer.resource.map fun _ => buffer.handle }

/-- The body of the loop over the images, with the loop over the views. -/
def publishImage (graph : GraphResources) (image : Nat) : GraphResources :=
  { graph with
    images := PairExchange.visit graph.images image
    views := (graph.imageViews image).foldl PairExchange.visit graph.views }

/-- `publishResourceHandles()`, with the current image and view of the swapchain. -/
def publishResourceHandles (graph : GraphResources) (currentImage currentImageRtv : Nat) :
    GraphResources :=
  graph.imageOrder.foldl publishImage
    { graph with
      outputImage := currentImage
      outputRtv := currentImageRtv
      buffers := graph.buffers.map publishBuffer }

/-- What happens to a graph that is built: it is executed, and the user gives up objects. -/
inductive Action where
  | publish (currentImage currentImageRtv : Nat)
  | dropImage (address : Nat)
  | dropView (address : Nat)

/-- The next state of the records. -/
def step (graph : GraphResources) : Action → Option GraphResources
  | .publish currentImage currentImageRtv =>
    some (graph.publishResourceHandles currentImage currentImageRtv)
  | .dropImage address =>
    some { graph with
      images := update graph.images address
        { graph.images address with shown := none } }
  | .dropView address =>
    some { graph with
      views := update graph.views address
        { graph.views address with shown := none } }

end GraphResources

end Voxen.Gfx
