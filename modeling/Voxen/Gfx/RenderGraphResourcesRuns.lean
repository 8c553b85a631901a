import Mathlib.Data.List.Nodup
import Voxen.Gfx.RenderGraphResources

/-!
# Publication of the resource handles

`publishResourceHandles_iff`: whatever was built and executed before, the publication shows the
handles that the records have exactly if no object belongs to a record that is visited before its
sibling and lies behind it in memory.
-/

namespace Voxen.Gfx.GraphResources

open Function (update update_of_ne update_self update_apply)
open PairExchange (Cell Paired pairValue Late)

/-! ## What the builder makes -/

/-- The records of a graph know each other. -/
structure Built (graph : GraphResources) : Prop where
  nodup : graph.imageOrder.Nodup
  paired : Paired graph.images graph.imageOrder
  viewsNodup : ∀ image ∈ graph.imageOrder, (graph.imageViews image).Nodup
  owner : ∀ image ∈ graph.imageOrder, ∀ image' ∈ graph.imageOrder, ∀ view,
    view ∈ graph.imageViews image → view ∈ graph.imageViews image' → image = image'
  viewsAlone : ∀ image ∈ graph.imageOrder, (graph.images image).sibling = none →
    ∀ view ∈ graph.imageViews image, (graph.views view).sibling = none
  viewsPaired : ∀ image ∈ graph.imageOrder, ∀ prevImage,
    (graph.images image).sibling = some prevImage → ∀ view ∈ graph.imageViews image,
      ∃ other ∈ graph.imageViews prevImage, (graph.views view).sibling = some other ∧
        (graph.views other).sibling = some view

section Built

variable {graph graph' : GraphResources} {image address prevAddress : Nat}

theorem mem_viewOrder {view : Nat} : view ∈ graph.viewOrder ↔
    ∃ image ∈ graph.imageOrder, view ∈ graph.imageViews image :=
  List.mem_flatMap

theorem Built.viewOrder_nodup (built : Built graph) : graph.viewOrder.Nodup := by
  refine List.nodup_flatMap.mpr ⟨built.viewsNodup, ?_⟩
  refine List.Pairwise.imp_of_mem (fun {image image'} mem mem' differ view here here' => ?_)
    built.nodup
  exact differ (built.owner image mem image' mem' view here here')

theorem Built.views_paired (built : Built graph) : Paired graph.views graph.viewOrder := by
  intro view mem other sibling
  obtain ⟨image, imageMem, here⟩ := mem_viewOrder.mp mem
  cases pair : (graph.images image).sibling with
  | none =>
    rw [built.viewsAlone image imageMem pair view here] at sibling
    cases sibling
  | some prevImage =>
    obtain ⟨other', there, known, back⟩ := built.viewsPaired image imageMem prevImage pair view here
    rw [sibling] at known
    cases known
    obtain ⟨prevMem, -, different⟩ := built.paired image imageMem prevImage pair
    refine ⟨mem_viewOrder.mpr ⟨prevImage, prevMem, there⟩, back, ?_⟩
    rintro rfl
    exact different (built.owner prevImage prevMem image imageMem _ there here)

theorem Built.initial : Built {} where
  nodup := List.nodup_nil
  paired := nofun
  viewsNodup := nofun
  owner := nofun
  viewsAlone := nofun
  viewsPaired := nofun

theorem Built.addImages (built : Built graph) {added : List Nat}
    (order_eq : graph'.imageOrder = graph.imageOrder ++ added)
    (views_eq : graph'.views = graph.views)
    (fresh : ∀ address ∈ added, address ∉ graph.imageOrder)
    (nodup : added.Nodup) (paired : Paired graph'.images added)
    (kept : ∀ image ∈ graph.imageOrder, graph'.images image = graph.images image ∧
      graph'.imageViews image = graph.imageViews image)
    (noViews : ∀ address ∈ added, graph'.imageViews address = []) : Built graph' := by
  have either : ∀ {image}, image ∈ graph'.imageOrder → image ∈ graph.imageOrder ∨ image ∈ added :=
    fun mem => List.mem_append.mp (order_eq ▸ mem)
  have old : ∀ {image view}, image ∈ graph'.imageOrder → view ∈ graph'.imageViews image →
      image ∈ graph.imageOrder ∧ view ∈ graph.imageViews image := by
    intro image view mem here
    rcases either mem with mem | mem
    · exact ⟨mem, (kept image mem).2 ▸ here⟩
    · rw [noViews image mem] at here
      cases here
  refine ⟨?_, ?_, ?_, ?_, ?_, ?_⟩
  · rw [order_eq]
    exact List.nodup_append.mpr ⟨built.nodup, nodup, fun image mem address mem' same =>
      fresh address mem' (same ▸ mem)⟩
  · intro image mem other sibling
    rw [order_eq]
    rcases either mem with mem | mem
    · rw [(kept image mem).1] at sibling
      obtain ⟨otherMem, back, different⟩ := built.paired image mem other sibling
      exact ⟨List.mem_append_left _ otherMem, (kept other otherMem).1 ▸ back, different⟩
    · obtain ⟨otherMem, both⟩ := paired image mem other sibling
      exact ⟨List.mem_append_right _ otherMem, both⟩
  · intro image mem
    rcases either mem with mem | mem
    · exact (kept image mem).2 ▸ built.viewsNodup image mem
    · exact (noViews image mem).symm ▸ List.nodup_nil
  · intro image mem image' mem' view here here'
    obtain ⟨mem, here⟩ := old mem here
    obtain ⟨mem', here'⟩ := old mem' here'
    exact built.owner image mem image' mem' view here here'
  · intro image mem alone view here
    obtain ⟨mem, here⟩ := old mem here
    rw [views_eq]
    exact built.viewsAlone image mem ((kept image mem).1 ▸ alone) view here
  · intro image mem prevImage sibling view here
    obtain ⟨mem, here⟩ := old mem here
    rw [(kept image mem).1] at sibling
    obtain ⟨other, there, both⟩ := built.viewsPaired image mem prevImage sibling view here
    rw [views_eq]
    exact ⟨other, (kept prevImage (built.paired image mem prevImage sibling).1).2 ▸ there, both⟩

theorem Built.make2DImage (built : Built graph) (fresh : address ∉ graph.imageOrder) :
    Built (graph.make2DImage address) := by
  have others : ∀ image ∈ graph.imageOrder, image ≠ address := fun image mem same =>
    fresh (same ▸ mem)
  refine @Built.addImages _ _ built [address] rfl rfl (by simpa using fresh)
    (List.nodup_singleton _) ?_ (fun image mem => ⟨?_, ?_⟩) ?_
  · intro image mem other sibling
    rw [List.mem_singleton.mp mem] at sibling
    simp [GraphResources.make2DImage] at sibling
  · exact update_of_ne (others image mem) _ _
  · exact update_of_ne (others image mem) _ _
  · intro image mem
    rw [List.mem_singleton.mp mem]
    exact update_self _ _ _

theorem Built.makeDoubleBuffered2DImage (built : Built graph)
    (fresh : address ∉ graph.imageOrder) (prevFresh : prevAddress ∉ graph.imageOrder)
    (different : address ≠ prevAddress) :
    Built (graph.makeDoubleBuffered2DImage address prevAddress) := by
  have others : ∀ image ∈ graph.imageOrder, image ≠ address ∧ image ≠ prevAddress :=
    fun image mem => ⟨fun same => fresh (same ▸ mem), fun same => prevFresh (same ▸ mem)⟩
  have first : (graph.makeDoubleBuffered2DImage address prevAddress).images address =
      { shown := some 0, sibling := some prevAddress, value := 0 } :=
    (update_of_ne different _ _).trans (update_self _ _ _)
  have second : (graph.makeDoubleBuffered2DImage address prevAddress).images prevAddress =
      { shown := some 0, sibling := some address, value := 0 } :=
    update_self _ _ _
  refine @Built.addImages _ _ built [address, prevAddress] rfl rfl ?_ (by simpa using different)
    ?_ (fun image mem => ⟨?_, ?_⟩) ?_
  · intro image mem
    rcases List.mem_pair.mp mem with rfl | rfl
    · exact fresh
    · exact prevFresh
  · intro image mem other sibling
    rcases List.mem_pair.mp mem with rfl | rfl
    · rw [first] at sibling
      cases sibling
      exact ⟨by simp, by rw [second], different.symm⟩
    · rw [second] at sibling
      cases sibling
      exact ⟨by simp, by rw [first], different⟩
  · obtain ⟨one, two⟩ := others image mem
    exact (update_of_ne two _ _).trans (update_of_ne one _ _)
  · obtain ⟨one, two⟩ := others image mem
    exact (update_of_ne two _ _).trans (update_of_ne one _ _)
  · intro image mem
    rcases List.mem_pair.mp mem with rfl | rfl
    · exact (update_of_ne different _ _).trans (update_self _ _ _)
    · exact update_self _ _ _

/-- The views of an image, and those of its sibling, get one more at the end. -/
theorem Built.addViews (built : Built graph) {added : Nat → Option Nat}
    (order_eq : graph'.imageOrder = graph.imageOrder) (images_eq : graph'.images = graph.images)
    (imageViews_eq : ∀ image ∈ graph.imageOrder,
      graph'.imageViews image = graph.imageViews image ++ (added image).toList)
    (fresh : ∀ image view, added image = some view → view ∉ graph.viewOrder)
    (distinct : ∀ image image' view, added image = some view → added image' = some view →
      image = image')
    (kept : ∀ view ∈ graph.viewOrder, graph'.views view = graph.views view)
    (alone : ∀ image view, added image = some view → (graph.images image).sibling = none →
      (graph'.views view).sibling = none)
    (paired : ∀ image view prevImage, added image = some view →
      (graph.images image).sibling = some prevImage → ∃ other, added prevImage = some other ∧
        (graph'.views view).sibling = some other ∧ (graph'.views other).sibling = some view) :
    Built graph' := by
  have either : ∀ {image view}, image ∈ graph.imageOrder → view ∈ graph'.imageViews image →
      view ∈ graph.imageViews image ∨ added image = some view := by
    intro image view mem here
    rw [imageViews_eq image mem, List.mem_append, Option.mem_toList] at here
    exact here
  have there : ∀ {image view}, image ∈ graph.imageOrder → view ∈ graph.imageViews image →
      view ∈ graph.viewOrder := fun mem here => mem_viewOrder.mpr ⟨_, mem, here⟩
  refine ⟨order_eq ▸ built.nodup, ?_, ?_, ?_, ?_, ?_⟩
  · rw [order_eq, images_eq]
    exact built.paired
  · rw [order_eq]
    intro image mem
    rw [imageViews_eq image mem, List.nodup_append]
    refine ⟨built.viewsNodup image mem, ?_, fun view here view' new same => ?_⟩
    · cases added image with
      | none => exact List.nodup_nil
      | some view => exact List.nodup_singleton view
    · exact fresh image view' (Option.mem_toList.mp new) (same ▸ there mem here)
  · rw [order_eq]
    intro image mem image' mem' view here here'
    rcases either mem here with here | new
    · rcases either mem' here' with here' | new'
      · exact built.owner image mem image' mem' view here here'
      · exact absurd (there mem here) (fresh image' view new')
    · rcases either mem' here' with here' | new'
      · exact absurd (there mem' here') (fresh image view new)
      · exact distinct image image' view new new'
  · rw [order_eq, images_eq]
    intro image mem noSibling view here
    rcases either mem here with here | new
    · rw [kept view (there mem here)]
      exact built.viewsAlone image mem noSibling view here
    · exact alone image view new noSibling
  · rw [order_eq, images_eq]
    intro image mem prevImage sibling view here
    have prevMem := (built.paired image mem prevImage sibling).1
    rcases either mem here with here | new
    · obtain ⟨other, inPrev, both⟩ := built.viewsPaired image mem prevImage sibling view here
      refine ⟨other, ?_, ?_⟩
      · rw [imageViews_eq prevImage prevMem]
        exact List.mem_append_left _ inPrev
      · rw [kept view (there mem here), kept other (there prevMem inPrev)]
        exact both
    · obtain ⟨other, inPrev, both⟩ := paired image view prevImage new sibling
      refine ⟨other, ?_, both⟩
      rw [imageViews_eq prevImage prevMem, inPrev]
      exact List.mem_append_right _ (List.mem_singleton_self _)

theorem Built.makeImageView (built : Built graph) (imageMem : image ∈ graph.imageOrder)
    (fresh : address ∉ graph.viewOrder) (prevFresh : prevAddress ∉ graph.viewOrder)
    (different : address ≠ prevAddress) :
    Built (graph.makeImageView image address prevAddress) := by
  have others : ∀ view ∈ graph.viewOrder, view ≠ address ∧ view ≠ prevAddress :=
    fun view mem => ⟨fun same => fresh (same ▸ mem), fun same => prevFresh (same ▸ mem)⟩
  unfold GraphResources.makeImageView
  cases sibling : (graph.images image).sibling with
  | none =>
    refine @Built.addViews _ _ built (fun other => if other = image then some address else none)
      rfl rfl (fun other _ => ?_) ?_ ?_ (fun view mem => ?_) ?_ ?_
    · dsimp only
      rw [update_apply]
      split
      · rename_i same
        rw [same]
        rfl
      · exact (List.append_nil _).symm
    · intro other view new
      split at new
      · cases new
        exact fresh
      · cases new
    · intro other other' view new new'
      split at new
      · split at new'
        · rename_i same same'
          rw [same, same']
        · cases new'
      · cases new
    · exact update_of_ne (others view mem).1 _ _
    · intro other view new _
      split at new
      · cases new
        simp only [update_self]
      · cases new
    · intro other view prevImage new pair
      split at new
      · rename_i same
        rw [same, sibling] at pair
        cases pair
      · cases new
  | some prevImage =>
    obtain ⟨prevMem, back, differs⟩ := built.paired image imageMem prevImage sibling
    refine @Built.addViews _ _ built (fun other => if other = prevImage then some prevAddress
      else if other = image then some address else none) rfl rfl (fun other _ => ?_) ?_ ?_
      (fun view mem => ?_) ?_ ?_
    · dsimp only
      rw [update_apply, update_apply]
      split
      · rename_i same
        rw [same]
        rfl
      · split
        · rename_i same
          rw [same]
          rfl
        · exact (List.append_nil _).symm
    · intro other view new
      split at new
      · cases new
        exact prevFresh
      · split at new
        · cases new
          exact fresh
        · cases new
    · intro other other' view new new'
      grind
    · exact (update_of_ne (others view mem).2 _ _).trans
        (update_of_ne (others view mem).1 _ _)
    · intro other view new alone
      grind
    · intro other view prevImage' new pair
      grind

theorem Built.build (built : Built graph) {call : BuildCall}
    (made : graph.build call = some graph') : Built graph' := by
  cases call with
  | makeBuffer dynamicSize =>
    cases made
    exact ⟨built.nodup, built.paired, built.viewsNodup, built.owner, built.viewsAlone,
      built.viewsPaired⟩
  | make2DImage address =>
    simp only [GraphResources.build] at made
    split at made
    · cases made
    · rename_i fresh
      cases made
      exact built.make2DImage fresh
  | makeDoubleBuffered2DImage address prevAddress =>
    simp only [GraphResources.build] at made
    split at made
    · cases made
    · rename_i fresh
      cases made
      obtain ⟨one, two, three⟩ := by simpa only [not_or] using fresh
      exact built.makeDoubleBuffered2DImage one two three
  | makeImageView image address prevAddress =>
    simp only [GraphResources.build] at made
    split at made
    · cases made
    · rename_i fresh
      cases made
      obtain ⟨there, one, two, three⟩ := by simpa only [not_or, not_not] using fresh
      exact built.makeImageView there one two three

end Built

/-! ## Handles -/

/-- The records have handles of their own, and the views handles that belong to their images. -/
structure Ready (graph : GraphResources) : Prop extends Built graph where
  imagesDiffer : ∀ image ∈ graph.imageOrder, ∀ other ∈ graph.imageOrder,
    (graph.images image).value = (graph.images other).value → image = other
  viewsDiffer : ∀ view ∈ graph.viewOrder, ∀ other ∈ graph.viewOrder,
    (graph.views view).value = (graph.views other).value → view = other
  belongs : ∀ image ∈ graph.imageOrder, ∀ view ∈ graph.imageViews image,
    graph.createdFor (graph.views view).value = (graph.images image).value

/-- Only handles differ. -/
structure SameRecords (graph graph' : GraphResources) : Prop where
  imageOrder : graph'.imageOrder = graph.imageOrder
  imageViews : graph'.imageViews = graph.imageViews
  images : ∀ image, (graph'.images image).sibling = (graph.images image).sibling
  views : ∀ view, (graph'.views view).sibling = (graph.views view).sibling

theorem SameRecords.trans {one two three : GraphResources} (first : SameRecords one two)
    (second : SameRecords two three) : SameRecords one three where
  imageOrder := second.imageOrder.trans first.imageOrder
  imageViews := second.imageViews.trans first.imageViews
  images image := (second.images image).trans (first.images image)
  views view := (second.views view).trans (first.views view)

theorem SameRecords.viewOrder {graph graph' : GraphResources} (same : SameRecords graph graph') :
    graph'.viewOrder = graph.viewOrder := by
  unfold GraphResources.viewOrder
  rw [same.imageOrder, same.imageViews]

theorem Built.same {graph graph' : GraphResources} (built : Built graph)
    (same : SameRecords graph graph') : Built graph' where
  nodup := same.imageOrder ▸ built.nodup
  paired := by
    intro image mem other sibling
    rw [same.images] at sibling
    rw [same.imageOrder] at mem ⊢
    rw [same.images]
    exact built.paired image mem other sibling
  viewsNodup := by
    rw [same.imageOrder, same.imageViews]
    exact built.viewsNodup
  owner := by
    rw [same.imageOrder, same.imageViews]
    exact built.owner
  viewsAlone := by
    rw [same.imageOrder, same.imageViews]
    intro image mem alone view here
    rw [same.views]
    exact built.viewsAlone image mem (same.images image ▸ alone) view here
  viewsPaired := by
    rw [same.imageOrder, same.imageViews]
    intro image mem prevImage sibling view here
    obtain ⟨other, there, known, back⟩ :=
      built.viewsPaired image mem prevImage (same.images image ▸ sibling) view here
    exact ⟨other, there, (same.views view).trans known, (same.views other).trans back⟩

section Finalize

variable {createBuffer createImage createView : Nat → Nat} {graph : GraphResources}

theorem createViewHandles_spec (differ : Function.Injective createView) (image : Nat)
    (views : List Nat) :
    let result := views.foldl (createViewHandle createView image) graph
    SameRecords graph result ∧ result.images = graph.images ∧
      (∀ view ∈ views, (result.views view).value = createView view ∧
        result.createdFor (createView view) = (graph.images image).value) ∧
      ∀ view ∉ views, (result.views view).value = (graph.views view).value ∧
        result.createdFor (createView view) = graph.createdFor (createView view) := by
  induction views generalizing graph with
  | nil => exact ⟨⟨rfl, rfl, fun _ => rfl, fun _ => rfl⟩, rfl, nofun, fun _ _ => ⟨rfl, rfl⟩⟩
  | cons first views ih =>
    obtain ⟨same, images_eq, created, others⟩ :=
      @ih (createViewHandle createView image graph first)
    have one : SameRecords graph (createViewHandle createView image graph first) := by
      refine ⟨rfl, rfl, fun _ => rfl, fun view => ?_⟩
      simp only [createViewHandle, update_apply]
      split
      · rename_i same
        rw [same]
      · rfl
    refine ⟨one.trans same, images_eq, fun view mem => ?_, fun view notMem => ?_⟩
    · by_cases later : view ∈ views
      · exact created view later
      · have isFirst := (List.mem_cons.mp mem).resolve_right later
        obtain ⟨value, createdFor⟩ := others view later
        refine ⟨value.trans ?_, createdFor.trans ?_⟩
        · rw [isFirst]
          simp only [createViewHandle, update_self]
        · rw [isFirst]
          exact update_self _ _ _
    · obtain ⟨isNot, later⟩ := not_or.mp fun either => notMem (List.mem_cons.mpr either)
      obtain ⟨value, createdFor⟩ := others view later
      refine ⟨value.trans ?_, createdFor.trans ?_⟩
      · simp only [createViewHandle, update_of_ne isNot]
      · exact update_of_ne (fun same => isNot (differ same)) _ _

theorem createImageHandles_spec (built : Built graph) (differ : Function.Injective createView)
    (images : List Nat) (nodup : images.Nodup)
    (there : ∀ image ∈ images, image ∈ graph.imageOrder) :
    let result := images.foldl (createImageHandle createImage createView) graph
    SameRecords graph result ∧
      (∀ image ∈ images, (result.images image).value = createImage image ∧
        ∀ view ∈ graph.imageViews image, (result.views view).value = createView view ∧
          result.createdFor (createView view) = createImage image) ∧
      ∀ image ∈ graph.imageOrder, image ∉ images →
        result.images image = graph.images image ∧
        ∀ view ∈ graph.imageViews image, (result.views view).value = (graph.views view).value ∧
          result.createdFor (createView view) = graph.createdFor (createView view) := by
  induction images generalizing graph with
  | nil =>
    exact ⟨⟨rfl, rfl, fun _ => rfl, fun _ => rfl⟩, nofun,
      fun _ _ _ => ⟨rfl, fun _ _ => ⟨rfl, rfl⟩⟩⟩
  | cons first images ih =>
    obtain ⟨notLater, nodup⟩ := List.nodup_cons.mp nodup
    have firstMem := there first List.mem_cons_self
    obtain ⟨viewsSame, images_eq, created, others⟩ := @createViewHandles_spec _
      { graph with
        images := update graph.images first
          { graph.images first with value := createImage first } }
      differ first (graph.imageViews first)
    have handle : SameRecords graph { graph with
        images := update graph.images first
          { graph.images first with value := createImage first } } := by
      refine ⟨rfl, rfl, fun image => ?_, fun _ => rfl⟩
      simp only [update_apply]
      split
      · rename_i same
        rw [same]
      · rfl
    have one : SameRecords graph (createImageHandle createImage createView graph first) :=
      handle.trans viewsSame
    change (createImageHandle createImage createView graph first).images = _ at images_eq
    obtain ⟨same, done, rest⟩ := @ih
      (createImageHandle createImage createView graph first)
      (built.same one) nodup fun image mem => one.imageOrder ▸
        there image (List.mem_cons_of_mem _ mem)
    rw [one.imageOrder, one.imageViews] at *
    refine ⟨one.trans same, fun image mem => ?_, fun image mem notMem => ?_⟩
    · by_cases later : image ∈ images
      · exact done image later
      · have isFirst := (List.mem_cons.mp mem).resolve_right later
        subst isFirst
        obtain ⟨image_eq, views_eq⟩ := rest image firstMem later
        refine ⟨(congrArg Cell.value image_eq).trans ?_, fun view here => ?_⟩
        · rw [images_eq]
          simp only [update_self]
        · obtain ⟨value, createdFor⟩ := views_eq view here
          obtain ⟨value', createdFor'⟩ := created view here
          refine ⟨value.trans value', createdFor.trans (createdFor'.trans ?_)⟩
          simp only [update_self]
    · obtain ⟨isNot, later⟩ := not_or.mp fun either => notMem (List.mem_cons.mpr either)
      obtain ⟨image_eq, views_eq⟩ := rest image mem later
      refine ⟨image_eq.trans ?_, fun view here => ?_⟩
      · rw [images_eq]
        exact update_of_ne isNot _ _
      · have notThere : view ∉ graph.imageViews first := fun there =>
          isNot (built.owner image mem first firstMem view here there)
        obtain ⟨value, createdFor⟩ := views_eq view here
        obtain ⟨value', createdFor'⟩ := others view notThere
        exact ⟨value.trans value', createdFor.trans createdFor'⟩

theorem Built.finalizeRebuild (built : Built graph) (imagesDiffer : Function.Injective createImage)
    (viewsDiffer : Function.Injective createView) :
    Ready (graph.finalizeRebuild createBuffer createImage createView) := by
  obtain ⟨started, done, -⟩ := @createImageHandles_spec createImage _
    { graph with
      buffers := graph.buffers.mapIdx fun i buffer =>
        if buffer.dynamicSized then buffer else { buffer with handle := createBuffer i } }
    ⟨built.nodup, built.paired, built.viewsNodup, built.owner, built.viewsAlone,
      built.viewsPaired⟩ viewsDiffer graph.imageOrder built.nodup fun _ mem => mem
  have same : SameRecords graph (graph.finalizeRebuild createBuffer createImage createView) :=
    ⟨started.imageOrder, started.imageViews, started.images, started.views⟩
  refine ⟨built.same same, ?_, ?_, ?_⟩
  · rw [same.imageOrder]
    intro image mem other mem' values
    exact imagesDiffer ((done image mem).1.symm.trans (values.trans (done other mem').1))
  · rw [same.viewOrder]
    intro view mem other mem' values
    obtain ⟨image, imageMem, here⟩ := mem_viewOrder.mp mem
    obtain ⟨image', imageMem', here'⟩ := mem_viewOrder.mp mem'
    exact viewsDiffer (((done image imageMem).2 view here).1.symm.trans
      (values.trans ((done image' imageMem').2 other here').1))
  · rw [same.imageOrder, same.imageViews]
    intro image mem view here
    obtain ⟨image_value, views⟩ := done image mem
    obtain ⟨view_value, createdFor⟩ := views view here
    exact (congrArg _ view_value).trans (createdFor.trans image_value.symm)

end Finalize

/-! ## Publication -/

/-- What a publication should do to the records. -/
structure Published (before after : GraphResources) : Prop where
  image : ∀ image ∈ before.imageOrder, ∀ handle, (after.images image).shown = some handle →
    handle = (after.images image).value
  view : ∀ view ∈ before.viewOrder, ∀ handle, (after.views view).shown = some handle →
    handle = (after.views view).value
  /-- The handles of the two images of a pair are exchanged, and are not the same. -/
  imageExchanged : ∀ image ∈ before.imageOrder, ∀ other,
    (before.images image).sibling = some other →
    (after.images image).value = (before.images other).value ∧
      (after.images image).value ≠ (after.images other).value
  imageKept : ∀ image ∈ before.imageOrder, (before.images image).sibling = none →
    (after.images image).value = (before.images image).value
  viewExchanged : ∀ view ∈ before.viewOrder, ∀ other,
    (before.views view).sibling = some other →
    (after.views view).value = (before.views other).value ∧
      (after.views view).value ≠ (after.views other).value
  viewKept : ∀ view ∈ before.viewOrder, (before.views view).sibling = none →
    (after.views view).value = (before.views view).value
  belongs : ∀ image ∈ before.imageOrder, ∀ view ∈ before.imageViews image,
    after.createdFor (after.views view).value = (after.images image).value

/-- No object belongs to a record that is visited before its sibling and lies behind it. -/
structure Placed (graph : GraphResources) : Prop where
  images : ∀ image ∈ graph.imageOrder, (graph.images image).shown ≠ none →
    ¬ Late graph.images graph.imageOrder image
  views : ∀ view ∈ graph.viewOrder, (graph.views view).shown ≠ none →
    ¬ Late graph.views graph.viewOrder view

section Publish

variable {graph graph' : GraphResources} {currentImage currentImageRtv : Nat}

theorem foldl_publishImage (images : List Nat) :
    images.foldl publishImage graph =
      { graph with
        images := images.foldl PairExchange.visit graph.images
        views := (images.flatMap graph.imageViews).foldl PairExchange.visit graph.views } := by
  induction images generalizing graph with
  | nil => rfl
  | cons image images ih =>
    rw [List.foldl_cons, ih, List.flatMap_cons, List.foldl_append]
    rfl

theorem publish_images (graph : GraphResources) (currentImage currentImageRtv : Nat) :
    (graph.publishResourceHandles currentImage currentImageRtv).images =
      graph.imageOrder.foldl PairExchange.visit graph.images := by
  unfold publishResourceHandles
  rw [foldl_publishImage]

theorem publish_views (graph : GraphResources) (currentImage currentImageRtv : Nat) :
    (graph.publishResourceHandles currentImage currentImageRtv).views =
      graph.viewOrder.foldl PairExchange.visit graph.views := by
  unfold publishResourceHandles
  rw [foldl_publishImage]
  rfl

theorem publish_createdFor (graph : GraphResources) (currentImage currentImageRtv : Nat) :
    (graph.publishResourceHandles currentImage currentImageRtv).createdFor = graph.createdFor := by
  unfold publishResourceHandles
  rw [foldl_publishImage]

variable {cells : Nat → Cell Nat}

theorem pairValue_some {address other : Nat} (sibling : (cells address).sibling = some other) :
    pairValue cells address = (cells other).value := by
  unfold pairValue
  rw [sibling]

theorem pairValue_none {address : Nat} (sibling : (cells address).sibling = none) :
    pairValue cells address = (cells address).value := by
  unfold pairValue
  rw [sibling]

theorem pairValue_inj {order : List Nat} (paired : Paired cells order)
    (differ : ∀ address ∈ order, ∀ other ∈ order,
      (cells address).value = (cells other).value → address = other) {one two : Nat}
    (oneMem : one ∈ order) (twoMem : two ∈ order) (same : pairValue cells one = pairValue cells two) :
    one = two := by
  cases first : (cells one).sibling with
  | none =>
    rw [pairValue_none first] at same
    cases second : (cells two).sibling with
    | none => exact differ one oneMem two twoMem (same.trans (pairValue_none second))
    | some other =>
      obtain ⟨otherMem, back, -⟩ := paired two twoMem other second
      have isOne := differ one oneMem other otherMem (same.trans (pairValue_some second))
      rw [isOne, back] at first
      cases first
  | some other =>
    obtain ⟨otherMem, back, -⟩ := paired one oneMem other first
    rw [pairValue_some first] at same
    cases second : (cells two).sibling with
    | none =>
      have isTwo := differ other otherMem two twoMem (same.trans (pairValue_none second))
      rw [← isTwo, back] at second
      cases second
    | some other' =>
      obtain ⟨otherMem', back', -⟩ := paired two twoMem other' second
      have isOther := differ other otherMem other' otherMem'
        (same.trans (pairValue_some second))
      rw [isOther, back'] at back
      exact (Option.some.inj back).symm

theorem Ready.pair_belongs (ready : Ready graph) {image view : Nat}
    (mem : image ∈ graph.imageOrder) (here : view ∈ graph.imageViews image) :
    graph.createdFor (pairValue graph.views view) = pairValue graph.images image := by
  cases pair : (graph.images image).sibling with
  | none =>
    rw [pairValue_none pair, pairValue_none (ready.viewsAlone image mem pair view here)]
    exact ready.belongs image mem view here
  | some prevImage =>
    obtain ⟨other, there, known, -⟩ := ready.viewsPaired image mem prevImage pair view here
    rw [pairValue_some pair, pairValue_some known]
    exact ready.belongs prevImage (ready.paired image mem prevImage pair).1 other there

theorem same_publish (built : Built graph) :
    (∀ image ∈ graph.imageOrder,
      ((graph.publishResourceHandles currentImage currentImageRtv).images image).value =
        pairValue graph.images image) ∧
    ∀ view ∈ graph.viewOrder,
      ((graph.publishResourceHandles currentImage currentImageRtv).views view).value =
        pairValue graph.views view := by
  rw [publish_images, publish_views]
  exact ⟨fun image mem => PairExchange.foldl_visit_value built.nodup built.paired mem,
    fun view mem => PairExchange.foldl_visit_value built.viewOrder_nodup built.views_paired mem⟩

theorem shown_iff {order : List Nat} (nodup : order.Nodup) (paired : Paired cells order)
    (differ : ∀ address ∈ order, ∀ other ∈ order,
      (cells address).value = (cells other).value → address = other) :
    (∀ address ∈ order, ∀ handle, (order.foldl PairExchange.visit cells address).shown =
        some handle → handle = (order.foldl PairExchange.visit cells address).value) ↔
      ∀ address ∈ order, (cells address).shown ≠ none → ¬ Late cells order address := by
  refine forall_congr' fun address => forall_congr' fun mem => ?_
  have passed := PairExchange.passed_foldl nodup paired address mem
  rw [PairExchange.foldl_visit_value nodup paired mem]
  by_cases late : Late cells order address
  · rw [passed.late mem late]
    obtain ⟨other, sibling, -⟩ := id late
    obtain ⟨otherMem, -, different⟩ := paired address mem other sibling
    constructor
    · intro right there
      obtain ⟨old, shown⟩ := Option.ne_none_iff_exists'.mp there
      have same := right _ (by rw [shown, Option.map_some])
      rw [pairValue_some sibling] at same
      exact absurd (differ address mem other otherMem same).symm different
    · intro hidden handle shown
      obtain ⟨old, isThere, -⟩ := Option.map_eq_some_iff.mp shown
      exact absurd late (hidden (by rw [isThere]; exact Option.some_ne_none old))
  · refine iff_of_true (fun handle shown => ?_) fun _ => late
    rw [passed.early mem late] at shown
    obtain ⟨-, -, same⟩ := Option.map_eq_some_iff.mp shown
    exact same.symm

theorem Ready.published_iff (ready : Ready graph) :
    Published graph (graph.publishResourceHandles currentImage currentImageRtv) ↔
      Placed graph := by
  have images := shown_iff ready.nodup ready.paired ready.imagesDiffer
  have views := shown_iff ready.viewOrder_nodup ready.views_paired ready.viewsDiffer
  obtain ⟨imageValue, viewValue⟩ := @same_publish _ currentImage currentImageRtv
    ready.toBuilt
  rw [← publish_images graph currentImage currentImageRtv] at images
  rw [← publish_views graph currentImage currentImageRtv] at views
  refine ⟨fun published => ⟨images.mp published.image, views.mp published.view⟩, fun placed =>
    ⟨images.mpr placed.images, views.mpr placed.views, ?_, ?_, ?_, ?_, ?_⟩⟩
  · intro image mem other sibling
    obtain ⟨otherMem, -, different⟩ := ready.paired image mem other sibling
    rw [imageValue image mem, imageValue other otherMem]
    refine ⟨pairValue_some sibling, fun same => different ?_⟩
    exact (pairValue_inj ready.paired ready.imagesDiffer mem otherMem same).symm
  · intro image mem alone
    rw [imageValue image mem, pairValue_none alone]
  · intro view mem other sibling
    obtain ⟨otherMem, -, different⟩ := ready.views_paired view mem other sibling
    rw [viewValue view mem, viewValue other otherMem]
    refine ⟨pairValue_some sibling, fun same => different ?_⟩
    exact (pairValue_inj ready.views_paired ready.viewsDiffer mem otherMem same).symm
  · intro view mem alone
    rw [viewValue view mem, pairValue_none alone]
  · intro image mem view here
    rw [publish_createdFor, imageValue image mem,
      viewValue view (mem_viewOrder.mpr ⟨image, mem, here⟩)]
    exact ready.pair_belongs mem here

/-! ## Runs -/

theorem publish_sameRecords (graph : GraphResources) (currentImage currentImageRtv : Nat) :
    SameRecords graph (graph.publishResourceHandles currentImage currentImageRtv) := by
  refine ⟨?_, ?_, fun image => ?_, fun view => ?_⟩
  · unfold publishResourceHandles
    rw [foldl_publishImage]
  · unfold publishResourceHandles
    rw [foldl_publishImage]
  · rw [publish_images, PairExchange.foldl_visit_sibling]
  · rw [publish_views, PairExchange.foldl_visit_sibling]

theorem Ready.publish (ready : Ready graph) (currentImage currentImageRtv : Nat) :
    Ready (graph.publishResourceHandles currentImage currentImageRtv) := by
  obtain ⟨imageValue, viewValue⟩ := @same_publish _ currentImage currentImageRtv
    ready.toBuilt
  have same := publish_sameRecords graph currentImage currentImageRtv
  refine ⟨ready.toBuilt.same same, ?_, ?_, ?_⟩
  · rw [same.imageOrder]
    intro image mem other mem' values
    rw [imageValue image mem, imageValue other mem'] at values
    exact pairValue_inj ready.paired ready.imagesDiffer mem mem' values
  · rw [same.viewOrder]
    intro view mem other mem' values
    rw [viewValue view mem, viewValue other mem'] at values
    exact pairValue_inj ready.views_paired ready.viewsDiffer mem mem' values
  · rw [same.imageOrder, same.imageViews]
    intro image mem view here
    rw [publish_createdFor, imageValue image mem,
      viewValue view (mem_viewOrder.mpr ⟨image, mem, here⟩)]
    exact ready.pair_belongs mem here

theorem Ready.same (ready : Ready graph) (same : SameRecords graph graph')
    (images : ∀ image, (graph'.images image).value = (graph.images image).value)
    (views : ∀ view, (graph'.views view).value = (graph.views view).value)
    (createdFor : graph'.createdFor = graph.createdFor) : Ready graph' := by
  refine ⟨ready.toBuilt.same same, ?_, ?_, ?_⟩
  · rw [same.imageOrder]
    intro image mem other mem' values
    rw [images, images] at values
    exact ready.imagesDiffer image mem other mem' values
  · rw [same.viewOrder]
    intro view mem other mem' values
    rw [views, views] at values
    exact ready.viewsDiffer view mem other mem' values
  · rw [same.imageOrder, same.imageViews, createdFor]
    intro image mem view here
    rw [images, views]
    exact ready.belongs image mem view here

theorem Ready.step (ready : Ready graph) {action : Action}
    (next : GraphResources.step graph action = some graph') : Ready graph' := by
  cases action with
  | publish currentImage currentImageRtv =>
    cases next
    exact ready.publish currentImage currentImageRtv
  | dropImage address =>
    cases next
    refine ready.same ⟨rfl, rfl, fun image => ?_, fun _ => rfl⟩ (fun image => ?_) (fun _ => rfl) rfl
    all_goals
      simp only [update_apply]
      split
      · rename_i same
        rw [same]
      · rfl
  | dropView address =>
    cases next
    refine ready.same ⟨rfl, rfl, fun _ => rfl, fun view => ?_⟩ (fun _ => rfl) (fun view => ?_) rfl
    all_goals
      simp only [update_apply]
      split
      · rename_i same
        rw [same]
      · rfl

/-- Every publication, for every graph that the builder can make and whatever was executed before.
The driver gives the images handles of their own, and so the views. -/
theorem publishResourceHandles_iff {createBuffer createImage createView : Nat → Nat}
    (imagesDiffer : Function.Injective createImage) (viewsDiffer : Function.Injective createView)
    (calls : List BuildCall) {built : GraphResources}
    (make : Runs.run GraphResources.build {} calls = some built) (actions : List Action)
    (run : Runs.run GraphResources.step (built.finalizeRebuild createBuffer createImage createView)
      actions = some graph) (currentImage currentImageRtv : Nat) :
    Published graph (graph.publishResourceHandles currentImage currentImageRtv) ↔
      Placed graph := by
  have isBuilt : Built built :=
    Runs.run_preserved (fun _ _ _ built made => Built.build built made) Built.initial make
  have ready : Ready graph :=
    Runs.run_preserved (fun _ _ _ ready next => Ready.step ready next)
      (isBuilt.finalizeRebuild imagesDiffer viewsDiffer) run
  exact ready.published_iff

end Publish

/-- A pair of images with a view, made at rising addresses, and executed once before. -/
theorem publishResourceHandles_iff_rising :
    ∃ graph : GraphResources, graph.imageOrder = [1, 2] ∧
      Published graph (graph.publishResourceHandles 5 6) := by
  have published := @publishResourceHandles_iff _ id (· + 10) (· + 20)
    (fun _ _ => Nat.add_right_cancel) (fun _ _ => Nat.add_right_cancel)
    [.makeDoubleBuffered2DImage 1 2, .makeImageView 1 3 4] _ rfl [.publish 5 6] rfl 5 6
  exact ⟨_, rfl, published.mpr ⟨by decide, by decide⟩⟩

/-- The second image of a pair lies in front of the first one: the object of the first one keeps
showing the handle that the second one shows now. -/
theorem not_published_falling :
    let built := makeDoubleBuffered2DImage {} 2 1
    let graph := built.finalizeRebuild id (· + 10) (· + 20)
    let after := graph.publishResourceHandles 5 6
    Runs.run build {} [.makeDoubleBuffered2DImage 2 1] = some built ∧
      (after.images 2).shown = some 12 ∧ (after.images 1).shown = some 12 ∧
      (after.images 2).value = 11 ∧ ¬ Published graph after := by
  refine ⟨rfl, rfl, rfl, rfl, fun published => ?_⟩
  exact absurd (published.image 2 (by decide) 12 rfl) (by decide)

end Voxen.Gfx.GraphResources
