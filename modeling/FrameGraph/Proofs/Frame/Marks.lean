import FrameGraph.Proofs.Frame.Execution
import FrameGraph.Proofs.Frame.Recorded
import FrameGraph.Proofs.Graph.Lifetimes
import FrameGraph.Proofs.Memory.Owners

/-!
# The image barriers of a frame

A `Mark` is an image barrier as it is recorded, together with the resource that it is for.  The marks of
a resource lead from the layout in which it enters the frame to that in which it leaves: so the first
starts from the entry layout, every other starts where the one before ended, and the last ends in the
exit layout.  What holds of the marks for a resource holds of those on its image, because no other
resource of the graph is behind it.

Principal statements: `Graph.oldLayout_of_first`, `Graph.oldLayout_of_last`, `Graph.newLayout_of_marks`
and `Graph.exists_mark_of_created`.
-/

set_option autoImplicit false

namespace FrameGraph

/-! ## Following a list of barriers -/

namespace Layout

/-- Barriers that can be followed end in the new layout of the last. -/
theorem eq_of_follow {l l' : Layout} {bs : List ImageMemoryBarrier} (h : l.follow bs = some l') :
    l' = (bs.getLast?.map (·.newLayout)).getD l := by
  induction bs generalizing l with
  | nil =>
      cases h
      rfl
  | cons b bs ih =>
      rw [follow] at h
      split at h
      · rw [ih h, List.getLast?_cons]
        cases bs.getLast? <;> rfl
      · cases h

/-- A barrier that is followed leads away from where those before it end. -/
theorem oldLayout_of_follow {l l' : Layout} {before after : List ImageMemoryBarrier}
    {b : ImageMemoryBarrier} (h : l.follow (before ++ b :: after) = some l') :
    b.oldLayout = (before.getLast?.map (·.newLayout)).getD l := by
  rw [follow_append] at h
  obtain ⟨middle, hmiddle, hrest⟩ := Option.bind_eq_some_iff.1 h
  rw [← eq_of_follow hmiddle]
  rw [follow] at hrest
  split at hrest
  · assumption
  · cases hrest

end Layout

/-! ## Marks -/

/-- An image barrier of a frame, with the resource that it was recorded for. -/
structure Mark where
  input : FrameInput
  resource : Handle
  barrier : ImageMemoryBarrier

namespace Mark

/-- The resource is handed in. -/
def isImported (m : Mark) : Bool := (m.input.registry.get? m.resource).any Resource.isImported

/-- The resource is kept from frame to frame. -/
def isPersistent (m : Mark) : Bool := (m.input.registry.get? m.resource).any Resource.isPersistent

/-- The layout of the last use that the plan of the frame makes of the resource. -/
def left (m : Mark) : Layout := layoutAfter .undefined ((m.input.table.get? m.resource).getD [])

/-- The last of some marks on an image. -/
def lastOn (image : Nat) (marks : List Mark) : Option Mark :=
  (marks.filter fun m => m.barrier.image = image).getLast?

/-- The barriers of some marks that are for one resource. -/
def barriersFor (h : Handle) (marks : List Mark) : List ImageMemoryBarrier :=
  (marks.filter fun m => m.resource = h).map (·.barrier)

theorem lastOn_append (image : Nat) (marks more : List Mark) :
    lastOn image (marks ++ more) = (lastOn image more).or (lastOn image marks) := by
  rw [lastOn, List.filter_append, List.getLast?_append]
  rfl

theorem of_lastOn {image : Nat} {marks : List Mark} {m : Mark} (h : lastOn image marks = some m) :
    m ∈ marks ∧ m.barrier.image = image := by
  obtain ⟨hmem, himage⟩ := List.mem_filter.1 (List.mem_of_getLast? h)
  exact ⟨hmem, of_decide_eq_true himage⟩

theorem exists_lastOn {image : Nat} {marks : List Mark} {m : Mark} (hm : m ∈ marks)
    (himage : m.barrier.image = image) : ∃ last, lastOn image marks = some last := by
  have hne : marks.filter (fun m => m.barrier.image = image) ≠ [] :=
    List.ne_nil_of_mem (List.mem_filter.2 ⟨hm, decide_eq_true himage⟩)
  exact ⟨_, List.getLast?_eq_some_getLast hne⟩

theorem barriersFor_append (h : Handle) (marks more : List Mark) :
    barriersFor h (marks ++ more) = barriersFor h marks ++ barriersFor h more := by
  rw [barriersFor, List.filter_append, List.map_append]
  rfl

theorem barriersFor_cons_self (m : Mark) (marks : List Mark) :
    barriersFor m.resource (m :: marks) = m.barrier :: barriersFor m.resource marks := by
  simp [barriersFor]

/-- If the marks for a resource are on one image, and the last mark on this image is for the resource,
then it is the last for the resource. -/
theorem getLast?_barriersFor {image : Nat} {marks : List Mark} {m : Mark}
    (hlast : lastOn image marks = some m)
    (hall : ∀ x ∈ marks, x.resource = m.resource → x.barrier.image = image) :
    (barriersFor m.resource marks).getLast? = some m.barrier := by
  induction marks using List.reverseRecOn with
  | nil => cases hlast
  | append_singleton marks x ih =>
      rw [lastOn_append] at hlast
      rw [barriersFor_append, List.getLast?_append]
      by_cases hx : x.resource = m.resource
      · have himage := hall x (List.mem_append_right _ List.mem_cons_self) hx
        obtain rfl : x = m := by simpa [lastOn, himage] using hlast
        simp [barriersFor]
      · have himage : x.barrier.image ≠ image := by
          intro himage
          have hxm : x = m := by simpa [lastOn, himage] using hlast
          exact hx (congrArg Mark.resource hxm)
        have hrest : lastOn image marks = some m := by simpa [lastOn, himage] using hlast
        have hnone : (barriersFor m.resource [x]).getLast? = none := by simp [barriersFor, hx]
        rw [hnone, Option.none_or]
        exact ih hrest fun y hy => hall y (List.mem_append_left _ hy)

end Mark

/-- The image barriers of a moment. -/
def Moment.marks (input : FrameInput) : Moment → List Mark
  | .barriers images _ => images.map fun x => ⟨input, x.1, x.2⟩
  | .pass _ _ => []

/-- The image barriers that are recorded along an order. -/
def FrameInput.marks (input : FrameInput) (order : List Nat) : List Mark :=
  (input.momentsFrom 0 order).flatMap (Moment.marks input)

/-- A mark is of a moment of barriers. -/
theorem FrameInput.exists_moment_of_mem_marks {input : FrameInput} {order : List Nat} {m : Mark}
    (hm : m ∈ input.marks order) : m.input = input ∧ ∃ images buffers,
      .barriers images buffers ∈ input.momentsFrom 0 order ∧ (m.resource, m.barrier) ∈ images := by
  obtain ⟨moment, hmoment, hmark⟩ := List.mem_flatMap.1 hm
  cases moment with
  | barriers images buffers =>
      obtain ⟨x, hx, rfl⟩ := List.mem_map.1 hmark
      exact ⟨rfl, images, buffers, hmoment, hx⟩
  | pass position pass => cases hmark

/-- A mark is on the image behind its resource. -/
theorem FrameInput.image_of_mem_marks {input : FrameInput} {order : List Nat} {m : Mark}
    (hm : m ∈ input.marks order) :
    (m.input.frame.objects.get? m.resource).bind DeviceObject.image? = some m.barrier.image := by
  obtain ⟨hinput, images, buffers, hmoment, hmem⟩ := exists_moment_of_mem_marks hm
  rw [hinput]
  obtain ⟨pass, hb | hb⟩ := exists_around_of_mem_momentsFrom hmoment
  · exact image_of_barrierMoment hb hmem
  · exact image_of_barrierMoment hb hmem

/-- What is recorded for a resource was planned for it. -/
theorem FrameInput.on_ne_nil_of_mem {input : FrameInput} {b : Barriers}
    {images : List (Handle × ImageMemoryBarrier)} {buffers : List (Handle × BufferMemoryBarrier)}
    (hb : .barriers images buffers = input.barrierMoment b) {x : Handle × ImageMemoryBarrier}
    (hx : x ∈ images) : b.on x.1 ≠ [] := by
  intro hnil
  have hon := barriersOn_barrierMoment input.frame b x.1
  rw [barrierMoment] at hb
  obtain ⟨rfl, -⟩ := Moment.barriers.inj hb
  have hmem : x.2 ∈ barriersOn x.1 _ :=
    List.mem_map_of_mem (List.mem_filter.2 ⟨hx, decide_eq_true rfl⟩)
  rw [hon, hnil] at hmem
  cases hmem

/-- A resource that goes from one layout to another along a stream is led there by its marks. -/
theorem LayoutsChain.follow {input : FrameInput} {h : Handle} {l final : Layout}
    {stream : List Moment} (hchain : LayoutsChain input h l stream final) :
    l.follow (Mark.barriersFor h (stream.flatMap (Moment.marks input))) = some final := by
  induction hchain with
  | done l => rfl
  | @barriers l l' final images buffers rest hfollow _ ih =>
      have hmoment : Mark.barriersFor h (Moment.marks input (.barriers images buffers)) =
          barriersOn h images := by
        rw [Mark.barriersFor, Moment.marks, List.filter_map, List.map_map]
        rfl
      rw [List.flatMap_cons, Mark.barriersFor_append, Layout.follow_append, hmoment, hfollow]
      exact ih
  | pass _ _ ih => exact ih

/-! ## The marks of a frame -/

namespace Graph

variable {g : Graph} {index : Nat} {r : Resolution} {m : Mark} {resource : Resource}
  {timeline : Timeline}

/-- The image barriers of a frame. -/
def frameMarks (g : Graph) (index : Nat) (r : Resolution) : List Mark :=
  (g.frame index r).marks g.upToDate.plan.order

/-- The layout in which a resource enters a frame. -/
def entryLayout (g : Graph) (r : Resolution) (resource : Resource) (timeline : Timeline) : Layout :=
  resource.entryLayout timeline
    (decide (r.backings.get? resource.name ≠ g.backings.get? resource.name))

/-- What a mark of a frame is about: an image of the frame, behind a resource of the plan. -/
structure IsMark (g : Graph) (index : Nat) (r : Resolution) (m : Mark) (resource : Resource)
    (timeline : Timeline) : Prop where
  input : m.input = g.frame index r
  live : g.upToDate.registry.get? m.resource = some resource
  kind : resource.kind = .image
  table : g.upToDate.plan.table.get? m.resource = some timeline
  image : (r.frame.objects.get? m.resource).bind DeviceObject.image? = some m.barrier.image

namespace IsMark

variable (hm : g.IsMark index r m resource timeline)

include hm

theorem get?_registry : m.input.registry.get? m.resource = some resource := by
  rw [hm.input]
  exact hm.live

theorem isPersistent_eq : m.isPersistent = resource.isPersistent := by
  rw [Mark.isPersistent, hm.get?_registry, Option.any_some]

theorem isImported_eq : m.isImported = resource.isImported := by
  rw [Mark.isImported, hm.get?_registry, Option.any_some]

theorem left_eq : m.left = layoutAfter .undefined timeline := by
  have htable : m.input.table.get? m.resource = some timeline := by
    rw [hm.input]
    exact hm.table
  rw [Mark.left, htable, Option.getD_some]

end IsMark

/-- An image that is kept enters a frame in the layout of its last use, and a new one without content. -/
theorem entryLayout_of_persistent (g : Graph) (r : Resolution)
    (hpersistent : resource.isPersistent = true) (timeline : Timeline) :
    g.entryLayout r resource timeline =
      if r.backings.get? resource.name = g.backings.get? resource.name then
        layoutAfter .undefined timeline
      else .undefined := by
  unfold entryLayout Resource.entryLayout
  rw [of_decide_eq_true hpersistent]
  split <;> simp_all

/-- What the graph owns leaves a frame in the layout of its last use. -/
theorem exitLayout_of_owned (himported : resource.isImported = false) (timeline : Timeline) :
    resource.exitLayout timeline = layoutAfter .undefined timeline := by
  unfold Resource.exitLayout Resource.handover?
  cases hsource : resource.source with
  | imported object handover =>
      rw [Resource.isImported, hsource] at himported
      cases himported
  | internal persistent => rfl

/-- No image is left in the undefined layout. -/
theorem layoutAfter_ne_undefined (hg : g.Reachable) {h : Handle}
    (hget : g.upToDate.registry.get? h = some resource) (hkind : resource.kind = .image)
    (htable : g.upToDate.plan.table.get? h = some timeline) :
    layoutAfter .undefined timeline ≠ .undefined := by
  obtain ⟨registry, planned, hd, -, hr, houtline⟩ := hg.exists_planned hget htable
  have hkind' : planned.kind = .image := (Resource.kind_of_outline houtline).trans hkind
  obtain ⟨last, hlast⟩ : ∃ last, timeline.getLast? = some last :=
    ⟨_, List.getLast?_eq_some_getLast hr.used⟩
  have hmem := List.mem_of_getLast? hlast
  rw [← hr.timeline_eq, hkind'] at hmem
  rw [layoutAfter, hlast]
  exact layout_of_mem_timelineOf_image hd hr.live hkind' hmem

section Frame

variable (hg : g.Reachable)
  (hok : (resolveFrame index g.upToDate.registry g.upToDate.plan.table
    (g.resolution index)).result = .ok r)

include hg hok

/-- **Every mark of a frame is on the image behind a resource of the plan.** -/
theorem exists_isMark (hm : m ∈ g.frameMarks index r) :
    ∃ resource timeline, g.IsMark index r m resource timeline := by
  obtain ⟨hinput, images, buffers, hmoment, hmem⟩ := FrameInput.exists_moment_of_mem_marks hm
  obtain ⟨pass, hcases⟩ := FrameInput.exists_around_of_mem_momentsFrom hmoment
  have himage := FrameInput.image_of_mem_marks hm
  rw [hinput] at himage
  obtain ⟨hsound, hcompiled⟩ := hg.isSound.upToDate
  obtain ⟨registry, -, hsame, hplan⟩ := hsound.planned hcompiled
  have hbarriers : (g.frame index r).barriers =
      compiledAlong g.upToDate.plan.order g.upToDate.passes registry := hplan.barriers
  rw [hbarriers] at hcases
  cases htable : g.upToDate.plan.table.get? m.resource with
  | none =>
      rw [hplan.table] at htable
      obtain ⟨hbefore, hafter⟩ := on_compiled_of_unused hplan.nodup htable pass
      rcases hcases with hb | hb
      · exact absurd hbefore (FrameInput.on_ne_nil_of_mem hb hmem)
      · exact absurd hafter (FrameInput.on_ne_nil_of_mem hb hmem)
  | some timeline =>
      obtain ⟨planned, hr⟩ := exists_onTimeline (hplan.table ▸ htable)
      obtain ⟨resource, hget, -⟩ := hsame.symm.exists_live hr.live
      obtain ⟨object, hobject, hnumber⟩ := Option.bind_eq_some_iff.1 himage
      have hkind := hg.kind_object hok hget hobject
      rw [(DeviceObject.of_image? hnumber).1] at hkind
      exact ⟨resource, timeline, hinput, hget, hkind.symm, htable, himage⟩

/-- Marks for the same resource are on the same image. -/
theorem image_eq_of_resource {x : Mark} (hm : m ∈ g.frameMarks index r)
    (hx : x ∈ g.frameMarks index r) (hsame : x.resource = m.resource) :
    x.barrier.image = m.barrier.image := by
  obtain ⟨_, _, hmark⟩ := exists_isMark hg hok hm
  obtain ⟨_, _, hmark'⟩ := exists_isMark hg hok hx
  have himage := hmark'.image
  rw [hsame, hmark.image] at himage
  exact (Option.some.inj himage).symm

/-- The marks for a resource lead from the layout in which it enters the frame to that in which it
leaves. -/
theorem follow_frameMarks {h : Handle} {image : Nat}
    (hget : g.upToDate.registry.get? h = some resource) (hkind : resource.kind = .image)
    (htable : g.upToDate.plan.table.get? h = some timeline)
    (himage : (r.frame.objects.get? h).bind DeviceObject.image? = some image) :
    (g.entryLayout r resource timeline).follow (Mark.barriersFor h (g.frameMarks index r)) =
      some (resource.exitLayout timeline) :=
  (layoutsChain_frame hg hok hget hkind htable himage).follow

/-- **A mark leads away from where the mark before it ended**, and the first for a resource from the
layout in which it enters. -/
theorem oldLayout_of_marks (hm : g.IsMark index r m resource timeline) {before after : List Mark}
    (hsplit : g.frameMarks index r = before ++ m :: after) :
    m.barrier.oldLayout = ((Mark.barriersFor m.resource before).getLast?.map (·.newLayout)).getD
      (g.entryLayout r resource timeline) := by
  have hfollow := follow_frameMarks hg hok hm.live hm.kind hm.table hm.image
  rw [hsplit, Mark.barriersFor_append, Mark.barriersFor_cons_self] at hfollow
  exact Layout.oldLayout_of_follow hfollow

/-- Within a frame no other resource of the graph is behind the image of a persistent one, so a mark
leads away from where the last mark on the image ended. -/
theorem oldLayout_of_last (hm : g.IsMark index r m resource timeline)
    (hpersistent : resource.isPersistent = true) {before after : List Mark}
    (hsplit : g.frameMarks index r = before ++ m :: after) {previous : Mark}
    (hlast : Mark.lastOn m.barrier.image before = some previous)
    (hown : previous.isImported = false) :
    m.barrier.oldLayout = previous.barrier.newLayout := by
  have hmem : m ∈ g.frameMarks index r := hsplit ▸ List.mem_append_right _ List.mem_cons_self
  have hearlier : ∀ x ∈ before, x ∈ g.frameMarks index r := fun x hx =>
    hsplit ▸ List.mem_append_left _ hx
  obtain ⟨hprevious, hsame⟩ := Mark.of_lastOn hlast
  obtain ⟨other, timeline', hm'⟩ := exists_isMark hg hok (hearlier previous hprevious)
  obtain ⟨object, hobject, himage⟩ := Option.bind_eq_some_iff.1 hm.image
  obtain ⟨found, hfound, himage'⟩ := Option.bind_eq_some_iff.1 hm'.image
  rw [hm'.isImported_eq] at hown
  have hnumber : found.number = object.number := by
    rw [(DeviceObject.of_image? himage').2, (DeviceObject.of_image? himage).2, hsame]
  have hresource : previous.resource = m.resource :=
    eq_of_number hg hok hm.live hpersistent hobject hm'.live hown hfound hnumber
  have hend := Mark.getLast?_barriersFor hlast fun x hx heq =>
    image_eq_of_resource hg hok hmem (hearlier x hx) (heq.trans hresource)
  rw [oldLayout_of_marks hg hok hm hsplit, ← hresource, hend]
  rfl

/-- The first mark of a frame on an image leads away from the layout in which its resource enters. -/
theorem oldLayout_of_first (hm : g.IsMark index r m resource timeline) {before after : List Mark}
    (hsplit : g.frameMarks index r = before ++ m :: after)
    (hfirst : Mark.lastOn m.barrier.image before = none) :
    m.barrier.oldLayout = g.entryLayout r resource timeline := by
  have hmem : m ∈ g.frameMarks index r := hsplit ▸ List.mem_append_right _ List.mem_cons_self
  have hnone : Mark.barriersFor m.resource before = [] := by
    refine List.map_eq_nil_iff.2 (List.filter_eq_nil_iff.2 fun x hx heq => ?_)
    have hsame := image_eq_of_resource hg hok hmem (hsplit ▸ List.mem_append_left _ hx)
      (of_decide_eq_true heq)
    obtain ⟨last, hsome⟩ := Mark.exists_lastOn hx hsame
    cases hfirst.symm.trans hsome
  rw [oldLayout_of_marks hg hok hm hsplit, hnone]
  rfl

/-- **The last mark on an image ends in the layout in which its resource leaves the frame.** -/
theorem newLayout_of_marks (hm : g.IsMark index r m resource timeline)
    (hlast : Mark.lastOn m.barrier.image (g.frameMarks index r) = some m) :
    m.barrier.newLayout = resource.exitLayout timeline := by
  have hfollow := follow_frameMarks hg hok hm.live hm.kind hm.table hm.image
  have hend := Mark.getLast?_barriersFor hlast fun x hx hsame =>
    image_eq_of_resource hg hok (Mark.of_lastOn hlast).1 hx hsame
  rw [Layout.eq_of_follow hfollow, hend]
  rfl

/-- **An image that is created in a frame gets a mark in it.** -/
theorem exists_mark_of_created {h : Handle} (hget : g.upToDate.registry.get? h = some resource)
    (hpersistent : resource.isPersistent = true) (hused : resource.lifetime.isSome = true)
    (hcreated : h ∈ r.frame.created) {object : DeviceObject}
    (hobject : r.frame.objects.get? h = some object) {image : Nat}
    (himage : object.image? = some image) : ∃ m ∈ g.frameMarks index r, m.barrier.image = image := by
  obtain ⟨lifetime, hlifetime⟩ := Option.isSome_iff_exists.1 hused
  obtain ⟨timeline, htable, -⟩ :=
    hg.upToDate.exists_timeline hg.isSound.upToDate.2 hget hlifetime
  have hkind := hg.kind_object hok hget hobject
  rw [(DeviceObject.of_image? himage).1] at hkind
  have hbehind : (r.frame.objects.get? h).bind DeviceObject.image? = some image := by
    rw [hobject]
    exact himage
  cases hmarks : Mark.barriersFor h (g.frameMarks index r) with
  | nil =>
      -- Without a mark, the image would stay in the layout in which it enters.
      have hfollow := follow_frameMarks hg hok hget hkind.symm htable hbehind
      have himported : resource.isImported = false := by
        rw [Resource.isImported, of_decide_eq_true hpersistent]
      rw [hmarks, entryLayout_of_persistent g r hpersistent,
        if_neg ((hg.mem_created_iff hok hget hpersistent hobject).1 hcreated),
        exitLayout_of_owned himported] at hfollow
      exact absurd (Option.some.inj hfollow).symm (layoutAfter_ne_undefined hg hget hkind.symm htable)
  | cons b bs =>
      have hb : b ∈ Mark.barriersFor h (g.frameMarks index r) := by
        rw [hmarks]
        exact List.mem_cons_self
      obtain ⟨m, hm, rfl⟩ := List.mem_map.1 hb
      obtain ⟨hmem, hresource⟩ := List.mem_filter.1 hm
      obtain ⟨_, _, hmark⟩ := exists_isMark hg hok hmem
      refine ⟨m, hmem, ?_⟩
      have hfound := hmark.image
      rw [of_decide_eq_true hresource, hbehind] at hfound
      exact (Option.some.inj hfound).symm

end Frame

end Graph

end FrameGraph
