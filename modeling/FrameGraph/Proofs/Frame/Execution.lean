import FrameGraph.Proofs.Frame.Layouts
import FrameGraph.Proofs.Memory.Reachable

/-!
# The layouts of an executed frame

The plan, the resolved resources and the recorded stream of a frame come together: in every frame of
every graph, the barriers on an image lead from the layout in which it enters to that in which it
leaves, and each pass that runs finds it in the layout of its use.  Whether a persistent image enters
without content is seen from outside: it does if the store knows another backing for it than before.

Principal statements: `Graph.Reachable.mem_created_iff` and `Graph.Reachable.layouts_chain`.
-/

set_option autoImplicit false

namespace FrameGraph

/-! ## New backings -/

namespace Graph

variable {g : Graph} {h : Handle} {resource : Resource}

/-- Compiling keeps the backings that are declared in the same way. -/
theorem get?_backings_upToDate (hg : g.Reachable)
    (hget : g.upToDate.registry.get? h = some resource)
    (hpersistent : resource.isPersistent = true) {backing : Backing}
    (hinfo : backing.info = resource.info) :
    g.upToDate.backings.get? resource.name = some backing ↔
      g.backings.get? resource.name = some backing := by
  have hnamed := hg.isSound.upToDate.1.declared.wellFormed.named?_eq hget
  unfold upToDate at hnamed ⊢
  split
  · exact .rfl
  · next hcompiled =>
      rw [if_neg hcompiled] at hnamed
      have hcompile : g.compile.value.backings.get? resource.name =
          (g.backings.get? resource.name).filter
            (Backings.isDeclared g.compile.value.registry resource.name) :=
        hg.holdings.names.get?_releaseStale g.compile.value.registry g.device _
      have hdeclared :
          Backings.isDeclared g.compile.value.registry resource.name backing = true := by
        rw [Backings.isDeclared, hnamed]
        simp [hpersistent, hinfo]
      rw [hcompile, Option.filter_eq_some_iff]
      exact and_iff_left hdeclared

/-- **A persistent resource was created in a frame exactly if the store knows another backing under
its name than before.** -/
theorem Reachable.mem_created_iff (hg : g.Reachable) {index : Nat} {r : Resolution}
    (hok : (resolveFrame index g.upToDate.registry g.upToDate.plan.table
      (g.resolution index)).result = .ok r)
    (hget : g.upToDate.registry.get? h = some resource)
    (hpersistent : resource.isPersistent = true) {object : DeviceObject}
    (hobject : r.frame.objects.get? h = some object) :
    h ∈ r.frame.created ↔
      r.backings.get? resource.name ≠ g.backings.get? resource.name := by
  have hwellFormed := hg.isSound.upToDate.1.declared.wellFormed
  have hsame : ∀ backing : Backing, backing.info = resource.info →
      ((g.resolution index).backings.get? resource.name = some backing ↔
        g.backings.get? resource.name = some backing) :=
    fun backing hinfo => get?_backings_upToDate hg hget hpersistent hinfo
  cases backs_resolveFrame hwellFormed hget hpersistent rfl hok with
  | kept backing hcreated hkept hbacking hinfo _ =>
      refine ⟨fun hmem => absurd hmem hcreated, fun hne => absurd ?_ hne⟩
      rw [hkept, hbacking, (hsame backing hinfo).1 hbacking]
  | created backing hcreated hdiffer hbacking hinfo _ =>
      refine ⟨fun _ heq => ?_, fun _ => hcreated⟩
      rw [hbacking] at heq
      exact hdiffer backing ((hsame backing hinfo).2 heq.symm) hinfo
  | missing hnone _ =>
      rw [hnone] at hobject
      cases hobject

end Graph

/-! ## The whole frame -/

/-- Only a persistent resource asks whether its backing is new. -/
theorem Resource.entryLayout_congr {resource : Resource} {a b : Bool}
    (h : resource.isPersistent = true → a = b) (timeline : Timeline) :
    resource.entryLayout timeline a = resource.entryLayout timeline b := by
  unfold entryLayout
  cases hsource : resource.source with
  | imported object handover => rfl
  | internal persistent =>
      cases persistent with
      | false => rfl
      | true =>
          have hpersistent : resource.isPersistent = true := by
            rw [isPersistent, hsource]
            rfl
          rw [h hpersistent]

namespace Graph

variable {g g' : Graph}

/-- The layouts of one image chain through a frame. -/
theorem layoutsChain_frame (hg : g.Reachable) {index : Nat} {r : Resolution}
    (hok : (resolveFrame index g.upToDate.registry g.upToDate.plan.table
      (g.resolution index)).result = .ok r)
    {h : Handle} {resource : Resource} {timeline : Timeline} {image : Nat}
    (hget : g.upToDate.registry.get? h = some resource) (hkind : resource.kind = .image)
    (htable : g.upToDate.plan.table.get? h = some timeline)
    (himage : (r.frame.objects.get? h).bind DeviceObject.image? = some image) :
    LayoutsChain (g.frame index r) h
      (resource.entryLayout timeline
        (decide (r.backings.get? resource.name ≠ g.backings.get? resource.name)))
      ((g.frame index r).momentsFrom 0 g.upToDate.plan.order) (resource.exitLayout timeline) := by
  obtain ⟨hsound, hcompiled⟩ := hg.isSound.upToDate
  obtain ⟨registry, -, hsame, hplan⟩ := hsound.planned hcompiled
  -- The plan was made for a resource of the same outline.
  obtain ⟨planned, hplanned, houtline⟩ := hsame.exists_live hget
  rw [hplan.table] at htable
  obtain ⟨found, hr⟩ := exists_onTimeline htable
  obtain rfl : found = planned := Option.some.inj (hr.live.symm.trans hplanned)
  have hchain : LayoutsChain (g.frame index r) h _ _ _ :=
    hr.layoutsChain_momentsFrom hplan.nodup ((Resource.kind_of_outline houtline).trans hkind) rfl
      hplan.table hplan.barriers himage (parted_start _ _)
  rw [if_neg hr.used, Resource.exitLayout_of_outline houtline] at hchain
  have hnew : found.entryLayout timeline (r.frame.created.contains h) =
      found.entryLayout timeline
        (decide (r.backings.get? resource.name ≠ g.backings.get? resource.name)) := by
    refine Resource.entryLayout_congr (fun hpersistent => ?_) timeline
    obtain ⟨object, hobject, -⟩ := Option.bind_eq_some_iff.1 himage
    have hcreated := hg.mem_created_iff hok hget
      ((Resource.isPersistent_of_outline houtline).symm.trans hpersistent) hobject
    rw [Bool.eq_iff_iff, List.contains_iff_mem, hcreated, decide_eq_true_eq]
  rw [← Resource.entryLayout_of_outline houtline, ← hnew]
  exact hchain

/-- **The layouts of every image chain through every frame.**  The commands and the callbacks of a
frame are those of a stream of moments, in which each barrier is one on the image of its resource and
each pass stands at its position of the plan.  Along this stream, every image of a used resource goes
from its entry layout to its exit layout. -/
theorem Reachable.layouts_chain (hg : g.Reachable) {index : Nat}
    (hindex : index < g.settings.framesInFlight) {ran : List Invocation}
    (hrun : (g.execute index).result = .ok (ran, g')) :
    ∃ frame : FrameObjects, frame.objects = g'.objects ∧
      let input := g'.frameInput index frame
      let stream := input.momentsFrom 0 g'.plan.order
      g'.device.commands = g.device.commands ++ stream.flatMap (Moment.commands input) ∧
      ran = stream.flatMap (Moment.invocations input) ∧
      (∀ images buffers, .barriers images buffers ∈ stream → ∀ x ∈ images,
        (g'.objects.get? x.1).bind DeviceObject.image? = some x.2.image) ∧
      (∀ position pass, .pass position pass ∈ stream → g'.plan.order[position]? = some pass) ∧
      ∀ (h : Handle) (resource : Resource) (timeline : Timeline) (image : Nat),
        g'.registry.get? h = some resource → resource.kind = .image →
          g'.plan.table.get? h = some timeline →
          (g'.objects.get? h).bind DeviceObject.image? = some image →
          LayoutsChain input h
            (resource.entryLayout timeline
              (decide (g'.backings.get? resource.name ≠ g.backings.get? resource.name)))
            stream (resource.exitLayout timeline) := by
  obtain ⟨r, hok, rfl, rfl⟩ := (execute_eq_ok_iff hindex).1 hrun
  have hstream := (g.frame index r).stream_record g.upToDate.states g.upToDate.plan.order
  have hplaced : ∀ moment ∈ (g.frame index r).momentsFrom ([] : List Nat).length g.upToDate.plan.order,
      (∃ b, moment = (g.frame index r).barrierMoment b) ∨ ∃ position pass,
        moment = .pass position pass ∧ ([] ++ g.upToDate.plan.order)[position]? = some pass :=
    fun _ hmem => FrameInput.mem_momentsFrom hmem
  refine ⟨r.frame, rfl, ?_, hstream.2, ?_, ?_, ?_⟩
  · show r.device.commands ++ (g.frameRun index r).commands = _
    rw [(settles_frame hg.holdings hok).commands]
    exact congrArg (g.device.commands ++ ·) hstream.1
  · intro images buffers hmem x hx
    obtain ⟨b, hb⟩ | ⟨position, pass, heq, -⟩ := hplaced _ hmem
    · exact FrameInput.image_of_barrierMoment hb hx
    · cases heq
  · intro position pass hmem
    obtain ⟨b, hb⟩ | ⟨position', pass', heq, hplace⟩ := hplaced _ hmem
    · cases hb
    · cases heq
      exact hplace
  · intro h resource timeline image hget hkind htable himage
    exact layoutsChain_frame hg hok hget hkind htable himage

end Graph

/-- The screen is handed over. -/
def screenImport : Registry.Operation :=
  .importImage "screen" 1 2 (.flat 4 4 .b8g8r8a8Srgb ImageUsage.colorAttachment) .present .present

/-- A pass that draws on the screen. -/
def drawPass : PassDeclaration :=
  ⟨"draw", .graphics .azure, [.write "screen" .colorAttachment], none⟩

/-- A graph with nothing but the screen and the pass. -/
def drawn : Graph := (((Graph.empty {} {}).register screenImport).value.2.addPass drawPass).value.2

theorem reachable_drawn : drawn.Reachable :=
  .perform (.addPass drawPass) (.perform (.register screenImport) (.start {} {}) rfl) rfl

/-- On its way through the frame, the screen comes back to where it was. -/
theorem layouts_chain_drawn :
    ∃ (ran : List Invocation) (g' : Graph) (frame : FrameObjects),
      (drawn.execute 0).result = .ok (ran, g') ∧ frame.objects = g'.objects ∧
        LayoutsChain (g'.frameInput 0 frame) (.slot 0 0) .presentSrc
          ((g'.frameInput 0 frame).momentsFrom 0 g'.plan.order) .presentSrc := by
  have hindex : 0 < drawn.settings.framesInFlight := by decide
  have hframe : (drawn.execute 0).result.toOption.map
      (fun x => (x.2.registry.get? (.slot 0 0), x.2.plan.table.get? (.slot 0 0),
        (x.2.objects.get? (.slot 0 0)).bind DeviceObject.image?)) =
      some (some ⟨"screen", .image (.flat 4 4 .b8g8r8a8Srgb ImageUsage.colorAttachment),
          .imported (.image 1 2) ⟨.present, .present⟩, true, some ⟨0, 0⟩⟩,
        some [⟨0, 0, .colorAttachment, false, true, ⟨Stage.colorAttachmentOutput,
          Access.colorAttachmentWrite, .colorAttachment⟩⟩], some 1) := by
    decide +kernel
  cases hrun : (drawn.execute 0).result with
  | error fault =>
      rw [hrun] at hframe
      cases hframe
  | ok pair =>
      obtain ⟨ran, g'⟩ := pair
      rw [hrun] at hframe
      obtain ⟨hresource, hrest⟩ := Prod.mk.inj (Option.some.inj hframe)
      obtain ⟨htimeline, himage⟩ := Prod.mk.inj hrest
      obtain ⟨frame, hobjects, -, -, -, -, hchain⟩ := reachable_drawn.layouts_chain hindex hrun
      exact ⟨ran, g', frame, rfl, hobjects, hchain _ _ _ 1 hresource rfl htimeline himage⟩

end FrameGraph
