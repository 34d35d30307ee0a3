import FrameGraph.Proofs.Barrier.Coverage
import FrameGraph.Proofs.Frame.Backing
import FrameGraph.Proofs.Frame.Trace
import FrameGraph.Proofs.Graph.Reachable

/-!
# The layouts of an image along a frame

Every barrier that is recorded for an image leads away from the layout that the image is in, and
every pass finds the image in the layout that it requires.  The plan alone does not show this: the
first barrier is rewritten when the frame is recorded, barriers without effect are gone, and passes are
skipped when resources are missing.

Principal statements: `OnTimeline.follow_before` and `OnTimeline.follow_after` — the barriers around one
pass —, `OnTimeline.parted_next` — where the walk along the uses stands after a pass — and
`OnTimeline.layoutsChain_momentsFrom`.
-/

set_option autoImplicit false

namespace FrameGraph

/-! ## Following the layout of an image -/

/-- The layout in which barriers leave an image, if each of them leads away from the layout that the
image is in. -/
def Layout.follow (l : Layout) : List ImageMemoryBarrier → Option Layout
  | [] => some l
  | b :: rest => if b.oldLayout = l then b.newLayout.follow rest else none

theorem Layout.follow_append (l : Layout) (bs cs : List ImageMemoryBarrier) :
    l.follow (bs ++ cs) = (l.follow bs).bind fun l' => l'.follow cs := by
  induction bs generalizing l with
  | nil => rfl
  | cons b bs ih =>
      rw [List.cons_append, follow, follow]
      split
      · exact ih b.newLayout
      · rfl

/-- The barriers on the image of a resource. -/
def barriersOn (h : Handle) (images : List (Handle × ImageMemoryBarrier)) :
    List ImageMemoryBarrier :=
  (images.filter fun x => x.1 = h).map (·.2)

/-- A resource goes from one layout to another along a stream: each of its barriers leads away from the
layout that it is in, and a pass that runs finds it in the layout of its use. -/
inductive LayoutsChain (input : FrameInput) (h : Handle) : Layout → List Moment → Layout → Prop
  | done (l : Layout) : LayoutsChain input h l [] l
  | barriers {l l' final : Layout} {images : List (Handle × ImageMemoryBarrier)}
      {buffers : List (Handle × BufferMemoryBarrier)} {rest : List Moment} :
      l.follow (barriersOn h images) = some l' → LayoutsChain input h l' rest final →
        LayoutsChain input h l (.barriers images buffers :: rest) final
  | pass {l final : Layout} {position i : Nat} {rest : List Moment} :
      ((input.passes.getD i default).involves h = true →
        ∃ u, input.table.useAt? h position = some u ∧ u.state.layout = l) →
      LayoutsChain input h l rest final →
        LayoutsChain input h l (.pass position i :: rest) final

/-- The barriers of a list as they are recorded for an image. -/
def recordedOn (frame : FrameObjects) (barriers : List ResourceBarrier) :
    List ImageMemoryBarrier :=
  (barriers.filterMap ResourceBarrier.image?).filterMap fun b => (b.lowerIn frame).emitted?

theorem filterMap_image?_on (b : Barriers) (h : Handle) :
    (b.on h).filterMap ResourceBarrier.image? = b.images.filter fun x => x.resource = h := by
  have himages : ∀ l : List ImageBarrier,
      (l.map ResourceBarrier.image).filterMap ResourceBarrier.image? = l := by
    intro l
    rw [List.filterMap_map]
    exact List.filterMap_some
  have hbuffers : ∀ l : List BufferBarrier,
      (l.map ResourceBarrier.buffer).filterMap ResourceBarrier.image? = [] := by
    intro l
    rw [List.filterMap_map]
    exact List.filterMap_eq_nil_iff.2 fun _ _ => rfl
  rw [Barriers.on, List.filterMap_append, himages, hbuffers, List.append_nil]

/-- The barriers on an image among those recorded at one point. -/
theorem barriersOn_barrierMoment (frame : FrameObjects) (b : Barriers) (h : Handle) :
    barriersOn h
        (b.images.filterMap fun x => (x.lowerIn frame).emitted?.map fun y => (x.resource, y)) =
      recordedOn frame (b.on h) := by
  rw [recordedOn, filterMap_image?_on, barriersOn]
  induction b.images with
  | nil => rfl
  | cons x rest ih =>
      rw [List.filter_cons]
      cases hx : (x.lowerIn frame).emitted? with
      | none =>
          rw [List.filterMap_cons_none (by rw [hx]; rfl), ih]
          split
          · simp only [List.filterMap_cons, hx]
          · rfl
      | some y =>
          rw [List.filterMap_cons_some (by rw [hx]; rfl), List.filter_cons]
          split
          · simp only [List.filterMap_cons, hx, List.map_cons, ih]
          · exact ih

/-- The layout behind some uses of a resource. -/
def layoutAfter (l : Layout) (uses : List Use) : Layout :=
  (uses.getLast?.map (·.state.layout)).getD l

theorem layoutAfter_cons (l : Layout) (u : Use) (uses : List Use) :
    layoutAfter l (u :: uses) = layoutAfter u.state.layout uses := by
  cases uses with
  | nil => rfl
  | cons v uses => simp [layoutAfter, List.getLast?_cons]

theorem layoutAfter_concat (l : Layout) (uses : List Use) (u : Use) :
    layoutAfter l (uses ++ [u]) = u.state.layout := by
  simp [layoutAfter]

theorem layoutAfter_of_ne_nil {uses : List Use} (h : uses ≠ []) (l l' : Layout) :
    layoutAfter l uses = layoutAfter l' uses := by
  rw [layoutAfter, layoutAfter, List.getLast?_eq_some_getLast h]
  rfl

theorem layout_along (s : SyncState) (later uses : List Use) :
    (s.along later uses).layout = layoutAfter s.layout uses := by
  induction uses generalizing s with
  | nil => rfl
  | cons u uses ih => rw [SyncState.along, ih, SyncState.after_layout, layoutAfter_cons]

/-! ## The layouts at both ends -/

namespace Resource

/-- The layout in which a resource enters a frame; `isNew` says that its backing was created in the
frame. -/
def entryLayout (resource : Resource) (timeline : Timeline) (isNew : Bool) : Layout :=
  match resource.source with
  | .imported _ handover => handover.initial.layout
  | .internal false => .undefined
  | .internal true => if isNew then .undefined else layoutAfter .undefined timeline

/-- The layout in which a resource leaves a frame. -/
def exitLayout (resource : Resource) (timeline : Timeline) : Layout :=
  match resource.handover? with
  | some handover => handover.final.layout
  | none => layoutAfter .undefined timeline

/-- Unless its backing is new, a resource enters a frame as the plan takes it. -/
theorem entryLayout_of_not_new {resource : Resource} {isNew : Bool}
    (h : ¬(resource.isPersistent = true ∧ isNew = true)) (timeline : Timeline) :
    resource.entryLayout timeline isNew = (arrivalState resource timeline).layout := by
  unfold entryLayout arrivalState
  cases hsource : resource.source with
  | imported object handover => rfl
  | internal persistent =>
      cases persistent with
      | false => rfl
      | true =>
          have hpersistent : resource.isPersistent = true := by
            rw [isPersistent, hsource]
            rfl
          have hnew : isNew = false := Bool.eq_false_iff.2 fun hnew => h ⟨hpersistent, hnew⟩
          subst hnew
          show layoutAfter .undefined timeline = _
          rw [layoutAfter]
          cases timeline.getLast? <;> rfl

/-- Behind a use, or unless its backing is new, a resource is as the plan takes it. -/
theorem layoutAfter_entryLayout {resource : Resource} {isNew : Bool} {past : List Use}
    (h : past.isEmpty = false ∨ ¬(resource.isPersistent = true ∧ isNew = true))
    (timeline : Timeline) :
    layoutAfter (resource.entryLayout timeline isNew) past =
      layoutAfter (arrivalState resource timeline).layout past := by
  cases past with
  | cons u past => exact layoutAfter_of_ne_nil (List.cons_ne_nil u past) _ _
  | nil => exact entryLayout_of_not_new (h.resolve_left (by simp)) timeline

theorem entryLayout_of_outline {a b : Resource} (h : a.outline = b.outline) (timeline : Timeline)
    (isNew : Bool) : a.entryLayout timeline isNew = b.entryLayout timeline isNew := by
  have hsource : a.source.outline = b.source.outline := congrArg Resource.source h
  unfold entryLayout
  cases ha : a.source <;> cases hb : b.source <;> rw [ha, hb] at hsource <;> cases hsource <;> rfl

theorem exitLayout_of_outline {a b : Resource} (h : a.outline = b.outline) (timeline : Timeline) :
    a.exitLayout timeline = b.exitLayout timeline := by
  rw [exitLayout, exitLayout, handover?_of_outline h]

end Resource

/-! ## Recording one barrier -/

section Recording

variable {frame : FrameObjects} {h : Handle} {resource : Resource} {image : Nat}

theorem recordedOn_singleton (frame : FrameObjects) (b : ImageBarrier) :
    recordedOn frame [.image b] = (b.lowerIn frame).emitted?.toList := by
  have hrecorded : recordedOn frame [.image b] = [b].filterMap fun x => (x.lowerIn frame).emitted? :=
    rfl
  rw [hrecorded]
  cases hb : (b.lowerIn frame).emitted? <;> simp [hb]

/-- A barrier that is kept leads to its target, whatever is rewritten when it is recorded. -/
theorem follow_lowerIn (himage : (frame.objects.get? h).bind DeviceObject.image? = some image)
    {b : ImageBarrier} (hb : b.resource = h) {l : Layout}
    (hnew : b.continues = true → frame.created.contains h = true → l = .undefined)
    (hold : ¬(b.continues = true ∧ frame.created.contains h = true) → l = b.source.layout)
    (htakes : b.takesOver = true → b.source.layout = .undefined) :
    l.follow (recordedOn frame [.image b]) = some b.target.layout := by
  have hfollow : ∀ x : ImageMemoryBarrier, x.oldLayout = l → x.newLayout = b.target.layout →
      l.follow [x] = some b.target.layout := by
    intro x hx hnewLayout
    rw [Layout.follow, if_pos hx, hnewLayout]
    rfl
  rw [recordedOn_singleton]
  unfold ImageBarrier.lowerIn
  rw [hb, himage]
  dsimp only
  split
  · next hcreated =>
      rw [Bool.and_eq_true] at hcreated
      exact hfollow _ (hnew hcreated.1 hcreated.2).symm rfl
  · next hcreated =>
      rw [Bool.and_eq_true] at hcreated
      have hsource := hold hcreated
      split
      · next helided =>
          -- An elided barrier changes no layout.
          have hsame : b.source.layout = b.target.layout := by
            have hneeded : b.isNeeded = false := by simp_all
            simp [ImageBarrier.isNeeded] at hneeded
            exact hneeded.1.1
          rw [hsource, hsame]
          rfl
      · split
        · next previous htakesOver hprevious =>
            exact hfollow _ ((htakes htakesOver).symm.trans hsource.symm) rfl
        · exact hfollow _ hsource.symm rfl

/-- The same for a planned barrier, which is only kept if it has an effect. -/
theorem follow_barrierFor (hkind : resource.kind = .image)
    (himage : (frame.objects.get? h).bind DeviceObject.image? = some image) {isFirst : Bool}
    {t : Transition} {l : Layout}
    (hl : l = if isFirst && resource.isPersistent && frame.created.contains h then .undefined
      else t.source.layout)
    (htakes : isFirst = true → resource.isTransient = true → t.source.layout = .undefined) :
    l.follow (recordedOn frame
      ([barrierFor h resource isFirst t].filter ResourceBarrier.isEffective)) =
        some t.target.layout := by
  cases hinfo : resource.info with
  | buffer info =>
      rw [Resource.kind, hinfo] at hkind
      cases hkind
  | image info =>
      have hbarrier : barrierFor h resource isFirst t = .image
          { resource := h
            source := t.source
            target := t.target
            aspect := info.aspect
            continues := isFirst && resource.isPersistent
            takesOver := isFirst && resource.isTransient } := by
        rw [barrierFor, hinfo]
      rw [List.filter_cons]
      split
      · rw [hbarrier]
        refine follow_lowerIn himage rfl ?_ ?_ ?_
        · intro hcontinues hcreated
          have hcontinues' : (isFirst && resource.isPersistent) = true := hcontinues
          rw [hl, hcontinues', hcreated]
          rfl
        · intro hnot
          rw [hl, if_neg fun hboth => hnot ?_]
          rw [Bool.and_eq_true] at hboth
          exact hboth
        · intro htakesOver
          have htakesOver' : (isFirst && resource.isTransient) = true := htakesOver
          rw [Bool.and_eq_true] at htakesOver'
          exact htakes htakesOver'.1 htakesOver'.2
      · next hineffective =>
          rw [hbarrier] at hineffective
          have hnot : (isFirst && resource.isPersistent) = false ∧
              t.source.layout = t.target.layout := by
            simp [ResourceBarrier.isEffective, Mergeable.isPinned, Mergeable.hasEffect,
              ImageBarrier.isPinned, ImageBarrier.isNeeded] at hineffective
            simp_all
          rw [hl, hnot.1, Bool.false_and, if_neg Bool.false_ne_true, hnot.2]
          rfl

end Recording

/-! ## The barriers around one pass -/

section Plan

variable {order : List Nat} {passes : List Pass} {registry : Registry} {h : Handle}
  {resource : Resource} {timeline : Timeline}

namespace OnTimeline

variable (hr : OnTimeline order passes registry h resource timeline) (hnd : order.Nodup)

include hr hnd

variable {frame : FrameObjects} {image : Nat} (hkind : resource.kind = .image)
  (himage : (frame.objects.get? h).bind DeviceObject.image? = some image)

include hkind himage

/-- The barriers before a use lead from the layout behind the uses before it to its own. -/
theorem follow_before {past later : List Use} {u : Use} (hsplit : timeline = past ++ u :: later) :
    (layoutAfter (resource.entryLayout timeline (frame.created.contains h)) past).follow
      (recordedOn frame ((aroundPass (compiledAlong order passes registry) u.pass).before.on h)) =
        some u.state.layout := by
  have hlayout := layout_along (.arriving (arrivalState resource timeline)) (u :: later) past
  rw [SyncState.arriving_layout] at hlayout
  rw [hr.on_before_compiled hnd, hr.steps_at hnd hsplit]
  generalize hs : (SyncState.arriving (arrivalState resource timeline)).along (u :: later) past = s
  rw [hs] at hlayout
  have hentry : past.isEmpty = false ∨ ¬(resource.isPersistent = true ∧
      frame.created.contains h = true) →
      layoutAfter (resource.entryLayout timeline (frame.created.contains h)) past = s.layout := by
    intro hcases
    rw [hlayout, Resource.layoutAfter_entryLayout hcases]
  split
  · -- There is a barrier.
    rw [List.map_cons, List.map_nil]
    have htarget : (s.transition u later).target.layout = u.state.layout :=
      SyncState.layout_target u later
    rw [← htarget]
    refine follow_barrierFor hkind himage ?_ ?_
    · show _ = if _ then _ else s.source.layout
      rw [SyncState.source_layout]
      split
      · next hnew =>
          simp only [Bool.and_eq_true] at hnew
          obtain ⟨⟨hfirst, hpersistent⟩, hcreated⟩ := hnew
          rw [List.isEmpty_iff.1 hfirst]
          show resource.entryLayout timeline _ = _
          rw [Resource.entryLayout, of_decide_eq_true hpersistent, hcreated]
          rfl
      · next hnew =>
          refine hentry ?_
          cases hfirst : past.isEmpty with
          | false => exact .inl rfl
          | true =>
              refine .inr fun hboth => hnew ?_
              rw [hfirst, hboth.1, hboth.2]
              rfl
    · intro hfirst htransient
      show s.source.layout = _
      rw [SyncState.source_layout, hlayout, List.isEmpty_iff.1 hfirst]
      show (arrivalState resource timeline).layout = _
      rw [arrivalState, of_decide_eq_true htransient]
      rfl
  · -- There is none, so the image is in the layout of the use already.
    next hnone =>
      rw [Bool.or_eq_true, not_or] at hnone
      obtain ⟨hneeds, hfirst⟩ := hnone
      have hsame : u.state.layout = s.layout := by
        simp [SyncState.needs] at hneeds
        exact hneeds.1
      rw [hentry ?_, hsame]
      · rfl
      · cases hempty : past.isEmpty with
        | false => exact .inl rfl
        | true =>
            refine .inr fun hboth => hfirst ?_
            have himported : resource.isImported = false := by
              rw [Resource.isImported, of_decide_eq_true hboth.1]
            rw [hempty, himported]
            rfl

/-- The barriers after the last use lead from its layout to that in which the resource leaves. -/
theorem follow_after {past : List Use} {u : Use} (hsplit : timeline = past ++ [u]) :
    u.state.layout.follow
      (recordedOn frame ((aroundPass (compiledAlong order passes registry) u.pass).after.on h)) =
        some (resource.exitLayout timeline) := by
  have hlast : timeline.getLast? = some u := by rw [hsplit, List.getLast?_concat]
  have hlayout := layout_syncAfter resource hlast
  rw [hr.on_after_compiled hnd hlast, if_pos rfl]
  cases hhandover : resource.handover? with
  | none =>
      have hnone : handBack? resource (resource.syncAfter timeline) = none := by
        rw [handBack?, hhandover]
        rfl
      have hexit : resource.exitLayout timeline = u.state.layout := by
        rw [Resource.exitLayout, hhandover]
        show layoutAfter _ timeline = _
        rw [hsplit, layoutAfter_concat]
      rw [hnone, hexit]
      rfl
  | some handover =>
      have hexit : resource.exitLayout timeline = handover.final.layout := by
        rw [Resource.exitLayout, hhandover]
      rw [handBack?_of_handover hhandover, hexit]
      rcases (resource.syncAfter timeline).handBack?_cases handover.final with hsome | ⟨hnone, hsame⟩
      · rw [hsome]
        refine follow_barrierFor (t := ⟨_, handover.final⟩) hkind himage ?_ ?_
        · show _ = (resource.syncAfter timeline).source.layout
          rw [SyncState.source_layout, hlayout]
        · intro hfirst
          cases hfirst
      · rw [hnone, hsame, hlayout]
        rfl

end OnTimeline

end Plan

/-! ## Along the order -/

section Order

variable {order : List Nat} {passes : List Pass} {registry : Registry} {h : Handle}
  {resource : Resource} {timeline : Timeline}

/-- A pass of the order that involves a resource makes a use of it. -/
theorem exists_mem_timelineOf {kind : ResourceKind} {position pass : Nat}
    (hpass : order[position]? = some pass)
    (hinvolves : (passes.getD pass default).involves h = true) :
    ∃ u ∈ timelineOf order passes kind h, u.position = position := by
  rw [List.getD_eq_getElem?_getD] at hinvolves
  cases hp : passes[pass]? with
  | none =>
      rw [hp] at hinvolves
      cases hinvolves
  | some p =>
      rw [hp] at hinvolves
      obtain ⟨u, huse⟩ := Pass.exists_use? hinvolves kind position pass
      obtain ⟨rfl, rfl⟩ := Pass.use?_place huse
      exact ⟨u, mem_timelineOf.2 ⟨hpass, p, hp, huse⟩, rfl⟩

/-- The pass of a use involves the resource. -/
theorem involves_of_mem_timelineOf {kind : ResourceKind} {u : Use}
    (hu : u ∈ timelineOf order passes kind h) :
    (passes.getD u.pass default).involves h = true := by
  obtain ⟨-, p, hp, huse⟩ := mem_timelineOf.1 hu
  rw [List.getD_eq_getElem?_getD, hp]
  exact Pass.involves_of_use? huse

/-- How far a walk along an order has come: the passes `done` are behind and the passes `rest` ahead,
and so are the uses `past` and `todo` of a timeline. -/
structure Parted (order : List Nat) (timeline : Timeline) (done rest : List Nat)
    (past todo : List Use) : Prop where
  order_eq : order = done ++ rest
  timeline_eq : timeline = past ++ todo
  behind : ∀ u ∈ past, u.position < done.length
  ahead : ∀ u ∈ todo, done.length ≤ u.position

theorem parted_start (order : List Nat) (timeline : Timeline) :
    Parted order timeline [] order [] timeline where
  order_eq := rfl
  timeline_eq := rfl
  behind := fun u hu => by cases hu
  ahead := fun u _ => Nat.zero_le u.position

namespace OnTimeline

variable (hr : OnTimeline order passes registry h resource timeline)

include hr

theorem get?_table : (UsageTable.along order passes registry).get? h = some timeline :=
  get?_along.2 ⟨resource, hr.live, hr.timeline_eq, hr.used⟩

/-- The table answers with the use that stands on the timeline. -/
theorem useAt?_eq {u : Use} (hu : u ∈ timeline) :
    (UsageTable.along order passes registry).useAt? h u.position = some u := by
  rw [UsageTable.useAt?, hr.get?_table, Option.bind_some, List.find?_eq_some_iff_append]
  obtain ⟨before, after, hsplit⟩ := List.append_of_mem hu
  refine ⟨by simp, before, after, hsplit, fun v hv => ?_⟩
  have hlt := (hr.positions_of_split hsplit).1 v hv
  have hne : v.position ≠ u.position := Nat.ne_of_lt hlt
  simp [hne]

theorem useAt?_eq_none {position : Nat} (hunused : ∀ u ∈ timeline, u.position ≠ position) :
    (UsageTable.along order passes registry).useAt? h position = none := by
  rw [UsageTable.useAt?, hr.get?_table, Option.bind_some, List.find?_eq_none]
  intro u hu
  simpa using hunused u hu

theorem involves_of_mem {u : Use} (hu : u ∈ timeline) :
    (passes.getD u.pass default).involves h = true := by
  rw [← hr.timeline_eq] at hu
  exact involves_of_mem_timelineOf hu

/-- A pass that involves the resource has a use on its timeline. -/
theorem exists_use_of_involves {position pass : Nat} (hpass : order[position]? = some pass)
    (hinvolves : (passes.getD pass default).involves h = true) :
    ∃ u ∈ timeline, u.position = position := by
  rw [← hr.timeline_eq]
  exact exists_mem_timelineOf hpass hinvolves

theorem parted_of_split {done rest : List Nat} {past later : List Use} {u : Use}
    (horder : order = done ++ rest) (hsplit : timeline = past ++ u :: later)
    (hpast : ∀ v ∈ past, v.position < done.length) (hu : done.length ≤ u.position) :
    Parted order timeline done rest past (u :: later) := by
  refine ⟨horder, hsplit, hpast, fun v hv => ?_⟩
  rcases List.mem_cons.1 hv with rfl | hv
  · exact hu
  · have hlt := (hr.positions_of_split hsplit).2 v hv
    omega

/-- At the end of the order no use is ahead. -/
theorem todo_eq_nil {done : List Nat} {past todo : List Use}
    (hpart : Parted order timeline done [] past todo) : todo = [] := by
  refine List.eq_nil_iff_forall_not_mem.2 fun u hu => ?_
  have hmem : u ∈ timeline := hpart.timeline_eq ▸ List.mem_append_right _ hu
  obtain ⟨hlt, -⟩ := List.getElem?_eq_some_iff.1 (hr.getElem?_order hmem)
  have hge := hpart.ahead u hu
  rw [hpart.order_eq, List.append_nil] at hlt
  omega

/-- **The next pass** of a walk makes the next use, or it makes none. -/
theorem parted_next (hnd : order.Nodup) {done rest : List Nat} {pass : Nat} {past todo : List Use}
    (hpart : Parted order timeline done (pass :: rest) past todo) :
    (∃ u later, todo = u :: later ∧ u.pass = pass ∧ u.position = done.length ∧
      Parted order timeline (done ++ [pass]) rest (past ++ [u]) later) ∨
    (∀ u ∈ timeline, u.position ≠ done.length) ∧
      Parted order timeline (done ++ [pass]) rest past todo := by
  have hpass : order[done.length]? = some pass := by simp [hpart.order_eq]
  have horder : order = (done ++ [pass]) ++ rest := by simp [hpart.order_eq]
  have hlength : (done ++ [pass]).length = done.length + 1 := by simp
  have hpast : ∀ u ∈ past, u.position < (done ++ [pass]).length := fun u hu =>
    Nat.lt_of_lt_of_le (hpart.behind u hu) (by omega)
  by_cases hused : ∃ u ∈ timeline, u.position = done.length
  · obtain ⟨u, hu, hposition⟩ := hused
    have hmem : u ∈ todo := by
      rw [hpart.timeline_eq] at hu
      refine (List.mem_append.1 hu).resolve_left fun hmem => ?_
      have hlt := hpart.behind u hmem
      omega
    obtain ⟨v, later, rfl⟩ := List.exists_cons_of_ne_nil (List.ne_nil_of_mem hmem)
    obtain ⟨-, hlater⟩ := hr.positions_of_split hpart.timeline_eq
    obtain rfl : u = v := by
      refine (List.mem_cons.1 hmem).resolve_right fun hmem => ?_
      have hlt := hlater u hmem
      have hge := hpart.ahead v List.mem_cons_self
      omega
    refine .inl ⟨u, later, rfl, (hr.pass_eq_iff hnd hu hpass).2 hposition, hposition, horder, ?_, ?_,
      ?_⟩
    · simp [hpart.timeline_eq]
    · intro w hw
      rcases List.mem_append.1 hw with hw | hw
      · exact hpast w hw
      · rw [List.mem_singleton.1 hw]
        omega
    · intro w hw
      have hlt := hlater w hw
      omega
  · have hunused : ∀ u ∈ timeline, u.position ≠ done.length := fun u hu heq => hused ⟨u, hu, heq⟩
    refine .inr ⟨hunused, horder, hpart.timeline_eq, hpast, fun u hu => ?_⟩
    have hge := hpart.ahead u hu
    have hne := hunused u (hpart.timeline_eq ▸ List.mem_append_right past hu)
    omega

/-- **The last pass** behind a walk has made the last use behind it, or it has made none. -/
theorem parted_last (hnd : order.Nodup) {done rest : List Nat} {pass : Nat} {past todo : List Use}
    (hpart : Parted order timeline (done ++ [pass]) rest past todo) :
    (∃ u earlier, past = earlier ++ [u] ∧ u.pass = pass ∧ u.position = done.length ∧
      Parted order timeline done (pass :: rest) earlier (u :: todo)) ∨
    (∀ u ∈ timeline, u.position ≠ done.length) ∧
      Parted order timeline done (pass :: rest) past todo := by
  have hpass : order[done.length]? = some pass := by simp [hpart.order_eq]
  have horder : order = done ++ pass :: rest := by simp [hpart.order_eq]
  have hlength : (done ++ [pass]).length = done.length + 1 := by simp
  have htodo : ∀ u ∈ todo, done.length < u.position := fun u hu =>
    Nat.lt_of_lt_of_le (by omega) (hpart.ahead u hu)
  by_cases hused : ∃ u ∈ timeline, u.position = done.length
  · obtain ⟨u, hu, hposition⟩ := hused
    have hmem : u ∈ past := by
      rw [hpart.timeline_eq] at hu
      refine (List.mem_append.1 hu).resolve_right fun hmem => ?_
      have hlt := htodo u hmem
      omega
    obtain ⟨earlier, v, rfl⟩ := (List.eq_nil_or_concat' past).resolve_left (List.ne_nil_of_mem hmem)
    have hsplit : timeline = earlier ++ v :: todo := by simp [hpart.timeline_eq]
    obtain ⟨hearlier, -⟩ := hr.positions_of_split hsplit
    obtain rfl : u = v := by
      refine List.mem_singleton.1 ((List.mem_append.1 hmem).resolve_left fun hmem => ?_)
      have hlt := hearlier u hmem
      have hle := hpart.behind v (List.mem_append_right _ List.mem_cons_self)
      omega
    exact .inl ⟨u, earlier, rfl, (hr.pass_eq_iff hnd hu hpass).2 hposition, hposition,
      hr.parted_of_split horder hsplit (hposition ▸ hearlier) (Nat.le_of_eq hposition.symm)⟩
  · have hunused : ∀ u ∈ timeline, u.position ≠ done.length := fun u hu heq => hused ⟨u, hu, heq⟩
    refine .inr ⟨hunused, horder, hpart.timeline_eq, fun u hu => ?_, fun u hu =>
      Nat.le_of_lt (htodo u hu)⟩
    have hlt := hpart.behind u hu
    have hne := hunused u (hpart.timeline_eq ▸ List.mem_append_left todo hu)
    omega

/-- After a use that is not the last there are no barriers. -/
theorem on_after_of_later (hnd : order.Nodup) {u v : Use} (hu : u ∈ timeline) (hv : v ∈ timeline)
    (hlt : u.position < v.position) :
    (aroundPass (compiledAlong order passes registry) u.pass).after.on h = [] := by
  have hlast := List.getLast?_eq_some_getLast hr.used
  have hle := hr.position_le_last hlast hv
  rw [hr.on_after_compiled hnd hlast, if_neg]
  intro heq
  have hposition := (hr.pass_eq_iff hnd (List.getLast_mem hr.used) (hr.getElem?_order hu)).1 heq
  omega

end OnTimeline

/-- What is recorded around a pass, and by the pass itself, unless it is skipped. -/
theorem layoutsChain_momentsAt {input : FrameInput} {l l' l'' final : Layout}
    {position pass : Nat} {rest : List Moment}
    (hbefore : l.follow
      (recordedOn input.frame ((aroundPass input.barriers pass).before.on h)) = some l')
    (huse : (input.passes.getD pass default).involves h = true →
      ∃ u, input.table.useAt? h position = some u ∧ u.state.layout = l')
    (hafter : l'.follow
      (recordedOn input.frame ((aroundPass input.barriers pass).after.on h)) = some l'')
    (hrest : LayoutsChain input h l'' rest final) :
    LayoutsChain input h l (input.momentsAt position pass ++ rest) final := by
  have hlast : LayoutsChain input h l'
      (input.barrierMoment (aroundPass input.barriers pass).after :: rest) final := by
    refine .barriers ?_ hrest
    rw [barriersOn_barrierMoment]
    exact hafter
  have hmiddle : LayoutsChain input h l'
      ((if (input.missing (input.passes.getD pass default)).isEmpty then
        [Moment.pass position pass] else []) ++
          (input.barrierMoment (aroundPass input.barriers pass).after :: rest)) final := by
    split
    · exact .pass huse hlast
    · exact hlast
  rw [FrameInput.momentsAt, List.cons_append, List.append_assoc]
  refine .barriers ?_ hmiddle
  rw [barriersOn_barrierMoment]
  exact hbefore

variable (hr : OnTimeline order passes registry h resource timeline) (hnd : order.Nodup)
  (hkind : resource.kind = .image)

include hr hnd hkind

/-- **The layouts chain along an order**, from any position on: behind the uses before it, the image is
in the layout of the last of them, and behind all uses it has left the frame. -/
theorem OnTimeline.layoutsChain_momentsFrom {input : FrameInput} (hpasses : input.passes = passes)
    (htable : input.table = .along order passes registry)
    (hbarriers : input.barriers = compiledAlong order passes registry) {image : Nat}
    (himage : (input.frame.objects.get? h).bind DeviceObject.image? = some image)
    {done rest : List Nat} {past todo : List Use}
    (hpart : Parted order timeline done rest past todo) :
    LayoutsChain input h
      (if todo = [] then resource.exitLayout timeline
        else layoutAfter
          (resource.entryLayout timeline (input.frame.created.contains h)) past)
      (input.momentsFrom done.length rest) (resource.exitLayout timeline) := by
  induction rest generalizing done past todo with
  | nil =>
      rw [if_pos (hr.todo_eq_nil hpart)]
      exact .done _
  | cons pass rest ih =>
      have hpass : order[done.length]? = some pass := by simp [hpart.order_eq]
      have hlength : (done ++ [pass]).length = done.length + 1 := by simp
      rw [FrameInput.momentsFrom, ← hlength]
      rcases hr.parted_next hnd hpart with ⟨u, later, rfl, rfl, hposition, hnext⟩ | ⟨hunused, hnext⟩
      · -- The next use is that of this pass.
        have hsplit := hpart.timeline_eq
        have hu : u ∈ timeline := hsplit ▸ List.mem_append_right past List.mem_cons_self
        have hrest := ih hnext
        rw [layoutAfter_concat] at hrest
        rw [if_neg (List.cons_ne_nil u later)]
        have hbefore := hr.follow_before hnd hkind himage hsplit
        rw [← hbarriers] at hbefore
        refine layoutsChain_momentsAt hbefore (fun _ => ⟨u, ?_, rfl⟩) ?_ hrest
        · rw [htable, ← hposition]
          exact hr.useAt?_eq hu
        · rw [hbarriers]
          split
          · next hnil => exact hr.follow_after hnd hkind himage (by rw [hsplit, hnil])
          · next hne =>
              obtain ⟨w, hw⟩ := List.exists_mem_of_ne_nil later hne
              have hwmem : w ∈ timeline :=
                hsplit ▸ List.mem_append_right past (List.mem_cons_of_mem u hw)
              have hlt : u.position < w.position := by
                have hge := hnext.ahead w hw
                omega
              rw [hr.on_after_of_later hnd hu hwmem hlt]
              rfl
      · -- The pass does not use the resource.
        obtain ⟨hbefore, hafter⟩ := hr.on_compiled_of_unused_at hnd hpass hunused
        rw [← hbarriers] at hbefore hafter
        refine layoutsChain_momentsAt (by rw [hbefore]; rfl) (fun hinvolves => ?_)
          (by rw [hafter]; rfl) (ih hnext)
        rw [hpasses] at hinvolves
        obtain ⟨u, hu, hposition⟩ := hr.exists_use_of_involves hpass hinvolves
        exact absurd hposition (hunused u hu)

end Order

end FrameGraph
