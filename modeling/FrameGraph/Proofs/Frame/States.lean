import FrameGraph.Proofs.Frame.Execution

/-!
# The states in which resources are observed

While a frame is recorded, the graph keeps note of the state of every resource: that in which it enters,
those to which the barriers lead, and those of its uses.  At the end of the frame an imported resource
is observed in the state in which it is to be handed back, exactly if some pass has used it or it
enters in the agreed layout.

Principal statements: `get?_recordPoint`, `get?_leave`, `OnTimeline.layout_recordFrom`, and
`Graph.Reachable.handed_back`.
-/

set_option autoImplicit false

namespace FrameGraph

/-! ## One point of a frame -/

/-- The states after a barrier of either kind. -/
def ResourceBarrier.observed (frame : FrameObjects) (states : HandleMap ImageState) :
    ResourceBarrier → HandleMap ImageState
  | .image b => observe states b.resource b.target (b.lowerIn frame)
  | .buffer b => observe states b.resource b.target.toImageState (b.lowerIn frame)

theorem get?_observe_congr {β : Type} {states states' : HandleMap ImageState} {h : Handle}
    (hs : states.get? h = states'.get? h) (k : Handle) (target : ImageState) (lowering : Lowering β) :
    (observe states k target lowering).get? h = (observe states' k target lowering).get? h := by
  have hinsert : (states.insert k target).get? h = (states'.insert k target).get? h := by
    by_cases hk : k = h
    · rw [hk, HandleMap.get?_insert_self, HandleMap.get?_insert_self]
    · rw [HandleMap.get?_insert_of_ne _ _ hk, HandleMap.get?_insert_of_ne _ _ hk, hs]
  cases lowering with
  | dropped => exact hs
  | elided => exact hinsert
  | emitted _ => exact hinsert

theorem get?_observe_of_ne {β : Type} (states : HandleMap ImageState) {h k : Handle} (hk : k ≠ h)
    (target : ImageState) (lowering : Lowering β) :
    (observe states k target lowering).get? h = states.get? h := by
  cases lowering with
  | dropped => rfl
  | elided => exact HandleMap.get?_insert_of_ne _ _ hk
  | emitted _ => exact HandleMap.get?_insert_of_ne _ _ hk

/-- Only the barriers on a resource change its state. -/
theorem get?_foldl_observe {α β : Type} {key : α → Handle} {target : α → ImageState}
    {lowering : α → Lowering β} {h : Handle} (l : List α) {states states' : HandleMap ImageState}
    (hs : states.get? h = states'.get? h) :
    (l.foldl (fun s a => observe s (key a) (target a) (lowering a)) states).get? h =
      ((l.filter fun a => key a = h).foldl
        (fun s a => observe s (key a) (target a) (lowering a)) states').get? h := by
  induction l generalizing states states' with
  | nil => exact hs
  | cons a rest ih =>
      rw [List.foldl_cons, List.filter_cons]
      split
      · exact ih (get?_observe_congr hs (key a) (target a) (lowering a))
      · next hkey =>
          refine ih ?_
          rw [get?_observe_of_ne states (by simpa using hkey), hs]

/-- **The state of a resource after the barriers at one point** depends on the barriers on it only. -/
theorem get?_recordPoint (frame : FrameObjects) (b : Barriers) (states : HandleMap ImageState)
    (h : Handle) :
    (recordPoint frame b states).2.get? h =
      ((b.on h).foldl (ResourceBarrier.observed frame) states).get? h := by
  rw [Barriers.on, List.foldl_append, List.foldl_map, List.foldl_map]
  exact get?_foldl_observe b.buffers (get?_foldl_observe b.images rfl)

theorem lowerIn_ne_dropped {frame : FrameObjects} {b : ImageBarrier} {image : Nat}
    (himage : (frame.objects.get? b.resource).bind DeviceObject.image? = some image) :
    b.lowerIn frame ≠ .dropped := by
  unfold ImageBarrier.lowerIn
  rw [himage]
  dsimp only
  split
  · simp
  · split
    · simp
    · split <;> simp

/-- A barrier that was planned for a step leaves the resource in the layout of its target, whether it
is recorded or not. -/
theorem layout_observed_barrierFor {frame : FrameObjects} {h : Handle} {resource : Resource}
    {isFirst : Bool} {t : Transition} {states : HandleMap ImageState}
    (himage : resource.kind = .image →
      ∃ image, (frame.objects.get? h).bind DeviceObject.image? = some image)
    (hbuffer : resource.kind = .buffer →
      t.source.layout = .undefined ∧ t.target.layout = .undefined)
    (hstate : (states.get? h).map (·.layout) = some t.source.layout) :
    ((([barrierFor h resource isFirst t].filter ResourceBarrier.isEffective).foldl
      (ResourceBarrier.observed frame) states).get? h).map (·.layout) = some t.target.layout := by
  rw [List.filter_cons]
  split
  · rw [List.filter_nil, List.foldl_cons, List.foldl_nil]
    unfold barrierFor
    cases hinfo : resource.info with
    | image info =>
        obtain ⟨image, himage⟩ := himage (by rw [Resource.kind, hinfo]; rfl)
        have hkept : (ResourceBarrier.observed frame states (.image
            { resource := h
              source := t.source
              target := t.target
              aspect := info.aspect
              continues := isFirst && resource.isPersistent
              takesOver := isFirst && resource.isTransient })).get? h = some t.target :=
          states_of_not_dropped (lowerIn_ne_dropped himage) states h t.target
        exact congrArg (Option.map (·.layout)) hkept
    | buffer info =>
        obtain ⟨hsource, htarget⟩ := hbuffer (by rw [Resource.kind, hinfo]; rfl)
        show ((observe states h t.target.toBufferState.toImageState _).get? h).map _ = _
        rw [htarget]
        generalize BufferBarrier.lowerIn frame _ = lowering
        cases lowering with
        | dropped => rw [observe, hstate, hsource]
        | elided => rw [observe, HandleMap.get?_insert_self]; rfl
        | emitted _ => rw [observe, HandleMap.get?_insert_self]; rfl
  · next hineffective =>
      -- A barrier without effect changes no layout.
      have hsame : t.source.layout = t.target.layout := by
        refine Decidable.byContradiction fun hne => hineffective ?_
        refine isEffective_barrierFor isFirst hbuffer ?_
        simp [Transition.isNeeded, hne]
      rw [← hsame]
      exact hstate

/-! ## The uses of a pass -/

namespace FrameInput

variable {input : FrameInput} {h : Handle} {p : Pass} {position : Nat}

theorem get?_observeUses_of_unused (hnone : input.table.useAt? h position = none)
    (states : HandleMap ImageState) :
    (input.observeUses p position states).get? h = states.get? h := by
  unfold observeUses
  induction p.resources generalizing states with
  | nil => rfl
  | cons k rest ih =>
      rw [List.foldl_cons, ih]
      split
      · next u hu =>
          have hk : k ≠ h := by
            rintro rfl
            rw [hnone] at hu
            cases hu
          split
          · exact HandleMap.get?_insert_of_ne _ _ hk
          · rfl
      · rfl

/-- A resource that a pass uses is observed in the state of the use, even if the pass is skipped. -/
theorem get?_observeUses_of_use {u : Use} (hu : input.table.useAt? h position = some u)
    (hbacked : input.isBacked h = true) (hinvolves : p.involves h = true)
    (states : HandleMap ImageState) :
    (input.observeUses p position states).get? h = some u.state := by
  have hmem : h ∈ p.resources := by
    obtain ⟨a, ha, hh⟩ := List.any_eq_true.1 hinvolves
    rw [Pass.resources, List.mem_eraseDups]
    exact List.mem_map.2 ⟨a, ha, of_decide_eq_true hh⟩
  have hahead : h ∈ p.resources ∨ states.get? h = some u.state := .inl hmem
  unfold observeUses
  generalize p.resources = resources at hahead
  clear hmem
  induction resources generalizing states with
  | nil => exact hahead.resolve_left List.not_mem_nil
  | cons k rest ih =>
      rw [List.foldl_cons]
      refine ih _ ?_
      by_cases hk : k = h
      · right
        simp only [hk, hu, hbacked, if_true]
        exact HandleMap.get?_insert_self states h u.state
      · refine hahead.imp (fun hmem => (List.mem_cons.1 hmem).resolve_left (Ne.symm hk))
          fun hold => ?_
        split
        · split
          · rw [HandleMap.get?_insert_of_ne _ _ hk, hold]
          · exact hold
        · exact hold

/-! ## Both ends of a frame -/

/-- What is done for other resources leaves the state of a resource as it is. -/
theorem get?_foldl_of_ne {f : HandleMap ImageState → Handle × Resource → HandleMap ImageState}
    (hf : ∀ s e, e.1 ≠ h → (f s e).get? h = s.get? h) {entries : List (Handle × Resource)}
    (hother : ∀ e ∈ entries, e.1 ≠ h) (states : HandleMap ImageState) :
    (entries.foldl f states).get? h = states.get? h := by
  induction entries generalizing states with
  | nil => rfl
  | cons e rest ih =>
      rw [List.foldl_cons, ih fun e he => hother e (List.mem_cons_of_mem _ he),
        hf states e (hother e List.mem_cons_self)]

/-- An imported resource enters as it is handed over. -/
theorem get?_enter_of_imported (hr : input.registry.WellFormed) {resource : Resource}
    (hget : input.registry.get? h = some resource) {object : DeviceObject} {handover : Handover}
    (hsource : resource.source = .imported object handover) (states : HandleMap ImageState) :
    (input.enter states).get? h = some handover.initial := by
  obtain ⟨before, after, hlist, hother⟩ := hr.exists_split hget
  unfold enter
  rw [hlist, List.foldl_append, List.foldl_cons, get?_foldl_of_ne _ fun e he =>
    (hother e (List.mem_append_right _ he)).1]
  · simp only [hsource]
    exact HandleMap.get?_insert_self _ h handover.initial
  · intro s e hk
    dsimp only
    split
    · exact HandleMap.get?_insert_of_ne _ _ hk
    · exact HandleMap.get?_insert_of_ne _ _ hk
    · split
      · exact HandleMap.get?_insert_of_ne _ _ hk
      · rfl

/-- The states after one resource is handed back. -/
def leaveOne (states : HandleMap ImageState) (entry : Handle × Resource) : HandleMap ImageState :=
  match entry.2.handover? with
  | none => states
  | some handover =>
      if (states.get? entry.1).map (·.layout) = some handover.final.layout then
        states.insert entry.1 handover.final
      else states

theorem value_leave (entries : List (Handle × Resource)) (states : HandleMap ImageState) :
    (leave states entries).value = entries.foldl leaveOne states := by
  induction entries generalizing states with
  | nil => rfl
  | cons e rest ih =>
      rw [leave, List.foldl_cons, leaveOne]
      cases e.2.handover? with
      | none => exact ih states
      | some handover =>
          dsimp only
          split
          · exact ih _
          · exact ih states

theorem get?_leaveOne_of_ne (states : HandleMap ImageState) (e : Handle × Resource) (hk : e.1 ≠ h) :
    (leaveOne states e).get? h = states.get? h := by
  unfold leaveOne
  split
  · rfl
  · split
    · exact HandleMap.get?_insert_of_ne _ _ hk
    · rfl

/-- **A resource is handed back in the agreed state exactly if it is in the agreed layout.** -/
theorem get?_leave {registry : Registry} (hr : registry.WellFormed) {resource : Resource}
    (hget : registry.get? h = some resource) {handover : Handover}
    (hhandover : resource.handover? = some handover) (states : HandleMap ImageState) :
    (leave states registry.toList).value.get? h =
      if (states.get? h).map (·.layout) = some handover.final.layout then some handover.final
      else states.get? h := by
  obtain ⟨before, after, hlist, hother⟩ := hr.exists_split hget
  have hbefore : (before.foldl leaveOne states).get? h = states.get? h :=
    get?_foldl_of_ne get?_leaveOne_of_ne (fun e he => (hother e (List.mem_append_left _ he)).1) states
  rw [value_leave, hlist, List.foldl_append, List.foldl_cons, get?_foldl_of_ne get?_leaveOne_of_ne
    fun e he => (hother e (List.mem_append_right _ he)).1]
  simp only [leaveOne, hhandover, hbefore]
  split
  · exact HandleMap.get?_insert_self _ h handover.final
  · exact hbefore

end FrameInput

/-! ## Along the order -/

section Order

variable {order : List Nat} {passes : List Pass} {registry : Registry} {h : Handle}
  {resource : Resource} {timeline : Timeline} {input : FrameInput}

/-- A live resource has a timeline exactly if a pass of the order involves it. -/
theorem exists_timeline_iff (hget : registry.get? h = some resource) :
    (∃ timeline, (UsageTable.along order passes registry).get? h = some timeline) ↔
      ∃ pass ∈ order, (passes.getD pass default).involves h = true := by
  constructor
  · rintro ⟨timeline, ht⟩
    obtain ⟨found, -, rfl, hne⟩ := get?_along.1 ht
    obtain ⟨u, hu⟩ := List.exists_mem_of_ne_nil _ hne
    exact ⟨u.pass, List.mem_of_getElem? (mem_timelineOf.1 hu).1, involves_of_mem_timelineOf hu⟩
  · rintro ⟨pass, hpass, hinvolves⟩
    obtain ⟨position, hposition⟩ := List.mem_iff_getElem?.1 hpass
    obtain ⟨u, hu, -⟩ : ∃ u ∈ timelineOf order passes resource.kind h, u.position = position :=
      exists_mem_timelineOf hposition hinvolves
    exact ⟨_, get?_along.2 ⟨resource, hget, rfl, List.ne_nil_of_mem hu⟩⟩

/-- A pass without barriers on a resource and without a use of it leaves its state as it is. -/
theorem FrameInput.get?_recordPass_of_unused {position pass : Nat}
    (hbefore : (aroundPass input.barriers pass).before.on h = [])
    (hafter : (aroundPass input.barriers pass).after.on h = [])
    (hnone : input.table.useAt? h position = none) (run : FrameRun) :
    (input.recordPass run position pass).value.states.get? h = run.states.get? h := by
  show (recordPoint _ (aroundPass input.barriers pass).after _).2.get? h = _
  rw [get?_recordPoint, hafter, List.foldl_nil, get?_observeUses_of_unused hnone]
  show (recordPoint _ (aroundPass input.barriers pass).before _).2.get? h = _
  rw [get?_recordPoint, hbefore, List.foldl_nil]

namespace OnTimeline

variable (hr : OnTimeline order passes registry h resource timeline) (hnd : order.Nodup)
  {handover : Handover} (hhandover : resource.handover? = some handover)

include hr hnd hhandover

/-- The barriers after the last use leave an imported resource in the agreed layout. -/
theorem layout_observed_after {frame : FrameObjects}
    (himage : resource.kind = .image →
      ∃ image, (frame.objects.get? h).bind DeviceObject.image? = some image)
    (hbuffer : resource.kind = .buffer →
      (∀ u ∈ timeline, u.state.layout = .undefined) ∧ handover.final.layout = .undefined)
    {last : Use} (hlast : timeline.getLast? = some last) {states : HandleMap ImageState}
    (hstate : states.get? h = some last.state) :
    ((((aroundPass (compiledAlong order passes registry) last.pass).after.on h).foldl
      (ResourceBarrier.observed frame) states).get? h).map (·.layout) =
        some handover.final.layout := by
  have hlayout := layout_syncAfter resource hlast
  rw [hr.on_after_compiled hnd hlast, if_pos rfl, handBack?_of_handover hhandover]
  rcases (resource.syncAfter timeline).handBack?_cases handover.final with hsome | ⟨hnone, hsame⟩
  · rw [hsome]
    refine layout_observed_barrierFor himage (fun hkind => ?_) ?_
    · obtain ⟨huses, hfinal⟩ := hbuffer hkind
      refine ⟨?_, hfinal⟩
      show (resource.syncAfter timeline).source.layout = _
      rw [SyncState.source_layout, hlayout, huses last (List.mem_of_getLast? hlast)]
    · show _ = some (resource.syncAfter timeline).source.layout
      rw [SyncState.source_layout, hlayout, hstate]
      rfl
  · rw [hnone, hsame, hlayout]
    show (states.get? h).map _ = _
    rw [hstate]
    rfl

/-- **Behind its last use an imported resource is in the agreed layout**, whatever becomes of the
barriers and of the passes. -/
theorem layout_recordFrom (hpasses : input.passes = passes)
    (htable : input.table = .along order passes registry)
    (hbarriers : input.barriers = compiledAlong order passes registry)
    (hbacked : input.isBacked h = true)
    (himage : resource.kind = .image →
      ∃ image, (input.frame.objects.get? h).bind DeviceObject.image? = some image)
    (hbuffer : resource.kind = .buffer →
      (∀ u ∈ timeline, u.state.layout = .undefined) ∧ handover.final.layout = .undefined)
    {done rest : List Nat} {past todo : List Use}
    (hpart : Parted order timeline done rest past todo) {run : FrameRun}
    (hstate : todo = [] → (run.states.get? h).map (·.layout) = some handover.final.layout) :
    ((input.recordFrom run done.length rest).value.states.get? h).map (·.layout) =
      some handover.final.layout := by
  induction rest generalizing done past todo run with
  | nil => exact hstate (hr.todo_eq_nil hpart)
  | cons pass rest ih =>
      have hpass : order[done.length]? = some pass := by simp [hpart.order_eq]
      have hlength : (done ++ [pass]).length = done.length + 1 := by simp
      show ((input.recordFrom (input.recordPass run done.length pass).value (done.length + 1)
        rest).value.states.get? h).map _ = _
      rw [← hlength]
      rcases hr.parted_next hnd hpart with ⟨u, later, rfl, rfl, hposition, hnext⟩ | ⟨hunused, hnext⟩
      · refine ih hnext fun hnil => ?_
        -- The use was the last one.
        have hu : u ∈ timeline := hpart.timeline_eq ▸ List.mem_append_right past List.mem_cons_self
        show ((recordPoint _ (aroundPass input.barriers u.pass).after _).2.get? h).map _ = _
        rw [get?_recordPoint, hbarriers]
        refine hr.layout_observed_after hnd hhandover himage hbuffer ?_ ?_
        · rw [hnext.timeline_eq, hnil, List.append_nil, List.getLast?_concat]
        · refine FrameInput.get?_observeUses_of_use ?_ hbacked ?_ _
          · rw [htable, ← hposition]
            exact hr.useAt?_eq hu
          · rw [hpasses]
            exact hr.involves_of_mem hu
      · refine ih hnext fun hnil => ?_
        obtain ⟨hbefore, hafter⟩ := hr.on_compiled_of_unused_at hnd hpass hunused
        rw [← hbarriers] at hbefore hafter
        rw [FrameInput.get?_recordPass_of_unused hbefore hafter ?_, hstate hnil]
        rw [htable]
        exact hr.useAt?_eq_none hunused

end OnTimeline

/-- What no pass of the order uses keeps its state. -/
theorem get?_recordFrom_of_unused (hnd : order.Nodup)
    (hnone : (UsageTable.along order passes registry).get? h = none)
    (htable : input.table = .along order passes registry)
    (hbarriers : input.barriers = compiledAlong order passes registry) (rest : List Nat)
    (run : FrameRun) (position : Nat) :
    (input.recordFrom run position rest).value.states.get? h = run.states.get? h := by
  induction rest generalizing run position with
  | nil => rfl
  | cons pass rest ih =>
      obtain ⟨hbefore, hafter⟩ := on_compiled_of_unused hnd hnone pass
      rw [← hbarriers] at hbefore hafter
      refine (ih _ (position + 1)).trans (FrameInput.get?_recordPass_of_unused hbefore hafter ?_ run)
      rw [htable, UsageTable.useAt?, hnone]
      rfl

end Order

/-! ## Every frame of every graph -/

namespace Graph

variable {g g' : Graph}

/-- The plan of a graph has a timeline for exactly the resources that its passes involve. -/
theorem exists_timeline_upToDate (hg : g.Reachable) {h : Handle} {resource : Resource}
    (hget : g.upToDate.registry.get? h = some resource) :
    (∃ timeline, g.upToDate.plan.table.get? h = some timeline) ↔
      ∃ pass ∈ g.upToDate.plan.order, (g.upToDate.passes.getD pass default).involves h = true := by
  obtain ⟨hsound, hcompiled⟩ := hg.isSound.upToDate
  obtain ⟨registry, -, hsame, hplan⟩ := hsound.planned hcompiled
  obtain ⟨planned, hplanned, -⟩ := hsame.exists_live hget
  rw [hplan.table]
  exact exists_timeline_iff hplanned

section Imported

variable (hg : g.Reachable) {index : Nat} {r : Resolution}
  (hok : (resolveFrame index g.upToDate.registry g.upToDate.plan.table
    (g.resolution index)).result = .ok r)
  {h : Handle} {resource : Resource} (hget : g.upToDate.registry.get? h = some resource)
  {object : DeviceObject} {handover : Handover}
  (hsource : resource.source = .imported object handover)

include hg hok hget hsource

/-- The layout of an imported resource behind the passes of the plan. -/
theorem layout_frame_of_used {timeline : Timeline}
    (htable : g.upToDate.plan.table.get? h = some timeline) (states : HandleMap ImageState) :
    ((((g.frame index r).recordFrom { states } 0 g.upToDate.plan.order).value.states).get? h).map
      (·.layout) = some handover.final.layout := by
  obtain ⟨hsound, hcompiled⟩ := hg.isSound.upToDate
  obtain ⟨registry, hd, hsame, hplan⟩ := hsound.planned hcompiled
  have hw := hsound.declared.wellFormed
  have hobject := object_resolveFrame_of_imported hw hget hsource hok
  obtain ⟨hobjectKind, hlayouts⟩ := hw.coherent h resource hget object handover hsource
  -- The plan was made for a resource of the same outline.
  obtain ⟨planned, hplanned, houtline⟩ := hsame.exists_live hget
  have hkind := Resource.kind_of_outline houtline
  have hhandover : planned.handover? = some handover := by
    rw [Resource.handover?_of_outline houtline, Resource.handover?, hsource]
  rw [hplan.table] at htable
  obtain ⟨found, hr⟩ := exists_onTimeline htable
  obtain rfl : found = planned := Option.some.inj (hr.live.symm.trans hplanned)
  refine hr.layout_recordFrom hplan.nodup hhandover rfl hplan.table hplan.barriers ?_ ?_ ?_
    (parted_start _ _) fun hnil => absurd hnil hr.used
  · show (r.frame.objects.get? h).isSome = true
    rw [hobject]
    rfl
  · intro himage
    show ∃ image, (r.frame.objects.get? h).bind DeviceObject.image? = some image
    rw [hobject]
    cases object with
    | image image view => exact ⟨image, rfl⟩
    | buffer buffer =>
        rw [← hkind, himage] at hobjectKind
        cases hobjectKind
  · intro hbuffer
    refine ⟨fun u hu => ?_, (hlayouts (hkind.symm.trans hbuffer)).2⟩
    rw [← hr.timeline_eq, hbuffer] at hu
    exact layout_of_mem_timelineOf_buffer hd hr.live hbuffer hu

theorem get?_frameRun_of_used {timeline : Timeline}
    (htable : g.upToDate.plan.table.get? h = some timeline) :
    (g.frameRun index r).states.get? h = some handover.final := by
  have hhandover : resource.handover? = some handover := by rw [Resource.handover?, hsource]
  refine (FrameInput.get?_leave hg.isSound.upToDate.1.declared.wellFormed hget hhandover _).trans ?_
  exact if_pos (layout_frame_of_used hg hok hget hsource htable _)

omit hok in
theorem get?_frameRun_of_unused (htable : g.upToDate.plan.table.get? h = none) :
    (g.frameRun index r).states.get? h =
      some (if handover.initial.layout = handover.final.layout then handover.final
        else handover.initial) := by
  obtain ⟨hsound, hcompiled⟩ := hg.isSound.upToDate
  obtain ⟨registry, -, -, hplan⟩ := hsound.planned hcompiled
  have hw := hsound.declared.wellFormed
  have hhandover : resource.handover? = some handover := by rw [Resource.handover?, hsource]
  rw [hplan.table] at htable
  have hstate : ((g.frame index r).recordFrom { states := (g.frame index r).enter g.upToDate.states } 0
      g.upToDate.plan.order).value.states.get? h = some handover.initial := by
    rw [get?_recordFrom_of_unused hplan.nodup htable hplan.table hplan.barriers]
    exact FrameInput.get?_enter_of_imported hw hget hsource _
  refine (FrameInput.get?_leave hw hget hhandover _).trans ?_
  rw [hstate, Option.map_some]
  simp only [Option.some.injEq]
  split <;> rfl

end Imported

/-- **Imported resources are handed back as agreed.**  After every frame of every graph, an imported
resource is observed in the state in which it is to be handed back if a pass of the plan involves it,
or if it enters in the agreed layout; otherwise in the state in which it was handed over. -/
theorem Reachable.handed_back (hg : g.Reachable) {index : Nat}
    (hindex : index < g.settings.framesInFlight) {ran : List Invocation}
    (hrun : (g.execute index).result = .ok (ran, g')) {h : Handle} {resource : Resource}
    (hget : g'.registry.get? h = some resource) {object : DeviceObject} {handover : Handover}
    (hsource : resource.source = .imported object handover) :
    g'.state? resource.name =
      some (if (∃ pass ∈ g'.plan.order, (g'.passes.getD pass default).involves h = true) ∨
          handover.initial.layout = handover.final.layout then handover.final
        else handover.initial) := by
  obtain ⟨r, hok, -, rfl⟩ := (execute_eq_ok_iff hindex).1 hrun
  have hused := exists_timeline_upToDate hg hget
  show (g.upToDate.registry.handle? resource.name).bind (g.frameRun index r).states.get? = _
  rw [hg.isSound.upToDate.1.declared.wellFormed.handle?_eq hget, Option.bind_some]
  cases htable : g.upToDate.plan.table.get? h with
  | some timeline =>
      rw [get?_frameRun_of_used hg hok hget hsource htable]
      rw [if_pos (.inl (hused.1 ⟨timeline, htable⟩))]
  | none =>
      have hunused : ¬ ∃ pass ∈ (g.afterFrame index r).plan.order,
          ((g.afterFrame index r).passes.getD pass default).involves h = true := by
        intro hinvolved
        obtain ⟨timeline, hsome⟩ := hused.2 hinvolved
        rw [htable] at hsome
        cases hsome
      rw [get?_frameRun_of_unused hg hget hsource htable]
      simp only [hunused, false_or]

/-- Two images are handed over; only the first of them is used. -/
def handover : List Action :=
  [.register (.importImage "screen" 1 2 (.flat 4 4 .b8g8r8a8Srgb ImageUsage.colorAttachment)
      .undefined .present),
    .register (.importImage "spare" 3 4 (.flat 4 4 .b8g8r8a8Srgb ImageUsage.colorAttachment)
      .shaderReadCompute .transferSrc),
    .addPass drawPass]

/-- The image that is drawn on is handed back for presentation, the other one as it came. -/
theorem handed_back_screen :
    ∃ (g g' : Graph) (ran : List Invocation), (g.execute 0).result = .ok (ran, g') ∧
      g'.state? "screen" = some .present ∧ g'.state? "spare" = some .shaderReadCompute := by
  have hcheck : checkFrame handover 0 (fun _ g' => decide (
      g'.registry.get? (.slot 0 0) =
          some ⟨"screen", .image (.flat 4 4 .b8g8r8a8Srgb ImageUsage.colorAttachment),
            .imported (.image 1 2) ⟨.undefined, .present⟩, true, some ⟨0, 0⟩⟩ ∧
        g'.registry.get? (.slot 1 0) =
          some ⟨"spare", .image (.flat 4 4 .b8g8r8a8Srgb ImageUsage.colorAttachment),
            .imported (.image 3 4) ⟨.shaderReadCompute, .transferSrc⟩, false, none⟩ ∧
        (∃ pass ∈ g'.plan.order, (g'.passes.getD pass default).involves (.slot 0 0) = true) ∧
        ¬ ∃ pass ∈ g'.plan.order, (g'.passes.getD pass default).involves (.slot 1 0) = true)) =
      true := by
    decide +kernel
  obtain ⟨g, g', ran, hg, hindex, hrun, hcheck⟩ := exists_of_checkFrame hcheck
  obtain ⟨hscreen, hspare, hused, hunused⟩ := of_decide_eq_true hcheck
  have hdrawn := hg.handed_back hindex hrun hscreen rfl
  have hkept := hg.handed_back hindex hrun hspare rfl
  rw [if_pos (.inl hused)] at hdrawn
  rw [if_neg (not_or.2 ⟨hunused, by decide⟩)] at hkept
  exact ⟨g, g', ran, hrun, hdrawn, hkept⟩

end Graph

end FrameGraph
