import FrameGraph.Proofs.Frame.Layouts
import FrameGraph.Proofs.Scheduling.Greedy
import FrameGraph.Proofs.Timeline.Tight

/-!
# The simulated layouts and those of a frame

The scheduler asks for the layout that a pass requires of an image; the barriers lead the image to the
layout of the use that the pass makes of it.  The former goes by the first access of the pass to the
image, the latter by the last one that writes.  So they agree exactly if both accesses are for the same
usage, or nothing is written; and what the scheduler simulates along its order is, image by image, what
the recorded barriers establish exactly if the latest pass with an access to the image is such a pass.

Principal statements: `Pass.layoutFor?_eq_iff`, `OnTimeline.follow_recordedUntil`, and
`simulated_layouts_tracked`.
-/

set_option autoImplicit false

namespace FrameGraph

/-! ## The layouts of usages -/

namespace Usage

/-- The layout of an image that is written tells for which usage. -/
theorem layout_resolve_write_inj {usage usage' : Usage} (h : usage.supports .image = true)
    (h' : usage'.supports .image = true) (pass : PassKind) (read read' : Bool) :
    (usage.resolve pass .image read true).layout = (usage'.resolve pass .image read' true).layout ↔
      usage = usage' := by
  -- Whether the image is read as well does not matter.
  have hread : ∀ (usage : Usage) (read : Bool), (usage.resolve pass .image read true).layout =
      (usage.resolve .compute .image true true).layout := by
    intro usage read
    cases usage <;> cases read <;> rfl
  have hinj : ∀ u ∈ all, ∀ v ∈ all, u.supports .image = true → v.supports .image = true →
      (u.resolve .compute .image true true).layout = (v.resolve .compute .image true true).layout →
      u = v := by
    decide
  have hmem : ∀ usage : Usage, usage ∈ all := by
    intro usage
    cases usage <;> decide
  rw [hread usage read, hread usage' read']
  constructor
  · exact hinj usage (hmem usage) usage' (hmem usage') h h'
  · rintro rfl
    rfl

end Usage

/-! ## The layout that a pass requires, and that of its use -/

namespace Pass

/-- The last write of the pass to the resource, if there is one, is for the usage for which it accesses
the resource first. -/
def KeepsFirstUsage (p : Pass) (h : Handle) : Prop :=
  ∀ last ∈ ((p.accesses.filter fun a => a.resource = h).filter (·.isWrite)).getLast?,
    (p.accesses.find? fun a => a.resource = h).map (·.usage) = some last.usage

instance (p : Pass) (h : Handle) : Decidable (p.KeepsFirstUsage h) :=
  inferInstanceAs (Decidable (∀ last ∈ _, _))

variable {p : Pass} {registry : Registry} {h : Handle} {resource : Resource}

theorem layoutFor?_of_first (hget : registry.get? h = some resource) (hkind : resource.kind = .image)
    {first : PassAccess} (hfirst : p.accesses.find? (fun a => a.resource = h) = some first) :
    p.layoutFor? registry h =
      some (first.usage.resolve p.kind .image
        (p.accesses.any fun a => a.resource = h && !a.isWrite)
        (p.accesses.any fun a => a.resource = h && a.isWrite)).layout := by
  unfold layoutFor?
  rw [hget, hfirst]
  dsimp only
  rw [hkind]

/-- A resource that is not written is read by its first access, and only read. -/
theorem directions_of_reads (hreads : ∀ a ∈ p.accesses, a.resource = h → a.isWrite = false)
    {first : PassAccess} (hmem : first ∈ p.accesses) (hresource : first.resource = h) :
    (p.accesses.any fun a => a.resource = h && !a.isWrite) = true ∧
      (p.accesses.any fun a => a.resource = h && a.isWrite) = false := by
  constructor
  · rw [List.any_eq_true]
    exact ⟨first, hmem, by simp [hresource, hreads first hmem hresource]⟩
  · rw [List.any_eq_false]
    intro a ha
    by_cases hh : a.resource = h
    · simp [hreads a ha hh]
    · simp [hh]

/-- **When the required layout is that of the use**: the first access and the last write must be for
the same usage. -/
theorem layoutFor?_eq_iff (hvalid : ∀ a ∈ p.accesses, a.IsValid registry)
    (hget : registry.get? h = some resource) (hkind : resource.kind = .image) {position index : Nat}
    {u : Use} (hu : p.use? .image h position index = some u) :
    p.layoutFor? registry h = some u.state.layout ↔ p.KeepsFirstUsage h := by
  have hsupports : ∀ a ∈ p.accesses, a.resource = h → a.usage.supports .image = true := by
    intro a ha hresource
    rw [← hkind]
    exact (hvalid a ha).supports (hresource ▸ hget)
  obtain ⟨a, hdecisive, -, hlayout⟩ := (joins_use? hu).layout
  obtain ⟨first, hfirst⟩ : ∃ first, p.accesses.find? (fun a => a.resource = h) = some first := by
    rw [← Option.isSome_iff_exists, List.isSome_find?]
    exact involves_of_use? hu
  have hfirstMem : first ∈ p.accesses := List.mem_of_find?_eq_some hfirst
  have hfirstResource : first.resource = h := by
    simpa using List.find?_some hfirst
  rw [layoutFor?_of_first hget hkind hfirst, hlayout, Option.some_inj, KeepsFirstUsage, hfirst]
  rw [decisive?, List.head?_filter, hfirst] at hdecisive
  cases hlast : ((p.accesses.filter fun a => a.resource = h).filter (·.isWrite)).getLast? with
  | none =>
      -- Nothing is written, so the first access decides.
      rw [hlast] at hdecisive
      obtain rfl : first = a := Option.some.inj hdecisive
      have hreads : ∀ b ∈ p.accesses, b.resource = h → b.isWrite = false := by
        intro b hb hresource
        have hnil := List.getLast?_eq_none_iff.1 hlast
        have hnot := List.filter_eq_nil_iff.1 hnil b (List.mem_filter.2 ⟨hb, by simp [hresource]⟩)
        simpa using hnot
      have hfirstReads : first.isWrite = false := hreads first hfirstMem hfirstResource
      obtain ⟨hread, hwrite⟩ := directions_of_reads hreads hfirstMem hfirstResource
      have hcounts : p.CountsAsRead first := .inl hfirstReads
      rw [hread, hwrite, hfirstReads, decide_eq_true hcounts]
      simp
  | some last =>
      rw [hlast] at hdecisive
      obtain rfl : last = a := Option.some.inj hdecisive
      have hmem := List.mem_of_getLast? hlast
      obtain ⟨hmem, hisWrite⟩ := List.mem_filter.1 hmem
      obtain ⟨hlastMem, hlastResource⟩ := List.mem_filter.1 hmem
      have hwrite : (p.accesses.any fun a => a.resource = h && a.isWrite) = true :=
        List.any_eq_true.2 ⟨last, hlastMem, by simp_all⟩
      rw [hwrite, hisWrite, Usage.layout_resolve_write_inj
        (hsupports first hfirstMem hfirstResource)
        (hsupports last hlastMem (of_decide_eq_true hlastResource))]
      simp

end Pass

/-! ## The barriers along the order -/

/-- The barriers on an image around some passes, as they are recorded. -/
def recordedAround (frame : FrameObjects) (plan : List AroundPass) (h : Handle) (passes : List Nat) :
    List ImageMemoryBarrier :=
  passes.flatMap fun pass =>
    recordedOn frame ((aroundPass plan pass).before.on h) ++
      recordedOn frame ((aroundPass plan pass).after.on h)

/-- The barriers on an image that are recorded before a pass runs that comes after the passes
`before`. -/
def recordedUntil (frame : FrameObjects) (plan : List AroundPass) (h : Handle) (before : List Nat)
    (pass : Nat) : List ImageMemoryBarrier :=
  recordedAround frame plan h before ++ recordedOn frame ((aroundPass plan pass).before.on h)

theorem recordedAround_concat (frame : FrameObjects) (plan : List AroundPass) (h : Handle)
    (passes : List Nat) (pass : Nat) :
    recordedAround frame plan h (passes ++ [pass]) =
      recordedUntil frame plan h passes pass ++
        recordedOn frame ((aroundPass plan pass).after.on h) := by
  simp [recordedAround, recordedUntil]

theorem recordedAround_eq_nil {frame : FrameObjects} {plan : List AroundPass} {h : Handle}
    {passes : List Nat}
    (hnone : ∀ pass ∈ passes, (aroundPass plan pass).before.on h = [] ∧
      (aroundPass plan pass).after.on h = []) :
    recordedAround frame plan h passes = [] := by
  apply List.flatMap_eq_nil_iff.2
  intro pass hpass
  obtain ⟨hbefore, hafter⟩ := hnone pass hpass
  rw [hbefore, hafter]
  rfl

section Order

variable {order : List Nat} {passes : List Pass} {registry : Registry} {h : Handle}
  {resource : Resource} {timeline : Timeline}

/-- Around a pass without an access to the image there are no barriers on it. -/
theorem on_compiled_of_not_involves (hnd : order.Nodup) {pass : Nat}
    (hnot : (passes.getD pass default).involves h = false) :
    (aroundPass (compiledAlong order passes registry) pass).before.on h = [] ∧
      (aroundPass (compiledAlong order passes registry) pass).after.on h = [] := by
  cases htable : (UsageTable.along order passes registry).get? h with
  | none => exact on_compiled_of_unused hnd htable pass
  | some timeline =>
      obtain ⟨resource, hr⟩ := exists_onTimeline htable
      apply hr.on_compiled_of_ne hnd
      rintro u hu rfl
      rw [hr.involves_of_mem hu] at hnot
      cases hnot

namespace OnTimeline

section Positions

variable (hr : OnTimeline order passes registry h resource timeline)

include hr

/-- A use behind some passes is behind those as well that follow and do not access the resource. -/
theorem length_le_position {front rest after : List Nat} (horder : order = front ++ rest ++ after)
    (hrest : ∀ q ∈ rest, (passes.getD q default).involves h = false) {u : Use} (hu : u ∈ timeline)
    (hfront : front.length ≤ u.position) : (front ++ rest).length ≤ u.position := by
  apply Nat.le_of_not_lt
  intro hlt
  have hplace := hr.getElem?_order hu
  rw [horder, List.getElem?_append_left hlt, List.getElem?_append_right hfront] at hplace
  have hinvolves := hr.involves_of_mem hu
  rw [hrest u.pass (List.mem_of_getElem? hplace)] at hinvolves
  cases hinvolves

/-- Behind some passes there is a use if one of those that follow accesses the resource. -/
theorem exists_use_after {before after : List Nat} (horder : order = before ++ after)
    (hnext : ∃ q ∈ after, (passes.getD q default).involves h = true) :
    ∃ u ∈ timeline, before.length ≤ u.position := by
  obtain ⟨q, hq, hinvolves⟩ := hnext
  obtain ⟨offset, hoffset⟩ := List.mem_iff_getElem?.1 hq
  have hplace : order[before.length + offset]? = some q := by
    rw [horder, List.getElem?_append_right (Nat.le_add_right _ _), Nat.add_sub_cancel_left]
    exact hoffset
  obtain ⟨u, hu, hposition⟩ := hr.exists_use_of_involves hplace hinvolves
  exact ⟨u, hu, by omega⟩

end Positions

variable (hr : OnTimeline order passes registry h resource timeline) (hnd : order.Nodup)
  (hkind : resource.kind = .image) {frame : FrameObjects} {image : Nat}
  (himage : (frame.objects.get? h).bind DeviceObject.image? = some image)

include hr hnd hkind himage

/-- **Between two uses** the image is in the layout of the former one, and before the first use in that
in which it has entered the frame. -/
theorem follow_recordedAround {before after : List Nat} {past later : List Use} {u : Use}
    (hpart : Parted order timeline before after past (u :: later)) :
    (resource.entryLayout timeline (frame.created.contains h)).follow
        (recordedAround frame (compiledAlong order passes registry) h before) =
      some (layoutAfter (resource.entryLayout timeline (frame.created.contains h)) past) := by
  -- The induction is on the passes behind, so from the end of the list.
  induction before using List.reverseRecOn generalizing after past u later with
  | nil =>
      obtain rfl : past = [] := by
        apply List.eq_nil_iff_forall_not_mem.2
        intro v hv
        exact absurd (hpart.behind v hv) (Nat.not_lt_zero _)
      rfl
  | append_singleton before pass ih =>
      have hpass : order[before.length]? = some pass := by simp [hpart.order_eq]
      rw [recordedAround_concat, recordedUntil, Layout.follow_append, Layout.follow_append]
      rcases hr.parted_last hnd hpart with ⟨v, earlier, rfl, rfl, hposition, hback⟩ | ⟨hunused, hback⟩
      · -- The latest use is that of this pass.
        obtain ⟨hvmem, humem⟩ : v ∈ timeline ∧ u ∈ timeline := by simp [hpart.timeline_eq]
        have hlt : v.position < u.position := by
          have hge := hpart.ahead u List.mem_cons_self
          rw [List.length_append, List.length_singleton] at hge
          omega
        have hbefore := hr.follow_before hnd hkind himage hback.timeline_eq
        have hafter := hr.on_after_of_later hnd hvmem humem hlt
        rw [ih hback, Option.bind_some, hbefore, Option.bind_some, hafter, layoutAfter_concat]
        rfl
      · -- The pass does not use the image.
        obtain ⟨hbefore, hafter⟩ := hr.on_compiled_of_unused_at hnd hpass hunused
        rw [ih hback, hbefore, hafter]
        rfl

/-- **As a pass runs** that uses the image, the image is in the layout of that use. -/
theorem follow_recordedUntil {before after : List Nat} {past later : List Use} {u : Use}
    (horder : order = before ++ after) (hsplit : timeline = past ++ u :: later)
    (hu : u.position = before.length) :
    (resource.entryLayout timeline (frame.created.contains h)).follow
        (recordedUntil frame (compiledAlong order passes registry) h before u.pass) =
      some u.state.layout := by
  have hpast : ∀ v ∈ past, v.position < before.length := by
    rw [← hu]
    exact (hr.positions_of_split hsplit).1
  have hpart := hr.parted_of_split horder hsplit hpast (Nat.le_of_eq hu.symm)
  have hbehind := hr.follow_recordedAround hnd hkind himage hpart
  rw [recordedUntil, Layout.follow_append, hbehind, Option.bind_some]
  exact hr.follow_before hnd hkind himage hsplit

/-- **Until the next use** the image stays in that layout. -/
theorem follow_recordedAround_use {front rest after : List Nat} {u : Use} (hu : u ∈ timeline)
    (horder : order = (front ++ [u.pass]) ++ rest ++ after) (hposition : u.position = front.length)
    (hrest : ∀ q ∈ rest, (passes.getD q default).involves h = false)
    (hnext : ∃ q ∈ after, (passes.getD q default).involves h = true) :
    (resource.entryLayout timeline (frame.created.contains h)).follow
        (recordedAround frame (compiledAlong order passes registry) h ((front ++ [u.pass]) ++ rest)) =
      some u.state.layout := by
  obtain ⟨past, later, hsplit⟩ := List.append_of_mem hu
  have hlength : u.position < ((front ++ [u.pass]) ++ rest).length := by
    simp only [List.length_append, List.length_singleton]
    omega
  have hpast : ∀ w ∈ past ++ [u], w.position < ((front ++ [u.pass]) ++ rest).length := by
    intro w hw
    rcases List.mem_append.1 hw with hw | hw
    · exact Nat.lt_trans ((hr.positions_of_split hsplit).1 w hw) hlength
    · rw [List.mem_singleton.1 hw]
      exact hlength
  -- A later pass uses the image, and of the uses behind this one none is made before.
  obtain ⟨w, hw, hwposition⟩ := hr.exists_use_after horder hnext
  have hwlater : w ∈ later := by
    rw [hsplit, List.append_cons] at hw
    refine (List.mem_append.1 hw).resolve_left fun hw => ?_
    have hlt := hpast w hw
    omega
  obtain ⟨v, later, rfl⟩ := List.exists_cons_of_ne_nil (List.ne_nil_of_mem hwlater)
  have hv : v ∈ timeline := by simp [hsplit]
  have hgt := (hr.positions_of_split hsplit).2 v List.mem_cons_self
  have hvposition := hr.length_le_position horder hrest hv (by simp; omega)
  have hsplit' : timeline = (past ++ [u]) ++ v :: later := by simp [hsplit]
  have hpart := hr.parted_of_split horder hsplit' hpast hvposition
  rw [hr.follow_recordedAround hnd hkind himage hpart, layoutAfter_concat]

end OnTimeline

end Order

/-! ## The simulation along the order of the scheduler -/

namespace ScheduleInput

variable {s : ScheduleInput} {h : Handle} {resource : Resource}

/-- What the simulation says of an image when the passes `before` have been scheduled, against the
barriers that are recorded for the image in a frame in which it stands behind `resource`. -/
structure Tracks (s : ScheduleInput) (order : List Nat) (frame : FrameObjects) (h : Handle)
    (resource : Resource) (before : List Nat) (simulated : Layout) : Prop where
  /-- Before the first access no barrier is recorded, and the image is simulated in the layout in which
  it enters the frame, unless it is kept from an earlier frame. -/
  untouched : (∀ q ∈ before, (s.passAt q).involves h = false) →
    recordedAround frame (compiledAlong order s.passes s.registry) h before = [] ∧
      (simulated = resource.entryLayout (timelineOf order s.passes .image h)
          (frame.created.contains h) ↔
        (resource.isPersistent = true → frame.created.contains h = true ∨
          ∀ q ∈ order, (s.passAt q).involves h = false))
  /-- The barriers before the latest pass with an access put the image into some layout, in which it
  stays as long as another pass is to access it.  It is the simulated one exactly if the last write of
  the latest pass is for the usage of its first access. -/
  touched : ∀ front pass rest, before = front ++ pass :: rest → (s.passAt pass).involves h = true →
    (∀ q ∈ rest, (s.passAt q).involves h = false) →
    ∃ found,
      (resource.entryLayout (timelineOf order s.passes .image h) (frame.created.contains h)).follow
          (recordedUntil frame (compiledAlong order s.passes s.registry) h front pass) =
        some found ∧
      ((∃ q ∈ order, q ∉ before ∧ (s.passAt q).involves h = true) →
        (resource.entryLayout (timelineOf order s.passes .image h) (frame.created.contains h)).follow
            (recordedAround frame (compiledAlong order s.passes s.registry) h before) =
          some found) ∧
      (simulated = found ↔ (s.passAt pass).KeepsFirstUsage h)

/-- The simulated layout of an image that no pass has accessed. -/
theorem simulatedLayout_of_untouched {before : List Nat}
    (hnone : ∀ q ∈ before, (s.passAt q).involves h = false) :
    s.simulatedLayout before h = s.initialLayout h := by
  have hfind : (before.reverse.find? fun pass => (s.passAt pass).involves h) = none := by
    rw [List.find?_eq_none]
    intro q hq
    simp [hnone q (List.mem_reverse.1 hq)]
  rw [simulatedLayout, hfind]

/-- The simulated layout of an image is the one that its latest pass requires. -/
theorem simulatedLayout_of_touched {front rest : List Nat} {pass : Nat}
    (hpass : (s.passAt pass).involves h = true)
    (hrest : ∀ q ∈ rest, (s.passAt q).involves h = false) :
    s.simulatedLayout (front ++ pass :: rest) h =
      ((s.passAt pass).layoutFor? s.registry h).getD .undefined := by
  have hfind : ((front ++ pass :: rest).reverse.find? fun q => (s.passAt q).involves h) =
      some pass := by
    rw [List.find?_eq_some_iff_append]
    refine ⟨hpass, rest.reverse, front.reverse, by simp, ?_⟩
    intro q hq
    simp [hrest q (List.mem_reverse.1 hq)]
  rw [simulatedLayout, hfind]

/-- Whether an image enters the frame as the simulation begins. -/
theorem initialLayout_eq_entryLayout_iff (hget : s.registry.get? h = some resource)
    {timeline : Timeline} (hlayouts : ∀ u ∈ timeline, u.state.layout ≠ .undefined) (isNew : Bool) :
    s.initialLayout h = resource.entryLayout timeline isNew ↔
      (resource.isPersistent = true → isNew = true ∨ timeline = []) := by
  rw [initialLayout, hget, Option.bind_some]
  unfold Resource.handover? Resource.entryLayout Resource.isPersistent
  cases resource.source with
  | imported object handover => simp
  | internal persistent =>
      cases persistent with
      | false => simp
      | true =>
          cases isNew with
          | true => simp
          | false =>
              cases hlast : timeline.getLast? with
              | none => simp [layoutAfter, List.getLast?_eq_none_iff.1 hlast]
              | some last =>
                  have hne := hlayouts last (List.mem_of_getLast? hlast)
                  have hused : timeline ≠ [] := List.ne_nil_of_mem (List.mem_of_getLast? hlast)
                  simp [layoutAfter, hlast, hused, Ne.symm hne]

/-- A resource without uses is one that no pass of the order accesses. -/
theorem timelineOf_eq_nil_iff (order : List Nat) (kind : ResourceKind) :
    timelineOf order s.passes kind h = [] ↔ ∀ q ∈ order, (s.passAt q).involves h = false := by
  constructor
  · intro hnil q hq
    refine eq_false_of_ne_true fun hinvolves => ?_
    obtain ⟨position, hposition⟩ := List.mem_iff_getElem?.1 hq
    obtain ⟨u, hu, -⟩ : ∃ u ∈ timelineOf order s.passes kind h, u.position = position :=
      exists_mem_timelineOf hposition hinvolves
    rw [hnil] at hu
    cases hu
  · intro hnone
    apply List.eq_nil_iff_forall_not_mem.2
    intro u hu
    have hq := List.mem_of_getElem? (mem_timelineOf.1 hu).1
    have hinvolves : (s.passAt u.pass).involves h = true := involves_of_mem_timelineOf hu
    rw [hnone u.pass hq] at hinvolves
    cases hinvolves

section Tracks

variable {order before after : List Nat} {frame : FrameObjects} {image : Nat}
  (hd : Declared s.registry s.passes) (hnd : order.Nodup)
  (hget : s.registry.get? h = some resource) (hkind : resource.kind = .image)
  (himage : (frame.objects.get? h).bind DeviceObject.image? = some image)

include hd hnd hget hkind himage

/-- **The simulation tracks the barriers** along every order without repetitions. -/
theorem tracks (horder : order = before ++ after) :
    s.Tracks order frame h resource before (s.simulatedLayout before h) where
  untouched hnone := by
    rw [simulatedLayout_of_untouched hnone, ← timelineOf_eq_nil_iff order .image]
    constructor
    · apply recordedAround_eq_nil
      intro q hq
      exact on_compiled_of_not_involves hnd (hnone q hq)
    · apply initialLayout_eq_entryLayout_iff hget
      intro u hu
      exact layout_of_mem_timelineOf_image hd hget hkind hu
  touched front pass rest hbefore hpass hrest := by
    have hplace : order[front.length]? = some pass := by simp [horder, hbefore]
    obtain ⟨u, hu, hposition⟩ :
        ∃ u ∈ timelineOf order s.passes resource.kind h, u.position = front.length :=
      exists_mem_timelineOf hplace hpass
    have hr : OnTimeline order s.passes s.registry h resource
        (timelineOf order s.passes resource.kind h) := ⟨hget, rfl, List.ne_nil_of_mem hu⟩
    obtain rfl : u.pass = pass := (hr.pass_eq_iff hnd hu hplace).2 hposition
    obtain ⟨past, later, hsplit⟩ := List.append_of_mem hu
    have horder' : order = front ++ u.pass :: (rest ++ after) := by simp [horder, hbefore]
    rw [← hkind]
    refine ⟨u.state.layout, hr.follow_recordedUntil hnd hkind himage horder' hsplit hposition, ?_, ?_⟩
    · rintro ⟨q, hq, hnew, hinvolves⟩
      rw [horder] at hq
      have hafter : q ∈ after := (List.mem_append.1 hq).resolve_left hnew
      have hbefore' : before = (front ++ [u.pass]) ++ rest := by simp [hbefore]
      rw [hbefore']
      exact hr.follow_recordedAround_use hnd hkind himage hu (by rw [horder, hbefore']) hposition
        hrest ⟨q, hafter, hinvolves⟩
    · obtain ⟨-, p, hp, huse⟩ := mem_timelineOf.1 hu
      rw [hkind] at huse
      have hpassAt : s.passAt u.pass = p := by rw [passAt, List.getD_eq_getElem?_getD, hp]; rfl
      have hvalid := hd.isValid p (List.mem_of_getElem? hp)
      have hiff := Pass.layoutFor?_eq_iff hvalid hget hkind huse
      obtain ⟨layout, hlayout⟩ := Option.isSome_iff_exists.1
        (Pass.isSome_layoutFor?.2 ⟨hpassAt ▸ hpass, resource, hget, hkind⟩)
      rw [hbefore, simulatedLayout_of_touched hpass hrest, hpassAt, ← hiff, hlayout]
      simp

end Tracks

end ScheduleInput

/-- **Where the scheduler and the barriers agree on layouts.**  For every declaration, graph and marks,
and for every image: a pass with an access to the image has a required layout and a use, and they agree
exactly if the last write of the pass, if there is one, is for the usage of its first access.  In every
state of the scheduler the table holds a layout of the image, and this is, in every frame in which there
is such an image, what the barriers have established, unless the latest pass is one of the others. -/
theorem simulated_layouts_tracked {passes : List Pass} {registry : Registry}
    (hd : Declared registry passes) {edges : List Edge} {graph : DependencyGraph}
    (hgraph : (DependencyGraph.edgeless passes.length).insertEdges edges = .ok graph)
    {reachable : List Bool} (hlength : reachable.length = passes.length) {h : Handle}
    {resource : Resource} (hget : registry.get? h = some resource) (hkind : resource.kind = .image) :
    let s : ScheduleInput := ⟨passes, graph, reachable, registry⟩
    let order := (schedule passes graph reachable registry).value
    (∀ p ∈ passes, p.involves h = true → ∀ position index, ∃ layout u,
      p.layoutFor? registry h = some layout ∧ p.use? .image h position index = some u ∧
        (layout = u.state.layout ↔ p.KeepsFirstUsage h)) ∧
    ∀ counts layouts before ready, s.Visits counts layouts before ready →
      ∃ simulated, layouts.get? h = some simulated ∧
        ∀ (frame : FrameObjects) (image : Nat),
          (frame.objects.get? h).bind DeviceObject.image? = some image →
          s.Tracks order frame h resource before simulated := by
  intro s order
  have hs : s.WellFormed := ScheduleInput.wellFormed_of_insertEdges hgraph hlength registry
  constructor
  · intro p hp hinvolves position index
    obtain ⟨layout, hlayout⟩ := Option.isSome_iff_exists.1
      (Pass.isSome_layoutFor?.2 ⟨hinvolves, resource, hget, hkind⟩)
    obtain ⟨u, hu⟩ := Pass.exists_use? hinvolves .image position index
    have hiff := Pass.layoutFor?_eq_iff (hd.isValid p hp) hget hkind hu
    rw [hlayout, Option.some_inj] at hiff
    exact ⟨layout, u, hlayout, hu, hiff⟩
  · intro counts layouts before ready hv
    refine ⟨s.simulatedLayout before h, hv.simulates h resource hget hkind, ?_⟩
    intro frame image himage
    obtain ⟨later, hlater⟩ := hv.prefix_greedyOrder
    have horder : order = before ++ (later ++ s.missing s.greedyOrder) := by
      rw [← List.append_assoc, hlater]
      exact ScheduleInput.value_order_eq hs
    exact ScheduleInput.tracks hd (ScheduleInput.nodup_value_order hs) hget hkind himage horder

/-- A canvas of the graph, and a pass that samples it and then writes it as a storage image. -/
def stirDraft : PassDraft :=
  (PassDraft.performAll
    ⟨"stir", .compute, (Registry.empty.perform (.createImage "canvas" {} false)).value.2, []⟩
    [.read "canvas" .shaderRead, .write "canvas" .shaderWrite]).value.2

def stirPasses : List Pass := [stirDraft.toPass none]

theorem declared_stir : Declared stirDraft.registry stirPasses :=
  .addPass "stir" .compute _ none (.register (.createImage "canvas" {} false) .start)

/-- A frame in which there is an image behind the canvas. -/
def stirFrame : FrameObjects where
  objects := HandleMap.empty.insert (.slot 0 0) (.image 1 2)

/-- Behind such a pass the canvas is simulated in another layout than the one that it is in. -/
theorem simulated_layouts_tracked_stir :
    Declared stirDraft.registry stirPasses ∧
      ∃ counts layouts ready simulated found,
        ScheduleInput.Visits ⟨stirPasses, .edgeless 1, [true], stirDraft.registry⟩ counts layouts [0]
          ready ∧
        layouts.get? (.slot 0 0) = some simulated ∧
        Layout.undefined.follow (recordedUntil stirFrame
          (compiledAlong [0] stirPasses stirDraft.registry) (.slot 0 0) [] 0) = some found ∧
        simulated ≠ found := by
  have hgraph : (DependencyGraph.edgeless stirPasses.length).insertEdges [] = .ok (.edgeless 1) := rfl
  have hlength : [true].length = stirPasses.length := rfl
  obtain ⟨resource, hget, hkind, hentry⟩ : ∃ resource,
      stirDraft.registry.get? (.slot 0 0) = some resource ∧ resource.kind = .image ∧
        ∀ timeline isNew, resource.entryLayout timeline isNew = .undefined :=
    ⟨_, rfl, rfl, fun _ _ => rfl⟩
  obtain ⟨-, htracked⟩ := simulated_layouts_tracked declared_stir hgraph hlength hget hkind
  have horder : (schedule stirPasses (.edgeless 1) [true] stirDraft.registry).value = [0] := by
    decide +kernel
  rw [horder] at htracked
  -- The scheduler chooses the only pass.
  obtain ⟨counts, layouts, ready, hv⟩ := ScheduleInput.exists_visits_take
    ⟨stirPasses, .edgeless 1, [true], stirDraft.registry⟩ (k := 1) (by decide +kernel)
  have htake : (ScheduleInput.greedyOrder
      ⟨stirPasses, .edgeless 1, [true], stirDraft.registry⟩).take 1 = [0] := by
    decide +kernel
  rw [htake] at hv
  obtain ⟨simulated, hsimulated, htracks⟩ := htracked counts layouts [0] ready hv
  have hinvolves : (stirPasses.getD 0 default).involves (.slot 0 0) = true := by decide +kernel
  obtain ⟨found, hfound, -, hiff⟩ := (htracks stirFrame 1 (by decide)).touched [] 0 [] rfl hinvolves
    fun q hq => by cases hq
  rw [hentry] at hfound
  have hkeeps : ¬ (stirDraft.toPass none).KeepsFirstUsage (.slot 0 0) := by decide +kernel
  refine ⟨declared_stir, counts, layouts, ready, simulated, found, hv, hsimulated, hfound, ?_⟩
  intro heq
  exact hkeeps (hiff.1 heq)

/-- A pass may require another layout of an image than that of the use that it makes of the image. -/
theorem not_layouts_agree :
    ¬ ∀ registry passes, Declared registry passes → ∀ p ∈ passes, ∀ h resource,
      registry.get? h = some resource → resource.kind = .image → p.involves h = true →
      ∀ position index, p.layoutFor? registry h =
        (p.use? .image h position index).map fun u => u.state.layout := by
  intro hall
  have hsame := hall _ _ declared_stir _ List.mem_cons_self (.slot 0 0) _ rfl rfl
    (by decide +kernel) 0 0
  exact absurd hsame (by decide +kernel)

end FrameGraph
