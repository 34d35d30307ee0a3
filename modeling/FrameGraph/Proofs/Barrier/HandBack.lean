import FrameGraph.Proofs.Barrier.Needed

/-!
# What an imported resource is handed back with

After the last use of an imported resource a barrier leads it into the state in which it is handed back,
if that is in another layout or writes, or if the last write was not yet made visible to it.  A
transition between two layouts is not remembered as a write is: when the layout stays what it is,
whoever reads the resource next is covered only if the reads for which the transition was made contain
the stages and accesses of that reader.

Principal statements: `OnTimeline.on_after_last` — when there is a barrier after the last use —,
`OnTimeline.eventsAlong_eq`, and from both `OnTimeline.handed_back_visibly_iff`.
-/

set_option autoImplicit false

namespace FrameGraph

/-! ## The last write -/

/-- The state of the last write of some uses, or that in which the resource was handed over. -/
def lastWritten (initial : ImageState) (uses : List Use) : ImageState :=
  uses.foldl (fun state u => if u.isWrite then u.state else state) initial

theorem lastWritten_concat (initial : ImageState) (uses : List Use) (u : Use) :
    lastWritten initial (uses ++ [u]) =
      if u.isWrite then u.state else lastWritten initial uses := by
  rw [lastWritten, List.foldl_concat]
  rfl

theorem lastWritten_reads (initial : ImageState) (uses : List Use) {reads : List Use}
    (hreads : ∀ u ∈ reads, u.isWrite = false) :
    lastWritten initial (uses ++ reads) = lastWritten initial uses := by
  induction reads using List.reverseRecOn with
  | nil => rw [List.append_nil]
  | append_singleton reads u ih =>
      rw [← List.append_assoc, lastWritten_concat, hreads u (by simp),
        ih fun v hv => hreads v (List.mem_append_left _ hv)]
      rfl

theorem isWrite_source_along (initial : ImageState) (past later : List Use) :
    ((SyncState.arriving initial).along later past).source.isWrite =
      (lastWritten initial past).isWrite := by
  induction past using List.reverseRecOn generalizing later with
  | nil => exact SyncState.isWrite_source_arriving initial
  | append_singleton past u ih =>
      rw [along_concat, SyncState.isWrite_source_after, lastWritten_concat, ih (u :: later)]
      cases u.isWrite <;> rfl

theorem readsSinceWrite_reads (past : List Use) {u : Use} (hu : u.isWrite = true) {reads : List Use}
    (hreads : ∀ v ∈ reads, v.isWrite = false) :
    readsSinceWrite (past ++ u :: reads) = reads := by
  induction reads using List.reverseRecOn with
  | nil => exact readsSinceWrite_write hu past
  | append_singleton reads v ih =>
      rw [← List.cons_append, ← List.append_assoc, readsSinceWrite_read (hreads v (by simp)),
        ih fun w hw => hreads w (List.mem_append_left _ hw)]

/-- At the end no reads are still to come. -/
theorem shownReads_end (timeline : List Use) : shownReads timeline [] = readsSinceWrite timeline := by
  cases timeline using List.reverseRecOn with
  | nil => rfl
  | append_singleton front last =>
      cases hw : last.isWrite with
      | true => rw [shownReads_write hw, readsSinceWrite_write hw]
      | false => rw [shownReads_read hw, readsSinceWrite_read hw]; rfl

/-! ## The barrier after the last use -/

/-- What calls for a barrier that hands the resource back: the resource is in another layout, whoever
takes it writes, or the last write was not made visible to whoever reads it. -/
def Handover.IsDue (handover : Handover) (timeline : List Use) : Prop :=
  handover.final.isWrite = true ∨
    (∃ last ∈ timeline.getLast?, last.state.layout ≠ handover.final.layout) ∨
    (lastWritten handover.initial timeline).isWrite = true ∧
      ¬(stateOfUses handover.final.layout (readsSinceWrite timeline)).Contains handover.final

section Plan

variable {order : List Nat} {passes : List Pass} {registry : Registry} {h : Handle}
  {resource : Resource} {timeline : Timeline} {handover : Handover}

/-- A barrier on an image that is kept for its own sake is needed. -/
theorem isNeeded_of_isEffective {t : Transition} (hkind : resource.kind = .image)
    (heffective : (barrierFor h resource false t).isEffective = true) : t.isNeeded = true := by
  unfold barrierFor at heffective
  cases hinfo : resource.info with
  | buffer info =>
      rw [Resource.kind, hinfo] at hkind
      cases hkind
  | image info =>
      rw [hinfo] at heffective
      exact heffective

theorem isWrite_source_syncAfter (hhandover : resource.handover? = some handover)
    (timeline : Timeline) : (resource.syncAfter timeline).source.isWrite =
      (lastWritten handover.initial timeline).isWrite := by
  rw [Resource.syncAfter, arrivalState_imported hhandover]
  exact isWrite_source_along handover.initial timeline []

namespace OnTimeline

variable (hr : OnTimeline order passes registry h resource timeline) (hd : Declared registry passes)
  (hhandover : resource.handover? = some handover)

include hr hd hhandover

/-- When a resource that is read next is settled. -/
theorem isSettledFor_syncAfter (state : ImageState) :
    (resource.syncAfter timeline).isSettledFor state = true ↔
      (resource.syncAfter timeline).write = none ∨
        (stateOfUses state.layout (readsSinceWrite timeline)).Contains state := by
  have hshows := shows_along handover.initial timeline [] fun u hu => hr.fits hd hu
  rw [shownReads_end] at hshows
  rw [Resource.syncAfter, arrivalState_imported hhandover]
  exact hshows.isSettledFor_iff state state.layout

/-- Behind its last use a resource is busy. -/
theorem isBusy_syncAfter : (resource.syncAfter timeline).isBusy = true := by
  obtain ⟨front, hsplit⟩ := List.getLast?_eq_some_iff.1 (List.getLast?_eq_some_getLast hr.used)
  have hlast := hr.fits hd (List.getLast_mem hr.used)
  rw [Resource.syncAfter, arrivalState_imported hhandover]
  generalize timeline.getLast hr.used = last at hsplit hlast
  rw [hsplit, along_concat]
  exact SyncState.isBusy_of_waits
    (Mask.isEmpty_of_contains (SyncState.waits_after_contains ..) hlast.staged)

/-- **A resource is handed back with a barrier that has an effect exactly if one is due.** -/
theorem isDue_iff (haccess : handover.final.access ≠ Access.none) :
    handover.IsDue timeline ↔ ∃ t, handBack? resource (resource.syncAfter timeline) = some t ∧
      t.target = handover.final ∧ t.isNeeded = true := by
  have hlast := List.getLast?_eq_some_getLast hr.used
  have hlayout := layout_syncAfter resource hlast
  have hbusy := hr.isBusy_syncAfter hd hhandover
  have hsource := isWrite_source_syncAfter hhandover timeline
  have hsettled := hr.isSettledFor_syncAfter hd hhandover handover.final
  rw [handBack?_of_handover hhandover]
  generalize resource.syncAfter timeline = s at hlayout hbusy hsource hsettled ⊢
  constructor
  · intro hdue
    refine ⟨⟨s.source, handover.final⟩, SyncState.handBack?_eq_some_iff.2 ⟨rfl, ?_⟩, rfl, ?_⟩
    · rcases hdue with hw | ⟨last, hlast', hne⟩ | ⟨hwritten, hhidden⟩
      · exact .inr (.inl ⟨hw, hbusy⟩)
      · obtain rfl := Option.some.inj (hlast.symm.trans hlast')
        exact .inl fun heq => hne (heq.trans hlayout).symm
      · cases hw : handover.final.isWrite with
        | true => exact .inr (.inl ⟨rfl, hbusy⟩)
        | false =>
            refine .inr (.inr ⟨rfl, haccess, Bool.eq_false_iff.2 fun hs => ?_⟩)
            rcases hsettled.1 hs with hnone | hcontains
            · rw [← hsource, ImageState.isWrite, SyncState.source_access_of_none hnone] at hwritten
              cases hwritten
            · exact hhidden hcontains
    · rcases hdue with hw | ⟨last, hlast', hne⟩ | ⟨hwritten, -⟩
      · simp [Transition.isNeeded, hw]
      · obtain rfl := Option.some.inj (hlast.symm.trans hlast')
        simp [Transition.isNeeded, hlayout, hne]
      · simp [Transition.isNeeded, hsource, hwritten]
  · rintro ⟨t, ht, -, hneeded⟩
    obtain ⟨rfl, hcases⟩ := SyncState.handBack?_eq_some_iff.1 ht
    rcases hcases with hne | ⟨hw, -⟩ | ⟨hw, -, hnot⟩
    · exact .inr (.inl ⟨_, hlast, fun heq => hne (heq.symm.trans hlayout.symm)⟩)
    · exact .inl hw
    · by_cases hsame : s.layout = handover.final.layout
      · refine .inr (.inr ⟨?_, fun hcontains => ?_⟩)
        · rw [← hsource]
          simpa [Transition.isNeeded, hw, hsame] using hneeded
        · rw [hsettled.2 (.inr hcontains)] at hnot
          cases hnot
      · exact .inr (.inl ⟨_, hlast, hlayout ▸ hsame⟩)

/-- **After the last use there is a barrier if one is due**, and it leads into the state in which the
resource is handed back; for an image there is one only then. -/
theorem on_after_last (hnd : order.Nodup) (haccess : handover.final.access ≠ Access.none)
    {last : Use} (hlast : timeline.getLast? = some last) :
    (aroundPass (compiledAlong order passes registry) last.pass).after.on h = [] ∧
        ¬handover.IsDue timeline ∨
      ∃ b, (aroundPass (compiledAlong order passes registry) last.pass).after.on h = [b] ∧
        b.transition.target = handover.final ∧
        (resource.kind = .image → handover.IsDue timeline) := by
  have hdue := hr.isDue_iff hd hhandover haccess
  rw [hr.on_after_compiled hnd hlast, if_pos rfl]
  cases ht : handBack? resource (resource.syncAfter timeline) with
  | none =>
      refine .inl ⟨rfl, fun hisDue => ?_⟩
      obtain ⟨t, ht', -⟩ := hdue.1 hisDue
      rw [ht] at ht'
      cases ht'
  | some t =>
      have hbuffer := fun hkind => hr.layouts_of_handBack hd ht hkind
      obtain ⟨handover', hhandover', rfl⟩ := handBack?_eq_some ht
      obtain rfl := Option.some.inj (hhandover.symm.trans hhandover')
      rw [Option.toList_some, List.map_cons, List.map_nil, List.filter_cons, List.filter_nil]
      split
      · next heffective =>
          refine .inr ⟨_, rfl, by rw [transition_barrierFor false hbuffer], fun hkind => ?_⟩
          exact hdue.2 ⟨_, ht, rfl, isNeeded_of_isEffective hkind heffective⟩
      · next hineffective =>
          refine .inl ⟨rfl, fun hisDue => hineffective ?_⟩
          obtain ⟨t, ht', -, hneeded⟩ := hdue.1 hisDue
          obtain rfl := Option.some.inj (ht.symm.trans ht')
          exact isEffective_barrierFor false hbuffer hneeded

end OnTimeline

end Plan

/-! ## What happens to a resource -/

/-- What happens to a resource in a frame: a barrier on it, or a use. -/
inductive ResourceEvent where
  | barrier (b : ResourceBarrier)
  | use (u : Use)
  deriving DecidableEq

namespace ResourceEvent

/-- Holds for a write and for a transition to another layout. -/
def isChange : ResourceEvent → Bool
  | .barrier b => b.transition.source.layout ≠ b.transition.target.layout
  | .use u => u.isWrite

end ResourceEvent

/-- What happens to a resource along an execution order. -/
def eventsAlong (order : List Nat) (passes : List Pass) (all : List AroundPass)
    (kind : ResourceKind) (h : Handle) : List ResourceEvent :=
  order.zipIdx.flatMap fun (pass, position) =>
    ((aroundPass all pass).before.on h).map .barrier ++
      ((passes[pass]?).bind fun p => p.use? kind h position pass).toList.map .use ++
      ((aroundPass all pass).after.on h).map .barrier

/-- What happens to a resource around one of its uses. -/
def eventsAt (all : List AroundPass) (h : Handle) (u : Use) : List ResourceEvent :=
  ((aroundPass all u.pass).before.on h).map .barrier ++
    .use u :: ((aroundPass all u.pass).after.on h).map .barrier

/-- A barrier after the last use is the last of all events. -/
theorem getLast?_events {all : List AroundPass} {h : Handle} {uses : List Use} {last : Use}
    (hlast : uses.getLast? = some last) {b : ResourceBarrier}
    (hone : (aroundPass all last.pass).after.on h = [b]) :
    (uses.flatMap (eventsAt all h)).getLast? = some (.barrier b) := by
  obtain ⟨front, rfl⟩ := List.getLast?_eq_some_iff.1 hlast
  rw [List.flatMap_append, List.flatMap_singleton, eventsAt, hone]
  simp

section Lists

variable {α β γ : Type}

/-- What is empty for all that is not taken lies along what is taken. -/
theorem flatMap_eq_flatMap_filterMap {f : α → Option β} {g : α → List γ} {k : β → List γ}
    {l : List α} (hnone : ∀ a ∈ l, f a = none → g a = [])
    (hsome : ∀ a ∈ l, ∀ b, f a = some b → g a = k b) :
    l.flatMap g = (l.filterMap f).flatMap k := by
  induction l with
  | nil => rfl
  | cons a rest ih =>
      have hrest := ih (fun x hx => hnone x (List.mem_cons_of_mem _ hx))
        fun x hx => hsome x (List.mem_cons_of_mem _ hx)
      rw [List.flatMap_cons, hrest]
      cases ha : f a with
      | none => rw [List.filterMap_cons_none ha, hnone a List.mem_cons_self ha, List.nil_append]
      | some b =>
          rw [List.filterMap_cons_some ha, List.flatMap_cons, hsome a List.mem_cons_self b ha]

theorem exists_split_of_append {l r front rest : List α} {e : α}
    (h : l ++ r = front ++ e :: rest) :
    (∃ rest', l = front ++ e :: rest' ∧ rest = rest' ++ r) ∨
      ∃ front', r = front' ++ e :: rest ∧ front = l ++ front' := by
  rcases List.append_eq_append_iff.1 h with ⟨front', rfl, hr⟩ | ⟨tail, hl, hr⟩
  · exact .inr ⟨front', hr, rfl⟩
  · cases tail with
    | nil =>
        rw [List.append_nil] at hl
        exact .inr ⟨[], hr.symm, by rw [hl, List.append_nil]⟩
    | cons a tail =>
        obtain ⟨rfl, rfl⟩ := List.cons.inj hr
        exact .inl ⟨tail, hl, rfl⟩

/-- An element of a list of lists lies in one of them. -/
theorem exists_split_of_flatMap {f : α → List β} {l : List α} {front rest : List β} {e : β}
    (h : l.flatMap f = front ++ e :: rest) :
    ∃ before a later front' rest', l = before ++ a :: later ∧ f a = front' ++ e :: rest' ∧
      rest = rest' ++ later.flatMap f := by
  induction l generalizing front with
  | nil => simp at h
  | cons a later ih =>
      rw [List.flatMap_cons] at h
      rcases exists_split_of_append h with ⟨rest', hfa, hrest⟩ | ⟨front', hlater, -⟩
      · exact ⟨[], a, later, front, rest', rfl, hfa, hrest⟩
      · obtain ⟨before, b, later', front'', rest', rfl, hfb, hrest⟩ := ih hlater
        exact ⟨a :: before, b, later', front'', rest', rfl, hfb, hrest⟩

end Lists

section Events

variable {order : List Nat} {passes : List Pass} {registry : Registry} {h : Handle}
  {resource : Resource} {timeline : Timeline} {handover : Handover}

namespace OnTimeline

variable (hr : OnTimeline order passes registry h resource timeline) (hnd : order.Nodup)

include hr hnd

/-- What happens to a resource happens around its uses. -/
theorem eventsAlong_eq :
    eventsAlong order passes (compiledAlong order passes registry) resource.kind h =
      timeline.flatMap (eventsAt (compiledAlong order passes registry) h) := by
  rw [← hr.timeline_eq]
  refine flatMap_eq_flatMap_filterMap (fun entry hentry hnone => ?_) fun entry hentry u hu => ?_
  · obtain ⟨pass, position⟩ := entry
    have hunused : ∀ u ∈ timeline, u.position ≠ position := by
      rintro u hu rfl
      rw [← hr.timeline_eq] at hu
      obtain ⟨hpass, p, hp, huse⟩ := mem_timelineOf.1 hu
      obtain rfl : u.pass = pass :=
        Option.some.inj (hpass.symm.trans (List.mk_mem_zipIdx_iff_getElem?.1 hentry))
      simp only [hp, Option.bind_some, huse] at hnone
      cases hnone
    obtain ⟨hbefore, hafter⟩ := hr.on_compiled_of_unused_at hnd
      (List.mk_mem_zipIdx_iff_getElem?.1 hentry) hunused
    dsimp only at hnone ⊢
    rw [hbefore, hafter, hnone]
    rfl
  · obtain ⟨pass, position⟩ := entry
    dsimp only at hu ⊢
    obtain ⟨p, -, huse⟩ := Option.bind_eq_some_iff.1 hu
    obtain ⟨-, rfl⟩ := Pass.use?_place huse
    rw [hu, eventsAt, List.append_assoc]
    rfl

variable (hd : Declared registry passes)

include hd

/-- Before a read that follows another use there is a barrier exactly if that writes or the layout
changes: for reads presentation makes no difference, since they are in other layouts. -/
theorem on_before_read {past later : List Use} {u v : Use}
    (hsplit : timeline = past ++ u :: v :: later) (hv : v.isWrite = false) :
    ∃ source : ImageState, source.layout = u.state.layout ∧
      ((aroundPass (compiledAlong order passes registry) v.pass).before.on h).map
          ResourceBarrier.transition =
        if u.isWrite = true ∨ v.state.layout ≠ u.state.layout then
          [⟨source, requiredState v later⟩] else [] := by
  have hufits := hr.fits hd (u := u) (by rw [hsplit]; simp)
  have hvfits := hr.fits hd (u := v) (by rw [hsplit]; simp)
  have hu : u.isWrite = true → u.state.isWrite = true ∨ v.state.layout ≠ u.state.layout := by
    intro hu
    by_cases hpresent : u.state.layout = .presentSrc
    · exact .inr (hpresent ▸ (hvfits.readOnly hv).2)
    · exact .inl (hufits.writing hu hpresent)
  have hbefore := hr.on_before_next hd hnd hsplit hu fun hw => by
    rw [hv] at hw
    cases hw
  rw [along_concat, SyncState.transition, SyncState.target_eq] at hbefore
  simp only [hv, Bool.false_eq_true, false_or] at hbefore
  refine ⟨_, ?_, hbefore⟩
  rw [SyncState.source_layout, SyncState.after_layout]

/-- If nothing changes behind a use, all that follows are reads in its layout. -/
theorem reads_of_quiet {past later : List Use} {v : Use} (hsplit : timeline = past ++ v :: later)
    (hquiet : ∀ x ∈ later.flatMap (eventsAt (compiledAlong order passes registry) h),
      x.isChange = false) :
    ∀ w ∈ later, w.isWrite = false ∧ w.state.layout = v.state.layout := by
  induction later generalizing past v with
  | nil => intro w hw; cases hw
  | cons r rest ih =>
      rw [List.flatMap_cons] at hquiet
      have hread : r.isWrite = false := hquiet (.use r) (by simp [eventsAt])
      have hlayout : r.state.layout = v.state.layout := by
        obtain ⟨source, hsource, hbefore⟩ := hr.on_before_read hnd hd hsplit hread
        refine Decidable.byContradiction fun hne => ?_
        rw [if_pos (.inr hne)] at hbefore
        obtain ⟨b, hb, ht⟩ := List.map_eq_singleton_iff.1 hbefore
        have hunchanged := hquiet (.barrier b) (by simp [eventsAt, hb])
        rw [ResourceEvent.isChange, ht] at hunchanged
        have hsame : source.layout = (requiredState r rest).layout :=
          of_not_not (of_decide_eq_false hunchanged)
        rw [hsource, ← SyncState.target_eq, SyncState.layout_target] at hsame
        exact hne hsame.symm
      have hsplit' : timeline = (past ++ [v]) ++ r :: rest := by rw [hsplit]; simp
      intro w hw
      rcases List.mem_cons.1 hw with rfl | hw
      · exact ⟨hread, hlayout⟩
      · obtain ⟨hwread, hwlayout⟩ := ih hsplit'
          (fun x hx => hquiet x (List.mem_append_right _ hx)) w hw
        exact ⟨hwread, hwlayout.trans hlayout⟩

/-- Among reads in one layout there are no barriers. -/
theorem no_barrier_of_reads {past later : List Use} {u : Use}
    (hsplit : timeline = past ++ u :: later) (hu : u.isWrite = false)
    (hlater : ∀ w ∈ later, w.isWrite = false ∧ w.state.layout = u.state.layout)
    (hafter : ∀ w ∈ timeline,
      (aroundPass (compiledAlong order passes registry) w.pass).after.on h = [])
    (b : ResourceBarrier) :
    .barrier b ∉ later.flatMap (eventsAt (compiledAlong order passes registry) h) := by
  induction later generalizing past u with
  | nil => simp
  | cons r rest ih =>
      obtain ⟨hread, hlayout⟩ := hlater r List.mem_cons_self
      have hsplit' : timeline = (past ++ [u]) ++ r :: rest := by rw [hsplit]; simp
      obtain ⟨source, -, hbefore⟩ := hr.on_before_read hnd hd hsplit hread
      rw [if_neg (by simp [hu, hlayout]), List.map_eq_nil_iff] at hbefore
      have hrest := ih hsplit' hread fun w hw => by
        obtain ⟨hwread, hwlayout⟩ := hlater w (List.mem_cons_of_mem _ hw)
        exact ⟨hwread, hwlayout.trans hlayout.symm⟩
      rw [List.flatMap_cons, List.mem_append, not_or]
      exact ⟨by simp [eventsAt, hbefore, hafter r (by rw [hsplit]; simp)], hrest⟩

/-- The barrier between a write and the reads that follow it leads to all of them. -/
theorem exists_barrier_before_reads {past later : List Use} {v r : Use}
    (hsplit : timeline = past ++ v :: r :: later) (hv : v.isWrite = true)
    (hlater : ∀ w ∈ r :: later, w.isWrite = false ∧ w.state.layout = v.state.layout) :
    ∃ b ∈ (aroundPass (compiledAlong order passes registry) r.pass).before.on h,
      b.transition.target = stateOfUses v.state.layout (r :: later) := by
  obtain ⟨hread, hlayout⟩ := hlater r List.mem_cons_self
  obtain ⟨source, -, hbefore⟩ := hr.on_before_read hnd hd hsplit hread
  rw [if_pos (.inl hv)] at hbefore
  obtain ⟨b, hb, ht⟩ := List.map_eq_singleton_iff.1 hbefore
  refine ⟨b, by rw [hb]; exact List.mem_singleton_self b, ?_⟩
  have hrun : readRun r later = r :: later := readRun_eq_self fun w hw => by
    obtain ⟨hwread, hwlayout⟩ := hlater w (List.mem_cons_of_mem _ hw)
    exact ⟨hwread, hwlayout.trans hlayout.symm⟩
  rw [ht, requiredState, hread, hrun, hlayout]
  rfl

/-- What is planned for a buffer changes no layout. -/
theorem exists_use_of_buffer (hkind : resource.kind = .buffer) {e : ResourceEvent}
    (he : e ∈ timeline.flatMap (eventsAt (compiledAlong order passes registry) h))
    (hchange : e.isChange = true) : ∃ u, e = .use u ∧ u.state.isWrite = true := by
  obtain ⟨u, hu, heu⟩ := List.mem_flatMap.1 he
  have hnone : ∀ b, b ∈ (aroundPass (compiledAlong order passes registry) u.pass).before.on h ∨
      b ∈ (aroundPass (compiledAlong order passes registry) u.pass).after.on h →
      (ResourceEvent.barrier b).isChange = false := by
    intro b hb
    rw [Barriers.on_eq_filter, Barriers.on_eq_filter, List.mem_filter, List.mem_filter] at hb
    obtain ⟨resource', hlive, hbkind⟩ :=
      kind_of_mem_compiled hnd (hb.imp (fun hx => hx.1) fun hx => hx.1)
    have hbresource : b.resource = h := hb.elim (fun hx => of_decide_eq_true hx.2)
      fun hx => of_decide_eq_true hx.2
    rw [hbresource, hr.live] at hlive
    obtain rfl := Option.some.inj hlive
    rw [hkind] at hbkind
    cases b with
    | image b => cases hbkind
    | buffer b => rfl
  rcases List.mem_append.1 heu with heu | heu
  · obtain ⟨b, hb, rfl⟩ := List.mem_map.1 heu
    rw [hnone b (.inl hb)] at hchange
    cases hchange
  · rcases List.mem_cons.1 heu with rfl | heu
    · refine ⟨u, rfl, (hr.fits hd hu).writing hchange ?_⟩
      rw [hr.layout_of_buffer hd hkind hu]
      decide
    · obtain ⟨b, hb, rfl⟩ := List.mem_map.1 heu
      rw [hnone b (.inr hb)] at hchange
      cases hchange

/-- **What the last change is**, if no barrier comes after a use: a transition before a read, with no
barrier behind it, or a write, with nothing behind it but reads in its layout. -/
theorem lastChange_cases {front rest : List ResourceEvent} {e : ResourceEvent}
    (hafter : ∀ w ∈ timeline,
      (aroundPass (compiledAlong order passes registry) w.pass).after.on h = [])
    (hevents : timeline.flatMap (eventsAt (compiledAlong order passes registry) h) =
      front ++ e :: rest)
    (hlast : ∀ x ∈ rest, x.isChange = false) :
    (∃ b, e = .barrier b ∧ ∀ b', .barrier b' ∉ rest) ∨
      ∃ past v later, timeline = past ++ v :: later ∧ e = .use v ∧
        rest = later.flatMap (eventsAt (compiledAlong order passes registry) h) ∧
        ∀ w ∈ later, w.isWrite = false ∧ w.state.layout = v.state.layout := by
  obtain ⟨past, v, later, front', rest', hsplit, hv, rfl⟩ := exists_split_of_flatMap hevents
  have hquiet := hr.reads_of_quiet hnd hd hsplit fun x hx => hlast x (List.mem_append_right _ hx)
  rw [eventsAt, hafter v (by rw [hsplit]; simp)] at hv
  rcases exists_split_of_append hv with ⟨between, hbefore, rfl⟩ | ⟨front'', huse, -⟩
  · have hread : v.isWrite = false := hlast (.use v) (by simp)
    have hlength := hr.length_on_before_le hnd v.pass
    rw [← List.length_map ResourceEvent.barrier, hbefore, List.length_append,
      List.length_cons] at hlength
    obtain rfl : between = [] := List.length_eq_zero_iff.1 (by omega)
    obtain ⟨b, -, rfl⟩ := List.mem_map.1 (hbefore ▸ List.mem_append_right front'
      (List.mem_singleton_self e))
    have hno := hr.no_barrier_of_reads hnd hd hsplit hread hquiet hafter
    exact .inl ⟨b, rfl, fun b' => by simp [hno b']⟩
  · obtain ⟨rfl, rfl⟩ : e = .use v ∧ rest' = [] := by
      cases front'' with
      | nil => exact ⟨(List.cons.inj huse).1.symm, (List.cons.inj huse).2.symm⟩
      | cons x front'' => simp at huse
    exact .inr ⟨past, v, later, hsplit, rfl, List.nil_append _, hquiet⟩

variable (haccess : handover.final.access ≠ Access.none)

include haccess

/-- Behind a write, the reads wait together for all that the resource is handed back for, unless a
barrier after them is due. -/
theorem visible_behind_write {past later : List Use} {v : Use}
    (hsplit : timeline = past ++ v :: later) (hv : v.isWrite = true)
    (hlater : ∀ w ∈ later, w.isWrite = false ∧ w.state.layout = v.state.layout)
    (hdue : ¬handover.IsDue timeline) :
    (∃ b, .barrier b ∈ later.flatMap (eventsAt (compiledAlong order passes registry) h) ∧
      b.transition.target.Contains handover.final) ↔ v.state.isWrite = true := by
  have hfits := hr.fits hd (u := v) (by rw [hsplit]; simp)
  constructor
  · rintro ⟨b, hb, -⟩
    refine Classical.byContradiction fun hnot => ?_
    -- A write that touches no memory presents the image, and no read finds it in that layout.
    have hpresent : v.state.layout = .presentSrc :=
      Decidable.byContradiction fun hne => hnot (hfits.writing hv hne)
    obtain ⟨r, hr', -⟩ := List.mem_flatMap.1 hb
    obtain ⟨hread, hlayout⟩ := hlater r hr'
    have hrfits := hr.fits hd (u := r) (by rw [hsplit]; simp [hr'])
    exact (hrfits.readOnly hread).2 (hlayout.trans hpresent)
  · intro hstate
    have hreads : ∀ w ∈ later, w.isWrite = false := fun w hw => (hlater w hw).1
    have hwritten : lastWritten handover.initial timeline = v.state := by
      rw [hsplit, List.append_cons, lastWritten_reads _ _ hreads, lastWritten_concat, if_pos hv]
    have hsince : readsSinceWrite timeline = later := by
      rw [hsplit, readsSinceWrite_reads past hv hreads]
    have hcontains : (stateOfUses handover.final.layout later).Contains handover.final := by
      refine Decidable.byContradiction fun hnot => hdue (.inr (.inr ⟨?_, ?_⟩))
      · rwa [hwritten]
      · rwa [hsince]
    cases later with
    | nil => exact absurd hcontains (not_contains_nil (.inr haccess))
    | cons r rest =>
        obtain ⟨b, hb, htarget⟩ := hr.exists_barrier_before_reads hnd hd hsplit hv hlater
        refine ⟨b, ?_, htarget ▸ hcontains⟩
        rw [List.flatMap_cons, eventsAt]
        exact List.mem_append_left _ (List.mem_append_left _ (List.mem_map_of_mem hb))

variable (hhandover : resource.handover? = some handover)

include hhandover

/-- **To what the last change of a resource is visible.** -/
theorem handed_back_visibly_iff {front rest : List ResourceEvent} {e : ResourceEvent}
    (hevents : eventsAlong order passes (compiledAlong order passes registry) resource.kind h =
      front ++ e :: rest)
    (hchange : e.isChange = true) (hlast : ∀ x ∈ rest, x.isChange = false) :
    (∃ b, .barrier b ∈ e :: rest ∧ b.transition.target.Contains handover.final) ↔
      handover.IsDue timeline ∨ (∃ u, e = .use u ∧ u.state.isWrite = true) ∨
        ∃ b, e = .barrier b ∧ b.transition.target.Contains handover.final := by
  rw [hr.eventsAlong_eq hnd] at hevents
  obtain ⟨last, hend⟩ : ∃ last, timeline.getLast? = some last :=
    ⟨_, List.getLast?_eq_some_getLast hr.used⟩
  rcases hr.on_after_last hd hhandover hnd haccess hend with ⟨hnone, hdue⟩ | ⟨b, hone, htarget, hisDue⟩
  · -- There is no barrier after the last use.
    have hafter : ∀ w ∈ timeline,
        (aroundPass (compiledAlong order passes registry) w.pass).after.on h = [] := by
      intro w hw
      by_cases hpass : last.pass = w.pass
      · rw [← hpass]
        exact hnone
      · rw [hr.on_after_compiled hnd hend, if_neg hpass]
    rcases hr.lastChange_cases hnd hd hafter hevents hlast with
      ⟨b, rfl, hno⟩ | ⟨past, v, later, hsplit, rfl, rfl, hreads⟩
    · -- A transition is only visible to the reads for which it is made.
      constructor
      · rintro ⟨b', hb', hcontains⟩
        have heq : b' = b := by simpa [hno b'] using hb'
        exact .inr (.inr ⟨b, rfl, heq ▸ hcontains⟩)
      · rintro (hdue' | ⟨u, hu, -⟩ | ⟨b', hb', hcontains⟩)
        · exact absurd hdue' hdue
        · cases hu
        · exact ⟨b', hb' ▸ List.mem_cons_self, hcontains⟩
    · -- The reads behind a write wait for it together.
      have hvisible := hr.visible_behind_write hnd hd haccess hsplit hchange hreads hdue
      constructor
      · rintro ⟨b, hb, hcontains⟩
        have hmem := (List.mem_cons.1 hb).resolve_left (by simp)
        exact .inr (.inl ⟨v, rfl, hvisible.1 ⟨b, hmem, hcontains⟩⟩)
      · rintro (hdue' | ⟨u, hu, hstate⟩ | ⟨b, hb, -⟩)
        · exact absurd hdue' hdue
        · cases hu
          obtain ⟨b, hb, hcontains⟩ := hvisible.2 hstate
          exact ⟨b, List.mem_cons_of_mem _ hb, hcontains⟩
        · cases hb
  · -- The last event is the barrier after the last use.
    refine iff_of_true ⟨b, ?_, ?_⟩ ?_
    · have hevent := getLast?_events hend hone
      rw [hevents, List.getLast?_append, List.getLast?_cons, Option.some_or] at hevent
      exact List.mem_of_getLast? (by rw [List.getLast?_cons, hevent])
    · rw [htarget]
      exact ⟨Mask.contains_refl _, Mask.contains_refl _⟩
    · cases hkind : resource.kind with
      | image => exact .inl (hisDue hkind)
      | buffer =>
          refine .inr (.inl (hr.exists_use_of_buffer hnd hd hkind ?_ hchange))
          rw [hevents]
          exact List.mem_append_right _ List.mem_cons_self

end OnTimeline

end Events

/-! ## The compiled plan -/

/-- **To what the last write or transition of a frame is visible.**  Of an imported resource that is
handed back for some access, take the last write or change of the layout in the frame.  That transition
itself or a barrier behind it leads to all stages and accesses for which the resource is handed back,
exactly if a barrier after the last use is due, or it is a write to memory, or the transition itself does.
What is missing is a transition before reads after which no barrier is due: it is only visible to these
reads. -/
theorem compiled_handed_back_iff {registry : Registry} {passes : List Pass}
    (hd : Declared registry passes) {order : List Nat} (hnd : order.Nodup) {h : Handle}
    {timeline : Timeline} {resource : Resource} {handover : Handover}
    (ht : (UsageTable.along order passes registry).get? h = some timeline)
    (hlive : registry.get? h = some resource) (hhandover : resource.handover? = some handover)
    (haccess : handover.final.access ≠ Access.none) {front rest : List ResourceEvent}
    {e : ResourceEvent}
    (hevents : eventsAlong order passes (compiledAlong order passes registry) resource.kind h =
      front ++ e :: rest)
    (hchange : e.isChange = true) (hlast : ∀ x ∈ rest, x.isChange = false) :
    (∃ b, .barrier b ∈ e :: rest ∧ b.transition.target.Contains handover.final) ↔
      handover.IsDue timeline ∨ (∃ u, e = .use u ∧ u.state.isWrite = true) ∨
        ∃ b, e = .barrier b ∧ b.transition.target.Contains handover.final := by
  obtain ⟨resource', hr⟩ := exists_onTimeline ht
  obtain rfl : resource = resource' := Option.some.inj (hlive.symm.trans hr.live)
  exact hr.handed_back_visibly_iff hnd hd haccess hhandover hevents hchange hlast

/-- A buffer that is handed back to be copied. -/
def copiedRegistry : Registry :=
  (Registry.empty.perform (.importBuffer "counter" 1 {} .undefined .transferSrc)).value.2

/-- A pass that writes the buffer. -/
def copiedWriter : PassDraft :=
  (PassDraft.performAll ⟨"count", .compute, copiedRegistry, []⟩
    [.write "counter" .shaderWrite]).value.2

theorem declared_copiedWriter :
    Declared copiedWriter.registry ([] ++ [copiedWriter.toPass none]) :=
  .addPass _ _ _ _ (.register (.importBuffer "counter" 1 {} .undefined .transferSrc) .start)

/-- The write of the buffer is visible to the copy. -/
theorem compiled_handed_back_iff_written :
    ∃ u rest, eventsAlong [0] ([] ++ [copiedWriter.toPass none])
        (compiledAlong [0] ([] ++ [copiedWriter.toPass none]) copiedWriter.registry) .buffer
        (.slot 0 0) = [] ++ .use u :: rest ∧ u.isWrite = true ∧
      ∃ b, .barrier b ∈ ResourceEvent.use u :: rest ∧
        b.transition.target.Contains BufferState.transferSrc.toImageState := by
  have hnd : [0].Nodup := by decide
  have ht : (UsageTable.along [0] ([] ++ [copiedWriter.toPass none]) copiedWriter.registry).get?
      (.slot 0 0) = some [⟨0, 0, .shaderWrite, false, true,
        ⟨Stage.computeShader, Access.none ||| Access.storageWrite, .undefined⟩⟩] := by decide
  have hevents : eventsAlong [0] ([] ++ [copiedWriter.toPass none])
      (compiledAlong [0] ([] ++ [copiedWriter.toPass none]) copiedWriter.registry) .buffer
      (.slot 0 0) = [] ++
        .use ⟨0, 0, .shaderWrite, false, true,
          ⟨Stage.computeShader, Access.none ||| Access.storageWrite, .undefined⟩⟩ ::
        [.barrier (.buffer ⟨.slot 0 0, ⟨Stage.computeShader, Access.storageWrite⟩, .transferSrc,
          0, wholeSize, false⟩)] := by
    rw [compiledAlong_eq hnd]
    decide
  refine ⟨_, _, hevents, rfl, ?_⟩
  exact (compiled_handed_back_iff declared_copiedWriter hnd ht rfl rfl (by decide) hevents rfl
    (by decide)).2 (.inr (.inl ⟨_, rfl, by decide⟩))

/-- An image that was copied from and is handed back to be sampled by a fragment shader. -/
def sampledRegistry : Registry :=
  (Registry.empty.perform (.importImage "texture" 1 2 {} .transferSrc .shaderReadFragment)).value.2

/-- A pass that samples it in a compute shader. -/
def sampledReader : PassDraft :=
  (PassDraft.performAll ⟨"shade", .compute, sampledRegistry, []⟩
    [.read "texture" .shaderRead]).value.2

theorem declared_sampledReader :
    Declared sampledReader.registry ([] ++ [sampledReader.toPass none]) :=
  .addPass _ _ _ _ (.register (.importImage "texture" 1 2 {} .transferSrc .shaderReadFragment) .start)

/-- A transition is not made visible to whoever takes the resource in the layout of the last reads. -/
theorem not_handed_back_visibly :
    ¬ ∀ (registry : Registry) (passes : List Pass) (order : List Nat) (h : Handle)
      (timeline : Timeline) (resource : Resource) (handover : Handover)
      (front rest : List ResourceEvent) (e : ResourceEvent),
      Declared registry passes → order.Nodup →
      (UsageTable.along order passes registry).get? h = some timeline →
      registry.get? h = some resource → resource.handover? = some handover →
      handover.final.access ≠ Access.none →
      eventsAlong order passes (compiledAlong order passes registry) resource.kind h =
        front ++ e :: rest →
      e.isChange = true → (∀ x ∈ rest, x.isChange = false) →
        ∃ b, .barrier b ∈ e :: rest ∧ b.transition.target.Contains handover.final := by
  intro hall
  have hnd : [0].Nodup := by decide
  have ht : (UsageTable.along [0] ([] ++ [sampledReader.toPass none]) sampledReader.registry).get?
      (.slot 0 0) = some [⟨0, 0, .shaderRead, true, false, .shaderReadCompute⟩] := by decide
  have hevents : eventsAlong [0] ([] ++ [sampledReader.toPass none])
      (compiledAlong [0] ([] ++ [sampledReader.toPass none]) sampledReader.registry) .image
      (.slot 0 0) = [] ++
        .barrier (.image ⟨.slot 0 0, ⟨Stage.transfer, Access.none, .transferSrc⟩,
          .shaderReadCompute, Aspect.color, false, false⟩) ::
        [.use ⟨0, 0, .shaderRead, true, false, .shaderReadCompute⟩] := by
    rw [compiledAlong_eq hnd]
    decide
  obtain ⟨b, hb, hcontains⟩ := hall _ _ [0] (.slot 0 0) _ _ _ _ _ _ declared_sampledReader hnd ht
    rfl rfl (by decide) hevents rfl (by decide)
  obtain rfl : b = .image ⟨.slot 0 0, ⟨Stage.transfer, Access.none, .transferSrc⟩,
      .shaderReadCompute, Aspect.color, false, false⟩ := by simpa using hb
  exact absurd hcontains (by decide)

end FrameGraph
