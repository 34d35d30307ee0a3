import FrameGraph.Proofs.Declarations
import FrameGraph.Timeline

/-!
# What stands on a timeline

A timeline lists its uses in the order of execution.  The states of the uses come from the accesses
of the passes; `ImageState.Fits` says what the states of all valid accesses have in common, and it is
kept when the accesses of one pass are merged into one use.

Principal statements: `get?_along` and `mem_timelineOf` — which uses there are — and
`fits_of_mem_timelineOf` — what their states are like.
-/

set_option autoImplicit false

namespace FrameGraph

/-! ## States of valid accesses -/

/-- What the states of valid accesses are like: they name a stage, they write exactly when the access
does, and only for presentation there is an exception: it writes nothing, in a layout of its own, at
the bottom of the pipe. -/
structure ImageState.Fits (s : ImageState) (isWrite : Bool) : Prop where
  staged : s.stage.isEmpty = false
  readOnly : isWrite = false → s.isWrite = false ∧ s.layout ≠ .presentSrc
  writing : isWrite = true → s.layout ≠ .presentSrc → s.isWrite = true
  presenting : s.layout = .presentSrc → s.stage.contains Stage.bottomOfPipe = true

theorem Mask.isEmpty_or {family : FlagFamily} (a b : Mask family) :
    (a ||| b).isEmpty = (a.isEmpty && b.isEmpty) := by
  rw [Bool.eq_iff_iff, Bool.and_eq_true]
  simp only [Mask.isEmpty_iff, Mask.has_or, Bool.or_eq_false_iff, forall_and]

theorem Mask.intersects_or_left {family : FlagFamily} (a b c : Mask family) :
    (a ||| b).intersects c = (a.intersects c || b.intersects c) := by
  rw [Bool.eq_iff_iff, Bool.or_eq_true]
  simp only [Mask.intersects_iff, Mask.has_or, Bool.or_eq_true]
  constructor
  · rintro ⟨i, ha | hb, hc⟩
    · exact .inl ⟨i, ha, hc⟩
    · exact .inr ⟨i, hb, hc⟩
  · rintro (⟨i, ha, hc⟩ | ⟨i, hb, hc⟩)
    · exact ⟨i, .inl ha, hc⟩
    · exact ⟨i, .inr hb, hc⟩

theorem Mask.contains_or {family : FlagFamily} {a b c : Mask family} (hb : a.contains b = true)
    (hc : a.contains c = true) : a.contains (b ||| c) = true := by
  refine contains_iff.2 fun i hi => ?_
  rw [has_or, Bool.or_eq_true] at hi
  rcases hi with hi | hi
  · exact contains_iff.1 hb i hi
  · exact contains_iff.1 hc i hi

theorem ImageState.isWrite_union (s t : ImageState) :
    (s.union t).isWrite = (s.isWrite || t.isWrite) :=
  Mask.intersects_or_left s.access t.access Access.writes

private theorem isEmpty_shaderStages (kind : PassKind) : kind.shaderStages.isEmpty = false := by
  cases kind <;> rfl

namespace Usage

/-- Whether a use writes does not depend on the kind of the pass. -/
theorem isWrite_resolve (usage : Usage) (pass : PassKind) (kind : ResourceKind)
    (reads isWrite : Bool) :
    (usage.resolve pass kind reads isWrite).isWrite =
      (usage.resolve .compute kind reads isWrite).isWrite := by
  cases usage <;> rfl

/-- The layout does not depend on the kind of the pass. -/
theorem layout_resolve (usage : Usage) (pass : PassKind) (kind : ResourceKind)
    (reads isWrite : Bool) :
    (usage.resolve pass kind reads isWrite).layout =
      (usage.resolve .compute kind reads isWrite).layout := by
  cases usage <;> rfl

/-- Only a use for presentation leads into the layout for it. -/
theorem layout_resolve_ne_present {usage : Usage} (h : usage ≠ .present) (pass : PassKind)
    (kind : ResourceKind) (reads isWrite : Bool) :
    (usage.resolve pass kind reads isWrite).layout ≠ .presentSrc := by
  rw [layout_resolve]
  cases usage with
  | present => exact absurd rfl h
  | _ => cases kind <;> cases reads <;> cases isWrite <;> decide

/-- Every use of an image leads into some layout. -/
theorem layout_resolve_ne_undefined {usage : Usage} (h : usage.supports .image = true)
    (pass : PassKind) (reads isWrite : Bool) :
    (usage.resolve pass .image reads isWrite).layout ≠ .undefined := by
  rw [layout_resolve]
  revert h
  cases usage <;> cases reads <;> cases isWrite <;> decide

theorem isEmpty_stage_resolve (usage : Usage) (pass : PassKind) (kind : ResourceKind)
    (reads isWrite : Bool) : (usage.resolve pass kind reads isWrite).stage.isEmpty = false := by
  cases usage with
  | shaderRead | shaderWrite | uniformBuffer => exact isEmpty_shaderStages pass
  | colorAttachment | depthAttachment => cases reads <;> cases isWrite <;> rfl
  | _ => rfl

/-- A read names an access. -/
theorem isEmpty_access_resolve {usage : Usage} (h : usage.allows false = true) (pass : PassKind)
    (kind : ResourceKind) : (usage.resolve pass kind true false).access.isEmpty = false := by
  revert h
  cases usage <;> cases kind <;> intro h <;> first | rfl | cases h

/-- The state that a valid access requires. -/
theorem fits_resolve {usage : Usage} {isWrite reads : Bool} (hallows : usage.allows isWrite = true)
    (hreads : isWrite = false → reads = true) (pass : PassKind) (kind : ResourceKind) :
    (usage.resolve pass kind reads isWrite).Fits isWrite where
  staged := isEmpty_stage_resolve usage pass kind reads isWrite
  readOnly := by
    rintro rfl
    obtain rfl := hreads rfl
    rw [isWrite_resolve, layout_resolve]
    revert hallows
    cases usage <;> cases kind <;> decide
  writing := by
    rintro rfl
    rw [isWrite_resolve, layout_resolve]
    revert hallows
    cases usage <;> cases kind <;> cases reads <;> decide
  presenting := by
    intro hlayout
    by_cases h : usage = .present
    · subst h
      change Stage.bottomOfPipe.contains Stage.bottomOfPipe = true
      exact Mask.contains_refl _
    · exact absurd hlayout (layout_resolve_ne_present h pass kind reads isWrite)

end Usage

/-- A further access of the same pass. -/
theorem Use.fits_merge {u : Use} {a : PassAccess} {state : ImageState}
    (hu : u.state.Fits u.isWrite) (ha : state.Fits a.isWrite) :
    (u.merge a state).state.Fits (u.merge a state).isWrite := by
  have hstage : (u.state.stage ||| state.stage).isEmpty = false := by
    rw [Mask.isEmpty_or, hu.staged, Bool.false_and]
  have hwrite := ImageState.isWrite_union u.state state
  cases hw : a.isWrite with
  | true =>
      rw [hw] at ha
      refine ⟨?_, ?_, ?_, ?_⟩
      · simpa [Use.merge, hw, ImageState.union] using hstage
      · intro h
        simp [Use.merge, hw] at h
      · intro _ hlayout
        simp only [Use.merge, hw, if_true] at hlayout ⊢
        change (u.state.union state).isWrite = true
        rw [hwrite, ha.writing rfl hlayout, Bool.or_true]
      · intro hlayout
        simp only [Use.merge, hw, if_true] at hlayout ⊢
        exact Mask.contains_trans (Mask.contains_or_right _ _) (ha.presenting hlayout)
  | false =>
      rw [hw] at ha
      have hmerge : (u.merge a state).state = u.state.union state := by simp [Use.merge, hw]
      have hisWrite : (u.merge a state).isWrite = u.isWrite := by simp [Use.merge, hw]
      rw [hmerge, hisWrite]
      refine ⟨hstage, ?_, ?_, ?_⟩
      · intro h
        rw [hwrite, (hu.readOnly h).1, (ha.readOnly rfl).1]
        exact ⟨rfl, (hu.readOnly h).2⟩
      · intro h hlayout
        rw [hwrite, hu.writing h hlayout, Bool.true_or]
      · intro hlayout
        exact Mask.contains_trans (Mask.contains_or_left _ _) (hu.presenting hlayout)

/-! ## Uses -/

namespace Pass

variable {p : Pass} {kind : ResourceKind} {h : Handle} {position index : Nat} {u : Use}

/-- What holds for the use by one access and is kept by further accesses holds for the use that a
pass makes of a resource. -/
theorem use?_induction {P : Use → Prop}
    (hfirst : ∀ a ∈ p.accesses, a.resource = h →
      P (.ofAccess position index a (p.accessState kind a)))
    (hmerge : ∀ u, ∀ a ∈ p.accesses, a.resource = h → P u → P (u.merge a (p.accessState kind a)))
    (hu : p.use? kind h position index = some u) : P u := by
  have hmem : ∀ a ∈ p.accesses.filter fun a => a.resource = h, a ∈ p.accesses ∧ a.resource = h := by
    intro a ha
    rw [List.mem_filter, decide_eq_true_eq] at ha
    exact ha
  have hfold : ∀ (rest : List PassAccess) (u : Use),
      (∀ a ∈ rest, a ∈ p.accesses ∧ a.resource = h) → P u →
        P (rest.foldl (fun u a => u.merge a (p.accessState kind a)) u) := by
    intro rest
    induction rest with
    | nil => intro u _ hu; exact hu
    | cons a rest ih =>
        intro u hrest hu
        obtain ⟨ha, hh⟩ := hrest a List.mem_cons_self
        exact ih _ (fun b hb => hrest b (List.mem_cons_of_mem _ hb)) (hmerge u a ha hh hu)
  unfold use? at hu
  split at hu
  · cases hu
  · next first rest hfilter =>
      rw [hfilter] at hmem
      cases hu
      obtain ⟨ha, hh⟩ := hmem first List.mem_cons_self
      exact hfold rest _ (fun a ha => hmem a (List.mem_cons_of_mem _ ha)) (hfirst first ha hh)

theorem use?_place (hu : p.use? kind h position index = some u) :
    u.position = position ∧ u.pass = index := by
  refine use?_induction (P := fun u => u.position = position ∧ u.pass = index) ?_ ?_ hu
  · intro a _ _
    exact ⟨rfl, rfl⟩
  · intro u a _ _ hu
    exact hu

/-- A pass uses exactly what it involves. -/
theorem use?_eq_none_iff : p.use? kind h position index = none ↔ p.involves h = false := by
  unfold use?
  split
  · next hfilter =>
      simp only [true_iff]
      rw [Pass.involves, List.any_eq_false]
      intro a ha
      simpa using List.filter_eq_nil_iff.1 hfilter a ha
  · next first rest hfilter =>
      have hfirst : first ∈ p.accesses.filter fun a => a.resource = h := by
        rw [hfilter]
        exact List.mem_cons_self
      obtain ⟨ha, hh⟩ := List.mem_filter.1 hfirst
      constructor
      · intro hu
        cases hu
      · intro hnone
        exact absurd hh (List.any_eq_false.1 hnone first ha)

theorem involves_of_use? (hu : p.use? kind h position index = some u) : p.involves h = true := by
  refine eq_true_of_ne_false fun hnot => ?_
  rw [use?_eq_none_iff.2 hnot] at hu
  cases hu

theorem exists_use? (hinvolves : p.involves h = true) (kind : ResourceKind) (position index : Nat) :
    ∃ u, p.use? kind h position index = some u := by
  refine Option.ne_none_iff_exists'.1 fun hnone => ?_
  rw [use?_eq_none_iff.1 hnone] at hinvolves
  cases hinvolves

theorem fits_accessState {a : PassAccess} (ha : a.usage.allows a.isWrite = true)
    (p : Pass) (kind : ResourceKind) : (p.accessState kind a).Fits a.isWrite :=
  Usage.fits_resolve ha (fun hread => by simp [hread]) p.kind kind

theorem fits_use? (hvalid : ∀ a ∈ p.accesses, a.usage.allows a.isWrite = true)
    (hu : p.use? kind h position index = some u) : u.state.Fits u.isWrite := by
  refine use?_induction (P := fun u => u.state.Fits u.isWrite) ?_ ?_ hu
  · intro a ha _
    exact fits_accessState (hvalid a ha) p kind
  · intro u a ha _ hu
    exact Use.fits_merge hu (fits_accessState (hvalid a ha) p kind)

/-- A use that only reads names an access. -/
theorem isEmpty_access_use? (hvalid : ∀ a ∈ p.accesses, a.usage.allows a.isWrite = true)
    (hu : p.use? kind h position index = some u) (hread : u.isWrite = false) :
    u.state.access.isEmpty = false := by
  have hstate : ∀ a ∈ p.accesses, a.isWrite = false →
      (p.accessState kind a).access.isEmpty = false := by
    intro a ha hread
    have hallows := hvalid a ha
    rw [hread] at hallows
    simp only [accessState, hread, Bool.not_false, Bool.true_or]
    exact Usage.isEmpty_access_resolve hallows p.kind kind
  refine use?_induction (P := fun u => u.isWrite = false → u.state.access.isEmpty = false)
    (fun a ha _ => hstate a ha) ?_ hu hread
  intro u a ha _ hu hmerged
  have hboth : u.isWrite = false ∧ a.isWrite = false := by
    simpa [Use.merge, Bool.or_eq_false_iff] using hmerged
  have hunion : (u.merge a (p.accessState kind a)).state = u.state.union (p.accessState kind a) := by
    simp [Use.merge, hboth.2]
  rw [hunion]
  show (u.state.access ||| _).isEmpty = false
  rw [Mask.isEmpty_or, hu hboth.1, Bool.false_and]

/-- Holds if the pass accesses the resource for presentation. -/
def presents (p : Pass) (h : Handle) : Bool :=
  p.accesses.any fun a => a.resource = h && a.usage = .present

/-- A pass that does not present an image does not need it in the layout for it. -/
theorem layout_use?_ne_present (hp : p.presents h = false)
    (hu : p.use? kind h position index = some u) : u.state.layout ≠ .presentSrc := by
  have hstate : ∀ a ∈ p.accesses, a.resource = h →
      (p.accessState kind a).layout ≠ .presentSrc := by
    intro a ha hh
    have hne : ¬ (decide (a.resource = h) && decide (a.usage = .present)) = true :=
      List.any_eq_false.1 hp a ha
    refine Usage.layout_resolve_ne_present (fun husage => hne ?_) _ _ _ _
    rw [hh, husage]
    simp
  refine use?_induction (P := fun u => u.state.layout ≠ .presentSrc) hstate ?_ hu
  intro u a ha hh hu
  cases hw : a.isWrite with
  | true => simpa [Use.merge, hw] using hstate a ha hh
  | false => simpa [Use.merge, hw, ImageState.union] using hu

/-- A buffer is never in a layout. -/
theorem layout_use?_buffer
    (hvalid : ∀ a ∈ p.accesses, a.resource = h → a.usage.supports .buffer = true)
    (hu : p.use? .buffer h position index = some u) : u.state.layout = .undefined := by
  refine use?_induction (P := fun u => u.state.layout = .undefined) ?_ ?_ hu
  · intro a ha hh
    exact Usage.resolve_layout_buffer (hvalid a ha hh) _ _ _
  · intro u a ha hh hu
    cases hw : a.isWrite with
    | true => simpa [Use.merge, hw, accessState] using
        Usage.resolve_layout_buffer (hvalid a ha hh) p.kind _ true
    | false => simpa [Use.merge, hw, ImageState.union] using hu

/-- An image is always in a layout. -/
theorem layout_use?_image
    (hvalid : ∀ a ∈ p.accesses, a.resource = h → a.usage.supports .image = true)
    (hu : p.use? .image h position index = some u) : u.state.layout ≠ .undefined := by
  have hstate : ∀ a ∈ p.accesses, a.resource = h →
      (p.accessState .image a).layout ≠ .undefined := fun a ha hh =>
    Usage.layout_resolve_ne_undefined (hvalid a ha hh) _ _ _
  refine use?_induction (P := fun u => u.state.layout ≠ .undefined) hstate ?_ hu
  intro u a ha hh hu
  cases hw : a.isWrite with
  | true => simpa [Use.merge, hw] using hstate a ha hh
  | false => simpa [Use.merge, hw, ImageState.union] using hu

end Pass

/-! ## Timelines -/

/-- What is kept of each element that is taken lies along what is kept of all. -/
theorem map_filterMap_sublist {α β γ : Type} {f : α → Option β} {g : β → γ} {k : α → γ}
    (hf : ∀ a b, f a = some b → g b = k a) (l : List α) :
    ((l.filterMap f).map g).Sublist (l.map k) := by
  induction l with
  | nil => exact .slnil
  | cons a rest ih =>
      cases ha : f a with
      | none =>
          rw [List.filterMap_cons_none ha]
          exact ih.cons _
      | some b =>
          rw [List.filterMap_cons_some ha, List.map_cons, List.map_cons, hf a b ha]
          exact ih.cons_cons _

section Timelines

variable {order : List Nat} {passes : List Pass} {kind : ResourceKind} {h : Handle} {u : Use}

/-- A use stands on the timeline exactly if a pass of the order makes it. -/
theorem mem_timelineOf :
    u ∈ timelineOf order passes kind h ↔
      order[u.position]? = some u.pass ∧
        ∃ p, passes[u.pass]? = some p ∧ p.use? kind h u.position u.pass = some u := by
  simp only [timelineOf, List.mem_filterMap, Option.bind_eq_some_iff]
  constructor
  · rintro ⟨⟨pass, position⟩, hmem, p, hp, hu⟩
    obtain ⟨rfl, rfl⟩ := Pass.use?_place hu
    exact ⟨List.mk_mem_zipIdx_iff_getElem?.1 hmem, p, hp, hu⟩
  · rintro ⟨hmem, p, hp, hu⟩
    exact ⟨(u.pass, u.position), List.mk_mem_zipIdx_iff_getElem?.2 hmem, p, hp, hu⟩

/-- The uses of a timeline lie along the order. -/
theorem places_sublist (order : List Nat) (passes : List Pass) (kind : ResourceKind) (h : Handle) :
    ((timelineOf order passes kind h).map fun u => (u.pass, u.position)).Sublist order.zipIdx := by
  rw [← List.map_id order.zipIdx]
  refine map_filterMap_sublist (k := id) ?_ _
  rintro ⟨pass, position⟩ u hu
  obtain ⟨p, -, hu⟩ := Option.bind_eq_some_iff.1 hu
  obtain ⟨hposition, hpass⟩ := Pass.use?_place hu
  rw [hposition, hpass]
  rfl

/-- The uses of a timeline are in the order of execution. -/
theorem pairwise_position :
    (timelineOf order passes kind h).Pairwise fun u v => u.position < v.position := by
  have hsorted : order.zipIdx.Pairwise fun a b => a.2 < b.2 := by
    rw [List.pairwise_iff_getElem]
    intro i j hi hj hij
    simpa using hij
  have hplaces := hsorted.sublist (places_sublist order passes kind h)
  rw [List.pairwise_map] at hplaces
  exact hplaces

/-- Different uses are made by different passes, if no pass is executed twice. -/
theorem pairwise_pass (hnd : order.Nodup) :
    (timelineOf order passes kind h).Pairwise fun u v => u.pass ≠ v.pass := by
  have hsorted : (timelineOf order passes kind h).Pairwise fun u v => u.position < v.position :=
    pairwise_position
  refine hsorted.imp_of_mem fun {u v} hu hv hlt heq => ?_
  have hup := (mem_timelineOf.1 hu).1
  have hvp := (mem_timelineOf.1 hv).1
  obtain ⟨hul, hue⟩ := List.getElem?_eq_some_iff.1 hup
  obtain ⟨hvl, hve⟩ := List.getElem?_eq_some_iff.1 hvp
  have hpos := (List.Nodup.getElem_inj_iff hnd).1 (hue.trans (heq.trans hve.symm))
  omega

/-- The states on a timeline are those of valid accesses. -/
theorem fits_of_mem_timelineOf {registry : Registry} (hd : Declared registry passes)
    (hu : u ∈ timelineOf order passes kind h) : u.state.Fits u.isWrite := by
  obtain ⟨-, p, hp, hu⟩ := mem_timelineOf.1 hu
  refine Pass.fits_use? (fun a ha => ?_) hu
  obtain ⟨-, -, hallows, -⟩ := hd.isValid p (List.mem_of_getElem? hp) a ha
  exact hallows

/-- The reads on a timeline name an access. -/
theorem access_ne_none_of_mem_timelineOf {registry : Registry} (hd : Declared registry passes)
    (hu : u ∈ timelineOf order passes kind h) (hread : u.isWrite = false) :
    u.state.access ≠ Access.none := by
  obtain ⟨-, p, hp, hu⟩ := mem_timelineOf.1 hu
  have hvalid : ∀ a ∈ p.accesses, a.usage.allows a.isWrite = true := by
    intro a ha
    obtain ⟨-, -, hallows, -⟩ := hd.isValid p (List.mem_of_getElem? hp) a ha
    exact hallows
  have hnonempty := Pass.isEmpty_access_use? hvalid hu hread
  intro hnone
  rw [hnone] at hnonempty
  cases hnonempty

/-- The uses of a buffer are in no layout. -/
theorem layout_of_mem_timelineOf_buffer {registry : Registry} (hd : Declared registry passes)
    {resource : Resource} (hget : registry.get? h = some resource) (hkind : resource.kind = .buffer)
    (hu : u ∈ timelineOf order passes .buffer h) : u.state.layout = .undefined := by
  obtain ⟨-, p, hp, hu⟩ := mem_timelineOf.1 hu
  refine Pass.layout_use?_buffer (fun a ha hh => ?_) hu
  rw [← hkind]
  exact (hd.isValid p (List.mem_of_getElem? hp) a ha).supports (hh ▸ hget)

/-- The uses of an image are in a layout. -/
theorem layout_of_mem_timelineOf_image {registry : Registry} (hd : Declared registry passes)
    {resource : Resource} (hget : registry.get? h = some resource) (hkind : resource.kind = .image)
    (hu : u ∈ timelineOf order passes .image h) : u.state.layout ≠ .undefined := by
  obtain ⟨-, p, hp, hu⟩ := mem_timelineOf.1 hu
  refine Pass.layout_use?_image (fun a ha hh => ?_) hu
  rw [← hkind]
  exact (hd.isValid p (List.mem_of_getElem? hp) a ha).supports (hh ▸ hget)

end Timelines

/-! ## Runs of reads -/

@[simp] theorem layout_mergedState (first : ImageState) (later : List Use) :
    (mergedState first later).layout = first.layout := by
  have hfold : ∀ (uses : List Use) (state : ImageState),
      (uses.foldl (fun state u => state.union u.state) state).layout = state.layout := by
    intro uses
    induction uses with
    | nil => intro state; rfl
    | cons u rest ih => intro state; exact ih (state.union u.state)
  exact hfold _ first

private theorem foldl_union_contains_mem {uses : List Use} {u : Use} (hu : u ∈ uses)
    (state : ImageState) :
    (uses.foldl (fun state u => state.union u.state) state).stage.contains u.state.stage = true ∧
      (uses.foldl (fun state u => state.union u.state) state).access.contains u.state.access =
        true := by
  induction uses generalizing state with
  | nil => cases hu
  | cons v rest ih =>
      rcases List.mem_cons.1 hu with rfl | hu
      · obtain ⟨hstage, haccess⟩ := foldl_union_contains rest (state.union u.state)
        exact ⟨Mask.contains_trans hstage (Mask.contains_or_right _ _),
          Mask.contains_trans haccess (Mask.contains_or_right _ _)⟩
      · exact ih hu (state.union v.state)

/-- The state of a run of reads contains each of them. -/
theorem mergedState_contains_mem {first : ImageState} {run later : List Use} {u : Use}
    (hrun : ∀ v ∈ run ++ [u], v.isWrite = false ∧ v.state.layout = first.layout) :
    (mergedState first (run ++ u :: later)).stage.contains u.state.stage = true ∧
      (mergedState first (run ++ u :: later)).access.contains u.state.access = true := by
  refine foldl_union_contains_mem ?_ first
  have hsplit : run ++ u :: later = (run ++ [u]) ++ later := by simp
  have hall : ∀ v ∈ run ++ [u], (!v.isWrite && decide (v.state.layout = first.layout)) = true := by
    intro v hv
    obtain ⟨hread, hlayout⟩ := hrun v hv
    simp [hread, hlayout]
  rw [hsplit, List.takeWhile_append_of_pos hall]
  exact List.mem_append_left _ (List.mem_append_right _ List.mem_cons_self)

/-- What holds of a state and is kept by further reads in its layout holds of the whole run. -/
theorem mergedState_induction {P : ImageState → Prop} {first : ImageState} {later : List Use}
    (hfirst : P first)
    (hunion : ∀ state, ∀ u ∈ later.takeWhile fun u => !u.isWrite && u.state.layout = first.layout,
      P state → P (state.union u.state)) : P (mergedState first later) :=
  List.foldlRecOn _ _ hfirst fun state hstate u hu => hunion state u hu hstate

/-- A run of reads writes nothing. -/
theorem isWrite_mergedState {first : ImageState} {later : List Use} (hfirst : first.isWrite = false)
    (hfits : ∀ u ∈ later, u.state.Fits u.isWrite) : (mergedState first later).isWrite = false := by
  refine mergedState_induction (P := fun state => state.isWrite = false) hfirst fun state u hu hs => ?_
  have hread : u.isWrite = false := by
    have htaken := List.all_eq_true.1 List.all_takeWhile u hu
    simp only [Bool.and_eq_true, Bool.not_eq_true'] at htaken
    exact htaken.1
  rw [ImageState.isWrite_union, hs]
  exact ((hfits u ((List.takeWhile_sublist _).subset hu)).readOnly hread).1

/-- Whatever contains each read of a run contains their union. -/
theorem contains_mergedState {stages : StageMask} {accesses : AccessMask} {first : ImageState}
    {later : List Use}
    (hfirst : stages.contains first.stage = true ∧ accesses.contains first.access = true)
    (hrun : ∀ u ∈ later.takeWhile fun u => !u.isWrite && u.state.layout = first.layout,
      stages.contains u.state.stage = true ∧ accesses.contains u.state.access = true) :
    stages.contains (mergedState first later).stage = true ∧
      accesses.contains (mergedState first later).access = true := by
  refine mergedState_induction (P := fun state =>
    stages.contains state.stage = true ∧ accesses.contains state.access = true) hfirst ?_
  intro state u hu hs
  obtain ⟨hstage, haccess⟩ := hrun u hu
  exact ⟨Mask.contains_or hs.1 hstage, Mask.contains_or hs.2 haccess⟩

/-! ## The table of timelines -/

/-- The handles of a slot table are different. -/
theorem SlotTable.nodup_handles {α : Type} (m : SlotTable α) : (m.toList.map (·.1)).Nodup := by
  have hfrom : ∀ (slots : List (Slot α)) (start : Nat),
      ((SlotTable.entriesFrom start slots).map (·.1)).Nodup := by
    intro slots
    induction slots with
    | nil => intro start; exact List.nodup_nil
    | cons slot rest ih =>
        intro start
        unfold SlotTable.entriesFrom
        split
        · exact ih (start + 1)
        · refine List.nodup_cons.2 ⟨fun hmem => ?_, ih (start + 1)⟩
          obtain ⟨⟨k, a⟩, hk, heq⟩ := List.mem_map.1 hmem
          obtain ⟨i, g, hi, -⟩ := SlotTable.mem_entriesFrom.1 hk
          have heq' : k = .slot start slot.generation := heq
          rw [hi] at heq'
          injection heq' with hindex
          omega
  exact hfrom m.slots 0

/-- A table whose handles are different holds exactly what it lists. -/
theorem HandleMap.get?_eq_some_iff {α : Type} {m : HandleMap α}
    (hnd : (m.entries.map (·.1)).Nodup) {h : Handle} {a : α} :
    m.get? h = some a ↔ (h, a) ∈ m.entries := by
  obtain ⟨entries⟩ := m
  change HandleMap.lookupEntry h entries = some a ↔ (h, a) ∈ entries
  induction entries with
  | nil => simp [HandleMap.lookupEntry]
  | cons entry rest ih =>
      obtain ⟨k, b⟩ := entry
      obtain ⟨hnew, hrest⟩ := List.nodup_cons.1 hnd
      by_cases hk : k = h
      · subst hk
        have hnot : (k, a) ∉ rest := fun hmem => hnew (List.mem_map.2 ⟨(k, a), hmem, rfl⟩)
        simp [HandleMap.lookupEntry, hnot, eq_comm]
      · simp only [HandleMap.lookupEntry, if_neg hk, List.mem_cons, Prod.mk.injEq,
          Ne.symm hk, false_and, false_or]
        exact ih hrest

section Table

variable {order : List Nat} {passes : List Pass} {registry : Registry} {h : Handle}
  {timeline : Timeline}

/-- Every resource has at most one timeline. -/
theorem nodup_along (order : List Nat) (passes : List Pass) (registry : Registry) :
    ((UsageTable.along order passes registry).entries.map (·.1)).Nodup := by
  refine (SlotTable.nodup_handles registry.table).sublist (map_filterMap_sublist ?_ _)
  rintro ⟨h, resource⟩ ⟨k, timeline⟩ hfound
  dsimp only at hfound
  split at hfound
  · cases hfound
  · cases hfound
    rfl

theorem mem_entries_along :
    (h, timeline) ∈ (UsageTable.along order passes registry).entries ↔
      ∃ resource, registry.get? h = some resource ∧
        timelineOf order passes resource.kind h = timeline ∧ timeline ≠ [] := by
  simp only [UsageTable.along, List.mem_filterMap]
  constructor
  · rintro ⟨⟨k, resource⟩, hmem, hfound⟩
    split at hfound
    · cases hfound
    · next hne =>
        cases hfound
        exact ⟨resource, SlotTable.mem_toList.1 hmem, rfl, hne⟩
  · rintro ⟨resource, hget, rfl, hne⟩
    refine ⟨(h, resource), SlotTable.mem_toList.2 hget, ?_⟩
    split
    · next hnil => exact absurd hnil hne
    · rfl

/-- **A resource has a timeline exactly if it is live and used.** -/
theorem get?_along :
    (UsageTable.along order passes registry).get? h = some timeline ↔
      ∃ resource, registry.get? h = some resource ∧
        timelineOf order passes resource.kind h = timeline ∧ timeline ≠ [] := by
  rw [HandleMap.get?_eq_some_iff (nodup_along order passes registry), mem_entries_along]

end Table

end FrameGraph
