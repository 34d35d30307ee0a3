import FrameGraph.Proofs.Barrier.Rounds

/-!
# What merging leaves of the barriers between two passes

The barriers on one resource after a pass and before the next one lead it together from the source of
the first to the target of the last.  Where every resource has at most one barrier at each point, and a
barrier before a pass begins where the one after the pass before ends, merging keeps this net
transition; only one that neither changes the state nor separates a write from anything is dropped.

Principal statements: `ownBarriers_foldInto` — folding treats each resource on its own —
`reducesAlong_mergeRound`, for one round, and `mergeAlong?_reducesAlong`.
-/

set_option autoImplicit false

namespace FrameGraph

open Mergeable

/-! ## Lists of barriers -/

section Lists

variable {β σ : Type} [Mergeable β σ]

/-- The barriers of a list on a resource. -/
def ownBarriers (h : Handle) (barriers : List β) : List β := barriers.filter fun b => resource b = h

/-- Where the barriers of a list lead a resource: from the source of the first to the target of the
last. -/
def netTransition? (h : Handle) (barriers : List β) : Option (σ × σ) :=
  (ownBarriers h barriers).head?.bind fun first =>
    (ownBarriers h barriers).getLast?.map fun last => (source first, target last)

/-- Every resource has at most one barrier, and none is pinned. -/
structure IsPlain (barriers : List β) : Prop where
  separate : (barriers.map resource).Nodup
  unpinned : ∀ b ∈ barriers, isPinned b = false

/-- On every resource the entries begin where the flushes end. -/
def Meets (flushes entries : List β) : Prop :=
  ∀ flush ∈ flushes, ∀ b ∈ entries, resource b = resource flush → target flush = source b

instance [DecidableEq σ] (flushes entries : List β) : Decidable (Meets flushes entries) :=
  inferInstanceAs <| Decidable <|
    ∀ flush ∈ flushes, ∀ b ∈ entries, resource b = resource flush → target flush = source b

variable {h : Handle}

theorem mem_ownBarriers {b : β} {l : List β} : b ∈ ownBarriers h l ↔ b ∈ l ∧ resource b = h := by
  rw [ownBarriers, List.mem_filter, decide_eq_true_eq]

@[simp] theorem ownBarriers_append (l l' : List β) :
    ownBarriers h (l ++ l') = ownBarriers h l ++ ownBarriers h l' := List.filter_append ..

theorem ownBarriers_cons_self {b : β} (hb : resource b = h) (l : List β) :
    ownBarriers h (b :: l) = b :: ownBarriers h l := List.filter_cons_of_pos (by simpa using hb)

theorem ownBarriers_cons_of_ne {b : β} (hb : resource b ≠ h) (l : List β) :
    ownBarriers h (b :: l) = ownBarriers h l := List.filter_cons_of_neg (by simpa using hb)

/-- A list in which a resource has two barriers has at least two on this resource. -/
theorem nodup_resources_iff {l : List β} :
    (l.map resource).Nodup ↔ ∀ h, (ownBarriers h l).length ≤ 1 := by
  refine List.nodup_iff_count_le_one.trans (forall_congr' fun h => ?_)
  rw [List.count_eq_countP, List.countP_map, ownBarriers, ← List.countP_eq_length_filter]
  exact Iff.of_eq (congrArg (· ≤ 1) (List.countP_congr fun b _ => by simp))

/-- Each resource has one barrier or none. -/
theorem IsPlain.cases {l : List β} (hl : IsPlain l) (h : Handle) :
    ownBarriers h l = [] ∨ ∃ b, ownBarriers h l = [b] ∧ resource b = h ∧ isPinned b = false := by
  rcases Nat.le_one_iff_eq_zero_or_eq_one.1 (nodup_resources_iff.1 hl.separate h) with hnone | hone
  · exact .inl (List.length_eq_zero_iff.1 hnone)
  · obtain ⟨b, hb⟩ := List.length_eq_one_iff.1 hone
    obtain ⟨hmem, hresource⟩ := mem_ownBarriers.1 (hb ▸ List.mem_singleton_self b)
    exact .inr ⟨b, hb, hresource, hl.unpinned b hmem⟩

theorem isPlain_of_cases {l : List β}
    (hl : ∀ h, ownBarriers h l = [] ∨ ∃ b, ownBarriers h l = [b] ∧ isPinned b = false) :
    IsPlain l where
  separate := nodup_resources_iff.2 fun h => by
    rcases hl h with hnone | ⟨b, hone, -⟩
    · simp [hnone]
    · simp [hone]
  unpinned := fun x hx => by
    have hown : x ∈ ownBarriers (resource x) l := mem_ownBarriers.2 ⟨hx, rfl⟩
    rcases hl (resource x) with hnone | ⟨b, hone, hpinned⟩
    · rw [hnone] at hown; cases hown
    · rw [hone, List.mem_singleton] at hown
      rwa [hown]

theorem IsPlain.sublist {l l' : List β} (hl : IsPlain l) (h : l'.Sublist l) : IsPlain l' where
  separate := hl.separate.sublist (h.map resource)
  unpinned := fun b hb => hl.unpinned b (h.subset hb)

/-- Two lists meet if they do not even have a resource in common. -/
theorem IsPlain.meets {flushes entries : List β} (h : IsPlain (flushes ++ entries)) :
    Meets flushes entries := by
  intro flush hflush b hb hresource
  have hseparate := h.separate
  rw [List.map_append] at hseparate
  have hnot := (List.nodup_append.1 hseparate).2.2 _ (List.mem_map_of_mem hflush) _
    (List.mem_map_of_mem hb)
  exact absurd hresource.symm hnot

theorem netTransition?_of_nil {l : List β} (hl : ownBarriers h l = []) :
    netTransition? h l = none := by
  rw [netTransition?, hl]
  rfl

theorem netTransition?_of_singleton {l : List β} {b : β} (hl : ownBarriers h l = [b]) :
    netTransition? h l = some (source b, target b) := by
  rw [netTransition?, hl]
  rfl

theorem netTransition?_of_pair {l : List β} {b c : β} (hl : ownBarriers h l = [b, c]) :
    netTransition? h l = some (source b, target c) := by
  rw [netTransition?, hl]
  rfl

/-- The laws of the barriers of one kind: replacing the source replaces nothing else, and the effect
depends on both states only. -/
structure IsLawful (β : Type) {σ : Type} [Mergeable β σ] (separates : σ → σ → Bool) : Prop where
  resource_withSource : ∀ (b : β) (s : σ), resource (withSource b s) = resource b
  source_withSource : ∀ (b : β) (s : σ), source (withSource b s) = s
  target_withSource : ∀ (b : β) (s : σ), target (withSource b s) = target b
  isPinned_withSource : ∀ (b : β) (s : σ), isPinned (withSource b s) = isPinned b
  hasEffect_eq : ∀ b : β, hasEffect b = separates (source b) (target b)

variable {separates : σ → σ → Bool}

/-- What a list of barriers becomes that is left with those that have an effect. -/
theorem netTransition?_filter (hlawful : IsLawful β separates) {l : List β} (hl : IsPlain l)
    (h : Handle) :
    netTransition? h (l.filter fun b => isPinned b || hasEffect b) =
      (netTransition? h l).filter fun t => separates t.1 t.2 := by
  have hcomm : ownBarriers h (l.filter fun b => isPinned b || hasEffect b) =
      (ownBarriers h l).filter fun b => isPinned b || hasEffect b := by
    rw [ownBarriers, ownBarriers, List.filter_filter, List.filter_filter]
    exact List.filter_congr fun b _ => Bool.and_comm _ _
  rcases hl.cases h with hnone | ⟨b, hone, -, hpinned⟩
  · rw [netTransition?_of_nil hnone, netTransition?_of_nil (by rw [hcomm, hnone]; rfl)]
    rfl
  · rw [netTransition?_of_singleton hone, Option.filter_some, ← hlawful.hasEffect_eq]
    rw [hone, List.filter_singleton, hpinned, Bool.false_or] at hcomm
    split
    · next heffect => exact netTransition?_of_singleton (by rw [hcomm, heffect]; rfl)
    · next heffect =>
        exact netTransition?_of_nil (by rw [hcomm, Bool.eq_false_iff.2 heffect]; rfl)

/-! ## Folding -/

/-- Replacing is replacing among the elements that may be replaced. -/
theorem filter_replaceFirst? {α : Type} {p q : α → Bool} {f : α → α} (hpq : ∀ a, p a → q a)
    (hf : ∀ a, q (f a) = q a) (l : List α) :
    (replaceFirst? p f l).map (List.filter q) = replaceFirst? p f (l.filter q) := by
  induction l with
  | nil => rfl
  | cons a rest ih =>
      rw [replaceFirst?]
      split
      · next ha =>
          rw [Option.map_some, List.filter_cons_of_pos ((hf a).trans (hpq a ha)),
            List.filter_cons_of_pos (hpq a ha), replaceFirst?, if_pos ha]
      · next ha =>
          rw [Option.map_map]
          by_cases hq : q a = true
          · rw [List.filter_cons_of_pos hq, replaceFirst?, if_neg ha, ← ih, Option.map_map]
            exact congrArg (fun g => Option.map g _) (funext fun l => List.filter_cons_of_pos hq)
          · rw [List.filter_cons_of_neg hq, ← ih]
            exact congrArg (fun g => Option.map g _) (funext fun l => List.filter_cons_of_neg hq)

/-- Replacing changes nothing among the other elements. -/
theorem filter_of_replaceFirst? {α : Type} {p q : α → Bool} {f : α → α}
    (hpq : ∀ a, p a → q a = false) (hf : ∀ a, q (f a) = q a) {l l' : List α}
    (hl : replaceFirst? p f l = some l') : l'.filter q = l.filter q := by
  induction l generalizing l' with
  | nil => cases hl
  | cons a rest ih =>
      unfold replaceFirst? at hl
      split at hl
      · next ha =>
          obtain rfl := Option.some.inj hl
          have hq : ¬q a = true := by rw [hpq a ha]; exact Bool.false_ne_true
          rw [List.filter_cons_of_neg (by rwa [hf a]), List.filter_cons_of_neg hq]
      · obtain ⟨rest', hrest, rfl⟩ := Option.map_eq_some_iff.1 hl
        rw [List.filter_cons, List.filter_cons, ih hrest]

variable [DecidableEq σ]

/-- **Folding treats each resource on its own.** -/
theorem ownBarriers_foldInto (hlawful : IsLawful β separates) (h : Handle)
    (flushes entries : List β) :
    ownBarriers h (foldInto flushes entries).1 =
        (foldInto (ownBarriers h flushes) (ownBarriers h entries)).1 ∧
      ownBarriers h (foldInto flushes entries).2 =
        (foldInto (ownBarriers h flushes) (ownBarriers h entries)).2 := by
  induction flushes generalizing entries with
  | nil => exact ⟨rfl, rfl⟩
  | cons flush rest ih =>
      have hkeeps : ∀ b : β, decide (resource (withSource b (source flush)) = h) =
          decide (resource b = h) := fun b => by rw [hlawful.resource_withSource]
      by_cases hflush : resource flush = h
      · have hown : (replaceFirst? (fun b => decide (resource b = resource flush) &&
              decide (source b = target flush) && !isPinned b)
            (fun b => withSource b (source flush)) entries).map (ownBarriers h) =
            replaceFirst? (fun b => decide (resource b = resource flush) &&
              decide (source b = target flush) && !isPinned b)
            (fun b => withSource b (source flush)) (ownBarriers h entries) := by
          refine filter_replaceFirst? (fun b hb => ?_) hkeeps entries
          simp only [Bool.and_eq_true, decide_eq_true_eq] at hb
          exact decide_eq_true (hb.1.1.trans hflush)
        rw [ownBarriers_cons_self hflush, foldInto, foldInto, ← hown]
        cases replaceFirst? _ _ entries with
        | some folded => exact ih folded
        | none =>
            obtain ⟨hfirst, hsecond⟩ := ih entries
            exact ⟨(ownBarriers_cons_self hflush _).trans (congrArg (flush :: ·) hfirst), hsecond⟩
      · rw [ownBarriers_cons_of_ne hflush, foldInto]
        split
        · next folded hfolded =>
            have hown : ownBarriers h folded = ownBarriers h entries := by
              refine filter_of_replaceFirst? (fun b hb => ?_) hkeeps hfolded
              simp only [Bool.and_eq_true, decide_eq_true_eq] at hb
              exact decide_eq_false (hb.1.1 ▸ hflush)
            rw [← hown]
            exact ih folded
        · exact ⟨by rw [ownBarriers_cons_of_ne hflush, (ih entries).1], (ih entries).2⟩

theorem foldInto_singleton (flush b : β) :
    foldInto [flush] [b] =
      if resource b = resource flush ∧ source b = target flush ∧ isPinned b = false then
        ([], [withSource b (source flush)])
      else ([flush], [b]) := by
  rw [foldInto, replaceFirst?, replaceFirst?]
  by_cases hfolds : resource b = resource flush ∧ source b = target flush ∧ isPinned b = false
  · simp [hfolds, foldInto]
  · rw [if_neg hfolds]
    have hnot : ¬((decide (resource b = resource flush) && decide (source b = target flush) &&
        !isPinned b) = true) := by
      simpa [and_assoc] using hfolds
    rw [if_neg hnot]
    rfl

/-- **Folding keeps every net transition**, and no resource is left with two barriers. -/
theorem foldInto_of_meets (hlawful : IsLawful β separates) {flushes entries : List β}
    (hflushes : IsPlain flushes) (hentries : IsPlain entries) (hmeets : Meets flushes entries) :
    IsPlain ((foldInto flushes entries).1 ++ (foldInto flushes entries).2) ∧
      ∀ h, netTransition? h ((foldInto flushes entries).1 ++ (foldInto flushes entries).2) =
        netTransition? h (flushes ++ entries) := by
  suffices hown : ∀ h,
      (ownBarriers h ((foldInto flushes entries).1 ++ (foldInto flushes entries).2) = [] ∨
        ∃ b, ownBarriers h ((foldInto flushes entries).1 ++ (foldInto flushes entries).2) = [b] ∧
          isPinned b = false) ∧
      netTransition? h ((foldInto flushes entries).1 ++ (foldInto flushes entries).2) =
        netTransition? h (flushes ++ entries) from
    ⟨isPlain_of_cases fun h => (hown h).1, fun h => (hown h).2⟩
  intro h
  obtain ⟨hfirst, hsecond⟩ := ownBarriers_foldInto hlawful h flushes entries
  have hfolded := ownBarriers_append (h := h) (foldInto flushes entries).1
    (foldInto flushes entries).2
  have hwhole := ownBarriers_append (h := h) flushes entries
  rw [hfirst, hsecond] at hfolded
  rcases hflushes.cases h with hf | ⟨flush, hf, hfresource, hfpinned⟩ <;>
    rcases hentries.cases h with he | ⟨b, he, hbresource, hbpinned⟩ <;>
    rw [hf, he] at hfolded hwhole
  · exact ⟨.inl hfolded, by rw [netTransition?_of_nil hfolded, netTransition?_of_nil hwhole]⟩
  · exact ⟨.inr ⟨b, hfolded, hbpinned⟩, by
      rw [netTransition?_of_singleton hfolded, netTransition?_of_singleton hwhole]⟩
  · exact ⟨.inr ⟨flush, hfolded, hfpinned⟩, by
      rw [netTransition?_of_singleton hfolded, netTransition?_of_singleton hwhole]⟩
  · -- The flush meets the one entry on its resource.
    have hmeet : target flush = source b :=
      hmeets flush (mem_ownBarriers.1 (hf ▸ List.mem_singleton_self flush)).1 b
        (mem_ownBarriers.1 (he ▸ List.mem_singleton_self b)).1 (hbresource.trans hfresource.symm)
    rw [foldInto_singleton, if_pos ⟨hbresource.trans hfresource.symm, hmeet.symm, hbpinned⟩,
      List.nil_append] at hfolded
    refine ⟨.inr ⟨_, hfolded, (hlawful.isPinned_withSource ..).trans hbpinned⟩, ?_⟩
    rw [netTransition?_of_singleton hfolded, netTransition?_of_pair hwhole,
      hlawful.source_withSource, hlawful.target_withSource]

/-- Folding and condensing drops the net transitions without effect, and changes no other. -/
theorem condense_foldInto_of_meets [DecidableEq β] (hlawful : IsLawful β separates)
    {flushes entries : List β} (hflushes : IsPlain flushes) (hentries : IsPlain entries)
    (hmeets : Meets flushes entries) :
    IsPlain (condense (foldInto flushes entries).1 ++ condense (foldInto flushes entries).2) ∧
      ∀ h, netTransition? h
          (condense (foldInto flushes entries).1 ++ condense (foldInto flushes entries).2) =
        (netTransition? h (flushes ++ entries)).filter fun t => separates t.1 t.2 := by
  obtain ⟨hplain, hnet⟩ := foldInto_of_meets hlawful hflushes hentries hmeets
  rw [condense_of_nodup (hplain.sublist (List.sublist_append_left ..)).separate,
    condense_of_nodup (hplain.sublist (List.sublist_append_right ..)).separate,
    ← List.filter_append]
  exact ⟨hplain.sublist List.filter_sublist, fun h => by
    rw [netTransition?_filter hlawful hplain, hnet]⟩

end Lists

/-! ## The barriers at one point -/

/-- Holds if a resource cannot go from one state to the other without a barrier. -/
def ImageState.needsBarrier (s t : ImageState) : Bool :=
  s.layout ≠ t.layout || s.isWrite || t.isWrite

/-- Holds if merging keeps a barrier between the states. -/
def BufferState.needsBarrier (s t : BufferState) : Bool :=
  s.stage ≠ t.stage || s.isWrite || t.isWrite

theorem ImageBarrier.isLawful : IsLawful ImageBarrier ImageState.needsBarrier where
  resource_withSource := fun _ _ => rfl
  source_withSource := fun _ _ => rfl
  target_withSource := fun _ _ => rfl
  isPinned_withSource := fun _ _ => rfl
  hasEffect_eq := fun _ => rfl

theorem BufferBarrier.isLawful : IsLawful BufferBarrier BufferState.needsBarrier where
  resource_withSource := fun _ _ => rfl
  source_withSource := fun _ _ => rfl
  target_withSource := fun _ _ => rfl
  isPinned_withSource := fun _ _ => rfl
  hasEffect_eq := fun b => by
    show (b.source.isWrite || b.target.isWrite || decide (b.source.stage ≠ b.target.stage)) = _
    rw [Bool.or_comm, ← Bool.or_assoc]
    rfl

namespace Barriers

/-- The barriers at one point and at the next. -/
def append (b c : Barriers) : Barriers := ⟨b.images ++ c.images, b.buffers ++ c.buffers⟩

/-- Every resource has at most one barrier of each kind, and none is pinned. -/
structure IsPlain (b : Barriers) : Prop where
  images : FrameGraph.IsPlain b.images
  buffers : FrameGraph.IsPlain b.buffers

/-- On every resource the barriers before a pass begin where those after the pass before end. -/
structure Meets (after before : Barriers) : Prop where
  images : FrameGraph.Meets after.images before.images
  buffers : FrameGraph.Meets after.buffers before.buffers

/-- Every resource is led where it was led, but net transitions without effect are dropped. -/
structure ReducesTo (b b' : Barriers) : Prop where
  images : ∀ h, netTransition? h b'.images =
    (netTransition? h b.images).filter fun t => t.1.needsBarrier t.2
  buffers : ∀ h, netTransition? h b'.buffers =
    (netTransition? h b.buffers).filter fun t => t.1.needsBarrier t.2

theorem ReducesTo.trans {b c d : Barriers} (hbc : b.ReducesTo c) (hcd : c.ReducesTo d) :
    b.ReducesTo d where
  images := fun h => by
    rw [hcd.images, hbc.images, Option.filter_filter]
    simp only [Bool.and_self]
  buffers := fun h => by
    rw [hcd.buffers, hbc.buffers, Option.filter_filter]
    simp only [Bool.and_self]

theorem IsPlain.merge {b : Barriers} (h : b.IsPlain) : b.merge.IsPlain where
  images := by
    rw [Barriers.merge, condense_of_nodup h.images.separate]
    exact h.images.sublist List.filter_sublist
  buffers := by
    rw [Barriers.merge, condense_of_nodup h.buffers.separate]
    exact h.buffers.sublist List.filter_sublist

theorem IsPlain.reducesTo_merge {b : Barriers} (h : b.IsPlain) : b.ReducesTo b.merge where
  images := fun handle => by
    rw [Barriers.merge, condense_of_nodup h.images.separate,
      netTransition?_filter ImageBarrier.isLawful h.images]
  buffers := fun handle => by
    rw [Barriers.merge, condense_of_nodup h.buffers.separate,
      netTransition?_filter BufferBarrier.isLawful h.buffers]

variable {after before : Barriers}

theorem IsPlain.of_append (h : (after.append before).IsPlain) : after.IsPlain ∧ before.IsPlain :=
  ⟨⟨h.images.sublist (List.sublist_append_left ..),
      h.buffers.sublist (List.sublist_append_left ..)⟩,
    ⟨h.images.sublist (List.sublist_append_right ..),
      h.buffers.sublist (List.sublist_append_right ..)⟩⟩

theorem IsPlain.meets (h : (after.append before).IsPlain) : after.Meets before :=
  ⟨h.images.meets, h.buffers.meets⟩

/-- What a round makes of the barriers between two passes. -/
theorem Meets.merge_foldInto (hafter : after.IsPlain) (hbefore : before.IsPlain)
    (hmeets : after.Meets before) :
    ((after.foldInto before).1.merge.append (after.foldInto before).2.merge).IsPlain ∧
      (after.append before).ReducesTo
        ((after.foldInto before).1.merge.append (after.foldInto before).2.merge) := by
  obtain ⟨hiplain, himages⟩ := condense_foldInto_of_meets ImageBarrier.isLawful hafter.images
    hbefore.images hmeets.images
  obtain ⟨hbplain, hbuffers⟩ := condense_foldInto_of_meets BufferBarrier.isLawful hafter.buffers
    hbefore.buffers hmeets.buffers
  exact ⟨⟨hiplain, hbplain⟩, himages, hbuffers⟩

end Barriers

/-! ## Folding along an order -/

section Passes

variable {order : List Nat} {all : List AroundPass}

theorem before_foldBetween {current next : Nat} (hc : current < all.length) (hn : next < all.length)
    (pass : Nat) :
    (aroundPass (foldBetween all current next) pass).before =
      if next = pass then
        ((aroundPass all current).after.foldInto (aroundPass all next).before).2
      else (aroundPass all pass).before := by
  rw [foldBetween_eq, aroundPass_modify (by rwa [List.length_modify]), aroundPass_modify hn,
    aroundPass_modify hn]
  grind

theorem after_foldBetween {current next : Nat} (hc : current < all.length) (hn : next < all.length)
    (pass : Nat) :
    (aroundPass (foldBetween all current next) pass).after =
      if current = pass then
        ((aroundPass all current).after.foldInto (aroundPass all next).before).1
      else (aroundPass all pass).after := by
  rw [foldBetween_eq, aroundPass_modify (by rwa [List.length_modify]), aroundPass_modify hn,
    aroundPass_modify hn]
  grind

/-- What folding makes of the barriers between neighbours of an order, and what it leaves alone. -/
structure FoldsTo (order : List Nat) (all all' : List AroundPass) : Prop where
  first : ∀ pass ∈ order.head?, (aroundPass all' pass).before = (aroundPass all pass).before
  between : order.IsChain fun current next =>
    (aroundPass all' current).after =
        ((aroundPass all current).after.foldInto (aroundPass all next).before).1 ∧
      (aroundPass all' next).before =
        ((aroundPass all current).after.foldInto (aroundPass all next).before).2
  last : ∀ pass ∈ order.getLast?, (aroundPass all' pass).after = (aroundPass all pass).after

theorem foldsTo_foldAlong (hnd : order.Nodup) (hvalid : ∀ pass ∈ order, pass < all.length) :
    FoldsTo order all (foldAlong all order) := by
  induction order generalizing all with
  | nil => exact ⟨fun _ _ => rfl, .nil, fun _ _ => rfl⟩
  | cons current rest ih =>
      cases rest with
      | nil => exact ⟨fun _ _ => rfl, .singleton current, fun _ _ => rfl⟩
      | cons next rest =>
          obtain ⟨hcurrent, hrest⟩ := List.nodup_cons.1 hnd
          obtain ⟨hnext, -⟩ := List.nodup_cons.1 hrest
          have hne : current ≠ next := List.ne_of_not_mem_cons hcurrent
          have hc := hvalid current List.mem_cons_self
          have hn := hvalid next (List.mem_cons_of_mem _ List.mem_cons_self)
          have hfolds := ih hrest (lt_length_foldBetween hvalid next)
          have hleft : aroundPass (foldAlong (foldBetween all current next) (next :: rest)) current =
              aroundPass (foldBetween all current next) current := by
            rw [aroundPass, aroundPass, List.getD_eq_getElem?_getD, List.getD_eq_getElem?_getD,
              getElem?_foldAlong_of_not_mem hcurrent]
          have hafter : ∀ pass ∈ next :: rest,
              (aroundPass (foldBetween all current next) pass).after = (aroundPass all pass).after :=
            fun pass hpass => by
              rw [after_foldBetween hc hn, if_neg (ne_of_mem_of_not_mem hpass hcurrent).symm]
          have hbefore : ∀ pass ∈ rest,
              (aroundPass (foldBetween all current next) pass).before =
                (aroundPass all pass).before :=
            fun pass hpass => by
              rw [before_foldBetween hc hn, if_neg (ne_of_mem_of_not_mem hpass hnext).symm]
          rw [foldAlong]
          refine ⟨fun pass hpass => ?_, List.isChain_cons_cons.2 ⟨⟨?_, ?_⟩, ?_⟩, fun pass hpass => ?_⟩
          · obtain rfl := Option.some.inj hpass
            rw [hleft, before_foldBetween hc hn, if_neg hne.symm]
          · rw [hleft, after_foldBetween hc hn, if_pos rfl]
          · rw [hfolds.first next rfl, before_foldBetween hc hn, if_pos rfl]
          · refine hfolds.between.imp_of_mem_tail_imp fun a b ha hb hab => ?_
            rwa [hafter a ha, hbefore b hb] at hab
          · rw [List.getLast?_cons_cons] at hpass
            rw [hfolds.last pass hpass, hafter pass (List.mem_of_getLast? hpass)]

/-! ## Rounds -/

/-- Around the passes of an order every resource has at most one barrier at each point, and between
neighbours the barriers meet. -/
structure IsSmooth (order : List Nat) (all : List AroundPass) : Prop where
  before : ∀ pass ∈ order, (aroundPass all pass).before.IsPlain
  after : ∀ pass ∈ order, (aroundPass all pass).after.IsPlain
  meets : order.IsChain fun current next =>
    (aroundPass all current).after.Meets (aroundPass all next).before

/-- Between all neighbours of an order, before the first pass and after the last, every resource is
led where it was led, but net transitions without effect are dropped. -/
structure ReducesAlong (order : List Nat) (all all' : List AroundPass) : Prop where
  first : ∀ pass ∈ order.head?, (aroundPass all pass).before.ReducesTo (aroundPass all' pass).before
  between : order.IsChain fun current next =>
    ((aroundPass all current).after.append (aroundPass all next).before).ReducesTo
      ((aroundPass all' current).after.append (aroundPass all' next).before)
  last : ∀ pass ∈ order.getLast?, (aroundPass all pass).after.ReducesTo (aroundPass all' pass).after

theorem ReducesAlong.trans {a b c : List AroundPass} (hab : ReducesAlong order a b)
    (hbc : ReducesAlong order b c) : ReducesAlong order a c where
  first := fun pass hpass => (hab.first pass hpass).trans (hbc.first pass hpass)
  between := List.isChain_iff_forall_rel_of_append_cons_cons.2 fun _ _ _ _ horder =>
    (List.isChain_iff_forall_rel_of_append_cons_cons.1 hab.between horder).trans
      (List.isChain_iff_forall_rel_of_append_cons_cons.1 hbc.between horder)
  last := fun pass hpass => (hab.last pass hpass).trans (hbc.last pass hpass)

theorem aroundPass_mergeRound (hnd : order.Nodup) (hvalid : ∀ pass ∈ order, pass < all.length)
    {pass : Nat} (hpass : pass ∈ order) :
    aroundPass (mergeRound order all) pass = (aroundPass (foldAlong all order) pass).merge := by
  have hlength : pass < (foldAlong all order).length := by
    rw [length_foldAlong]
    exact hvalid pass hpass
  rw [aroundPass, List.getD_eq_getElem?_getD, mergeRound, getElem?_foldl_modify hnd, if_pos hpass,
    getElem?_eq_aroundPass hlength]
  rfl

/-- **A round drops the net transitions without effect, and changes no other.** -/
theorem reducesAlong_mergeRound (hnd : order.Nodup) (hvalid : ∀ pass ∈ order, pass < all.length)
    (hsmooth : IsSmooth order all) :
    IsSmooth order (mergeRound order all) ∧ ReducesAlong order all (mergeRound order all) := by
  have hfolds := foldsTo_foldAlong hnd hvalid
  have hfirst : ∀ pass ∈ order.head?,
      (aroundPass (mergeRound order all) pass).before = (aroundPass all pass).before.merge :=
    fun pass hpass => by
      rw [aroundPass_mergeRound hnd hvalid (List.mem_of_head? hpass), AroundPass.merge,
        hfolds.first pass hpass]
  have hlast : ∀ pass ∈ order.getLast?,
      (aroundPass (mergeRound order all) pass).after = (aroundPass all pass).after.merge :=
    fun pass hpass => by
      rw [aroundPass_mergeRound hnd hvalid (List.mem_of_getLast? hpass), AroundPass.merge,
        hfolds.last pass hpass]
  have hbetween : order.IsChain fun current next =>
      ((aroundPass (mergeRound order all) current).after.append
          (aroundPass (mergeRound order all) next).before).IsPlain ∧
        ((aroundPass all current).after.append (aroundPass all next).before).ReducesTo
          ((aroundPass (mergeRound order all) current).after.append
            (aroundPass (mergeRound order all) next).before) := by
    refine List.isChain_iff_forall_rel_of_append_cons_cons.2 fun current next front back horder => ?_
    have hcurrent : current ∈ order := by rw [horder]; simp
    have hnext : next ∈ order := by rw [horder]; simp
    obtain ⟨hafter, hbefore⟩ :=
      List.isChain_iff_forall_rel_of_append_cons_cons.1 hfolds.between horder
    have hmeets := List.isChain_iff_forall_rel_of_append_cons_cons.1 hsmooth.meets horder
    rw [aroundPass_mergeRound hnd hvalid hcurrent, aroundPass_mergeRound hnd hvalid hnext,
      AroundPass.merge, AroundPass.merge, hafter, hbefore]
    exact hmeets.merge_foldInto (hsmooth.after current hcurrent) (hsmooth.before next hnext)
  refine ⟨⟨?_, ?_, hbetween.imp fun _ _ h => h.1.meets⟩,
    fun pass hpass => ?_, hbetween.imp fun _ _ h => h.2, fun pass hpass => ?_⟩
  · -- A pass is the first one, or another is before it.
    refine hbetween.induction _ _ (fun _ _ h _ => h.1.of_append.2) fun hne => ?_
    rw [hfirst _ (List.head?_eq_some_head hne)]
    exact (hsmooth.before _ (List.head_mem hne)).merge
  · refine hbetween.backwards_induction _ _ (fun _ _ h _ => h.1.of_append.1) fun hne => ?_
    rw [hlast _ (List.getLast?_eq_some_getLast hne)]
    exact (hsmooth.after _ (List.getLast_mem hne)).merge
  · rw [hfirst pass hpass]
    exact (hsmooth.before pass (List.mem_of_head? hpass)).reducesTo_merge
  · rw [hlast pass hpass]
    exact (hsmooth.after pass (List.mem_of_getLast? hpass)).reducesTo_merge

theorem reducesAlong_mergeAlong (hnd : order.Nodup) (hvalid : ∀ pass ∈ order, pass < all.length)
    (hsmooth : IsSmooth order all) : ReducesAlong order all (mergeAlong order all) := by
  induction hn : totalCount all using Nat.strong_induction_on generalizing all with
  | _ n ih =>
      subst hn
      obtain ⟨hsmooth', hround⟩ := reducesAlong_mergeRound hnd hvalid hsmooth
      unfold mergeAlong
      split
      · next hlt => exact hround.trans (ih _ hlt (by rwa [length_mergeRound]) hsmooth' rfl)
      · exact hround

/-- **Merging keeps every net transition.**  Along an order without repetitions, if around each of its
passes a resource has at most one barrier at each point, which depends on nothing that is only known
later, and a barrier before a pass begins where the one after the pass before ends: then between
neighbours, before the first pass and after the last, merging leads every resource where it was led,
except that it drops what neither changes the layout of an image (the stage of a buffer) nor has a
write on either side. -/
theorem mergeAlong?_reducesAlong (hnd : order.Nodup) (hvalid : ∀ pass ∈ order, pass < all.length)
    (hsmooth : IsSmooth order all) :
    ∃ merged, mergeAlong? order all = .ok merged ∧ ReducesAlong order all merged :=
  ⟨_, mergeAlong?_of_valid hvalid, reducesAlong_mergeAlong hnd hvalid hsmooth⟩

/-- A flush that meets a barrier before the next pass, and a barrier without effect between reads. -/
def smoothBarriers : List AroundPass :=
  let a := Handle.slot 0 0
  let b := Handle.slot 1 0
  [{ before.images := [⟨a, .shaderReadFragment, .transferSrc, Aspect.color, false, false⟩]
     after.buffers := [⟨b, .indexBuffer, .vertexBuffer, 0, wholeSize, false⟩] },
   { before.images := [⟨b, .shaderReadFragment, .shaderReadCompute, Aspect.color, false, false⟩]
     after.images :=
      [⟨a, .colorAttachmentWrite, .shaderReadFragment, Aspect.color, false, false⟩] }]

theorem smoothBarriers_isSmooth : IsSmooth [1, 0] smoothBarriers where
  before := by
    simp only [List.forall_mem_cons, List.not_mem_nil, false_imp_iff, implies_true, and_true]
    exact ⟨⟨⟨by decide, by decide⟩, by decide, by decide⟩, ⟨by decide, by decide⟩, by decide,
      by decide⟩
  after := by
    simp only [List.forall_mem_cons, List.not_mem_nil, false_imp_iff, implies_true, and_true]
    exact ⟨⟨⟨by decide, by decide⟩, by decide, by decide⟩, ⟨by decide, by decide⟩, by decide,
      by decide⟩
  meets := List.isChain_pair.2 ⟨by decide, by decide⟩

theorem mergeAlong?_reducesAlong_smoothBarriers :
    [1, 0].Nodup ∧ (∀ pass ∈ [1, 0], pass < smoothBarriers.length) ∧
      IsSmooth [1, 0] smoothBarriers ∧
      ∃ merged, mergeAlong? [1, 0] smoothBarriers = .ok merged ∧
        ReducesAlong [1, 0] smoothBarriers merged :=
  ⟨by decide, by decide, smoothBarriers_isSmooth,
    mergeAlong?_reducesAlong (by decide) (by decide) smoothBarriers_isSmooth⟩

end Passes

end FrameGraph
