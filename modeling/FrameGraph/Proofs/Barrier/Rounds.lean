import FrameGraph.Proofs.Barrier.Merge
import Mathlib.Logic.Function.Iterate

/-!
# Merging ends in a normal form

Every step of merging leaves all barriers as they are or saves one: folding takes a barrier away from
behind a pass, and a list that is condensed gets shorter or was condensed already.  So the rounds come
to an end, and when nothing is saved any more there is nothing left to merge.

Principal statements: `saves_mergeRound`, for one round, and `mergeAlong?_isMerged`.
-/

set_option autoImplicit false

namespace FrameGraph

open Mergeable

/-! ## One list -/

section Lists

variable {β σ : Type} [Mergeable β σ]

theorem of_replaceFirst?_eq_none {α : Type} {p : α → Bool} {f : α → α} {l : List α}
    (h : replaceFirst? p f l = none) : ∀ a ∈ l, p a = false := by
  induction l with
  | nil => intro a ha; cases ha
  | cons b rest ih =>
      unfold replaceFirst? at h
      split at h
      · cases h
      · next hb =>
          rw [Option.map_eq_none_iff] at h
          intro a ha
          rcases List.mem_cons.1 ha with rfl | ha
          · exact Bool.eq_false_iff.2 hb
          · exact ih h a ha

variable [DecidableEq σ]

/-- Folding takes a flush away, or none can be folded. -/
theorem foldInto_cases (flushes entries : List β) :
    foldInto flushes entries = (flushes, entries) ∧ Unfolded flushes entries ∨
      (foldInto flushes entries).1.length < flushes.length := by
  induction flushes generalizing entries with
  | nil => exact .inl ⟨rfl, fun flush hflush => by cases hflush⟩
  | cons flush rest ih =>
      unfold foldInto
      split
      · next folded _ =>
          have hle := (length_foldInto rest folded).2
          exact .inr (by rw [List.length_cons]; omega)
      · next hnone =>
          rcases ih entries with ⟨hrest, hunfolded⟩ | hlt
          · refine .inl ⟨by rw [hrest], fun f hf b hb hresource hpinned => ?_⟩
            rcases List.mem_cons.1 hf with rfl | hf
            · have hnot := of_replaceFirst?_eq_none hnone b hb
              simpa [hresource, hpinned, eq_comm] using hnot
            · exact hunfolded f hf b hb hresource hpinned
          · exact .inr (by simp only [List.length_cons]; omega)

variable [DecidableEq β]

/-- A barrier is added at the end, or the list does not grow. -/
theorem absorb_cases (kept : List β) (b : β) :
    (absorb kept b = kept ++ [b] ∧
        ∀ k ∈ kept, k ≠ b ∧ ¬(resource k = resource b ∧ target k = source b)) ∨
      (absorb kept b).length = kept.length := by
  unfold absorb
  split
  · exact .inr rfl
  · next hnew =>
      split
      · next h => exact .inr (length_replaceFirst? h)
      · next hnone =>
          refine .inl ⟨rfl, fun k hk => ⟨fun heq => hnew (heq ▸ hk), fun hlinked => ?_⟩⟩
          have hnot := of_replaceFirst?_eq_none hnone k hk
          simp [hlinked] at hnot

theorem foldl_absorb_cases (barriers : List β) {kept : List β} (hkept : Unlinked kept) :
    barriers.foldl absorb kept = kept ++ barriers ∧ Unlinked (kept ++ barriers) ∨
      (barriers.foldl absorb kept).length < kept.length + barriers.length := by
  induction barriers generalizing kept with
  | nil => exact .inl ⟨(List.append_nil kept).symm, by rwa [List.append_nil]⟩
  | cons b rest ih =>
      rw [List.foldl_cons, List.length_cons]
      rcases absorb_cases kept b with ⟨habsorb, hnew⟩ | hlength
      · have hgrown : Unlinked (kept ++ [b]) := by
          refine List.pairwise_append.2 ⟨hkept, List.pairwise_singleton _ b, fun k hk x hx => ?_⟩
          rw [List.mem_singleton.1 hx]
          exact hnew k hk
        rw [habsorb, List.append_cons kept b rest]
        rcases ih hgrown with hsame | hlt
        · exact .inl hsame
        · rw [List.length_append, List.length_singleton] at hlt
          exact .inr (by omega)
      · have hle := length_foldl_absorb_le rest (absorb kept b)
        exact .inr (by omega)

theorem length_condense_le (barriers : List β) : (condense barriers).length ≤ barriers.length :=
  (List.length_filter_le _ _).trans (length_absorbAll_le barriers)

/-- Condensing a list makes it shorter, or it is condensed already. -/
theorem condense_cases (barriers : List β) :
    condense barriers = barriers ∧ Unlinked barriers ∧
        (∀ b ∈ barriers, isPinned b = true ∨ hasEffect b = true) ∨
      (condense barriers).length < barriers.length := by
  have hfilter : (condense barriers).length ≤ (barriers.foldl absorb []).length :=
    List.length_filter_le _ _
  have hnil : Unlinked ([] : List β) := List.Pairwise.nil
  rcases foldl_absorb_cases barriers hnil with ⟨hsame, hunlinked⟩ | hlt
  · have hcondense : condense barriers = barriers.filter fun b => isPinned b || hasEffect b :=
      congrArg (List.filter _) hsame
    rw [hcondense]
    by_cases hall : ∀ b ∈ barriers, (isPinned b || hasEffect b) = true
    · exact .inl ⟨List.filter_eq_self.2 hall, hunlinked,
        fun b hb => (Bool.or_eq_true _ _).mp (hall b hb)⟩
    · exact .inr (List.length_filter_lt_length_iff_exists.2 (by simpa using hall))
  · rw [List.length_nil, Nat.zero_add] at hlt
    exact .inr (Nat.lt_of_le_of_lt hfilter hlt)

end Lists

/-! ## The barriers at one point -/

namespace Barriers

/-- Nothing is left to merge among the barriers at one point. -/
structure IsCondensed (b : Barriers) : Prop where
  images : Unlinked b.images
  buffers : Unlinked b.buffers
  image_needed : ∀ x ∈ b.images, x.continues = false → x.takesOver = false → x.isNeeded = true
  buffer_needed : ∀ x ∈ b.buffers, x.takesOver = false →
    x.isNeeded = true ∨ x.source.stage ≠ x.target.stage

theorem merge_cases (b : Barriers) : b.merge = b ∧ b.IsCondensed ∨ b.merge.count < b.count := by
  have hile := length_condense_le b.images
  have hble := length_condense_le b.buffers
  have hcount : b.merge.count = (condense b.images).length + (condense b.buffers).length := rfl
  rw [hcount, count]
  rcases condense_cases b.images with ⟨himages, hiunlinked, hineeded⟩ | hlt
  · rcases condense_cases b.buffers with ⟨hbuffers, hbunlinked, hbneeded⟩ | hlt
    · refine .inl ⟨by rw [merge, himages, hbuffers], hiunlinked, hbunlinked, ?_, ?_⟩
      · intro x hx hcontinues htakesOver
        have hnot : ¬isPinned x = true := by
          simp [isPinned, ImageBarrier.isPinned, hcontinues, htakesOver]
        exact (hineeded x hx).resolve_left hnot
      · intro x hx htakesOver
        have hnot : ¬isPinned x = true := by simp [isPinned, htakesOver]
        have heffect : (x.isNeeded || decide (x.source.stage ≠ x.target.stage)) = true :=
          (hbneeded x hx).resolve_left hnot
        simpa using heffect
    · exact .inr (by omega)
  · exact .inr (by omega)

/-- What is condensed stays as it is. -/
theorem IsCondensed.merge_eq {b : Barriers} (h : b.IsCondensed) : b.merge = b := by
  have himages : condense b.images = b.images := by
    rw [condense, absorbAll_of_unlinked h.images, List.filter_eq_self]
    intro x hx
    have hneeded := h.image_needed x hx
    show (x.continues || x.takesOver || x.isNeeded) = true
    cases hcontinues : x.continues <;> cases htakesOver : x.takesOver <;> simp_all
  have hbuffers : condense b.buffers = b.buffers := by
    rw [condense, absorbAll_of_unlinked h.buffers, List.filter_eq_self]
    intro x hx
    have hneeded := h.buffer_needed x hx
    show (x.takesOver || (x.isNeeded || decide (x.source.stage ≠ x.target.stage))) = true
    cases htakesOver : x.takesOver <;> simp_all
  rw [merge, himages, hbuffers]

theorem foldInto_cases (after before : Barriers) :
    after.foldInto before = (after, before) ∧ after.Unfolded before ∨
      (after.foldInto before).1.count < after.count := by
  have hile := (length_foldInto after.images before.images).2
  have hble := (length_foldInto after.buffers before.buffers).2
  have hcount : (after.foldInto before).1.count =
      (FrameGraph.foldInto after.images before.images).1.length +
        (FrameGraph.foldInto after.buffers before.buffers).1.length := rfl
  rw [hcount, count]
  rcases FrameGraph.foldInto_cases after.images before.images with ⟨himages, hiunfolded⟩ | hlt
  · rcases FrameGraph.foldInto_cases after.buffers before.buffers with ⟨hbuffers, hbunfolded⟩ | hlt
    · exact .inl ⟨by rw [foldInto, himages, hbuffers], hiunfolded, hbunfolded⟩
    · exact .inr (by omega)
  · exact .inr (by omega)

/-- Folding keeps the barriers before the next pass in number. -/
theorem count_foldInto (after before : Barriers) :
    (after.foldInto before).2.count = before.count := by
  have himages := (length_foldInto after.images before.images).1
  have hbuffers := (length_foldInto after.buffers before.buffers).1
  rw [count, count, ← himages, ← hbuffers]
  rfl

end Barriers

/-- Nothing is left to merge around a pass. -/
def AroundPass.IsCondensed (b : AroundPass) : Prop := b.before.IsCondensed ∧ b.after.IsCondensed

theorem AroundPass.merge_cases (b : AroundPass) :
    b.merge = b ∧ b.IsCondensed ∨ b.merge.count < b.count := by
  have hcount : b.merge.count = b.before.merge.count + b.after.merge.count := rfl
  rw [hcount, count]
  rcases b.before.merge_cases with ⟨hbefore, hbcondensed⟩ | hblt
  · rcases b.after.merge_cases with ⟨hafter, hacondensed⟩ | halt
    · exact .inl ⟨by rw [merge, hbefore, hafter], hbcondensed, hacondensed⟩
    · exact .inr (by rw [hbefore]; omega)
  · rcases b.after.merge_cases with ⟨hafter, -⟩ | halt
    · exact .inr (by rw [hafter]; omega)
    · exact .inr (by omega)

/-! ## All passes -/

/-- A step of merging changes nothing, and then there was nothing to do, or it saves a barrier. -/
def Saves (done : Prop) (all all' : List AroundPass) : Prop :=
  all' = all ∧ done ∨ totalCount all' < totalCount all

theorem Saves.trans {done : Prop} (done' : List AroundPass → Prop) {a b c : List AroundPass}
    (h : Saves done a b) (h' : Saves (done' b) b c) : Saves (done ∧ done' a) a c := by
  rcases h with ⟨rfl, hdone⟩ | hlt
  · exact h'.imp_left fun ⟨heq, hdone'⟩ => ⟨heq, hdone, hdone'⟩
  · rcases h' with ⟨rfl, -⟩ | hlt'
    · exact .inr hlt
    · exact .inr (Nat.lt_trans hlt' hlt)

section Passes

variable {order : List Nat} {all : List AroundPass}

theorem getElem?_eq_aroundPass {pass : Nat} (h : pass < all.length) :
    all[pass]? = some (aroundPass all pass) := by
  rw [aroundPass, List.getD_eq_getElem?_getD, List.getElem?_eq_getElem h, Option.getD_some]

theorem aroundPass_modify {pass : Nat} (h : pass < all.length) (f : AroundPass → AroundPass)
    (other : Nat) :
    aroundPass (all.modify pass f) other =
      if pass = other then f (aroundPass all pass) else aroundPass all other := by
  rw [aroundPass, List.getD_eq_getElem?_getD, List.getElem?_modify]
  split
  · next heq =>
      subst heq
      rw [getElem?_eq_aroundPass h]
      rfl
  · rw [aroundPass, List.getD_eq_getElem?_getD]
    cases all[other]? <;> rfl

/-- Replacing the barriers around one pass changes the total by their difference. -/
theorem totalCount_modify {pass : Nat} (h : pass < all.length) (f : AroundPass → AroundPass) :
    totalCount (all.modify pass f) + (aroundPass all pass).count =
      totalCount all + (f (aroundPass all pass)).count := by
  have hget : (all.map AroundPass.count)[pass]? = some (aroundPass all pass).count := by
    rw [List.getElem?_map, getElem?_eq_aroundPass h]
    rfl
  have hset : all.modify pass f = all.set pass (f (aroundPass all pass)) := by
    rw [List.modify_eq_set_getElem?, getElem?_eq_aroundPass h]
    rfl
  rw [totalCount, totalCount, hset, List.map_set]
  exact totalOf_set hget _

theorem saves_modify {pass : Nat} (h : pass < all.length) :
    Saves (aroundPass all pass).IsCondensed all (all.modify pass AroundPass.merge) := by
  rcases (aroundPass all pass).merge_cases with ⟨hsame, hcondensed⟩ | hlt
  · refine .inl ⟨modify_eq_self fun b hb => ?_, hcondensed⟩
    obtain rfl := Option.some.inj ((getElem?_eq_aroundPass h).symm.trans hb)
    exact hsame
  · have htotal := totalCount_modify h AroundPass.merge
    exact .inr (by omega)

theorem saves_foldBetween {current next : Nat} (hc : current < all.length)
    (hn : next < all.length) :
    Saves ((aroundPass all current).after.Unfolded (aroundPass all next).before) all
      (foldBetween all current next) := by
  rcases (aroundPass all current).after.foldInto_cases (aroundPass all next).before with
    ⟨hsame, hunfolded⟩ | hlt
  · exact .inl ⟨foldBetween_eq_self hsame, hunfolded⟩
  · refine .inr ?_
    rw [foldBetween_eq]
    generalize hfolded : (aroundPass all current).after.foldInto (aroundPass all next).before = p
      at hlt ⊢
    have hbefore : p.2.count = (aroundPass all next).before.count := by
      rw [← hfolded]
      exact Barriers.count_foldInto ..
    -- The barriers before the next pass keep their number, those after the current one get fewer.
    have hfirst := totalCount_modify hn fun b => { b with before := p.2 }
    generalize hmid : (all.modify next fun b => { b with before := p.2 }) = mid at hfirst ⊢
    have hcurrent : current < mid.length := by rwa [← hmid, List.length_modify]
    have hsecond := totalCount_modify hcurrent fun b => { b with after := p.1 }
    have hafter : (aroundPass mid current).after = (aroundPass all current).after := by
      rw [← hmid, aroundPass_modify hn]
      split
      · next heq => rw [heq]
      · rfl
    simp only [AroundPass.count, hafter] at hfirst hsecond
    omega

/-- Folding between two neighbours leaves the rest of an order within bounds. -/
theorem lt_length_foldBetween {current : Nat} {rest : List Nat}
    (hvalid : ∀ pass ∈ current :: rest, pass < all.length) (next : Nat) :
    ∀ pass ∈ rest, pass < (foldBetween all current next).length := by
  intro pass hpass
  rw [length_foldBetween]
  exact hvalid pass (List.mem_cons_of_mem _ hpass)

theorem saves_foldAlong (hvalid : ∀ pass ∈ order, pass < all.length) :
    Saves (order.IsChain fun current next =>
      (aroundPass all current).after.Unfolded (aroundPass all next).before) all
      (foldAlong all order) := by
  induction order generalizing all with
  | nil => exact .inl ⟨rfl, .nil⟩
  | cons current rest ih =>
      cases rest with
      | nil => exact .inl ⟨rfl, .singleton current⟩
      | cons next rest =>
          have hstep := saves_foldBetween (hvalid current List.mem_cons_self)
            (hvalid next (List.mem_cons_of_mem _ List.mem_cons_self))
          rw [foldAlong, List.isChain_cons_cons]
          exact hstep.trans (fun all => (next :: rest).IsChain fun current next =>
            (aroundPass all current).after.Unfolded (aroundPass all next).before)
            (ih (lt_length_foldBetween hvalid next))

theorem saves_foldl_merge (hvalid : ∀ pass ∈ order, pass < all.length) :
    Saves (∀ pass ∈ order, (aroundPass all pass).IsCondensed) all
      (order.foldl (fun all pass => all.modify pass AroundPass.merge) all) := by
  induction order generalizing all with
  | nil => exact .inl ⟨rfl, fun pass hpass => by cases hpass⟩
  | cons current rest ih =>
      have hrest : ∀ pass ∈ rest, pass < (all.modify current AroundPass.merge).length := by
        intro pass hpass
        rw [List.length_modify]
        exact hvalid pass (List.mem_cons_of_mem _ hpass)
      rw [List.foldl_cons, List.forall_mem_cons]
      exact (saves_modify (hvalid current List.mem_cons_self)).trans
        (fun all => ∀ pass ∈ rest, (aroundPass all pass).IsCondensed) (ih hrest)

/-- Nothing is left to merge along an order. -/
structure IsMerged (order : List Nat) (all : List AroundPass) : Prop where
  condensed : ∀ pass ∈ order, (aroundPass all pass).IsCondensed
  unfolded : order.IsChain fun current next =>
    (aroundPass all current).after.Unfolded (aroundPass all next).before

/-- **A round saves a barrier, or nothing is left to merge.** -/
theorem saves_mergeRound (hvalid : ∀ pass ∈ order, pass < all.length) :
    Saves (IsMerged order all) all (mergeRound order all) := by
  have hfolded : ∀ pass ∈ order, pass < (foldAlong all order).length := by
    rwa [length_foldAlong]
  have hround := (saves_foldAlong hvalid).trans
    (fun all => ∀ pass ∈ order, (aroundPass all pass).IsCondensed) (saves_foldl_merge hfolded)
  exact hround.imp_left fun ⟨hsame, hunfolded, hcondensed⟩ => ⟨hsame, hcondensed, hunfolded⟩

/-- What is merged stays as it is. -/
theorem IsMerged.mergeRound_eq (h : IsMerged order all) : mergeRound order all = all := by
  rw [mergeRound, foldAlong_of_unfolded h.unfolded]
  have hcondensed := h.condensed
  clear h
  induction order with
  | nil => rfl
  | cons pass rest ih =>
      have hpass : all.modify pass AroundPass.merge = all := by
        refine modify_eq_self fun b hb => ?_
        have hget : aroundPass all pass = b := by
          rw [aroundPass, List.getD_eq_getElem?_getD, hb, Option.getD_some]
        obtain ⟨hbefore, hafter⟩ := hcondensed pass List.mem_cons_self
        rw [hget] at hbefore hafter
        rw [AroundPass.merge, hbefore.merge_eq, hafter.merge_eq]
      rw [List.foldl_cons, hpass]
      exact ih fun p hp => hcondensed p (List.mem_cons_of_mem _ hp)

/-! ## What lies outside the order -/

theorem getElem?_foldBetween_of_ne {current next pass : Nat} (hc : current ≠ pass)
    (hn : next ≠ pass) : (foldBetween all current next)[pass]? = all[pass]? := by
  rw [foldBetween_eq, List.getElem?_modify, List.getElem?_modify]
  cases all[pass]? <;> simp [hc, hn]

theorem getElem?_foldAlong_of_not_mem {pass : Nat} (h : pass ∉ order) :
    (foldAlong all order)[pass]? = all[pass]? := by
  induction order generalizing all with
  | nil => rfl
  | cons current rest ih =>
      obtain ⟨hc, hrest⟩ := not_or.1 (mt List.mem_cons.2 h)
      cases rest with
      | nil => rfl
      | cons next rest =>
          rw [foldAlong, ih hrest]
          exact getElem?_foldBetween_of_ne (Ne.symm hc) (Ne.symm (List.ne_of_not_mem_cons hrest))

theorem getElem?_foldl_modify_of_not_mem {f : AroundPass → AroundPass} {pass : Nat}
    (h : pass ∉ order) :
    (order.foldl (fun all pass => all.modify pass f) all)[pass]? = all[pass]? := by
  induction order generalizing all with
  | nil => rfl
  | cons current rest ih =>
      obtain ⟨hc, hrest⟩ := not_or.1 (mt List.mem_cons.2 h)
      rw [List.foldl_cons, ih hrest, List.getElem?_modify]
      cases all[pass]? <;> simp [Ne.symm hc]

theorem getElem?_mergeRound_of_not_mem {pass : Nat} (h : pass ∉ order) :
    (mergeRound order all)[pass]? = all[pass]? := by
  rw [mergeRound, getElem?_foldl_modify_of_not_mem h, getElem?_foldAlong_of_not_mem h]

/-! ## The rounds -/

theorem mergeAlong_of_fixed (h : mergeRound order all = all) : mergeAlong order all = all := by
  rw [mergeAlong, h, if_neg (Nat.lt_irrefl _)]

/-- A round that changes something is followed by another. -/
theorem mergeAlong_of_changed (h : totalCount (mergeRound order all) < totalCount all) :
    mergeAlong order all = mergeAlong order (mergeRound order all) := by
  rw [mergeAlong, if_pos h]

/-- **The rounds end as soon as one changes nothing**, after no more rounds than there are
barriers. -/
theorem exists_rounds (hvalid : ∀ pass ∈ order, pass < all.length) :
    ∃ rounds ≤ totalCount all, mergeAlong order all = (mergeRound order)^[rounds] all ∧
      (∀ k < rounds,
        mergeRound order ((mergeRound order)^[k] all) ≠ (mergeRound order)^[k] all) ∧
      IsMerged order (mergeAlong order all) := by
  induction hn : totalCount all using Nat.strong_induction_on generalizing all with
  | _ n ih =>
      subst hn
      rcases saves_mergeRound hvalid with ⟨hfixed, hmerged⟩ | hlt
      · rw [mergeAlong_of_fixed hfixed]
        exact ⟨0, Nat.zero_le _, rfl, fun k hk => absurd hk (Nat.not_lt_zero k), hmerged⟩
      · obtain ⟨rounds, hle, hiterate, hchanges, hmerged⟩ :=
          ih _ hlt (by rwa [length_mergeRound]) rfl
        rw [mergeAlong_of_changed hlt]
        refine ⟨rounds + 1, by omega, hiterate, fun k hk => ?_, hmerged⟩
        cases k with
        | zero =>
            intro hsame
            rw [Function.iterate_zero_apply] at hsame
            rw [hsame] at hlt
            exact Nat.lt_irrefl _ hlt
        | succ k => exact hchanges k (Nat.lt_of_succ_lt_succ hk)

theorem mergeAlong?_of_valid (hvalid : ∀ pass ∈ order, pass < all.length) :
    mergeAlong? order all = .ok (mergeAlong order all) := by
  rw [mergeAlong?, checkIndices_eq_ok_iff.2 hvalid]
  rfl

/-- **Merging ends in a normal form.**  Along any order of positions in the list of passes, repetitions
included, the rounds go on until one changes nothing, and no longer than there are barriers to save.
Merging again changes nothing, nothing is left to merge around the passes of the order and between
neighbours, and the barriers around all other passes stay as they are. -/
theorem mergeAlong?_isMerged (hvalid : ∀ pass ∈ order, pass < all.length) :
    ∃ merged, mergeAlong? order all = .ok merged ∧
      (∃ rounds ≤ totalCount all, merged = (mergeRound order)^[rounds] all ∧
        ∀ k < rounds,
          mergeRound order ((mergeRound order)^[k] all) ≠ (mergeRound order)^[k] all) ∧
      mergeRound order merged = merged ∧
      mergeAlong? order merged = .ok merged ∧
      IsMerged order merged ∧
      merged.length = all.length ∧
      ∀ pass, pass ∉ order → merged[pass]? = all[pass]? := by
  obtain ⟨rounds, hle, hiterate, hchanges, hmerged⟩ := exists_rounds hvalid
  have hfixed := hmerged.mergeRound_eq
  have hlength : (mergeAlong order all).length = all.length := by
    rw [hiterate]
    exact Function.Iterate.rec (fun a : List AroundPass => a.length = all.length) rfl
      (fun a ha => (length_mergeRound order a).trans ha) rounds
  have hagain : mergeAlong? order (mergeAlong order all) = .ok (mergeAlong order all) := by
    rw [mergeAlong?_of_valid (by rwa [hlength]), mergeAlong_of_fixed hfixed]
  refine ⟨_, mergeAlong?_of_valid hvalid, ⟨rounds, hle, hiterate, hchanges⟩, hfixed, hagain,
    hmerged, hlength, fun pass hpass => ?_⟩
  rw [hiterate]
  exact Function.Iterate.rec (fun a : List AroundPass => a[pass]? = all[pass]?) rfl
    (fun a ha => (getElem?_mergeRound_of_not_mem hpass).trans ha) rounds

/-- The barriers around two passes, of which one is visited twice: a chain before the first pass, and a
flush after it that meets a barrier before the second. -/
def chainedBarriers : List AroundPass :=
  let a := Handle.slot 0 0
  let b := Handle.slot 1 0
  [{ before.images :=
      [⟨a, .colorAttachmentWrite, .shaderReadFragment, Aspect.color, false, false⟩,
       ⟨a, .shaderReadFragment, .transferSrc, Aspect.color, false, false⟩]
     after.images := [⟨b, .colorAttachmentWrite, .shaderReadFragment, Aspect.color, false, false⟩] },
   { before.images := [⟨b, .shaderReadFragment, .transferSrc, Aspect.color, false, false⟩] }]

theorem mergeAlong?_isMerged_chained :
    (∀ pass ∈ [0, 1, 0], pass < chainedBarriers.length) ∧
      ∃ merged, mergeAlong? [0, 1, 0] chainedBarriers = .ok merged ∧ IsMerged [0, 1, 0] merged ∧
        mergeAlong? [0, 1, 0] merged = .ok merged := by
  have hvalid : ∀ pass ∈ [0, 1, 0], pass < chainedBarriers.length := by decide
  obtain ⟨merged, hok, -, -, hagain, hmerged, -⟩ := mergeAlong?_isMerged hvalid
  exact ⟨hvalid, merged, hok, hmerged, hagain⟩

end Passes

end FrameGraph
