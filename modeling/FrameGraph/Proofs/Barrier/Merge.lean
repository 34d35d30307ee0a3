import FrameGraph.Barrier.Merge
import Mathlib.Data.List.Chain
import Mathlib.Data.List.Nodup

/-!
# Merging barriers that do not meet

Merging does most of its work on lists in which barriers on one resource follow each other.  Where
no list has two barriers on one resource, and no resource has a barrier after one pass and another
before the next, all that is left of it is that barriers without effect are dropped.

Principal statement: `mergeAlong_of_untangled`.
-/

set_option autoImplicit false

namespace FrameGraph

open Mergeable

section Lists

variable {β σ : Type} [Mergeable β σ]

theorem replaceFirst?_eq_none {α : Type} {p : α → Bool} {f : α → α} {l : List α}
    (h : ∀ a ∈ l, p a = false) : replaceFirst? p f l = none := by
  induction l with
  | nil => rfl
  | cons a rest ih =>
      rw [replaceFirst?, h a List.mem_cons_self, ih fun b hb => h b (List.mem_cons_of_mem _ hb)]
      rfl

/-- No barrier begins where one of the flushes on its resource ends, unless it is pinned. -/
def Unfolded (flushes entries : List β) : Prop :=
  ∀ flush ∈ flushes, ∀ b ∈ entries,
    resource b = resource flush → isPinned b = false → target flush ≠ source b

theorem unfolded_of_apart {flushes entries : List β}
    (h : ∀ x ∈ flushes, ∀ y ∈ entries, resource x ≠ resource y) : Unfolded flushes entries :=
  fun flush hflush b hb hresource => absurd hresource.symm (h flush hflush b hb)

/-- No barrier is there twice, and none begins where an earlier one on its resource ends. -/
def Unlinked (barriers : List β) : Prop :=
  barriers.Pairwise fun a b => a ≠ b ∧ ¬(resource a = resource b ∧ target a = source b)

theorem unlinked_of_nodup {barriers : List β} (h : (barriers.map resource).Nodup) :
    Unlinked barriers := by
  have hpairs : barriers.Pairwise fun a b => resource a ≠ resource b := List.pairwise_map.1 h
  exact hpairs.imp fun hne => ⟨fun heq => hne (by rw [heq]), fun hlinked => hne hlinked.1⟩

variable [DecidableEq σ]

theorem foldInto_of_unfolded {flushes entries : List β} (h : Unfolded flushes entries) :
    foldInto flushes entries = (flushes, entries) := by
  induction flushes with
  | nil => rfl
  | cons flush rest ih =>
      have hnone : ∀ b ∈ entries,
          (decide (resource b = resource flush) && decide (source b = target flush) &&
            !isPinned b) = false := by
        intro b hb
        refine Bool.eq_false_iff.2 fun hfolds => ?_
        simp only [Bool.and_eq_true, decide_eq_true_eq, Bool.not_eq_true'] at hfolds
        obtain ⟨⟨hresource, hmeets⟩, hpinned⟩ := hfolds
        exact h flush List.mem_cons_self b hb hresource hpinned hmeets.symm
      rw [foldInto, replaceFirst?_eq_none hnone, ih fun f hf => h f (List.mem_cons_of_mem _ hf)]

variable [DecidableEq β]

theorem absorb_of_unlinked {kept : List β} {b : β}
    (h : ∀ k ∈ kept, k ≠ b ∧ ¬(resource k = resource b ∧ target k = source b)) :
    absorb kept b = kept ++ [b] := by
  have hnew : b ∉ kept := fun hb => (h b hb).1 rfl
  have hnone : ∀ k ∈ kept,
      (decide (resource k = resource b) && decide (target k = source b)) = false := by
    intro k hk
    simpa using (h k hk).2
  rw [absorb, if_neg hnew, replaceFirst?_eq_none hnone]

theorem absorbAll_of_unlinked {barriers : List β} (h : Unlinked barriers) :
    absorbAll barriers = barriers := by
  have hfold : ∀ (rest kept : List β), Unlinked (kept ++ rest) →
      rest.foldl absorb kept = kept ++ rest := by
    intro rest
    induction rest with
    | nil => intro kept _; exact (List.append_nil kept).symm
    | cons b rest ih =>
        intro kept hunlinked
        have hnew := fun k hk => (List.pairwise_append.1 hunlinked).2.2 k hk b List.mem_cons_self
        rw [List.append_cons] at hunlinked
        rw [List.foldl_cons, absorb_of_unlinked hnew, ih _ hunlinked, List.append_assoc,
          List.singleton_append]
  exact hfold barriers [] h

theorem condense_of_nodup {barriers : List β} (h : (barriers.map resource).Nodup) :
    condense barriers = barriers.filter fun b => isPinned b || hasEffect b := by
  rw [condense, absorbAll_of_unlinked (unlinked_of_nodup h)]

end Lists

/-! ## The barriers at one point -/

namespace Barriers

/-- No resource has two barriers of one kind. -/
structure Separate (b : Barriers) : Prop where
  images : (b.images.map ImageBarrier.resource).Nodup
  buffers : (b.buffers.map BufferBarrier.resource).Nodup

/-- No resource has barriers of one kind at both points. -/
structure Apart (b c : Barriers) : Prop where
  images : ∀ x ∈ b.images, ∀ y ∈ c.images, x.resource ≠ y.resource
  buffers : ∀ x ∈ b.buffers, ∀ y ∈ c.buffers, x.resource ≠ y.resource

/-- No barrier after a pass can be folded into one before the next. -/
structure Unfolded (after before : Barriers) : Prop where
  images : FrameGraph.Unfolded after.images before.images
  buffers : FrameGraph.Unfolded after.buffers before.buffers

theorem Apart.unfolded {b c : Barriers} (h : b.Apart c) : b.Unfolded c where
  images := unfolded_of_apart h.images
  buffers := unfolded_of_apart h.buffers

/-- The barriers that depend on what is only known when the frame is recorded, or have an effect of
their own. -/
def effective (b : Barriers) : Barriers where
  images := b.images.filter fun barrier => isPinned barrier || hasEffect barrier
  buffers := b.buffers.filter fun barrier => isPinned barrier || hasEffect barrier

theorem merge_of_separate {b : Barriers} (h : b.Separate) : b.merge = b.effective := by
  rw [Barriers.merge, condense_of_nodup h.images, condense_of_nodup h.buffers]
  rfl

@[simp] theorem effective_effective (b : Barriers) : b.effective.effective = b.effective := by
  simp [effective]

theorem Separate.effective {b : Barriers} (h : b.Separate) : b.effective.Separate where
  images := h.images.sublist (List.filter_sublist.map _)
  buffers := h.buffers.sublist (List.filter_sublist.map _)

theorem Apart.effective {b c : Barriers} (h : b.Apart c) : b.effective.Apart c.effective where
  images := fun x hx y hy => h.images x (List.mem_filter.1 hx).1 y (List.mem_filter.1 hy).1
  buffers := fun x hx y hy => h.buffers x (List.mem_filter.1 hx).1 y (List.mem_filter.1 hy).1

end Barriers

/-- The effective barriers around a pass. -/
def AroundPass.effective (b : AroundPass) : AroundPass := ⟨b.before.effective, b.after.effective⟩

@[simp] theorem AroundPass.effective_effective (b : AroundPass) :
    b.effective.effective = b.effective := by
  simp [AroundPass.effective]

/-! ## All passes -/

section Passes

variable {order : List Nat} {all : List AroundPass}

/-- The barriers around a pass. -/
def aroundPass (all : List AroundPass) (pass : Nat) : AroundPass := all.getD pass default

/-- No list has two barriers on one resource, and no resource has barriers after one pass and before
the next. -/
structure Untangled (order : List Nat) (all : List AroundPass) : Prop where
  before : ∀ pass, (aroundPass all pass).before.Separate
  after : ∀ pass, (aroundPass all pass).after.Separate
  apart : order.IsChain fun current next =>
    (aroundPass all current).after.Apart (aroundPass all next).before

/-- Drops the barriers without effect around the passes of an order. -/
def effectiveAlong (order : List Nat) (all : List AroundPass) : List AroundPass :=
  all.mapIdx fun pass b => if pass ∈ order then b.effective else b

theorem aroundPass_effectiveAlong (order : List Nat) (all : List AroundPass) (pass : Nat) :
    aroundPass (effectiveAlong order all) pass =
      if pass ∈ order then (aroundPass all pass).effective else aroundPass all pass := by
  rw [aroundPass, aroundPass, effectiveAlong, List.getD_eq_getElem?_getD,
    List.getD_eq_getElem?_getD, List.getElem?_mapIdx]
  cases all[pass]? with
  | none => split <;> rfl
  | some b => rfl

theorem modify_eq_self {α : Type} {l : List α} {i : Nat} {f : α → α}
    (h : ∀ a, l[i]? = some a → f a = a) : l.modify i f = l := by
  refine List.ext_getElem? fun j => ?_
  rw [List.getElem?_modify]
  by_cases hij : i = j
  · subst hij
    cases ha : l[i]? with
    | none => rfl
    | some a => simp [h a ha]
  · cases l[j]? <;> simp [hij]

/-- Folds the barriers after one pass into those before another, kind by kind. -/
def Barriers.foldInto (after before : Barriers) : Barriers × Barriers :=
  let images := FrameGraph.foldInto after.images before.images
  let buffers := FrameGraph.foldInto after.buffers before.buffers
  (⟨images.1, buffers.1⟩, ⟨images.2, buffers.2⟩)

/-- Barriers that do not meet stay where they are. -/
theorem Barriers.Unfolded.foldInto_eq {after before : Barriers} (h : after.Unfolded before) :
    after.foldInto before = (after, before) := by
  rw [Barriers.foldInto, foldInto_of_unfolded h.images, foldInto_of_unfolded h.buffers]

theorem foldBetween_eq (all : List AroundPass) (current next : Nat) :
    foldBetween all current next =
      (all.modify next fun b =>
        { b with
          before := ((aroundPass all current).after.foldInto (aroundPass all next).before).2
        }).modify current fun b =>
          { b with
            after := ((aroundPass all current).after.foldInto (aroundPass all next).before).1 } :=
  rfl

/-! ## The number of passes -/

theorem length_foldBetween (all : List AroundPass) (current next : Nat) :
    (foldBetween all current next).length = all.length := by
  rw [foldBetween_eq, List.length_modify, List.length_modify]

theorem length_foldAlong (all : List AroundPass) (order : List Nat) :
    (foldAlong all order).length = all.length := by
  induction order generalizing all with
  | nil => rfl
  | cons current rest ih =>
      cases rest with
      | nil => rfl
      | cons next rest => rw [foldAlong, ih, length_foldBetween]

theorem length_foldl_modify (f : AroundPass → AroundPass) (order : List Nat)
    (all : List AroundPass) :
    (order.foldl (fun all pass => all.modify pass f) all).length = all.length := by
  induction order generalizing all with
  | nil => rfl
  | cons pass rest ih => rw [List.foldl_cons, ih, List.length_modify]

theorem length_mergeRound (order : List Nat) (all : List AroundPass) :
    (mergeRound order all).length = all.length := by
  rw [mergeRound, length_foldl_modify, length_foldAlong]

/-- Merging keeps one entry for each pass. -/
theorem length_mergeAlong (order : List Nat) (all : List AroundPass) :
    (mergeAlong order all).length = all.length := by
  induction all using mergeAlong.induct order with
  | case1 all hlt ih => rw [mergeAlong, if_pos hlt, ih, length_mergeRound]
  | case2 all hlt => rw [mergeAlong, if_neg hlt, length_mergeRound]

/-! ## Nothing to fold -/

/-- Nothing changes if nothing is folded. -/
theorem foldBetween_eq_self {current next : Nat}
    (h : (aroundPass all current).after.foldInto (aroundPass all next).before =
      ((aroundPass all current).after, (aroundPass all next).before)) :
    foldBetween all current next = all := by
  have hnext : (all.modify next fun b => { b with before := (aroundPass all next).before }) = all :=
    modify_eq_self fun b hb => by simp [aroundPass, List.getD_eq_getElem?_getD, hb]
  rw [foldBetween_eq, h, hnext]
  exact modify_eq_self fun b hb => by simp [aroundPass, List.getD_eq_getElem?_getD, hb]

theorem foldAlong_of_unfolded
    (h : order.IsChain fun current next =>
      (aroundPass all current).after.Unfolded (aroundPass all next).before) :
    foldAlong all order = all := by
  induction order with
  | nil => rfl
  | cons current rest ih =>
      cases rest with
      | nil => rfl
      | cons next rest =>
          obtain ⟨hpair, hrest⟩ := List.isChain_cons_cons.1 h
          rw [foldAlong, foldBetween_eq_self hpair.foldInto_eq]
          exact ih hrest

theorem getElem?_foldl_modify {f : AroundPass → AroundPass} (hnd : order.Nodup)
    (all : List AroundPass) (pass : Nat) :
    (order.foldl (fun all pass => all.modify pass f) all)[pass]? =
      if pass ∈ order then (all[pass]?).map f else all[pass]? := by
  induction order generalizing all with
  | nil => rfl
  | cons first rest ih =>
      obtain ⟨hnew, hrest⟩ := List.nodup_cons.1 hnd
      rw [List.foldl_cons, ih hrest, List.getElem?_modify]
      by_cases hfirst : first = pass
      · subst hfirst
        simp [hnew]
      · simp [hfirst, Ne.symm hfirst]

theorem mergeRound_of_untangled (hnd : order.Nodup) (h : Untangled order all) :
    mergeRound order all = effectiveAlong order all := by
  rw [mergeRound, foldAlong_of_unfolded (h.apart.imp fun _ _ hapart => hapart.unfolded)]
  refine List.ext_getElem? fun pass => ?_
  rw [getElem?_foldl_modify hnd, effectiveAlong, List.getElem?_mapIdx]
  cases hb : all[pass]? with
  | none => simp
  | some b =>
      have hbefore := h.before pass
      have hafter := h.after pass
      simp only [aroundPass, List.getD_eq_getElem?_getD, hb, Option.getD_some] at hbefore hafter
      by_cases hmem : pass ∈ order
      · simp [hmem, AroundPass.merge, AroundPass.effective, Barriers.merge_of_separate hbefore,
          Barriers.merge_of_separate hafter]
      · simp [hmem]

theorem Untangled.effectiveAlong (h : Untangled order all) :
    Untangled order (effectiveAlong order all) where
  before := by
    intro pass
    rw [aroundPass_effectiveAlong]
    split
    · exact (h.before pass).effective
    · exact h.before pass
  after := by
    intro pass
    rw [aroundPass_effectiveAlong]
    split
    · exact (h.after pass).effective
    · exact h.after pass
  apart := by
    refine h.apart.imp_of_mem_imp fun current next hcurrent hnext hapart => ?_
    rw [aroundPass_effectiveAlong, aroundPass_effectiveAlong, if_pos hcurrent, if_pos hnext]
    exact hapart.effective

/-- **What does not meet is not merged**: only the barriers without effect are dropped. -/
theorem mergeAlong_of_untangled (hnd : order.Nodup) (h : Untangled order all) :
    mergeAlong order all = effectiveAlong order all := by
  have hround := mergeRound_of_untangled hnd h
  have hagain : mergeRound order (effectiveAlong order all) = effectiveAlong order all := by
    rw [mergeRound_of_untangled hnd h.effectiveAlong]
    refine List.ext_getElem? fun pass => ?_
    simp only [effectiveAlong, List.getElem?_mapIdx, Option.map_map]
    refine congrArg (fun f => Option.map f all[pass]?) (funext fun b => ?_)
    by_cases hmem : pass ∈ order <;> simp [hmem]
  rw [mergeAlong, hround]
  split
  · rw [mergeAlong, hagain, if_neg (Nat.lt_irrefl _)]
  · rfl

end Passes

end FrameGraph
