import FrameGraph.Proofs.Graph.Reachable
import FrameGraph.Proofs.Renaming.Passes
import FrameGraph.Proofs.Scheduling.Layouts

/-!
# Schedules and timelines under other handles

The scheduler looks at the kinds of resources, at whether they are imported and at the layouts in which
images are handed over, but compares handles for equality only.  So corresponding passes are scheduled
in the same order, and corresponding resources are used and live along it in the same way.

Principal statements: `ScheduleInput.Matches.order_eq`, `timelineOf_eq` and `lifetimeOf_eq_of_matches`.
-/

set_option autoImplicit false

namespace FrameGraph

open Relator (BiUnique)

/-! ## Resources under other handles -/

namespace Registry

variable {r r' : Registry} {h h' : Handle}

/-- The handles name resources of the same outline, hence of the same name. -/
def Paired (r r' : Registry) (h h' : Handle) : Prop :=
  ∃ resource resource', r.get? h = some resource ∧ r'.get? h' = some resource' ∧
    resource.outline = resource'.outline

/-- Names are unique, so no handle has two partners. -/
theorem biUnique_paired (hr : r.WellFormed) (hr' : r'.WellFormed) : BiUnique (r.Paired r') := by
  constructor
  · rintro h k h' ⟨a, a', ha, ha', hout⟩ ⟨b, b', hb, hb', hout'⟩
    obtain rfl : a' = b' := Option.some.inj (ha'.symm.trans hb')
    exact hr.names h k a b ha hb (Resource.name_of_outline (hout.trans hout'.symm))
  · rintro h h' k' ⟨a, a', ha, ha', hout⟩ ⟨b, b', hb, hb', hout'⟩
    obtain rfl : a = b := Option.some.inj (ha.symm.trans hb)
    exact hr'.names h' k' a' b' ha' hb' (Resource.name_of_outline (hout.symm.trans hout'))

theorem Paired.any_eq (hpaired : r.Paired r' h h') {f : Resource → Bool}
    (hf : ∀ a b : Resource, a.outline = b.outline → f a = f b) :
    (r.get? h).any f = (r'.get? h').any f := by
  obtain ⟨resource, resource', hget, hget', houtline⟩ := hpaired
  rw [hget, hget', Option.any_some, Option.any_some, hf _ _ houtline]

end Registry

/-! ## Lists of which the elements correspond -/

theorem forall₂_find? {α β : Type} {R : α → β → Prop} {l : List α} {l' : List β}
    (h : List.Forall₂ R l l') {f : α → Bool} {f' : β → Bool} (hf : ∀ a b, R a b → f a = f' b) :
    l.find? f = none ∧ l'.find? f' = none ∨
      ∃ a b, l.find? f = some a ∧ l'.find? f' = some b ∧ R a b := by
  rw [← List.head?_filter, ← List.head?_filter, List.head?_eq_getElem?, List.head?_eq_getElem?]
  exact forall₂_getElem? (forall₂_filter h hf) 0

/-! ## What the scheduler sees of a pass -/

section Seen

variable {registry registry' : Registry} (hR : BiUnique (registry.Paired registry'))
  {p p' : Pass} (hp : p.Matches (registry.Paired registry') p')

include hR hp

namespace Pass.Matches

theorem layoutFor? {h h' : Handle} (hh : registry.Paired registry' h h') :
    p.layoutFor? registry h = p'.layoutFor? registry' h' := by
  have hsame : ∀ a a' : PassAccess, a.Matches (registry.Paired registry') a' →
      decide (a.resource = h) = decide (a'.resource = h') :=
    fun _ _ ha => decide_eq_of_biUnique hR ha.resource hh
  have hread : (p.accesses.any fun a => a.resource = h && !a.isWrite) =
      p'.accesses.any fun a => a.resource = h' && !a.isWrite :=
    any_eq_of_forall₂ hp.accesses fun a a' ha => by rw [hsame a a' ha, ha.isWrite]
  have hwrite : (p.accesses.any fun a => a.resource = h && a.isWrite) =
      p'.accesses.any fun a => a.resource = h' && a.isWrite :=
    any_eq_of_forall₂ hp.accesses fun a a' ha => by rw [hsame a a' ha, ha.isWrite]
  obtain ⟨resource, resource', hget, hget', houtline⟩ := hh
  unfold Pass.layoutFor?
  rw [hget, hget']
  obtain ⟨hfirst, hfirst'⟩ | ⟨first, first', hfirst, hfirst', hmatches⟩ :=
    forall₂_find? hp.accesses hsame
  · rw [hfirst, hfirst']
  · rw [hfirst, hfirst']
    simp only [Resource.kind_of_outline houtline, hread, hwrite, hmatches.usage, hp.kind]

theorem sharedCount {q q' : Pass} (hq : q.Matches (registry.Paired registry') q') :
    p.sharedCount q = p'.sharedCount q' :=
  countP_eq_of_forall₂ (hp.resources hR) fun _ _ hh => hq.involves hR hh

theorem transitionCount {layouts layouts' : HandleMap Layout}
    (hlayouts : ∀ h h', registry.Paired registry' h h' → layouts.get? h = layouts'.get? h') :
    p.transitionCount registry layouts = p'.transitionCount registry' layouts' :=
  countP_eq_of_forall₂ (hp.resources hR) fun h h' hh => by
    rw [hp.layoutFor? hR hh, hlayouts h h' hh]

theorem involvesImported : p.involvesImported registry = p'.involvesImported registry' :=
  any_eq_of_forall₂ (hp.resources hR) fun _ _ hh => hh.any_eq fun _ _ => Resource.isImported_of_outline

end Pass.Matches

end Seen

/-! ## The schedule -/

namespace ScheduleInput

/-- Inputs with corresponding passes and the same marks. -/
structure Matches (s s' : ScheduleInput) : Prop where
  unique : BiUnique (s.registry.Paired s'.registry)
  passes : List.Forall₂ (Pass.Matches (s.registry.Paired s'.registry)) s.passes s'.passes
  graph : s.graph.Matches (s.registry.Paired s'.registry) s'.graph
  reachable : s.reachable = s'.reachable

namespace Matches

variable {s s' : ScheduleInput} (hs : s.Matches s')

include hs

theorem wants_eq : s.wants = s'.wants := by
  funext pass
  rw [wants, wants, hs.reachable]

theorem passAt (pass : Nat) :
    (s.passAt pass).Matches (s.registry.Paired s'.registry) (s'.passAt pass) := by
  rw [ScheduleInput.passAt, ScheduleInput.passAt, List.getD_eq_getElem?_getD,
    List.getD_eq_getElem?_getD]
  obtain ⟨hp, hp'⟩ | ⟨p, p', hp, hp', hmatches⟩ := forall₂_getElem? hs.passes pass
  · rw [hp, hp']
    exact .default
  · rw [hp, hp']
    exact hmatches

theorem dependencyCounts_eq : s.dependencyCounts = s'.dependencyCounts := by
  simp only [dependencyCounts, DependencyGraph.predecessorsOf, hs.passes.length_eq,
    hs.graph.predecessors, hs.wants_eq]

theorem initiallyReady_eq : s.initiallyReady = s'.initiallyReady := by
  simp only [initiallyReady, hs.passes.length_eq, hs.wants_eq, hs.dependencyCounts_eq]

theorem importDistances_eq : s.importDistances = s'.importDistances := by
  rw [importDistances, importDistances, hs.graph.distancesTo, hs.passes.length_eq, hs.wants_eq]
  refine congrArg _ (List.filter_congr fun pass _ => ?_)
  rw [(hs.passAt pass).involvesImported hs.unique]

omit hs in
theorem get?_initialLayouts_eq {h h' : Handle} (hh : s.registry.Paired s'.registry h h') :
    s.initialLayouts.get? h = s'.initialLayouts.get? h' := by
  obtain ⟨resource, resource', hget, hget', houtline⟩ := hh
  rw [s.get?_initialLayouts hget, s'.get?_initialLayouts hget',
    Resource.handover?_of_outline houtline]

variable {layouts layouts' : HandleMap Layout}
  (hlayouts : ∀ h h', s.registry.Paired s'.registry h h' → layouts.get? h = layouts'.get? h')

include hlayouts

theorem get?_layoutsAfter_eq (pass : Nat) :
    ∀ h h', s.registry.Paired s'.registry h h' →
      (s.layoutsAfter layouts pass).get? h = (s'.layoutsAfter layouts' pass).get? h' := by
  have hpass := hs.passAt pass
  refine List.rel_foldl (R := PassAccess.Matches (s.registry.Paired s'.registry))
    (P := fun (m m' : HandleMap Layout) =>
      ∀ h h', s.registry.Paired s'.registry h h' → m.get? h = m'.get? h')
    (fun m m' hm a a' ha => ?_) hlayouts hpass.accesses
  rw [hpass.layoutFor? hs.unique ha.resource]
  split
  · exact hm
  · exact fun k k' hk => HandleMap.get?_insert_eq hs.unique hm ha.resource _ hk

theorem priority_eq (distances : List (Option Nat)) (previous : Option Nat) :
    s.priority distances layouts previous = s'.priority distances layouts' previous := by
  funext pass
  have htransitions := (hs.passAt pass).transitionCount hs.unique hlayouts
  cases previous with
  | none => simp only [priority, htransitions]
  | some previous =>
      simp only [priority, htransitions, (hs.passAt previous).sharedCount hs.unique (hs.passAt pass)]

omit hlayouts

theorem extend_eq (distances : List (Option Nat)) (counts : List Nat) (layouts : HandleMap Layout)
    (order ready : List Nat) :
    ∀ layouts' : HandleMap Layout,
      (∀ h h', s.registry.Paired s'.registry h h' → layouts.get? h = layouts'.get? h') →
        s.extend distances counts layouts order ready =
          s'.extend distances counts layouts' order ready := by
  have hsuccessors : s.graph.successorsOf = s'.graph.successorsOf := by
    funext pass
    rw [DependencyGraph.successorsOf, DependencyGraph.successorsOf, hs.graph.successors]
  fun_induction ScheduleInput.extend s distances counts layouts order ready with
  | case1 => intro layouts' _; rw [ScheduleInput.extend]
  | case2 counts layouts order first rest next counted ih =>
      intro layouts' hlayouts
      have hnext : next = pick (s'.priority distances layouts' order.getLast?) first rest := by
        rw [← hs.priority_eq hlayouts]
      have hcounted : counted = countDown counts
          ((s'.graph.successorsOf next).filter s'.wants) := by
        rw [← hsuccessors, ← hs.wants_eq]
      rw [ScheduleInput.extend, ← hnext, ← hcounted]
      exact ih _ (hs.get?_layoutsAfter_eq hlayouts next)

/-- **Corresponding passes are scheduled in the same order.** -/
theorem order_eq : s.order.value = s'.order.value := by
  have hgreedy : s.greedyOrder = s'.greedyOrder := by
    rw [greedyOrder, greedyOrder, hs.importDistances_eq, hs.dependencyCounts_eq,
      hs.initiallyReady_eq]
    exact hs.extend_eq _ _ _ _ _ _ fun _ _ hh => get?_initialLayouts_eq hh
  have hmissing : s.missing s.greedyOrder = s'.missing s'.greedyOrder := by
    simp only [missing, hgreedy, hs.passes.length_eq, hs.wants_eq]
  have hvalue : ∀ s : ScheduleInput, s.order.value =
      if s.greedyOrder.length = s.reachable.count true then s.greedyOrder
      else s.greedyOrder ++ s.missing s.greedyOrder := by
    intro s
    unfold order
    dsimp only
    split <;> rfl
  rw [hvalue, hvalue, hmissing, hgreedy, hs.reachable]

end Matches

end ScheduleInput

/-! ## Timelines and lifetimes -/

section Timelines

variable {R : Handle → Handle → Prop} (hR : BiUnique R)

include hR

theorem Pass.Matches.accessState {p p' : Pass} (hp : p.Matches R p') (kind : ResourceKind)
    {a a' : PassAccess} (ha : a.Matches R a') : p.accessState kind a = p'.accessState kind a' := by
  have hreads : (p.accesses.any fun other =>
        other.resource = a.resource && other.usage = a.usage && !other.isWrite) =
      p'.accesses.any fun other =>
        other.resource = a'.resource && other.usage = a'.usage && !other.isWrite :=
    any_eq_of_forall₂ hp.accesses fun b b' hb => by
      rw [decide_eq_of_biUnique hR hb.resource ha.resource, hb.usage, ha.usage, hb.isWrite]
  unfold Pass.accessState
  rw [hreads, ha.usage, ha.isWrite, hp.kind]

variable {h h' : Handle} (hh : R h h')

include hh

theorem Pass.Matches.use?_eq {p p' : Pass} (hp : p.Matches R p') (kind : ResourceKind)
    (position index : Nat) : p.use? kind h position index = p'.use? kind h' position index := by
  have hstate := fun a a' (ha : PassAccess.Matches R a a') => hp.accessState hR kind ha
  have hfilter : List.Forall₂ (PassAccess.Matches R) (p.accesses.filter fun a => a.resource = h)
      (p'.accesses.filter fun a => a.resource = h') :=
    forall₂_filter hp.accesses fun _ _ ha => decide_eq_of_biUnique hR ha.resource hh
  unfold Pass.use?
  revert hfilter
  generalize (p.accesses.filter fun a => a.resource = h) = own
  generalize (p'.accesses.filter fun a => a.resource = h') = own'
  intro hown
  cases hown with
  | nil => rfl
  | @cons first first' rest rest' hfirst hrest =>
      refine congrArg some (List.rel_foldl (R := PassAccess.Matches R) (P := Eq) ?_ ?_ hrest)
      · rintro u _ rfl a a' ha
        simp only [Use.merge, hstate a a' ha, ha.usage, ha.isWrite]
      · simp only [Use.ofAccess, hstate first first' hfirst, hfirst.usage, hfirst.isWrite]

variable {passes passes' : List Pass} (hpasses : List.Forall₂ (Pass.Matches R) passes passes')

include hpasses

/-- **Corresponding resources are used in the same way along an order.** -/
theorem timelineOf_eq (order : List Nat) (kind : ResourceKind) :
    timelineOf order passes kind h = timelineOf order passes' kind h' := by
  refine congrArg (List.filterMap · _) (funext fun entry => ?_)
  dsimp only
  obtain ⟨hp, hp'⟩ | ⟨p, p', hp, hp', hmatches⟩ := forall₂_getElem? hpasses entry.1
  · rw [hp, hp']
    rfl
  · rw [hp, hp']
    exact hmatches.use?_eq hR hh kind entry.2 entry.1

/-- **Corresponding resources live equally long.** -/
theorem lifetimeOf_eq_of_matches (order : List Nat) :
    lifetimeOf order passes h = lifetimeOf order passes' h' := by
  have hstep : ∀ pass : Nat, ((passes[pass]?).any fun p : Pass => p.involves h) =
      (passes'[pass]?).any fun p : Pass => p.involves h' := by
    intro pass
    obtain ⟨hp, hp'⟩ | ⟨p, p', hp, hp', hmatches⟩ := forall₂_getElem? hpasses pass
    · rw [hp, hp']
      rfl
    · rw [hp, hp']
      exact hmatches.involves hR hh
  simp only [lifetimeOf, hstep]

end Timelines

end FrameGraph
