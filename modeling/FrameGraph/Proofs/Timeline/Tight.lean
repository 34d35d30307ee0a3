import FrameGraph.Proofs.Graph.Lifetimes
import Mathlib.Order.Bounds.Basic

/-!
# Lifetimes and timelines are tight

The lifetime of a resource and its timeline come from two walks along the order of execution.  They
agree: the lifetime begins at the least and ends at the greatest position at which a pass accesses the
resource, and the timeline has one use for each such pass, from the one to the other.  A use joins the
accesses of its pass: stages and accesses add up, and the layout is that of the last write, or of the
first access if nothing is written.

Principal statements: `Pass.joins_use?`, `isLeast_of_span` with `isGreatest_of_span`, and
`timed_tightly`.
-/

set_option autoImplicit false

namespace FrameGraph

/-! ## Joining the accesses of a pass -/

namespace Use

variable (u : Use) (a : PassAccess) (state : ImageState)

theorem stage_merge : (u.merge a state).state.stage = u.state.stage ||| state.stage := by
  unfold merge
  cases a.isWrite <;> rfl

theorem access_merge : (u.merge a state).state.access = u.state.access ||| state.access := by
  unfold merge
  cases a.isWrite <;> rfl

theorem layout_merge :
    (u.merge a state).state.layout = if a.isWrite then state.layout else u.state.layout := by
  unfold merge
  cases a.isWrite <;> rfl

end Use

namespace Pass

variable {p : Pass} {kind : ResourceKind} {h : Handle} {position index : Nat} {u : Use}

/-- An access counts as a read if it reads, or if the pass reads the same resource for the same
usage. -/
def CountsAsRead (p : Pass) (a : PassAccess) : Prop :=
  a.isWrite = false ∨ ∃ other ∈ p.accesses,
    other.resource = a.resource ∧ other.usage = a.usage ∧ other.isWrite = false

instance (p : Pass) (a : PassAccess) : Decidable (p.CountsAsRead a) :=
  inferInstanceAs (Decidable (_ ∨ _))

theorem accessState_eq (p : Pass) (kind : ResourceKind) (a : PassAccess) :
    p.accessState kind a =
      a.usage.resolve p.kind kind (decide (p.CountsAsRead a)) a.isWrite := by
  have hreads : (!a.isWrite || p.accesses.any fun other =>
      other.resource = a.resource && other.usage = a.usage && !other.isWrite) =
        decide (p.CountsAsRead a) := by
    rw [Bool.eq_iff_iff, decide_eq_true_eq, CountsAsRead]
    simp [and_assoc]
  unfold accessState
  dsimp only
  rw [hreads]

/-- The access that decides on the layout: the last one that writes, or else the first. -/
def decisive? (p : Pass) (h : Handle) : Option PassAccess :=
  ((p.accesses.filter fun a => a.resource = h).filter (·.isWrite)).getLast?.or
    (p.accesses.filter fun a => a.resource = h).head?

/-- The use that joins all accesses of a pass to a resource. -/
structure Joins (p : Pass) (kind : ResourceKind) (h : Handle) (u : Use) : Prop where
  stage : ∀ bit, u.state.stage.has bit = true ↔ ∃ a ∈ p.accesses, a.resource = h ∧
    (a.usage.resolve p.kind kind (decide (p.CountsAsRead a)) a.isWrite).stage.has bit = true
  access : ∀ bit, u.state.access.has bit = true ↔ ∃ a ∈ p.accesses, a.resource = h ∧
    (a.usage.resolve p.kind kind (decide (p.CountsAsRead a)) a.isWrite).access.has bit = true
  layout : ∃ a, p.decisive? h = some a ∧ u.usage = a.usage ∧ u.state.layout =
    (a.usage.resolve p.kind kind (decide (p.CountsAsRead a)) a.isWrite).layout
  isRead : u.isRead = true ↔ ∃ a ∈ p.accesses, a.resource = h ∧ a.isWrite = false
  isWrite : u.isWrite = true ↔ ∃ a ∈ p.accesses, a.resource = h ∧ a.isWrite = true

section Fold

variable (state : PassAccess → ImageState) (first : PassAccess) (rest : List PassAccess)

/-- The use that joins the accesses of a list. -/
def joined (position index : Nat) : Use :=
  rest.foldl (fun u a => u.merge a (state a)) (.ofAccess position index first (state first))

theorem joined_concat (a : PassAccess) :
    joined state first (rest ++ [a]) position index =
      (joined state first rest position index).merge a (state a) := by
  rw [joined, List.foldl_append]
  rfl

theorem has_stage_joined (bit : Nat) :
    (joined state first rest position index).state.stage.has bit = true ↔
      ∃ a ∈ first :: rest, (state a).stage.has bit = true := by
  induction rest using List.reverseRecOn with
  | nil => simp [joined, Use.ofAccess]
  | append_singleton rest a ih =>
      rw [joined_concat, Use.stage_merge, Mask.has_or, Bool.or_eq_true, ih]
      simp [or_assoc, or_and_right, exists_or]

theorem has_access_joined (bit : Nat) :
    (joined state first rest position index).state.access.has bit = true ↔
      ∃ a ∈ first :: rest, (state a).access.has bit = true := by
  induction rest using List.reverseRecOn with
  | nil => simp [joined, Use.ofAccess]
  | append_singleton rest a ih =>
      rw [joined_concat, Use.access_merge, Mask.has_or, Bool.or_eq_true, ih]
      simp [or_assoc, or_and_right, exists_or]

theorem isRead_joined :
    (joined state first rest position index).isRead = true ↔
      ∃ a ∈ first :: rest, a.isWrite = false := by
  induction rest using List.reverseRecOn with
  | nil => simp [joined, Use.ofAccess]
  | append_singleton rest a ih =>
      rw [joined_concat, Use.merge, Bool.or_eq_true, ih]
      simp [or_assoc, or_and_right, exists_or]

theorem isWrite_joined :
    (joined state first rest position index).isWrite = true ↔
      ∃ a ∈ first :: rest, a.isWrite = true := by
  induction rest using List.reverseRecOn with
  | nil => simp [joined, Use.ofAccess]
  | append_singleton rest a ih =>
      rw [joined_concat, Use.merge, Bool.or_eq_true, ih]
      simp [or_assoc, or_and_right, exists_or]

/-- The last write decides on usage and layout, or else the first access. -/
theorem exists_decisive_joined :
    ∃ a, ((first :: rest).filter (·.isWrite)).getLast?.or (some first) = some a ∧
      (joined state first rest position index).usage = a.usage ∧
      (joined state first rest position index).state.layout = (state a).layout := by
  induction rest using List.reverseRecOn with
  | nil => exact ⟨first, by cases hw : first.isWrite <;> simp [hw], rfl, rfl⟩
  | append_singleton rest a ih =>
      rw [joined_concat, ← List.cons_append, List.filter_append, Use.layout_merge]
      cases hw : a.isWrite with
      | true => exact ⟨a, by simp [hw], by simp [Use.merge, hw], rfl⟩
      | false =>
          obtain ⟨decisive, hdecisive, husage, hlayout⟩ := ih
          exact ⟨decisive, by simpa [hw] using hdecisive, by simpa [Use.merge, hw] using husage,
            hlayout⟩

end Fold

/-- **A use joins all accesses of its pass.** -/
theorem joins_use? (hu : p.use? kind h position index = some u) : p.Joins kind h u := by
  have hstate : p.accessState kind = fun a =>
      a.usage.resolve p.kind kind (decide (p.CountsAsRead a)) a.isWrite :=
    funext (p.accessState_eq kind)
  unfold use? at hu
  split at hu
  · cases hu
  · next first rest hfilter =>
      -- The accesses to the resource are the first and those that are merged into it.
      have hmem : ∀ P : PassAccess → Prop,
          (∃ a ∈ first :: rest, P a) ↔ ∃ a ∈ p.accesses, a.resource = h ∧ P a := by
        intro P
        rw [← hfilter]
        simp [and_assoc]
      obtain rfl : joined (p.accessState kind) first rest position index = u := Option.some.inj hu
      rw [hstate]
      refine ⟨fun bit => ?_, fun bit => ?_, ?_, ?_, ?_⟩
      · rw [has_stage_joined, hmem]
      · rw [has_access_joined, hmem]
      · rw [decisive?, hfilter]
        exact exists_decisive_joined _ first rest
      · rw [isRead_joined, hmem]
      · rw [isWrite_joined, hmem]

theorem involves_iff : p.involves h = true ↔ ∃ a ∈ p.accesses, a.resource = h := by
  simp [involves]

end Pass

/-! ## Which uses there are -/

/-- A pass accesses the resource at a position of the order. -/
def AccessedAt (order : List Nat) (passes : List Pass) (h : Handle) (position : Nat) : Prop :=
  ∃ pass p, order[position]? = some pass ∧ passes[pass]? = some p ∧ ∃ a ∈ p.accesses, a.resource = h

section Order

variable {order : List Nat} {passes : List Pass} {kind : ResourceKind} {h : Handle}
  {timeline : Timeline} {lifetime : Lifetime}

/-- At each position at which the resource is accessed there is a use. -/
theorem exists_use (kind : ResourceKind) {position pass : Nat} {p : Pass} (hpass : order[position]? = some pass)
    (hp : passes[pass]? = some p) (haccess : ∃ a ∈ p.accesses, a.resource = h) :
    ∃ u ∈ timelineOf order passes kind h, u.position = position ∧ u.pass = pass := by
  obtain ⟨u, hu⟩ := Pass.exists_use? (Pass.involves_iff.2 haccess) kind position pass
  obtain ⟨rfl, rfl⟩ := Pass.use?_place hu
  exact ⟨u, mem_timelineOf.2 ⟨hpass, p, hp, hu⟩, rfl, rfl⟩

/-- Each use joins the accesses of the pass at its position. -/
theorem joins_of_mem_timelineOf {u : Use} (hu : u ∈ timelineOf order passes kind h) :
    order[u.position]? = some u.pass ∧
      ∃ p, passes[u.pass]? = some p ∧ (∃ a ∈ p.accesses, a.resource = h) ∧ p.Joins kind h u := by
  obtain ⟨hpass, p, hp, huse⟩ := mem_timelineOf.1 hu
  exact ⟨hpass, p, hp, Pass.involves_iff.1 (Pass.involves_of_use? huse), Pass.joins_use? huse⟩

theorem accessedAt_iff (kind : ResourceKind) {position : Nat} :
    AccessedAt order passes h position ↔
      ∃ u ∈ timelineOf order passes kind h, u.position = position := by
  constructor
  · rintro ⟨pass, p, hpass, hp, haccess⟩
    obtain ⟨u, hu, hposition, -⟩ := exists_use kind hpass hp haccess
    exact ⟨u, hu, hposition⟩
  · rintro ⟨u, hu, rfl⟩
    obtain ⟨hpass, p, hp, haccess, -⟩ := joins_of_mem_timelineOf hu
    exact ⟨u.pass, p, hpass, hp, haccess⟩

/-- The first use of an ordered timeline comes first, and the last one last. -/
theorem Timeline.mem_of_span (hsorted : timeline.Pairwise fun u v => u.position < v.position)
    (hspan : timeline.span? = some lifetime) :
    (∃ u ∈ timeline, u.position = lifetime.first) ∧ (∃ u ∈ timeline, u.position = lifetime.last) ∧
      ∀ u ∈ timeline, lifetime.first ≤ u.position ∧ u.position ≤ lifetime.last := by
  obtain ⟨first, hfirst, hmap⟩ := Option.bind_eq_some_iff.1 hspan
  obtain ⟨last, hlast, rfl⟩ := Option.map_eq_some_iff.1 hmap
  refine ⟨⟨first, List.mem_of_head? hfirst, rfl⟩, ⟨last, List.mem_of_getLast? hlast, rfl⟩,
    fun u hu => ⟨?_, ?_⟩⟩
  · obtain ⟨rest, rfl⟩ := List.head?_eq_some_iff.1 hfirst
    rcases List.mem_cons.1 hu with rfl | hu
    · exact Nat.le_refl _
    · exact Nat.le_of_lt ((List.pairwise_cons.1 hsorted).1 u hu)
  · obtain ⟨before, rfl⟩ := List.getLast?_eq_some_iff.1 hlast
    rcases List.mem_append.1 hu with hu | hu
    · exact Nat.le_of_lt ((List.pairwise_append.1 hsorted).2.2 u hu last List.mem_cons_self)
    · rw [List.mem_singleton.1 hu]

theorem isLeast_of_span (hspan : (timelineOf order passes kind h).span? = some lifetime) :
    IsLeast {position | AccessedAt order passes h position} lifetime.first := by
  obtain ⟨hfirst, -, hwithin⟩ := Timeline.mem_of_span pairwise_position hspan
  refine ⟨(accessedAt_iff _).2 hfirst, fun position hposition => ?_⟩
  obtain ⟨u, hu, rfl⟩ := (accessedAt_iff kind).1 hposition
  exact (hwithin u hu).1

theorem isGreatest_of_span (hspan : (timelineOf order passes kind h).span? = some lifetime) :
    IsGreatest {position | AccessedAt order passes h position} lifetime.last := by
  obtain ⟨-, hlast, hwithin⟩ := Timeline.mem_of_span pairwise_position hspan
  refine ⟨(accessedAt_iff _).2 hlast, fun position hposition => ?_⟩
  obtain ⟨u, hu, rfl⟩ := (accessedAt_iff kind).1 hposition
  exact (hwithin u hu).2

/-- A resource has a lifetime exactly if it is accessed. -/
theorem lifetimeOf_isSome_iff :
    (lifetimeOf order passes h).isSome = true ↔ ∃ position, AccessedAt order passes h position := by
  rw [lifetimeOf_eq order passes .image h]
  constructor
  · intro hsome
    obtain ⟨lifetime, hspan⟩ := Option.isSome_iff_exists.1 hsome
    exact ⟨lifetime.first, (isLeast_of_span hspan).1⟩
  · rintro ⟨position, hposition⟩
    obtain ⟨u, hu, -⟩ := (accessedAt_iff .image).1 hposition
    obtain ⟨first, last, -, -, hspan⟩ := Timeline.exists_span (List.ne_nil_of_mem hu)
    rw [hspan]
    rfl

end Order

/-! ## Lifetimes and the table of uses -/

/-- The timeline of a resource with its lifetime: one use for each ordered pass that accesses the
resource, in order, from the beginning of the lifetime to its end. -/
structure Timeline.IsTight (timeline : Timeline) (order : List Nat) (passes : List Pass)
    (kind : ResourceKind) (h : Handle) (lifetime : Lifetime) : Prop where
  least : IsLeast {position | AccessedAt order passes h position} lifetime.first
  greatest : IsGreatest {position | AccessedAt order passes h position} lifetime.last
  span : timeline.head?.map (·.position) = some lifetime.first ∧
    timeline.getLast?.map (·.position) = some lifetime.last
  increasing : timeline.Pairwise fun u v => u.position < v.position
  once : ∀ pass ∈ order, ∀ p, passes[pass]? = some p → (∃ a ∈ p.accesses, a.resource = h) →
    ∃! u, u ∈ timeline ∧ u.pass = pass
  uses : ∀ u ∈ timeline, order[u.position]? = some u.pass ∧
    ∃ p, passes[u.pass]? = some p ∧ (∃ a ∈ p.accesses, a.resource = h) ∧ p.Joins kind h u

section Table

variable {order : List Nat} {passes : List Pass} {registry : Registry} {h : Handle}
  {resource : Resource}

theorem isTight_timelineOf (hnd : order.Nodup) {kind : ResourceKind} {lifetime : Lifetime}
    (hspan : (timelineOf order passes kind h).span? = some lifetime) :
    (timelineOf order passes kind h).IsTight order passes kind h lifetime where
  least := isLeast_of_span hspan
  greatest := isGreatest_of_span hspan
  span := by
    obtain ⟨first, hfirst, hmap⟩ := Option.bind_eq_some_iff.1 hspan
    obtain ⟨last, hlast, rfl⟩ := Option.map_eq_some_iff.1 hmap
    rw [hfirst, hlast]
    exact ⟨rfl, rfl⟩
  increasing := pairwise_position
  once := by
    intro pass hpass p hp haccess
    obtain ⟨position, hposition⟩ := List.mem_iff_getElem?.1 hpass
    obtain ⟨u, hu, -, rfl⟩ := exists_use kind hposition hp haccess
    refine ⟨u, ⟨hu, rfl⟩, fun v hv => ?_⟩
    -- Different uses are made by different passes.
    exact List.inj_on_of_nodup_map (List.pairwise_map.2 (pairwise_pass hnd)) hv.1 hu hv.2
  uses := fun _ hu => joins_of_mem_timelineOf hu

/-- **Lifetimes and timelines describe the same.**  Along an order without repetitions, and whatever
lifetimes there were before, a resource that no ordered pass accesses has neither a lifetime nor a
timeline; any other has both, and they are tight. -/
theorem timed_tightly (hnd : order.Nodup)
    (hget : (registry.withLifetimes order passes).get? h = some resource) :
    match resource.lifetime,
      (UsageTable.along order passes (registry.withLifetimes order passes)).get? h with
    | none, none => ∀ position, ¬ AccessedAt order passes h position
    | some lifetime, some timeline =>
        timeline.IsTight order passes resource.kind h lifetime
    | _, _ => False := by
  have hlifetime : resource.lifetime = lifetimeOf order passes h := by
    rw [Registry.get?_withLifetimes] at hget
    obtain ⟨found, -, rfl⟩ := Option.map_eq_some_iff.1 hget
    rfl
  rw [lifetimeOf_eq order passes resource.kind h] at hlifetime
  cases hspan : (timelineOf order passes resource.kind h).span? with
  | none =>
      have hunused : ∀ position, ¬ AccessedAt order passes h position := by
        intro position hposition
        obtain ⟨u, hu, -⟩ := (accessedAt_iff resource.kind).1 hposition
        obtain ⟨first, last, -, -, hsome⟩ := Timeline.exists_span (List.ne_nil_of_mem hu)
        rw [hspan] at hsome
        cases hsome
      have htable : (UsageTable.along order passes
          (registry.withLifetimes order passes)).get? h = none := by
        refine Option.eq_none_iff_forall_not_mem.2 fun timeline htimeline => ?_
        obtain ⟨found, hfound, rfl, hne⟩ := get?_along.1 htimeline
        obtain ⟨u, hu⟩ := List.exists_mem_of_ne_nil _ hne
        exact hunused u.position ((accessedAt_iff _).2 ⟨u, hu, rfl⟩)
      rw [hlifetime, hspan, htable]
      exact hunused
  | some lifetime =>
      have htable : (UsageTable.along order passes
          (registry.withLifetimes order passes)).get? h =
            some (timelineOf order passes resource.kind h) := by
        refine get?_along.2 ⟨resource, hget, rfl, fun hnil => ?_⟩
        rw [hnil] at hspan
        cases hspan
      rw [hlifetime, hspan, htable]
      exact isTight_timelineOf hnd hspan

/-- A picture and notes are written. -/
def sketched : PassDraft :=
  (PassDraft.performAll ⟨"sketch", .transfer, .empty, []⟩
    [.createImage "picture" {} false, .createBuffer "notes" { size := 64 } false,
      .write "picture" .transferDst, .write "notes" .transferDst]).value.2

/-- Then the picture is read for two usages, and written for one of them. -/
def retouched : PassDraft :=
  (PassDraft.performAll ⟨"retouch", .compute, sketched.registry, []⟩
    [.read "picture" .shaderRead, .readWrite "picture" .shaderWrite]).value.2

/-- If the second pass alone is left, the notes lose their lifetime and that of the picture shrinks. -/
theorem timed_tightly_retouched :
    let passes := [sketched.toPass none, retouched.toPass none]
    let earlier := retouched.registry.withLifetimes [0, 1] passes
    (earlier.get? (.slot 0 0)).bind (·.lifetime) = some ⟨0, 1⟩ ∧
      (earlier.get? (.slot 1 0)).bind (·.lifetime) = some ⟨0, 0⟩ ∧
      (∃ timeline, (UsageTable.along [1] passes (earlier.withLifetimes [1] passes)).get?
          (.slot 0 0) = some timeline ∧
        timeline.IsTight [1] passes .image (.slot 0 0) ⟨0, 0⟩) ∧
      ∀ position, ¬ AccessedAt [1] passes (.slot 1 0) position := by
  intro passes earlier
  have hnd : [1].Nodup := by decide
  have hpicture : (earlier.withLifetimes [1] passes).get? (.slot 0 0) =
      some ⟨"picture", .image {}, .internal false, false, some ⟨0, 0⟩⟩ := by decide +kernel
  have hnotes : (earlier.withLifetimes [1] passes).get? (.slot 1 0) =
      some ⟨"notes", .buffer { size := 64 }, .internal false, false, none⟩ := by decide +kernel
  refine ⟨by decide +kernel, by decide +kernel, ?_, ?_⟩
  -- From here on, only what was computed matters.
  all_goals clear_value earlier passes
  · have htight := timed_tightly hnd hpicture
    split at htight
    · next hnone _ => cases hnone
    · next timeline hlifetime htable =>
        cases hlifetime
        exact ⟨timeline, htable, htight⟩
    · cases htight
  · have hunused := timed_tightly hnd hnotes
    split at hunused
    · exact hunused
    · next hsome _ => cases hsome
    · cases hunused

end Table

end FrameGraph
