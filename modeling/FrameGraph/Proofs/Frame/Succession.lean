import FrameGraph.Proofs.Frame.Tenants
import FrameGraph.Proofs.Graph.Lifetimes
import FrameGraph.Proofs.Memory.Aliasing
import FrameGraph.Proofs.Memory.Kinds

/-!
# Tenants of the same memory wait for each other

After every frame the transient resources in one memory follow each other, and each was told how the one
right before it leaves the memory.  So a chain of recorded barriers leads from a use of one of them
through those between to a use of a later one.  It breaks where the first barrier of a tenant is left
out: on a buffer that is only read at first, if the one before is only read at last.

Principal statements: `Graph.exists_hosts` and `Graph.Reachable.tenants_covered`.
-/

set_option autoImplicit false

namespace FrameGraph

/-- A state that stands for a writing use writes. -/
theorem StandsFor.isWrite {left : ImageState} {last : Use} (h : StandsFor left last)
    (hfits : last.state.Fits last.isWrite) (hwrites : last.state.isWrite = true) :
    left.isWrite = true := by
  cases hw : last.isWrite with
  | true =>
      rw [h.writing hw]
      exact hwrites
  | false =>
      rw [(hfits.readOnly hw).1] at hwrites
      cases hwrites

/-! ## Every frame of every graph -/

namespace Graph

variable {g g' : Graph} {index : Nat}

/-- A transient resource lies in some memory in the last frame. -/
def Occupies (g : Graph) (memory h : Handle) : Prop :=
  ∃ resource object, g.Resolved h resource object ∧ g.device.memoryOf? object = some memory

/-- The lifetime of the first resource ends before that of the second begins. -/
def Before (g : Graph) (h k : Handle) : Prop :=
  ∃ resource other lifetime lifetime', g.registry.get? h = some resource ∧
    g.registry.get? k = some other ∧ resource.lifetime = some lifetime ∧
      other.lifetime = some lifetime' ∧ lifetime.last < lifetime'.first

/-- The second resource comes into the memory right after the first. -/
structure Follows (g : Graph) (memory h k : Handle) : Prop where
  former : g.Occupies memory h
  next : g.Occupies memory k
  before : g.Before h k
  adjacent : ∀ m, g.Occupies memory m → g.Before h m → ¬ g.Before m k

/-- The first barrier of the second resource is needed: it is on an image, or the last use of the first
resource or the first use of the second one writes. -/
def NeedsEntry (g : Graph) (h k : Handle) : Prop :=
  ∀ resource timeline timeline', g.registry.get? k = some resource → resource.kind = .buffer →
    g.plan.table.get? h = some timeline → g.plan.table.get? k = some timeline' →
      (∃ last ∈ timeline.getLast?, last.state.isWrite = true) ∨
        ∃ first ∈ timeline'.head?, first.isWrite = true

/-- A resource that stays in the memory of a frame, as it is declared and as it was planned. -/
structure Hosted (g : Graph) (input : FrameInput) (registry : Registry) (x : Handle × Stay)
    (resource planned : Resource) (timeline : Timeline) : Prop where
  live : g.registry.get? x.1 = some resource
  lifetime : resource.lifetime = some x.2.lifetime
  kind : planned.kind = resource.kind
  tenant : input.Tenant g.plan.order g.passes registry x.1 planned timeline
  table : g.plan.table.get? x.1 = some timeline
  span : timeline.span? = some x.2.lifetime

/-- Who stays in the memory of a frame, and how they follow each other. -/
structure Hosts (g : Graph) (input : FrameInput) (registry : Registry)
    (stays : List (Handle × Stay)) : Prop where
  hosted : ∀ x ∈ stays, ∃ resource planned timeline,
    g.Hosted input registry x resource planned timeline
  occupies : ∀ memory h, g.Occupies memory h ↔ ∃ stay, (h, stay) ∈ stays ∧ stay.memory = memory
  apart : stays.Pairwise fun x y => x.2.memory = y.2.memory → x.2.lifetime.last < y.2.lifetime.first
  told : ∀ before x after former left, stays = before ++ x :: after →
    lastIn before x.2.memory = some former →
      (g.plan.table.get? former).bind Timeline.lastAccess = some left →
        input.frame.inherited.get? x.1 = some left

section Hosting

variable {input : FrameInput} {registry : Registry} {stays : List (Handle × Stay)}
  {x y : Handle × Stay}

/-- The lifetime goes from the first use to the last. -/
theorem Hosted.exists_uses {resource planned : Resource} {timeline : Timeline}
    (h : g.Hosted input registry x resource planned timeline) :
    ∃ u later last, timeline = u :: later ∧ timeline.getLast? = some last ∧
      u.position = x.2.lifetime.first ∧ last.position = x.2.lifetime.last := by
  obtain ⟨u, last, hhead, hlast, hspan⟩ := Timeline.exists_span h.tenant.planned.used
  obtain ⟨later, rfl⟩ := List.head?_eq_some_iff.1 hhead
  have hlifetime : x.2.lifetime = ⟨u.position, last.position⟩ :=
    Option.some.inj (h.span.symm.trans hspan)
  rw [hlifetime]
  exact ⟨u, later, last, rfl, hlast, rfl, rfl⟩

theorem Hosted.position_le {resource planned : Resource} {timeline : Timeline}
    (h : g.Hosted input registry x resource planned timeline) {i : Use} (hi : i ∈ timeline) :
    i.position ≤ x.2.lifetime.last := by
  obtain ⟨u, later, last, -, hlast, -, hend⟩ := h.exists_uses
  rw [← hend]
  exact h.tenant.planned.position_le_last hlast hi

/-- A timeline leaves a state that stands for its last use. -/
theorem Hosted.exists_lastAccess {resource planned : Resource} {timeline : Timeline}
    (h : g.Hosted input registry x resource planned timeline) :
    ∃ left, timeline.lastAccess = some left := by
  have hlast := List.getLast?_eq_some_getLast h.tenant.planned.used
  obtain ⟨front, hsplit⟩ := List.getLast?_eq_some_iff.1 hlast
  rw [hsplit]
  exact ⟨_, lastAccess_concat front _⟩

namespace Hosts

variable (hh : g.Hosts input registry stays)

include hh

theorem first_le_last (hx : x ∈ stays) : x.2.lifetime.first ≤ x.2.lifetime.last := by
  obtain ⟨resource, planned, timeline, hhosted⟩ := hh.hosted x hx
  obtain ⟨u, later, last, rfl, hlast, hfirst, hend⟩ := hhosted.exists_uses
  rw [← hfirst, ← hend]
  exact hhosted.tenant.planned.position_le_last hlast List.mem_cons_self

theorem before_iff (hx : x ∈ stays) (hy : y ∈ stays) :
    g.Before x.1 y.1 ↔ x.2.lifetime.last < y.2.lifetime.first := by
  obtain ⟨resource, _, _, hxhosted⟩ := hh.hosted x hx
  obtain ⟨other, _, _, hyhosted⟩ := hh.hosted y hy
  constructor
  · rintro ⟨a, b, lifetime, lifetime', ha, hb, hlifetime, hlifetime', hlt⟩
    obtain rfl : resource = a := Option.some.inj (hxhosted.live.symm.trans ha)
    obtain rfl : other = b := Option.some.inj (hyhosted.live.symm.trans hb)
    obtain rfl : x.2.lifetime = lifetime := Option.some.inj (hxhosted.lifetime.symm.trans hlifetime)
    obtain rfl : y.2.lifetime = lifetime' := Option.some.inj (hyhosted.lifetime.symm.trans hlifetime')
    exact hlt
  · intro hlt
    exact ⟨_, _, _, _, hxhosted.live, hyhosted.live, hxhosted.lifetime, hyhosted.lifetime, hlt⟩

/-- Of two in the same memory, the one that ends before the other begins moved in earlier. -/
theorem mem_before {before after : List (Handle × Stay)} (hsplit : stays = before ++ y :: after)
    (hx : x ∈ stays) (hmemory : x.2.memory = y.2.memory)
    (hlt : x.2.lifetime.last < y.2.lifetime.first) : x ∈ before := by
  have hle := hh.first_le_last hx
  have hy : y ∈ stays := hsplit ▸ List.mem_append_right _ List.mem_cons_self
  have hle' := hh.first_le_last hy
  have hapart := hh.apart
  rw [hsplit, List.pairwise_append, List.pairwise_cons] at hapart
  rw [hsplit] at hx
  refine (List.mem_append.1 hx).resolve_right fun hmem => ?_
  rcases List.mem_cons.1 hmem with rfl | hmem
  · omega
  · have hlater := hapart.2.1.1 x hmem hmemory.symm
    omega

/-- **Whoever comes into memory that was held before comes right after the last one there.** -/
theorem exists_former {before after : List (Handle × Stay)} (hsplit : stays = before ++ y :: after)
    (hx : x ∈ stays) (hmemory : x.2.memory = y.2.memory)
    (hlt : x.2.lifetime.last < y.2.lifetime.first) :
    ∃ z ∈ before, lastIn before y.2.memory = some z.1 ∧ z.2.memory = y.2.memory ∧
      (z = x ∨ x.2.lifetime.last < z.2.lifetime.first) ∧
      z.2.lifetime.last < y.2.lifetime.first ∧ g.Follows y.2.memory z.1 y.1 := by
  have hxbefore := hh.mem_before hsplit hx hmemory hlt
  obtain ⟨former, hformer⟩ := exists_lastIn hxbefore hmemory
  obtain ⟨front, stay, back, rfl, hstay, hback⟩ := exists_of_lastIn hformer
  have hz : (former, stay) ∈ front ++ (former, stay) :: back :=
    List.mem_append_right _ List.mem_cons_self
  have hsub : ∀ w ∈ front ++ (former, stay) :: back, w ∈ stays := fun w hw =>
    hsplit ▸ List.mem_append_left _ hw
  have hy : y ∈ stays := hsplit ▸ List.mem_append_right _ List.mem_cons_self
  have hapart := hh.apart
  rw [hsplit, List.pairwise_append, List.pairwise_append, List.pairwise_cons] at hapart
  obtain ⟨⟨-, ⟨-, -⟩, hfront⟩, -, hcross⟩ := hapart
  have hend := hcross _ hz y List.mem_cons_self hstay
  refine ⟨(former, stay), hz, hformer, hstay, ?_, hend, ?_, ?_, ?_, ?_⟩
  · -- Nobody is behind the last one.
    rcases List.mem_append.1 hxbefore with hxfront | hxrest
    · exact .inr (hfront x hxfront _ List.mem_cons_self (hmemory.trans hstay.symm))
    · rcases List.mem_cons.1 hxrest with rfl | hxback
      · exact .inl rfl
      · exact absurd hmemory (hback x hxback)
  · exact (hh.occupies _ _).2 ⟨stay, hsub _ hz, hstay⟩
  · exact (hh.occupies _ _).2 ⟨y.2, hy, rfl⟩
  · exact (hh.before_iff (hsub _ hz) hy).2 hend
  · intro m hm hbefore hafter
    obtain ⟨other, hother, hm⟩ := (hh.occupies _ _).1 hm
    have hlt' := (hh.before_iff (hsub _ hz) hother).1 hbefore
    have hlt'' := (hh.before_iff hother hy).1 hafter
    have hle := hh.first_le_last hother
    have hle' := hh.first_le_last (hsub _ hz)
    rcases List.mem_append.1 (hh.mem_before hsplit hother hm hlt'') with hmem | hmem
    · have hearlier := hfront _ hmem _ List.mem_cons_self (hm.trans hstay.symm)
      omega
    · rcases List.mem_cons.1 hmem with heq | hmem
      · cases heq
        omega
      · exact hback _ hmem hm

/-- A tenant is told how the one right before it leaves the memory, and its first barrier is recorded if
it is needed. -/
theorem entry (hd : Declared registry g.passes) {before after : List (Handle × Stay)}
    (hsplit : stays = before ++ y :: after) (hformer : lastIn before y.2.memory = some x.1)
    (hneeds : g.NeedsEntry x.1 y.1) {resource planned other planned' : Resource}
    {timeline : Timeline} (hx : g.Hosted input registry x resource planned timeline)
    {left : ImageState} (hleft : timeline.lastAccess = some left) {u : Use} {later : List Use}
    (hy : g.Hosted input registry y other planned' (u :: later)) :
    input.frame.inherited.get? y.1 = some left ∧
      (planned'.kind = .buffer → left.isWrite = true ∨ u.isWrite = true) := by
  constructor
  · apply hh.told before y after x.1 left hsplit hformer
    rw [hx.table]
    exact hleft
  · intro hbuffer
    obtain ⟨last, hlast, hstands⟩ := hx.tenant.planned.exists_standsFor hd hleft
    refine (hneeds other timeline _ hy.live (hy.kind ▸ hbuffer) hx.table hy.table).imp ?_ ?_
    · rintro ⟨last', hlast', hwrites⟩
      obtain rfl : last = last' := Option.some.inj (hlast.symm.trans hlast')
      exact hstands.isWrite (hx.tenant.planned.fits hd (List.mem_of_getLast? hlast)) hwrites
    · rintro ⟨first, hfirst, hwrite⟩
      obtain rfl : u = first := Option.some.inj hfirst
      exact hwrite

/-- A use of a tenant is not behind the end of this one or of a later one. -/
theorem position_le_former {z : Handle × Stay} (hz : z ∈ stays)
    (hfrom : z = x ∨ x.2.lifetime.last < z.2.lifetime.first) {resource planned : Resource}
    {timeline : Timeline} (hx : g.Hosted input registry x resource planned timeline) {i : Use}
    (hi : i ∈ timeline) : i.position ≤ z.2.lifetime.last := by
  have hle := hx.position_le hi
  have hlez := hh.first_le_last hz
  rcases hfrom with rfl | hlt
  · exact hle
  · omega

section Chain

variable (hnd : g.plan.order.Nodup) (hd : Declared registry g.passes)
  (hbarriers : input.barriers = compiledAlong g.plan.order g.passes registry)
  {w : Handle × Stay} (hx : x ∈ stays) (hw : w ∈ stays)
  (hneeds : ∀ a b, g.Follows x.2.memory a b → (a = x.1 ∨ g.Before x.1 a) →
    (b = w.1 ∨ g.Before b w.1) → g.NeedsEntry a b)
  {resource planned : Resource} {timeline : Timeline}
  (hxh : g.Hosted input registry x resource planned timeline) {i : Use} (hi : i ∈ timeline)
  (hpresent : presentsAt g.passes i.pass x.1 = false)

include hnd hd hbarriers hx hw hneeds hxh hi hpresent

/-- A chain leads from a use of a tenant to the state in which any later one leaves the memory. -/
theorem reaches {before after : List (Handle × Stay)} (hsplit : stays = before ++ after)
    (hy : y ∈ before) (hmemory : y.2.memory = x.2.memory)
    (hfrom : y = x ∨ x.2.lifetime.last < y.2.lifetime.first)
    (hto : y.2.lifetime.last < w.2.lifetime.first) {other planned' : Resource}
    {timeline' : Timeline} (hyh : g.Hosted input registry y other planned' timeline')
    {left : ImageState} (hleft : timeline'.lastAccess = some left) :
    input.Reaches (g.Occupies x.2.memory) g.plan.order i y.2.lifetime.last left := by
  -- The induction is over those that have moved in so far; the last of them is the new one.
  induction before using List.reverseRecOn generalizing after y other planned' timeline' left with
  | nil => cases hy
  | append_singleton before newest ih =>
      rw [List.append_assoc, List.singleton_append] at hsplit
      rcases List.mem_append.1 hy with hy | hy
      · exact ih hsplit hy hmemory hfrom hto hyh hleft
      obtain rfl := List.mem_singleton.1 hy
      have hmem : y ∈ stays := hsplit ▸ List.mem_append_right _ List.mem_cons_self
      have hp : g.Occupies x.2.memory y.1 := (hh.occupies _ _).2 ⟨y.2, hmem, hmemory⟩
      obtain ⟨u, later, last, rfl, hlast, hfirst, hend⟩ := hyh.exists_uses
      rw [← hend]
      rcases hfrom with rfl | hlt
      · obtain rfl : timeline = u :: later := Option.some.inj (hxh.table.symm.trans hyh.table)
        exact hyh.tenant.reaches hnd hd hbarriers hp hleft hi hpresent hlast
      · obtain ⟨z, hz, hformer, hzmemory, hzfrom, hzlt, hfollows⟩ :=
          hh.exists_former hsplit hx hmemory.symm hlt
        have hzmem : z ∈ stays := hsplit ▸ List.mem_append_left _ hz
        obtain ⟨_, _, timelineZ, hzh⟩ := hh.hosted z hzmem
        obtain ⟨leftZ, hleftZ⟩ := hzh.exists_lastAccess
        have hle := hh.first_le_last hmem
        have hreaches := ih hsplit hz (hzmemory.trans hmemory) hzfrom (by omega) hzh hleftZ
        have hentry : g.NeedsEntry z.1 y.1 := by
          refine hneeds _ _ (hmemory ▸ hfollows) ?_ (.inr ((hh.before_iff hmem hw).2 hto))
          exact hzfrom.imp (congrArg Prod.fst) (hh.before_iff hx hzmem).2
        obtain ⟨htold, hwrites⟩ := hh.entry hd hsplit hformer hentry hzh hleftZ hyh
        refine hyh.tenant.passes_on hnd hd hbarriers hreaches
          (hxh.tenant.planned.layout_ne_present hi hpresent) ?_ (hfirst ▸ hzlt) hp htold hwrites
          hleft hlast
        exact hh.position_le_former hzmem hzfrom hxh hi

/-- **A chain leads from a use of a tenant to a use of a later one.** -/
theorem exists_chain (hmemory : w.2.memory = x.2.memory)
    (hlt : x.2.lifetime.last < w.2.lifetime.first) {other planned' : Resource}
    {timeline' : Timeline} (hwh : g.Hosted input registry w other planned' timeline') {j : Use}
    (hj : j ∈ timeline') (hjpresent : presentsAt g.passes j.pass w.1 = false) :
    ∃ chain, Recorded (g.Occupies x.2.memory) (input.momentsUpTo j.position (i.position + 1)
        (g.plan.order.drop (i.position + 1))) chain ∧
      Covers i.state j.state (chain.map MemoryBarrier.transition) := by
  obtain ⟨before, after, hsplit⟩ := List.append_of_mem hw
  obtain ⟨z, hz, hformer, hzmemory, hzfrom, hzlt, hfollows⟩ :=
    hh.exists_former hsplit hx hmemory.symm hlt
  have hzmem : z ∈ stays := hsplit ▸ List.mem_append_left _ hz
  obtain ⟨_, _, timelineZ, hzh⟩ := hh.hosted z hzmem
  obtain ⟨leftZ, hleftZ⟩ := hzh.exists_lastAccess
  have hreaches := hh.reaches hnd hd hbarriers hx hw hneeds hxh hi hpresent hsplit hz
    (hzmemory.trans hmemory) hzfrom hzlt hzh hleftZ
  have hentry : g.NeedsEntry z.1 w.1 := by
    refine hneeds _ _ (hmemory ▸ hfollows) ?_ (.inl rfl)
    exact hzfrom.imp (congrArg Prod.fst) (hh.before_iff hx hzmem).2
  obtain ⟨u, later, last, rfl, -, hfirst, -⟩ := hwh.exists_uses
  obtain ⟨htold, hwrites⟩ := hh.entry hd hsplit hformer hentry hzh hleftZ hwh
  have hp : g.Occupies x.2.memory w.1 := (hh.occupies _ _).2 ⟨w.2, hw, hmemory⟩
  exact hwh.tenant.arrives hnd hd hbarriers hreaches
    (hxh.tenant.planned.layout_ne_present hi hpresent) (hh.position_le_former hzmem hzfrom hxh hi)
    (hfirst ▸ hzlt) hp htold hwrites hj hjpresent

end Chain

end Hosts

end Hosting

/-- **Who stays in the memory of a frame of a graph.** -/
theorem exists_hosts (hg : g.Reachable) {r : Resolution}
    (hok : (resolveFrame index g.upToDate.registry g.upToDate.plan.table
      (g.resolution index)).result = .ok r) :
    ∃ registry stays, Declared registry g.upToDate.passes ∧
      g.upToDate.plan.IsFor g.upToDate.passes registry ∧
      (g.afterFrame index r).Hosts (g.frame index r) registry stays := by
  obtain ⟨hsound, hcompiled⟩ := hg.isSound.upToDate
  obtain ⟨registry, hd, hsame, hplan⟩ := hsound.planned hcompiled
  obtain ⟨-, position, stays, hlodges, hsucceeds⟩ := Resolution.exists_lodges
    hsound.declared.wellFormed (settles_resolution hg.holdings index).holdings rfl
    (vacant_resolution g index) hok
  refine ⟨registry, stays, hd, hplan, fun x hx => ?_, fun memory h => ⟨?_, ?_⟩, ?_, ?_⟩
  · obtain ⟨resource, object, hget, htransient, hlifetime, hobject, -⟩ := hsucceeds.seated x hx
    obtain ⟨timeline, htable, hspan⟩ := hg.upToDate.exists_timeline hcompiled hget hlifetime
    obtain ⟨planned, hplanned, houtline⟩ := hsame.exists_live hget
    have halong := htable
    rw [hplan.table] at halong
    obtain ⟨found, hr⟩ := exists_onTimeline halong
    obtain rfl : found = planned := Option.some.inj (hr.live.symm.trans hplanned)
    have hkind := Resource.kind_of_outline houtline
    refine ⟨resource, found, timeline, hget, hlifetime, hkind, ⟨hr, ?_, object, hobject, ?_⟩, htable,
      hspan⟩
    · rw [Resource.isTransient_of_outline houtline, htransient]
    · rw [hkind]
      exact hg.kind_object hok hget hobject
  · rintro ⟨resource, object, hresolved, hmemory⟩
    obtain ⟨stay, hstay, -, hm, -⟩ :=
      hlodges.lodged h resource object hresolved.live hresolved.transient hresolved.object
    exact ⟨stay, hstay, Option.some.inj (hm.symm.trans hmemory)⟩
  · rintro ⟨stay, hstay, rfl⟩
    obtain ⟨resource, object, hget, htransient, -, hobject, hm⟩ := hsucceeds.seated _ hstay
    exact ⟨resource, object, ⟨hget, htransient, hobject⟩, hm⟩
  · refine (List.pairwise_map.1 hlodges.occupancy.apart).imp fun hxy hmemory => ?_
    exact (hxy hmemory).2
  · exact hsucceeds.told

/-- **Tenants of the same memory wait for each other.**  After a frame, between a use of a transient
resource and a use of a later one in the same memory, the recorded barriers on the tenants of the memory
contain a chain, if the first barriers of all tenants from the one to the other are needed. -/
theorem Reachable.tenants_covered (hg : g.Reachable) (hindex : index < g.settings.framesInFlight)
    {ran : List Invocation} (hrun : (g.execute index).result = .ok (ran, g')) :
    ∃ frame : FrameObjects, g.Records index frame g' ∧
      ∀ (memory h k : Handle) (timeline timeline' : Timeline),
        g'.Occupies memory h → g'.Occupies memory k → g'.Before h k →
        g'.plan.table.get? h = some timeline → g'.plan.table.get? k = some timeline' →
        (∀ a b, g'.Follows memory a b → (a = h ∨ g'.Before h a) → (b = k ∨ g'.Before b k) →
          g'.NeedsEntry a b) →
        ∀ i ∈ timeline, ∀ j ∈ timeline', presentsAt g'.passes i.pass h = false →
          presentsAt g'.passes j.pass k = false →
          ∃ chain : List MemoryBarrier,
            Recorded (g'.Occupies memory) ((g'.frameInput index frame).momentsUpTo j.position
              (i.position + 1) (g'.plan.order.drop (i.position + 1))) chain ∧
            Covers i.state j.state (chain.map MemoryBarrier.transition) := by
  obtain ⟨r, hok, -, rfl⟩ := (execute_eq_ok_iff hindex).1 hrun
  refine ⟨r.frame, records_afterFrame hg hok, ?_⟩
  intro memory h k timeline timeline' hh hk hbefore htable htable' hneeds i hi j hj hip hjp
  obtain ⟨registry, stays, hd, hplan, hhosts⟩ := exists_hosts hg hok
  obtain ⟨stay, hstay, rfl⟩ := (hhosts.occupies _ _).1 hh
  obtain ⟨stay', hstay', hmemory⟩ := (hhosts.occupies _ _).1 hk
  obtain ⟨_, _, found, hhosted⟩ := hhosts.hosted _ hstay
  obtain ⟨_, _, found', hhosted'⟩ := hhosts.hosted _ hstay'
  obtain rfl : found = timeline := Option.some.inj (hhosted.table.symm.trans htable)
  obtain rfl : found' = timeline' := Option.some.inj (hhosted'.table.symm.trans htable')
  have hlt := (hhosts.before_iff hstay hstay').1 hbefore
  exact hhosts.exists_chain hplan.nodup hd hplan.barriers hstay hstay' hneeds hhosted hi hip hmemory
    hlt hhosted' hj hjp

/-- The first buffer of the relay as it is used. -/
def relayFirst : Timeline :=
  [⟨0, 0, .shaderWrite, false, true,
      ⟨Stage.computeShader, Access.none ||| Access.storageWrite, .undefined⟩⟩,
    ⟨1, 1, .shaderRead, true, false, ⟨Stage.computeShader, Access.storageRead, .undefined⟩⟩]

/-- The third buffer of the relay as it is used. -/
def relayThird : Timeline :=
  [⟨2, 2, .shaderWrite, false, true,
      ⟨Stage.computeShader, Access.none ||| Access.storageWrite, .undefined⟩⟩,
    ⟨3, 3, .shaderRead, true, false, ⟨Stage.computeShader, Access.storageRead, .undefined⟩⟩]

theorem exists_relayFrame :
    ∃ (g g' : Graph) (ran : List Invocation), g.Reachable ∧ 0 < g.settings.framesInFlight ∧
      (g.execute 0).result = .ok (ran, g') ∧
      (g'.registry.get? (.slot 1 0) =
          some ⟨"a", .buffer { size := 64 }, .internal false, false, some ⟨0, 1⟩⟩ ∧
        g'.registry.get? (.slot 3 0) =
          some ⟨"c", .buffer { size := 64 }, .internal false, false, some ⟨2, 3⟩⟩ ∧
        g'.objects.get? (.slot 1 0) = some (.buffer 1) ∧
        g'.objects.get? (.slot 3 0) = some (.buffer 3) ∧
        g'.device.memoryOf? (.buffer 1) = some (.slot 0 0) ∧
        g'.device.memoryOf? (.buffer 3) = some (.slot 0 0) ∧
        g'.plan.table.get? (.slot 1 0) = some relayFirst ∧
        g'.plan.table.get? (.slot 3 0) = some relayThird ∧
        (g'.plan.table.entries.map (·.1)).Nodup ∧
        (∀ e ∈ g'.plan.table.entries, ∃ u ∈ e.2.head?, u.isWrite = true) ∧
        (∀ u ∈ relayFirst, presentsAt g'.passes u.pass (.slot 1 0) = false) ∧
        ∀ u ∈ relayThird, presentsAt g'.passes u.pass (.slot 3 0) = false) :=
  exists_of_decideFrame (show checkFrame relay 0 _ = true by cbv)

/-- Between the reader of the first buffer and the writer of the third one there is a chain. -/
theorem tenants_covered_relay :
    ∃ (g g' : Graph) (ran : List Invocation) (frame : FrameObjects) (chain : List MemoryBarrier)
      (i j : Use), (g.execute 0).result = .ok (ran, g') ∧ relayFirst[1]? = some i ∧
      relayThird[0]? = some j ∧
      Recorded (g'.Occupies (.slot 0 0)) ((g'.frameInput 0 frame).momentsUpTo j.position
        (i.position + 1) (g'.plan.order.drop (i.position + 1))) chain ∧
      Covers i.state j.state (chain.map MemoryBarrier.transition) := by
  obtain ⟨g, g', ran, hg, hindex, hrun, hfirst, hthird, hobject, hobject', hmemory, hmemory', htable,
    htable', hnd, hwrites, hpresent, hpresent'⟩ := exists_relayFrame
  have hneeds : ∀ a b, g'.NeedsEntry a b := by
    -- Every buffer of the relay is written first.
    intro a b resource timeline timeline' _ _ _ htimeline
    exact .inr (hwrites _ ((HandleMap.get?_eq_some_iff hnd).1 htimeline))
  obtain ⟨frame, -, hcovered⟩ := hg.tenants_covered hindex hrun
  obtain ⟨chain, hchain, hcovers⟩ := hcovered (.slot 0 0) (.slot 1 0) (.slot 3 0) _ _
    ⟨_, _, ⟨hfirst, rfl, hobject⟩, hmemory⟩ ⟨_, _, ⟨hthird, rfl, hobject'⟩, hmemory'⟩
    ⟨_, _, _, _, hfirst, hthird, rfl, rfl, by decide⟩ htable htable'
    (fun a b _ _ _ => hneeds a b) relayFirst[1] (List.getElem_mem _) relayThird[0]
    (List.getElem_mem _) (hpresent _ (List.getElem_mem _)) (hpresent' _ (List.getElem_mem _))
  exact ⟨g, g', ran, frame, chain, _, _, hrun, rfl, rfl, hchain, hcovers⟩

/-- Arguments for drawing are written and read; then a buffer comes into their memory that is read before
it is written. -/
def recycling : List Action :=
  [.register (.importBuffer "out" 7 {} .undefined .undefined),
    .register (.markOutput "out"),
    .addPass ⟨"fill", .compute,
      [.createBuffer "arguments" { size := 64 } false, .write "arguments" .shaderWrite], none⟩,
    .addPass ⟨"draw", .compute, [.read "arguments" .indirectBuffer, .write "out" .shaderWrite], none⟩,
    .addPass ⟨"peek", .compute,
      [.createBuffer "scratch" { size := 64 } false, .read "scratch" .shaderRead,
        .write "out" .shaderWrite], none⟩,
    .addPass ⟨"trace", .compute, [.write "scratch" .shaderWrite, .write "out" .shaderWrite], none⟩]

/-- The arguments as they are used. -/
def argumentsTimeline : Timeline :=
  [⟨0, 0, .shaderWrite, false, true,
      ⟨Stage.computeShader, Access.none ||| Access.storageWrite, .undefined⟩⟩,
    ⟨1, 1, .indirectBuffer, true, false, ⟨Stage.drawIndirect, Access.indirectCommandRead, .undefined⟩⟩]

/-- The buffer in their memory as it is used. -/
def scratchTimeline : Timeline :=
  [⟨2, 2, .shaderRead, true, false, ⟨Stage.computeShader, Access.storageRead, .undefined⟩⟩,
    ⟨3, 3, .shaderWrite, false, true,
      ⟨Stage.computeShader, Access.none ||| Access.storageWrite, .undefined⟩⟩]

theorem exists_recyclingFrame :
    ∃ (g g' : Graph) (ran : List Invocation), g.Reachable ∧ 0 < g.settings.framesInFlight ∧
      (g.execute 0).result = .ok (ran, g') ∧
      (g'.registry.get? (.slot 1 0) =
          some ⟨"arguments", .buffer { size := 64 }, .internal false, false, some ⟨0, 1⟩⟩ ∧
        g'.registry.get? (.slot 2 0) =
          some ⟨"scratch", .buffer { size := 64 }, .internal false, false, some ⟨2, 3⟩⟩ ∧
        g'.objects.get? (.slot 1 0) = some (.buffer 1) ∧
        g'.objects.get? (.slot 2 0) = some (.buffer 2) ∧
        g'.device.memoryOf? (.buffer 1) = some (.slot 0 0) ∧
        g'.device.memoryOf? (.buffer 2) = some (.slot 0 0) ∧
        g'.plan.table.get? (.slot 1 0) = some argumentsTimeline ∧
        g'.plan.table.get? (.slot 2 0) = some scratchTimeline ∧
        (∀ u ∈ argumentsTimeline, presentsAt g'.passes u.pass (.slot 1 0) = false) ∧
        (∀ u ∈ scratchTimeline, presentsAt g'.passes u.pass (.slot 2 0) = false) ∧
        ∀ b ∈ g'.device.memoryBarriers,
          b.transition.source.stage.contains Stage.drawIndirect = false) :=
  exists_of_decideFrame (show checkFrame recycling 0 _ = true by cbv)

/-- A read of the former tenant is not waited for if the next one is only read at first. -/
theorem not_covered_in_shared_memory :
    ¬ ∀ (g g' : Graph) (index : Nat) (ran : List Invocation), g.Reachable →
      index < g.settings.framesInFlight → (g.execute index).result = .ok (ran, g') →
      ∃ frame : FrameObjects, g.Records index frame g' ∧
        ∀ (memory h k : Handle) (timeline timeline' : Timeline),
          g'.Occupies memory h → g'.Occupies memory k → g'.Before h k →
          g'.plan.table.get? h = some timeline → g'.plan.table.get? k = some timeline' →
          ∀ i ∈ timeline, ∀ j ∈ timeline', i.isWrite = true ∨ j.isWrite = true →
            presentsAt g'.passes i.pass h = false → presentsAt g'.passes j.pass k = false →
            ∃ chain : List MemoryBarrier,
              Recorded (g'.Occupies memory) ((g'.frameInput index frame).momentsUpTo j.position
                (i.position + 1) (g'.plan.order.drop (i.position + 1))) chain ∧
              (∃ b ∈ chain.head?, b.transition.source.stage.contains i.state.stage = true) ∧
              chain.IsChain (fun b c =>
                b.transition.target.stage.intersects c.transition.source.stage = true) ∧
              ∃ b ∈ chain.getLast?, b.transition.target.stage.contains j.state.stage = true := by
  intro hall
  obtain ⟨g, g', ran, hg, hindex, hrun, hfirst, hsecond, hobject, hobject', hmemory, hmemory', htable,
    htable', hpresent, hpresent', hnone⟩ := exists_recyclingFrame
  obtain ⟨frame, hrecords, hcovered⟩ := hall g g' 0 ran hg hindex hrun
  obtain ⟨chain, hchain, ⟨b, hb, hstage⟩, -, -⟩ := hcovered (.slot 0 0) (.slot 1 0) (.slot 2 0) _ _
    ⟨_, _, ⟨hfirst, rfl, hobject⟩, hmemory⟩ ⟨_, _, ⟨hsecond, rfl, hobject'⟩, hmemory'⟩
    ⟨_, _, _, _, hfirst, hsecond, rfl, rfl, by decide⟩ htable htable' argumentsTimeline[1]
    (List.getElem_mem _) scratchTimeline[1] (List.getElem_mem _) (.inr rfl)
    (hpresent _ (List.getElem_mem _)) (hpresent' _ (List.getElem_mem _))
  have hmem := hrecords.mem_memoryBarriers (FrameInput.momentsUpTo_infix ..) hchain
    (List.mem_of_mem_head? hb)
  exact Bool.false_ne_true ((hnone b hmem).symm.trans hstage)

end Graph

end FrameGraph
