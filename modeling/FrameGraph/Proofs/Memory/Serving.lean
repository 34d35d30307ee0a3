import FrameGraph.Proofs.Memory.Tenancy

/-!
# The transient resources of a frame

The transient resources of a frame are served in the order of their first uses, so a block that is
free at a request was left before the resource that gets it is used.  This carries over from one
request to the next, whether requests are served or refused: two of the resources that are there lie in
the same memory only if memory is shared and one of them ends before the other begins.  Those in one
memory follow each other, and each is told in which state the one right before it leaves the memory.

Principal statements: `Pool.Occupancy.serve`, `Resolution.Lodges.apart`, and
`Resolution.exists_lodges`.
-/

set_option autoImplicit false

namespace FrameGraph

/-- One of the lifetimes ends before the other begins. -/
def Lifetime.Disjoint (a b : Lifetime) : Prop := a.last < b.first ∨ b.last < a.first

/-! ## One request -/

namespace Pool

variable {d d' : Device} {p p' : Pool} {b : Backings} {request : TransientRequest}

namespace Occupancy

variable {frame position : Nat} {stays : List Stay}

/-- What is known about a pool does not depend on its live resources. -/
theorem withLive (h : p.Occupancy frame position stays) (live : List LiveObject) :
    Occupancy { p with live } frame position stays where
  vacant := h.vacant
  taken := h.taken
  known := h.known
  apart := h.apart

/-- There is a block for a request: one that was left, or one that nobody was in. -/
theorem prepare (h : p.Occupancy request.frame request.lifetime.first stays)
    (hheld : Holdings d p b) (hprepared : p.Prepared d request p' d') :
    p'.Occupancy request.frame request.lifetime.first stays := by
  cases hprepared with
  | reused => exact h.vacate
  | added hallocate =>
      obtain ⟨-, -, hmemory⟩ := hheld.device.allocate hallocate
      obtain ⟨hfresh, -⟩ := hmemory _ rfl
      have hretired := hheld.retire request.frame request.lifetime.first
      refine h.vacate.addBlock (fun block hblock heq => ?_) _ _ _
      have hallocated :=
        hretired.allocated _ (List.mem_append_left _ (List.mem_map_of_mem hblock))
      rw [heq, hfresh] at hallocated
      cases hallocated

/-- **A request is refused, and nobody moves, or the resource moves into memory that everybody has
left who was there before.** -/
theorem serve (h : p.Occupancy request.frame position stays) (hheld : Holdings d p b)
    (hle : position ≤ request.lifetime.first) {created : Option Placement}
    (hok : (p.create d request).result = .ok (created, p', d')) :
    p'.shareMemory = p.shareMemory ∧
      ((created = none ∧ p'.live = p.live ∧
          p'.Occupancy request.frame request.lifetime.first stays) ∨
        ∃ placement memory, created = some placement ∧
          d'.memoryOf? placement.object = some memory ∧
          p'.live = p.live ++ [⟨placement.object, request.frame⟩] ∧
          p'.Occupancy request.frame request.lifetime.first
            (stays ++ [⟨request.lifetime, memory⟩])) := by
  have hlater := h.later hle
  obtain ⟨rfl, rfl, -⟩ |
    ⟨base, middle, index, block, hprepared, hget, hfree, hframe, rfl, hresult⟩ := create_cases hok
  · exact ⟨shareMemory_retire .., .inl ⟨rfl, live_retire .., hlater.vacate⟩⟩
  · have hbase := hlater.prepare hheld hprepared
    have hheldBase := (hheld.prepare hprepared).1
    have hnd := (List.nodup_append.1 hheldBase.memories).1
    obtain ⟨rfl, -, rfl⟩ | ⟨object, hcreated, rfl, rfl⟩ := hresult
    · exact ⟨hprepared.shareMemory,
        .inl ⟨rfl, hprepared.live, hbase.update hget hfree fun _ => rfl⟩⟩
    · refine ⟨hprepared.shareMemory, .inr ⟨⟨object, block.tenant⟩, block.memory, rfl, ?_, ?_, ?_⟩⟩
      · exact ((hheldBase.device.create _ _ _).2.2 object hcreated).1
      · show base.live ++ _ = _
        rw [hprepared.live]
      · have hplaced := hbase.place hget hfree hframe hnd (f := fun b =>
          { b with reserved := true, lifetime := request.lifetime, tenant := some request.handle })
          (fun _ => rfl) rfl ⟨rfl, rfl⟩
        exact hplaced.withLive _

end Occupancy

end Pool

/-! ## The order of the requests -/

/-- Requests come in the order of their first uses. -/
theorem pairwise_transientsInOrder (registry : Registry) :
    (transientsInOrder registry).Pairwise fun a b => a.2.2.first ≤ b.2.2.first := by
  unfold transientsInOrder
  refine (List.pairwise_mergeSort ?_ ?_ _).imp ?_
  · intro a b c hab hbc
    simp only [Lifetime.servedBefore, Bool.or_eq_true, Bool.and_eq_true, decide_eq_true_eq]
      at hab hbc ⊢
    omega
  · intro a b
    simp only [Lifetime.servedBefore, Bool.or_eq_true, Bool.and_eq_true, decide_eq_true_eq]
    omega
  · intro a b hab
    simp only [Lifetime.servedBefore, Bool.or_eq_true, Bool.and_eq_true, decide_eq_true_eq] at hab
    omega

/-- Each resource is requested once. -/
theorem distinct_transientsInOrder (registry : Registry) :
    (transientsInOrder registry).Pairwise fun a b => a.1 ≠ b.1 := by
  unfold transientsInOrder
  refine (List.mergeSort_perm _ _).pairwise_iff (fun hne => Ne.symm hne) |>.2 ?_
  have hhandles := SlotTable.nodup_handles registry.table
  rw [List.Nodup, List.pairwise_map] at hhandles
  refine List.pairwise_filterMap.2 (hhandles.imp fun {a b} hne x hx y hy => ?_)
  have hkey : ∀ e : Handle × Resource, ∀ z : Handle × Resource × Lifetime,
      (if e.2.isTransient then e.2.lifetime.map fun lifetime => (e.1, e.2, lifetime) else none) =
        some z → z.1 = e.1 := by
    intro e z hz
    split at hz
    · obtain ⟨lifetime, -, rfl⟩ := Option.map_eq_some_iff.1 hz
      rfl
    · cases hz
  rw [hkey a x hx, hkey b y hy]
  exact hne

/-! ## Before the first request -/

namespace Resolution

variable {r r' : Resolution}

theorem pool_addKept {entry : Handle × Resource} (hok : (r.addKept entry).result = .ok r') :
    r'.pool = r.pool := by
  obtain ⟨h, resource⟩ := entry
  unfold addKept at hok
  dsimp only at hok
  split at hok
  · cases hok
    rfl
  · split at hok
    · obtain ⟨backing, -, -, rfl⟩ | ⟨-, base, hbase, hnew⟩ := addPersistent_cases hok
      · rfl
      · rw [(addNew_cases hnew).1]
        obtain rfl | ⟨old, -, rfl⟩ := hbase <;> rfl
    · cases hok
      rfl
  · cases hok
    rfl

/-- Imported and persistent resources do not come from the pool. -/
theorem pool_keepAll {entries : List (Handle × Resource)}
    (hok : (entries.foldlM addKept r).result = .ok r') : r'.pool = r.pool := by
  refine Outcome.foldlM_induction (I := fun _ (x : Resolution) => x.pool = r.pool) ?_ rfl hok
  intro entry rest x x' hx hstep
  exact (pool_addKept hstep).trans hx

/-- A transient resource gets no object before it is requested. -/
theorem objects_keepAll_of_transient {registry : Registry} (hr : registry.WellFormed) {h : Handle}
    {resource : Resource} (hget : registry.get? h = some resource)
    (htransient : resource.isTransient = true)
    (hok : (registry.toList.foldlM addKept r).result = .ok r') :
    r'.frame.objects.get? h = r.frame.objects.get? h := by
  obtain ⟨before, after, hlist, hother⟩ := hr.exists_split hget
  rw [hlist, List.foldlM_append] at hok
  obtain ⟨x, hx, hok⟩ := Outcome.result_bind_eq_ok_iff.1 hok
  rw [List.foldlM_cons] at hok
  obtain ⟨y, hy, hok⟩ := Outcome.result_bind_eq_ok_iff.1 hok
  have hsx := sameFor_keepAll (fun e he => hother e (List.mem_append_left _ he)) hx
  have hsy := sameFor_keepAll (fun e he => hother e (List.mem_append_right _ he)) hok
  obtain rfl : x = y := by
    have hsource : resource.source = .internal false := of_decide_eq_true htransient
    unfold addKept at hy
    simp only [hsource] at hy
    cases hy
    rfl
  rw [hsy.objects, hsx.objects]

/-! ## All requests of a frame -/

/-- Where the transient resources of a frame are: each that has an object is one of those that have
moved in, for its lifetime. -/
structure Lodges (index : Nat) (registry : Registry) (r : Resolution) (position : Nat)
    (stays : List (Handle × Stay)) : Prop where
  occupancy : r.pool.Occupancy index position (stays.map (·.2))
  lodged : ∀ h resource object, registry.get? h = some resource → resource.isTransient = true →
    r.frame.objects.get? h = some object →
      ∃ stay, (h, stay) ∈ stays ∧ resource.lifetime = some stay.lifetime ∧
        r.device.memoryOf? object = some stay.memory ∧ ⟨object, index⟩ ∈ r.pool.live

/-- How those that have moved in follow each other: each is there, and was told in which state the one
right before it leaves the memory. -/
structure Succeeds (index : Nat) (registry : Registry) (table : UsageTable) (r : Resolution)
    (stays : List (Handle × Stay)) : Prop where
  tenancy : r.pool.Tenancy index stays
  seated : ∀ x ∈ stays, ∃ resource object, registry.get? x.1 = some resource ∧
    resource.isTransient = true ∧ resource.lifetime = some x.2.lifetime ∧
      r.frame.objects.get? x.1 = some object ∧ r.device.memoryOf? object = some x.2.memory
  told : ∀ before x after former left, stays = before ++ x :: after →
    lastIn before x.2.memory = some former →
      (table.get? former).bind Timeline.lastAccess = some left →
        r.frame.inherited.get? x.1 = some left

section Request

variable {index position : Nat} {registry : Registry} {stays : List (Handle × Stay)}
  {h : Handle} {resource : Resource} {lifetime : Lifetime} {table : UsageTable}
  {placement : Placement} {memory : Handle}

namespace Lodges

/-- A request is refused, and nobody moves. -/
theorem refused (hl : Lodges index registry r position stays) (hgrows : r.device.Grows r'.device)
    (hobjects : r'.frame.objects = r.frame.objects) (hlive : r'.pool.live = r.pool.live)
    {position' : Nat} (hoccupancy : r'.pool.Occupancy index position' (stays.map (·.2))) :
    Lodges index registry r' position' stays := by
  refine ⟨hoccupancy, fun k other object hk htransient hobject => ?_⟩
  rw [hobjects] at hobject
  obtain ⟨stay, hstay, hl', hm, hmem⟩ := hl.lodged k other object hk htransient hobject
  exact ⟨stay, hstay, hl', hgrows.memoryOf _ _ hm, hlive ▸ hmem⟩

/-- A request is served, and the resource moves in. -/
theorem placed (hl : Lodges index registry r position stays) (hgrows : r.device.Grows r'.device)
    (hget : registry.get? h = some resource) (hlifetime : resource.lifetime = some lifetime)
    (hobjects : r'.frame.objects = r.frame.objects.insert h placement.object)
    (hlive : r'.pool.live = r.pool.live ++ [⟨placement.object, index⟩])
    (hmemory : r'.device.memoryOf? placement.object = some memory) {position' : Nat}
    (hoccupancy : r'.pool.Occupancy index position' (stays.map (·.2) ++ [⟨lifetime, memory⟩])) :
    Lodges index registry r' position' (stays ++ [(h, ⟨lifetime, memory⟩)]) := by
  refine ⟨?_, fun k other object hk htransient hobject => ?_⟩
  · rw [List.map_append]
    exact hoccupancy
  · rw [hobjects] at hobject
    by_cases hkh : h = k
    · subst hkh
      obtain rfl : resource = other := Option.some.inj (hget.symm.trans hk)
      have hself : (r.frame.objects.insert h placement.object).get? h = some placement.object :=
        HandleMap.get?_insert_self ..
      obtain rfl : placement.object = object := Option.some.inj (hself.symm.trans hobject)
      refine ⟨⟨lifetime, memory⟩, List.mem_append_right _ List.mem_cons_self, hlifetime, hmemory, ?_⟩
      rw [hlive]
      exact List.mem_append_right _ List.mem_cons_self
    · have hold : r.frame.objects.get? k = some object :=
        (HandleMap.get?_insert_of_ne _ _ hkh).symm.trans hobject
      obtain ⟨stay, hstay, hl', hm, hmem⟩ := hl.lodged k other object hk htransient hold
      refine ⟨stay, List.mem_append_left _ hstay, hl', hgrows.memoryOf _ _ hm, ?_⟩
      rw [hlive]
      exact List.mem_append_left _ hmem

/-- Two different resources that are there lie in the same memory only if memory is shared and their
lifetimes are disjoint. -/
theorem apart (hl : Lodges index registry r position stays) {k : Handle} (hne : h ≠ k)
    {stay stay' : Stay} (hstay : (h, stay) ∈ stays) (hstay' : (k, stay') ∈ stays)
    (hmemory : stay.memory = stay'.memory) :
    r.pool.shareMemory = true ∧ stay.lifetime.Disjoint stay'.lifetime := by
  have hapart := List.pairwise_map.1 hl.occupancy.apart
  obtain ⟨before, after, rfl⟩ := List.append_of_mem hstay
  obtain ⟨-, htail, hcross⟩ := List.pairwise_append.1 hapart
  rcases List.mem_append.1 hstay' with hmem | hmem
  · obtain ⟨hshare, hlt⟩ := hcross _ hmem _ List.mem_cons_self hmemory.symm
    exact ⟨hshare, .inr hlt⟩
  · rcases List.mem_cons.1 hmem with heq | hmem
    · exact absurd (congrArg Prod.fst heq).symm hne
    · obtain ⟨hshare, hlt⟩ := (List.pairwise_cons.1 htail).1 _ hmem hmemory
      exact ⟨hshare, .inl hlt⟩

end Lodges

namespace Succeeds

/-- A request is refused, and nobody is told anything. -/
theorem refused (hs : Succeeds index registry table r stays) (hgrows : r.device.Grows r'.device)
    (hobjects : r'.frame.objects = r.frame.objects)
    (hinherited : r'.frame.inherited = r.frame.inherited) (htenancy : r'.pool.Tenancy index stays) :
    Succeeds index registry table r' stays := by
  refine ⟨htenancy, fun x hx => ?_, fun before x after former left hsplit hformer hleft => ?_⟩
  · obtain ⟨resource, object, hget, htransient, hlifetime, hobject, hmemory⟩ := hs.seated x hx
    refine ⟨resource, object, hget, htransient, hlifetime, ?_, hgrows.memoryOf _ _ hmemory⟩
    rw [hobjects]
    exact hobject
  · rw [hinherited]
    exact hs.told before x after former left hsplit hformer hleft

/-- A request is served, and the resource is told who was there before. -/
theorem placed (hs : Succeeds index registry table r stays) (hgrows : r.device.Grows r'.device)
    (hget : registry.get? h = some resource) (htransient : resource.isTransient = true)
    (hlifetime : resource.lifetime = some lifetime) (hnew : ∀ x ∈ stays, h ≠ x.1)
    (hobjects : r'.frame.objects = r.frame.objects.insert h placement.object)
    (hinherited : r'.frame.inherited =
      match inheritance table placement with
      | none => r.frame.inherited
      | some state => r.frame.inherited.insert h state)
    (hmemory : r'.device.memoryOf? placement.object = some memory)
    (hprevious : placement.previous = lastIn stays memory)
    (htenancy : r'.pool.Tenancy index (stays ++ [(h, ⟨lifetime, memory⟩)])) :
    Succeeds index registry table r' (stays ++ [(h, ⟨lifetime, memory⟩)]) := by
  refine ⟨htenancy, fun x hx => ?_, fun before x after former left hsplit hformer hleft => ?_⟩
  · rcases List.mem_append.1 hx with hx | hx
    · obtain ⟨other, object, hother, htransient', hlifetime', hobject, hm⟩ := hs.seated x hx
      refine ⟨other, object, hother, htransient', hlifetime', ?_, hgrows.memoryOf _ _ hm⟩
      rw [hobjects, HandleMap.get?_insert_of_ne _ _ (hnew x hx)]
      exact hobject
    · rw [List.mem_singleton.1 hx]
      refine ⟨resource, placement.object, hget, htransient, hlifetime, ?_, hmemory⟩
      rw [hobjects]
      exact HandleMap.get?_insert_self ..
  · rw [hinherited]
    rcases List.eq_nil_or_concat after with rfl | ⟨after, last, rfl⟩
    · -- It is the one that has just moved in.
      obtain ⟨rfl, hlast⟩ := List.append_inj' hsplit rfl
      cases hlast
      rw [inheritance, hprevious, hformer, Option.bind_some, hleft]
      exact HandleMap.get?_insert_self ..
    · have hassoc : stays ++ [(h, ⟨lifetime, memory⟩)] = (before ++ x :: after) ++ [last] := by
        rw [hsplit, List.concat_eq_append, List.append_assoc, List.cons_append]
      obtain ⟨hstays, -⟩ := List.append_inj' hassoc rfl
      have hx : x ∈ stays := hstays ▸ List.mem_append_right _ List.mem_cons_self
      have hold := hs.told before x after former left hstays hformer hleft
      split
      · exact hold
      · rw [HandleMap.get?_insert_of_ne _ _ (hnew x hx)]
        exact hold

end Succeeds

end Request

/-- While there are requests left, the next of them is not before those that were served, and each
resource is requested once. -/
structure Serving (index : Nat) (registry : Registry) (table : UsageTable) (share : Bool)
    (rest : List (Handle × Resource × Lifetime)) (r : Resolution) : Prop where
  holdings : Holdings r.device r.pool r.backings
  entries : ∀ e ∈ rest, registry.get? e.1 = some e.2.1 ∧ e.2.1.isTransient = true ∧
    e.2.1.lifetime = some e.2.2
  sorted : rest.Pairwise fun a b => a.2.2.first ≤ b.2.2.first
  distinct : rest.Pairwise fun a b => a.1 ≠ b.1
  shareMemory : r.pool.shareMemory = share
  lodges : ∃ position stays, Lodges index registry r position stays ∧
    Succeeds index registry table r stays ∧
      ∀ e ∈ rest, position ≤ e.2.2.first ∧ ∀ x ∈ stays, e.1 ≠ x.1

namespace Serving

variable {index : Nat} {registry : Registry} {share : Bool} {table : UsageTable}
  {rest : List (Handle × Resource × Lifetime)}

/-- **One request of a frame.** -/
theorem step {e : Handle × Resource × Lifetime}
    (hs : Serving index registry table share (e :: rest) r)
    (hok : (addTransient index table r e).result = .ok r') :
    Serving index registry table share rest r' := by
  obtain ⟨h, resource, lifetime⟩ := e
  obtain ⟨hget, htransient, hlifetime⟩ := hs.entries _ List.mem_cons_self
  obtain ⟨hfirst, hsorted⟩ := List.pairwise_cons.1 hs.sorted
  obtain ⟨hother, hdistinct⟩ := List.pairwise_cons.1 hs.distinct
  obtain ⟨position, stays, hlodges, hsucceeds, hahead⟩ := hs.lodges
  obtain ⟨hle, hnew⟩ := hahead _ List.mem_cons_self
  obtain ⟨created, hcreate, -, hobjects, hinherited⟩ := addTransient_cases hok
  have hgrows := (hs.holdings.create hcreate).2
  have hknown : ∀ x ∈ stays, ∃ block ∈ r.pool.blocks, block.memory = x.2.memory := by
    intro x hx
    obtain ⟨block, hblock, hplace⟩ := hlodges.occupancy.known x.2 (List.mem_map_of_mem hx)
    exact ⟨block, hblock, congrArg Prod.fst hplace⟩
  have htenancy := hsucceeds.tenancy.serve hs.holdings hknown hcreate
  obtain ⟨hshare, hcases⟩ := hlodges.occupancy.serve hs.holdings hle hcreate
  refine ⟨(settles_addTransient index hs.holdings hok).holdings,
    fun e he => hs.entries e (List.mem_cons_of_mem _ he), hsorted, hdistinct,
    hshare.trans hs.shareMemory, ?_⟩
  obtain ⟨rfl, hlive, hoccupancy⟩ | ⟨placement, memory, rfl, hmemory, hlive, hoccupancy⟩ := hcases
  · refine ⟨lifetime.first, stays, hlodges.refused hgrows hobjects hlive hoccupancy,
      hsucceeds.refused hgrows hobjects hinherited htenancy, fun e he => ⟨hfirst e he, ?_⟩⟩
    exact (hahead e (List.mem_cons_of_mem _ he)).2
  · obtain ⟨hprevious, htenancy⟩ := htenancy memory hmemory
    refine ⟨lifetime.first, stays ++ [(h, ⟨lifetime, memory⟩)],
      hlodges.placed hgrows hget hlifetime hobjects hlive hmemory hoccupancy,
      hsucceeds.placed hgrows hget htransient hlifetime hnew hobjects hinherited hmemory hprevious
        htenancy, fun e he => ⟨hfirst e he, fun x hx => ?_⟩⟩
    rcases List.mem_append.1 hx with hx | hx
    · exact (hahead e (List.mem_cons_of_mem _ he)).2 x hx
    · rw [List.mem_singleton.1 hx]
      exact (hother e he).symm

theorem run (hs : Serving index registry table share rest r)
    (hok : (rest.foldlM (addTransient index table) r).result = .ok r') :
    Serving index registry table share [] r' :=
  Outcome.foldlM_induction (I := fun rest x => Serving index registry table share rest x)
    (fun _ _ _ _ hx hstep => hx.step hstep) hs hok

end Serving

/-- **The transient resources of a resolved frame.** -/
theorem exists_lodges {index : Nat} {registry : Registry} (hw : registry.WellFormed)
    {table : UsageTable} (hr : Holdings r.device r.pool r.backings) (hframe : r.frame = {})
    (hvacant : r.pool.Tenancy index [])
    (hok : (resolveFrame index registry table r).result = .ok r') :
    r'.pool.shareMemory = r.pool.shareMemory ∧
      ∃ position stays, Lodges index registry r' position stays ∧
        Succeeds index registry table r' stays := by
  obtain ⟨kept, hkept, htransients⟩ := Outcome.result_bind_eq_ok_iff.1 hok
  have hpool := pool_keepAll hkept
  have hstart : Lodges index registry kept 0 [] := by
    refine ⟨.start kept.pool index 0, fun h resource object hget htransient hobject => ?_⟩
    rw [objects_keepAll_of_transient hw hget htransient hkept, hframe] at hobject
    cases hobject
  have hnobody : Succeeds index registry table kept [] := by
    refine ⟨by rw [hpool]; exact hvacant, fun x hx => (by cases hx), ?_⟩
    intro before x after former left hsplit
    simp at hsplit
  have hserving : Serving index registry table r.pool.shareMemory (transientsInOrder registry)
      kept := {
    holdings := (settles_keepAll index hr hkept).holdings
    entries := fun e he => mem_transientsInOrder.1 he
    sorted := pairwise_transientsInOrder registry
    distinct := distinct_transientsInOrder registry
    shareMemory := by rw [hpool]
    lodges := ⟨0, [], hstart, hnobody, fun e _ => ⟨Nat.zero_le e.2.2.first, fun x hx => by cases hx⟩⟩ }
  have hserved := hserving.run htransients
  obtain ⟨position, stays, hlodges, hsucceeds, -⟩ := hserved.lodges
  exact ⟨hserved.shareMemory, position, stays, hlodges, hsucceeds⟩

end Resolution

end FrameGraph
