import FrameGraph.Proofs.Memory.Reachable

/-!
# Images for images, buffers for buffers

Every object is of the kind of the resource that it is behind.  An imported object was checked when it
was registered; the others were created for a resource of the kind, in this frame or in an earlier one.

Principal statement: `Graph.Reachable.kind_object`.
-/

set_option autoImplicit false

namespace FrameGraph

theorem Device.kind_create {d : Device} {memory : Handle} {kind : ResourceKind} {name : String}
    {object : DeviceObject} (hok : (d.create memory kind name).1 = .ok object) :
    object.kind = kind := by
  rw [create_eq] at hok
  obtain ⟨error, hrefused⟩ | hmade := d.tryCreate_cases memory kind name
  · rw [hrefused] at hok
    cases hok
  · rw [hmade] at hok
    cases kind with
    | image => cases hok; rfl
    | buffer => cases hok; rfl

theorem Pool.kind_create {p p' : Pool} {d d' : Device} {request : TransientRequest}
    {placement : Placement}
    (hok : (p.create d request).result = .ok (some placement, p', d')) :
    placement.object.kind = request.info.kind := by
  obtain ⟨hnone, -⟩ | ⟨base, middle, index, block, -, -, -, -, -, hresult⟩ := create_cases hok
  · cases hnone
  · obtain ⟨hnone, -⟩ | ⟨object, hcreated, hsome, -⟩ := hresult
    · cases hnone
    · cases hsome
      exact Device.kind_create hcreated

/-- A backing is created for a description, with an object of its kind. -/
def Backing.IsKinded (b : Backing) : Prop := b.object.kind = b.info.kind

theorem isKinded_makeBacking {d d' : Device} {resource : Resource} {backing : Backing}
    (hok : makeBacking d resource = .ok (.ok backing, d')) : backing.IsKinded := by
  obtain ⟨-, -, ⟨error, -, hcreated⟩ | ⟨memory, middle, -, ⟨error, -, hcreated, -⟩ |
    ⟨object, hobject, hcreated, -⟩⟩⟩ := makeBacking_cases hok
  · cases hcreated
  · cases hcreated
  · cases hcreated
    exact Device.kind_create hobject

namespace Resolution

/-- The objects of a frame are of the kinds of their resources, and so are those that are kept. -/
structure Kinded (registry : Registry) (r : Resolution) : Prop where
  backings : ∀ e ∈ r.backings.entries, e.2.IsKinded
  objects : ∀ h resource object, registry.get? h = some resource →
    r.frame.objects.get? h = some object → object.kind = resource.kind

namespace Kinded

variable {registry : Registry} {r r' : Resolution} {h : Handle} {resource : Resource}

theorem addObject (hr : Kinded registry r) (hget : registry.get? h = some resource)
    {object : DeviceObject} (hkind : object.kind = resource.kind) :
    Kinded registry (r.addObject h object) := by
  refine ⟨hr.backings, fun k other found hk hfound => ?_⟩
  by_cases heq : h = k
  · subst heq
    obtain rfl : resource = other := Option.some.inj (hget.symm.trans hk)
    have hself : (r.frame.objects.insert h object).get? h = some object :=
      HandleMap.get?_insert_self ..
    obtain rfl : object = found := Option.some.inj (hself.symm.trans hfound)
    exact hkind
  · have hother : (r.frame.objects.insert h object).get? k = r.frame.objects.get? k :=
      HandleMap.get?_insert_of_ne _ _ heq
    exact hr.objects k other found hk (hother.symm.trans hfound)

theorem addNew (hr : Kinded registry r) (hget : registry.get? h = some resource)
    (hok : (r.addNew h resource).result = .ok r') : Kinded registry r' := by
  obtain ⟨-, ⟨backing, hmake, hbackings, hframe⟩ | ⟨error, -, hbackings, hframe⟩⟩ := addNew_cases hok
  · have hkinded := isKinded_makeBacking hmake
    have hkind : backing.object.kind = resource.kind := by
      rw [hkinded, info_of_makeBacking hmake]
      rfl
    refine ⟨fun e he => ?_, fun k other found hk hfound => ?_⟩
    · rw [hbackings] at he
      rcases List.mem_append.1 he with he | he
      · exact hr.backings e (List.mem_filter.1 he).1
      · rw [List.mem_singleton.1 he]
        exact hkinded
    · rw [hframe] at hfound
      exact (hr.addObject hget hkind).objects k other found hk hfound
  · exact ⟨by rw [hbackings]; exact hr.backings, by rw [hframe]; exact hr.objects⟩

theorem addPersistent (hr : Kinded registry r) (hget : registry.get? h = some resource)
    (hok : (r.addPersistent h resource).result = .ok r') : Kinded registry r' := by
  obtain ⟨backing, hbacking, hinfo, rfl⟩ | ⟨-, base, hbase, hnew⟩ := addPersistent_cases hok
  · apply hr.addObject hget
    rw [hr.backings _ (Backings.mem_of_get? hbacking), hinfo]
    rfl
  · have hkept : Kinded registry base := by
      obtain rfl | ⟨old, -, rfl⟩ := hbase
      · exact hr
      · exact ⟨fun e he => hr.backings e (List.mem_filter.1 he).1, hr.objects⟩
    exact hkept.addNew hget hnew

theorem addKept (hw : registry.WellFormed) (hr : Kinded registry r)
    (hget : registry.get? h = some resource)
    (hok : (r.addKept (h, resource)).result = .ok r') : Kinded registry r' := by
  unfold Resolution.addKept at hok
  dsimp only at hok
  split at hok
  · next object handover hsource =>
      cases hok
      exact hr.addObject hget (hw.coherent h resource hget object handover hsource).1
  · split at hok
    · exact hr.addPersistent hget hok
    · cases hok
      exact hr
  · cases hok
    exact hr

theorem addTransient {index : Nat} {table : UsageTable} {lifetime : Lifetime}
    (hr : Kinded registry r) (hget : registry.get? h = some resource)
    (hok : (addTransient index table r (h, resource, lifetime)).result = .ok r') :
    Kinded registry r' := by
  obtain ⟨created, hcreate, hbackings, hobjects, -⟩ := addTransient_cases hok
  refine ⟨by rw [hbackings]; exact hr.backings, fun k other found hk hfound => ?_⟩
  rw [hobjects] at hfound
  cases created with
  | none => exact hr.objects k other found hk hfound
  | some placement =>
      have hkind : placement.object.kind = resource.kind := Pool.kind_create hcreate
      exact (hr.addObject hget hkind).objects k other found hk hfound

end Kinded

end Resolution

/-- **The objects of a resolved frame are of the kinds of their resources.** -/
theorem kinded_resolveFrame {registry : Registry} (hw : registry.WellFormed) {index : Nat}
    {table : UsageTable} {start r : Resolution} (hstart : start.Kinded registry)
    (hok : (resolveFrame index registry table start).result = .ok r) : r.Kinded registry := by
  obtain ⟨kept, hkept, htransients⟩ := Outcome.result_bind_eq_ok_iff.1 hok
  have hmiddle : kept.Kinded registry := by
    refine (Outcome.foldlM_induction (I := fun rest (x : Resolution) =>
      (∀ e ∈ rest, registry.get? e.1 = some e.2) ∧ x.Kinded registry) ?_
      ⟨fun e he => SlotTable.mem_toList.1 he, hstart⟩ hkept).2
    intro e rest x x' ⟨hentries, hx⟩ hstep
    exact ⟨fun e he => hentries e (List.mem_cons_of_mem _ he),
      hx.addKept hw (hentries e List.mem_cons_self) hstep⟩
  refine (Outcome.foldlM_induction (I := fun rest (x : Resolution) =>
    (∀ e ∈ rest, registry.get? e.1 = some e.2.1) ∧ x.Kinded registry) ?_
    ⟨fun e he => (mem_transientsInOrder.1 he).1, hmiddle⟩ htransients).2
  intro e rest x x' ⟨hentries, hx⟩ hstep
  exact ⟨fun e he => hentries e (List.mem_cons_of_mem _ he),
    hx.addTransient (hentries e List.mem_cons_self) hstep⟩

namespace Graph

variable {g g' : Graph}

/-- Compiling makes no backings. -/
theorem mem_backings_compile {e : String × Backing} (he : e ∈ g.compile.value.backings.entries) :
    e ∈ g.backings.entries := by
  change e ∈ (Backings.releaseStale g.backings g.compile.value.registry g.device).value.1.entries at he
  rw [Backings.releaseStale, List.partition_eq_filter_filter] at he
  exact (List.mem_filter.1 he).1

theorem mem_backings_upToDate {e : String × Backing} (he : e ∈ g.upToDate.backings.entries) :
    e ∈ g.backings.entries := by
  unfold upToDate at he
  split at he
  · exact he
  · exact mem_backings_compile he

theorem kinded_resolution (hbackings : ∀ e ∈ g.backings.entries, e.2.IsKinded) (index : Nat)
    (registry : Registry) : (g.resolution index).Kinded registry where
  backings := fun e he => hbackings e (mem_backings_upToDate he)
  objects := fun _ _ _ _ hobject => by cases hobject

/-- Every action keeps the backings kinded. -/
theorem isKinded_perform (hg : g.Reachable) (hbackings : ∀ e ∈ g.backings.entries, e.2.IsKinded)
    {action : Action} (hstep : g.perform action = .ok g') :
    ∀ e ∈ g'.backings.entries, e.2.IsKinded := by
  cases action with
  | register op => cases hstep; exact hbackings
  | addPass d => cases hstep; exact hbackings
  | clear => cases hstep; exact hbackings
  | analyse => cases hstep; exact hbackings
  | compile => cases hstep; exact fun e he => hbackings e (mem_backings_compile he)
  | execute index =>
      obtain ⟨-, rfl⟩ | ⟨-, r, hok, rfl⟩ := perform_execute_cases hstep
      · exact hbackings
      · have hw := hg.isSound.upToDate.1.declared.wellFormed
        exact (kinded_resolveFrame hw (kinded_resolution hbackings index _) hok).backings
  | dispose =>
      cases hstep
      intro e he
      cases he
  | takeCommands => cases hstep; exact hbackings

theorem Reachable.isKinded_backing (hg : g.Reachable) : ∀ e ∈ g.backings.entries, e.2.IsKinded := by
  induction hg with
  | start policy settings =>
      intro e he
      cases he
  | perform action hg hstep ih => exact isKinded_perform hg ih hstep

/-- **In every frame of every graph the object behind a resource is of its kind.** -/
theorem Reachable.kind_object (hg : g.Reachable) {index : Nat} {r : Resolution}
    (hok : (resolveFrame index g.upToDate.registry g.upToDate.plan.table
      (g.resolution index)).result = .ok r) {h : Handle} {resource : Resource}
    (hget : g.upToDate.registry.get? h = some resource) {object : DeviceObject}
    (hobject : r.frame.objects.get? h = some object) : object.kind = resource.kind := by
  have hw := hg.isSound.upToDate.1.declared.wellFormed
  have hstart := kinded_resolution hg.isKinded_backing index g.upToDate.registry
  exact (kinded_resolveFrame hw hstart hok).objects h resource object hget hobject

end Graph

end FrameGraph
