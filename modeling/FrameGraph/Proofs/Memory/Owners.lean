import FrameGraph.Proofs.Memory.Aliasing
import FrameGraph.Proofs.Memory.Kinds

/-!
# Who owns an object

Every backing belongs to a persistent resource by its name: either it was there before the frame, or it
was created in the frame for a resource that still has it at the end.  The objects that a graph creates
itself have different numbers, so the object of a persistent resource is that of no other resource that
the graph owns; only somebody else may hand it in again.

Principal statements: `Graph.owned_backing` and `Graph.eq_of_number`.
-/

set_option autoImplicit false

namespace FrameGraph

/-! ## Where backings come from -/

namespace Resolution

/-- Every backing was there at the start, or goes by the name of a persistent resource. -/
def IsNamed (registry : Registry) (start r : Resolution) : Prop :=
  ∀ e ∈ r.backings.entries, e ∈ start.backings.entries ∨
    ∃ h resource, registry.get? h = some resource ∧ resource.isPersistent = true ∧
      resource.name = e.1

variable {registry : Registry} {start r r' : Resolution} {h : Handle} {resource : Resource}

theorem IsNamed.addPersistent (hr : IsNamed registry start r) (hget : registry.get? h = some resource)
    (hpersistent : resource.isPersistent = true)
    (hok : (r.addPersistent h resource).result = .ok r') : IsNamed registry start r' := by
  obtain ⟨backing, -, -, rfl⟩ | ⟨-, base, hbase, hnew⟩ := addPersistent_cases hok
  · exact hr
  · have hkept : IsNamed registry start base := by
      obtain rfl | ⟨old, -, rfl⟩ := hbase
      · exact hr
      · exact fun e he => hr e (List.mem_filter.1 he).1
    obtain ⟨-, ⟨backing, -, hbackings, -⟩ | ⟨error, -, hbackings, -⟩⟩ := addNew_cases hnew
    · intro e he
      rw [hbackings] at he
      rcases List.mem_append.1 he with he | he
      · exact hkept e (List.mem_filter.1 he).1
      · rw [List.mem_singleton.1 he]
        exact .inr ⟨h, resource, hget, hpersistent, rfl⟩
    · intro e he
      rw [hbackings] at he
      exact hkept e he

theorem IsNamed.addKept (hr : IsNamed registry start r) (hget : registry.get? h = some resource)
    (hok : (r.addKept (h, resource)).result = .ok r') : IsNamed registry start r' := by
  unfold Resolution.addKept at hok
  dsimp only at hok
  split at hok
  · cases hok
    exact hr
  · next hsource =>
      split at hok
      · refine hr.addPersistent hget ?_ hok
        rw [Resource.isPersistent, hsource]
        rfl
      · cases hok
        exact hr
  · cases hok
    exact hr

theorem isNamed_resolveFrame {index : Nat} {table : UsageTable}
    (hok : (resolveFrame index registry table start).result = .ok r) : IsNamed registry start r := by
  obtain ⟨kept, hkept, htransients⟩ := Outcome.result_bind_eq_ok_iff.1 hok
  have hmiddle : IsNamed registry start kept := by
    refine (Outcome.foldlM_induction (I := fun rest (x : Resolution) =>
      (∀ e ∈ rest, registry.get? e.1 = some e.2) ∧ IsNamed registry start x) ?_
      ⟨fun e he => SlotTable.mem_toList.1 he, fun e he => .inl he⟩ hkept).2
    intro e rest x x' ⟨hentries, hx⟩ hstep
    exact ⟨fun e he => hentries e (List.mem_cons_of_mem _ he),
      hx.addKept (hentries e List.mem_cons_self) hstep⟩
  refine Outcome.foldlM_induction (I := fun _ (x : Resolution) => IsNamed registry start x) ?_
    hmiddle htransients
  intro e rest x x' hx hstep
  obtain ⟨created, -, hbackings, -⟩ := addTransient_cases hstep
  intro e he
  rw [hbackings] at he
  exact hx e he

end Resolution

namespace Graph

variable {g : Graph} {index : Nat} {r : Resolution} {h k : Handle} {resource other : Resource}
  {object found : DeviceObject}

section Frame

variable (hg : g.Reachable)
  (hok : (resolveFrame index g.upToDate.registry g.upToDate.plan.table
    (g.resolution index)).result = .ok r)

include hg hok

/-- The object of a persistent resource is that of its backing. -/
theorem exists_backing (hget : g.upToDate.registry.get? h = some resource)
    (hpersistent : resource.isPersistent = true) (hobject : r.frame.objects.get? h = some object) :
    ∃ backing, r.backings.get? resource.name = some backing ∧ backing.info = resource.info ∧
      backing.object = object := by
  have hw := hg.isSound.upToDate.1.declared.wellFormed
  cases backs_resolveFrame hw hget hpersistent rfl hok with
  | kept backing _ hsame hbacking hinfo hfound =>
      exact ⟨backing, hsame.trans hbacking, hinfo, Option.some.inj (hfound.symm.trans hobject)⟩
  | created backing _ _ hbacking hinfo hfound =>
      exact ⟨backing, hbacking, hinfo, Option.some.inj (hfound.symm.trans hobject)⟩
  | missing hnone _ =>
      rw [hnone] at hobject
      cases hobject

/-- **Where a backing comes from**: it was there before the frame, or a persistent resource has just got
it. -/
theorem owned_backing {e : String × Backing} (he : e ∈ r.backings.entries) :
    e ∈ g.backings.entries ∨ ∃ h resource, g.upToDate.registry.get? h = some resource ∧
      resource.isPersistent = true ∧ resource.lifetime.isSome = true ∧ h ∈ r.frame.created ∧
        r.frame.objects.get? h = some e.2.object := by
  have hheld := (settles_frame hg.holdings hok).holdings
  rcases Resolution.isNamed_resolveFrame hok e he with hstart | ⟨h, resource, hget, hpersistent, hname⟩
  · exact .inl (mem_backings_upToDate hstart)
  · have hbacking : r.backings.get? resource.name = some e.2 := by
      rw [hname]
      exact hheld.names.get?_eq he
    have hbefore : (g.resolution index).backings.get? resource.name = some e.2 →
        e ∈ g.backings.entries := by
      intro hstart
      have hmem := mem_backings_upToDate (Backings.mem_of_get? hstart)
      rw [hname] at hmem
      exact hmem
    have hw := hg.isSound.upToDate.1.declared.wellFormed
    cases backs_resolveFrame hw hget hpersistent rfl hok with
    | kept backing _ hsame hfound =>
        exact .inl (hbefore (hsame.symm.trans hbacking))
    | created backing hcreated _ hfound _ hobject hused =>
        obtain rfl : backing = e.2 := Option.some.inj (hfound.symm.trans hbacking)
        exact .inr ⟨h, resource, hget, hpersistent, hused, hcreated, hobject⟩
    | missing _ _ hold => exact .inl (hbefore (hold e.2 hbacking))

/-- **The object of a persistent resource is that of no other resource that the graph owns.** -/
theorem eq_of_number (hget : g.upToDate.registry.get? h = some resource)
    (hpersistent : resource.isPersistent = true) (hobject : r.frame.objects.get? h = some object)
    (hother : g.upToDate.registry.get? k = some other) (himported : other.isImported = false)
    (hfound : r.frame.objects.get? k = some found) (hnumber : found.number = object.number) :
    k = h := by
  have hheld := (settles_frame hg.holdings hok).holdings
  obtain ⟨-, hbackings, hapart⟩ := List.nodup_append.1 hheld.numbers
  have hw := hg.isSound.upToDate.1.declared.wellFormed
  obtain ⟨backing, hbacking, -, rfl⟩ := exists_backing hg hok hget hpersistent hobject
  have hmem := Backings.mem_of_get? hbacking
  cases hsource : other.source with
  | imported object handover =>
      rw [Resource.isImported, hsource] at himported
      cases himported
  | internal persistent =>
      cases persistent with
      | true =>
          have hkept : other.isPersistent = true := by
            rw [Resource.isPersistent, hsource]
            rfl
          obtain ⟨backing', hbacking', -, rfl⟩ := exists_backing hg hok hother hkept hfound
          have hsame := List.inj_on_of_nodup_map hbackings (Backings.mem_of_get? hbacking') hmem hnumber
          exact hw.names k h other resource hother hget (congrArg Prod.fst hsame)
      | false =>
          have htransient : other.isTransient = true := by
            rw [Resource.isTransient, hsource]
            rfl
          obtain ⟨hlive, -⟩ := (aliasesSafely_afterFrame hg hok).located k other found
            ⟨hother, htransient, hfound⟩
          refine absurd hnumber (hapart _ (List.mem_map_of_mem (f := (·.object.number)) hlive) _ ?_)
          exact List.mem_map_of_mem (f := fun e : String × Backing => e.2.object.number) hmem

end Frame

end Graph

end FrameGraph
