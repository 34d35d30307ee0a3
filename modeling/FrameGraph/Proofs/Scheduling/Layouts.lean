import FrameGraph.Proofs.Timeline
import FrameGraph.Schedule
import Mathlib.Data.List.Induction

/-!
# The simulated layouts

The scheduler carries a table of layouts along, in which every pass overwrites those of the images that
it accesses.  What the table says of an image can be read off the passes themselves: it is the layout
that the latest of them with an access to the image requires, or else the layout in which the image
enters the frame.

Principal statements: `simulates_start` and `Simulates.step`.
-/

set_option autoImplicit false

namespace FrameGraph

/-! ## Tables filled one entry after another -/

/-- Tables filled entry by entry with different keys. -/
theorem HandleMap.get?_foldl_insert {α β : Type} (f : α → β) {entries : List (Handle × α)}
    (hnd : (entries.map (·.1)).Nodup) (m : HandleMap β) (h : Handle) :
    (∀ a, (h, a) ∈ entries →
      (entries.foldl (fun m entry => m.insert entry.1 (f entry.2)) m).get? h = some (f a)) ∧
    (h ∉ entries.map (·.1) →
      (entries.foldl (fun m entry => m.insert entry.1 (f entry.2)) m).get? h = m.get? h) := by
  induction entries generalizing m with
  | nil => exact ⟨fun a ha => absurd ha List.not_mem_nil, fun _ => rfl⟩
  | cons entry rest ih =>
      rw [List.map_cons] at hnd
      obtain ⟨hnew, hrest⟩ := List.nodup_cons.1 hnd
      have hih := ih hrest (m.insert entry.1 (f entry.2))
      refine ⟨fun a ha => ?_, fun hnot => ?_⟩
      · rcases List.mem_cons.1 ha with rfl | ha
        · exact (hih.2 hnew).trans (HandleMap.get?_insert_self m h (f a))
        · exact hih.1 a ha
      · rw [List.map_cons, List.mem_cons, not_or] at hnot
        exact (hih.2 hnot.2).trans (HandleMap.get?_insert_of_ne m _ (Ne.symm hnot.1))

/-! ## The layouts that a pass requires -/

/-- A pass requires a layout of the images that it accesses, and of nothing else. -/
theorem Pass.isSome_layoutFor? {p : Pass} {registry : Registry} {h : Handle} :
    (p.layoutFor? registry h).isSome = true ↔
      p.involves h = true ∧ ∃ resource, registry.get? h = some resource ∧ resource.kind = .image := by
  have hinvolves : p.involves h = (p.accesses.find? fun a => a.resource = h).isSome :=
    (List.isSome_find? ..).symm
  rw [hinvolves]
  unfold layoutFor?
  cases registry.get? h with
  | none => simp
  | some resource =>
      cases p.accesses.find? fun a => a.resource = h with
      | none => simp
      | some first => cases hkind : resource.kind <;> simp [hkind]

theorem Pass.layoutFor?_of_not_involves {p : Pass} {registry : Registry} {h : Handle}
    (hnot : ¬ p.involves h = true) : p.layoutFor? registry h = none := by
  apply Option.not_isSome_iff_eq_none.1
  intro hsome
  exact hnot (Pass.isSome_layoutFor?.1 hsome).1

namespace ScheduleInput

theorem get?_initialLayouts (s : ScheduleInput) {h : Handle} {resource : Resource}
    (hget : s.registry.get? h = some resource) :
    s.initialLayouts.get? h =
      some ((resource.handover?.map (·.initial.layout)).getD .undefined) := by
  have hnd : (s.registry.toList.map (·.1)).Nodup := SlotTable.nodup_handles s.registry.table
  have hmem : (h, resource) ∈ s.registry.toList := SlotTable.mem_toList.2 hget
  exact (HandleMap.get?_foldl_insert
    (fun resource : Resource => ((resource.handover?.map (·.initial.layout)).getD .undefined : Layout))
    hnd .empty h).1 resource hmem

/-- After a pass the images that it accesses are in the layouts that it requires. -/
theorem get?_layoutsAfter (s : ScheduleInput) (layouts : HandleMap Layout) (pass : Nat) (h : Handle) :
    (s.layoutsAfter layouts pass).get? h =
      ((s.passAt pass).layoutFor? s.registry h).or (layouts.get? h) := by
  have hinvolved : ((s.passAt pass).layoutFor? s.registry h).or (layouts.get? h) =
      if (s.passAt pass).involves h then
        ((s.passAt pass).layoutFor? s.registry h).or (layouts.get? h)
      else layouts.get? h := by
    split
    · rfl
    · next hnot => rw [Pass.layoutFor?_of_not_involves hnot, Option.none_or]
  rw [hinvolved]
  unfold layoutsAfter Pass.involves
  generalize (s.passAt pass).layoutFor? s.registry = required
  -- The induction is on what has been inserted so far, so from the end of the list.
  induction (s.passAt pass).accesses using List.reverseRecOn with
  | nil => rfl
  | append_singleton rest a ih =>
      rw [List.foldl_append, List.foldl_cons, List.foldl_nil, List.any_append]
      by_cases ha : a.resource = h
      · subst ha
        cases hlayout : required a.resource with
        | none => simpa [hlayout] using ih
        | some layout => simp
      · simp only [ha, decide_false, List.any_cons, List.any_nil, Bool.or_self, Bool.or_false]
        rw [← ih]
        split
        · rfl
        · exact HandleMap.get?_insert_of_ne _ _ ha

/-! ## The layouts by what has been scheduled -/

/-- The layout in which an image is handed over; one that the graph creates is in none. -/
def initialLayout (s : ScheduleInput) (h : Handle) : Layout :=
  ((s.registry.get? h).bind Resource.handover?).elim .undefined fun handover => handover.initial.layout

/-- The layout of an image behind the passes `before`: that which the latest of them with an access to
the image requires, or else the initial one. -/
def simulatedLayout (s : ScheduleInput) (before : List Nat) (h : Handle) : Layout :=
  match before.reverse.find? fun pass => (s.passAt pass).involves h with
  | some last => ((s.passAt last).layoutFor? s.registry h).getD .undefined
  | none => s.initialLayout h

/-- The table holds the simulated layouts of the images. -/
def Simulates (s : ScheduleInput) (before : List Nat) (layouts : HandleMap Layout) : Prop :=
  ∀ h resource, s.registry.get? h = some resource → resource.kind = .image →
    layouts.get? h = some (s.simulatedLayout before h)

theorem simulates_start (s : ScheduleInput) : s.Simulates [] s.initialLayouts := by
  intro h resource hget _
  rw [s.get?_initialLayouts hget]
  simp only [simulatedLayout, List.reverse_nil, List.find?_nil, initialLayout, hget, Option.bind_some]
  cases resource.handover? <;> rfl

/-- The next pass overwrites the layouts of what it accesses. -/
theorem Simulates.step {s : ScheduleInput} {before : List Nat} {layouts : HandleMap Layout}
    (hs : s.Simulates before layouts) (next : Nat) :
    s.Simulates (before ++ [next]) (s.layoutsAfter layouts next) := by
  intro h resource hget hkind
  rw [get?_layoutsAfter, simulatedLayout, List.reverse_append, List.reverse_singleton,
    List.singleton_append, List.find?_cons]
  cases hinvolves : (s.passAt next).involves h with
  | true =>
      obtain ⟨layout, hlayout⟩ := Option.isSome_iff_exists.1
        (Pass.isSome_layoutFor?.2 ⟨hinvolves, resource, hget, hkind⟩)
      simp [hlayout]
  | false =>
      rw [Pass.layoutFor?_of_not_involves (by simp [hinvolves]), Option.none_or,
        hs h resource hget hkind]
      rfl

end ScheduleInput

end FrameGraph
