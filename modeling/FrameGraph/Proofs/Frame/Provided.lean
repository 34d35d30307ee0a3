import FrameGraph.Proofs.Memory.Conservation
import FrameGraph.Proofs.Memory.Thrift

/-!
# Frames that find what they need

A new frame of an index finds the bays of the index vacated.  If there is a backing for each persistent
resource that is used, nothing is created for them; if the transient resources can be served without
adding a bay, all of them are created.  Such a frame does not stop.

Principal statements: `Pool.bays_recycle`, `Resolution.ends_keepAll` and
`Resolution.exists_transients`.
-/

set_option autoImplicit false

namespace FrameGraph

/-- Lists that hold the same elements of a kind, at the same positions. -/
theorem filter_eq_of_getElem? {α : Type} {P : α → Bool} {l l' : List α}
    (h : ∀ (i : Nat) (a : α), P a = true → (l'[i]? = some a ↔ l[i]? = some a)) :
    l'.filter P = l.filter P := by
  induction l generalizing l' with
  | nil =>
      refine List.filter_eq_nil_iff.2 fun a ha hP => ?_
      obtain ⟨i, hi⟩ := List.mem_iff_getElem?.1 ha
      cases (h i a hP).1 hi
  | cons a l ih =>
      cases l' with
      | nil =>
          refine (List.filter_eq_nil_iff.2 fun x hx hP => ?_).symm
          obtain ⟨i, hi⟩ := List.mem_iff_getElem?.1 hx
          cases (h i x hP).2 hi
      | cons a' l' =>
          have hrest : l'.filter P = l.filter P := ih fun i x hP => by simpa using h (i + 1) x hP
          have hhead : ∀ x, P x = true → (a' = x ↔ a = x) := fun x hP => by simpa using h 0 x hP
          rw [List.filter_cons, List.filter_cons, hrest]
          cases hP : P a with
          | true => rw [(hhead a hP).2 rfl, hP]
          | false =>
              cases hP' : P a' with
              | false => rfl
              | true =>
                  rw [(hhead a' hP').1 rfl, hP'] at hP
                  cases hP

/-! ## A new frame of an index -/

namespace Pool

theorem blocks_recycle (p : Pool) (d : Device) (frame : Nat) :
    (p.recycle d frame).1.blocks = p.blocks.map fun b =>
      if b.frame = frame then { b with reserved := false, tenant := none } else b := by
  unfold recycle
  rw [List.partition_eq_filter_filter]

/-- **All bays of the index are vacated.** -/
theorem bays_recycle (p : Pool) (d : Device) (frame : Nat) :
    (p.recycle d frame).1.bays frame = (p.bays frame).map Bay.vacated := by
  unfold bays baysOf
  rw [blocks_recycle, List.filter_map, List.map_map, List.map_map]
  have hframe : (fun b : MemoryBlock => decide (b.frame = frame)) ∘ (fun b : MemoryBlock =>
      if b.frame = frame then { b with reserved := false, tenant := none } else b) =
        fun b => decide (b.frame = frame) := by
    funext b
    simp only [Function.comp]
    split <;> rfl
  rw [hframe]
  refine List.map_congr_left fun b hb => ?_
  rw [Function.comp, if_pos (of_decide_eq_true (List.mem_filter.1 hb).2)]
  rfl

theorem shapes_recycle (p : Pool) (d : Device) (frame : Nat) :
    (p.recycle d frame).1.blocks.map MemoryBlock.shape = p.blocks.map MemoryBlock.shape := by
  rw [blocks_recycle, List.map_map]
  refine List.map_congr_left fun b _ => ?_
  rw [Function.comp]
  split <;> rfl

theorem memory_recycle (p : Pool) (d : Device) (frame : Nat) :
    (p.recycle d frame).2.memory = d.memory ∧
      (p.recycle d frame).2.allocationsEver = d.allocationsEver := by
  rw [device_recycle]
  generalize p.live.filter (fun x => x.frame = frame) = ended
  induction ended generalizing d with
  | nil => exact ⟨rfl, rfl⟩
  | cons x rest ih =>
      have hdestroy : (d.destroy x.object).allocationsEver = d.allocationsEver := by
        cases x.object <;> rfl
      rw [List.foldl_cons, (ih _).1, (ih _).2, Device.memory_destroy, hdestroy]
      exact ⟨rfl, rfl⟩

/-- A pool that keeps the blocks of an index keeps its bays. -/
theorem Keeps.bays_eq {frame : Nat} {p p' : Pool} (h : Keeps frame p p') :
    p'.bays frame = p.bays frame :=
  congrArg (List.map MemoryBlock.bay) (filter_eq_of_getElem? fun i b hb =>
    h.blocks i b (of_decide_eq_true hb))


/-- A request for which there is a free block does not stop. -/
theorem ends_create_of_free {p : Pool} {d : Device} {request : TransientRequest}
    {requirements : Requirements} (hrequires : d.requirements request.info = .ok requirements)
    {b : MemoryBlock} (hb : b ∈ p.blocks) (hfree : p.IsFreeFor request b)
    (hsuits : b.suits requirements = true) :
    Ends (fun _ => False) (fun _ => True) (p.create d request).result := by
  have hsome : (p.retire request.frame request.lifetime.first).bestFit? request.frame requirements ≠
      none := by
    intro hnone
    rw [bestFit?_retire_eq_none_iff.1 hnone b hb hfree] at hsuits
    cases hsuits
  obtain ⟨⟨block, index⟩, hbest⟩ := Option.ne_none_iff_exists'.1 hsome
  refine Ends.bind_outcome (P := (· = requirements)) ?_ ?_
  · show Ends _ _ (d.requirements request.info)
    rw [hrequires]
    rfl
  · rintro _ rfl
    refine Ends.bind_outcome (P := fun _ => True) ?_ ?_
    · unfold acquire
      simp only [hbest]
      trivial
    · rintro ⟨acquired, base, middle⟩ -
      cases acquired with
      | none => trivial
      | some block =>
          dsimp only
          split
          · trivial
          · split <;> trivial

end Pool

/-! ## What is not created anew -/

namespace Resolution

variable {r r' : Resolution} {index : Nat} {table : UsageTable}

theorem policy_keepAll {entries : List (Handle × Resource)}
    (hok : (entries.foldlM addKept r).result = .ok r') : r'.device.policy = r.device.policy := by
  have hends := Ends.foldlM (F := r.device.policy.MayStop)
    (Q := fun x : Resolution => x.device.policy = r.device.policy) (l := entries)
    (fun x entry _ hx => ends_addKept hx entry) rfl
  rw [hok] at hends
  exact hends

/-- If all persistent resources that are used have their backings, nothing is created for them, and
nothing stops. -/
theorem ends_keepAll {entries : List (Handle × Resource)}
    (hbacked : ∀ e ∈ entries, e.2.isPersistent = true → e.2.lifetime.isSome = true →
      ∃ backing, r.backings.get? e.2.name = some backing ∧ backing.info = e.2.info) :
    Ends (fun _ => False) (fun x : Resolution => x.device = r.device ∧ x.backings = r.backings)
      (entries.foldlM addKept r).result := by
  refine Ends.foldlM ?_ ⟨rfl, rfl⟩
  rintro x ⟨h, resource⟩ hmem ⟨hdevice, hbackings⟩
  unfold addKept
  dsimp only
  split
  · exact ⟨hdevice, hbackings⟩
  · next hsource =>
      split
      · next hused =>
          obtain ⟨backing, hget, hinfo⟩ := hbacked _ hmem (decide_eq_true hsource) hused
          rw [← hbackings] at hget
          obtain ⟨other, -, -, heq⟩ | ⟨hdiffer, -⟩ := addPersistent_eq x h resource
          · rw [heq]
            exact ⟨hdevice, hbackings⟩
          · exact absurd hinfo (hdiffer backing hget)
      · exact ⟨hdevice, hbackings⟩
  · exact ⟨hdevice, hbackings⟩

/-- A device that refuses nothing creates what is missing. -/
theorem exists_backing_addKept {h : Handle} {resource : Resource}
    (hgenerous : r.device.policy.IsGenerous) (hd : r.device.WellFormed)
    (hpersistent : resource.isPersistent = true) (hused : resource.lifetime.isSome = true)
    (hok : (r.addKept (h, resource)).result = .ok r') :
    ∃ backing, r'.backings.get? resource.name = some backing ∧ backing.info = resource.info := by
  have hsource : resource.source = .internal true := of_decide_eq_true hpersistent
  unfold addKept at hok
  simp only [hsource, if_pos hused] at hok
  obtain ⟨backing, hget, hinfo, rfl⟩ | ⟨-, base, hbase, hnew⟩ := addPersistent_cases hok
  · exact ⟨backing, hget, hinfo⟩
  · have hready : base.device.policy.IsGenerous ∧ base.device.WellFormed := by
      obtain rfl | ⟨old, -, rfl⟩ := hbase
      · exact ⟨hgenerous, hd⟩
      · exact ⟨(old.policy_release r.device).symm ▸ hgenerous, (hd.destroy old.object).free old.memory⟩
    obtain ⟨-, ⟨backing, hmake, hbackings, -⟩ | ⟨error, hmake, -⟩⟩ := addNew_cases hnew
    · exact ⟨backing, by rw [hbackings, Backings.get?_insert_self], info_of_makeBacking hmake⟩
    · obtain ⟨backing, hcreated⟩ := exists_backing_of_generous hready.1 hready.2 hmake
      cases hcreated

theorem backings_transients {index : Nat} {table : UsageTable}
    {entries : List (Handle × Resource × Lifetime)}
    (hok : (entries.foldlM (addTransient index table) r).result = .ok r') :
    r'.backings = r.backings := by
  refine Outcome.foldlM_induction (I := fun _ (x : Resolution) => x.backings = r.backings) ?_ rfl hok
  intro entry rest x x' hx hstep
  obtain ⟨-, -, hbackings, -⟩ := addTransient_cases hstep
  exact hbackings.trans hx

/-- After its requests a frame knows what each of its resources requires. -/
theorem requirements_transients (hgenerous : r.device.policy.IsGenerous)
    (hr : Holdings r.device r.pool r.backings) {entries : List (Handle × Resource × Lifetime)}
    (hok : (entries.foldlM (addTransient index table) r).result = .ok r') :
    ∀ entry ∈ entries, ∃ requirements, r.device.requirements entry.2.1.info = .ok requirements := by
  induction entries generalizing r with
  | nil => exact fun _ hentry => absurd hentry List.not_mem_nil
  | cons first rest ih =>
      rw [List.foldlM_cons] at hok
      obtain ⟨x, hstep, hrest⟩ := Outcome.result_bind_eq_ok_iff.1 hok
      obtain ⟨hx, requirements, -, hrequires, -⟩ := places_addTransient hgenerous hr hstep
      refine List.forall_mem_cons.2 ⟨⟨requirements, hrequires⟩, fun entry hentry => ?_⟩
      rw [← Device.requirements_congr hx.policy]
      exact ih (hx.policy ▸ hgenerous) hx.holdings hrest entry hentry

/-- A request that can be served without adding a bay does not stop. -/
theorem ends_addTransient_of_serves (table : UsageTable) {entry : Handle × Resource × Lifetime}
    {requirements : Requirements}
    (hrequires : r.device.requirements entry.2.1.info = .ok requirements) {bays : List Bay}
    (hserves : Bay.Serves r.pool.shareMemory (r.device.demand entry) (r.pool.bays index) bays)
    (hlength : bays.length ≤ (r.pool.bays index).length) :
    Ends (fun _ => False) (fun _ => True) (addTransient index table r entry).result := by
  rw [Device.demand_eq hrequires] at hserves
  generalize hbays : r.pool.bays index = start at hserves hlength
  cases hserves with
  | added =>
      rw [List.length_append, List.length_map, List.length_singleton] at hlength
      omega
  | @reused before after b hbest =>
      have hb : b ∈ r.pool.bays index := hbays ▸ List.mem_append_right _ List.mem_cons_self
      obtain ⟨block, hblock, hframe, rfl⟩ := mem_baysOf.1 hb
      obtain ⟨hfree, hsuits⟩ := (Pool.fits_bay ⟨entry.1, entry.2.1.info, entry.2.1.name, entry.2.2,
        index⟩ hframe).1 hbest.fits
      refine Ends.bind_outcome (P := fun _ => True)
        (Pool.ends_create_of_free hrequires hblock hfree hsuits) ?_
      rintro ⟨created, pool, device⟩ -
      cases created with
      | none => trivial
      | some placement =>
          dsimp only
          split <;> trivial

/-- **If the demands can be served without adding a bay, all requests of the frame are granted.** -/
theorem exists_transients (table : UsageTable) (hgenerous : r.device.policy.IsGenerous)
    (hr : Holdings r.device r.pool r.backings) {entries : List (Handle × Resource × Lifetime)}
    (hrequires : ∀ entry ∈ entries, ∃ requirements,
      r.device.requirements entry.2.1.info = .ok requirements) {bays : List Bay}
    (hruns : Bay.Runs r.pool.shareMemory (entries.map r.device.demand) (r.pool.bays index) bays)
    (hlength : bays.length = (r.pool.bays index).length) :
    ∃ r', (entries.foldlM (addTransient index table) r).result = .ok r' := by
  induction entries generalizing r with
  | nil => exact ⟨r, rfl⟩
  | cons entry rest ih =>
      obtain ⟨requirements, hrequirement⟩ := hrequires entry List.mem_cons_self
      cases hruns with
      | @cons _ _ _ middle _ hserves hrest =>
          have hless := hserves.shapes.length_le
          have hmore := hrest.shapes.length_le
          simp only [List.length_map] at hless hmore
          obtain ⟨x, hstep, -⟩ := (ends_addTransient_of_serves table hrequirement hserves
            (by omega)).exists_ok
          obtain rfl := hserves.unique (serves_addTransient hgenerous hr hstep)
          have hx := (places_addTransient hgenerous hr hstep).1
          rw [← hx.shareMemory, ← Device.demand_congr hx.policy] at hrest
          obtain ⟨r', hr'⟩ := ih (hx.policy ▸ hgenerous) hx.holdings (fun e he => by
            rw [Device.requirements_congr hx.policy]
            exact hrequires e (List.mem_cons_of_mem _ he)) hrest (by omega)
          refine ⟨r', ?_⟩
          rw [List.foldlM_cons]
          exact Outcome.result_bind_eq_ok_iff.2 ⟨x, hstep, hr'⟩

end Resolution

/-- If everything that is kept is declared, nothing is stale. -/
theorem Backings.releaseStale_of_declared {b : Backings} {registry : Registry}
    (h : ∀ e ∈ b.entries, isDeclared registry e.1 e.2 = true) (d : Device) :
    (b.releaseStale registry d).value = (b, d) := by
  have hstale : b.entries.filter (fun e => !isDeclared registry e.1 e.2) = [] :=
    List.filter_eq_nil_iff.2 fun e he => by simp [h e he]
  unfold Backings.releaseStale
  rw [List.partition_eq_filter_filter]
  show (_, List.foldl _ d (b.entries.filter fun e => !isDeclared registry e.1 e.2)) = _
  rw [hstale, List.filter_eq_self.2 h]
  rfl

end FrameGraph
