import FrameGraph.Proofs.Frame.Provided
import FrameGraph.Proofs.Graph.Alike
import FrameGraph.Proofs.Memory.Aliasing

/-!
# Frames that are warmed up

The first frame of an index allocates what its resources need.  On a device that refuses nothing, the
next frames of that index find the same demands and the blocks that the first one has left.  If the
first frame was thrifty, they are served from these blocks, whatever frames of other indices lie between:
each resource moves into the block where it was, and nothing is allocated.

Principal statements: `Graph.Warm.perform`, `Graph.Warm.quiet` and `Graph.Reachable.warms_up`.
-/

set_option autoImplicit false

namespace FrameGraph

namespace Graph

variable {g g' : Graph} {frame index : Nat} {r : Resolution} {bays : List Bay}

/-! ## What the frames of a plan demand -/

/-- What each frame demands of the pool, one resource after another. -/
def demands (g : Graph) : List Demand :=
  (transientsInOrder g.upToDate.registry).map g.device.demand

theorem DeclaredAlike.demands_eq (h : g.DeclaredAlike g') (hg : g.Reachable) (hg' : g'.Reachable)
    (hpolicy : g'.device.policy = g.device.policy) : g'.demands = g.demands := by
  rw [demands, demands, h.transientsInOrder_eq hg hg', Device.demand_congr hpolicy]

/-- All persistent resources that are used have their backings, and all backings are declared. -/
structure Backed (g : Graph) : Prop where
  used : ∀ h resource, g.upToDate.registry.get? h = some resource → resource.isPersistent = true →
    resource.lifetime.isSome = true →
      ∃ backing, g.backings.get? resource.name = some backing ∧ backing.info = resource.info
  declared : ∀ name backing, g.backings.get? name = some backing → g.Declares name backing.info

/-- The graph does not have more or less memory, and the same blocks. -/
structure AllocatesNothing (g g' : Graph) : Prop where
  memory : g'.device.memory = g.device.memory
  allocations : g'.device.allocationsEver = g.device.allocationsEver
  blocks : g'.pool.blocks.map MemoryBlock.shape = g.pool.blocks.map MemoryBlock.shape

namespace Backed

variable (h : g.Backed) (hg : g.Reachable)

include h hg

/-- Compiling again gives nothing up. -/
theorem compile : g.compile.value.device = g.device ∧ g.compile.value.backings = g.backings := by
  have hr := (hg.perform .compile rfl).isSound.declared.wellFormed
  have hdeclared : ∀ e ∈ g.backings.entries,
      Backings.isDeclared g.compile.value.registry e.1 e.2 = true := fun e he =>
    ((isDeclared_iff (g := g.compile.value) hr).trans declares_compile).2
      (h.declared _ _ (hg.holdings.names.get?_eq he))
  have hvalue := Backings.releaseStale_of_declared hdeclared g.device
  have hbackings : g.compile.value.backings =
      (g.backings.releaseStale g.compile.value.registry g.device).value.1 := rfl
  have hdevice : g.compile.value.device =
      (g.backings.releaseStale g.compile.value.registry g.device).value.2 := rfl
  rw [hbackings, hdevice, hvalue]
  exact ⟨rfl, rfl⟩

theorem upToDate : g.upToDate.device = g.device ∧ g.upToDate.backings = g.backings := by
  unfold Graph.upToDate
  split
  · exact ⟨rfl, rfl⟩
  · exact h.compile hg

end Backed

/-- The pool as the requests of a frame find it. -/
theorem pool_resolution (g : Graph) (index : Nat) : (g.resolution index).pool =
    (Pool.recycle { g.pool with shareMemory := g.settings.shareMemory } g.upToDate.device index).1 := by
  rw [← pool_upToDate, ← settings_upToDate]
  rfl

theorem device_resolution (g : Graph) (index : Nat) : (g.resolution index).device =
    (Pool.recycle { g.pool with shareMemory := g.settings.shareMemory } g.upToDate.device index).2 := by
  rw [← pool_upToDate, ← settings_upToDate]
  rfl

/-- What the transient resources of a frame find. -/
structure Kept (g : Graph) (index : Nat) (kept : Resolution) : Prop where
  keeps : (g.upToDate.registry.toList.foldlM Resolution.addKept (g.resolution index)).result = .ok kept
  pool : kept.pool = (g.resolution index).pool
  holdings : Holdings kept.device kept.pool kept.backings
  policy : kept.device.policy = g.device.policy

theorem kept_of_keepAll (hg : g.Reachable) {kept : Resolution}
    (hkeeps : (g.upToDate.registry.toList.foldlM Resolution.addKept (g.resolution index)).result =
      .ok kept) : g.Kept index kept :=
  ⟨hkeeps, Resolution.pool_keepAll hkeeps,
    (Resolution.settles_keepAll index (settles_resolution hg.holdings index).holdings hkeeps).holdings,
    (Resolution.policy_keepAll hkeeps).trans (policy_resolution g index)⟩

theorem exists_kept (hg : g.Reachable) (hok : (resolveFrame index g.upToDate.registry
    g.upToDate.plan.table (g.resolution index)).result = .ok r) :
    ∃ kept, g.Kept index kept ∧ ((transientsInOrder g.upToDate.registry).foldlM
      (Resolution.addTransient index g.upToDate.plan.table) kept).result = .ok r := by
  obtain ⟨kept, hkeeps, hrequests⟩ := Outcome.result_bind_eq_ok_iff.1 hok
  exact ⟨kept, kept_of_keepAll hg hkeeps, hrequests⟩

namespace Kept

variable {kept : Resolution} (h : g.Kept index kept)

include h

theorem bays_eq : kept.pool.bays index = (g.pool.bays index).map Bay.vacated := by
  rw [h.pool, pool_resolution, Pool.bays_recycle]
  rfl

theorem shapes_eq : kept.pool.blocks.map MemoryBlock.shape = g.pool.blocks.map MemoryBlock.shape := by
  rw [h.pool, pool_resolution, Pool.shapes_recycle]

theorem shareMemory_eq : kept.pool.shareMemory = g.settings.shareMemory := by
  rw [h.pool, shareMemory_resolution, settings_upToDate]

theorem demands_eq : (transientsInOrder g.upToDate.registry).map kept.device.demand = g.demands := by
  rw [demands, Device.demand_congr h.policy]

/-- **The demands of a frame are served from the bays of its index.** -/
theorem runs (hgenerous : g.device.policy.IsGenerous)
    (hrequests : ((transientsInOrder g.upToDate.registry).foldlM
      (Resolution.addTransient index g.upToDate.plan.table) kept).result = .ok r) :
    Bay.Runs g.settings.shareMemory g.demands ((g.pool.bays index).map Bay.vacated)
      (r.pool.bays index) := by
  rw [← h.shareMemory_eq, ← h.demands_eq, ← h.bays_eq]
  exact Resolution.runs_transients (h.policy ▸ hgenerous) h.holdings hrequests

end Kept

/-! ## The first frame -/

/-- After a frame on a device that refuses nothing, all resources have their backings. -/
theorem backed_afterFrame (hg : g.Reachable) (hgenerous : g.device.policy.IsGenerous)
    (hok : (resolveFrame index g.upToDate.registry g.upToDate.plan.table
      (g.resolution index)).result = .ok r) (hnext : (g.afterFrame index r).Reachable) :
    (g.afterFrame index r).Backed := by
  have hcompiled : (g.afterFrame index r).phase = .compiled := hg.isSound.upToDate.2
  refine ⟨fun h resource hget hpersistent hused => ?_, fun name backing => hnext.declares hcompiled⟩
  rw [upToDate_of_compiled hcompiled] at hget
  have htransient : resource.isTransient = false := by
    rw [Resource.isTransient, of_decide_eq_true hpersistent]
    rfl
  obtain ⟨before, x, y, hx, -, hy, hsame, -⟩ :=
    exists_addKept hg.isSound.upToDate.1.declared.wellFormed hget htransient hok
  have hpolicy := (Resolution.policy_keepAll hx).trans (policy_resolution g index)
  have hheld := (Resolution.settles_keepAll index (settles_resolution hg.holdings index).holdings
    hx).holdings
  obtain ⟨backing, hbacking, hinfo⟩ := Resolution.exists_backing_addKept
    (hpolicy ▸ hgenerous) hheld.device hpersistent hused hy
  exact ⟨backing, hsame.backing.trans hbacking, hinfo⟩

/-- A frame index that is warmed up: on a device that refuses nothing, everything is there that its
frames need, and its resources are served from the bays that are there. -/
structure Warm (frame : Nat) (bays : List Bay) (g : Graph) : Prop where
  generous : g.device.policy.IsGenerous
  backed : g.Backed
  known : ∀ entry ∈ transientsInOrder g.upToDate.registry, ∃ requirements,
    g.device.requirements entry.2.1.info = .ok requirements
  here : g.pool.bays frame = bays
  runs : Bay.Runs g.settings.shareMemory g.demands (bays.map Bay.vacated) bays

/-- **A thrifty frame warms its index up.** -/
theorem warm_afterFrame (hg : g.Reachable) (hgenerous : g.device.policy.IsGenerous)
    (hok : (resolveFrame frame g.upToDate.registry g.upToDate.plan.table
      (g.resolution frame)).result = .ok r) (hnext : (g.afterFrame frame r).Reachable)
    (hthrifty : r.pool.ServedThriftily r.device r.frame.objects frame
      (transientsInOrder g.upToDate.registry) (g.pool.blocks.map (·.memory))) :
    (g.afterFrame frame r).Warm frame (r.pool.bays frame) := by
  have hpolicy := policy_afterFrame hok
  have hcompiled : (g.afterFrame frame r).phase = .compiled := hg.isSound.upToDate.2
  have hcurrent := upToDate_of_compiled hcompiled
  obtain ⟨kept, hkept, hrequests⟩ := exists_kept hg hok
  have hdevice : (g.afterFrame frame r).device.policy = kept.device.policy :=
    hpolicy.trans hkept.policy.symm
  refine ⟨hpolicy ▸ hgenerous, backed_afterFrame hg hgenerous hok hnext, ?_, rfl, ?_⟩
  · rw [hcurrent]
    intro entry hentry
    rw [Device.requirements_congr hdevice]
    exact Resolution.requirements_transients (hkept.policy ▸ hgenerous) hkept.holdings hrequests entry
      hentry
  · have hold : ∀ memory ∈ g.pool.blocks.map (·.memory), ∃ b ∈ kept.pool.blocks, b.memory = memory := by
      intro memory hmemory
      obtain ⟨b, hb, rfl⟩ := List.mem_map.1 hmemory
      exact exists_of_memory (hkept.shapes_eq ▸ List.prefix_rfl) hb
    have hdistinct := distinct_transientsInOrder g.upToDate.registry
    rw [← List.nil_append (transientsInOrder g.upToDate.registry)] at hdistinct
    have hround := Resolution.thrifty_transients (hkept.policy ▸ hgenerous) hkept.holdings hrequests
      hdistinct hold (fun _ hx => absurd hx List.not_mem_nil) hthrifty
    have hvacant : (kept.pool.bays frame).map Bay.vacated = kept.pool.bays frame := by
      rw [hkept.bays_eq, List.map_map]
      rfl
    have hruns := hround.stable hvacant
    rw [hkept.shareMemory_eq, ← Device.demand_congr hdevice, ← settings_upToDate] at hruns
    rw [demands, hcurrent]
    exact hruns

/-- A frame that adds no block is thrifty. -/
theorem servedThriftily_of_length_eq (hg : g.Reachable) (hgenerous : g.device.policy.IsGenerous)
    (hok : (resolveFrame frame g.upToDate.registry g.upToDate.plan.table
      (g.resolution frame)).result = .ok r)
    (hlength : (r.pool.bays frame).length = (g.pool.bays frame).length) (d : Device)
    (objects : HandleMap DeviceObject) (entries : List (Handle × Resource × Lifetime)) :
    r.pool.ServedThriftily d objects frame entries (g.pool.blocks.map (·.memory)) := by
  obtain ⟨kept, hkept, hrequests⟩ := exists_kept hg hok
  have hshapes := (Resolution.grows_transients (hkept.policy ▸ hgenerous) hkept.holdings hrequests).shapes
  rw [hkept.shapes_eq] at hshapes
  refine Pool.servedThriftily_of_size_le (fun other hother hframe hnew => ?_) d objects entries
  obtain ⟨b, hb, hmemory⟩ := exists_of_length_eq hshapes hlength hother hframe
  exact absurd (hmemory ▸ List.mem_map_of_mem hb) hnew

/-! ## The next frames -/

section Next

variable (hg : g.Reachable)

include hg

theorem Backed.ends_keepAll (h : g.Backed) (index : Nat) :
    Ends (fun _ => False) (fun kept : Resolution => kept.device = (g.resolution index).device ∧
      kept.backings = g.backings)
      (g.upToDate.registry.toList.foldlM Resolution.addKept (g.resolution index)).result := by
  have hthere : (g.resolution index).backings = g.backings := (h.upToDate hg).2
  rw [← hthere]
  refine Resolution.ends_keepAll fun e he hpersistent hused => ?_
  rw [hthere]
  exact h.used e.1 e.2 (SlotTable.mem_toList.1 he) hpersistent hused

/-- A frame on a graph that has all backings asks for its transient resources only. -/
theorem Backed.exists_kept (h : g.Backed)
    (hok : (resolveFrame index g.upToDate.registry g.upToDate.plan.table
      (g.resolution index)).result = .ok r) :
    ∃ kept, g.Kept index kept ∧ ((transientsInOrder g.upToDate.registry).foldlM
        (Resolution.addTransient index g.upToDate.plan.table) kept).result = .ok r ∧
      kept.device = (g.resolution index).device ∧ r.backings = g.backings := by
  obtain ⟨kept, hkept, hrequests⟩ := Graph.exists_kept hg hok
  have hends := h.ends_keepAll hg index
  rw [hkept.keeps] at hends
  exact ⟨kept, hkept, hrequests, hends.1, (Resolution.backings_transients hrequests).trans hends.2⟩

theorem Backed.backings_perform (h : g.Backed) {action : Action} (hretains : action.retains = true)
    (hstep : g.perform action = .ok g') : g'.backings = g.backings := by
  cases action with
  | register op => cases hstep; rfl
  | analyse => cases hstep; rfl
  | takeCommands => cases hstep; rfl
  | compile => cases hstep; exact (h.compile hg).2
  | execute index =>
      obtain ⟨-, rfl⟩ | ⟨-, r, hok, rfl⟩ := perform_execute_cases hstep
      · rfl
      · obtain ⟨-, -, -, -, hbackings⟩ := h.exists_kept hg hok
        exact hbackings
  | addPass d => cases hretains
  | clear => cases hretains
  | dispose => cases hretains

theorem Backed.perform (h : g.Backed) {action : Action} (hretains : action.retains = true)
    (hstep : g.perform action = .ok g') : g'.Backed := by
  have halike := declaredAlike_perform hretains hstep
  have hbackings := h.backings_perform hg hretains hstep
  refine ⟨fun k resource hget hpersistent hused => ?_, fun name backing hbacking => ?_⟩
  · have hown : resource.isImported = false := by
      rw [Resource.isImported, of_decide_eq_true hpersistent]
    rw [hbackings]
    exact h.used k resource (halike.get?_upToDate hg (hg.perform action hstep) hget hown) hpersistent
      hused
  · exact halike.declares (h.declared name backing (hbackings ▸ hbacking))

/-- Only its own frames change the bays of an index. -/
theorem bays_perform (frame : Nat) {action : Action} (hretains : action.retains = true)
    (hstep : g.perform action = .ok g') :
    g'.pool.bays frame = g.pool.bays frame ∨ action = .execute frame ∧ ∃ r,
      (resolveFrame frame g.upToDate.registry g.upToDate.plan.table (g.resolution frame)).result =
          .ok r ∧ g' = g.afterFrame frame r := by
  cases hends : action.ends frame with
  | false => exact .inl (spares_perform hg.holdings hends hstep).pool.bays_eq
  | true =>
      cases action with
      | execute index =>
          obtain rfl : index = frame := of_decide_eq_true hends
          by_cases hindex : index < g.settings.framesInFlight
          · exact .inr ⟨rfl, (perform_execute_eq_ok_iff hindex).1 hstep⟩
          · obtain ⟨-, rfl⟩ | ⟨hlt, -⟩ := perform_execute_cases hstep
            · exact .inl rfl
            · exact absurd hlt hindex
      | dispose => cases hretains
      | _ => cases hends

namespace Warm

variable (h : g.Warm frame bays)

include h

/-- **A frame of an index that is warmed up allocates nothing**, and leaves the same bays. -/
theorem quiet (hok : (resolveFrame frame g.upToDate.registry g.upToDate.plan.table
    (g.resolution frame)).result = .ok r) :
    g.AllocatesNothing (g.afterFrame frame r) ∧ r.pool.bays frame = bays := by
  obtain ⟨kept, hkept, hrequests, hdevice, -⟩ := h.backed.exists_kept hg hok
  have hruns := hkept.runs h.generous hrequests
  rw [h.here] at hruns
  have hsame : r.pool.bays frame = bays := (h.runs.unique hruns).symm
  obtain ⟨hmemory, hever, hshapes⟩ := Resolution.quiet_transients (hkept.policy ▸ h.generous)
    hkept.holdings hrequests (by rw [hsame, hkept.bays_eq, h.here, List.length_map])
  obtain ⟨hrecycled, hrecycledEver⟩ := Pool.memory_recycle
    { g.pool with shareMemory := g.settings.shareMemory } g.upToDate.device frame
  rw [← device_resolution, ← hdevice, (h.backed.upToDate hg).1] at hrecycled hrecycledEver
  exact ⟨⟨hmemory.trans hrecycled, hever.trans hrecycledEver, hshapes.trans hkept.shapes_eq⟩, hsame⟩

/-- **A frame of an index that is warmed up succeeds.** -/
theorem exists_later (hframe : frame < g.settings.framesInFlight) :
    ∃ later, g.perform (.execute frame) = .ok later := by
  obtain ⟨kept, hkeeps, hdevice, -⟩ := (h.backed.ends_keepAll hg frame).exists_ok
  have hkept := kept_of_keepAll hg hkeeps
  have hstart : bays.map Bay.vacated = kept.pool.bays frame := by rw [hkept.bays_eq, h.here]
  have hruns := h.runs
  rw [hstart, ← hkept.shareMemory_eq, ← hkept.demands_eq] at hruns
  have hknown : ∀ entry ∈ transientsInOrder g.upToDate.registry, ∃ requirements,
      kept.device.requirements entry.2.1.info = .ok requirements := by
    intro entry hentry
    rw [Device.requirements_congr hkept.policy]
    exact h.known entry hentry
  obtain ⟨r, hrequests⟩ := Resolution.exists_transients g.upToDate.plan.table
    (hkept.policy ▸ h.generous) hkept.holdings hknown hruns (by rw [← hstart, List.length_map])
  have hok : (resolveFrame frame g.upToDate.registry g.upToDate.plan.table
      (g.resolution frame)).result = .ok r :=
    Outcome.result_bind_eq_ok_iff.2 ⟨kept, hkeeps, hrequests⟩
  exact ⟨_, (perform_execute_eq_ok_iff hframe).2 ⟨r, hok, rfl⟩⟩

/-- **Whatever retains the plan keeps the index warm.** -/
theorem perform {action : Action} (hretains : action.retains = true)
    (hstep : g.perform action = .ok g') : g'.Warm frame bays := by
  have hg' := hg.perform action hstep
  have hpolicy := policy_perform hstep
  have halike := declaredAlike_perform hretains hstep
  refine ⟨hpolicy ▸ h.generous, h.backed.perform hg hretains hstep, ?_, ?_, ?_⟩
  · rw [halike.transientsInOrder_eq hg hg']
    intro entry hentry
    rw [Device.requirements_congr hpolicy]
    exact h.known entry hentry
  · obtain hsame | ⟨-, r, hok, rfl⟩ := bays_perform hg frame hretains hstep
    · exact hsame.trans h.here
    · exact (h.quiet hg hok).2
  · rw [settings_perform hstep, halike.demands_eq hg hg' hpolicy]
    exact h.runs

theorem performAll {actions : List Action} (hretains : ∀ action ∈ actions, action.retains = true)
    (hrun : g.performAll actions = .ok g') : g'.Warm frame bays := by
  induction actions generalizing g with
  | nil =>
      cases hrun
      exact h
  | cons action rest ih =>
      obtain ⟨middle, hstep, hrest⟩ := performAll_cons_eq_ok_iff.1 hrun
      exact ih (hg.perform action hstep) (h.perform hg (hretains action List.mem_cons_self) hstep)
        (fun a ha => hretains a (List.mem_cons_of_mem _ ha)) hrest

end Warm

/-! ## How often blocks are added -/

theorem length_bays_perform (frame : Nat) (hgenerous : g.device.policy.IsGenerous) {action : Action}
    (hretains : action.retains = true) (hstep : g.perform action = .ok g') :
    (g'.pool.bays frame).length + Bay.saturation (g.pool.bays frame) 0 g.demands ≤
      (g.pool.bays frame).length + Bay.saturation (g'.pool.bays frame) 0 g.demands := by
  obtain hsame | ⟨-, r, hok, rfl⟩ := bays_perform hg frame hretains hstep
  · rw [hsame]
  · obtain ⟨kept, hkept, hrequests⟩ := exists_kept hg hok
    have hvacant : Bay.occupied ((g.pool.bays frame).map Bay.vacated) ≤ ([] : List Demand).length :=
      Nat.le_of_eq (Bay.occupied_vacated _)
    have hround := (hkept.runs hgenerous hrequests).length_add_saturation_le hvacant
    rw [List.nil_append, List.length_map, Bay.saturation_vacated] at hround
    exact hround

/-- **Along a run no more blocks are added than the saturation rises.** -/
theorem length_bays_performAll (frame : Nat) (hgenerous : g.device.policy.IsGenerous) {actions : List Action}
    (hretains : ∀ action ∈ actions, action.retains = true) (hrun : g.performAll actions = .ok g') :
    (g'.pool.bays frame).length + Bay.saturation (g.pool.bays frame) 0 g.demands ≤
      (g.pool.bays frame).length + Bay.saturation (g'.pool.bays frame) 0 g.demands := by
  induction actions generalizing g with
  | nil => cases hrun; exact Nat.le_refl _
  | cons action rest ih =>
      obtain ⟨middle, hstep, hrest⟩ := performAll_cons_eq_ok_iff.1 hrun
      have haction := hretains action List.mem_cons_self
      have hmiddle := hg.perform action hstep
      have hpolicy := policy_perform hstep
      have hfirst := length_bays_perform hg frame hgenerous haction hstep
      have hother := ih hmiddle (hpolicy ▸ hgenerous) (fun a ha => hretains a (List.mem_cons_of_mem _ ha))
        hrest
      rw [(declaredAlike_perform haction hstep).demands_eq hg hmiddle hpolicy] at hother
      omega

end Next

/-! ## Executing a plan again and again -/

/-- Whatever is done that retains the plan, the blocks of the index stay the same, and its next frame
succeeds and allocates nothing. -/
def StaysWarm (frame : Nat) (g : Graph) : Prop :=
  ∀ actions between, (∀ action ∈ actions, action.retains = true) → g.performAll actions = .ok between →
    between.pool.bays frame = g.pool.bays frame ∧
      ∃ later, between.perform (.execute frame) = .ok later ∧ between.AllocatesNothing later ∧
        later.pool.bays frame = g.pool.bays frame

/-- How an index warms up, when its frame leads from one graph to another.

* `thrifty`: it is warm once no resource of the frame is in a block that is larger than another one which
  suits it and was added by the same frame for a later resource.
* `settled`: it is warm once the frame has added no block.
* `bounded`: the frame and all later ones of the index together do not add more blocks than there are
  pairs of used transient resources, each of them paired with itself as well. -/
structure WarmsUp (frame : Nat) (g g' : Graph) : Prop where
  thrifty : g'.pool.ServedThriftily g'.device g'.objects frame (transientsInOrder g'.registry)
    (g.pool.blocks.map (·.memory)) → g'.StaysWarm frame
  settled : (g'.pool.bays frame).length = (g.pool.bays frame).length → g'.StaysWarm frame
  bounded : ∀ actions later, (∀ action ∈ actions, action.retains = true) →
    g'.performAll actions = .ok later →
      (later.pool.bays frame).length ≤ (g.pool.bays frame).length +
        (transientsInOrder g'.registry).length * ((transientsInOrder g'.registry).length + 1) / 2

theorem Warm.staysWarm (hg : g.Reachable) (hframe : frame < g.settings.framesInFlight)
    (h : g.Warm frame bays) : g.StaysWarm frame := by
  intro actions between hretains hrun
  have hbetween := reachable_of_performAll hg hrun
  have hwarm := h.performAll hg hretains hrun
  have hframe' : frame < between.settings.framesInFlight := by
    rw [settings_performAll hrun]
    exact hframe
  obtain ⟨later, hlater⟩ := hwarm.exists_later hbetween hframe'
  obtain ⟨r, hok, rfl⟩ := (perform_execute_eq_ok_iff hframe').1 hlater
  rw [h.here]
  exact ⟨hwarm.here, _, hlater, hwarm.quiet hbetween hok⟩

/-- **Executing a plan again and again warms its frames up**, on a device that refuses nothing. -/
theorem Reachable.warms_up (hg : g.Reachable) (hgenerous : g.device.policy.IsGenerous)
    (hframe : frame < g.settings.framesInFlight) (hstep : g.perform (.execute frame) = .ok g') :
    g.WarmsUp frame g' := by
  have hg' := hg.perform _ hstep
  obtain ⟨r, hok, rfl⟩ := (perform_execute_eq_ok_iff hframe).1 hstep
  have hframe' : frame < (g.afterFrame frame r).settings.framesInFlight := by
    rw [settings_perform hstep]
    exact hframe
  have hwarm : r.pool.ServedThriftily r.device r.frame.objects frame
      (transientsInOrder g.upToDate.registry) (g.pool.blocks.map (·.memory)) →
        (g.afterFrame frame r).StaysWarm frame := fun hthrifty =>
    (warm_afterFrame hg hgenerous hok hg' hthrifty).staysWarm hg' hframe'
  refine ⟨hwarm, fun hlength => hwarm
    (servedThriftily_of_length_eq hg hgenerous hok hlength _ _ _), ?_⟩
  intro actions later hretains hrun
  have hfromFirst : g.performAll (.execute frame :: actions) = .ok later :=
    performAll_cons_eq_ok_iff.2 ⟨_, hstep, hrun⟩
  have hbounded := length_bays_performAll hg frame hgenerous
    (List.forall_mem_cons.2 ⟨rfl, hretains⟩) hfromFirst
  have hfull := Bay.two_mul_saturation_le (later.pool.bays frame) 0 g.demands
  have hcount : g.demands.length = (transientsInOrder g.upToDate.registry).length := List.length_map _
  rw [hcount, Nat.mul_zero, Nat.zero_add] at hfull
  have hregistry : (g.afterFrame frame r).registry = g.upToDate.registry := rfl
  rw [hregistry]
  omega

/-- The first frame allocates two blocks of one size, and so the index is warm. -/
theorem warms_up_relay :
    ∃ g g' : Graph, (Graph.empty {} {}).performAll relay = .ok g ∧
      g.perform (.execute 0) = .ok g' ∧ g'.device.allocationsEver = 2 ∧ g.WarmsUp 0 g' ∧
        g'.StaysWarm 0 := by
  have hrun : succeeds ((Graph.empty {} {}).performAll relay) (fun g =>
      succeeds (g.perform (.execute 0)) fun g' =>
        decide (0 < g.settings.framesInFlight ∧ g'.device.allocationsEver = 2 ∧
          ∀ other ∈ g'.pool.blocks, ∀ block ∈ g'.pool.blocks, block.size ≤ other.size)) = true := by
    cbv
  obtain ⟨g, hdeclared, hrun⟩ := exists_of_succeeds hrun
  obtain ⟨g', hexecuted, hcheck⟩ := exists_of_succeeds hrun
  obtain ⟨hframe, hever, hsizes⟩ := of_decide_eq_true hcheck
  have hgenerous : g.device.policy.IsGenerous := by
    rw [policy_performAll hdeclared]
    exact ⟨rfl, fun _ _ => rfl⟩
  have hwarms := (reachable_of_performAll (.start {} {}) hdeclared).warms_up hgenerous hframe hexecuted
  exact ⟨g, g', hdeclared, hexecuted, hever, hwarms, hwarms.thrifty
    (Pool.servedThriftily_of_size_le (fun other hother _ _ => hsizes other hother) _ _ _)⟩

/-- A buffer is written, then a small and a larger one, of which the larger is read while a third one
is written. -/
def overtaking : List Action :=
  [.register (.importBuffer "out" 99 {} .undefined .undefined),
    .register (.markOutput "out"),
    .addPass ⟨"first", .transfer,
      [.createBuffer "x" { size := 1024 } false, .write "x" .transferDst, .write "out" .transferDst], none⟩,
    .addPass ⟨"second", .transfer,
      [.createBuffer "a" { size := 256 } false, .createBuffer "b" { size := 512 } false,
        .write "a" .transferDst, .write "b" .transferDst, .write "out" .transferDst], none⟩,
    .addPass ⟨"third", .transfer,
      [.createBuffer "c" { size := 1024 } false, .read "b" .transferSrc, .write "c" .transferDst,
        .write "out" .transferDst], none⟩,
    .compile]

/-- In the first frame the small buffer takes the large block, and the large block is free again for the
last buffer.  In the second one it takes the block that was added for the larger buffer, which takes
the large block itself, and nothing is left for the last one. -/
theorem allocates_again_overtaking :
    ¬ ∀ (g g' later : Graph) (frame : Nat) (actions : List Action) (between : Graph), g.Reachable →
      g.isCompiled = true → g.device.policy.IsGenerous → frame < g.settings.framesInFlight →
        g.perform (.execute frame) = .ok g' → (∀ action ∈ actions, action.retains = true) →
          g'.performAll actions = .ok between → between.perform (.execute frame) = .ok later →
            between.AllocatesNothing later := by
  have hrun : succeeds ((Graph.empty {} {}).performAll overtaking) (fun g =>
      succeeds (g.perform (.execute 0)) fun g' =>
        succeeds (g'.perform (.execute 0)) fun later =>
          decide (g.isCompiled = true ∧ 0 < g.settings.framesInFlight ∧
            g'.device.allocationsEver = 2 ∧ later.device.allocationsEver = 3)) = true := by
    cbv
  obtain ⟨g, hdeclared, hrun⟩ := exists_of_succeeds hrun
  obtain ⟨g', hexecuted, hrun⟩ := exists_of_succeeds hrun
  obtain ⟨later, hagain, hcheck⟩ := exists_of_succeeds hrun
  obtain ⟨hcompiled, hframe, hfirst, hsecond⟩ := of_decide_eq_true hcheck
  have hgenerous : g.device.policy.IsGenerous := by
    rw [policy_performAll hdeclared]
    exact ⟨rfl, fun _ _ => rfl⟩
  intro hquiet
  have hsame := (hquiet g g' later 0 [] g' (reachable_of_performAll (.start {} {}) hdeclared) hcompiled
    hgenerous hframe hexecuted (by simp) rfl hagain).allocations
  rw [hfirst, hsecond] at hsame
  cases hsame

end Graph

end FrameGraph
