import Mathlib
import FrameGraph.Proofs.Memory.Reachable
import FrameGraph.Proofs.Memory.Serving

/-!
# Which resources share memory

In every frame of every graph, two transient resources lie in the same memory only if memory is shared
and their lifetimes are disjoint.  The memory of different frames, and that of persistent resources, is
never the same, and what a frame has is left alone until its index comes again.

Principal statement: `Graph.Reachable.aliasing_safe`.
-/

set_option autoImplicit false

namespace FrameGraph

/-! ## The memory of different frames, and of backings -/

namespace Holdings

variable {d : Device} {p : Pool} {b : Backings}

/-- The resources of different frames lie in different memory. -/
theorem memoryOf?_ne_of_frame_ne (h : Holdings d p b) {x y : LiveObject} (hx : x ∈ p.live)
    (hy : y ∈ p.live) (hne : x.frame ≠ y.frame) : d.memoryOf? x.object ≠ d.memoryOf? y.object := by
  intro heq
  obtain ⟨block, hblock, hframe, hm⟩ := h.tenants x hx
  obtain ⟨block', hblock', hframe', hm'⟩ := h.tenants y hy
  have hmemory : block.memory = block'.memory := by
    rw [hm, hm'] at heq
    exact Option.some.inj heq
  have hsame : block = block' :=
    List.inj_on_of_nodup_map (List.nodup_append.1 h.memories).1 hblock hblock' hmemory
  rw [← hframe, hsame, hframe'] at hne
  exact hne rfl

/-- No resource of the pool lies in the memory of a backing. -/
theorem memoryOf?_ne_backing (h : Holdings d p b) {x : LiveObject} (hx : x ∈ p.live)
    {e : String × Backing} (he : e ∈ b.entries) : d.memoryOf? x.object ≠ some e.2.memory := by
  intro heq
  obtain ⟨block, hblock, -, hm⟩ := h.tenants x hx
  rw [hm] at heq
  have hblockMemory : block.memory ∈ p.blocks.map (·.memory) := List.mem_map_of_mem hblock
  have hbackingMemory : e.2.memory ∈ b.entries.map (·.2.memory) :=
    List.mem_map_of_mem (f := fun e : String × Backing => e.2.memory) he
  exact (List.nodup_append.1 h.memories).2.2 _ hblockMemory _ hbackingMemory (Option.some.inj heq)

end Holdings

/-! ## Every frame of every graph -/

namespace Graph

variable {g g' : Graph} {index : Nat}

/-- A transient resource that was resolved in the last frame, with its object. -/
structure Resolved (g : Graph) (h : Handle) (resource : Resource) (object : DeviceObject) : Prop where
  live : g.registry.get? h = some resource
  transient : resource.isTransient = true
  object : g.objects.get? h = some object

/-- After a frame of an index: its transient resources are live, each in a block of the index, and two
of them are in the same memory only if memory is shared and their lifetimes are disjoint.  No resource
of the pool is in the memory of a backing, or in that of a resource of another index. -/
structure AliasesSafely (g : Graph) (index : Nat) : Prop where
  located : ∀ h resource object, g.Resolved h resource object →
    ⟨object, index⟩ ∈ g.pool.live ∧ ∃ lifetime, resource.lifetime = some lifetime
  blocks : ∀ x ∈ g.pool.live, ∃ block ∈ g.pool.blocks, block.frame = x.frame ∧
    g.device.memoryOf? x.object = some block.memory
  transients : ∀ h k resource other object object' lifetime lifetime', h ≠ k →
    g.Resolved h resource object → g.Resolved k other object' →
      resource.lifetime = some lifetime → other.lifetime = some lifetime' →
        g.device.memoryOf? object = g.device.memoryOf? object' →
          g.settings.shareMemory = true ∧ lifetime.Disjoint lifetime'
  backings : ∀ x ∈ g.pool.live, ∀ e ∈ g.backings.entries,
    g.device.memoryOf? e.2.object = some e.2.memory ∧
      g.device.memoryOf? x.object ≠ some e.2.memory
  frames : ∀ x ∈ g.pool.live, ∀ y ∈ g.pool.live, x.frame ≠ y.frame →
    g.device.memoryOf? x.object ≠ g.device.memoryOf? y.object

/-- What a frame index had before it still has: its resources are live and lie where they were, and its
blocks are the same. -/
structure KeepsFrame (g : Graph) (frame : Nat) (g' : Graph) : Prop where
  resources : ∀ x ∈ g.pool.live, x.frame = frame → x ∈ g'.pool.live ∧
    ∃ memory, g.device.memoryOf? x.object = some memory ∧
      g'.device.memoryOf? x.object = some memory
  blocks : ∀ (i : Nat) (block : MemoryBlock), block.frame = frame →
    (g'.pool.blocks[i]? = some block ↔ g.pool.blocks[i]? = some block)

theorem shareMemory_resolution (g : Graph) (index : Nat) :
    (g.resolution index).pool.shareMemory = g.upToDate.settings.shareMemory := by
  show (Pool.recycle { g.upToDate.pool with shareMemory := g.upToDate.settings.shareMemory }
    g.upToDate.device index).1.shareMemory = _
  unfold Pool.recycle
  rw [List.partition_eq_filter_filter]

theorem vacant_resolution (g : Graph) (index : Nat) : (g.resolution index).pool.Tenancy index [] :=
  .recycle _ g.upToDate.device index

theorem aliasesSafely_afterFrame (hg : g.Reachable) {r : Resolution}
    (hok : (resolveFrame index g.upToDate.registry g.upToDate.plan.table
      (g.resolution index)).result = .ok r) : (g.afterFrame index r).AliasesSafely index := by
  have hheld := (settles_frame hg.holdings hok).holdings
  obtain ⟨hshare, position, stays, hlodges, -⟩ := Resolution.exists_lodges
    hg.isSound.upToDate.1.declared.wellFormed (settles_resolution hg.holdings index).holdings rfl
    (vacant_resolution g index) hok
  have hshared : r.pool.shareMemory = (g.afterFrame index r).settings.shareMemory :=
    hshare.trans (shareMemory_resolution g index)
  refine ⟨?_, hheld.tenants, ?_, ?_, ?_⟩
  · intro h resource object hres
    obtain ⟨stay, -, hlifetime, -, hlive⟩ :=
      hlodges.lodged h resource object hres.live hres.transient hres.object
    exact ⟨hlive, stay.lifetime, hlifetime⟩
  · intro h k resource other object object' lifetime lifetime' hne hres hres' hl hl' heq
    obtain ⟨stay, hstay, hlifetime, hm, -⟩ :=
      hlodges.lodged h resource object hres.live hres.transient hres.object
    obtain ⟨stay', hstay', hlifetime', hm', -⟩ :=
      hlodges.lodged k other object' hres'.live hres'.transient hres'.object
    obtain rfl : stay.lifetime = lifetime := Option.some.inj (hlifetime.symm.trans hl)
    obtain rfl : stay'.lifetime = lifetime' := Option.some.inj (hlifetime'.symm.trans hl')
    have hmemory : stay.memory = stay'.memory :=
      Option.some.inj (hm.symm.trans (Eq.trans heq hm'))
    rw [← hshared]
    exact hlodges.apart hne hstay hstay' hmemory
  · intro x hx e he
    exact ⟨hheld.backed e he, hheld.memoryOf?_ne_backing hx he⟩
  · intro x hx y hy hne
    exact hheld.memoryOf?_ne_of_frame_ne hx hy hne

/-- A run that does not end a frame keeps what the frame has. -/
theorem keepsFrame_of_performAll (hg : g.Reachable) {frame : Nat} {actions : List Action}
    (hends : ∀ action ∈ actions, action.ends frame = false)
    (hrun : g.performAll actions = .ok g') : g.KeepsFrame frame g' := by
  have hspares := spares_performAll hg.holdings hends hrun
  refine ⟨fun x hx hframe => ⟨(hspares.pool.mem_live_iff hframe).2 hx, ?_⟩, hspares.pool.blocks⟩
  obtain ⟨memory, hmemory⟩ := hg.holdings.tenant_located hx
  exact ⟨memory, hmemory, (hspares.located x hx hframe).trans hmemory⟩

/-- **Aliasing is safe.**  Whatever was done with a graph and whatever its device refused, after every
frame two transient resources share memory only if memory may be shared and their lifetimes are
disjoint; no transient resource shares memory with a persistent one, and the resources of different
frame indices share none.  What a frame index has it keeps through every run that neither executes a
frame of this index nor disposes of the graph. -/
theorem Reachable.aliasing_safe (hg : g.Reachable) (hindex : index < g.settings.framesInFlight)
    {ran : List Invocation} (hrun : (g.execute index).result = .ok (ran, g')) :
    g'.AliasesSafely index ∧
      ∀ (frame : Nat) (actions : List Action) (later : Graph),
        (∀ action ∈ actions, action.ends frame = false) → g'.performAll actions = .ok later →
          g'.KeepsFrame frame later := by
  have hreachable : g'.Reachable := .perform (.execute index) hg (by rw [Graph.perform, hrun]; rfl)
  obtain ⟨r, hok, -, rfl⟩ := (execute_eq_ok_iff hindex).1 hrun
  exact ⟨aliasesSafely_afterFrame hg hok, fun frame actions later hends hlater =>
    keepsFrame_of_performAll hreachable hends hlater⟩

/-- Three buffers are handed on from pass to pass. -/
def relay : List Action :=
  [.register (.importBuffer "out" 7 {} .undefined .undefined),
    .register (.markOutput "out"),
    .addPass ⟨"first", .compute,
      [.createBuffer "a" { size := 64 } false, .write "a" .shaderWrite], none⟩,
    .addPass ⟨"second", .compute,
      [.read "a" .shaderRead, .createBuffer "b" { size := 64 } false, .write "b" .shaderWrite], none⟩,
    .addPass ⟨"third", .compute,
      [.read "b" .shaderRead, .createBuffer "c" { size := 64 } false, .write "c" .shaderWrite], none⟩,
    .addPass ⟨"last", .compute, [.read "c" .shaderRead, .write "out" .shaderWrite], none⟩]

/-- The third buffer comes into the memory of the first. -/
theorem exists_relay :
    ∃ (g g' later : Graph) (ran : List Invocation),
      (Graph.empty {} {}).performAll relay = .ok g ∧ (g.execute 0).result = .ok (ran, g') ∧
        g'.performAll [.execute 1, .clear] = .ok later ∧ 0 < g.settings.framesInFlight ∧
        g'.registry.get? (.slot 1 0) =
          some ⟨"a", .buffer { size := 64 }, .internal false, false, some ⟨0, 1⟩⟩ ∧
        g'.registry.get? (.slot 3 0) =
          some ⟨"c", .buffer { size := 64 }, .internal false, false, some ⟨2, 3⟩⟩ ∧
        g'.objects.get? (.slot 1 0) = some (.buffer 1) ∧
        g'.objects.get? (.slot 3 0) = some (.buffer 3) ∧
        g'.device.memoryOf? (.buffer 1) = some (.slot 0 0) ∧
        g'.device.memoryOf? (.buffer 3) = some (.slot 0 0) := by
  have hrun : succeeds ((Graph.empty {} {}).performAll relay) (fun g =>
      succeeds (g.execute 0).result fun frame =>
        succeeds (frame.2.performAll [.execute 1, .clear]) fun _ =>
          decide (0 < g.settings.framesInFlight ∧
            frame.2.registry.get? (.slot 1 0) =
              some ⟨"a", .buffer { size := 64 }, .internal false, false, some ⟨0, 1⟩⟩ ∧
            frame.2.registry.get? (.slot 3 0) =
              some ⟨"c", .buffer { size := 64 }, .internal false, false, some ⟨2, 3⟩⟩ ∧
            frame.2.objects.get? (.slot 1 0) = some (.buffer 1) ∧
            frame.2.objects.get? (.slot 3 0) = some (.buffer 3) ∧
            frame.2.device.memoryOf? (.buffer 1) = some (.slot 0 0) ∧
            frame.2.device.memoryOf? (.buffer 3) = some (.slot 0 0))) = true := by
    cbv
  obtain ⟨g, hdeclared, hframe⟩ := exists_of_succeeds hrun
  obtain ⟨⟨ran, g'⟩, hexecuted, hlast⟩ := exists_of_succeeds hframe
  obtain ⟨later, hlater, hfacts⟩ := exists_of_succeeds hlast
  exact ⟨g, g', later, ran, hdeclared, hexecuted, hlater, of_decide_eq_true hfacts⟩

/-- The first and the third buffer are in the same memory, and stay there while another frame runs. -/
theorem aliasing_safe_relay :
    ∃ g' later : Graph,
      g'.device.memoryOf? (.buffer 1) = g'.device.memoryOf? (.buffer 3) ∧
        g'.settings.shareMemory = true ∧ Lifetime.Disjoint ⟨0, 1⟩ ⟨2, 3⟩ ∧
        g'.performAll [.execute 1, .clear] = .ok later ∧ g'.KeepsFrame 0 later := by
  obtain ⟨g, g', later, ran, hdeclared, hexecuted, hlater, hindex, hget, hget', hobject, hobject',
    hmemory, hmemory'⟩ := exists_relay
  have hg := reachable_of_performAll (.start {} {}) hdeclared
  obtain ⟨hsafe, hkeeps⟩ := hg.aliasing_safe hindex hexecuted
  have hsame := hmemory.trans hmemory'.symm
  have hne : Handle.slot 1 0 ≠ .slot 3 0 := by decide
  have hends : ∀ action ∈ [Action.execute 1, .clear], action.ends 0 = false := by decide
  obtain ⟨hshare, hdisjoint⟩ := hsafe.transients _ _ _ _ _ _ ⟨0, 1⟩ ⟨2, 3⟩ hne
    ⟨hget, rfl, hobject⟩ ⟨hget', rfl, hobject'⟩ rfl rfl hsame
  exact ⟨g', later, hsame, hshare, hdisjoint, hlater, hkeeps 0 _ later hends hlater⟩

end Graph

end FrameGraph
