import FrameGraph.Proofs.Frame.Backing
import FrameGraph.Proofs.Memory.Pool

/-!
# What a graph holds on its device

A graph holds memory through the blocks of its pool and through its backings, and objects in them.
`Holdings` says that no memory and no object is held twice, that all of it is there, and that every
object lies where it belongs.  What an operation does for one frame, it does not do to the others:
`Spares` says that their resources are left alone.

Principal statements: `Holdings.create`, `Holdings.recycle`, `Holdings.release`, and
`settles_resolveFrame`.
-/

set_option autoImplicit false

namespace FrameGraph

/-- What a graph holds is there, held once, and where it belongs. -/
structure Holdings (d : Device) (p : Pool) (b : Backings) : Prop where
  device : d.WellFormed
  names : b.Distinct
  memories : (p.blocks.map (·.memory) ++ b.entries.map (·.2.memory)).Nodup
  allocated : ∀ m ∈ p.blocks.map (·.memory) ++ b.entries.map (·.2.memory),
    d.memory.contains m = true
  numbers : (p.live.map (·.object.number) ++ b.entries.map (·.2.object.number)).Nodup
  tenants : ∀ x ∈ p.live, ∃ block ∈ p.blocks, block.frame = x.frame ∧
    d.memoryOf? x.object = some block.memory
  backed : ∀ e ∈ b.entries, d.memoryOf? e.2.object = some e.2.memory

/-- What an operation leaves alone: the resources of a frame, where they lie, and its blocks. -/
structure Spares (frame : Nat) (d : Device) (p : Pool) (d' : Device) (p' : Pool) : Prop where
  pool : p.Keeps frame p'
  located : ∀ x ∈ p.live, x.frame = frame → d'.memoryOf? x.object = d.memoryOf? x.object

namespace Spares

variable {frame : Nat} {d d' d'' : Device} {p p' p'' : Pool}

theorem refl (frame : Nat) (d : Device) (p : Pool) : Spares frame d p d p :=
  ⟨.refl frame p, fun _ _ _ => rfl⟩

theorem trans (h : Spares frame d p d' p') (h' : Spares frame d' p' d'' p'') :
    Spares frame d p d'' p'' :=
  ⟨h.pool.trans h'.pool,
    fun x hx hf => (h'.located x ((h.pool.mem_live_iff hf).2 hx) hf).trans (h.located x hx hf)⟩

end Spares

namespace Holdings

variable {d d' : Device} {p p' : Pool} {b : Backings}

/-- Who holds nothing holds nothing twice. -/
theorem nothing (hd : d.WellFormed) (shareMemory : Bool) : Holdings d { shareMemory } {} where
  device := hd
  names := List.nodup_nil
  memories := List.nodup_nil
  allocated := fun m hm => by cases hm
  numbers := List.nodup_nil
  tenants := fun x hx => by cases hx
  backed := fun e he => by cases he

theorem tenant_located (h : Holdings d p b) {x : LiveObject} (hx : x ∈ p.live) :
    ∃ m, d.memoryOf? x.object = some m := by
  obtain ⟨block, -, -, hm⟩ := h.tenants x hx
  exact ⟨block.memory, hm⟩

/-- The numbers in use are not above the last one. -/
theorem number_le (h : Holdings d p b) {n : Nat}
    (hn : n ∈ p.live.map (·.object.number) ++ b.entries.map (·.2.object.number)) :
    n ≤ d.lastObject := by
  rcases List.mem_append.1 hn with hn | hn
  · obtain ⟨x, hx, rfl⟩ := List.mem_map.1 hn
    obtain ⟨m, hm⟩ := h.tenant_located hx
    exact h.device.number_le hm
  · obtain ⟨e, he, rfl⟩ := List.mem_map.1 hn
    exact h.device.number_le (h.backed e he)

/-! ## Small changes -/

/-- Commands do not matter to what is held. -/
theorem withCommands (h : Holdings d p b) (commands : List Command) :
    Holdings { d with commands } p b where
  device := ⟨h.device.table, h.device.images, h.device.buffers⟩
  names := h.names
  memories := h.memories
  allocated := h.allocated
  numbers := h.numbers
  tenants := h.tenants
  backed := h.backed

/-- A device that keeps everything keeps what is held. -/
theorem grow (h : Holdings d p b) (hd : d'.WellFormed) (hgrows : d.Grows d') :
    Holdings d' p b where
  device := hd
  names := h.names
  memories := h.memories
  allocated := fun m hm => hgrows.memory m (h.allocated m hm)
  numbers := h.numbers
  tenants := fun x hx => by
    obtain ⟨block, hblock, hframe, hm⟩ := h.tenants x hx
    exact ⟨block, hblock, hframe, hgrows.memoryOf x.object block.memory hm⟩
  backed := fun e he => hgrows.memoryOf e.2.object e.2.memory (h.backed e he)

theorem spares_of_grows (h : Holdings d p b) (hgrows : d.Grows d') (frame : Nat) :
    Spares frame d p d' p := by
  refine ⟨.refl frame p, fun x hx _ => ?_⟩
  obtain ⟨m, hm⟩ := h.tenant_located hx
  rw [hm, hgrows.memoryOf x.object m hm]

/-- Blocks may change in everything but their places. -/
theorem of_places (h : Holdings d p b)
    (hplaces : p'.blocks.map MemoryBlock.place = p.blocks.map MemoryBlock.place)
    (hlive : p'.live = p.live) : Holdings d p' b := by
  have hmemories := Pool.memories_of_places hplaces
  refine ⟨h.device, h.names, hmemories ▸ h.memories, hmemories ▸ h.allocated, hlive ▸ h.numbers,
    fun x hx => ?_, h.backed⟩
  obtain ⟨block, hblock, hframe, hm⟩ := h.tenants x (hlive ▸ hx)
  obtain ⟨block', hblock', hplace⟩ := Pool.exists_of_places hplaces hblock
  have hmemory : block'.memory = block.memory := congrArg Prod.fst hplace
  exact ⟨block', hblock', (congrArg Prod.snd hplace).trans hframe, by rw [hm, hmemory]⟩

/-- Fresh memory becomes a block. -/
theorem addBlock (h : Holdings d p b) (hd : d'.WellFormed) (hgrows : d.Grows d') {memory : Handle}
    (hfresh : d.memory.contains memory = false) (hallocated : d'.memory.contains memory = true)
    (requirements : Requirements) (lifetime : Lifetime) (frame : Nat) :
    Holdings d' (p.addBlock memory requirements lifetime frame) b := by
  have hgrown := h.grow hd hgrows
  have hblocks : (p.addBlock memory requirements lifetime frame).blocks.map (·.memory) =
      p.blocks.map (·.memory) ++ [memory] := by
    rw [Pool.addBlock, List.map_append]
    rfl
  have hperm : ((p.addBlock memory requirements lifetime frame).blocks.map (·.memory) ++
      b.entries.map (·.2.memory)).Perm
        (memory :: (p.blocks.map (·.memory) ++ b.entries.map (·.2.memory))) := by
    rw [hblocks, List.append_assoc]
    exact List.perm_middle
  refine ⟨hd, h.names, hperm.nodup_iff.2 (List.nodup_cons.2 ⟨fun hmem => ?_, h.memories⟩),
    fun m hm => ?_, h.numbers, fun x hx => ?_, hgrown.backed⟩
  · rw [h.allocated memory hmem] at hfresh
    cases hfresh
  · rcases List.mem_cons.1 (hperm.mem_iff.1 hm) with rfl | hm
    · exact hallocated
    · exact hgrown.allocated m hm
  · obtain ⟨block, hblock, hplace⟩ := hgrown.tenants x hx
    exact ⟨block, List.mem_append_left _ hblock, hplace⟩

/-- A new object moves into a block of its frame. -/
theorem moveIn (h : Holdings d p b) (hd : d'.WellFormed) (hgrows : d.Grows d')
    {object : DeviceObject} {block : MemoryBlock} (hblock : block ∈ p.blocks)
    (hmemory : d'.memoryOf? object = some block.memory) (hnew : d.lastObject < object.number) :
    Holdings d' { p with live := p.live ++ [⟨object, block.frame⟩] } b := by
  have hgrown := h.grow hd hgrows
  have hperm : ((p.live ++ [(⟨object, block.frame⟩ : LiveObject)]).map (·.object.number) ++
      b.entries.map (·.2.object.number)).Perm
        (object.number :: (p.live.map (·.object.number) ++ b.entries.map (·.2.object.number))) := by
    rw [List.map_append, List.append_assoc]
    exact List.perm_middle
  refine ⟨hd, h.names, h.memories, hgrown.allocated,
    hperm.nodup_iff.2 (List.nodup_cons.2 ⟨fun hmem => ?_, h.numbers⟩), fun x hx => ?_,
    hgrown.backed⟩
  · have hle := h.number_le hmem
    omega
  · rcases List.mem_append.1 hx with hx | hx
    · exact hgrown.tenants x hx
    · rw [List.mem_singleton.1 hx]
      exact ⟨block, hblock, rfl, hmemory⟩

/-! ## Requests to the pool -/

theorem retire (h : Holdings d p b) (frame position : Nat) :
    Holdings d (p.retire frame position) b :=
  h.of_places (Pool.places_retire p frame position) (Pool.live_retire p frame position)

/-- Finding or adding a block disturbs nothing. -/
theorem prepare (h : Holdings d p b) {request : TransientRequest}
    (hprepared : p.Prepared d request p' d') : Holdings d' p' b ∧ d.Grows d' := by
  have hretired := h.retire request.frame request.lifetime.first
  cases hprepared with
  | reused => exact ⟨hretired, .refl d⟩
  | added hallocate =>
      obtain ⟨hd, hgrows, hmemory⟩ := h.device.allocate hallocate
      obtain ⟨hfresh, hallocated⟩ := hmemory _ rfl
      exact ⟨hretired.addBlock hd hgrows hfresh hallocated _ _ _, hgrows⟩

/-- **A request, served or not, keeps everything that is held.** -/
theorem create (h : Holdings d p b) {request : TransientRequest} {created : Option Placement}
    (hok : (p.create d request).result = .ok (created, p', d')) :
    Holdings d' p' b ∧ d.Grows d' := by
  obtain ⟨-, rfl, requirements, error, hallocate⟩ |
    ⟨base, middle, index, block, hprepared, hget, -, hframe, rfl, hresult⟩ := Pool.create_cases hok
  · obtain ⟨hd, hgrows, -⟩ := h.device.allocate hallocate
    exact ⟨(h.retire _ _).grow hd hgrows, hgrows⟩
  · obtain ⟨hbase, hgrowsBase⟩ := h.prepare hprepared
    obtain ⟨hd, hgrows, hobject⟩ :=
      hbase.device.create block.memory request.info.kind request.name
    refine ⟨?_, hgrowsBase.trans hgrows⟩
    obtain ⟨-, -, rfl⟩ | ⟨object, hcreated, -, rfl⟩ := hresult
    · refine (hbase.grow hd hgrows).of_places ?_ rfl
      exact Pool.places_updateBlock (by intro b; rfl) base index
    · obtain ⟨hmemory, hnew⟩ := hobject object hcreated
      have hmoved := hbase.moveIn hd hgrows (List.mem_of_getElem? hget) hmemory hnew
      rw [hframe] at hmoved
      refine hmoved.of_places ?_ rfl
      show (base.updateBlock index _).blocks.map MemoryBlock.place = _
      exact Pool.places_updateBlock (by intro b; rfl) base index

theorem spares_create (h : Holdings d p b) {request : TransientRequest}
    {created : Option Placement} (hok : (p.create d request).result = .ok (created, p', d'))
    {frame : Nat} (hne : request.frame ≠ frame) : Spares frame d p d' p' := by
  have hgrows := (h.create hok).2
  exact ⟨.create hne hok, (h.spares_of_grows hgrows frame).located⟩

/-! ## The beginning of a frame -/

/-- Objects that are not held any more can be destroyed. -/
theorem destroyAll {objects : List DeviceObject} (h : Holdings d p b)
    (hgone : ∀ n ∈ p.live.map (·.object.number) ++ b.entries.map (·.2.object.number),
      n ∉ objects.map DeviceObject.number) :
    Holdings (objects.foldl Device.destroy d) p b := by
  obtain ⟨hwell, hmemory, -, hothers⟩ := Device.destroyAll objects d
  refine ⟨hwell h.device, h.names, h.memories, fun m hm => ?_, h.numbers, fun x hx => ?_,
    fun e he => ?_⟩
  · rw [hmemory]
    exact h.allocated m hm
  · rw [hothers _ (hgone _ (List.mem_append_left _ (List.mem_map_of_mem hx)))]
    exact h.tenants x hx
  · have hmem : e.2.object.number ∈ b.entries.map (·.2.object.number) :=
      List.mem_map_of_mem (f := fun e : String × Backing => e.2.object.number) he
    rw [hothers _ (hgone _ (List.mem_append_right _ hmem))]
    exact h.backed e he

theorem foldl_destroy_object (ended : List LiveObject) (d : Device) :
    ended.foldl (fun device x => device.destroy x.object) d =
      (ended.map (·.object)).foldl Device.destroy d := by
  rw [List.foldl_map]

/-- The numbers of the live resources of a frame are not those of the others. -/
theorem number_not_mem_ended (h : Holdings d p b) (frame : Nat) :
    ∀ n ∈ (p.live.filter fun x => !decide (x.frame = frame)).map (·.object.number) ++
        b.entries.map (·.2.object.number),
      n ∉ ((p.live.filter fun x => x.frame = frame).map (·.object)).map DeviceObject.number := by
  have hperm : (p.live.map (·.object.number) ++ b.entries.map (·.2.object.number)).Perm
      ((p.live.filter fun x => x.frame = frame).map (·.object.number) ++
        ((p.live.filter fun x => !decide (x.frame = frame)).map (·.object.number) ++
          b.entries.map (·.2.object.number))) := by
    have hlive := (List.filter_append_perm (fun x => decide (x.frame = frame)) p.live).symm
    rw [← List.append_assoc, ← List.map_append]
    exact (hlive.map _).append_right _
  have hnd := hperm.nodup_iff.1 h.numbers
  intro n hn hended
  rw [List.map_map] at hended
  exact (List.nodup_append.1 hnd).2.2 n hended n hn rfl

/-- **A frame begins**: what it held ends, and everything else stays. -/
theorem recycle (h : Holdings d p b) (frame : Nat) :
    Holdings (p.recycle d frame).2 (p.recycle d frame).1 b := by
  have hgone := h.number_not_mem_ended frame
  unfold Pool.recycle
  rw [List.partition_eq_filter_filter]
  dsimp only
  rw [foldl_destroy_object]
  have hless : Holdings d { p with live := p.live.filter fun x => !decide (x.frame = frame) } b := by
    refine ⟨h.device, h.names, h.memories, h.allocated, ?_, fun x hx => ?_, h.backed⟩
    · exact h.numbers.sublist ((List.filter_sublist.map _).append_right _)
    · exact h.tenants x (List.mem_filter.1 hx).1
  have hvacated : Holdings d
      { p with
        live := p.live.filter fun x => !decide (x.frame = frame)
        blocks := p.blocks.map fun b =>
          if b.frame = frame then { b with reserved := false, tenant := none } else b } b := by
    refine hless.of_places ?_ rfl
    rw [List.map_map]
    refine List.map_congr_left fun b _ => ?_
    dsimp only [Function.comp]
    split <;> rfl
  exact hvacated.destroyAll hgone

theorem spares_recycle (h : Holdings d p b) {other frame : Nat} (hne : other ≠ frame) :
    Spares frame d p (p.recycle d other).2 (p.recycle d other).1 := by
  have hgone := h.number_not_mem_ended other
  refine ⟨.recycle hne p d, fun x hx hf => ?_⟩
  unfold Pool.recycle
  rw [List.partition_eq_filter_filter]
  dsimp only
  rw [foldl_destroy_object]
  refine (Device.destroyAll _ d).2.2.2 x.object (hgone _ (List.mem_append_left _ ?_))
  refine List.mem_map_of_mem (f := (·.object.number)) (List.mem_filter.2 ⟨hx, ?_⟩)
  simp [hf, Ne.symm hne]

/-! ## Backings -/

/-- Backings that are forgotten are not held any more. -/
theorem forget (h : Holdings d p b) {kept : List (String × Backing)}
    (hkept : kept.Sublist b.entries) : Holdings d p ⟨kept⟩ where
  device := h.device
  names := h.names.sublist (hkept.map _)
  memories := h.memories.sublist ((hkept.map _).append_left _)
  allocated := fun m hm => h.allocated m (((hkept.map _).append_left _).subset hm)
  numbers := h.numbers.sublist ((hkept.map _).append_left _)
  tenants := h.tenants
  backed := fun e he => h.backed e (hkept.subset he)

theorem of_perm (h : Holdings d p b) {entries : List (String × Backing)}
    (hperm : entries.Perm b.entries) : Holdings d p ⟨entries⟩ where
  device := h.device
  names := (hperm.map _).nodup_iff.2 h.names
  memories := ((hperm.map _).append_left _).nodup_iff.2 h.memories
  allocated := fun m hm => h.allocated m (((hperm.map _).append_left _).mem_iff.1 hm)
  numbers := ((hperm.map _).append_left _).nodup_iff.2 h.numbers
  tenants := h.tenants
  backed := fun e he => h.backed e (hperm.mem_iff.1 he)

/-- What is behind one persistent resource is given up. -/
theorem release_one {e : String × Backing} {rest : List (String × Backing)}
    (h : Holdings d p ⟨e :: rest⟩) :
    Holdings (e.2.release d) p ⟨rest⟩ ∧ ∀ frame, Spares frame d p (e.2.release d) p := by
  have hless := h.forget (List.sublist_cons_self e rest)
  have hmemory : e.2.memory ∉ p.blocks.map (·.memory) ++ rest.map (·.2.memory) := by
    have hperm : (p.blocks.map (·.memory) ++ (e :: rest).map (·.2.memory)).Perm
        (e.2.memory :: (p.blocks.map (·.memory) ++ rest.map (·.2.memory))) := List.perm_middle
    exact (List.nodup_cons.1 (hperm.nodup_iff.1 h.memories)).1
  have hnumber : e.2.object.number ∉
      p.live.map (·.object.number) ++ rest.map (·.2.object.number) := by
    have hperm : (p.live.map (·.object.number) ++ (e :: rest).map (·.2.object.number)).Perm
        (e.2.object.number :: (p.live.map (·.object.number) ++ rest.map (·.2.object.number))) :=
      List.perm_middle
    exact (List.nodup_cons.1 (hperm.nodup_iff.1 h.numbers)).1
  have hothers : ∀ object : DeviceObject,
      object.number ∈ p.live.map (·.object.number) ++ rest.map (·.2.object.number) →
        (e.2.release d).memoryOf? object = d.memoryOf? object := by
    intro object hmem
    rw [Backing.release, Device.memoryOf?_free]
    exact Device.memoryOf?_destroy d fun heq => hnumber (heq ▸ hmem)
  refine ⟨⟨(h.device.destroy _).free _, hless.names, hless.memories, fun m hm => ?_, hless.numbers,
    fun x hx => ?_, fun e' he' => ?_⟩, fun frame => ⟨.refl frame p, fun x hx _ => ?_⟩⟩
  · have hne : e.2.memory ≠ m := by
      rintro rfl
      exact hmemory hm
    rw [Backing.release, Device.contains_free _ hne, Device.memory_destroy]
    exact hless.allocated m hm
  · rw [hothers _ (List.mem_append_left _ (List.mem_map_of_mem hx))]
    exact hless.tenants x hx
  · have hmem : e'.2.object.number ∈ rest.map (·.2.object.number) :=
      List.mem_map_of_mem (f := fun e : String × Backing => e.2.object.number) he'
    rw [hothers _ (List.mem_append_right _ hmem)]
    exact hless.backed e' he'
  · exact hothers _ (List.mem_append_left _ (List.mem_map_of_mem hx))

/-- **Backings are given up**, and everything else stays. -/
theorem release {stale kept : List (String × Backing)} (h : Holdings d p ⟨stale ++ kept⟩) :
    Holdings (stale.foldl (fun device e => e.2.release device) d) p ⟨kept⟩ ∧
      ∀ frame, Spares frame d p (stale.foldl (fun device e => e.2.release device) d) p := by
  induction stale generalizing d with
  | nil => exact ⟨h, fun frame => .refl frame d p⟩
  | cons e stale ih =>
      obtain ⟨hone, hspares⟩ := h.release_one
      obtain ⟨hrest, hspares'⟩ := ih hone
      exact ⟨hrest, fun frame => (hspares frame).trans (hspares' frame)⟩

theorem commands_release (stale : List (String × Backing)) (d : Device) :
    (stale.foldl (fun device e => e.2.release device) d).commands = d.commands := by
  induction stale generalizing d with
  | nil => rfl
  | cons e stale ih =>
      rw [List.foldl_cons, ih, Backing.release, Device.commands_free, Device.commands_destroy]

theorem releaseStale (h : Holdings d p b) (registry : Registry) :
    Holdings (b.releaseStale registry d).value.2 p (b.releaseStale registry d).value.1 ∧
      ∀ frame, Spares frame d p (b.releaseStale registry d).value.2 p := by
  rw [Backings.releaseStale, List.partition_eq_filter_filter]
  refine release (h.of_perm ?_)
  exact List.perm_append_comm.trans (List.filter_append_perm _ _)

/-- A new backing, in memory of its own. -/
theorem keep (h : Holdings d p b) (hd : d'.WellFormed) (hgrows : d.Grows d') {name : String}
    (hname : name ∉ b.entries.map (·.1)) {backing : Backing}
    (hfresh : d.memory.contains backing.memory = false)
    (hallocated : d'.memory.contains backing.memory = true)
    (hmemory : d'.memoryOf? backing.object = some backing.memory)
    (hnew : d.lastObject < backing.object.number) :
    Holdings d' p ⟨b.entries ++ [(name, backing)]⟩ := by
  have hgrown := h.grow hd hgrows
  have hback : (b.entries ++ [(name, backing)]).Perm ((name, backing) :: b.entries) :=
    List.perm_append_comm
  have hmemories : (p.blocks.map (·.memory) ++
      (b.entries ++ [(name, backing)]).map (·.2.memory)).Perm
        (backing.memory :: (p.blocks.map (·.memory) ++ b.entries.map (·.2.memory))) :=
    ((hback.map _).append_left _).trans List.perm_middle
  have hnumbers : (p.live.map (·.object.number) ++
      (b.entries ++ [(name, backing)]).map (·.2.object.number)).Perm
        (backing.object.number ::
          (p.live.map (·.object.number) ++ b.entries.map (·.2.object.number))) :=
    ((hback.map _).append_left _).trans List.perm_middle
  refine ⟨hd, ?_, ?_, fun m hm => ?_, ?_, hgrown.tenants, fun e he => ?_⟩
  · exact ((hback.map _).nodup_iff).2 (List.nodup_cons.2 ⟨hname, h.names⟩)
  · refine hmemories.nodup_iff.2 (List.nodup_cons.2 ⟨fun hmem => ?_, h.memories⟩)
    rw [h.allocated _ hmem] at hfresh
    cases hfresh
  · rcases List.mem_cons.1 (hmemories.mem_iff.1 hm) with rfl | hm
    · exact hallocated
    · exact hgrown.allocated m hm
  · refine hnumbers.nodup_iff.2 (List.nodup_cons.2 ⟨fun hmem => ?_, h.numbers⟩)
    have hle := h.number_le hmem
    omega
  · rcases List.mem_append.1 he with he | he
    · exact hgrown.backed e he
    · rw [List.mem_singleton.1 he]
      exact hmemory

end Holdings

/-- **Creating a backing disturbs nothing**, whether it succeeds or not. -/
theorem makeBacking_spec {d d' : Device} (hd : d.WellFormed) {resource : Resource}
    {created : Except DeviceError Backing}
    (hok : makeBacking d resource = .ok (created, d')) :
    d'.WellFormed ∧ d.Grows d' ∧ ∀ backing, created = .ok backing →
      d.memory.contains backing.memory = false ∧ d'.memory.contains backing.memory = true ∧
        d'.memoryOf? backing.object = some backing.memory ∧
        d.lastObject < backing.object.number := by
  obtain ⟨requirements, -, ⟨error, hallocate, rfl⟩ | ⟨memory, middle, hallocate, hcreated⟩⟩ :=
    makeBacking_cases hok
  · obtain ⟨hd', hgrows, -⟩ := hd.allocate hallocate
    exact ⟨hd', hgrows, fun backing h => by cases h⟩
  · obtain ⟨hmiddle, hgrows, hmemory⟩ := hd.allocate hallocate
    obtain ⟨hfresh, hallocated⟩ := hmemory memory rfl
    obtain ⟨hcreate, hgrows', hobject⟩ := hmiddle.create memory resource.kind resource.name
    have hboth := hgrows.trans hgrows'
    obtain ⟨error, -, rfl, rfl⟩ | ⟨object, hnewObject, rfl, rfl⟩ := hcreated
    · -- The memory is given back, which was not in use before.
      refine ⟨hcreate.free memory, ⟨fun object m hm => ?_, fun m hm => ?_, hboth.lastObject,
        hboth.commands⟩, fun backing h => by cases h⟩
      · rw [Device.memoryOf?_free]
        exact hboth.memoryOf object m hm
      · have hne : memory ≠ m := by
          rintro rfl
          rw [hm] at hfresh
          cases hfresh
        rw [Device.contains_free _ hne]
        exact hboth.memory m hm
    · refine ⟨hcreate, hboth, fun backing h => ?_⟩
      cases h
      obtain ⟨hlies, hnew⟩ := hobject object hnewObject
      exact ⟨hfresh, hgrows'.memory memory hallocated, hlies,
        Nat.lt_of_le_of_lt hgrows.lastObject hnew⟩

/-! ## Resolving a frame -/

namespace Resolution

variable {r r' : Resolution} {h : Handle} {resource : Resource}

/-- What the resource is told about its memory: the state in which the one before left it. -/
def inheritance (table : UsageTable) (placement : Placement) : Option ImageState :=
  placement.previous.bind fun previous => (table.get? previous).bind Timeline.lastAccess

/-- What adding a transient resource does. -/
theorem addTransient_cases {index : Nat} {table : UsageTable} {lifetime : Lifetime}
    (hok : (addTransient index table r (h, resource, lifetime)).result = .ok r') :
    ∃ created,
      (r.pool.create r.device
        { handle := h, info := resource.info, name := resource.name, lifetime,
          frame := index }).result = .ok (created, r'.pool, r'.device) ∧
      r'.backings = r.backings ∧
      (r'.frame.objects =
        match created with
        | none => r.frame.objects
        | some placement => r.frame.objects.insert h placement.object) ∧
      r'.frame.inherited =
        match created.bind (inheritance table) with
        | none => r.frame.inherited
        | some state => r.frame.inherited.insert h state := by
  obtain ⟨⟨created, pool, device⟩, hcreate, hok⟩ := Outcome.result_bind_eq_ok_iff.1 hok
  cases created with
  | none =>
      cases hok
      exact ⟨none, hcreate, rfl, rfl, rfl⟩
  | some placement =>
      refine ⟨some placement, ?_⟩
      have hbind : (some placement).bind (inheritance table) = inheritance table placement := rfl
      rw [hbind]
      cases htold : inheritance table placement with
      | none =>
          unfold inheritance at htold
          simp only [htold] at hok
          cases hok
          exact ⟨hcreate, rfl, rfl, rfl⟩
      | some state =>
          unfold inheritance at htold
          simp only [htold] at hok
          cases hok
          exact ⟨hcreate, rfl, rfl, rfl⟩

/-- What a step for a frame keeps: what is held, the resources of the other frames, and what is
recorded. -/
structure Settles (index : Nat) (r r' : Resolution) : Prop where
  holdings : Holdings r'.device r'.pool r'.backings
  spares : ∀ frame, index ≠ frame → Spares frame r.device r.pool r'.device r'.pool
  commands : r'.device.commands = r.device.commands

theorem Settles.refl (index : Nat) (hr : Holdings r.device r.pool r.backings) :
    Settles index r r :=
  ⟨hr, fun frame _ => .refl frame r.device r.pool, rfl⟩

theorem Settles.trans {index : Nat} {r'' : Resolution} (h : Settles index r r')
    (h' : Settles index r' r'') : Settles index r r'' :=
  ⟨h'.holdings, fun frame hne => (h.spares frame hne).trans (h'.spares frame hne),
    h'.commands.trans h.commands⟩

section Steps

variable (index : Nat) (hr : Holdings r.device r.pool r.backings)

include hr

theorem settles_addObject (object : DeviceObject) :
    Settles index r (r.addObject h object) :=
  ⟨hr, fun frame _ => .refl frame r.device r.pool, rfl⟩

theorem settles_addNew
    (hok : (r.addNew h resource).result = .ok r') : Settles index r r' := by
  obtain ⟨hpool, ⟨backing, hmake, hbackings, -⟩ | ⟨error, hmake, hbackings, -⟩⟩ :=
    addNew_cases hok
  · obtain ⟨hd, hgrows, hbacking⟩ := makeBacking_spec hr.device hmake
    obtain ⟨hfresh, hallocated, hmemory, hnew⟩ := hbacking backing rfl
    have herased := hr.forget (List.filter_sublist (p := fun e => e.1 ≠ resource.name))
    refine ⟨?_, fun frame _ => ?_, hgrows.commands⟩
    · rw [hpool, hbackings]
      exact herased.keep hd hgrows (Backings.name_not_mem_erase _ _) hfresh hallocated hmemory hnew
    · rw [hpool]
      exact hr.spares_of_grows hgrows frame
  · obtain ⟨hd, hgrows, -⟩ := makeBacking_spec hr.device hmake
    refine ⟨?_, fun frame _ => ?_, hgrows.commands⟩
    · rw [hpool, hbackings]
      exact hr.grow hd hgrows
    · rw [hpool]
      exact hr.spares_of_grows hgrows frame

/-- **A persistent resource is added**, perhaps in place of an old one. -/
theorem settles_addPersistent
    (hok : (r.addPersistent h resource).result = .ok r') : Settles index r r' := by
  obtain ⟨backing, -, -, rfl⟩ | ⟨-, base, hbase, hnew⟩ := addPersistent_cases hok
  · exact settles_addObject index hr backing.object
  · have hsettles : Settles index r base := by
      obtain rfl | ⟨old, hold, rfl⟩ := hbase
      · exact .refl index hr
      · obtain ⟨hreleased, hspares⟩ := (hr.of_perm (hr.names.perm_erase hold)).release_one
        refine ⟨hreleased, fun frame _ => hspares frame, ?_⟩
        show (old.release r.device).commands = _
        rw [Backing.release, Device.commands_free, Device.commands_destroy]
    exact hsettles.trans (settles_addNew index hsettles.holdings hnew)

theorem settles_addKept {entry : Handle × Resource}
    (hok : (r.addKept entry).result = .ok r') : Settles index r r' := by
  obtain ⟨k, resource⟩ := entry
  unfold addKept at hok
  dsimp only at hok
  split at hok
  · cases hok
    exact settles_addObject index hr _
  · split at hok
    · exact settles_addPersistent index hr hok
    · cases hok
      exact .refl index hr
  · cases hok
    exact .refl index hr

theorem settles_addTransient {table : UsageTable} {entry : Handle × Resource × Lifetime}
    (hok : (addTransient index table r entry).result = .ok r') : Settles index r r' := by
  obtain ⟨k, resource, lifetime⟩ := entry
  obtain ⟨created, hcreate, hbackings, -⟩ := addTransient_cases hok
  obtain ⟨hholdings, hgrows⟩ := hr.create hcreate
  refine ⟨by rw [hbackings]; exact hholdings, fun frame hne => ?_, hgrows.commands⟩
  exact hr.spares_create hcreate hne

theorem settles_keepAll {entries : List (Handle × Resource)}
    (hok : (entries.foldlM addKept r).result = .ok r') : Settles index r r' := by
  refine Outcome.foldlM_induction (I := fun _ (x : Resolution) => Settles index r x) ?_
    (.refl index hr) hok
  intro entry rest x x' hx hstep
  exact hx.trans (settles_addKept index hx.holdings hstep)

theorem settles_transients {table : UsageTable} {entries : List (Handle × Resource × Lifetime)}
    (hok : (entries.foldlM (addTransient index table) r).result = .ok r') :
    Settles index r r' := by
  refine Outcome.foldlM_induction (I := fun _ (x : Resolution) => Settles index r x) ?_
    (.refl index hr) hok
  intro entry rest x x' hx hstep
  exact hx.trans (settles_addTransient index hx.holdings hstep)

end Steps

end Resolution

/-- **Resolving a frame keeps what is held and leaves the other frames alone.** -/
theorem settles_resolveFrame {index : Nat} {registry : Registry} {table : UsageTable}
    {start r : Resolution} (hstart : Holdings start.device start.pool start.backings)
    (hok : (resolveFrame index registry table start).result = .ok r) :
    Resolution.Settles index start r := by
  obtain ⟨kept, hkept, htransients⟩ := Outcome.result_bind_eq_ok_iff.1 hok
  have hmid := Resolution.settles_keepAll index hstart hkept
  exact hmid.trans (Resolution.settles_transients index hmid.holdings htransients)

end FrameGraph
