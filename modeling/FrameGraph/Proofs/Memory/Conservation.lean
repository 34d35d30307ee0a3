import FrameGraph.Proofs.Memory.Ledger
import FrameGraph.Proofs.Memory.Reachable

/-!
# What a graph creates is given up once

A graph holds the memory of its blocks and of its backings, and the objects in them.  This list is its
ledger with the device: every step of a frame, whatever the device refuses, keeps the list of what is
held equal to what is there.

Principal statement: `Graph.Reachable.conserved`.
-/

set_option autoImplicit false

namespace FrameGraph

open Device (Ledger Turnover)

/-! ## What is held -/

/-- What a pool holds: the memory of its blocks, and its live resources. -/
def Pool.things (p : Pool) : List Disposal :=
  (p.blocks.map (·.memory)).map .memory ++ p.live.map (·.object.disposal)

/-- What is held for a persistent resource: an object and its memory. -/
def Backing.things (b : Backing) : List Disposal := [b.object.disposal, .memory b.memory]

/-- What is held for all persistent resources. -/
def Backings.things (b : Backings) : List Disposal := b.entries.flatMap fun entry => entry.2.things

theorem Backing.turnover_release {b : Backing} {d : Device} {held : List Disposal}
    (h : d.Ledger (b.things ++ held)) : Turnover d (b.things ++ held) (b.release d) held :=
  have hdestroyed := Turnover.destroy h
  hdestroyed.trans (.free hdestroyed.ledger)

/-- Destroying resources one after another. -/
theorem turnover_destroyAll {resources : List LiveObject} {d : Device} {held : List Disposal}
    (h : d.Ledger (resources.map (·.object.disposal) ++ held)) :
    Turnover d (resources.map (·.object.disposal) ++ held)
      (resources.foldl (fun device x => device.destroy x.object) d) held := by
  rw [List.map_eq_flatMap] at h ⊢
  exact .foldl (fun _ _ _ h => .destroy h) h

/-- Releasing backings one after another. -/
theorem turnover_releaseAll {entries : List (String × Backing)} {d : Device} {held : List Disposal}
    (h : d.Ledger (entries.flatMap (fun entry => entry.2.things) ++ held)) :
    Turnover d (entries.flatMap (fun entry => entry.2.things) ++ held)
      (entries.foldl (fun device entry => entry.2.release device) d) held :=
  .foldl (fun _ _ _ h => Backing.turnover_release h) h

/-! ## The pool -/

namespace Pool

variable {p p' : Pool} {d d' : Device} {rest : List Disposal} {request : TransientRequest}

theorem things_congr (hmemories : p'.blocks.map (·.memory) = p.blocks.map (·.memory))
    (hlive : p'.live = p.live) : p'.things = p.things := by
  unfold things
  rw [hmemories, hlive]

theorem things_retire (p : Pool) (frame position : Nat) : (p.retire frame position).things = p.things :=
  things_congr (memories_of_places (places_retire p frame position)) (live_retire p frame position)

theorem things_updateBlock {f : MemoryBlock → MemoryBlock} (hf : ∀ b, (f b).place = b.place)
    (p : Pool) (index : Nat) : (p.updateBlock index f).things = p.things :=
  things_congr (memories_of_places (places_updateBlock hf p index)) rfl

theorem things_addBlock (p : Pool) (memory : Handle) (requirements : Requirements)
    (lifetime : Lifetime) (frame : Nat) :
    (p.addBlock memory requirements lifetime frame).things.Perm (.memory memory :: p.things) := by
  unfold things addBlock
  simp only [List.map_append, List.map_cons, List.map_nil, List.append_assoc]
  exact List.perm_middle

theorem things_moveIn (p : Pool) (object : DeviceObject) (frame : Nat) :
    ({ p with live := p.live ++ [⟨object, frame⟩] } : Pool).things.Perm
      (object.disposal :: p.things) := by
  unfold things
  simp only [List.map_append, List.map_cons, List.map_nil]
  exact (List.perm_append_comm.append_left _).trans List.perm_middle

theorem turnover_prepare (h : d.Ledger (p.things ++ rest))
    (hprepared : p.Prepared d request p' d') :
    Turnover d (p.things ++ rest) d' (p'.things ++ rest) := by
  cases hprepared with
  | reused =>
      rw [things_retire]
      exact .refl h
  | @added requirements memory _ hallocate =>
      have hgranted := Turnover.allocate h hallocate
      have hadded := things_addBlock (p.retire request.frame request.lifetime.first) memory
        requirements request.lifetime request.frame
      rw [things_retire] at hadded
      exact hgranted.regroup_right (hadded.symm.append_right rest)

/-- **A request, served or not, keeps the ledger in order.** -/
theorem turnover_create (h : d.Ledger (p.things ++ rest)) {created : Option Placement}
    (hok : (p.create d request).result = .ok (created, p', d')) :
    Turnover d (p.things ++ rest) d' (p'.things ++ rest) := by
  obtain ⟨-, rfl, requirements, error, hallocate⟩ |
    ⟨base, middle, index, block, hprepared, -, -, -, rfl, hresult⟩ := create_cases hok
  · rw [things_retire]
    exact Turnover.allocate h hallocate
  · have hbase := turnover_prepare h hprepared
    have hcreate := Turnover.create hbase.ledger block.memory request.info.kind request.name
    obtain ⟨-, ⟨error, hrefused⟩, rfl⟩ | ⟨object, hobject, -, rfl⟩ := hresult
    · have hupdated := things_updateBlock (f := fun b =>
        { b with reserved := false, lifetime := request.lifetime }) (fun _ => rfl) base index
      rw [hrefused] at hcreate
      rw [hupdated]
      exact hbase.trans hcreate
    · have hupdated := things_updateBlock (f := fun b =>
        { b with reserved := true, lifetime := request.lifetime, tenant := some request.handle })
        (fun _ => rfl) base index
      have hmoved := things_moveIn (base.updateBlock index fun b =>
        { b with reserved := true, lifetime := request.lifetime, tenant := some request.handle })
        object request.frame
      rw [hobject] at hcreate
      rw [hupdated] at hmoved
      exact (hbase.trans hcreate).regroup_right (hmoved.symm.append_right rest)

theorem live_recycle (p : Pool) (d : Device) (frame : Nat) :
    (p.recycle d frame).1.live = p.live.filter fun x => !decide (x.frame = frame) := by
  unfold recycle
  rw [List.partition_eq_filter_filter]
  rfl

theorem memories_recycle (p : Pool) (d : Device) (frame : Nat) :
    (p.recycle d frame).1.blocks.map (·.memory) = p.blocks.map (·.memory) := by
  unfold recycle
  rw [List.partition_eq_filter_filter]
  dsimp only
  rw [List.map_map]
  refine List.map_congr_left fun b _ => ?_
  dsimp only [Function.comp]
  split
  · rfl
  · rfl

theorem device_recycle (p : Pool) (d : Device) (frame : Nat) :
    (p.recycle d frame).2 =
      (p.live.filter fun x => x.frame = frame).foldl (fun device x => device.destroy x.object) d := by
  unfold recycle
  rw [List.partition_eq_filter_filter]

/-- The resources of a frame index end. -/
theorem turnover_recycle (h : d.Ledger (p.things ++ rest)) (frame : Nat) :
    Turnover d (p.things ++ rest) (p.recycle d frame).2 ((p.recycle d frame).1.things ++ rest) := by
  have hlive := (List.filter_append_perm (fun x : LiveObject => decide (x.frame = frame)) p.live).map
    (·.object.disposal)
  rw [List.map_append] at hlive
  have hsplit : (p.things ++ rest).Perm
      ((p.live.filter fun x => x.frame = frame).map (·.object.disposal) ++
        ((p.recycle d frame).1.things ++ rest)) := by
    unfold things
    rw [memories_recycle, live_recycle]
    set memories := (p.blocks.map (·.memory)).map Disposal.memory
    set ended := (p.live.filter fun x => x.frame = frame).map (·.object.disposal)
    set kept := (p.live.filter fun x => !decide (x.frame = frame)).map (·.object.disposal)
    calc memories ++ p.live.map (·.object.disposal) ++ rest
      List.Perm _ (memories ++ (ended ++ kept) ++ rest) := (hlive.symm.append_left _).append_right rest
      _ = memories ++ ended ++ (kept ++ rest) := by simp only [List.append_assoc]
      List.Perm _ (ended ++ memories ++ (kept ++ rest)) := List.perm_append_comm.append_right _
      _ = ended ++ (memories ++ kept ++ rest) := by simp only [List.append_assoc]
  have hdestroyed := turnover_destroyAll (h.perm hsplit)
  rw [device_recycle]
  exact (Turnover.regroup h hsplit).trans hdestroyed

/-- The pool gives everything up. -/
theorem turnover_release (h : d.Ledger (p.things ++ rest)) :
    Turnover d (p.things ++ rest) (p.release d).2 rest := by
  have hsplit : (p.things ++ rest).Perm
      (p.live.map (·.object.disposal) ++ ((p.blocks.map (·.memory)).map .memory ++ rest)) := by
    unfold things
    rw [← List.append_assoc]
    exact List.perm_append_comm.append_right _
  have hdestroyed := turnover_destroyAll (h.perm hsplit)
  refine ((Turnover.regroup h hsplit).trans hdestroyed).trans ?_
  have hheld := hdestroyed.ledger
  rw [List.map_map, List.map_eq_flatMap] at hheld ⊢
  exact .foldl (fun _ _ _ h => .free h) hheld

end Pool

/-! ## Backings -/

section Backing

variable {d d' : Device} {held : List Disposal}

/-- **Creating a backing keeps the ledger in order**, whether it succeeds or not: if the object is
refused, the memory is given back. -/
theorem turnover_makeBacking (h : d.Ledger held) {resource : Resource}
    {created : Except DeviceError Backing} (hok : makeBacking d resource = .ok (created, d')) :
    Turnover d held d' (Turnover.answered Backing.things created ++ held) := by
  obtain ⟨requirements, -, ⟨error, hallocate, rfl⟩ | ⟨memory, middle, hallocate, hcreated⟩⟩ :=
    makeBacking_cases hok
  · exact Turnover.allocate h hallocate
  · have hgranted := Turnover.allocate h hallocate
    have hcreate := Turnover.create hgranted.ledger memory resource.kind resource.name
    obtain ⟨error, hrefused, rfl, rfl⟩ | ⟨object, hobject, rfl, rfl⟩ := hcreated
    · rw [hrefused] at hcreate
      exact (hgranted.trans hcreate).trans (.free hcreate.ledger)
    · rw [hobject] at hcreate
      exact hgranted.trans hcreate

namespace Backings

theorem things_perm {b b' : Backings} (h : b.entries.Perm b'.entries) : b.things.Perm b'.things :=
  h.flatMap_right _

/-- What is stored under a free name is added. -/
theorem things_insert {b : Backings} {name : String} (hfree : b.get? name = none)
    (backing : Backing) : (b.insert name backing).things.Perm (backing.things ++ b.things) := by
  have hkept : (b.erase name).entries = b.entries := by
    refine List.filter_eq_self.2 fun entry hentry => ?_
    have hne := List.lookup_eq_none_iff.1 hfree entry hentry
    refine decide_eq_true fun heq => ?_
    rw [heq] at hne
    simp at hne
  unfold things insert
  rw [hkept]
  refine (List.perm_append_comm.flatMap_right _).trans ?_
  simp

/-- The backings that are no longer declared are given up. -/
theorem turnover_releaseStale {b : Backings} (registry : Registry)
    (h : d.Ledger (held ++ b.things)) :
    Turnover d (held ++ b.things) (b.releaseStale registry d).value.2
      (held ++ (b.releaseStale registry d).value.1.things) := by
  rw [Backings.releaseStale, List.partition_eq_filter_filter]
  have hentries := List.filter_append_perm
    (fun entry : String × Backing => isDeclared registry entry.1 entry.2) b.entries
  have hsplit := (List.perm_append_comm.trans hentries).symm.flatMap_right
    fun entry => entry.2.things
  rw [List.flatMap_append] at hsplit
  have hheld := (hsplit.append_left held).trans (List.perm_append_comm_assoc _ _ _)
  exact (Turnover.regroup h hheld).trans (turnover_releaseAll (h.perm hheld))

end Backings

end Backing

/-! ## Resolving a frame -/

namespace Resolution

/-- What is held while a frame is resolved. -/
def things (r : Resolution) : List Disposal := r.pool.things ++ r.backings.things

/-- The ledger is in order before and after a step. -/
def Turns (r r' : Resolution) : Prop := Turnover r.device r.things r'.device r'.things

variable {r r' : Resolution} {h : Handle} {resource : Resource}

theorem turns_addNew (hr : r.device.Ledger r.things) (hfree : r.backings.get? resource.name = none)
    (hok : (r.addNew h resource).result = .ok r') : Turns r r' := by
  unfold Turns things
  obtain ⟨hpool, ⟨backing, hmake, hbackings, -⟩ | ⟨error, hmake, hbackings, -⟩⟩ := addNew_cases hok
  · have hmade := turnover_makeBacking hr hmake
    have hstored := Backings.things_insert hfree backing
    rw [hpool, hbackings]
    refine hmade.regroup_right ?_
    refine (List.perm_append_comm_assoc _ _ _).trans ?_
    exact hstored.symm.append_left _
  · rw [hpool, hbackings]
    exact turnover_makeBacking hr hmake

/-- **A persistent resource is added**: what was behind it before is given up if it does not fit. -/
theorem turns_addPersistent (hr : r.device.Ledger r.things) (hnames : r.backings.Distinct)
    (hok : (r.addPersistent h resource).result = .ok r') : Turns r r' := by
  unfold addPersistent at hok
  split at hok
  · next hfree => exact turns_addNew hr hfree hok
  · next old hold =>
      split at hok
      · cases hok
        exact .refl hr
      · have hsplit : r.things.Perm
            (old.things ++ (r.pool.things ++ (r.backings.erase resource.name).things)) := by
          have hentries := Backings.things_perm (b := ⟨(resource.name, old) :: _⟩)
            (hnames.perm_erase hold)
          refine (hentries.symm.append_left r.pool.things).trans ?_
          exact List.perm_append_comm_assoc _ _ _
        have hreleased := Backing.turnover_release (hr.perm hsplit)
        have hnew := turns_addNew hreleased.ledger (Backings.get?_erase_self ..) hok
        exact ((Turnover.regroup hr hsplit).trans hreleased).trans hnew

theorem turns_addKept (hr : r.device.Ledger r.things) (hnames : r.backings.Distinct)
    {entry : Handle × Resource} (hok : (r.addKept entry).result = .ok r') : Turns r r' := by
  unfold addKept at hok
  dsimp only at hok
  split at hok
  · cases hok
    exact .refl hr
  · split at hok
    · exact turns_addPersistent hr hnames hok
    · cases hok
      exact .refl hr
  · cases hok
    exact .refl hr

theorem turns_addTransient {index : Nat} {table : UsageTable} (hr : r.device.Ledger r.things)
    {entry : Handle × Resource × Lifetime}
    (hok : (addTransient index table r entry).result = .ok r') : Turns r r' := by
  obtain ⟨k, resource, lifetime⟩ := entry
  obtain ⟨created, hcreate, hbackings, -⟩ := addTransient_cases hok
  unfold Turns things
  rw [hbackings]
  exact Pool.turnover_create hr hcreate

end Resolution

/-- **Resolving a frame keeps the ledger in order**, whatever the device refuses. -/
theorem turns_resolveFrame {index : Nat} {registry : Registry} {table : UsageTable}
    {start r : Resolution} (hstart : start.device.Ledger start.things)
    (hheld : Holdings start.device start.pool start.backings)
    (hok : (resolveFrame index registry table start).result = .ok r) : start.Turns r := by
  obtain ⟨kept, hkept, htransients⟩ := Outcome.result_bind_eq_ok_iff.1 hok
  have hmiddle : start.Turns kept := by
    refine (Outcome.foldlM_induction (I := fun _ (x : Resolution) =>
      Resolution.Settles index start x ∧ start.Turns x) ?_ ⟨.refl index hheld, .refl hstart⟩ hkept).2
    intro entry rest x x' ⟨hsettles, hturns⟩ hstep
    refine ⟨hsettles.trans (Resolution.settles_addKept index hsettles.holdings hstep), ?_⟩
    exact hturns.trans (Resolution.turns_addKept hturns.ledger hsettles.holdings.names hstep)
  refine Outcome.foldlM_induction (I := fun _ (x : Resolution) => start.Turns x) ?_ hmiddle htransients
  intro entry rest x x' hturns hstep
  exact hturns.trans (Resolution.turns_addTransient hturns.ledger hstep)

/-! ## Every action -/

namespace Graph

variable {g g' : Graph}

section Steps

variable (hg : g.device.Ledger g.held.things)

include hg

theorem turns_upToDate : g.held.Turns g.upToDate.held := by
  unfold upToDate
  split
  · exact .refl hg
  · exact Backings.turnover_releaseStale g.compile.value.registry hg

theorem turns_recycle (index : Nat) : g.held.Turns (g.recycle index).held :=
  Pool.turnover_recycle (p := { g.pool with shareMemory := g.settings.shareMemory }) hg index

theorem turns_dispose : g.held.Turns g.dispose.held := by
  have hpool := Pool.turnover_release hg
  have hheld := hpool.ledger
  rw [← List.append_nil g.held.backings.things] at hheld
  have hbackings := turnover_releaseAll hheld
  rw [List.append_nil] at hbackings
  exact hpool.trans hbackings

/-- **Every action keeps the ledger in order.** -/
theorem turns_perform (hheld : Holdings g.device g.pool g.backings) {action : Action}
    (hstep : g.perform action = .ok g') : g.held.Turns g'.held := by
  cases action with
  | register op => cases hstep; exact .refl hg
  | addPass d => cases hstep; exact .refl hg
  | clear => cases hstep; exact .refl hg
  | analyse => cases hstep; exact .refl hg
  | compile => cases hstep; exact Backings.turnover_releaseStale g.compile.value.registry hg
  | execute index =>
      obtain ⟨-, rfl⟩ | ⟨-, r, hok, rfl⟩ := perform_execute_cases hstep
      · exact .refl hg
      · have hupToDate := turns_upToDate hg
        have hstart := hupToDate.trans (turns_recycle hupToDate.ledger index)
        have hresolved := turns_resolveFrame hstart.ledger
          (settles_resolution hheld index).holdings hok
        exact (hstart.trans hresolved).withCommands _
  | dispose => cases hstep; exact turns_dispose hg
  | takeCommands => cases hstep; exact (Turnover.refl hg).withCommands []

end Steps

/-- **The ledger of every graph is in order.** -/
theorem Reachable.ledger (hg : g.Reachable) : g.device.Ledger g.held.things := by
  induction hg with
  | start policy settings => exact Device.ledger_fresh policy
  | perform action hg hstep ih => exact (turns_perform ih hg.holdings hstep).ledger

/-! ## What is there -/

/-- The memory that a graph holds: that of the blocks of its pool, and that of its backings. -/
def memories (g : Graph) : List Handle :=
  g.pool.blocks.map (·.memory) ++ g.backings.entries.map (·.2.memory)

/-- The objects that a graph holds: the live resources of its pool, and those of its backings. -/
def objectsHeld (g : Graph) : List DeviceObject :=
  g.pool.live.map (·.object) ++ g.backings.entries.map (·.2.object)

/-- What a graph holds is memory and objects. -/
theorem things_perm (g : Graph) :
    g.held.things.Perm
      (g.memories.map .memory ++ g.objectsHeld.map DeviceObject.disposal) := by
  have hbackings : ∀ entries : List (String × Backing),
      (entries.flatMap fun entry => entry.2.things).Perm
        ((entries.map (·.2.memory)).map .memory ++
          (entries.map (·.2.object)).map DeviceObject.disposal) := by
    intro entries
    induction entries with
    | nil => exact .refl _
    | cons entry rest ih =>
        have hmiddle : ((rest.map (·.2.memory)).map Disposal.memory ++
            entry.2.object.disposal :: (rest.map (·.2.object)).map DeviceObject.disposal).Perm
            (entry.2.object.disposal :: ((rest.map (·.2.memory)).map Disposal.memory ++
              (rest.map (·.2.object)).map DeviceObject.disposal)) := List.perm_middle
        rw [List.flatMap_cons]
        refine (ih.append_left _).trans ?_
        exact (List.Perm.swap _ _ _).trans (hmiddle.symm.cons _)
  refine ((hbackings g.backings.entries).append_left g.pool.things).trans ?_
  unfold memories objectsHeld Pool.things
  simp only [List.map_append, List.map_map, List.append_assoc]
  exact (List.perm_append_comm_assoc _ _ _).append_left _

/-- What is on the device of a graph is what the graph holds, memory for memory and object for object,
and each object lies in memory that the graph holds.  What was given up had been handed out by the
device, is not there any more, and was not given up twice. -/
structure Conserved (g : Graph) : Prop where
  live : g.device.live.Perm (g.memories.map .memory ++ g.objectsHeld.map DeviceObject.disposal)
  bound : ∀ entry ∈ g.device.images ++ g.device.buffers, entry.2 ∈ g.memories
  once : (g.device.disposals ++ g.device.live).Nodup
  own : ∀ x ∈ g.device.disposals, g.device.Issued x

/-- An object that is held lies in memory that is held. -/
theorem memoryOf?_mem_memories (hg : Holdings g.device g.pool g.backings) {object : DeviceObject}
    (hobject : object ∈ g.objectsHeld) : ∃ m ∈ g.memories, g.device.memoryOf? object = some m := by
  rcases List.mem_append.1 hobject with hlive | hbacking
  · obtain ⟨x, hx, rfl⟩ := List.mem_map.1 hlive
    obtain ⟨block, hblock, -, hmemory⟩ := hg.tenants x hx
    exact ⟨block.memory, List.mem_append_left _ (List.mem_map_of_mem hblock), hmemory⟩
  · obtain ⟨entry, hentry, rfl⟩ := List.mem_map.1 hbacking
    refine ⟨entry.2.memory, List.mem_append_right _ ?_, hg.backed entry hentry⟩
    exact List.mem_map_of_mem (f := fun entry : String × Backing => entry.2.memory) hentry

private theorem lookup_eq_of_nodup {entries : List (Nat × Handle)}
    (hnodup : (entries.map (·.1)).Nodup) {entry : Nat × Handle} (hentry : entry ∈ entries)
    {m : Handle} (hlookup : entries.lookup entry.1 = some m) : m = entry.2 := by
  obtain ⟨before, after, hsplit, -⟩ := List.lookup_eq_some_iff.1 hlookup
  have hmem : (entry.1, m) ∈ entries := by
    rw [hsplit]
    simp
  have hsame := List.inj_on_of_nodup_map hnodup hmem hentry rfl
  rw [← hsame]

/-- What is on the device, and is not memory, lies in memory that is held. -/
theorem exists_memory_of_live (hg : Holdings g.device g.pool g.backings)
    (hlive : g.device.live.Perm (g.memories.map .memory ++ g.objectsHeld.map DeviceObject.disposal))
    {x : Disposal} (hx : x ∈ g.device.live) (hobject : ∀ m, x ≠ .memory m) :
    ∃ object, object.disposal = x ∧ ∃ m ∈ g.memories, g.device.memoryOf? object = some m := by
  rcases List.mem_append.1 (hlive.mem_iff.1 hx) with hmemory | hheld
  · obtain ⟨m, -, rfl⟩ := List.mem_map.1 hmemory
    exact absurd rfl (hobject m)
  · obtain ⟨object, hmem, rfl⟩ := List.mem_map.1 hheld
    exact ⟨object, rfl, memoryOf?_mem_memories hg hmem⟩

theorem Reachable.isConserved (hg : g.Reachable) : g.Conserved := by
  have hledger := hg.ledger
  have hlive := hledger.live.trans g.things_perm
  have honce : (g.device.disposals ++ g.device.live).Nodup :=
    (hledger.live.append_left _).nodup_iff.2 hledger.nodup
  refine ⟨hlive, fun entry hentry => ?_, honce, fun x hx =>
    hledger.issued x (List.mem_append_left _ hx)⟩
  obtain ⟨-, hobjects, -⟩ := List.nodup_append.1 (List.nodup_append.1 honce).2.1
  obtain ⟨himages, hbuffers, -⟩ := List.nodup_append.1 hobjects
  rcases List.mem_append.1 hentry with himage | hbuffer
  · have hthere : Disposal.image entry.1 ∈ g.device.live := by
      refine List.mem_append_right _ (List.mem_append_left _ ?_)
      exact List.mem_map_of_mem (List.mem_map_of_mem (f := (·.1)) himage)
    obtain ⟨object, hdisposal, m, hm, hmemory⟩ :=
      exists_memory_of_live hg.holdings hlive hthere fun m h => by cases h
    cases object with
    | image i view =>
        cases hdisposal
        rw [← lookup_eq_of_nodup (himages.of_map _) himage hmemory]
        exact hm
    | buffer b => cases hdisposal
  · have hthere : Disposal.buffer entry.1 ∈ g.device.live := by
      refine List.mem_append_right _ (List.mem_append_right _ ?_)
      exact List.mem_map_of_mem (List.mem_map_of_mem (f := (·.1)) hbuffer)
    obtain ⟨object, hdisposal, m, hm, hmemory⟩ :=
      exists_memory_of_live hg.holdings hlive hthere fun m h => by cases h
    cases object with
    | image i view => cases hdisposal
    | buffer b =>
        cases hdisposal
        rw [← lookup_eq_of_nodup (hbuffers.of_map _) hbuffer hmemory]
        exact hm

/-- **What a graph creates is given up once.**  What is on its device is what it holds.  Whatever an
action gives up was held before, by the pool or for a persistent resource, or was handed out during
the action; so an imported object, which the device has not handed out, is never given up.  Once the
graph is disposed of, nothing is left, and disposing of it again does nothing. -/
theorem Reachable.conserved (hg : g.Reachable) :
    g.Conserved ∧
      (∀ action g', g.perform action = .ok g' →
        ∃ gone, g'.device.disposals = g.device.disposals ++ gone ∧
          ∀ x ∈ gone, x ∈ g.memories.map .memory ++ g.objectsHeld.map DeviceObject.disposal ∨
            ¬ g.device.Issued x ∧ g'.device.Issued x) ∧
      (∀ h resource object handover, g.registry.get? h = some resource →
        resource.source = .imported object handover → ¬ g.device.Issued object.disposal →
          object.disposal ∉ g.device.disposals) ∧
      g.dispose.device.live = [] ∧ g.dispose.dispose.device = g.dispose.device := by
  have hledger := hg.ledger
  refine ⟨hg.isConserved, fun action g' hstep => ?_, fun _ _ _ _ _ _ hforeign hgone =>
    hforeign (hg.isConserved.own _ hgone), ?_, rfl⟩
  · have hturns := turns_perform hledger hg.holdings hstep
    obtain ⟨gone, hgone, horigin⟩ := hturns.disposed
    refine ⟨gone, hgone, fun x hx => ?_⟩
    rcases horigin x (List.mem_append_left _ hx) with hheld | hnew
    · exact .inl (g.things_perm.mem_iff.1 hheld)
    · refine .inr ⟨hnew, hturns.ledger.issued x (List.mem_append_left _ ?_)⟩
      rw [hgone]
      exact List.mem_append_right _ hx
  · exact (turns_dispose hledger).ledger.live.eq_nil

/-- What was painted is kept in a history; then all of it is forgotten. -/
def keeping : List Action :=
  [.register (.createImage "history" (.flat 4 4 .b8g8r8a8Srgb ImageUsage.colorAttachment) true),
    .register (.createImage "canvas" (.flat 4 4 .b8g8r8a8Srgb ImageUsage.colorAttachment) false),
    .register (.markOutput "history"), .register (.markOutput "canvas"),
    .addPass ⟨"paint", .graphics .azure,
      [.write "canvas" .colorAttachment, .write "history" .colorAttachment], none⟩,
    .execute 0, .execute 0, .clear, .compile]

/-- The first history is refused and its memory given back, so that the canvas gets it at the next
generation.  The second canvas and its memory outlive the history, and end with the graph. -/
theorem conserved_keeping :
    ∃ g, (Graph.empty { policy := { refuses := fun n _ => n = 1 } } {}).performAll keeping = .ok g ∧
      g.device.disposals =
        [.memory (.slot 0 0), .image 1, .image 3, .memory (.slot 1 0)] ∧
      g.device.live = [.memory (.slot 0 1), .image 5] ∧
      g.Conserved ∧ g.dispose.device.live = [] := by
  have hrun : succeeds
      ((Graph.empty { policy := { refuses := fun n _ => n = 1 } } {}).performAll keeping)
      (fun g => decide (
        g.device.disposals = [.memory (.slot 0 0), .image 1, .image 3, .memory (.slot 1 0)] ∧
          g.device.live = [.memory (.slot 0 1), .image 5])) = true := by
    decide +kernel
  obtain ⟨g, hperformed, hcheck⟩ := exists_of_succeeds hrun
  obtain ⟨hdisposals, hlive⟩ := of_decide_eq_true hcheck
  obtain ⟨hconserved, -, -, hnothing, -⟩ :=
    (reachable_of_performAll (.start _ _) hperformed).conserved
  exact ⟨g, hperformed, hdisposals, hlive, hconserved, hnothing⟩

end Graph

end FrameGraph
