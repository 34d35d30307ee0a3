import FrameGraph.Proofs.Memory.Generous
import FrameGraph.Proofs.Memory.Serving

/-!
# The transient resources of a frame as a round of demands

On a device that refuses nothing, resolving the transient resources of a frame serves their demands one
after another from the bays of the frame.  The round is thrifty if no resource ends up in a block that is
larger than another one which suits it and was added for a later resource.  If the round adds no bay,
it allocates no memory.

Principal statements: `Resolution.runs_transients`, `Resolution.thrifty_transients` and
`Resolution.quiet_transients`.
-/

set_option autoImplicit false

namespace FrameGraph

/-- What a transient resource demands of the pool. -/
def Device.demand (d : Device) (entry : Handle × Resource × Lifetime) : Demand where
  requirements := (d.requirements entry.2.1.info).toOption.getD ⟨0, 0, .ofNat 0⟩
  lifetime := entry.2.2

theorem Device.requirements_congr {d d' : Device} (hpolicy : d'.policy = d.policy)
    (info : ResourceInfo) : d'.requirements info = d.requirements info := by
  cases info <;> simp only [Device.requirements, hpolicy]

theorem Device.demand_congr {d d' : Device} (hpolicy : d'.policy = d.policy) :
    d'.demand = d.demand := by
  funext entry
  rw [Device.demand, Device.demand, Device.requirements_congr hpolicy]

theorem Device.demand_eq {d : Device} {entry : Handle × Resource × Lifetime}
    {requirements : Requirements} (hrequires : d.requirements entry.2.1.info = .ok requirements) :
    d.demand entry = ⟨requirements, entry.2.2⟩ := by
  rw [Device.demand, hrequires]
  rfl

/-- No resource is in a block that is larger than another one which suits it and was added for a later
resource.  Blocks of old memory were not added. -/
def Pool.ServedThriftily (p : Pool) (d : Device) (objects : HandleMap DeviceObject) (frame : Nat)
    (entries : List (Handle × Resource × Lifetime)) (old : List Handle) : Prop :=
  ∀ before entry after, entries = before ++ entry :: after →
    ∀ object block other requirements, objects.get? entry.1 = some object → block ∈ p.blocks →
      d.memoryOf? object = some block.memory → d.requirements entry.2.1.info = .ok requirements →
        other ∈ p.blocks → other.frame = frame → other.suits requirements = true →
          other.memory ∉ old →
            (∀ x ∈ before ++ [entry], ∀ o, objects.get? x.1 = some o →
              d.memoryOf? o ≠ some other.memory) →
              block.size ≤ other.size

/-- A frame that adds no block, or none that is smaller than another one, is thrifty. -/
theorem Pool.servedThriftily_of_size_le {p : Pool} {frame : Nat} {old : List Handle}
    (h : ∀ other ∈ p.blocks, other.frame = frame → other.memory ∉ old →
      ∀ block ∈ p.blocks, block.size ≤ other.size) (d : Device) (objects : HandleMap DeviceObject)
    (entries : List (Handle × Resource × Lifetime)) :
    p.ServedThriftily d objects frame entries old :=
  fun _ _ _ _ _ block other _ _ hblock _ _ hother hframe _ hnew _ => h other hother hframe hnew block hblock

section Shapes

variable {frame : Nat} {blocks blocks' : List MemoryBlock} {b : MemoryBlock}

theorem exists_of_shape (h : blocks.map MemoryBlock.shape <+: blocks'.map MemoryBlock.shape)
    (hb : b ∈ blocks) : ∃ b' ∈ blocks', b'.shape = b.shape :=
  List.mem_map.1 (h.mem (List.mem_map_of_mem hb))

theorem exists_of_memory (h : blocks.map MemoryBlock.shape <+: blocks'.map MemoryBlock.shape)
    (hb : b ∈ blocks) : ∃ b' ∈ blocks', b'.memory = b.memory := by
  obtain ⟨b', hb', hshape⟩ := exists_of_shape h hb
  exact ⟨b', hb', MemoryBlock.memory_of_shape hshape⟩

/-- Blocks are added behind those that were there. -/
theorem exists_split_of_shapes (h : blocks.map MemoryBlock.shape <+: blocks'.map MemoryBlock.shape) :
    ∃ now added, blocks' = now ++ added ∧ now.map MemoryBlock.shape = blocks.map MemoryBlock.shape := by
  obtain ⟨later, hlater⟩ := h
  obtain ⟨now, added, hsplit, hnow, -⟩ := List.map_eq_append_iff.1 hlater.symm
  exact ⟨now, added, hsplit, hnow⟩

/-- Blocks of the same shapes belong to the same frames. -/
theorem length_baysOf (h : blocks'.map MemoryBlock.shape = blocks.map MemoryBlock.shape) :
    (baysOf frame blocks').length = (baysOf frame blocks).length := by
  have hcount : ∀ l : List MemoryBlock, (baysOf frame l).length =
      ((l.map MemoryBlock.shape).filter fun shape => shape.1.2 = frame).length := by
    intro l
    rw [baysOf, List.length_map, List.filter_map, List.length_map]
    rfl
  rw [hcount, hcount, h]

/-- The bays that are added are those of blocks that are added, whose memory is not that of a block that
was there. -/
theorem exists_added (h : blocks.map MemoryBlock.shape <+: blocks'.map MemoryBlock.shape)
    (hnodup : (blocks'.map (·.memory)).Nodup) {x : Bay}
    (hx : x ∈ (baysOf frame blocks').drop (baysOf frame blocks).length) :
    ∃ c ∈ blocks', c.frame = frame ∧ c.bay = x ∧ ∀ b ∈ blocks, b.memory ≠ c.memory := by
  obtain ⟨now, added, rfl, hnow⟩ := exists_split_of_shapes h
  rw [baysOf_append, ← length_baysOf hnow, List.drop_left] at hx
  obtain ⟨c, hc, hframe, rfl⟩ := mem_baysOf.1 hx
  refine ⟨c, List.mem_append_right _ hc, hframe, rfl, fun b hb heq => ?_⟩
  have hkept : blocks.map MemoryBlock.shape <+: now.map MemoryBlock.shape := hnow ▸ List.prefix_rfl
  obtain ⟨b', hb', hmemory⟩ := exists_of_memory hkept hb
  rw [List.map_append] at hnodup
  exact (List.nodup_append.1 hnodup).2.2 _ (List.mem_map_of_mem hb') _ (List.mem_map_of_mem hc)
    (hmemory.trans heq)

/-- If no bay is added, the memory of every block of the frame was there. -/
theorem exists_of_length_eq (h : blocks.map MemoryBlock.shape <+: blocks'.map MemoryBlock.shape)
    (hlength : (baysOf frame blocks').length = (baysOf frame blocks).length) (hb : b ∈ blocks')
    (hframe : b.frame = frame) : ∃ b' ∈ blocks, b'.memory = b.memory := by
  obtain ⟨now, added, rfl, hnow⟩ := exists_split_of_shapes h
  rw [baysOf_append, List.length_append, length_baysOf hnow] at hlength
  rcases List.mem_append.1 hb with hb | hb
  · exact exists_of_memory (hnow ▸ List.prefix_rfl) hb
  · have hnew := List.length_pos_of_mem (mem_baysOf.2 ⟨b, hb, hframe, rfl⟩)
    omega

end Shapes

namespace Resolution

variable {r r' : Resolution} {index : Nat} {table : UsageTable}

/-! ## One request -/

/-- What stays as resources move in: whatever is there, and the shapes of the blocks. -/
structure Grows (r r' : Resolution) : Prop where
  holdings : Holdings r'.device r'.pool r'.backings
  policy : r'.device.policy = r.device.policy
  shareMemory : r'.pool.shareMemory = r.pool.shareMemory
  device : r.device.Grows r'.device
  shapes : r.pool.blocks.map MemoryBlock.shape <+: r'.pool.blocks.map MemoryBlock.shape

theorem Grows.trans {r'' : Resolution} (h : r.Grows r') (h' : r'.Grows r'') : r.Grows r'' :=
  ⟨h'.holdings, h'.policy.trans h.policy, h'.shareMemory.trans h.shareMemory,
    h.device.trans h'.device, h.shapes.trans h'.shapes⟩

variable (hgenerous : r.device.policy.IsGenerous) (hr : Holdings r.device r.pool r.backings)

include hgenerous hr

/-- **One transient resource.** -/
theorem places_addTransient {entry : Handle × Resource × Lifetime}
    (hok : (addTransient index table r entry).result = .ok r') :
    r.Grows r' ∧ ∃ requirements placement,
      r.device.requirements entry.2.1.info = .ok requirements ∧
      r'.frame.objects = r.frame.objects.insert entry.1 placement.object ∧
      r.pool.Places r.device ⟨entry.1, entry.2.1.info, entry.2.1.name, entry.2.2, index⟩ requirements
        placement r'.pool r'.device := by
  obtain ⟨created, hcreate, -, hobjects, -⟩ := addTransient_cases hok
  obtain ⟨requirements, placement, hrequires, rfl, hplaces⟩ :=
    Pool.exists_places hgenerous hr hcreate
  have hpolicy := ends_addTransient index table (rfl : r.device.policy = r.device.policy) entry
  rw [hok] at hpolicy
  have hshare : r'.pool.shareMemory = r.pool.shareMemory := by
    obtain ⟨requirements, -, ⟨-, hpool, -⟩ | ⟨base, middle, i, block, hchosen, -, hsettled⟩⟩ :=
      Pool.create_choices hcreate
    · rw [hpool, Pool.shareMemory_retire]
    · refine Eq.trans ?_ hchosen.prepared.shareMemory
      obtain ⟨-, -, hpool⟩ | ⟨object, -, -, hpool⟩ := hsettled
      · rw [hpool]
        rfl
      · rw [hpool]
        rfl
  exact ⟨⟨(settles_addTransient index hr hok).holdings, hpolicy, hshare, (hr.create hcreate).2,
    hplaces.shapes⟩, requirements, placement, hrequires, hobjects, hplaces⟩

theorem serves_addTransient {entry : Handle × Resource × Lifetime}
    (hok : (addTransient index table r entry).result = .ok r') :
    Bay.Serves r.pool.shareMemory (r.device.demand entry) (r.pool.bays index) (r'.pool.bays index) := by
  obtain ⟨-, requirements, placement, hrequires, -, hplaces⟩ :=
    places_addTransient hgenerous hr hok
  rw [Device.demand_eq hrequires]
  exact hplaces.serves

/-! ## All requests of a frame -/

theorem grows_transients {entries : List (Handle × Resource × Lifetime)}
    (hok : (entries.foldlM (addTransient index table) r).result = .ok r') : r.Grows r' := by
  refine Outcome.foldlM_induction (I := fun _ (x : Resolution) => r.Grows x) ?_
    ⟨hr, rfl, rfl, .refl _, List.prefix_rfl⟩ hok
  intro entry rest x x' hx hstep
  exact hx.trans (places_addTransient (hx.policy ▸ hgenerous) hx.holdings hstep).1

/-- **The transient resources of a frame are served one after another.** -/
theorem runs_transients {entries : List (Handle × Resource × Lifetime)}
    (hok : (entries.foldlM (addTransient index table) r).result = .ok r') :
    Bay.Runs r.pool.shareMemory (entries.map r.device.demand) (r.pool.bays index)
      (r'.pool.bays index) := by
  induction entries generalizing r with
  | nil => cases hok; exact .nil _
  | cons entry rest ih =>
      rw [List.foldlM_cons] at hok
      obtain ⟨x, hstep, hrest⟩ := Outcome.result_bind_eq_ok_iff.1 hok
      have hx := (places_addTransient hgenerous hr hstep).1
      have hruns := ih (hx.policy ▸ hgenerous) hx.holdings hrest
      rw [hx.shareMemory, Device.demand_congr hx.policy] at hruns
      exact .cons (serves_addTransient hgenerous hr hstep) hruns

/-- **A round that adds no bay allocates no memory.** -/
theorem quiet_transients {entries : List (Handle × Resource × Lifetime)}
    (hok : (entries.foldlM (addTransient index table) r).result = .ok r')
    (hlength : (r'.pool.bays index).length = (r.pool.bays index).length) :
    r'.device.memory = r.device.memory ∧ r'.device.allocationsEver = r.device.allocationsEver ∧
      r'.pool.blocks.map MemoryBlock.shape = r.pool.blocks.map MemoryBlock.shape := by
  induction entries generalizing r with
  | nil => cases hok; exact ⟨rfl, rfl, rfl⟩
  | cons entry rest ih =>
      rw [List.foldlM_cons] at hok
      obtain ⟨x, hstep, hrest⟩ := Outcome.result_bind_eq_ok_iff.1 hok
      obtain ⟨hx, requirements, placement, -, -, hplaces⟩ :=
        places_addTransient hgenerous hr hstep
      have hgenerous' := hx.policy ▸ hgenerous
      have hmore := (runs_transients hgenerous' hx.holdings hrest).shapes.length_le
      rw [List.length_map, List.length_map] at hmore
      cases hplaces with
      | reused before after block hblocks hbest hblocks' _ hmemory hever =>
          have hshapes : x.pool.blocks.map MemoryBlock.shape =
              r.pool.blocks.map MemoryBlock.shape := by
            rw [hblocks, hblocks']
            simp only [List.map_append, List.map_cons, List.map_map]
            rfl
          obtain ⟨hmemory', hever', hshapes'⟩ :=
            ih hgenerous' hx.holdings hrest (hlength.trans (length_baysOf hshapes).symm)
          exact ⟨hmemory'.trans hmemory, hever'.trans hever, hshapes'.trans hshapes⟩
      | added memory hnone hblocks' =>
          -- The bay that was added stays.
          have hadded : (x.pool.bays index).length = (r.pool.bays index).length + 1 := by
            unfold Pool.bays
            have hnew : (MemoryBlock.freshFor memory requirements
                ⟨entry.1, entry.2.1.info, entry.2.1.name, entry.2.2, index⟩).frame = index := rfl
            rw [hblocks', baysOf_append, Pool.baysOf_map_released, baysOf_cons hnew]
            simp [baysOf]
          omega

/-! ## Thrifty rounds -/

/-- What has moved in so far is in blocks that are there. -/
def Located (r : Resolution) (entries : List (Handle × Resource × Lifetime)) : Prop :=
  ∀ x ∈ entries, ∀ o, r.frame.objects.get? x.1 = some o →
    ∃ b ∈ r.pool.blocks, r.device.memoryOf? o = some b.memory

theorem Located.addTransient {before : List (Handle × Resource × Lifetime)}
    {entry : Handle × Resource × Lifetime} (hbefore : r.Located before)
    (hnew : ∀ x ∈ before, x.1 ≠ entry.1)
    (hok : (addTransient index table r entry).result = .ok r') : r'.Located (before ++ [entry]) := by
  obtain ⟨hgrows, requirements, placement, -, hobjects, hplaces⟩ :=
    places_addTransient hgenerous hr hok
  intro x hx o ho
  rw [hobjects] at ho
  rcases List.mem_append.1 hx with hx | hx
  · rw [HandleMap.get?_insert_of_ne _ _ (hnew x hx).symm] at ho
    obtain ⟨b, hb, hlocated⟩ := hbefore x hx o ho
    obtain ⟨b', hb', hmemory⟩ := exists_of_memory hgrows.shapes hb
    refine ⟨b', hb', ?_⟩
    rw [hmemory]
    exact hgrows.device.memoryOf _ _ hlocated
  · rw [List.mem_singleton.1 hx, HandleMap.get?_insert_self] at ho
    cases ho
    obtain ⟨b, hb, -, hlocated⟩ := hplaces.exists_block
    exact ⟨b, hb, hlocated⟩

/-- A resource does not get a block that is larger than one that suits it and is added afterwards. -/
theorem size_le_of_servedThriftily {before rest : List (Handle × Resource × Lifetime)}
    {entry : Handle × Resource × Lifetime} {old : List Handle} {x : Resolution}
    (hstep : (addTransient index table r entry).result = .ok x)
    (hrest : (rest.foldlM (addTransient index table) x).result = .ok r')
    (hlater : ∀ y ∈ before ++ [entry], ∀ e ∈ rest, e.1 ≠ y.1)
    (hold : ∀ memory ∈ old, ∃ b ∈ r.pool.blocks, b.memory = memory)
    (hlocated : x.Located (before ++ [entry]))
    (hthrifty :
      r'.pool.ServedThriftily r'.device r'.frame.objects index (before ++ entry :: rest) old)
    {front back : List Bay} {b : Bay} (hbays : r.pool.bays index = front ++ b :: back)
    (hbest : IsBest Bay.size (Bay.Fits r.pool.shareMemory (r.device.demand entry)) front b back)
    {later : Bay} (hadded : later ∈ (r'.pool.bays index).drop (r.pool.bays index).length)
    (hsuits : later.suits (r.device.demand entry).requirements = true) : b.size ≤ later.size := by
  obtain ⟨hx, requirements, placement, hrequires, hobjects, hplaces⟩ :=
    places_addTransient hgenerous hr hstep
  have hgrows := grows_transients (hx.policy ▸ hgenerous) hx.holdings hrest
  rw [Device.demand_eq hrequires] at hbest hsuits
  have hobject : ∀ y ∈ before ++ [entry],
      r'.frame.objects.get? y.1 = x.frame.objects.get? y.1 := fun y hy =>
    have hsame : SameFor y.1 "" x r' := sameFor_transients (hlater y hy) hrest
    hsame.objects
  cases hplaces with
  | added memory hnone =>
      have hb : b ∈ r.pool.bays index := hbays ▸ List.mem_append_right _ List.mem_cons_self
      obtain ⟨block, hblock, hframe, rfl⟩ := mem_baysOf.1 hb
      have hfits := (Pool.fits_bay ⟨entry.1, entry.2.1.info, entry.2.1.name, entry.2.2, index⟩
        hframe).1 hbest.fits
      exact absurd hfits (hnone block hblock)
  | reused blocks more block hblocks hbestBlock hblocks' hmemory =>
      have hsplit : r.pool.bays index = baysOf index blocks ++ block.bay :: baysOf index more := by
        rw [Pool.bays, hblocks, baysOf_append, baysOf_cons hbestBlock.fits.1.1]
      obtain ⟨-, rfl, -⟩ := hbest.unique (Pool.isBest_bays hbestBlock) (hbays.symm.trans hsplit)
      have hshapes : x.pool.blocks.map MemoryBlock.shape = r.pool.blocks.map MemoryBlock.shape := by
        rw [hblocks, hblocks']
        simp only [List.map_append, List.map_cons, List.map_map]
        rfl
      rw [show (r.pool.bays index).length = (x.pool.bays index).length from
        (length_baysOf hshapes).symm] at hadded
      obtain ⟨c, hc, hframe, rfl, hapart⟩ := exists_added hgrows.shapes
        (List.nodup_append.1 hgrows.holdings.memories).1 hadded
      have hself : block ∈ r.pool.blocks := hblocks ▸ List.mem_append_right _ List.mem_cons_self
      obtain ⟨b, hb, hshape⟩ := exists_of_shape (hx.shapes.trans hgrows.shapes) hself
      have hentry : entry ∈ before ++ [entry] := List.mem_append_right _ List.mem_cons_self
      have hsize : b.size ≤ c.size := by
        refine hthrifty before entry rest rfl placement.object b c requirements ?_ hb ?_ ?_ hc hframe
          hsuits (fun hcold => ?_) fun y hy o ho => ?_
        · rw [hobject entry hentry, hobjects]
          exact HandleMap.get?_insert_self ..
        · rw [MemoryBlock.memory_of_shape hshape]
          exact hgrows.device.memoryOf _ _ hmemory
        · exact (Device.requirements_congr (hgrows.policy.trans hx.policy) _).trans hrequires
        · obtain ⟨b, hb, hsame⟩ := hold _ hcold
          obtain ⟨b', hb', hmemory'⟩ := exists_of_memory hx.shapes hb
          exact hapart b' hb' (hmemory'.trans hsame)
        · rw [hobject y hy] at ho
          obtain ⟨b, hb, hplace⟩ := hlocated y hy o ho
          rw [hgrows.device.memoryOf _ _ hplace]
          exact fun heq => hapart b hb (Option.some.inj heq)
      rw [MemoryBlock.size_of_shape hshape] at hsize
      exact hsize

/-- **The round is thrifty** if no resource ends up in a block that is larger than another one which
suits it and was added for a later resource. -/
theorem thrifty_transients {before entries : List (Handle × Resource × Lifetime)} {old : List Handle}
    (hok : (entries.foldlM (addTransient index table) r).result = .ok r')
    (hdistinct : (before ++ entries).Pairwise fun a b => a.1 ≠ b.1)
    (hold : ∀ memory ∈ old, ∃ b ∈ r.pool.blocks, b.memory = memory) (hbefore : r.Located before)
    (hthrifty : r'.pool.ServedThriftily r'.device r'.frame.objects index (before ++ entries) old) :
    Bay.Thrifty r.pool.shareMemory (r'.pool.bays index) (entries.map r.device.demand)
      (r.pool.bays index) := by
  induction entries generalizing r before with
  | nil => cases hok; exact .nil
  | cons entry rest ih =>
      rw [List.foldlM_cons] at hok
      obtain ⟨x, hstep, hrest⟩ := Outcome.result_bind_eq_ok_iff.1 hok
      have hx := (places_addTransient hgenerous hr hstep).1
      have hassoc : before ++ entry :: rest = (before ++ [entry]) ++ rest := by simp
      obtain ⟨hearlier, -, hlater⟩ := List.pairwise_append.1 (hassoc ▸ hdistinct)
      have hnew := fun y hy => (List.pairwise_append.1 hearlier).2.2 y hy entry List.mem_cons_self
      have hlocated := hbefore.addTransient hgenerous hr hnew hstep
      have hold' : ∀ memory ∈ old, ∃ b ∈ x.pool.blocks, b.memory = memory := by
        intro memory hmemory
        obtain ⟨b, hb, rfl⟩ := hold memory hmemory
        exact exists_of_memory hx.shapes hb
      have htail := ih (hx.policy ▸ hgenerous) hx.holdings hrest (hassoc ▸ hdistinct) hold' hlocated
        (hassoc ▸ hthrifty)
      rw [hx.shareMemory, Device.demand_congr hx.policy] at htail
      refine .cons (serves_addTransient hgenerous hr hstep) ?_ htail
      intro front b back hbays hbest later hadded hsuits
      exact size_le_of_servedThriftily hgenerous hr hstep hrest
        (fun y hy e he => (hlater y hy e he).symm) hold hlocated hthrifty hbays hbest hadded hsuits

end Resolution

end FrameGraph
