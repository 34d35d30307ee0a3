import FrameGraph.Proofs.Frame.Faults
import FrameGraph.Proofs.Memory.BestFit
import FrameGraph.Proofs.Memory.Conservation
import FrameGraph.Proofs.Memory.Tenancy

/-!
# What holds of a pool at any time

A pool is told to create resources, to begin frames and to share memory or not, in any order, by
requests with any requirements, on a device that refuses what it likes.  At any time every live resource
lies on a block of its frame that offers what it requires; a reserved block remembers the last resource
that came, which is live; and whoever came was told who was in its memory before.

Principal statements: `Session.IsInOrder.perform` for one operation and `Session.serves_well` for all
runs.
-/

set_option autoImplicit false

namespace FrameGraph

/-- An operation on a pool. -/
inductive Pool.Operation where
  | create (request : TransientRequest)
  | recycle (frame : Nat)
  | share (shareMemory : Bool)
  deriving Repr

/-- A pool on its device, and which requests it has served since their frames began last. -/
structure Session where
  pool : Pool
  device : Device
  served : List (TransientRequest × Placement) := []

namespace Session

/-- The session after a request, which was served or not. -/
def requested (s : Session) (request : TransientRequest) (created : Option Placement) (pool : Pool)
    (device : Device) : Session where
  pool
  device
  served := s.served ++ created.toList.map fun placement => (request, placement)

/-- The session after a frame has begun. -/
def begun (s : Session) (frame : Nat) : Session where
  pool := (s.pool.recycle s.device frame).1
  device := (s.pool.recycle s.device frame).2
  served := s.served.filter fun x => x.1.frame ≠ frame

/-- Performs one operation. -/
def perform (s : Session) : Pool.Operation → Outcome Session
  | .create request => do
      let (created, pool, device) ← s.pool.create s.device request
      return s.requested request created pool device
  | .recycle frame => return s.begun frame
  | .share shareMemory => return { s with pool := { s.pool with shareMemory } }

/-- Performs operations one after another. -/
def performAll (s : Session) (operations : List Pool.Operation) : Outcome Session :=
  operations.foldlM perform s

/-- The requests that were served for a frame since it began last. -/
def servedIn (s : Session) (frame : Nat) : List (TransientRequest × Placement) :=
  s.served.filter fun x => x.1.frame = frame

end Session

/-! ## Who lies where -/

/-- Who lies in which memory, in the order of arrival. -/
def residents (d : Device) (served : List (TransientRequest × Placement)) : List (Handle × Stay) :=
  served.filterMap fun x => (d.memoryOf? x.2.object).map fun memory =>
    (x.1.handle, ⟨x.1.lifetime, memory⟩)

/-- Whoever came was told who had come into its memory right before. -/
def ToldOfPrevious (d : Device) (served : List (TransientRequest × Placement)) : Prop :=
  ∀ before x after, served = before ++ x :: after → ∀ memory, d.memoryOf? x.2.object = some memory →
    x.2.previous = lastIn (residents d before) memory

section Residents

variable {d d' : Device} {served : List (TransientRequest × Placement)}
  {request : TransientRequest} {placement : Placement} {memory : Handle}

theorem residents_congr (h : ∀ x ∈ served, d'.memoryOf? x.2.object = d.memoryOf? x.2.object) :
    residents d' served = residents d served :=
  List.filterMap_congr fun x hx => by rw [h x hx]

theorem residents_concat (h : d.memoryOf? placement.object = some memory) :
    residents d (served ++ [(request, placement)]) =
      residents d served ++ [(request.handle, ⟨request.lifetime, memory⟩)] := by
  simp [residents, List.filterMap_append, h]

/-- Behind the last one in some memory nobody else has come into it. -/
theorem exists_of_lastIn_residents {h : Handle}
    (hlast : lastIn (residents d served) memory = some h) :
    ∃ before x after, served = before ++ x :: after ∧ d.memoryOf? x.2.object = some memory ∧
      x.1.handle = h ∧ ∀ y ∈ after, d.memoryOf? y.2.object ≠ some memory := by
  induction served using List.reverseRecOn with
  | nil => cases hlast
  | append_singleton served x ih =>
      by_cases hmemory : d.memoryOf? x.2.object = some memory
      · rw [residents_concat hmemory, lastIn_concat rfl] at hlast
        exact ⟨served, x, [], rfl, hmemory, Option.some.inj hlast, fun y hy => by cases hy⟩
      · have hearlier : lastIn (residents d served) memory = some h := by
          cases hother : d.memoryOf? x.2.object with
          | none => simpa [residents, List.filterMap_append, hother] using hlast
          | some other =>
              rw [residents_concat hother, lastIn_concat_of_ne] at hlast
              · exact hlast
              · rintro rfl
                exact hmemory hother
        obtain ⟨before, y, after, rfl, hy, hhandle, hafter⟩ := ih hearlier
        refine ⟨before, y, after ++ [x], by simp, hy, hhandle, fun z hz => ?_⟩
        rcases List.mem_append.1 hz with hz | hz
        · exact hafter z hz
        · rw [List.mem_singleton.1 hz]
          exact hmemory

namespace ToldOfPrevious

theorem congr (h : ToldOfPrevious d served)
    (hsame : ∀ x ∈ served, d'.memoryOf? x.2.object = d.memoryOf? x.2.object) :
    ToldOfPrevious d' served := by
  rintro before x after rfl memory hmemory
  rw [hsame x (List.mem_append_right _ List.mem_cons_self)] at hmemory
  rw [residents_congr fun y hy => hsame y (List.mem_append_left _ hy)]
  exact h before x after rfl memory hmemory

theorem concat (h : ToldOfPrevious d served) {x : TransientRequest × Placement}
    (hlast : ∀ memory, d.memoryOf? x.2.object = some memory →
      x.2.previous = lastIn (residents d served) memory) : ToldOfPrevious d (served ++ [x]) := by
  intro before y after hsplit
  rcases List.eq_nil_or_concat after with rfl | ⟨after, last, rfl⟩
  · obtain ⟨rfl, hsame⟩ := List.append_inj' hsplit rfl
    obtain rfl := List.singleton_inj.1 hsame
    exact hlast
  · rw [List.concat_eq_append, ← List.cons_append, ← List.append_assoc] at hsplit
    exact h before y after (List.append_inj' hsplit rfl).1

end ToldOfPrevious

end Residents

/-! ## One frame -/

namespace Session

/-- A resource that was served lies on a block of its frame that offers what it requires. -/
def Houses (s : Session) (frame : Nat) (x : TransientRequest × Placement) : Prop :=
  ∃ requirements block, s.device.requirements x.1.info = .ok requirements ∧ block ∈ s.pool.blocks ∧
    block.frame = frame ∧ s.device.memoryOf? x.2.object = some block.memory ∧
    block.suits requirements = true

/-- What holds of a frame at any time.

* `live`: the live resources are those that were served.
* `housed`: each lies on a block of its frame that offers what it requires.
* `tenants`: a block remembers the last one that came into its memory.
* `reserved`: in a reserved block there is one.
* `told`: whoever came was told who had come into its memory right before. -/
structure WellKept (s : Session) (frame : Nat) : Prop where
  live : s.pool.live.filter (fun x => x.frame = frame) =
    (s.servedIn frame).map fun x => ⟨x.2.object, frame⟩
  housed : ∀ x ∈ s.servedIn frame, s.Houses frame x
  tenants : ∀ b ∈ s.pool.blocks, b.frame = frame →
    b.tenant = lastIn (residents s.device (s.servedIn frame)) b.memory
  reserved : ∀ b ∈ s.pool.blocks, b.frame = frame → b.reserved = true → b.tenant ≠ none
  told : ToldOfPrevious s.device (s.servedIn frame)

variable {s s' : Session} {frame : Nat}

namespace WellKept

/-- The requests that were served have live resources. -/
theorem mem_live (h : s.WellKept frame) {x : TransientRequest × Placement}
    (hx : x ∈ s.servedIn frame) : ⟨x.2.object, frame⟩ ∈ s.pool.live := by
  have hmem : (⟨x.2.object, frame⟩ : LiveObject) ∈
      s.pool.live.filter fun x => x.frame = frame := by
    rw [h.live]
    exact List.mem_map.2 ⟨x, hx, rfl⟩
  exact (List.mem_filter.1 hmem).1

/-- An operation for another frame. -/
theorem of_spares (h : s.WellKept frame)
    (hspares : Spares frame s.device s.pool s'.device s'.pool)
    (hpolicy : s'.device.policy = s.device.policy)
    (hserved : s'.servedIn frame = s.servedIn frame) : s'.WellKept frame := by
  have hlocated : ∀ x ∈ s.servedIn frame,
      s'.device.memoryOf? x.2.object = s.device.memoryOf? x.2.object := fun x hx =>
    hspares.located _ (h.mem_live hx) rfl
  have hblocks : ∀ b, b.frame = frame → (b ∈ s'.pool.blocks ↔ b ∈ s.pool.blocks) := by
    intro b hb
    rw [List.mem_iff_getElem?, List.mem_iff_getElem?]
    exact exists_congr fun i => hspares.pool.blocks i b hb
  refine ⟨?_, fun x hx => ?_, fun b hb hframe => ?_, fun b hb hframe => ?_, ?_⟩
  · rw [hspares.pool.live, hserved]
    exact h.live
  · rw [hserved] at hx
    obtain ⟨requirements, block, hrequires, hblock, hframe, hmemory, hsuits⟩ := h.housed x hx
    refine ⟨requirements, block, ?_, (hblocks block hframe).2 hblock, hframe,
      (hlocated x hx).trans hmemory, hsuits⟩
    rw [← hrequires]
    cases x.1.info <;> simp only [Device.requirements, hpolicy]
  · rw [hserved, residents_congr hlocated]
    exact h.tenants b ((hblocks b hframe).1 hb) hframe
  · exact h.reserved b ((hblocks b hframe).1 hb) hframe
  · rw [hserved]
    exact h.told.congr hlocated

/-- A frame that begins has vacant blocks only. -/
theorem of_vacant (hlive : s.pool.live.filter (fun x => x.frame = frame) = [])
    (hvacant : ∀ b ∈ s.pool.blocks, b.frame = frame → b.reserved = false ∧ b.tenant = none)
    (hserved : s.servedIn frame = []) : s.WellKept frame where
  live := by rw [hserved, hlive]; rfl
  housed := fun x hx => by rw [hserved] at hx; cases hx
  tenants := fun b hb hframe => by rw [hserved]; exact (hvacant b hb hframe).2
  reserved := fun b hb hframe hreserved => by
    rw [(hvacant b hb hframe).1] at hreserved
    cases hreserved
  told := fun before x after hsplit => by
    rw [hserved] at hsplit
    exact absurd hsplit.symm (List.append_ne_nil_of_right_ne_nil _ (List.cons_ne_nil _ _))

section Requests

variable {request : TransientRequest} {created : Option Placement} {pool : Pool} {device : Device}

theorem servedIn_requested :
    (s.requested request created pool device).servedIn request.frame =
      s.servedIn request.frame ++ created.toList.map fun placement => (request, placement) := by
  unfold servedIn Session.requested
  rw [List.filter_append]
  congr 1
  refine List.filter_eq_self.2 fun x hx => ?_
  obtain ⟨placement, -, rfl⟩ := List.mem_map.1 hx
  exact decide_eq_true rfl

variable (h : s.WellKept request.frame) (hheld : Holdings s.device s.pool {})
  (hok : (s.pool.create s.device request).result = .ok (created, pool, device))

include h hheld hok

/-- Who is there stays where he is. -/
theorem located_create : ∀ x ∈ s.servedIn request.frame,
    device.memoryOf? x.2.object = s.device.memoryOf? x.2.object := by
  intro x hx
  obtain ⟨-, block, -, -, -, hmemory, -⟩ := h.housed x hx
  rw [hmemory]
  exact (hheld.create hok).2.memoryOf _ _ hmemory

theorem housed_create : ∀ x ∈ (s.requested request created pool device).servedIn request.frame,
    (s.requested request created pool device).Houses request.frame x := by
  obtain ⟨requirements, hrequires, hserves⟩ := Pool.create_serves hheld.device hok
  have hrequirements : ∀ info, device.requirements info = s.device.requirements info := by
    have hends := Pool.ends_create s.pool (d := s.device) rfl request
    rw [hok] at hends
    have hpolicy : device.policy = s.device.policy := hends
    intro info
    cases info <;> simp only [Device.requirements, hpolicy]
  intro x hx
  rw [servedIn_requested] at hx
  rcases List.mem_append.1 hx with hx | hx
  · obtain ⟨required, block, hrequired, hblock, hframe, hmemory, hsuits⟩ := h.housed x hx
    obtain ⟨i, hi⟩ := List.mem_iff_getElem?.1 hblock
    obtain ⟨block', hblock', hshape⟩ := hserves.exists_shape hi
    refine ⟨required, block', (hrequirements _).trans hrequired, List.mem_of_getElem? hblock', ?_, ?_,
      (MemoryBlock.suits_of_shape hshape required).trans hsuits⟩
    · exact (MemoryBlock.frame_of_shape hshape).trans hframe
    · rw [MemoryBlock.memory_of_shape hshape]
      exact (h.located_create hheld hok x hx).trans hmemory
  · obtain ⟨placement, hplacement, rfl⟩ := List.mem_map.1 hx
    obtain ⟨block, hblock, hframe, hmemory, hsuits⟩ :=
      hserves.housed (Option.mem_toList.1 hplacement)
    exact ⟨requirements, block, (hrequirements _).trans hrequires, hblock, hframe, hmemory, hsuits⟩

/-- Who is served is told of the last one in its memory, and becomes the last one himself. -/
theorem tenants_create :
    pool.Tenancy request.frame
        (residents device ((s.requested request created pool device).servedIn request.frame)) ∧
      ToldOfPrevious device ((s.requested request created pool device).servedIn request.frame) := by
  have hknown : ∀ x ∈ residents s.device (s.servedIn request.frame),
      ∃ block ∈ s.pool.blocks, block.memory = x.2.memory := by
    intro x hx
    obtain ⟨y, hy, hresident⟩ := List.mem_filterMap.1 hx
    obtain ⟨-, block, -, hblock, -, hmemory, -⟩ := h.housed y hy
    rw [hmemory, Option.map_some] at hresident
    exact ⟨block, hblock, by rw [← Option.some.inj hresident]⟩
  have htenancy := Pool.Tenancy.serve h.tenants hheld hknown hok
  have hlocated := h.located_create hheld hok
  have htold := h.told.congr hlocated
  rw [servedIn_requested]
  cases created with
  | none =>
      rw [Option.toList_none, List.map_nil, List.append_nil, residents_congr hlocated]
      exact ⟨htenancy, htold⟩
  | some placement =>
      obtain ⟨_, -, hserves⟩ := Pool.create_serves hheld.device hok
      obtain ⟨block, -, -, hmemory, -⟩ := hserves.housed rfl
      rw [Option.toList_some, List.map_singleton, residents_concat hmemory, residents_congr hlocated]
      refine ⟨(htenancy block.memory hmemory).2, htold.concat fun memory hmemory => ?_⟩
      rw [residents_congr hlocated]
      exact (htenancy memory hmemory).1

/-- **A request for the frame**, served or not. -/
theorem requested : (s.requested request created pool device).WellKept request.frame := by
  obtain ⟨_, -, hserves⟩ := Pool.create_serves hheld.device hok
  obtain ⟨htenants, htold⟩ := h.tenants_create hheld hok
  refine ⟨?_, h.housed_create hheld hok, htenants, fun b hb hframe hreserved => ?_, htold⟩
  · show pool.live.filter _ = _
    rw [servedIn_requested, hserves.live, List.filter_append, h.live, List.map_append, List.map_map]
    congr 1
    refine List.filter_eq_self.2 fun x hx => ?_
    obtain ⟨placement, -, rfl⟩ := List.mem_map.1 hx
    exact decide_eq_true rfl
  · obtain ⟨i, hi⟩ := List.mem_iff_getElem?.1 hb
    obtain htenant | ⟨old, hold, hreserved', hplace, htenant⟩ := hserves.reserved hi hreserved
    · rw [htenant]
      exact Option.some_ne_none _
    · rw [htenant]
      exact h.reserved old (List.mem_of_getElem? hold)
        ((congrArg Prod.snd hplace).symm.trans hframe) hreserved'

end Requests

end WellKept

/-! ## One operation, and all of them -/

/-- What holds at any time: what the pool holds is there, and every frame is well kept. -/
structure IsInOrder (s : Session) : Prop where
  holdings : Holdings s.device s.pool {}
  wellKept : ∀ frame, s.WellKept frame

namespace IsInOrder

variable {d : Device}

theorem start (hd : d.WellFormed) (shareMemory : Bool) :
    IsInOrder { pool := { shareMemory }, device := d } where
  holdings := .nothing hd shareMemory
  wellKept := fun _ => .of_vacant rfl (fun b hb => by cases hb) rfl

theorem create (h : s.IsInOrder) {request : TransientRequest} {created : Option Placement}
    {pool : Pool} {device : Device}
    (hok : (s.pool.create s.device request).result = .ok (created, pool, device)) :
    (s.requested request created pool device).IsInOrder := by
  refine ⟨(h.holdings.create hok).1, fun frame => ?_⟩
  by_cases hframe : request.frame = frame
  · subst hframe
    exact (h.wellKept _).requested h.holdings hok
  · refine (h.wellKept frame).of_spares (h.holdings.spares_create hok hframe) ?_ ?_
    · have hends := Pool.ends_create s.pool (d := s.device) rfl request
      rw [hok] at hends
      exact hends
    · have hnone : (created.toList.map fun placement => (request, placement)).filter
          (fun x => x.1.frame = frame) = [] := by
        refine List.filter_eq_nil_iff.2 fun x hx => ?_
        obtain ⟨placement, -, rfl⟩ := List.mem_map.1 hx
        simpa using hframe
      unfold servedIn requested
      rw [List.filter_append, hnone, List.append_nil]

theorem begun (h : s.IsInOrder) (other : Nat) : (s.begun other).IsInOrder := by
  refine ⟨h.holdings.recycle other, fun frame => ?_⟩
  by_cases hframe : other = frame
  · subst hframe
    refine .of_vacant ?_ (fun b hb hb' => ?_) ?_
    · show (s.pool.recycle s.device other).1.live.filter _ = []
      rw [Pool.live_recycle, List.filter_filter]
      simp
    · obtain ⟨old, -, rfl⟩ := List.mem_map.1 hb
      split
      · exact ⟨rfl, rfl⟩
      · next hother =>
          rw [if_neg hother] at hb'
          exact absurd hb' hother
    · unfold servedIn Session.begun
      rw [List.filter_filter]
      simp
  · refine (h.wellKept frame).of_spares (h.holdings.spares_recycle hframe) ?_ ?_
    · show (s.pool.recycle s.device other).2.policy = _
      rw [Pool.device_recycle]
      exact Device.policy_foldl (fun d (x : LiveObject) => d.policy_destroy x.object) _ _
    · unfold servedIn Session.begun
      rw [List.filter_filter]
      refine List.filter_congr fun x _ => ?_
      by_cases hx : x.1.frame = frame
      · simp [hx, Ne.symm hframe]
      · simp [hx]

/-- **Every operation keeps the order.** -/
theorem perform (h : s.IsInOrder) {operation : Pool.Operation}
    (hok : (s.perform operation).result = .ok s') : s'.IsInOrder := by
  cases operation with
  | create request =>
      obtain ⟨⟨created, pool, device⟩, hcreate, hrest⟩ := Outcome.result_bind_eq_ok_iff.1 hok
      cases hrest
      exact h.create hcreate
  | recycle other =>
      cases hok
      exact h.begun other
  | share shareMemory =>
      cases hok
      refine ⟨h.holdings.of_places rfl rfl, fun frame => ?_⟩
      obtain ⟨hlive, hhoused, htenants, hreserved, htold⟩ := h.wellKept frame
      exact ⟨hlive, hhoused, htenants, hreserved, htold⟩

theorem performAll (h : s.IsInOrder) {operations : List Pool.Operation}
    (hok : (s.performAll operations).result = .ok s') : s'.IsInOrder :=
  Outcome.foldlM_induction (I := fun _ x => IsInOrder x) (fun _ _ _ _ hx hstep => hx.perform hstep) h hok

end IsInOrder

/-- What holds of a pool at any time.

* `housed`: every live resource was served, and lies on a block of its frame that offers what it
  requires.
* `occupied`: a reserved block remembers the last one that came into its memory, which is live.
* `told`: whoever came was told who had come into its memory right before.
* `next`: the next request gets the best block that is free for it, and fresh memory only if none is. -/
structure ServesWell (s : Session) : Prop where
  housed : ∀ x ∈ s.pool.live, ∃ request placement requirements block,
    (request, placement) ∈ s.served ∧ placement.object = x.object ∧ request.frame = x.frame ∧
      s.device.requirements request.info = .ok requirements ∧ block ∈ s.pool.blocks ∧
      block.frame = x.frame ∧ s.device.memoryOf? x.object = some block.memory ∧
      requirements.size ≤ block.size ∧ max requirements.alignment 1 ∣ block.alignment ∧
      requirements.memoryTypes.contains block.memoryTypes = true
  occupied : ∀ b ∈ s.pool.blocks, b.reserved = true → ∃ before request placement after,
    s.servedIn b.frame = before ++ (request, placement) :: after ∧
      b.tenant = some request.handle ∧ s.device.memoryOf? placement.object = some b.memory ∧
      ⟨placement.object, b.frame⟩ ∈ s.pool.live ∧
      ∀ y ∈ after, s.device.memoryOf? y.2.object ≠ some b.memory
  told : ∀ frame, ToldOfPrevious s.device (s.servedIn frame)
  next : ∀ request created pool device,
    (s.pool.create s.device request).result = .ok (created, pool, device) →
      ∃ requirements, s.device.requirements request.info = .ok requirements ∧
        s.pool.Serves s.device request requirements created pool device

theorem IsInOrder.servesWell (h : s.IsInOrder) : s.ServesWell where
  housed := by
    intro x hx
    have hframe := h.wellKept x.frame
    have hmem : x ∈ s.pool.live.filter fun y => y.frame = x.frame :=
      List.mem_filter.2 ⟨hx, decide_eq_true rfl⟩
    rw [hframe.live] at hmem
    obtain ⟨⟨request, placement⟩, hserved, hsame⟩ := List.mem_map.1 hmem
    obtain ⟨requirements, block, hrequires, hblock, hbframe, hmemory, hsuits⟩ :=
      hframe.housed _ hserved
    obtain ⟨hmem, howner⟩ := List.mem_filter.1 hserved
    have hobject : placement.object = x.object := congrArg LiveObject.object hsame
    rw [hobject] at hmemory
    exact ⟨request, placement, requirements, block, hmem, hobject, of_decide_eq_true howner,
      hrequires, hblock, hbframe, hmemory, Pool.suits_iff.1 hsuits⟩
  occupied := by
    intro b hb hreserved
    have hframe := h.wellKept b.frame
    obtain ⟨tenant, htenant⟩ := Option.ne_none_iff_exists'.1 (hframe.reserved b hb rfl hreserved)
    have hlast := (hframe.tenants b hb rfl).symm.trans htenant
    obtain ⟨before, ⟨request, placement⟩, after, hsplit, hmemory, rfl, hafter⟩ :=
      exists_of_lastIn_residents hlast
    refine ⟨before, request, placement, after, hsplit, htenant, hmemory, ?_, hafter⟩
    exact hframe.mem_live (hsplit ▸ List.mem_append_right _ List.mem_cons_self)
  told := fun frame => (h.wellKept frame).told
  next := fun _ _ _ _ hok => Pool.create_serves h.holdings.device hok

/-- **A pool serves well at any time**, whatever was asked of it and whatever its device refused. -/
theorem serves_well {d : Device} (hd : d.WellFormed) (shareMemory : Bool)
    {operations : List Pool.Operation}
    (hok : (performAll { pool := { shareMemory }, device := d } operations).result = .ok s) :
    s.ServesWell :=
  ((IsInOrder.start hd shareMemory).performAll hok).servesWell

/-- A request for a buffer of 256 bytes. -/
def asks (n : Nat) (name : String) (first last frame : Nat) : Pool.Operation :=
  .create ⟨.slot n 0, .buffer { size := 256 }, name, ⟨first, last⟩, frame⟩

/-- A device that refuses its third request. -/
def moody : Device := { policy := { refuses := fun n _ => n = 2 } }

/-- The second buffer is refused, and the third one comes into the memory of the first.  In another frame
memory is not shared, and when that frame begins anew nobody is remembered there. -/
theorem serves_well_moody :
    ∃ s : Session,
      s.ServesWell ∧
        s.served.map (fun x => (x.1.handle, x.2.previous)) =
          [(.slot 1 0, none), (.slot 3 0, some (.slot 1 0)), (.slot 6 0, none)] ∧
        s.pool.blocks.map (fun b => (b.frame, b.reserved, b.tenant)) =
          [(0, true, some (.slot 3 0)), (1, true, some (.slot 6 0)), (1, false, none)] := by
  have hrun : Graph.succeeds (performAll { pool := {}, device := moody }
      [asks 1 "a" 0 0 0, asks 2 "b" 1 1 0, asks 3 "c" 2 2 0, asks 4 "d" 0 0 1, .share false,
        asks 5 "e" 1 1 1, .recycle 1, asks 6 "f" 0 0 1]).result (fun s =>
      decide (s.served.map (fun x => (x.1.handle, x.2.previous)) =
          [(.slot 1 0, none), (.slot 3 0, some (.slot 1 0)), (.slot 6 0, none)] ∧
        s.pool.blocks.map (fun b => (b.frame, b.reserved, b.tenant)) =
          [(0, true, some (.slot 3 0)), (1, true, some (.slot 6 0)), (1, false, none)])) = true := by
    decide +kernel
  obtain ⟨s, hok, hfacts⟩ := Graph.exists_of_succeeds hrun
  exact ⟨s, serves_well (Device.wellFormed_fresh _) true hok, of_decide_eq_true hfacts⟩

/-- A device on which every buffer requires the alignment 0. -/
def unaligned : Device :=
  { policy := { bufferRequirements := fun info => .ok ⟨info.size, 0, .ofNat 0b111⟩ } }

/-- While memory is not shared, memory is allocated although the tenant of a block that fits has ended;
and a block has the alignment 1 where 0 is required. -/
theorem allocates_unshared_and_aligns_to_one :
    (∃ s s' : Session,
      (performAll { pool := { shareMemory := false }, device := {} } [asks 1 "a" 0 0 0]).result =
          .ok s ∧
        (s.perform (asks 2 "b" 1 1 0)).result = .ok s' ∧
        (∃ b ∈ s.pool.blocks, b.frame = 0 ∧ b.lifetime.last < 1 ∧
          b.suits ⟨256, 256, .ofNat 0b111⟩ = true) ∧
        s'.device.allocationsEver = s.device.allocationsEver + 1) ∧
      ∃ s : Session,
        (performAll { pool := {}, device := unaligned } [asks 1 "a" 0 0 0]).result = .ok s ∧
          ∃ b ∈ s.pool.blocks, b.reserved = true ∧ ¬ 0 ∣ b.alignment := by
  have hunshared : Graph.succeeds
      (performAll { pool := { shareMemory := false }, device := {} } [asks 1 "a" 0 0 0]).result
      (fun s => Graph.succeeds (s.perform (asks 2 "b" 1 1 0)).result fun s' =>
        decide ((∃ b ∈ s.pool.blocks, b.frame = 0 ∧ b.lifetime.last < 1 ∧
          b.suits ⟨256, 256, .ofNat 0b111⟩ = true) ∧
          s'.device.allocationsEver = s.device.allocationsEver + 1)) = true := by
    decide +kernel
  have hunaligned : Graph.succeeds
      (performAll { pool := {}, device := unaligned } [asks 1 "a" 0 0 0]).result
      (fun s => decide (∃ b ∈ s.pool.blocks, b.reserved = true ∧ ¬ 0 ∣ b.alignment)) = true := by
    decide +kernel
  obtain ⟨s, hok, hnext⟩ := Graph.exists_of_succeeds hunshared
  obtain ⟨s', hok', hfacts⟩ := Graph.exists_of_succeeds hnext
  obtain ⟨t, htok, htfacts⟩ := Graph.exists_of_succeeds hunaligned
  exact ⟨⟨s, s', hok, hok', of_decide_eq_true hfacts⟩, t, htok, of_decide_eq_true htfacts⟩

end Session

end FrameGraph
