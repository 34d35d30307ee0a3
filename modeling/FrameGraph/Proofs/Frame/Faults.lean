import FrameGraph.Proofs.Graph.Reachable
import FrameGraph.Proofs.Memory.Device

/-!
# Why a frame stops

A device that refuses a request answers with an error, and the frame goes on without the resource.
A frame stops for one reason only: a size, or a sum of sizes, that is not a machine word.

Principal statement: `Graph.mayStop_of_execute`.
-/

set_option autoImplicit false

namespace FrameGraph

/-- Holds if a computation answers something with a property, or else stops with one of the faults. -/
def Ends {α : Type} (F : Fault → Prop) (P : α → Prop) : Except Fault α → Prop
  | .error fault => F fault
  | .ok a => P a

namespace Ends

variable {α β : Type} {F : Fault → Prop} {P : α → Prop} {Q : β → Prop}

theorem bind {x : Except Fault α} {f : α → Except Fault β} (hx : Ends F P x)
    (hf : ∀ a, P a → Ends F Q (f a)) : Ends F Q (x >>= f) := by
  cases x with
  | error fault => exact hx
  | ok a => exact hf a hx

theorem bind_outcome {x : Outcome α} {f : α → Outcome β} (hx : Ends F P x.result)
    (hf : ∀ a, P a → Ends F Q (f a).result) : Ends F Q (x >>= f).result := by
  rw [Outcome.result_bind]
  exact hx.bind hf

theorem foldlM {f : β → α → Outcome β} {l : List α}
    (hf : ∀ b, ∀ a ∈ l, Q b → Ends F Q (f b a).result) {b : β} (hb : Q b) :
    Ends F Q (l.foldlM f b).result := by
  induction l generalizing b with
  | nil => exact hb
  | cons a rest ih =>
      rw [List.foldlM_cons]
      refine (hf b a List.mem_cons_self hb).bind_outcome fun _ hnext => ?_
      exact ih (fun b a ha => hf b a (List.mem_cons_of_mem _ ha)) hnext

/-- What cannot stop answers something. -/
theorem exists_ok {x : Except Fault α} (hx : Ends (fun _ => False) P x) : ∃ a, x = .ok a ∧ P a := by
  cases x with
  | error fault => exact hx.elim
  | ok a => exact ⟨a, rfl, hx⟩

end Ends

/-! ## Requests -/

/-- The faults with which a request to a device of that policy may stop: a sum is not a word, or the
requirements of a resource are not. -/
def DevicePolicy.MayStop (policy : DevicePolicy) (fault : Fault) : Prop :=
  fault = .addOverflow ∨ (∃ info, policy.imageRequirements info = .error fault) ∨
    ∃ info, policy.bufferRequirements info = .error fault

section Requests

variable {policy : DevicePolicy} {d : Device}

theorem ends_checkedAdd (policy : DevicePolicy) (a b : Nat) :
    Ends policy.MayStop (fun _ => True) (checkedAdd a b) := by
  unfold checkedAdd
  split
  · trivial
  · exact .inl rfl

theorem ends_checkedSum (policy : DevicePolicy) (words : List Nat) :
    Ends policy.MayStop (fun _ => True) (checkedSum words) := by
  have hsum : ∀ start, Ends policy.MayStop (fun _ => True) (words.foldlM checkedAdd start) := by
    induction words with
    | nil => exact fun _ => trivial
    | cons w rest ih =>
        intro start
        rw [List.foldlM_cons]
        exact (ends_checkedAdd policy start w).bind fun sum _ => ih sum
  exact hsum 0

namespace Device

theorem ends_requirements (hd : d.policy = policy) (info : ResourceInfo) :
    Ends policy.MayStop (fun _ => True) (d.requirements info) := by
  cases hrequirements : d.requirements info with
  | ok requirements => trivial
  | error fault =>
      subst hd
      cases info with
      | image info => exact .inr (.inl ⟨info, hrequirements⟩)
      | buffer info => exact .inr (.inr ⟨info, hrequirements⟩)

theorem ends_tryAllocate (hd : d.policy = policy) (requirements : Requirements) (name : String) :
    Ends policy.MayStop (fun answer => answer.2.policy = policy)
      (d.tryAllocate requirements name) := by
  unfold tryAllocate
  split
  · exact hd
  · refine (ends_checkedSum policy _).bind fun inUse _ => ?_
    split
    · exact hd
    · refine (ends_checkedAdd policy inUse requirements.size).bind fun needed _ => ?_
      split
      · exact hd
      · exact hd

/-- A device answers a request for memory, unless the bytes in use cannot be counted. -/
theorem ends_allocate (hd : d.policy = policy) (requirements : Requirements) (name : String) :
    Ends policy.MayStop (fun answer => answer.2.policy = policy) (d.allocate requirements name) :=
  (ends_tryAllocate hd requirements name).bind fun _ hgranted => hgranted

@[simp] theorem policy_destroy (d : Device) (object : DeviceObject) :
    (d.destroy object).policy = d.policy := by
  cases object <;> rfl

/-- Orders one after another leave the policy as it is, if each of them does. -/
theorem policy_foldl {α : Type} {order : Device → α → Device}
    (horder : ∀ d a, (order d a).policy = d.policy) (l : List α) (d : Device) :
    (l.foldl order d).policy = d.policy := by
  induction l generalizing d with
  | nil => rfl
  | cons a rest ih => rw [List.foldl_cons, ih, horder]

end Device

@[simp] theorem Backing.policy_release (b : Backing) (d : Device) :
    (b.release d).policy = d.policy := by
  show (d.destroy b.object).policy = d.policy
  simp

theorem ends_makeBacking (hd : d.policy = policy) (resource : Resource) :
    Ends policy.MayStop (fun answer => answer.2.policy = policy) (makeBacking d resource) := by
  refine (Device.ends_requirements hd resource.info).bind fun requirements _ => ?_
  refine (Device.ends_allocate hd requirements resource.name).bind fun granted hgranted => ?_
  obtain ⟨granted, middle⟩ := granted
  have hcreate : ∀ memory, (middle.create memory resource.kind resource.name).2.policy = policy :=
    fun memory => (Device.policy_create ..).trans hgranted
  cases granted with
  | error error => exact hgranted
  | ok memory =>
      dsimp only
      split
      · exact hcreate memory
      · exact hcreate memory

end Requests

/-! ## Resolving a frame -/

section Resolving

variable {policy : DevicePolicy}

theorem Pool.ends_create (p : Pool) {d : Device} (hd : d.policy = policy)
    (request : TransientRequest) :
    Ends policy.MayStop (fun answer => answer.2.2.policy = policy) (p.create d request).result := by
  refine Ends.bind_outcome (P := fun _ => True) (Device.ends_requirements hd request.info)
    fun requirements _ => ?_
  refine Ends.bind_outcome (P := fun answer => answer.2.2.policy = policy) ?_ ?_
  · unfold acquire
    dsimp only
    split
    · exact hd
    · refine Ends.bind_outcome (P := fun answer => answer.2.policy = policy)
        (Device.ends_allocate hd requirements request.name) fun granted hgranted => ?_
      obtain ⟨granted, middle⟩ := granted
      cases granted with
      | error error => exact hgranted
      | ok memory => exact hgranted
  · rintro ⟨acquired, base, middle⟩ hmiddle
    cases acquired with
    | none => exact hmiddle
    | some block =>
        have hcreate := (Device.policy_create _ block.1 request.info.kind request.name).trans hmiddle
        dsimp only
        split
        · exact hcreate
        · split
          · exact hcreate
          · exact hcreate

namespace Resolution

variable {r : Resolution}

theorem ends_addNew (hr : r.device.policy = policy) (h : Handle) (resource : Resource) :
    Ends policy.MayStop (fun r' : Resolution => r'.device.policy = policy)
      (r.addNew h resource).result := by
  refine Ends.bind_outcome (P := fun answer => answer.2.policy = policy)
    (ends_makeBacking hr resource) fun answer hanswer => ?_
  obtain ⟨created, device⟩ := answer
  cases created with
  | error error => exact hanswer
  | ok backing => exact hanswer

theorem ends_addPersistent (hr : r.device.policy = policy) (h : Handle) (resource : Resource) :
    Ends policy.MayStop (fun r' : Resolution => r'.device.policy = policy)
      (r.addPersistent h resource).result := by
  unfold addPersistent
  split
  · exact ends_addNew hr h resource
  · next backing _ =>
      split
      · exact hr
      · refine ends_addNew ?_ h resource
        exact (backing.policy_release r.device).trans hr

theorem ends_addKept (hr : r.device.policy = policy) (entry : Handle × Resource) :
    Ends policy.MayStop (fun r' : Resolution => r'.device.policy = policy)
      (r.addKept entry).result := by
  unfold addKept
  dsimp only
  split
  · exact hr
  · split
    · exact ends_addPersistent hr _ _
    · exact hr
  · exact hr

theorem ends_addTransient (index : Nat) (table : UsageTable) (hr : r.device.policy = policy)
    (entry : Handle × Resource × Lifetime) :
    Ends policy.MayStop (fun r' : Resolution => r'.device.policy = policy)
      (addTransient index table r entry).result := by
  refine Ends.bind_outcome (P := fun answer => answer.2.2.policy = policy)
    (Pool.ends_create _ hr _) fun answer hanswer => ?_
  obtain ⟨created, pool, device⟩ := answer
  cases created with
  | none => exact hanswer
  | some placement =>
      dsimp only
      split
      · exact hanswer
      · exact hanswer

end Resolution

theorem ends_resolveFrame (index : Nat) (registry : Registry) (table : UsageTable)
    {start : Resolution} (hstart : start.device.policy = policy) :
    Ends policy.MayStop (fun r : Resolution => r.device.policy = policy)
      (resolveFrame index registry table start).result := by
  refine Ends.bind_outcome (P := fun r : Resolution => r.device.policy = policy) ?_ fun kept hkept => ?_
  · exact Ends.foldlM (fun _ entry _ hr => Resolution.ends_addKept hr entry) hstart
  · exact Ends.foldlM (fun _ entry _ hr => Resolution.ends_addTransient index table hr entry) hkept

end Resolving

/-! ## Executing a frame -/

namespace Graph

variable {g : Graph}

theorem policy_compile (g : Graph) : g.compile.value.device.policy = g.device.policy := by
  change (Backings.releaseStale g.backings g.compile.value.registry g.device).value.2.policy = _
  unfold Backings.releaseStale
  exact Device.policy_foldl (fun d entry => entry.2.policy_release d) _ g.device

theorem policy_recycle (g : Graph) (index : Nat) :
    (g.recycle index).device.policy = g.device.policy := by
  unfold recycle Pool.recycle
  exact Device.policy_foldl (fun d (x : LiveObject) => d.policy_destroy x.object) _ g.device

theorem policy_resolution (g : Graph) (index : Nat) :
    (g.resolution index).device.policy = g.device.policy := by
  refine (policy_recycle g.upToDate index).trans ?_
  unfold upToDate
  split
  · rfl
  · exact policy_compile g

/-- **A frame stops only if a size or a sum of sizes is not a word**, whatever the device refuses. -/
theorem mayStop_of_execute {index : Nat} {fault : Fault}
    (hrun : (g.execute index).result = .error fault) : g.device.policy.MayStop fault := by
  have hends : Ends g.device.policy.MayStop (fun _ => True) (g.execute index).result := by
    unfold execute
    split
    · trivial
    · refine Ends.bind_outcome (P := fun compiled => compiled = g.upToDate) ?_ ?_
      · unfold upToDate
        split
        · exact rfl
        · exact rfl
      · rintro compiled rfl
        refine Ends.bind_outcome (P := fun _ => True) ?_ fun resolved _ => ?_
        · exact Ends.bind_outcome
            (ends_resolveFrame index _ _ (policy_resolution g index)) fun _ _ => trivial
        · trivial
  rw [hrun] at hends
  exact hends

end Graph

end FrameGraph
