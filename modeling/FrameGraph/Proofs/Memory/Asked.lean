import FrameGraph.Frame.Backing
import FrameGraph.Proofs.Memory.Pool

/-!
# What a device is asked

A device notes down each request with its answer.  Requests are made under the name of the resource that
they are for, so what is done for one resource asks nothing under the names of the others; orders ask
nothing at all.  An attempt to create a backing asks for memory, and for an object if there is memory;
each of them once.

Principal statements: `Pool.quiet_create` and `asks_makeBacking`.
-/

set_option autoImplicit false

namespace FrameGraph

namespace Device

variable {d d' d'' : Device} {name : String}

/-- The requests made under a name so far, with their answers. -/
def asked (d : Device) (name : String) : List DeviceCall :=
  d.calls.filter fun call => call.name = name

/-- Nothing is asked under a name, and the policy stays. -/
structure Quiet (name : String) (d d' : Device) : Prop where
  policy : d'.policy = d.policy
  asked : d'.asked name = d.asked name

namespace Quiet

theorem refl (name : String) (d : Device) : Quiet name d d := ⟨rfl, rfl⟩

theorem trans (h : Quiet name d d') (h' : Quiet name d' d'') : Quiet name d d'' :=
  ⟨h'.policy.trans h.policy, h'.asked.trans h.asked⟩

theorem of_calls (hpolicy : d'.policy = d.policy) (hcalls : d'.calls = d.calls) : Quiet name d d' :=
  ⟨hpolicy, by rw [Device.asked, hcalls, Device.asked]⟩

/-- Requests under other names are not heard. -/
theorem of_append (hpolicy : d'.policy = d.policy) {calls : List DeviceCall}
    (hcalls : d'.calls = d.calls ++ calls) (hother : ∀ call ∈ calls, call.name ≠ name) :
    Quiet name d d' := by
  have hnone : calls.filter (fun call => call.name = name) = [] :=
    List.filter_eq_nil_iff.2 fun call hcall => by simpa using hother call hcall
  refine ⟨hpolicy, ?_⟩
  rw [Device.asked, hcalls, List.filter_append, hnone, List.append_nil, Device.asked]

theorem requirements (h : Quiet name d d') : d'.requirements = d.requirements := by
  funext info
  cases info with
  | image info => exact congrArg (DevicePolicy.imageRequirements · info) h.policy
  | buffer info => exact congrArg (DevicePolicy.bufferRequirements · info) h.policy

/-- Orders one after another are quiet, if each of them is. -/
theorem foldl {α : Type} {order : Device → α → Device} (horder : ∀ d a, Quiet name d (order d a))
    (l : List α) (d : Device) : Quiet name d (l.foldl order d) := by
  induction l generalizing d with
  | nil => exact refl name d
  | cons a rest ih => exact (horder d a).trans (ih (order d a))

end Quiet

/-! ## Requests -/

/-- A request for memory is noted down with its answer. -/
theorem calls_allocate {requirements : Requirements} {granted : Except DeviceError Handle}
    (hok : d.allocate requirements name = .ok (granted, d')) :
    d'.policy = d.policy ∧ d'.calls = d.calls ++ [.allocate requirements name granted] := by
  obtain ⟨error, rfl, rfl⟩ | ⟨rfl, rfl⟩ := allocate_cases hok
  · exact ⟨rfl, rfl⟩
  · exact ⟨rfl, rfl⟩

/-- A request for an object is noted down with its answer. -/
theorem calls_create (d : Device) (memory : Handle) (kind : ResourceKind) (name : String) :
    (d.create memory kind name).2.calls =
      d.calls ++ [.create memory kind name (d.create memory kind name).1] := by
  rw [create_eq]
  obtain ⟨error, hrefused⟩ | hmade := d.tryCreate_cases memory kind name
  · rw [hrefused]
    rfl
  · rw [hmade]
    cases kind with
    | image => rfl
    | buffer => rfl

section Other

variable {other : String} (hother : other ≠ name)

include hother

theorem quiet_allocate {requirements : Requirements} {granted : Except DeviceError Handle}
    (hok : d.allocate requirements other = .ok (granted, d')) : Quiet name d d' := by
  obtain ⟨hpolicy, hcalls⟩ := calls_allocate hok
  refine .of_append hpolicy hcalls fun call hcall => ?_
  rw [List.mem_singleton.1 hcall]
  exact hother

theorem quiet_create (d : Device) (memory : Handle) (kind : ResourceKind) :
    Quiet name d (d.create memory kind other).2 := by
  refine .of_append (d.policy_create ..) (d.calls_create ..) fun call hcall => ?_
  rw [List.mem_singleton.1 hcall]
  exact hother

end Other

/-! ## Orders -/

theorem quiet_destroy (d : Device) (object : DeviceObject) : Quiet name d (d.destroy object) := by
  cases object with
  | image image view => exact .of_calls rfl rfl
  | buffer buffer => exact .of_calls rfl rfl

theorem quiet_release (d : Device) (backing : Backing) : Quiet name d (backing.release d) :=
  (quiet_destroy d backing.object).trans (.of_calls rfl rfl)

/-- Giving up backings asks nothing. -/
theorem quiet_releaseStale (d : Device) (b : Backings) (registry : Registry) :
    Quiet name d (b.releaseStale registry d).value.2 :=
  .foldl (fun d (entry : String × Backing) => d.quiet_release entry.2) _ d

end Device

/-! ## The pool -/

namespace Pool

variable {p p' : Pool} {d d' middle : Device} {name : String}

theorem quiet_recycle (p : Pool) (d : Device) (frame : Nat) :
    Device.Quiet name d (p.recycle d frame).2 :=
  .foldl (fun d (x : LiveObject) => d.quiet_destroy x.object) _ d

theorem Prepared.quiet {base : Pool} {request : TransientRequest}
    (h : p.Prepared d request base middle) (hother : request.name ≠ name) :
    Device.Quiet name d middle := by
  cases h with
  | reused => exact .refl name d
  | added hallocate => exact Device.quiet_allocate hother hallocate

/-- **A request to the pool asks nothing under other names.** -/
theorem quiet_create {request : TransientRequest} {created : Option Placement}
    (hok : (p.create d request).result = .ok (created, p', d')) (hother : request.name ≠ name) :
    Device.Quiet name d d' := by
  obtain ⟨-, -, requirements, error, hallocate⟩ |
    ⟨base, middle, index, block, hprepared, -, -, -, rfl, -⟩ := create_cases hok
  · exact Device.quiet_allocate hother hallocate
  · exact (hprepared.quiet hother).trans (Device.quiet_create hother middle ..)

end Pool

/-! ## Backings -/

/-- Creating a backing: memory is refused, or an object is refused and the memory given back, or both
are there. -/
theorem makeBacking_cases {d d' : Device} {resource : Resource}
    {created : Except DeviceError Backing} (hok : makeBacking d resource = .ok (created, d')) :
    ∃ requirements, d.requirements resource.info = .ok requirements ∧
      ((∃ error, d.allocate requirements resource.name = .ok (.error error, d') ∧
          created = .error error) ∨
        ∃ memory middle,
          d.allocate requirements resource.name = .ok (.ok memory, middle) ∧
            ((∃ error, (middle.create memory resource.kind resource.name).1 = .error error ∧
                created = .error error ∧
                d' = (middle.create memory resource.kind resource.name).2.free memory) ∨
              ∃ object, (middle.create memory resource.kind resource.name).1 = .ok object ∧
                created = .ok ⟨resource.info, object, memory⟩ ∧
                d' = (middle.create memory resource.kind resource.name).2)) := by
  unfold makeBacking at hok
  obtain ⟨requirements, hrequires, hok⟩ := bind_eq_ok_iff.1 hok
  obtain ⟨⟨granted, middle⟩, hallocate, hok⟩ := bind_eq_ok_iff.1 hok
  refine ⟨requirements, hrequires, ?_⟩
  cases granted with
  | error error =>
      cases hok
      exact .inl ⟨error, hallocate, rfl⟩
  | ok memory =>
      refine .inr ⟨memory, middle, hallocate, ?_⟩
      simp only at hok
      split at hok
      · next error herror =>
          cases hok
          exact .inl ⟨error, herror, rfl, rfl⟩
      · next object hcreated =>
          cases hok
          exact .inr ⟨object, hcreated, rfl, rfl⟩

/-- The requests of one attempt to create a backing, and what comes of it.

* `noMemory`: memory is refused, and no object is asked for.
* `noObject`: memory is granted, and an object in it is refused.
* `made`: memory is granted, and an object in it. -/
inductive Attempt (requires : ResourceInfo → Except Fault Requirements) (resource : Resource) :
    List DeviceCall → Except DeviceError Backing → Prop
  | noMemory (requirements : Requirements) (error : DeviceError)
      (hrequires : requires resource.info = .ok requirements) :
      Attempt requires resource [.allocate requirements resource.name (.error error)] (.error error)
  | noObject (requirements : Requirements) (memory : Handle) (error : DeviceError)
      (hrequires : requires resource.info = .ok requirements) :
      Attempt requires resource
        [.allocate requirements resource.name (.ok memory),
          .create memory resource.kind resource.name (.error error)]
        (.error error)
  | made (requirements : Requirements) (memory : Handle) (object : DeviceObject)
      (hrequires : requires resource.info = .ok requirements) :
      Attempt requires resource
        [.allocate requirements resource.name (.ok memory),
          .create memory resource.kind resource.name (.ok object)]
        (.ok ⟨resource.info, object, memory⟩)

theorem Attempt.name_eq {requires : ResourceInfo → Except Fault Requirements} {resource : Resource}
    {calls : List DeviceCall} {created : Except DeviceError Backing}
    (h : Attempt requires resource calls created) : ∀ call ∈ calls, call.name = resource.name := by
  cases h with
  | noMemory => simp [DeviceCall.name]
  | noObject => simp [DeviceCall.name]
  | made => simp [DeviceCall.name]

/-- Between two devices, one attempt is made to create a backing for the resource, and nothing else is
asked under its name. -/
def Device.Asks (d d' : Device) (resource : Resource) (created : Except DeviceError Backing) : Prop :=
  ∃ calls, Attempt d.requirements resource calls created ∧
    d'.asked resource.name = d.asked resource.name ++ calls

section MakeBacking

variable {d d' : Device} {resource : Resource} {created : Except DeviceError Backing}

theorem Device.Asks.of_quiet {x y : Device} (h : x.Asks y resource created)
    (hd : d.Quiet resource.name x) (hd' : y.Quiet resource.name d') : d.Asks d' resource created := by
  obtain ⟨calls, hattempt, hasked⟩ := h
  refine ⟨calls, hd.requirements ▸ hattempt, ?_⟩
  rw [hd'.asked, hasked, hd.asked]

/-- The requests that creating a backing makes. -/
theorem calls_makeBacking (hok : makeBacking d resource = .ok (created, d')) :
    d'.policy = d.policy ∧
      ∃ calls, Attempt d.requirements resource calls created ∧ d'.calls = d.calls ++ calls := by
  obtain ⟨requirements, hrequires, ⟨error, hallocate, rfl⟩ | ⟨memory, middle, hallocate, hcreate⟩⟩ :=
    makeBacking_cases hok
  · obtain ⟨hpolicy, hcalls⟩ := Device.calls_allocate hallocate
    exact ⟨hpolicy, _, .noMemory requirements error hrequires, hcalls⟩
  · obtain ⟨hpolicy, hcalls⟩ := Device.calls_allocate hallocate
    have hcreated := middle.calls_create memory resource.kind resource.name
    rw [hcalls, List.append_assoc] at hcreated
    obtain ⟨error, herror, rfl, rfl⟩ | ⟨object, hobject, rfl, rfl⟩ := hcreate
    · rw [herror] at hcreated
      exact ⟨(middle.policy_create ..).trans hpolicy, _,
        .noObject requirements memory error hrequires, hcreated⟩
    · rw [hobject] at hcreated
      exact ⟨(middle.policy_create ..).trans hpolicy, _,
        .made requirements memory object hrequires, hcreated⟩

/-- **Creating a backing is one attempt.** -/
theorem asks_makeBacking (hok : makeBacking d resource = .ok (created, d')) :
    d.Asks d' resource created := by
  obtain ⟨-, calls, hattempt, hcalls⟩ := calls_makeBacking hok
  have hall : calls.filter (fun call => call.name = resource.name) = calls :=
    List.filter_eq_self.2 fun call hcall => decide_eq_true (hattempt.name_eq call hcall)
  refine ⟨calls, hattempt, ?_⟩
  rw [Device.asked, hcalls, List.filter_append, hall, Device.asked]

theorem quiet_makeBacking {name : String} (hok : makeBacking d resource = .ok (created, d'))
    (hother : resource.name ≠ name) : d.Quiet name d' := by
  obtain ⟨hpolicy, calls, hattempt, hcalls⟩ := calls_makeBacking hok
  exact .of_append hpolicy hcalls fun call hcall => by rw [hattempt.name_eq call hcall]; exact hother

end MakeBacking

end FrameGraph
