import FrameGraph.Device
import FrameGraph.Frame.Recording
import FrameGraph.Pool

/-!
# The resources behind a frame

Imported resources bring their own objects.  A persistent resource is backed by memory of its own,
which is kept under the name of the resource as long as it is declared the same way.  Transient
resources come from the pool, in the order of their first uses.

Principal statements: `Backings.get?_insert_self` and `Backings.get?_erase_self` — what the store
of backings knows after a change.
-/

set_option autoImplicit false

namespace FrameGraph

/-- What is behind a persistent resource. -/
structure Backing where
  info : ResourceInfo
  object : DeviceObject
  memory : Handle
  deriving DecidableEq, Repr

/-- Destroys what is behind a persistent resource. -/
def Backing.release (b : Backing) (device : Device) : Device :=
  (device.destroy b.object).free b.memory

/-- The backings of persistent resources by name. -/
structure Backings where
  entries : List (String × Backing) := []
  deriving Repr

namespace Backings

/-- The backing of that name. -/
def get? (b : Backings) (name : String) : Option Backing := b.entries.lookup name

/-- Forgets the backing of that name. -/
def erase (b : Backings) (name : String) : Backings :=
  ⟨b.entries.filter fun entry => entry.1 ≠ name⟩

/-- Stores a backing under a name. -/
def insert (b : Backings) (name : String) (backing : Backing) : Backings :=
  ⟨(b.erase name).entries ++ [(name, backing)]⟩

/-- The number of backings. -/
def size (b : Backings) : Nat := b.entries.length

/-- Holds if the backing of that name is the one of a declared persistent resource. -/
def isDeclared (registry : Registry) (name : String) (backing : Backing) : Bool :=
  (registry.named? name).any fun r => r.isPersistent && r.info = backing.info

/-- Destroys the backings that are no longer declared. -/
def releaseStale (b : Backings) (registry : Registry) (device : Device) :
    Logged (Backings × Device) :=
  let (kept, stale) := b.entries.partition fun (name, backing) =>
    isDeclared registry name backing
  { value := (⟨kept⟩, stale.foldl (fun device entry => entry.2.release device) device)
    events :=
      (stale.map fun entry => Event.persistentReleased entry.1).mergeSort fun a b =>
        !(b.text < a.text) }

/-- Destroys all backings. -/
def releaseAll (b : Backings) (device : Device) : Device :=
  b.entries.foldl (fun device entry => entry.2.release device) device

end Backings

/-- Creates memory and an object for a persistent resource.  If the object cannot be created, the
memory is freed again. -/
def makeBacking (device : Device) (resource : Resource) :
    Except Fault (Except DeviceError Backing × Device) := do
  let requirements ← device.requirements resource.info
  let (granted, device) ← device.allocate requirements resource.name
  match granted with
  | .error error => return (.error error, device)
  | .ok memory =>
      let (created, device) := device.create memory resource.kind resource.name
      match created with
      | .error error => return (.error error, device.free memory)
      | .ok object => return (.ok ⟨resource.info, object, memory⟩, device)

/-! ## Resolving a frame -/

/-- The resources of a frame as far as they are resolved, and where they come from. -/
structure Resolution where
  frame : FrameObjects := {}
  device : Device
  backings : Backings
  pool : Pool

namespace Resolution

/-- Adds the object behind a resource. -/
def addObject (r : Resolution) (h : Handle) (object : DeviceObject) : Resolution :=
  { r with
    frame := { r.frame with objects := r.frame.objects.insert h object } }

/-- Creates what is behind a persistent resource, if the device allows. -/
def addNew (r : Resolution) (h : Handle) (resource : Resource) : Outcome Resolution := do
  let (created, device) ← (makeBacking r.device resource : Except Fault _)
  match created with
  | .error error =>
      (Logged.report (.persistentFailed resource.name error) : Logged Unit)
      return { r with device }
  | .ok backing =>
      (Logged.report (.persistentCreated resource.name) : Logged Unit)
      let r := { r with device, backings := r.backings.insert resource.name backing }
      let r := r.addObject h backing.object
      return { r with frame := { r.frame with created := r.frame.created ++ [h] } }

/-- Adds a persistent resource: what was behind it before, or something new if there was nothing
or it is declared in another way now. -/
def addPersistent (r : Resolution) (h : Handle) (resource : Resource) : Outcome Resolution :=
  match r.backings.get? resource.name with
  | none => r.addNew h resource
  | some backing =>
      if backing.info = resource.info then return r.addObject h backing.object
      else
        addNew
          { r with
            backings := r.backings.erase resource.name
            device := backing.release r.device }
          h resource

/-- Adds an imported resource, or a persistent one that is used; a transient one is left out. -/
def addKept (r : Resolution) (entry : Handle × Resource) : Outcome Resolution :=
  let (h, resource) := entry
  match resource.source with
  | .imported object _ => return r.addObject h object
  | .internal true => if resource.lifetime.isSome then r.addPersistent h resource else return r
  | .internal false => return r

/-- Adds a transient resource from the pool.  If its memory was held before, the state in which it
was left is kept. -/
def addTransient (index : Nat) (table : UsageTable) (r : Resolution)
    (entry : Handle × Resource × Lifetime) : Outcome Resolution := do
  let (h, resource, lifetime) := entry
  let (created, pool, device) ← r.pool.create r.device
    { handle := h, info := resource.info, name := resource.name, lifetime, frame := index }
  let r := { r with pool, device }
  match created with
  | none => return r
  | some transient =>
      let r := r.addObject h transient.object
      match transient.previous.bind fun previous =>
          (table.get? previous).bind Timeline.lastAccess with
      | none => return r
      | some state =>
          return { r with
            frame := { r.frame with inherited := r.frame.inherited.insert h state } }

end Resolution

/-- Lifetimes in the order in which they are served. -/
def Lifetime.servedBefore (a b : Lifetime) : Bool :=
  a.first < b.first || a.first = b.first && a.last ≤ b.last

/-- The transient resources that are used, in the order of their lifetimes. -/
def transientsInOrder (registry : Registry) : List (Handle × Resource × Lifetime) :=
  (registry.toList.filterMap fun (h, resource) =>
      if resource.isTransient then resource.lifetime.map fun lifetime => (h, resource, lifetime)
      else none).mergeSort
    fun a b => a.2.2.servedBefore b.2.2

/-- Resolves the resources of a frame. -/
def resolveFrame (index : Nat) (registry : Registry) (table : UsageTable) (start : Resolution) :
    Outcome Resolution := do
  let kept ← registry.toList.foldlM Resolution.addKept start
  (transientsInOrder registry).foldlM (Resolution.addTransient index table) kept

/-! ## The store of backings -/

namespace Backings

theorem lookup_filter_ne (entries : List (String × Backing)) (name : String) :
    (entries.filter fun entry => entry.1 ≠ name).lookup name = none := by
  induction entries with
  | nil => rfl
  | cons entry rest ih =>
      obtain ⟨key, backing⟩ := entry
      by_cases h : key = name
      · rw [List.filter_cons_of_neg (by simp [h])]
        exact ih
      · have hne : (name == key) = false := by simpa using fun e => h e.symm
        rw [List.filter_cons_of_pos (by simp [h]), List.lookup_cons, hne]
        exact ih

@[simp] theorem get?_erase_self (b : Backings) (name : String) :
    (b.erase name).get? name = none :=
  lookup_filter_ne b.entries name

@[simp] theorem get?_insert_self (b : Backings) (name : String) (backing : Backing) :
    (b.insert name backing).get? name = some backing := by
  have h := lookup_filter_ne b.entries name
  simp only [get?, insert, erase, List.lookup_append, h]
  simp

end Backings

end FrameGraph
