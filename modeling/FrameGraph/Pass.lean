import FrameGraph.Command
import FrameGraph.Registry

/-!
# Passes and their declaration

A pass lists the resources that it accesses, each for a usage and in one direction.  The list is
drafted act by act; an act that is rejected reports why and answers the null handle.

When a pass is executed its callback sees the objects behind the resources of the frame and returns
the commands that it records.

Principal statements: `access_value_of_unknown`, `access_value_of_dangling`,
`access_value_of_rejected` and `access_value_of_accepted` give the outcomes of an access.
-/

set_option autoImplicit false

namespace FrameGraph

/-- One access of a pass: a resource, what it is used for, and the direction. -/
structure PassAccess where
  resource : Handle
  usage : Usage
  isWrite : Bool
  deriving DecidableEq, Repr

/-- What the callback of a pass sees. -/
structure PassView where
  frame : Nat
  name : String
  kind : PassKind
  registry : Registry
  objects : HandleMap DeviceObject

namespace PassView

/-- The object behind a resource in this frame. -/
def object? (view : PassView) (name : String) : Option DeviceObject :=
  (view.registry.handle? name).bind view.objects.get?

def image? (view : PassView) (name : String) : Option Nat :=
  (view.object? name).bind DeviceObject.image?

def view? (view : PassView) (name : String) : Option Nat :=
  (view.object? name).bind DeviceObject.view?

def buffer? (view : PassView) (name : String) : Option Nat :=
  (view.object? name).bind DeviceObject.buffer?

end PassView

/-- What a pass records when it is executed. -/
abbrev Callback := PassView → List Command

/-- A declared pass. -/
structure Pass where
  name : String
  kind : PassKind
  accesses : List PassAccess := []
  callback : Option Callback := none
  deriving Inhabited

namespace Pass

/-- Holds if the pass accesses the resource. -/
def involves (p : Pass) (h : Handle) : Bool := p.accesses.any fun a => a.resource = h

/-- The resources that the pass accesses, each once, in the order of their first access. -/
def resources (p : Pass) : List Handle := (p.accesses.map PassAccess.resource).eraseDups

/-- Holds if the pass writes something for presentation, or an output of the graph. -/
def producesOutput (p : Pass) (registry : Registry) : Bool :=
  p.accesses.any fun a =>
    a.isWrite && (a.usage = .present || (registry.get? a.resource).any Resource.isOutput)

end Pass

/-! ## Declaring a pass -/

/-- A pass that is being declared, together with the registry that it refers to. -/
structure PassDraft where
  name : String
  kind : PassKind
  registry : Registry
  accesses : List PassAccess := []

/-- A step of the declaration of a pass. -/
inductive Act where
  | read (name : String) (usage : Usage)
  | write (name : String) (usage : Usage)
  | readWrite (name : String) (usage : Usage)
  | createImage (name : String) (info : ImageInfo) (persistent : Bool)
  | createBuffer (name : String) (info : BufferInfo) (persistent : Bool)
  deriving Repr

namespace PassDraft

/-- Adds an access to the list, unless it is already there. -/
def record (d : PassDraft) (access : PassAccess) : PassDraft :=
  if access ∈ d.accesses then d else { d with accesses := d.accesses ++ [access] }

/-- Records an access to a named resource.  The resource must be registered, and the usage must
allow the direction and support the kind of the resource.  Nothing is reported if the name leads to a
handle that names nothing. -/
def access (d : PassDraft) (name : String) (usage : Usage) (isWrite : Bool) :
    Logged (Handle × PassDraft) :=
  match d.registry.handle? name with
  | none => do
      Logged.report (.accessUnknown d.name isWrite name)
      return (.null, d)
  | some h =>
      match d.registry.get? h with
      | none => return (.null, d)
      | some resource =>
          if usage.allows isWrite && usage.supports resource.kind then
            return (h, d.record ⟨h, usage, isWrite⟩)
          else do
            Logged.report (.accessRejected d.name isWrite resource.kind name usage)
            return (.null, d)

/-- Records that a pass reads and writes a resource: the read first and, if that was accepted, the
write. -/
def readWrite (d : PassDraft) (name : String) (usage : Usage) : Logged (Handle × PassDraft) := do
  let (h, d) ← d.access name usage false
  if h = .null then return (h, d) else d.access name usage true

/-- Registers a resource that the graph creates. -/
def createResource (d : PassDraft) (name : String) (info : ResourceInfo) (persistent : Bool) :
    Logged (Handle × PassDraft) := do
  let (h, registry) ← d.registry.createResource name info persistent
  return (h, { d with registry })

/-- Performs one step of the declaration. -/
def perform (d : PassDraft) : Act → Logged (Handle × PassDraft)
  | .read name usage => d.access name usage false
  | .write name usage => d.access name usage true
  | .readWrite name usage => d.readWrite name usage
  | .createImage name info persistent => d.createResource name (.image info) persistent
  | .createBuffer name info persistent => d.createResource name (.buffer info) persistent

/-- Performs the steps in order and collects their handles. -/
def performAll (d : PassDraft) : List Act → Logged (List Handle × PassDraft)
  | [] => return ([], d)
  | act :: rest => do
      let (h, d) ← d.perform act
      let (handles, d) ← d.performAll rest
      return (h :: handles, d)

/-- The declared pass. -/
def toPass (d : PassDraft) (callback : Option Callback) : Pass where
  name := d.name
  kind := d.kind
  accesses := d.accesses
  callback

/-! ## The outcomes of an access -/

theorem access_value_of_unknown {d : PassDraft} {name : String}
    (unknown : d.registry.handle? name = none) (usage : Usage) (isWrite : Bool) :
    (d.access name usage isWrite).value = (.null, d) := by
  simp [access, unknown]

/-- A name that leads to nothing is passed over in silence. -/
theorem access_value_of_dangling {d : PassDraft} {name : String} {handle : Handle}
    (found : d.registry.handle? name = some handle) (dangling : d.registry.get? handle = none)
    (usage : Usage) (isWrite : Bool) : (d.access name usage isWrite).value = (.null, d) := by
  simp [access, found, dangling]

theorem access_value_of_rejected {d : PassDraft} {name : String} {handle : Handle}
    {resource : Resource} (found : d.registry.handle? name = some handle)
    (live : d.registry.get? handle = some resource) {usage : Usage} {isWrite : Bool}
    (h : (usage.allows isWrite && usage.supports resource.kind) = false) :
    (d.access name usage isWrite).value = (.null, d) := by
  simp [access, found, live, h]

theorem access_value_of_accepted {d : PassDraft} {name : String} {handle : Handle}
    {resource : Resource} (found : d.registry.handle? name = some handle)
    (live : d.registry.get? handle = some resource) {usage : Usage} {isWrite : Bool}
    (h : (usage.allows isWrite && usage.supports resource.kind) = true) :
    (d.access name usage isWrite).value = (handle, d.record ⟨handle, usage, isWrite⟩) := by
  simp [access, found, live, h]

end PassDraft

end FrameGraph
