import FrameGraph.Logged
import FrameGraph.Resource
import FrameGraph.SlotTable

/-!
# The registry of resources

Resources are registered under names, and no two live resources share one.  A registration that is
rejected reports why, answers the null handle and leaves the registry as it was.

Resources are stored in a table of slots and looked up by name in an index beside it.  Nothing but the
operations keeps the two in step.

Principal statements: `register_of_free` and `register_of_taken` say what a registration does.
-/

set_option autoImplicit false

namespace FrameGraph

/-- Handles by name.  Of several entries under one name, the first counts. -/
structure NameIndex where
  entries : List (String × Handle) := []
  deriving Repr

namespace NameIndex

/-- The index without names. -/
def empty : NameIndex := {}

/-- The handle under a name. -/
def get? (index : NameIndex) (name : String) : Option Handle := index.entries.lookup name

/-- Puts a handle under a name, in place of the one that was there. -/
def insert (index : NameIndex) (name : String) (h : Handle) : NameIndex :=
  ⟨(name, h) :: index.entries⟩

@[simp] theorem get?_empty (name : String) : empty.get? name = none := rfl

theorem get?_insert (index : NameIndex) (name other : String) (h : Handle) :
    (index.insert name h).get? other = if name = other then some h else index.get? other := by
  by_cases heq : name = other
  · subst heq
    simp [get?, insert]
  · have hne : (other == name) = false := by simpa using fun e => heq e.symm
    simp [get?, insert, List.lookup_cons, hne, heq]

end NameIndex

/-- The registered resources, in ascending order of slots, and their handles by name. -/
structure Registry where
  table : SlotTable Resource := .empty
  names : NameIndex := .empty
  deriving Repr

namespace Registry

/-- The registry without resources. -/
def empty : Registry := {}

instance : Inhabited Registry := ⟨empty⟩

/-- The resources with their handles, in ascending order of slots. -/
def toList (r : Registry) : List (Handle × Resource) := r.table.toList

/-- The number of resources. -/
def size (r : Registry) : Nat := r.table.size

/-- The resource that a handle names. -/
def get? (r : Registry) (h : Handle) : Option Resource := r.table.get? h

/-- The handle of the resource with a given name. -/
def handle? (r : Registry) (name : String) : Option Handle := r.names.get? name

/-- The resource with a given name. -/
def named? (r : Registry) (name : String) : Option Resource := (r.handle? name).bind r.get?

/-- The name of a resource; a stale handle has none. -/
def nameOf (r : Registry) (h : Handle) : String :=
  match r.get? h with
  | some resource => resource.name
  | none => "<unknown>"

/-- Stores a resource, and its handle under its name. -/
def add (r : Registry) (resource : Resource) : Handle × Registry :=
  let (h, table) := r.table.insert resource
  (h, { table, names := r.names.insert resource.name h })

/-- Replaces the resource that a handle names by another one of the same name. -/
def set (r : Registry) (h : Handle) (resource : Resource) : Registry :=
  { r with table := r.table.set h resource }

/-- Adds a resource, unless its name is taken. -/
def register (r : Registry) (resource : Resource) : Logged (Handle × Registry) :=
  match r.handle? resource.name with
  | some _ => do
      Logged.report (.nameTaken resource.name)
      return (.null, r)
  | none => return r.add resource

/-- Adds a resource with an object of its own, which must not be null. -/
def importResource (r : Registry) (name : String) (info : ResourceInfo) (object : DeviceObject)
    (handover : Handover) : Logged (Handle × Registry) :=
  if object.isNull then do
    Logged.report (.nullImport object.kind name)
    return (.null, r)
  else r.register (.imported name info object handover)

/-- Adds a resource that the graph creates itself. -/
def createResource (r : Registry) (name : String) (info : ResourceInfo) (persistent : Bool) :
    Logged (Handle × Registry) :=
  r.register (.internal name info persistent)

/-- Marks a resource as an output of the graph. -/
def markOutput (r : Registry) (name : String) : Logged (Bool × Registry) :=
  match r.handle? name, r.named? name with
  | some h, some resource => return (true, r.set h { resource with isOutput := true })
  | _, _ => do
      Logged.report (.outputUnknown name)
      return (false, r)

/-- Gives an imported resource another object of the same kind. -/
def updateObject (r : Registry) (name : String) (object : DeviceObject) :
    Logged (Bool × Registry) :=
  if object.isNull then do
    Logged.report (.nullUpdate object.kind name)
    return (false, r)
  else
    match r.handle? name, r.named? name with
    | some h, some resource =>
        match resource.source with
        | .imported current handover =>
            if current.kind = object.kind then
              return (true, r.set h { resource with source := .imported object handover })
            else do
              Logged.report (.updateMismatch object.kind name)
              return (false, r)
        | .internal _ => do
            Logged.report (.updateMismatch object.kind name)
            return (false, r)
    | _, _ => do
        Logged.report (.updateUnknown name)
        return (false, r)

/-- Removes every resource and every name. -/
def clear (r : Registry) : Registry where
  table := r.table.clear
  names := .empty

/-- Gives every resource the lifetime that `lifetimeOf` says. -/
def setLifetimes (r : Registry) (lifetimeOf : Handle → Option Lifetime) : Registry :=
  { r with table := r.table.mapValues fun h resource => { resource with lifetime := lifetimeOf h } }

/-! ## Registrations -/

/-- The operations on a registry. -/
inductive Operation where
  | importImage (name : String) (image view : Nat) (info : ImageInfo)
      (initial final : ImageState)
  | importBuffer (name : String) (buffer : Nat) (info : BufferInfo) (initial final : BufferState)
  | createImage (name : String) (info : ImageInfo) (persistent : Bool)
  | createBuffer (name : String) (info : BufferInfo) (persistent : Bool)
  | markOutput (name : String)
  | updateImage (name : String) (image view : Nat)
  | updateBuffer (name : String) (buffer : Nat)
  deriving Repr

/-- What an operation answers: a handle, null if it was rejected, or whether it was accepted. -/
inductive Reply where
  | handle (h : Handle)
  | accepted (yes : Bool)
  deriving DecidableEq, Repr

/-- Performs an operation. -/
def perform (r : Registry) : Operation → Logged (Reply × Registry)
  | .importImage name image view info initial final =>
      answerHandle (r.importResource name (.image info) (.image image view) ⟨initial, final⟩)
  | .importBuffer name buffer info initial final =>
      answerHandle (r.importResource name (.buffer info) (.buffer buffer)
        ⟨initial.toImageState, final.toImageState⟩)
  | .createImage name info persistent =>
      answerHandle (r.createResource name (.image info) persistent)
  | .createBuffer name info persistent =>
      answerHandle (r.createResource name (.buffer info) persistent)
  | .markOutput name => answerAccepted (r.markOutput name)
  | .updateImage name image view => answerAccepted (r.updateObject name (.image image view))
  | .updateBuffer name buffer => answerAccepted (r.updateObject name (.buffer buffer))
where
  answerHandle (result : Logged (Handle × Registry)) : Logged (Reply × Registry) :=
    (fun (h, r) => (.handle h, r)) <$> result
  answerAccepted (result : Logged (Bool × Registry)) : Logged (Reply × Registry) :=
    (fun (yes, r) => (.accepted yes, r)) <$> result

/-! ## What a registration does -/

theorem register_of_taken {r : Registry} {resource : Resource} {h : Handle}
    (taken : r.handle? resource.name = some h) :
    r.register resource = ⟨(.null, r), [.nameTaken resource.name]⟩ := by
  simp only [register, taken]
  rfl

theorem register_of_free {r : Registry} {resource : Resource}
    (free : r.handle? resource.name = none) :
    r.register resource = ⟨r.add resource, []⟩ := by
  simp only [register, free]
  rfl

end Registry

end FrameGraph
