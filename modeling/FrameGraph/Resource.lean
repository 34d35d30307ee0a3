import FrameGraph.Info
import FrameGraph.State

/-!
# Resources

A resource is a named image or buffer of the graph.  An imported resource comes with an object of
its own, with the state in which it is handed over and the state in which it is to be handed back;
an internal one is created by the graph, for one frame or (if persistent) for all of them.
-/

set_option autoImplicit false

namespace FrameGraph

/-- The device's objects behind a resource. -/
inductive DeviceObject where
  | image (image view : Nat)
  | buffer (buffer : Nat)
  deriving DecidableEq, Repr

namespace DeviceObject

def kind : DeviceObject → ResourceKind
  | .image _ _ => .image
  | .buffer _ => .buffer

def image? : DeviceObject → Option Nat
  | .image i _ => some i
  | .buffer _ => none

def view? : DeviceObject → Option Nat
  | .image _ v => some v
  | .buffer _ => none

def buffer? : DeviceObject → Option Nat
  | .image _ _ => none
  | .buffer b => some b

/-- Holds if the object of the resource is the null object. -/
def isNull : DeviceObject → Bool
  | .image i _ => i = 0
  | .buffer b => b = 0

end DeviceObject

/-- The states in which an imported resource enters and leaves the graph. -/
structure Handover where
  initial : ImageState
  final : ImageState
  deriving DecidableEq, Repr

/-- Where a resource comes from. -/
inductive Source where
  | imported (object : DeviceObject) (handover : Handover)
  | internal (persistent : Bool)
  deriving DecidableEq, Repr

/-- The first and the last position of the execution order at which a resource is used. -/
structure Lifetime where
  first : Nat
  last : Nat
  deriving DecidableEq, Repr

/-- A named image or buffer. -/
structure Resource where
  name : String
  info : ResourceInfo
  source : Source
  isOutput : Bool := false
  lifetime : Option Lifetime := none
  deriving DecidableEq, Repr

namespace Resource

/-- An imported resource.  One that is handed back for presentation is an output. -/
def imported (name : String) (info : ResourceInfo) (object : DeviceObject)
    (handover : Handover) : Resource where
  name
  info
  source := .imported object handover
  isOutput := handover.final.layout = .presentSrc

/-- A resource that the graph creates itself. -/
def internal (name : String) (info : ResourceInfo) (persistent : Bool) : Resource where
  name
  info
  source := .internal persistent

def kind (r : Resource) : ResourceKind := r.info.kind

def isImported (r : Resource) : Bool :=
  match r.source with
  | .imported _ _ => true
  | .internal _ => false

/-- Holds if the resource keeps its content from frame to frame. -/
def isPersistent (r : Resource) : Bool := r.source = .internal true

/-- Holds if the resource is created anew in every frame. -/
def isTransient (r : Resource) : Bool := r.source = .internal false

def handover? (r : Resource) : Option Handover :=
  match r.source with
  | .imported _ handover => some handover
  | .internal _ => none

def importedObject? (r : Resource) : Option DeviceObject :=
  match r.source with
  | .imported object _ => some object
  | .internal _ => none

/-- The whole of an image resource. -/
def range? (r : Resource) : Option SubresourceRange := r.info.image?.map ImageInfo.fullRange

end Resource

end FrameGraph
