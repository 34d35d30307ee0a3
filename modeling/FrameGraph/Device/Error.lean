import FrameGraph.Info

/-!
# Device errors

The reasons for which a device refuses a request.  They are values, not faults: a refused request
leaves the device as it was, and the graph goes on without the resource.
-/

set_option autoImplicit false

namespace FrameGraph

/-- Why a device refused a request. -/
inductive DeviceError where
  | outOfMemory (size : Nat) (name : String) (inUse budget : Nat)
  | memoryFreed (kind : ResourceKind) (name : String)
  | allocationRefused (name : String)
  | creationRefused (kind : ResourceKind) (name : String)
  deriving DecidableEq, Repr

/-- A kind of resource within a sentence. -/
def ResourceKind.word : ResourceKind → String
  | .image => "image"
  | .buffer => "buffer"

/-- The wording of a device error. -/
def DeviceError.text : DeviceError → String
  | .outOfMemory size name inUse budget =>
      s!"out of device memory while allocating {size} bytes for \"{name}\" " ++
        s!"({inUse} of {budget} bytes in use)"
  | .memoryFreed kind name => s!"{kind.word} \"{name}\" aliased onto freed memory"
  | .allocationRefused name => s!"allocate memory \"{name}\": injected"
  | .creationRefused kind name => s!"create {kind.word} \"{name}\": injected"

end FrameGraph
